import Mathlib.Data.List.Nodup
import Fibers.Proofs.Twins
import Fibers.Proofs.Drift
import Fibers.Machine.Dispatch

/-!
Twin worlds: the two worlds of a pair of runs, what came to their histories since some
moment, and what the second run leaves as it was then. Each operation of the first world and
the same one of the second world, on things that are twins, give twins again.
-/

namespace Fibers

open List (Forall₂)

/-! ### Histories -/

/-- A mark that says nothing of dispatching, nor of how tasks come and end. -/
def Mark.isAside : Mark → Bool
  | .appended _ (.fresh ..) | .dispatched .. | .ended .. => false
  | _ => true

/-- The event of a pool of stacks. -/
def Event.IsPool (event : Event) : Prop := event = .poolHit ∨ (∃ size, event = .poolMiss size) ∨
    ∃ size, event = .poolFull size

/-- Two things that happen. -/
inductive Happening.Twin (B : Bond) (κ : Ties) : Happening → Happening → Prop
  | entry (current : Option FiberId) (name : String) (payload : Datum) :
      Twin B κ (.entry current name payload) (.entry current name payload)
  | event (event : Event) : Twin B κ (.event event) (.event event)
  | aside {mark mark' : Mark} (h : mark.isAside = true) (h' : mark'.isAside = true) :
      Twin B κ (.mark mark) (.mark mark')
  | dispatched {s : SchedulerId} {entry entry' : Runnable} (h : Runnable.Twin B κ s entry entry') :
      Twin B κ (.mark (.dispatched s entry)) (.mark (.dispatched s entry'))
  | ended {fiber fiber' : Fiber} {exit exit' : Exit} (hid : fiber.id = fiber'.id)
      (hhome : fiber.home = fiber'.home) (hexit : Exit.Twin B κ fiber.home fiber.id exit exit') :
      Twin B κ (.mark (.ended fiber exit)) (.mark (.ended fiber' exit'))

/-- Two histories, and the tasks that were enqueued in them. Where tasks panic in the second
run only, the pools are asked for other stacks. -/
inductive Histories.Twin (B : Bond) (κ : Ties) : List Task → List SchedulerId → List Happening →
    List Happening → Prop
  | nil : Twin B κ [] [] [] []
  | both {tasks : List Task} {struck : List SchedulerId} {news news' : List Happening}
      {happening happening' : Happening} (h : Twin B κ tasks struck news news')
      (hlast : happening.Twin B κ happening') :
      Twin B κ tasks struck (news ++ [happening]) (news' ++ [happening'])
  | finishes {tasks : List Task} {struck : List SchedulerId} {news news' : List Happening}
      {s : SchedulerId} {id : FiberId} {fault : Fault}
      (h : Twin B κ tasks struck news news') (hfault : B.fault = some fault)
      (htold : (s, id, true) ∈ κ.tasks) :
      Twin B κ tasks (struck ++ [s]) (news ++ [.event (.finished id)])
        (news' ++ [.event (fault.event id)])
  | appended {tasks : List Task} {struck : List SchedulerId} {news news' : List Happening}
      {s : SchedulerId} {id : FiberId} {body body' : List Action} {insideFaulty : Bool}
      (h : Twin B κ tasks struck news news') (hbody : Body.Twin B insideFaulty body body') :
      Twin B κ (tasks ++ [(s, id, insideFaulty)]) struck
        (news ++ [.mark (.appended s (.fresh id body))])
        (news' ++ [.mark (.appended s (.fresh id body'))])
  | first {tasks : List Task} {struck : List SchedulerId} {news news' : List Happening}
      {event : Event} (h : Twin B κ tasks struck news news') (hpanics : B.Panics)
      (hpool : event.IsPool) :
      Twin B κ tasks struck (news ++ [.event event]) news'
  | second {tasks : List Task} {struck : List SchedulerId} {news news' : List Happening}
      {event : Event} (h : Twin B κ tasks struck news news') (hpanics : B.Panics)
      (hpool : event.IsPool) :
      Twin B κ tasks struck news (news' ++ [.event event])

variable {B : Bond} {κ κ' : Ties}

theorem Happening.Twin.mono {happening happening' : Happening} (h : happening.Twin B κ happening')
    (hgrows : κ.Grows κ') : happening.Twin B κ' happening' := by
  cases h with
  | entry current name payload => exact .entry current name payload
  | event event => exact .event event
  | aside h h' => exact .aside h h'
  | dispatched h => exact .dispatched (h.mono hgrows)
  | ended hid hhome hexit => exact .ended hid hhome (hexit.mono hgrows)

theorem Histories.Twin.mono {tasks : List Task} {struck : List SchedulerId}
    {news news' : List Happening} (h : Histories.Twin B κ tasks struck news news')
    (hgrows : κ.Grows κ') : Histories.Twin B κ' tasks struck news news' := by
  induction h with
  | nil => exact .nil
  | both _ hlast ih => exact .both ih (hlast.mono hgrows)
  | finishes _ hfault htold ih => exact .finishes ih hfault (hgrows.tasks htold)
  | appended _ hbody ih => exact .appended ih hbody
  | first _ hpanics hpool ih => exact .first ih hpanics hpool
  | second _ hpanics hpool ih => exact .second ih hpanics hpool

/-! ### What is left as it was -/

/-- A moment of the two runs, and what of the second run belongs to others. -/
structure Backdrop where
  theirs : Resource → Prop
  theirOwn : SchedulerId → Prop
  theirHandle : HandleRef → Prop
  /-- The second world at the moment. -/
  base : World
  past : List Happening
  past' : List Happening
  /-- The tasks that had been enqueued by then. -/
  before : List Task
  /-- The schedulers to which tasks had come back by then that had reached the fault. -/
  fallen : List SchedulerId

/-- What the runs share belongs to nobody else. Both may use a task by its name. -/
structure Backdrop.Apart (D : Backdrop) (B : Bond) : Prop where
  slots : ∀ {name}, B.mine (.slot name) → ¬D.theirs (.slot name)
  coroutines : ∀ {name}, B.mine (.coroutine name) → ¬D.theirs (.coroutine name)
  counters : ∀ {name}, B.mine (.counter name) → ¬D.theirs (.counter name)
  positions : ∀ {n}, B.mine (.position n) → ¬D.theirs (.position n)
  failing : B.mine .failing → ¬D.theirs .lastError
  schedulers : ∀ {s}, B.own s → ¬D.theirOwn s

/-- All that belongs to others is as it was. -/
structure Backdrop.Spares (D : Backdrop) (w : World) : Prop where
  slots : ∀ name, D.theirs (.slot name) → w.slots.get? name = D.base.slots.get? name
  coroutines : ∀ name, D.theirs (.coroutine name) →
    w.coroutines.get? name = D.base.coroutines.get? name
  counters : ∀ name, D.theirs (.counter name) → w.counters.get? name = D.base.counters.get? name
  positions : ∀ n, D.theirs (.position n) → w.positions[n]? = D.base.positions[n]?
  schedulers : ∀ s, D.theirOwn s → w.scheduler? s = D.base.scheduler? s
  lastError : D.theirs .lastError → w.lastError = D.base.lastError
  tasks : w.tasks = D.base.tasks
  hoarded : w.hoarded = D.base.hoarded
  mappings : w.mappings = D.base.mappings

/-! ### Worlds -/

/-- Two tables of handles. -/
structure HandleTable.Like (B : Bond) (κ : Ties) (table table' : HandleTable) : Prop where
  length : κ.links.length = table.cells.length
  nodup : κ.links.Nodup
  cells : ∀ {x x'}, κ.Linked x x' → Option.Rel (HandleCell.Twin B κ) (table.get? x) (table'.get? x')
  alone : B.alone → table.cells.length = table'.cells.length ∧ ∀ x ∈ κ.links, κ.Linked x x

/-- The handles of others are as they were. -/
structure Backdrop.SparesHandles (D : Backdrop) (κ : Ties) (table : HandleTable) : Prop where
  others : ∀ x ∈ κ.links, ¬D.theirHandle x
  known : ∀ x, D.theirHandle x → x.index < table.cells.length
  cells : ∀ x, D.theirHandle x → table.get? x = D.base.handles.get? x

/-- Two tables of handles since the moment. -/
structure HandleTable.Twin (B : Bond) (D : Backdrop) (κ : Ties) (table table' : HandleTable) :
    Prop where
  like : table.Like B κ table'
  spares : D.SparesHandles κ table'

/-- Two worlds are the same as far as the shared names and schedulers go. -/
structure World.Like (B : Bond) (κ : Ties) (w w' : World) : Prop where
  handles : w.handles.Like B κ w'.handles
  slots : ∀ {name}, B.mine (.slot name) → Option.Rel κ.Linked (w.slots.get? name)
    (w'.slots.get? name)
  coroutines : ∀ {name}, B.mine (.coroutine name) →
    Option.Rel (Fiber.Twin B κ) (w.coroutines.get? name) (w'.coroutines.get? name)
  counters : ∀ {name}, B.mine (.counter name) → w.counters.get? name = w'.counters.get? name
  tasks : ∀ {name}, B.mine (.task name) →
    ∃ insideFaulty, Body.Twin B insideFaulty ((w.tasks.get? name).getD [])
      ((w'.tasks.get? name).getD [])
  positions : ∀ {n}, B.mine (.position n) → w.schedulerAt n = w'.schedulerAt n
  owned : ∀ {n s}, B.mine (.position n) → w.schedulerAt n = some s → B.own s
  schedulers : ∀ {s}, B.own s → Option.Rel (Scheduler.Twin B κ s) (w.scheduler? s) (w'.scheduler? s)
  drivers : B.mine .host → Forall₂ (Driver.Twin B κ) w.drivers w'.drivers
  driverAt : B.mine .host → ∀ n, w.driverAt n = w'.driverAt n
  semaphores : B.mine .host → w.semaphores = w'.semaphores
  agenda : B.mine .host → Option.Rel (Agenda.Twin κ) w.agenda w'.agenda
  callsMade : B.mine .host → w.callsMade = w'.callsMade
  lastError : B.mine .lastError → w.lastError = w'.lastError
  hoarded : w.hoarded = w'.hoarded
  /-- Whenever they ask for it, the system answers both in the same way. -/
  mapping : ∀ n n', w.mappings n = w'.mappings n'
  current : w.currentId = w'.currentId

/-- Two histories since the moment. -/
def Backdrop.News (D : Backdrop) (B : Bond) (κ : Ties) (history history' : Array Happening) :
    Prop :=
  ∃ tasks struck news news', κ.tasks = D.before ++ tasks ∧ κ.struck = D.fallen ++ struck ∧
    history.toList = D.past ++ news ∧
    history'.toList = D.past' ++ news' ∧ Histories.Twin B κ tasks struck news news'

/-- Two worlds since some moment. -/
structure World.Twin (B : Bond) (D : Backdrop) (κ : Ties) (w w' : World) : Prop where
  like : w.Like B κ w'
  apart : D.Apart B
  hands : D.SparesHandles κ w'.handles
  spares : D.Spares w'
  news : D.News B κ w.history w'.history


variable {D : Backdrop} {w w' : World}

/-! ### Tables of handles -/

theorem Ties.Linked.inj {x y z : HandleRef} (hnodup : κ.links.Nodup) (hx : κ.Linked x z)
    (hy : κ.Linked y z) : x = y := by
  obtain ⟨hlt, heq⟩ := List.getElem?_eq_some_iff.1 hx
  obtain ⟨hlt', heq'⟩ := List.getElem?_eq_some_iff.1 hy
  have hsame : κ.links[x.index] = κ.links[y.index] := heq.trans heq'.symm
  have hindex := hnodup.getElem_inj_iff.1 hsame
  cases x
  cases y
  exact congrArg HandleRef.mk hindex

theorem Ties.Linked.mem {x x' : HandleRef} (h : κ.Linked x x') : x' ∈ κ.links :=
  List.mem_of_getElem? h

theorem Ties.exists_linked {x' : HandleRef} (h : x' ∈ κ.links) : ∃ x, κ.Linked x x' := by
  obtain ⟨i, hi⟩ := List.mem_iff_getElem?.1 h
  exact ⟨⟨i⟩, hi⟩

namespace HandleTable

variable {table table' : HandleTable} {x x' : HandleRef}

theorem Like.cell (h : table.Like B κ table') (hx : κ.Linked x x') :
    ∃ cell cell', table.get? x = some cell ∧ table'.get? x' = some cell' ∧ cell.Twin B κ cell' := by
  have hcells := h.cells hx
  have hlt : x.index < table.cells.length := h.length ▸ (List.getElem?_eq_some_iff.1 hx).1
  have hget : table.get? x = some table.cells[x.index] := List.getElem?_eq_getElem hlt
  rw [hget] at hcells ⊢
  generalize table'.get? x' = after at hcells
  cases hcells with
  | some hcell => exact ⟨_, _, rfl, rfl, hcell⟩

/-- Writing to a shared handle on both sides. -/
theorem Twin.put (h : table.Twin B D κ table') (hx : κ.Linked x x') {cell cell' : HandleCell}
    (hcell : cell.Twin B κ cell') : (table.put x cell).Twin B D κ (table'.put x' cell') := by
  obtain ⟨old, old', hold, hold', -⟩ := h.like.cell hx
  refine ⟨⟨?_, h.like.nodup, fun {y y'} hy => ?_, ?_⟩, h.spares.others, ?_, fun y hy => ?_⟩
  · rw [HandleTable.put, List.length_set]
    exact h.like.length
  · rw [get?_put hold, get?_put hold']
    by_cases heq : y = x
    · subst heq
      obtain rfl : y' = x' := Option.some.inj (hy.symm.trans hx)
      rw [if_pos rfl, if_pos rfl]
      exact .some hcell
    · have hne : y' ≠ x' := fun hsame => heq (hy.inj h.like.nodup (hsame ▸ hx))
      rw [if_neg heq, if_neg hne]
      exact h.like.cells hy
  · rw [HandleTable.put, HandleTable.put, List.length_set, List.length_set]
    exact h.like.alone
  · rw [HandleTable.put, List.length_set]
    exact h.spares.known
  · have hne : y ≠ x' := fun hsame => h.spares.others x' hx.mem (hsame ▸ hy)
    rw [get?_put hold', if_neg hne]
    exact h.spares.cells y hy

theorem Twin.retain (h : table.Twin B D κ table') (hx : κ.Linked x x') :
    (table.retain x).Twin B D κ (table'.retain x') := by
  obtain ⟨cell, cell', hcell, hcell', htwin⟩ := h.like.cell hx
  rw [HandleTable.retain, HandleTable.retain, hcell, hcell']
  exact h.put hx { htwin with clones := congrArg (· + 1) htwin.clones }

theorem Twin.setSlot (h : table.Twin B D κ table') (hx : κ.Linked x x')
    {slot slot' : Slot Fiber Owner Resumption} (hslot : Slot.Twin B κ slot slot') :
    (table.setSlot x slot).Twin B D κ (table'.setSlot x' slot') := by
  obtain ⟨cell, cell', hcell, hcell', htwin⟩ := h.like.cell hx
  rw [HandleTable.setSlot, HandleTable.setSlot, hcell, hcell']
  exact h.put hx { htwin with slot := hslot }

/-- Whatever is released, the tables go on to be twins, and the same is left of it. The
induction follows the recursion of the release in the first table. -/
theorem Twin.release (h : table.Twin B D κ table') {work work' : List Debris}
    (hwork : Forall₂ (Debris.Twin κ) work work') :
    (table.release work).1.Twin B D κ (table'.release work').1 ∧
      Forall₂ Relic.Twin (table.release work).2 (table'.release work').2 := by
  fun_induction HandleTable.release table work generalizing table' work' with
  | case1 table =>
    cases hwork
    rw [HandleTable.release]
    exact ⟨h, .nil⟩
  | case2 table value rest t relics heq ih =>
    obtain _ | ⟨⟨⟩, hrest⟩ := hwork
    rw [HandleTable.release]
    rw [heq] at ih
    exact ⟨(ih h hrest).1, .cons (.dropped value) (ih h hrest).2⟩
  | case3 table serial id home rest t relics heq ih =>
    obtain _ | ⟨⟨⟩, hrest⟩ := hwork
    rw [HandleTable.release]
    rw [heq] at ih
    exact ⟨(ih h hrest).1, .cons (.discarded ..) (ih h hrest).2⟩
  | case4 table s id rest t relics heq ih =>
    obtain _ | ⟨⟨⟩, hrest⟩ := hwork
    rw [HandleTable.release]
    rw [heq] at ih
    exact ⟨(ih h hrest).1, .cons (.vanished ..) (ih h hrest).2⟩
  | case5 table x rest hnone ih =>
    obtain _ | ⟨⟨⟩, hrest⟩ := hwork
    next hx =>
      obtain ⟨cell, -, hcell, -⟩ := h.like.cell hx
      cases hcell.symm.trans hnone
  | case6 table x rest cell hget hlast ih =>
    obtain _ | ⟨⟨⟩, hrest⟩ := hwork
    next x' _ hx =>
      obtain ⟨_, cell', hcell, hcell', htwin⟩ := h.like.cell hx
      cases hcell.symm.trans hget
      rw [HandleTable.release]
      split
      next hnone => cases hcell'.symm.trans hnone
      next after hafter =>
        cases hcell'.symm.trans hafter
        rw [if_pos (htwin.clones ▸ hlast)]
        have hspent : HandleCell.Twin B κ { cell with clones := 0, slot := .spent }
          { cell' with clones := 0, slot := .spent } :=
          { htwin with clones := rfl, slot := .spent }
        exact ih (h.put hx hspent) (List.rel_append htwin.debris hrest)
  | case7 table x rest cell hget hmore ih =>
    obtain _ | ⟨⟨⟩, hrest⟩ := hwork
    next x' _ hx =>
      obtain ⟨_, cell', hcell, hcell', htwin⟩ := h.like.cell hx
      cases hcell.symm.trans hget
      rw [HandleTable.release]
      split
      next hnone => cases hcell'.symm.trans hnone
      next after hafter =>
        cases hcell'.symm.trans hafter
        rw [if_neg (htwin.clones ▸ hmore)]
        have hworn : HandleCell.Twin B κ { cell with clones := cell.clones - 1 }
          { cell' with clones := cell'.clones - 1 } :=
          { htwin with clones := congrArg (· - 1) htwin.clones }
        exact ih (h.put hx hworn) hrest

end HandleTable

end Fibers
