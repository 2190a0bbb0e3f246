import Fibers.Proofs.Discarding

/-!
One handle in use. Parks and wakes go through clones of a handle, one after the other
and by anybody, while one clone more is kept. The slot takes part in at most two of
them: the first moves it out of pending, the second makes it spent and hands out the
fiber with its resumption. All others leave it as it was.
-/

namespace Fibers

/-- A slot moves on: something arrives first, or what was missing arrives. -/
inductive Slot.Advances {φ ω ρ : Type} : Slot φ ω ρ → Slot φ ω ρ → Prop
  | wakes (resumption : ρ) : Advances .pending (.woken resumption)
  | parks (fiber : φ) (owner : ω) : Advances .pending (.parked fiber owner)
  | joined (resumption : ρ) : Advances (.woken resumption) .spent
  | roused (fiber : φ) (owner : ω) : Advances (.parked fiber owner) .spent

/-- What somebody does with a clone of a handle. -/
inductive HandleUse
  | park (fiber : Fiber) (owner : Owner)
  | wake (owner : Owner) (resumption : Resumption)

/-- What a use of a handle is answered with. -/
inductive HandleAnswer
  | parked (back : Option (Fiber × Resumption))
  | woken (answer : Except SchedulerFault (Option (Fiber × Resumption)))

/-- A use of a handle, with its answer, between two states of the slot. -/
structure Exchange where
  before : Slot Fiber Owner Resumption
  use : HandleUse
  answer : HandleAnswer
  after : Slot Fiber Owner Resumption

namespace Exchange

/-- The resumption of a wake that is accepted. -/
def wake? (e : Exchange) : Option Resumption :=
  match e.use, e.answer with
  | .wake _ resumption, .woken (.ok _) => some resumption
  | _, _ => none

/-- The fiber of a park that is absorbed, or answered with what was stored. -/
def park? (e : Exchange) : Option Fiber :=
  match e.use, e.answer, e.before with
  | .park fiber _, .parked none, _ => some fiber
  | .park fiber _, .parked (some _), .woken _ => some fiber
  | _, _, _ => none

/-- The fiber and the resumption that are handed out together. A fiber that cannot stay
is handed back with an error instead. -/
def pair? (e : Exchange) : Option (Fiber × Resumption) :=
  match e.answer, e.before with
  | .woken (.ok met), _ => met
  | .parked back, .woken _ => back
  | _, _ => none

/-- How a use of a handle comes out. -/
inductive Fares : Exchange → Prop
  | parked (fiber : Fiber) (owner : Owner) :
      Fares ⟨.pending, .park fiber owner, .parked none, .parked fiber owner⟩
  | joined (fiber : Fiber) (owner : Owner) (resumption : Resumption) :
      Fares ⟨.woken resumption, .park fiber owner, .parked (some (fiber, resumption)), .spent⟩
  | handedBack {slot : Slot Fiber Owner Resumption} (fiber : Fiber) (owner : Owner)
      (hused : slot = .spent ∨ ∃ other holder, slot = .parked other holder) :
      Fares ⟨slot, .park fiber owner,
        .parked (some (fiber, .error (.ofFault (.notSuspended fiber.id)))), slot⟩
  | stored (owner : Owner) (resumption : Resumption) :
      Fares ⟨.pending, .wake owner resumption, .woken (.ok none), .woken resumption⟩
  | roused (fiber : Fiber) (owner : Owner) (resumption : Resumption) :
      Fares ⟨.parked fiber owner, .wake owner resumption,
        .woken (.ok (some (fiber, resumption))), .spent⟩
  | refused {slot : Slot Fiber Owner Resumption} (owner : Owner) (resumption : Resumption)
      (fault : SchedulerFault) (hused : slot ≠ .pending)
      (hother : ∀ fiber, slot ≠ .parked fiber owner) :
      Fares ⟨slot, .wake owner resumption, .woken (.error fault), slot⟩

end Exchange

namespace World

/-- The state of a handle's slot. -/
def slot (w : World) (x : HandleRef) : Slot Fiber Owner Resumption :=
  (w.handles.get? x).elim .spent HandleCell.slot

/-- A new clone of the handle is used, and gone afterwards. -/
def use (w : World) (x : HandleRef) : HandleUse → HandleAnswer × World
  | .park fiber owner =>
    let (back, w) := (w.retain x).park x fiber owner
    (.parked back, w)
  | .wake owner resumption =>
    let (answer, w) := (w.retain x).wake x owner resumption
    (.woken answer, w)

/-- Uses of a handle one after the other. -/
def exchanges (w : World) (x : HandleRef) : List HandleUse → List Exchange
  | [] => []
  | use :: rest =>
    ⟨w.slot x, use, (w.use x use).1, (w.use x use).2.slot x⟩ :: (w.use x use).2.exchanges x rest

/-- A clone of the handle is kept all the while. -/
def KeepsClone (w : World) (x : HandleRef) : List HandleUse → Prop
  | [] => 0 < w.handles.clones x
  | use :: rest => 0 < w.handles.clones x ∧ (w.use x use).2.KeepsClone x rest

variable {w w' : World} {x : HandleRef} {cell : HandleCell} {uses : List HandleUse}

theorem KeepsClone.held (h : w.KeepsClone x uses) : 0 < w.handles.clones x := by
  cases uses with
  | nil => exact h
  | cons => exact h.1

theorem exists_cell (h : 0 < w.handles.clones x) : ∃ cell, w.handles.get? x = some cell := by
  rw [HandleTable.clones] at h
  cases hcell : w.handles.get? x with
  | none => rw [hcell] at h; cases h
  | some cell => exact ⟨cell, rfl⟩

theorem slot_eq (hcell : w.handles.get? x = some cell) : w.slot x = cell.slot := by
  rw [slot, hcell, Option.elim_some]

theorem handles_retain (hcell : w.handles.get? x = some cell) :
    (w.retain x).handles = w.handles.put x { cell with clones := cell.clones + 1 } := by
  rw [retain, HandleTable.retain, hcell]

theorem handles_setSlot (hcell : w.handles.get? x = some cell)
    (laid : Slot Fiber Owner Resumption) :
    (w.setSlot x laid).handles = w.handles.put x { cell with slot := laid } := by
  rw [setSlot, HandleTable.setSlot, hcell]

theorem get?_retain (hcell : w.handles.get? x = some cell) :
    (w.retain x).handles.get? x = some { cell with clones := cell.clones + 1 } := by
  rw [handles_retain hcell, HandleTable.get?_put hcell, if_pos rfl]

/-- What is released leaves the slot of a handle alone that is still held. -/
theorem slot_release {work : List Debris} (hheld : 0 < (w.release work).handles.clones x) :
    (w.release work).slot x = w.slot x := by
  have hsameOrGone := (w.noArrivals_release work).cells x
  obtain ⟨after, hafter⟩ := exists_cell hheld
  cases hbefore : w.handles.get? x with
  | none =>
    rw [hbefore, hafter] at hsameOrGone
    cases hsameOrGone
  | some cell =>
    obtain ⟨after, hafter, hslot⟩ := hsameOrGone.slot_eq hbefore hheld
    rw [slot_eq hbefore, slot_eq hafter, hslot]

theorem slot_setSlot (hcell : w.handles.get? x = some cell) (laid : Slot Fiber Owner Resumption) :
    (w.setSlot x laid).slot x = laid := by
  rw [slot, get?_setSlot hcell, if_pos rfl, Option.elim_some]

/-- Every use of a handle that is held afterwards comes out in one of six ways. -/
theorem use_fares (hcell : w.handles.get? x = some cell) (use : HandleUse)
    (hheld : 0 < (w.use x use).2.handles.clones x) :
    Exchange.Fares ⟨w.slot x, use, (w.use x use).1, (w.use x use).2.slot x⟩ := by
  have hretained := get?_retain hcell
  rw [slot_eq hcell]
  cases use with
  | park fiber owner =>
    have hparks := parks hretained fiber owner
    simp only [World.use] at hheld ⊢
    generalize (w.retain x).park x fiber owner = result at hparks hheld ⊢
    cases hparks with
    | absorbed hslot u hu =>
      have hu : u.handles.get? x = some { cell with clones := cell.clones + 1 } := by
        rcases hu with rfl | rfl <;> exact hretained
      have hafter := (slot_release hheld).trans (slot_setSlot hu _)
      simp only [hafter, show cell.slot = .pending from hslot]
      exact .parked fiber owner
    | met resumption hslot =>
      have hafter := (slot_release hheld).trans (slot_setSlot hretained _)
      simp only [hafter, show cell.slot = .woken resumption from hslot]
      exact .joined fiber owner resumption
    | refused hslot =>
      have hafter := (slot_release hheld).trans (slot_eq hretained)
      simp only [hafter]
      exact .handedBack fiber owner hslot
  | wake owner resumption =>
    have hwakes := wakes hretained owner resumption
    simp only [World.use] at hheld ⊢
    generalize (w.retain x).wake x owner resumption = result at hwakes hheld ⊢
    cases hwakes with
    | stored hslot =>
      have hafter := (slot_release hheld).trans (slot_setSlot hretained _)
      simp only [hafter, show cell.slot = .pending from hslot]
      exact .stored owner resumption
    | met fiber hslot =>
      have hafter := (slot_release hheld).trans (slot_setSlot hretained _)
      simp only [hafter, show cell.slot = .parked fiber owner from hslot]
      exact .roused fiber owner resumption
    | refused fault hslot hother =>
      have hafter := (slot_release hheld).trans (slot_eq hretained)
      simp only [hafter]
      exact .refused owner resumption fault hslot hother

end World

/-! ### Any number of uses -/

/-- Exchanges of one slot, each of which begins where the one before it ended. -/
inductive Handled : Slot Fiber Owner Resumption → List Exchange → Slot Fiber Owner Resumption → Prop
  | nil (slot : Slot Fiber Owner Resumption) : Handled slot [] slot
  | cons {e : Exchange} {rest : List Exchange} {slot last : Slot Fiber Owner Resumption}
      (hbefore : e.before = slot) (hfares : e.Fares) (hrest : Handled e.after rest last) :
      Handled slot (e :: rest) last

/-- Whose resumptions and fibers were accepted, which of them were handed out together,
and what that makes of the slot. -/
inductive Tally : List Resumption → List Fiber → List (Fiber × Resumption) →
    Slot Fiber Owner Resumption → Prop
  | apart : Tally [] [] [] .pending
  | woken (resumption : Resumption) : Tally [resumption] [] [] (.woken resumption)
  | parked (fiber : Fiber) (owner : Owner) : Tally [] [fiber] [] (.parked fiber owner)
  | met (fiber : Fiber) (resumption : Resumption) :
      Tally [resumption] [fiber] [(fiber, resumption)] .spent

namespace Handled

open Exchange (wake? park? pair?)

variable {log first second : List Exchange} {slot last : Slot Fiber Owner Resumption}
  {fiber : Fiber} {owner : Owner} {resumption : Resumption} {e : Exchange}

theorem of_append (h : Handled slot (first ++ second) last) :
    ∃ between, Handled slot first between ∧ Handled between second last := by
  induction first generalizing slot with
  | nil => exact ⟨slot, .nil slot, h⟩
  | cons e rest ih =>
    cases h with
    | cons hbefore hfares hrest =>
      obtain ⟨between, hfirst, hsecond⟩ := ih hrest
      exact ⟨between, .cons hbefore hfares hfirst, hsecond⟩

theorem fares (h : Handled slot log last) (member : e ∈ log) : e.Fares := by
  obtain ⟨first, second, rfl⟩ := List.append_of_mem member
  obtain ⟨between, -, hsecond⟩ := h.of_append
  cases hsecond with
  | cons _ hfares => exact hfares

theorem chained (h : Handled slot log last) : log.IsChain fun e next => next.before = e.after := by
  induction h with
  | nil => exact .nil
  | cons _ _ hrest ih =>
    cases hrest with
    | nil => exact .singleton _
    | cons hbefore => exact .cons_cons hbefore ih

/-- A handle that is spent accepts nothing. -/
theorem spent (h : Handled .spent log last) :
    log.filterMap wake? = [] ∧ log.filterMap park? = [] ∧ log.filterMap pair? = [] ∧
      last = .spent := by
  obtain ⟨slot, hslot⟩ : ∃ slot : Slot Fiber Owner Resumption, slot = .spent := ⟨_, rfl⟩
  rw [← hslot] at h
  induction h with
  | nil => exact ⟨rfl, rfl, rfl, hslot⟩
  | cons hbefore hfares hrest ih =>
    subst hslot
    cases hfares with
    | handedBack =>
      cases hbefore
      exact ih rfl
    | refused =>
      cases hbefore
      exact ih rfl
    | parked | joined | stored | roused => cases hbefore

/-- Where the resumption has arrived, only its fiber is accepted. -/
theorem tally_woken (h : Handled (.woken resumption) log last) :
    Tally (resumption :: log.filterMap wake?) (log.filterMap park?) (log.filterMap pair?) last := by
  obtain ⟨slot, hslot⟩ : ∃ slot : Slot Fiber Owner Resumption, slot = .woken resumption := ⟨_, rfl⟩
  rw [← hslot] at h
  induction h with
  | nil => exact hslot ▸ .woken resumption
  | @cons _ rest _ _ hbefore hfares hrest ih =>
    subst hslot
    cases hfares with
    | joined fiber owner other =>
      cases hbefore
      obtain ⟨hwakes, hparks, hpairs, rfl⟩ := hrest.spent
      show Tally (resumption :: rest.filterMap wake?) (fiber :: rest.filterMap park?)
        ((fiber, resumption) :: rest.filterMap pair?) .spent
      rw [hwakes, hparks, hpairs]
      exact .met fiber resumption
    | refused =>
      cases hbefore
      exact ih rfl
    | handedBack _ _ hused =>
      cases hbefore
      rcases hused with hused | ⟨_, _, hused⟩ <;> cases hused
    | parked | stored | roused => cases hbefore

/-- Where the fiber has arrived, only its resumption is accepted. -/
theorem tally_parked (h : Handled (.parked fiber owner) log last) :
    Tally (log.filterMap wake?) (fiber :: log.filterMap park?) (log.filterMap pair?) last := by
  obtain ⟨slot, hslot⟩ : ∃ slot : Slot Fiber Owner Resumption,
    slot = .parked fiber owner := ⟨_, rfl⟩
  rw [← hslot] at h
  induction h with
  | nil => exact hslot ▸ .parked fiber owner
  | @cons _ rest _ _ hbefore hfares hrest ih =>
    subst hslot
    cases hfares with
    | roused other holder resumption =>
      cases hbefore
      obtain ⟨hwakes, hparks, hpairs, rfl⟩ := hrest.spent
      show Tally (resumption :: rest.filterMap wake?) (fiber :: rest.filterMap park?)
        ((fiber, resumption) :: rest.filterMap pair?) .spent
      rw [hwakes, hparks, hpairs]
      exact .met fiber resumption
    | handedBack =>
      cases hbefore
      exact ih rfl
    | refused =>
      cases hbefore
      exact ih rfl
    | parked | joined | stored => cases hbefore

/-- What a new handle accepts is at most one resumption and at most one fiber. -/
theorem tally (h : Handled .pending log last) :
    Tally (log.filterMap wake?) (log.filterMap park?) (log.filterMap pair?) last := by
  cases h with
  | nil => exact .apart
  | cons hbefore hfares hrest =>
    cases hfares with
    | parked fiber owner => exact hrest.tally_parked
    | stored owner resumption => exact hrest.tally_woken
    | handedBack _ _ hused =>
      cases hbefore
      rcases hused with hused | ⟨_, _, hused⟩ <;> cases hused
    | refused _ _ fault hused => exact absurd hbefore hused
    | joined | roused => cases hbefore

end Handled

/-- A use that is accepted moves the slot on, and any other leaves it as it was. -/
theorem Exchange.Fares.moves {e : Exchange} (h : e.Fares) :
    ((e.wake?.isSome ∨ e.park?.isSome) ∧ e.before.Advances e.after) ∨
      (e.wake? = none ∧ e.park? = none ∧ e.after = e.before) := by
  cases h with
  | parked fiber owner => exact .inl ⟨.inr rfl, .parks fiber owner⟩
  | joined fiber owner resumption => exact .inl ⟨.inr rfl, .joined resumption⟩
  | stored owner resumption => exact .inl ⟨.inl rfl, .wakes resumption⟩
  | roused fiber owner resumption => exact .inl ⟨.inl rfl, .roused fiber owner⟩
  | handedBack _ _ hused =>
    refine .inr ⟨rfl, ?_, rfl⟩
    rcases hused with rfl | ⟨_, _, rfl⟩ <;> rfl
  | refused => exact .inr ⟨rfl, rfl, rfl⟩

namespace World

variable {w : World} {x : HandleRef} {cell : HandleCell}

theorem exchanges_handled {uses : List HandleUse} (hkept : w.KeepsClone x uses) :
    ∃ last, Handled (w.slot x) (w.exchanges x uses) last := by
  induction uses generalizing w with
  | nil => exact ⟨_, .nil _⟩
  | cons use rest ih =>
    obtain ⟨hheld, hrest⟩ := hkept
    obtain ⟨cell, hcell⟩ := exists_cell hheld
    obtain ⟨last, hlast⟩ := ih hrest
    exact ⟨last, .cons rfl (use_fares hcell use hrest.held) hlast⟩

/-- The world with something else in a handle's slot. -/
def withSlot (w : World) (x : HandleRef) (cell : HandleCell) (slot : Slot Fiber Owner Resumption) :
    World :=
  { w with handles := w.handles.put x { cell with slot } }

theorem get?_withSlot (hcell : w.handles.get? x = some cell) (slot : Slot Fiber Owner Resumption) :
    (w.withSlot x cell slot).handles.get? x = some { cell with slot } := by
  rw [withSlot, HandleTable.get?_put hcell, if_pos rfl]

theorem withSlot_withSlot (w : World) (x : HandleRef) (cell : HandleCell)
    (first second : Slot Fiber Owner Resumption) :
    (w.withSlot x cell first).withSlot x { cell with slot := first } second =
    w.withSlot x cell second := by
  simp only [withSlot, HandleTable.put, List.set_set]

section Uses

variable {fiber : Fiber} {owner : Owner} {resumption : Resumption}
  (hcell : w.handles.get? x = some cell) (hheld : 0 < cell.clones)
include hcell hheld

/-- A clone that was made for it lays something in the slot, and is gone. -/
theorem lay_eq (slot : Slot Fiber Owner Resumption) :
    ((w.retain x).setSlot x slot).release [.handle x] = w.withSlot x cell slot := by
  have hretained := get?_retain hcell
  have hlaid := (get?_setSlot hretained slot x).trans (if_pos rfl)
  rw [release_eq, HandleTable.release_shared hlaid (Nat.succ_lt_succ hheld),
    handles_setSlot hretained, handles_retain hcell]
  simp only [HandleTable.put, List.set_set, Nat.add_sub_cancel, List.map_nil, Array.append_empty]
  rfl

theorem use_park_pending (hslot : cell.slot = .pending) :
    w.use x (.park fiber owner) = (.parked none, w.withSlot x cell (.parked fiber owner)) := by
  have hmore : ¬cell.clones + 1 ≤ 1 := Nat.not_le.2 (Nat.succ_lt_succ hheld)
  simp only [use, park, get?_retain hcell, hslot, Slot.park, if_neg hmore, lay_eq hcell hheld]

theorem use_park_woken (hslot : cell.slot = .woken resumption) :
    w.use x (.park fiber owner) =
      (.parked (some (fiber, resumption)), w.withSlot x cell .spent) := by
  simp only [use, park, get?_retain hcell, hslot, Slot.park, lay_eq hcell hheld]

theorem use_wake_pending (hslot : cell.slot = .pending) : w.use x (.wake owner resumption) =
    (.woken (.ok none), (w.mark (.accepted x resumption)).withSlot x cell (.woken resumption)) := by
  rw [← lay_eq (w := w.mark _) hcell hheld]
  simp only [use, wake, get?_retain hcell, hslot, Slot.wake]
  rfl

theorem use_wake_parked (hslot : cell.slot = .parked fiber owner) :
    w.use x (.wake owner resumption) =
    (.woken (.ok (some (fiber, resumption))), (w.mark (.accepted x resumption)).withSlot x
      cell .spent) := by
  rw [← lay_eq (w := w.mark _) hcell hheld]
  simp only [use, wake, get?_retain hcell, hslot, Slot.wake, if_true]
  rfl

end Uses

/-- A fiber and its resumption meet at a handle and come out together, in the same world,
whichever of them comes first. -/
structure Meets (w : World) (x : HandleRef) (fiber : Fiber) (owner : Owner)
    (resumption : Resumption) (parked woken met : World) : Prop where
  parks : w.use x (.park fiber owner) = (.parked none, parked)
  thenWakes : parked.use x (.wake owner resumption) = (.woken (.ok (some (fiber, resumption))), met)
  wakes : w.use x (.wake owner resumption) = (.woken (.ok none), woken)
  thenParks : woken.use x (.park fiber owner) = (.parked (some (fiber, resumption)), met)

theorem meets_of_pending (hcell : w.handles.get? x = some cell) (hheld : 0 < cell.clones)
    (hslot : cell.slot = .pending) (fiber : Fiber) (owner : Owner) (resumption : Resumption) :
    ∃ parked woken met, w.Meets x fiber owner resumption parked woken met := by
  have hparked := get?_withSlot hcell (.parked fiber owner)
  have hwoken := get?_withSlot (w := w.mark (.accepted x resumption)) hcell (.woken resumption)
  refine ⟨_, _, (w.mark (.accepted x resumption)).withSlot x cell .spent,
    use_park_pending hcell hheld hslot, ?_, use_wake_pending hcell hheld hslot, ?_⟩
  · rw [use_wake_parked hparked hheld rfl]
    exact congrArg _ (withSlot_withSlot (w.mark (.accepted x resumption)) x cell _ _)
  · rw [use_park_woken hwoken hheld rfl]
    exact congrArg _ (withSlot_withSlot (w.mark (.accepted x resumption)) x cell _ _)

end World

/-- What a handle does for those who use it, from the time when it is new. -/
structure ServesOnce (log : List Exchange) : Prop where
  begins : ∀ e ∈ log.head?, e.before = .pending
  chained : log.IsChain fun e next => next.before = e.after
  /-- A use that is accepted moves the slot on, and any other leaves it as it was. -/
  moves : ∀ e ∈ log, ((e.wake?.isSome ∨ e.park?.isSome) ∧ e.before.Advances e.after) ∨
    (e.wake? = none ∧ e.park? = none ∧ e.after = e.before)
  wakesOnce : (log.filterMap Exchange.wake?).length ≤ 1
  parksOnce : (log.filterMap Exchange.park?).length ≤ 1
  /-- Once both are there, the fiber that was accepted has been handed out with the
  resumption that was accepted, and nothing else ever is. -/
  pairs : log.filterMap Exchange.pair? = (log.filterMap Exchange.park?).zip
    (log.filterMap Exchange.wake?)
  /-- The one of the two that came second hands them out. -/
  second : ∀ first e rest, log = first ++ e :: rest → e.pair?.isSome →
    (e.park?.isSome ∧ first.filterMap Exchange.wake? ≠ []) ∨
    (e.wake?.isSome ∧ first.filterMap Exchange.park? ≠ [])
  /-- A fiber that comes to a handle in use is handed back with an error of its own. -/
  handsBack : ∀ e ∈ log, ∀ fiber owner, e.use = .park fiber owner →
    (e.before = .spent ∨ ∃ other holder, e.before = .parked other holder) →
      e.answer = .parked (some (fiber, .error (.ofFault (.notSuspended fiber.id)))) ∧
        e.after = e.before

theorem Handled.second {log first rest : List Exchange} {last : Slot Fiber Owner Resumption}
    {e : Exchange} (h : Handled .pending log last) (hlog : log = first ++ e :: rest)
    (hpair : e.pair?.isSome) :
    (e.park?.isSome ∧ first.filterMap Exchange.wake? ≠ []) ∨
      (e.wake?.isSome ∧ first.filterMap Exchange.park? ≠ []) := by
  subst hlog
  obtain ⟨between, hfirst, hrest⟩ := h.of_append
  have htally := hfirst.tally
  cases hrest with
  | cons hbefore hfares =>
    subst hbefore
    cases hfares with
    | joined fiber owner resumption =>
      generalize first.filterMap Exchange.wake? = wakes, first.filterMap Exchange.park? = parks,
        first.filterMap Exchange.pair? = pairs at htally
      cases htally
      exact .inl ⟨rfl, List.cons_ne_nil _ _⟩
    | roused fiber owner resumption =>
      generalize first.filterMap Exchange.wake? = wakes, first.filterMap Exchange.park? = parks,
        first.filterMap Exchange.pair? = pairs at htally
      cases htally
      exact .inr ⟨rfl, List.cons_ne_nil _ _⟩
    | handedBack _ _ hused => rcases hused with rfl | ⟨_, _, rfl⟩ <;> cases hpair
    | parked | stored | refused => cases hpair

theorem Handled.servesOnce {log : List Exchange} {last : Slot Fiber Owner Resumption}
    (h : Handled .pending log last) : ServesOnce log where
  begins e member := by
    cases h with
    | nil => cases member
    | cons hbefore =>
      cases member
      exact hbefore
  chained := h.chained
  moves e member := (h.fares member).moves
  wakesOnce := by
    have htally := h.tally
    generalize log.filterMap Exchange.wake? = wakes, log.filterMap Exchange.park? = parks,
      log.filterMap Exchange.pair? = pairs at htally
    cases htally <;> simp
  parksOnce := by
    have htally := h.tally
    generalize log.filterMap Exchange.wake? = wakes, log.filterMap Exchange.park? = parks,
      log.filterMap Exchange.pair? = pairs at htally
    cases htally <;> simp
  pairs := by
    have htally := h.tally
    generalize log.filterMap Exchange.wake? = wakes, log.filterMap Exchange.park? = parks,
      log.filterMap Exchange.pair? = pairs at htally
    cases htally <;> rfl
  second first e rest := h.second
  handsBack e member fiber owner huse hused := by
    have hfares := h.fares member
    cases hfares with
    | handedBack =>
      cases huse
      exact ⟨rfl, rfl⟩
    | parked | joined => rcases hused with hused | ⟨_, _, hused⟩ <;> cases hused
    | stored | roused | refused => cases huse

/-- A handle works once. As long as a clone of it is kept, whoever parks and wakes through
other clones, at most one fiber and at most one resumption are accepted, and the two come
out together, once, at the second of them; in both orders they come out alike. -/
theorem handles_serve_once {w : World} {x : HandleRef} {cell : HandleCell}
    (hcell : w.handles.get? x = some cell) (hslot : cell.slot = .pending) {uses : List HandleUse}
    (hkept : w.KeepsClone x uses) :
    ServesOnce (w.exchanges x uses) ∧ ∀ fiber owner resumption, ∃ parked woken met,
      w.Meets x fiber owner resumption parked woken met := by
  obtain ⟨last, hhandled⟩ := World.exchanges_handled hkept
  rw [World.slot_eq hcell, hslot] at hhandled
  refine ⟨hhandled.servesOnce, World.meets_of_pending hcell ?_ hslot⟩
  have hheld := hkept.held
  rwa [HandleTable.clones, hcell] at hheld

/-- A world with one handle, which has one clone and was not used. -/
def World.withHandle : World := (Script.single.start.makeHandle ⟨1⟩ 1).2

/-- A fiber that waits, with nothing to do afterwards. -/
def Fiber.idling (number : Nat) : Fiber :=
  ⟨number, ⟨number⟩, none, ⟨number, 4096, .direct⟩, .suspended [] .unit⟩

/-- Two fibers and two callers contend for a handle. -/
def contending : List HandleUse :=
  [.park (.idling 1) (.caller 1), .park (.idling 2) (.caller 2), .wake (.caller 2) .unit,
    .wake (.caller 1) .unit, .park (.idling 2) (.caller 2), .wake (.caller 1) .unit]

theorem contended_handle_serves_once :
    (World.withHandle.handles.get? ⟨0⟩).map HandleCell.slot = some .pending ∧
      World.withHandle.KeepsClone ⟨0⟩ contending ∧
      ServesOnce (World.withHandle.exchanges ⟨0⟩ contending) ∧
      (World.withHandle.exchanges ⟨0⟩ contending).filterMap Exchange.pair? =
        [(.idling 1, .unit)] := by
  have hkept : World.withHandle.KeepsClone ⟨0⟩ contending :=
    ⟨by decide +kernel, by decide +kernel, by decide +kernel, by decide +kernel, by decide +kernel,
      by decide +kernel, by rw [World.KeepsClone]; decide +kernel⟩
  have hcell : World.withHandle.handles.get? ⟨0⟩ = some ⟨⟨1⟩, 1, .pending⟩ := by
    with_unfolding_all rfl
  exact ⟨by rw [hcell]; rfl, hkept,
    (handles_serve_once hcell rfl hkept).1, by with_unfolding_all rfl⟩

end Fibers
