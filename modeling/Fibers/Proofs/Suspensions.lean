import Fibers.Proofs.Exchanges

/-!
What a suspension touches. A fiber may suspend on any handle it can get hold of, also
one that is in use. Whatever the handle's state, its scheduler counts one suspension,
at most the one slot and the back of the one queue change, and the clone that the fiber
suspended with is released; the fiber that misused a handle comes to an error of its own.
-/

namespace Fibers

namespace World

variable {w w' : World} {x : HandleRef} {cell : HandleCell} {s : SchedulerId} {fiber : Fiber}
  {scheduler : Scheduler} {resumption : Resumption}

/-- A scheduler takes back a fiber that suspended: something is laid in the handle's slot,
entries come to the back of the queue, and a clone of the handle is released. -/
structure TakesBack (w : World) (s : SchedulerId) (x : HandleRef) (cell : HandleCell)
    (laid : Slot Fiber Owner Resumption) (entries : List Runnable) (w' : World) : Prop where
  scheduler : ∃ scheduler, w.scheduler? s = some scheduler ∧
    w'.scheduler? s = some { scheduler.countSuspension with queue := scheduler.queue ++ entries }
  others : ∀ t, t ≠ s → w'.scheduler? t = w.scheduler? t
  handles : w'.handles = ((w.handles.put x { cell with slot := laid }).release [.handle x]).1
  /-- Nothing beside schedulers, handles and the history changes. -/
  rest : w' = { w with schedulers := w'.schedulers, handles := w'.handles, history := w'.history }

/-- How a fiber fares that suspends on a handle. -/
inductive Suspends (w : World) (s : SchedulerId) (fiber : Fiber) (x : HandleRef) (cell : HandleCell)
    (w' : World) : Prop
  /-- It is parked, and unwound at once just if nobody else has a clone of the handle. -/
  | parked (hslot : cell.slot = .pending)
      (h : w.TakesBack s x cell (.parked fiber (.scheduler s)) [] w')
      (hunwound : w.Unwinds fiber w' ↔ cell.clones ≤ 1)
  | answered (resumption : Resumption) (hslot : cell.slot = .woken resumption)
      (h : w.TakesBack s x cell .spent [.woken fiber resumption] w')
  | refused (hslot : cell.slot = .spent ∨ ∃ other owner, cell.slot = .parked other owner)
      (h : w.TakesBack s x cell cell.slot
        [.woken fiber (.error (.ofFault (.notSuspended fiber.id)))] w')

/-- As long as somebody else has a clone of the handle, no other handle notices, and the
one that was suspended on holds what was laid in it. -/
theorem TakesBack.cells {laid : Slot Fiber Owner Resumption} {entries : List Runnable}
    (h : w.TakesBack s x cell laid entries w') (hcell : w.handles.get? x = some cell)
    (hshared : 1 < cell.clones) (y : HandleRef) : w'.handles.get? y =
      if y = x then some { cell with slot := laid, clones := cell.clones - 1 } else w.handles.get?
        y := by
  have hlaid := (HandleTable.get?_put hcell { cell with slot := laid } x).trans (if_pos rfl)
  rw [h.handles, HandleTable.release_shared hlaid hshared, HandleTable.get?_put hlaid]
  split
  next => rfl
  next hother => rw [HandleTable.get?_put hcell, if_neg hother]

/-- As long as somebody else has a clone of the handle that a fiber suspended on, no other
handle notices. -/
theorem Suspends.spares (h : w.Suspends s fiber x cell w') (hcell : w.handles.get? x = some cell)
    (hshared : 1 < cell.clones) {y : HandleRef} (hother : y ≠ x) :
    w'.handles.get? y = w.handles.get? y := by
  cases h with
  | parked _ h => exact (h.cells hcell hshared y).trans (if_neg hother)
  | answered _ _ h => exact (h.cells hcell hshared y).trans (if_neg hother)
  | refused _ h => exact (h.cells hcell hshared y).trans (if_neg hother)

/-- The world in which a fiber that suspended is parked. -/
def counting (w : World) (s : SchedulerId) (fiber : Fiber) : World :=
  (w.updateScheduler s Scheduler.countSuspension).tell (.suspended fiber.id)

theorem scheduler?_counting (hs : w.scheduler? s = some scheduler) :
    (w.counting s fiber).scheduler? s = some scheduler.countSuspension := by
  rw [counting]
  refine (scheduler?_updateScheduler s s Scheduler.countSuspension).trans ?_
  rw [if_pos rfl, hs, Option.map_some]

theorem scheduler?_counting_of_ne {t : SchedulerId} (ht : t ≠ s) :
    (w.counting s fiber).scheduler? t = w.scheduler? t := by
  rw [counting]
  exact (scheduler?_updateScheduler s t Scheduler.countSuspension).trans (if_neg ht.symm)

theorem put_self (hcell : w.handles.get? x = some cell) :
    w.handles.put x { cell with slot := cell.slot } = w.handles := by
  obtain ⟨hlength, hget⟩ :=
    List.getElem?_eq_some_iff.1 (show w.handles.cells[x.index]? = some cell from hcell)
  rw [HandleTable.put]
  simp only [← hget, List.set_getElem_self]

section TakesBack

variable {laid : Slot Fiber Owner Resumption} {u : World} (hs : w.scheduler? s = some scheduler)
  (hhandles : u.handles = w.handles.put x { cell with slot := laid })
  (hu : u = { w.counting s fiber with handles := u.handles, history := u.history })
include hs hhandles hu

/-- The fiber stays in the handle. -/
theorem takesBack_release : w.TakesBack s x cell laid [] (u.release [.handle x]) := by
  have hschedulers : (u.release [.handle x]).schedulers = (w.counting s fiber).schedulers := by
    rw [release_schedulers, hu]
  have hscheduler (t : SchedulerId) : (u.release [.handle x]).scheduler? t =
      (w.counting s fiber).scheduler? t := by
    rw [scheduler?, hschedulers, scheduler?]
  refine ⟨⟨scheduler, hs, ?_⟩, fun t ht => ?_, ?_, ?_⟩
  · rw [hscheduler, scheduler?_counting hs, List.append_nil]
    rfl
  · rw [hscheduler, scheduler?_counting_of_ne ht]
  · rw [release_eq, hhandles]
  · rw [release_eq, hu]
    rfl

/-- What comes out of a handle goes to the back of the queue. -/
theorem takesBack_append (entry : Runnable) :
    w.TakesBack s x cell laid [entry] ((u.release [.handle x]).append s entry) := by
  obtain ⟨⟨other, hother, hcounted⟩, hothers, hreleased, hrest⟩ := takesBack_release hs hhandles hu
  rw [List.append_nil] at hcounted
  generalize u.release [.handle x] = v at *
  have happended (t : SchedulerId) := scheduler?_updateScheduler (w := v) s t fun scheduler =>
    scheduler.append entry
  refine ⟨⟨other, hother, ?_⟩, fun t ht => ?_, hreleased, ?_⟩
  · refine (happended s).trans ?_
    rw [if_pos rfl, hcounted]
    rfl
  · exact (happended t).trans ((if_neg ht.symm).trans (hothers t ht))
  · rw [append, hrest]
    rfl

end TakesBack

theorem receive_suspended (w : World) (s : SchedulerId) (fiber : Fiber) (x : HandleRef) :
    w.receive s fiber (.suspended x) =
      match (w.counting s fiber).park x fiber (.scheduler s) with
      | (none, w) => w
      | (some (fiber, resumption), w) => w.append s (.woken fiber resumption) := rfl

/-- A fiber that is parked is unwound at once just if its clone of the handle was the
last one. -/
theorem unwinds_iff (hcell : w.handles.get? x = some cell) (hslot : cell.slot = .pending)
    (hsuspended : fiber.isSuspended = true) (s : SchedulerId) :
    w.Unwinds fiber (w.receive s fiber (.suspended x)) ↔ cell.clones ≤ 1 := by
  have hcounted : (w.counting s fiber).handles.get? x = some cell := hcell
  have hwritten : (w.counting s fiber).history.toList =
      w.history.toList ++ [.event (.suspended fiber.id)] := by
    simp [counting, tell, updateScheduler]
  have hreceive : w.receive s fiber (.suspended x) = ((if cell.clones ≤ 1
      then (w.counting s fiber).tell (.unheld cell.id) else w.counting s fiber).setSlot x
        (.parked fiber (.scheduler s))).release [.handle x] := by
    simp only [receive_suspended, park, hcounted, hslot, Slot.park]
  obtain ⟨⟨news, hnews, htells⟩, -⟩ := receive_tells hcell hslot hsuspended s
  rw [← htells]
  by_cases hlast : cell.clones ≤ 1
  · refine iff_of_true ?_ hlast
    rw [hreceive, if_pos hlast, release_eq] at hnews
    simp only [setSlot, tell, Array.toList_append, Array.toList_push, hwritten, List.append_assoc,
      List.append_cancel_left_eq] at hnews
    rw [← hnews]
    simp
  · refine iff_of_false ?_ hlast
    have hlaid := (get?_setSlot hcounted (.parked fiber (.scheduler s)) x).trans (if_pos rfl)
    rw [hreceive, if_neg hlast, release_eq, HandleTable.release_shared hlaid (Nat.not_le.1 hlast)]
      at hnews
    simp only [setSlot, List.map_nil, Array.append_empty, hwritten, List.append_cancel_left_eq]
      at hnews
    rw [← hnews]
    intro member
    cases List.mem_singleton.1 member

/-- A scheduler takes back a fiber that suspended on a handle. -/
theorem receive_suspends (hcell : w.handles.get? x = some cell)
    (hs : w.scheduler? s = some scheduler) (hsuspended : fiber.isSuspended = true) :
    w.Suspends s fiber x cell (w.receive s fiber (.suspended x)) := by
  have hcounted : (w.counting s fiber).handles.get? x = some cell := hcell
  have hunwinds := fun hslot => unwinds_iff hcell hslot hsuspended s
  have hparks := parks hcounted fiber (.scheduler s)
  simp only [receive_suspended] at hunwinds ⊢
  generalize (w.counting s fiber).park x fiber (.scheduler s) = result at hparks hunwinds ⊢
  cases hparks with
  | absorbed hslot u hu =>
    have hlaid : (u.setSlot x (.parked fiber (.scheduler s))).handles = w.handles.put x
        { cell with slot := .parked fiber (.scheduler s) } := by
      rcases hu with rfl | rfl <;> exact handles_setSlot hcell _
    have hrest : u.setSlot x (.parked fiber (.scheduler s)) = { w.counting s fiber with
        handles := (u.setSlot x (.parked fiber (.scheduler s))).handles, history :=
          u.history } := by
      rcases hu with rfl | rfl <;> rfl
    exact .parked hslot (takesBack_release hs hlaid hrest) (hunwinds hslot)
  | met resumption hslot =>
    have hlaid := handles_setSlot hcounted .spent
    exact .answered resumption hslot (takesBack_append hs hlaid rfl _)
  | refused hslot =>
    have hlaid : ((w.counting s fiber).tell (.usedHandle fiber.id)).handles =
        w.handles.put x { cell with slot := cell.slot } := (put_self hcell).symm
    exact .refused hslot (takesBack_append hs hlaid rfl _)

end World

/-- The fiber of a level that suspended itself, with what it goes on with. -/
def Running.suspendedAt (running : Running) (raises : Bool) (frames : List Frame) : Fiber :=
  running.leave (.suspended (.suspending raises :: frames) running.first)

namespace Machine

variable {byHand : Prop} {m : Machine} {script : Script} {s : SchedulerId} {x : HandleRef}
  {fiber : Fiber} {running : Running} {below : List Running} {raises : Bool}
  {frames : List Frame} {w : World}

/-- A fiber that a scheduler made runs alone, in the run loop of that scheduler. -/
theorem Sound.under_loop (h : m.Sound byHand) (hrunning : m.running = running :: below)
    (hhome : running.home = some s) :
    below = [] ∧ running.outer = none ∧ ∃ ran max rest,
      m.root = .dispatching s :: .draining s ran max :: rest := by
  have hnested := h.nested
  rw [hrunning] at hnested
  obtain ⟨houter, hentered, -⟩ := hnested
  generalize hlevel : stackUnder m.root below = level at hentered
  unfold World.Entered at hentered
  split at hentered
  · rw [hhome] at hentered
    cases hentered.2.1
  · obtain ⟨hempty, hmade, rfl, -⟩ := hentered
    cases hhome.symm.trans hmade
    have hbelow : below = [] := by simpa using hempty
    subst hbelow
    exact ⟨rfl, houter, _, _, _, hlevel⟩
  · exact hentered.elim

/-- A fiber that a scheduler runs has come to an action that suspends it on a handle. The
clone that it suspends with is taken from a slot, or made, which leaves the world `w`. -/
structure ComesToSuspend (m : Machine) (s : SchedulerId) (running : Running) (x : HandleRef)
    (raises : Bool) (frames : List Frame) (w : World) : Prop where
  level : ∃ below, m.running = running :: below
  home : running.home = some s
  advances : m.control = .advance
  action : ∃ slot keep todo guards rest,
    running.frames = .actions (.suspend slot keep raises :: todo) guards :: rest ∧
    frames = .actions todo guards :: rest ∧ m.world.takeHandle? slot keep = some (x, w)

/-- Control comes back to the run loop with the handle. -/
theorem ComesToSuspend.step (h : m.ComesToSuspend s running x raises frames w)
    (hm : m.Sound byHand) :
    m.step? = some ⟨{ w with current := none }, [], m.root,
      .back (running.suspendedAt raises frames) (.suspended x)⟩ := by
  obtain ⟨⟨below, hrunning⟩, hhome, hcontrol, slot, keep, todo, guards, rest, hframes,
    rfl, htaken⟩ := h
  obtain ⟨rfl, houter, -⟩ := hm.under_loop hrunning hhome
  have hcurrent : w.current.isSome := by
    obtain ⟨y, -, hy⟩ := Option.map_eq_some_iff.1 htaken
    have hsame : w.current = m.world.current := by
      split at hy <;> cases hy <;> rfl
    rw [hsame, hm.current, hrunning]
    rfl
  obtain ⟨serial, id, home, stack, outer, first, levels⟩ := running
  obtain ⟨world, levels, root, control⟩ := m
  cases hrunning
  cases hframes
  cases hcontrol
  cases houter
  rw [hm.step?_eq]
  simp only [move?, react?, push, perform, suspendOnSlot, htaken, suspendOn, withWorld, hcurrent,
    if_true, suspend]
  rfl

/-- A scheduler takes a fiber back that suspended, and its run loop goes on. -/
theorem Sound.suspends (h : m.Sound byHand) (htop : m.top = .dispatching s :: frames)
    (hcontrol : m.control = .back fiber (.suspended x)) :
    ∃ cell m', m.world.handles.get? x = some cell ∧ m.step? = some m' ∧ m'.running = [] ∧
      m'.root = frames ∧ m'.control = .advance ∧ m.world.Suspends s fiber x cell m'.world := by
  obtain ⟨hs, -⟩ := h.receives htop hcontrol
  obtain ⟨scheduler, hs⟩ := Option.isSome_iff_exists.1 hs
  obtain ⟨cell, hcell⟩ := World.exists_cell (h.clones_of_suspended hcontrol)
  have haccepts := h.accepts
  rw [htop, hcontrol] at haccepts
  obtain ⟨hentered, -, hexit⟩ := haccepts
  obtain ⟨-, -, -, -, hfiber, -, -⟩ := hentered.of_dispatching
  obtain ⟨hrunning, hroot⟩ :=
    goTo_running_eq_nil m frames (m.world.receive s fiber (.suspended x)) .advance
    (running_eq_nil hfiber)
  refine ⟨cell, m.goTo frames (m.world.receive s fiber (.suspended x)) .advance, hcell, ?_,
    hrunning, hroot, rfl, World.receive_suspends hcell hs (hexit.2 ⟨x, rfl⟩)⟩
  rw [h.step?_of_top htop, hcontrol]
  simp only [react?, goTo_control, goTo_withWorld, goTo_advance, goTo_world]

/-- A machine whose run loop comes to an entry of the queue. -/
structure ComesTo (m : Machine) (s : SchedulerId) (entry : Runnable) : Prop where
  rootLevel : m.running = []
  advances : m.control = .advance
  loop : ∃ ran max rest, m.root = .draining s ran max :: rest ∧ max.any (· ≤ ran) = false
  queue : ∃ rest, m.world.queue s = entry :: rest

/-- Two steps after the run loop came to its entry, a fiber that suspended itself has its
resumption. -/
structure Resumes (m : Machine) (running : Running) (raises : Bool) (frames : List Frame)
    (resumption : Resumption) (u : World) (root : List Frame) : Prop where
  enters : m.step? =
    some ⟨u, [{ running with outer := none, frames := .suspending raises :: frames }], root,
    .resumed resumption⟩
  yields : Machine.step?
    ⟨u, [{ running with outer := none, frames := .suspending raises :: frames }], root,
    .resumed resumption⟩ =
      some (Machine.concludeSuspend ⟨u, [{ running with outer := none, frames }], root,
      .resumed resumption⟩ raises resumption)

theorem ComesTo.resumes {resumption : Resumption}
    (h : m.ComesTo s (.woken (running.suspendedAt raises frames) resumption))
    (hm : m.Sound byHand) :
    ∃ u root, m.Resumes running raises frames resumption u root := by
  obtain ⟨hrunning, hcontrol, ⟨ran, max, rest, hroot, hmore⟩, queue, hqueue⟩ := h
  have hcurrent := hm.current
  obtain ⟨world, levels, root, control⟩ := m
  cases hrunning
  cases hcontrol
  cases hroot
  replace hcurrent : world.current = none := hcurrent
  obtain ⟨w, hnext, hquiet⟩ : ∃ w, world.next? s =
      some (.woken (running.suspendedAt raises frames) resumption, w) ∧ w.current = none := by
    simp only [World.next?, show world.queue s = _ from hqueue]
    exact ⟨_, rfl, hcurrent⟩
  let entered : Machine := ⟨{ w with current := some running.current },
    [{ running with outer := none, frames := .suspending raises :: frames }],
    .dispatching s :: .draining s (ran + 1) max :: rest, .resumed resumption⟩
  have henters : Machine.step? ⟨world, [], .draining s ran max :: rest,
      .advance⟩ = some entered := by
    rw [hm.step?_eq]
    simp only [move?, react?, drain, hmore, hnext, dispatch, push, withWorld, enter,
      Running.suspendedAt, Running.leave, occupy, hquiet, Bool.false_eq_true, if_false]
    rfl
  have hentered : entered.Sound True := Sound.step (hm.allow fun _ => trivial) henters
  exact ⟨_, _, henters, hentered.step?_eq.trans rfl⟩

/-- Suspending on a handle, in whatever state that is, touches the suspended fiber alone. Its
scheduler counts the suspension, lays the fiber in the handle or queues it behind everything
else, and goes on with its run loop; when its turn comes, the fiber goes on with what it was
queued with. -/
theorem suspending_touches_one_fiber (h : Visits (fun _ => True) script.start m)
    (hcomes : m.ComesToSuspend s running x raises frames w) :
    ∃ cell back m' ran max rest, m.step? = some back ∧ back.step? = some m' ∧
      w.handles.get? x = some cell ∧
      World.Suspends { w with current := none } s (running.suspendedAt raises frames) x
        cell m'.world ∧
      (1 < cell.clones → ∀ y ≠ x, m'.world.handles.get? y = w.handles.get? y) ∧
      m'.running = [] ∧ m'.root = .draining s ran max :: rest ∧ m'.control = .advance ∧
      ∀ n resumption, Visits (fun _ => True) script.start n →
        n.ComesTo s (.woken (running.suspendedAt raises frames) resumption) →
          ∃ u root, n.Resumes running raises frames resumption u root := by
  have hm : m.Sound True := h.sound fun _ _ _ _ => trivial
  have hstep := hcomes.step hm
  obtain ⟨below, hrunning⟩ := hcomes.level
  obtain ⟨rfl, -, ran, max, rest, hroot⟩ := hm.under_loop hrunning hcomes.home
  obtain ⟨cell, m', hcell, hsecond, hfree, hloop, hadvances, hsuspends⟩ :=
    (hm.step hstep).suspends hroot rfl
  exact ⟨cell, _, m', ran, max, rest, hstep, hsecond, hcell, hsuspends, fun hshared y hother =>
    hsuspends.spares hcell hshared hother, hfree, hloop, hadvances, fun n resumption hn hturn =>
      hturn.resumes (hn.sound fun _ _ _ _ => trivial)⟩

/-- Two tasks suspend on one handle. -/
def sharing : Action :=
  .scope [.newHandle "h" ⟨1⟩, .enqueue 0 [.suspend "h" true false],
    .enqueue 0 [.suspend "h" true false], .run 0 none false] false

def shared (steps : Nat) : Machine := (Script.begin Script.single.start sharing).settle steps

/-- The second of them, which suspends on a handle that is in use. -/
def latecomer : Running :=
  ⟨1, ⟨2⟩, some ⟨0⟩, ⟨1, 262144, .scheduler ⟨0⟩⟩, none, .unit,
    [.actions [.suspend "h" true false] []]⟩

theorem sharing_touches_the_latecomer :
    (shared 9).ComesToSuspend ⟨0⟩ latecomer ⟨0⟩ false [.actions [] []]
      ((shared 9).world.retain ⟨0⟩) ∧
      (∃ cell back m', (shared 9).step? = some back ∧ back.step? = some m' ∧
        cell.slot.isParked = true ∧
        World.Suspends { (shared 9).world.retain ⟨0⟩ with current := none } ⟨0⟩
          (latecomer.suspendedAt false [.actions [] []]) ⟨0⟩ cell m'.world) ∧
      ∃ u root, (shared 11).Resumes latecomer false [.actions [] []]
        (.error (.ofFault (.notSuspended ⟨2⟩))) u root := by
  have hcomes : (shared 9).ComesToSuspend ⟨0⟩ latecomer ⟨0⟩ false [.actions [] []]
      ((shared 9).world.retain ⟨0⟩) :=
    ⟨⟨[], by with_unfolding_all rfl⟩, rfl, by with_unfolding_all rfl, "h", true, [],
      [], [], rfl, rfl, by with_unfolding_all rfl⟩
  have hturn : (shared 11).ComesTo ⟨0⟩ (.woken (latecomer.suspendedAt false [.actions [] []])
      (.error (.ofFault (.notSuspended ⟨2⟩)))) :=
    ⟨by with_unfolding_all rfl, by with_unfolding_all rfl,
      ⟨_, _, _, by with_unfolding_all rfl, rfl⟩, [], by with_unfolding_all rfl⟩
  have hused : (((shared 9).world.retain ⟨0⟩).handles.get? ⟨0⟩).map
      (fun cell => cell.slot.isParked) = some true := by
    with_unfolding_all rfl
  obtain ⟨cell, back, m', -, -, -, hfirst, hsecond, hcell, hsuspends, -, -, -, -, hresumes⟩ :=
    suspending_touches_one_fiber (visits_settle Script.single.start sharing 9) hcomes
  rw [hcell] at hused
  exact ⟨hcomes, ⟨cell, back, m', hfirst, hsecond, Option.some.inj hused, hsuspends⟩,
    hresumes (shared 11) _ (visits_settle Script.single.start sharing 11) hturn⟩

end Machine

end Fibers
