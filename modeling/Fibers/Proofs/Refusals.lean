import Fibers.Proofs.Nesting

/-!
Calls and their answers. A call on a scheduler is refused when it is misused, and
then nothing but its arguments is touched. A resumption that is not refused always
comes to succeed: the run it may start goes on until it returns, whatever the
fibers in it do.
-/

namespace Fibers

namespace Machine

variable {byHand : Prop} {m m' n : Machine} {frames : List Frame} {s : SchedulerId} {x : HandleRef}
  {cell : HandleCell} {resumption : Resumption} {ran : Nat} {max : Option Nat} {rest : List Frame}

/-! ### Going on -/

/-- A frame that accepts what it is told takes a step, unless it is a driver's. -/
theorem exists_react {inFiber : Bool} {control : Control} {frame : Frame} {w : World}
    (h : w.Accepts byHand inFiber control (frame :: frames))
    (hdriver : ∀ d phase, frame ≠ .driving d phase) (hcontrol : m.control = control) :
    ∃ m', m.react? frame = some m' := by
  subst hcontrol
  cases hcontrol : m.control with
  | advance =>
    rw [hcontrol] at h
    cases frame with
    | actions todo guards =>
      cases todo with
      | nil => simp [react?, hcontrol]
      | cons action todo => cases action <;> simp [react?, hcontrol]
    | again times body => cases times <;> simp [react?, hcontrol]
    | catching | draining => simp [react?, hcontrol]
    | registering => simp [react?, registered, hcontrol]
    | driving d phase => exact absurd rfl (hdriver d phase)
    | awaiting | suspending | transferring | dispatching | answering | completing =>
      simp [World.Accepts, Frame.isPlain] at h
  | raise failure | panicking panic =>
    rw [hcontrol] at h
    cases frame with
    | actions todo guards =>
      cases todo with
      | nil => simp [react?, hcontrol]
      | cons action todo => cases action <;> simp [react?, hcontrol]
    | again times body => cases times <;> simp [react?, hcontrol]
    | catching => simp [react?, hcontrol]
    | registering => simp [react?, registered, hcontrol]
    | draining | driving | awaiting | suspending | transferring | dispatching | answering
    | completing =>
      simp [World.Accepts, Frame.isPlain] at h
  | resumed told =>
    rw [hcontrol] at h
    cases frame with
    | awaiting | suspending => simp [react?, hcontrol]
    | _ => exact h.2.elim
  | back fiber exit =>
    rw [hcontrol] at h
    cases frame with
    | transferring | dispatching => simp [react?, hcontrol]
    | _ => exact h.1.elim
  | answer result =>
    rw [hcontrol] at h
    cases frame with
    | answering => simp [react?, hcontrol]
    | completing => simp [react?, hcontrol]
    | driving d phase => exact absurd rfl (hdriver d phase)
    | _ => exact h.2.1.choose_spec.elim

/-- A machine that is in order takes a step, unless nothing is left to do or a driver has
the turn. -/
theorem Sound.progress (h : m.Sound byHand) (hdone : ¬m.Done)
    (hdriver : ∀ d phase rest, m.top ≠ .driving d phase :: rest) : ∃ m', m.step? = some m' := by
  have haccepts := h.accepts
  cases htop : m.top with
  | cons frame frames =>
    rw [htop] at haccepts
    rw [h.step?_of_top htop]
    exact exists_react haccepts (fun d phase heq => hdriver d phase frames (heq ▸ htop)) rfl
  | nil =>
    rw [htop] at haccepts
    have hexit : ∃ exit, exit? m.control = some exit := by
      generalize m.control = control at haccepts
      cases control with
      | advance | raise | panicking => exact ⟨_, rfl⟩
      | resumed => exact haccepts.2.elim
      | back => exact haccepts.1.elim
      | answer => exact haccepts.2.1.choose_spec.elim
    obtain ⟨world, levels, root, control⟩ := m
    cases levels with
    | nil => exact absurd ⟨rfl, htop⟩ hdone
    | cons running below =>
      obtain ⟨exit, hexit⟩ := hexit
      have hframes : running.frames = [] := htop
      refine ⟨Machine.leave ⟨world, running :: below, root, control⟩ running below exit, ?_⟩
      rw [h.step?_eq]
      simp only [move?, hframes]
      rw [hexit]
      rfl

/-- A run that is under way never gets stuck. -/
theorem Looping.progress (hloop : m.Looping s ran max rest) (h : m.Sound True) :
    ∃ m', m.step? = some m' := by
  refine h.progress (fun hdone => ?_) fun d phase frames htop => ?_
  · have hroot := hdone.2
    rcases hloop with hloop | hloop <;> rw [hloop] at hroot <;> cases hroot
  · rcases hloop.atRoot h (h.running_of_driving htop) with ⟨hat, -⟩ | ⟨hat, -⟩ <;>
      rw [htop] at hat <;> cases hat

/-! ### Calls -/

/-- Control is about to make a call on its level. What the call is given was taken
from where it was, and no fiber was entered for that. -/
structure Readies (m n : Machine) : Prop where
  level : ∃ frames w, n = m.goTo frames w .advance
  current : n.world.current = m.world.current

/-- A call that was made in the first state is answered in the second one, where it was made. -/
structure Answers (n m : Machine) (result : Except SchedulerFault Nat) : Prop where
  running : m.running = n.running
  root : m.root = n.root
  control : m.control = .answer result

theorem answers_goTo (n : Machine) (w : World) (result : Except SchedulerFault Nat) :
    n.Answers (n.goTo n.top w (.answer result)) result := by
  obtain ⟨world, levels, root, control⟩ := n
  cases levels <;> exact ⟨rfl, rfl, rfl⟩

theorem Readies.currentId (h : m.Readies n) (hm : m.Sound True) :
    n.world.currentId = n.running.head?.map Running.id := by
  obtain ⟨⟨frames, w, rfl⟩, hcurrent⟩ := h
  have hheads := map_current_eq (m.map_seat_goTo frames w .advance)
  rw [World.currentId, hcurrent, hm.current, ← hheads, Option.map_map]
  rfl

/-- Inside a fiber no run loop can be driven; the answer names the innermost fiber. -/
theorem run_refused {running : Running} {below : List Running}
    (hcurrent : n.world.currentId = n.running.head?.map Running.id)
    (hrunning : n.running = running :: below) (s : SchedulerId) (max : Option Nat) :
    n.run s max = n.goTo n.top n.world (.answer (.error (.reentrant running.id))) := by
  rw [hrunning] at hcurrent
  rw [Machine.run, hcurrent]
  exact withControl_eq ..

/-- What a refused resumption leaves: its payload and its clone of the handle are released. -/
theorem deliver_foreign {fiber : Fiber} {owner : Owner} (hcell : n.world.handles.get? x = some cell)
    (hslot : cell.slot = .parked fiber owner) (howner : owner ≠ .scheduler s)
    (resumption : Resumption) :
    n.deliver s x resumption =
      n.goTo n.top ((n.world.release (resumption.debris ++ [.handle x])).tell
      (.rejected cell.id (SchedulerFault.foreignHandle cell.id).message))
        (.answer (.error (.foreignHandle cell.id))) := by
  have hwake : n.world.wake x (.scheduler s) resumption =
      (.error (.foreignHandle cell.id), n.world.release (resumption.debris ++ [.handle x])) := by
    simp only [World.wake, hcell, hslot, Slot.wake, if_neg howner]
  simp only [deliver, hwake, World.handleId, hcell, withWorld_eq, goTo_withControl]

theorem deliver_used (hcell : n.world.handles.get? x = some cell)
    (hslot : cell.slot = .spent ∨ ∃ early, cell.slot = .woken early) (s : SchedulerId)
    (resumption : Resumption) :
    n.deliver s x resumption =
      n.goTo n.top ((n.world.release (resumption.debris ++ [.handle x])).tell
      (.rejected cell.id (SchedulerFault.notSuspended cell.id).message))
        (.answer (.error (.notSuspended cell.id))) := by
  have hwake : n.world.wake x (.scheduler s) resumption =
      (.error (.notSuspended cell.id), n.world.release (resumption.debris ++ [.handle x])) := by
    rcases hslot with hslot | ⟨early, hslot⟩ <;> simp only [World.wake, hcell, hslot, Slot.wake]
  simp only [deliver, hwake, World.handleId, hcell, withWorld_eq, goTo_withControl]

/-- A resumption that is stored, or that queues its fiber, is answered at once. -/
theorem deliver_accepted (hcell : n.world.handles.get? x = some cell)
    (hslot : cell.slot = .pending ∨ ∃ fiber, cell.slot = .parked fiber (.scheduler s))
    (hcurrent : n.world.current.isSome ∨ cell.slot = .pending) (resumption : Resumption) :
    n.Answers (n.deliver s x resumption) (.ok 0) := by
  have hdelivers := n.delivers s hcell resumption
  generalize n.deliver s x resumption = m at hdelivers
  cases hdelivers with
  | stored | queued => exact n.answers_goTo ..
  | refused fault event hpending hother =>
    rcases hslot with hslot | ⟨fiber, hslot⟩
    · exact absurd hslot hpending
    · exact absurd hslot (hother fiber)
  | dispatched fiber event hparked hnone =>
    rcases hcurrent with hcurrent | hpending
    · rw [hnone] at hcurrent
      cases hcurrent
    · rw [hparked] at hpending
      cases hpending

/-- How a resumption through a scheduler fares that is made in `n`, the state after
that being `m`. -/
structure ResumptionFares (n : Machine) (s : SchedulerId) (x : HandleRef) (cell : HandleCell)
    (resumption : Resumption) (m : Machine) : Prop where
  /-- It has come back, or goes on. -/
  progress : ∀ a, Runs n.root m a → (∃ result, n.Answers a result) ∨ a.root ≠ n.root ∧
    ∃ b, a.step? = some b
  /-- The state of the handle says what the answer is. -/
  answer : ∀ a result, Runs n.root m a → n.Answers a result →
    (result = .error (.foreignHandle cell.id) ↔
      ∃ fiber owner, cell.slot = .parked fiber owner ∧ owner ≠ .scheduler s) ∧
    (result = .error (.notSuspended cell.id) ↔ cell.slot = .spent ∨ ∃ early,
      cell.slot = .woken early) ∧
    ((∃ ran, result = .ok ran) ↔ cell.slot = .pending ∨ ∃ fiber,
      cell.slot = .parked fiber (.scheduler s))
  /-- What is refused is answered at once, and nothing is touched but for what is released. -/
  refused : ¬(cell.slot = .pending ∨ ∃ fiber, cell.slot = .parked fiber (.scheduler s)) →
    ∃ fault : SchedulerFault,
      m = n.goTo n.top ((n.world.release (resumption.debris ++ [.handle x])).tell
      (.rejected cell.id fault.message)) (.answer (.error fault)) ∧ m.world.schedulers =
      n.world.schedulers

theorem Answers.unique {first second : Except SchedulerFault Nat} (hfirst : n.Answers m first)
    (hsecond : n.Answers m second) : first = second := by
  have heq := hfirst.control.symm.trans hsecond.control
  cases heq
  rfl

/-- A resumption that is not refused comes back with success, or goes on. -/
theorem accepted_fares (hm : m.Sound True) (hready : m.Readies n)
    (hstep : m.step? = some (n.deliver s x resumption)) (hcell : n.world.handles.get? x = some cell)
    (hslot : cell.slot = .pending ∨ ∃ fiber, cell.slot = .parked fiber (.scheduler s)) {a : Machine}
    (hruns : Runs n.root (n.deliver s x resumption) a) :
    (∃ ran, n.Answers a (.ok ran)) ∨ a.root ≠ n.root ∧ ∃ b, a.step? = some b := by
  by_cases hcurrent : n.world.current.isSome ∨ cell.slot = .pending
  · have hanswers := deliver_accepted hcell hslot hcurrent resumption
    rw [hruns.eq_of_root hanswers.root]
    exact .inl ⟨0, hanswers⟩
  · rw [not_or, Option.not_isSome_iff_eq_none] at hcurrent
    obtain ⟨fiber, hparked⟩ := hslot.resolve_left hcurrent.2
    have hm' := hm.step hstep
    have hrunning : n.running = [] := by
      have hid := hready.currentId hm
      rw [World.currentId, hcurrent.1] at hid
      exact List.head?_eq_none_iff.1 (Option.map_eq_none_iff.1 hid.symm)
    obtain ⟨-, hloop, -⟩ := deliver_begins hm' hrunning hcurrent.1 hcell hparked
    obtain ⟨served, arrived, -, -, hlooping | ⟨hreturned, -⟩⟩ :=
      hloop.serviced hm' (fun _ _ => Nat.zero_le _) hruns
    · exact .inr ⟨hlooping.root_ne, hlooping.progress (hruns.sound hm')⟩
    · exact .inl ⟨_, hreturned.running.trans hrunning.symm, hreturned.root, hreturned.control⟩

theorem resumption_fares (hm : m.Sound True) (hready : m.Readies n)
    (hstep : m.step? = some (n.deliver s x resumption))
    (hcell : n.world.handles.get? x = some cell) :
    n.ResumptionFares s x cell resumption (n.deliver s x resumption) := by
  by_cases haccepted : cell.slot = .pending ∨ ∃ fiber, cell.slot = .parked fiber (.scheduler s)
  · have hfares := fun a => accepted_fares hm hready hstep hcell haccepted (a := a)
    refine ⟨fun a hruns => (hfares a hruns).imp_left fun ⟨ran, hanswers⟩ => ⟨_, hanswers⟩,
      fun a result hruns hanswers => ?_, fun hnot => absurd haccepted hnot⟩
    obtain ⟨ran, rfl⟩ : ∃ ran, result = .ok ran := by
      rcases hfares a hruns with ⟨ran, hok⟩ | ⟨habove, -⟩
      · exact ⟨ran, hanswers.unique hok⟩
      · exact absurd hanswers.root habove
    refine ⟨⟨fun heq => (by cases heq), ?_⟩, ⟨fun heq => (by cases heq), ?_⟩, fun _ => haccepted,
      fun _ => ⟨ran, rfl⟩⟩
    · rintro ⟨fiber, owner, hparked, howner⟩
      rw [hparked] at haccepted
      simp [howner] at haccepted
    · intro hused
      rcases haccepted with hslot | ⟨fiber, hslot⟩ <;> rw [hslot] at hused <;> simp at hused
  · have hbad : (∃ fiber owner, cell.slot = .parked fiber owner ∧ owner ≠ .scheduler s) ∨
        (cell.slot = .spent ∨ ∃ early, cell.slot = .woken early) := by
      cases hslot : cell.slot with
      | pending => exact absurd (.inl hslot) haccepted
      | parked fiber owner =>
        exact .inl ⟨fiber, owner, rfl, fun heq => haccepted (.inr ⟨fiber, heq ▸ hslot⟩)⟩
      | woken early => exact .inr (.inr ⟨early, rfl⟩)
      | spent => exact .inr (.inl rfl)
    have hrefused : ∃ fault : SchedulerFault, n.deliver s x resumption = n.goTo n.top
        ((n.world.release (resumption.debris ++ [.handle x])).tell
          (.rejected cell.id fault.message)) (.answer (.error fault)) ∧
        (fault = .foreignHandle cell.id ↔ ∃ fiber owner, cell.slot = .parked fiber owner ∧
          owner ≠ .scheduler s) ∧
        (fault = .notSuspended cell.id ↔ cell.slot = .spent ∨ ∃ early,
          cell.slot = .woken early) := by
      rcases hbad with ⟨fiber, owner, hslot, howner⟩ | hused
      · refine ⟨_, deliver_foreign hcell hslot howner resumption,
          ⟨fun _ => ⟨fiber, owner, hslot, howner⟩, fun _ => rfl⟩,
          fun heq => (by cases heq), fun hused => ?_⟩
        rw [hslot] at hused
        simp at hused
      · refine ⟨_, deliver_used hcell hused s resumption, ⟨fun heq => (by cases heq), ?_⟩,
          fun _ => hused, fun _ => rfl⟩
        rintro ⟨fiber, owner, hslot, -⟩
        rw [hslot] at hused
        simp at hused
    obtain ⟨fault, heq, hforeign, hused⟩ := hrefused
    have hanswers : n.Answers (n.deliver s x resumption) (.error fault) := by
      rw [heq]
      exact n.answers_goTo _ _
    have hatOnce : ∀ a, Runs n.root (n.deliver s x resumption) a →
        n.Answers a (.error fault) := fun a hruns => by
      rwa [hruns.eq_of_root hanswers.root]
    refine ⟨fun a hruns => .inl ⟨_, hatOnce a hruns⟩, fun a result hruns hresult => ?_,
      fun _ => ⟨fault, heq, ?_⟩⟩
    · cases hresult.unique (hatOnce a hruns)
      simp only [Except.error.injEq]
      exact ⟨hforeign, hused, ⟨fun ⟨_, hok⟩ => (by cases hok), fun h => absurd h haccepted⟩⟩
    · rw [heq]
      exact World.release_schedulers ..

/-! ### Calls that come at the wrong place -/

/-- An await that is asked for in `n`, and what is given to its register function;
the state after that. -/
inductive Awaits (n : Machine) : AwaitPlan → List Debris → Machine → Prop
  | plain (plan : AwaitPlan) (slot : Option String) (register : List Action) :
      Awaits n plan [] (n.await plan slot register)
  | foreign (slot : String) (register : List Action) :
      Awaits n .foreign [] (n.foreignAwait slot register)
  | call (d : DriverId) (work : Work) (plan : AwaitPlan) :
      Awaits n plan work.ending.debris (n.issue d work plan)
  | all (d : DriverId) (plan : AwaitPlan) : Awaits n plan [] (n.awaitAll d plan)

/-- An await fails for want of a fiber. No handle is made, no call is issued, and the
register function is given up with what it was given. -/
structure FailsOutside (n : Machine) (plan : AwaitPlan) (given : List Debris) (m : Machine) :
    Prop where
  eq : m = (n.withWorld (n.world.release given)).failAwait plan (.ofFault .notInFiber)
  running : m.running = n.running
  root : m.root = n.root
  schedulers : m.world.schedulers = n.world.schedulers
  handles : m.world.handles = (n.world.release given).handles
  slots : m.world.slots = n.world.slots
  agenda : m.world.agenda = n.world.agenda

theorem Awaits.fails {plan : AwaitPlan} {given : List Debris} (h : n.Awaits plan given m')
    (houtside : n.world.currentId = none) : n.FailsOutside plan given m' := by
  have heq : m' = (n.withWorld (n.world.release given)).failAwait plan (.ofFault .notInFiber) := by
    have hnothing : n.withWorld (n.world.release []) = n := by
      simp only [World.release, HandleTable.release, List.foldl_nil, withWorld]
    cases h with
    | plain | foreign | all => simp only [await, foreignAwait, awaitAll, houtside, hnothing]
    | call d work plan => simp only [issue, houtside]
  rw [World.release_eq] at heq
  subst heq
  constructor
  · rw [World.release_eq]
  case handles =>
    rw [World.release_eq, failAwait]
    split <;> rfl
  all_goals
    rw [failAwait]
    split <;> rfl

/-- Nothing but what a misused call was given is touched: the run loop is refused
inside a fiber, an await fails outside of one, and a resumption is refused just if
its handle was used before or is parked elsewhere. Otherwise it succeeds, whatever
the fiber that it resumes and the tasks after that do. -/
theorem misuse_is_refused {script : Script} (h : Visits (fun _ => True) script.start m)
    (hready : m.Readies n) (hstep : m.step? = some m') :
    (∀ s max running below, m' = n.run s max → n.running = running :: below →
      m' = n.goTo n.top n.world (.answer (.error (.reentrant running.id)))) ∧
    (∀ plan given, n.Awaits plan given m' → n.running = [] → n.FailsOutside plan given m') ∧
    ∀ s x resumption cell, m' = n.deliver s x resumption → n.world.handles.get? x = some cell →
      n.ResumptionFares s x cell resumption m' := by
  have hm : m.Sound True := h.sound fun _ _ _ _ => trivial
  have hcurrent := hready.currentId hm
  refine ⟨fun s max running below hrun hrunning => ?_, fun plan given hawaits hrunning => ?_,
    fun s x resumption cell hdeliver hcell => ?_⟩
  · rw [hrun]
    exact run_refused hcurrent hrunning s max
  · rw [hrunning] at hcurrent
    exact hawaits.fails hcurrent
  · subst hdeliver
    exact resumption_fares hm hready hstep hcell

/-- A fiber that asks for the run loop once it is resumed, and whose handle is then used again. -/
def resumeTwice : Action :=
  .scope [.enqueue 0 [.await .unit (some "h") [] .raise none, .run 0 none false], .run 0 none false,
    .resume 0 "h" true (.value (.scalar .unit)) false, .resume 0 "h" false
      (.value (.scalar .unit)) false] false

/-- The state of that program after some steps, with one scheduler. -/
def misusing (steps : Nat) : Machine := (Script.begin Script.single.start resumeTwice).settle steps

/-- The state in which the fiber asks for the run loop. -/
def askingInside : Machine :=
  (misusing 12).goTo [.answering ⟨0⟩ (.run false), .actions [] []]
  ((misusing 12).world.own ⟨0⟩) .advance

/-- The state in which the used handle is resumed. -/
def resumingAgain : Machine :=
  (misusing 19).goTo [.answering ⟨0⟩ (.resume false), .actions [] [], .actions [] []]
    { (misusing 19).world.own ⟨0⟩ with slots := .empty } .advance

theorem misusing_is_refused :
    (misusing 13).control = .answer (.error (.reentrant ⟨1⟩)) ∧
      (misusing 20).world.schedulers = resumingAgain.world.schedulers ∧
      (misusing 20).control = .answer (.error (.notSuspended ⟨1⟩)) := by
  have hready : (misusing 12).Readies askingInside := ⟨⟨_, _, rfl⟩, rfl⟩
  have hstep : (misusing 12).step? = some (misusing 13) := by with_unfolding_all rfl
  have hreadyAgain : (misusing 19).Readies resumingAgain := ⟨⟨_, _, rfl⟩, rfl⟩
  have hstepAgain : (misusing 19).step? = some (misusing 20) := by with_unfolding_all rfl
  have hinside :=
    (misuse_is_refused (visits_settle Script.single.start resumeTwice 12) hready hstep).1
    ⟨0⟩ none _ [] (by with_unfolding_all rfl) (by with_unfolding_all rfl)
  have hagain :=
    (misuse_is_refused (visits_settle Script.single.start resumeTwice 19) hreadyAgain
    hstepAgain).2.2
    ⟨0⟩ ⟨0⟩ .unit ⟨⟨1⟩, 1, .spent⟩ (by with_unfolding_all rfl) (by with_unfolding_all rfl)
  obtain ⟨fault, -, hsame⟩ := hagain.refused (by simp)
  refine ⟨by rw [hinside]; with_unfolding_all rfl, hsame, ?_⟩
  rcases hagain.progress _ .refl with ⟨result, hanswers⟩ | ⟨hroot, -⟩
  · cases (hagain.answer _ result .refl hanswers).2.1.2 (.inl rfl)
    exact hanswers.control
  · exact absurd (by with_unfolding_all rfl) hroot

end Machine

end Fibers
