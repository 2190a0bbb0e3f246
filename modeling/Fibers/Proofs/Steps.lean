import Fibers.Proofs.Actions

/-!
Every step is one of the things that a step can do. The frame on top of the
innermost level decides, with what it is told; a level without frames is left.
-/

namespace Fibers

/-- What a call waits for is there when the call has its turn. -/
def Work.isOver (w : World) : Work → Bool
  | .sleep milliseconds => milliseconds = 0
  | .asleep => true
  | .answer none _ => true
  | .answer (some name) _ => 0 < (w.semaphore name).permits
  | .queued .. => false
  | .granted .. => true

namespace Machine

variable {allowed : Action → Prop} {byHand : Prop} {m m' : Machine} {frames : List Frame}

-- Each lemma below follows one frame, so that the equations of the reaction apply.
attribute [local simp] react?

/-- The action that the next step performs, if it performs one. -/
def nextAction? (m : Machine) : Option Action :=
  match m.control, m.top with
  | .advance, .actions (action :: _) _ :: _ => some action
  | _, _ => none

/-- The end of a list of actions gives up its guards. -/
theorem moves_of_end {todo : List Action} {guards : List Datum}
    (htop : m.top = .actions todo guards :: frames) (hcode : m.control.IsCode) :
    Moves allowed m (m.goTo frames (m.world.release (guards.map .guard)) m.control) := by
  refine .idle [] _ m.control htop trivial (by simp) hcode ?_ (.inl ⟨todo, guards, rfl⟩)
  have hassets : m.control.assets = [] := by
    cases hcontrol : m.control <;> simp only [hcontrol, Control.IsCode, Control.assets] at hcode ⊢
  rw [hassets, List.append_nil]
  exact m.world.shift_release _

theorem moves_of_actions {todo : List Action} {guards : List Datum}
    (htop : m.top = .actions todo guards :: frames) (horderly : m.world.Orderly)
    (hallowed : ∀ action, m.nextAction? = some action → allowed action.core)
    (h : (m.goTo frames m.world m.control).react? (.actions todo guards) = some m') :
    Moves allowed m m' := by
  have hend : m.control.IsCode →
      Moves allowed m (m.goTo frames (m.world.release (guards.map .guard)) m.control) :=
        moves_of_end htop
  cases hcontrol : m.control with
  | advance =>
    rw [hcontrol] at h hend
    cases todo with
    | nil =>
      simp only [react?, goTo_control, goTo_world, goTo_withWorld, Option.some.injEq] at h
      exact h ▸ hend trivial
    | cons action todo =>
      have hready : Does allowed (m.goTo (.actions todo guards :: frames) m.world .advance)
          ((m.goTo (.actions todo guards :: frames) m.world .advance).perform action) :=
        perform_does (m := m.goTo (.actions todo guards :: frames) m.world .advance) rfl horderly
          action (hallowed action (by simp [nextAction?, hcontrol, htop]))
      have hguard : ∀ value, Moves allowed m
          (m.goTo (.actions todo (value :: guards) :: frames) m.world .advance) := by
        intro value
        refine .idle [_] _ _ htop trivial (by simp [Frame.IsCode]) trivial
          (.recount _ fun f hf => ?_) (.inl ⟨_, _, rfl⟩)
        simp [hcontrol, Control.assets, Frame.assets, loosen, hf.guards]
      cases action <;> simp only [react?, goTo_control, goTo_push, Option.some.injEq] at h <;>
        subst h <;>
        first
        | exact hguard _
        | exact .acts htop hcontrol hready
  | raise failure =>
    rw [hcontrol] at h hend
    simp only [react?, goTo_control, goTo_world, goTo_withWorld, Option.some.injEq] at h
    exact h ▸ hend trivial
  | panicking panic =>
    rw [hcontrol] at h hend
    simp only [react?, goTo_control, goTo_world, goTo_withWorld, Option.some.injEq] at h
    exact h ▸ hend trivial
  | resumed => simp [hcontrol] at h
  | back => simp [hcontrol] at h
  | answer => simp [hcontrol] at h

/-- Code frames that own nothing make room for others. -/
theorem moves_of_bare {frame : Frame} (htop : m.top = frame :: frames) (hlight : frame.IsLight)
    (hframe : frame.assets = []) (hheld : m.control.assets = []) (pushed : List Frame)
    (hpushed : ∀ frame ∈ pushed, frame.IsCode) (hassets : framesAssets pushed = [])
    (hfresh : ∀ frame ∈ pushed, frame.guards = []) {w : World} {control : Control}
    (hcode : control.IsCode) (hshift : m.world.Shift [] w []) :
    Moves allowed m (m.goTo (pushed ++ frames) w control) :=
  .idle pushed w control htop hlight hpushed hcode (by rwa [hframe, hheld, hassets]) (.inr hfresh)

theorem moves_of_again {times : Nat} {body : List Action}
    (htop : m.top = .again times body :: frames)
    (h : (m.goTo frames m.world m.control).react? (.again times body) = some m') :
    Moves allowed m m' := by
  cases hcontrol : m.control with
  | advance =>
    rw [hcontrol] at h
    cases times with
    | zero =>
      simp only [react?, goTo_control, Option.some.injEq] at h
      exact h ▸ moves_of_bare htop trivial rfl (by rw [hcontrol]; rfl) [] (by simp) rfl
        (by simp) trivial (.refl m.world [])
    | succ times =>
      simp only [react?, goTo_control, goTo_push, Option.some.injEq] at h
      exact h ▸ moves_of_bare htop trivial rfl (by rw [hcontrol]; rfl)
        [.actions body [], .again times body] (by simp [Frame.IsCode]) rfl
          (by simp [Frame.guards]) trivial (.refl m.world [])
  | raise failure | panicking panic =>
    simp only [react?, hcontrol, goTo_control, Option.some.injEq] at h
    exact h ▸ moves_of_bare htop trivial rfl (by rw [hcontrol]; rfl) [] (by simp) rfl
      (by simp) trivial (.refl m.world [])
  | resumed | back | answer => simp [hcontrol] at h

theorem moves_of_catching (htop : m.top = .catching :: frames)
    (h : (m.goTo frames m.world m.control).react? .catching = some m') : Moves allowed m m' := by
  cases hcontrol : m.control with
  | advance | panicking =>
    simp only [react?, hcontrol, goTo_control, Option.some.injEq] at h
    exact h ▸ moves_of_bare htop trivial rfl (by rw [hcontrol]; rfl) [] (by simp) rfl
      (by simp) trivial (.refl m.world [])
  | raise failure =>
    simp only [react?, hcontrol, goTo_control, goTo_emit, goTo_advance, Option.some.injEq] at h
    exact h ▸ moves_of_bare htop trivial rfl (by rw [hcontrol]; rfl) [] (by simp) rfl
      (by simp) trivial (m.world.shift_emit _ _ [])
  | resumed | back | answer => simp [hcontrol] at h

theorem moves_of_suspending {raises : Bool} (htop : m.top = .suspending raises :: frames)
    (h : (m.goTo frames m.world m.control).react? (.suspending raises) = some m') :
    Moves allowed m m' := by
  cases hcontrol : m.control with
  | resumed resumption =>
    simp only [react?, hcontrol, goTo_control, Option.some.injEq] at h
    subst h
    have hemit := m.world.shift_emit "resumed" (.text resumption.describe) resumption.assets
    have hidle : ∀ w control, control.IsCode → m.world.Shift resumption.assets w [] →
        Moves allowed m (m.goTo ([] ++ frames) w control) := fun w control hcode hshift =>
      .idle [] w control htop trivial (by simp) hcode (by rw [hcontrol]; exact hshift)
        (.inr (by simp))
    cases resumption with
    | value payload =>
      simp only [concludeSuspend, goTo_emit, goTo_withWorld, goTo_advance]
      exact hidle _ _ trivial (hemit.trans (World.shift_release _ _))
    | error failure =>
      simp only [concludeSuspend, goTo_emit, goTo_withControl]
      exact hidle _ _ (by split <;> trivial) hemit
  | advance | raise | panicking | back | answer => simp [hcontrol] at h

/-- The outcome of a call on a scheduler is reported, and its share goes. -/
theorem reportCall_eq (m : Machine) (s : SchedulerId) (reply : Reply)
    (result : Except SchedulerFault Nat) :
    ∃ w control, m.reportCall s reply result = m.goTo m.top w control ∧ control.IsCode ∧
      m.world.Shift [.share s] w [] := by
  have hplain : ∀ w control, Control.IsCode control → m.world.Shift [.share s] w [.share s] →
      ∃ w' control', (m.goTo m.top w control).withWorld ((m.goTo m.top w control).world.disown s) =
        m.goTo m.top w' control' ∧ control'.IsCode ∧ m.world.Shift [.share s] w' [] :=
    fun w control hcode hshift =>
      ⟨_, _, goTo_withWorld .., hcode, hshift.trans (World.shift_disown w s)⟩
  have hemit := fun name payload => hplain (m.world.emit name payload) .advance trivial
    (World.shift_emit _ _ _ _)
  have hok := fun name code => hplain ((m.world.foreignReturned name).emit name
      (.record [("code", .nat code)])) .advance trivial
    ((World.shift_returned _ _ _ _).trans (World.shift_emit _ _ _ _))
  have hfailed := fun name failure => hplain ((m.world.foreignFailed name failure).emit name
      (.record [("code", .int (-1)),
        ("last_error", (m.world.foreignFailed name failure).lastErrorDatum)]))
    .advance trivial ((World.shift_foreignFailed _ _ _ _).trans (World.shift_emit _ _ _ _))
  have hstay := hplain m.world .advance trivial (.refl _ _)
  have hraise := fun failure => hplain m.world (.raise failure) trivial (.refl _ _)
  have hm : m.advance = m.goTo m.top m.world .advance := withControl_eq ..
  rw [reportCall.eq_def, hm]
  cases reply with
  | run raises | resume raises =>
    cases raises <;> cases result <;>
      simp only [goTo_emit, goTo_withControl] <;>
      first
      | exact hemit _ _
      | exact hstay
      | exact hraise _
  | foreignRun =>
    cases result
    · simpa only [foreignAnswer, foreignFailed, goTo_world, goTo_withWorld, goTo_emit] using hfailed
        _ _
    · simpa only [foreignAnswer, foreignOk, goTo_world, goTo_withWorld, goTo_emit] using hok _ _
  | foreignResume name =>
    cases result
    · simpa only [foreignAnswer, foreignFailed, goTo_world, goTo_withWorld, goTo_emit] using hfailed
        _ _
    · simpa only [foreignAnswer, foreignOk, goTo_world, goTo_withWorld, goTo_emit] using hok _ _
  | directResume =>
    cases result <;> simp only [goTo_emit] <;> exact hemit _ _

theorem moves_of_answering {s : SchedulerId} {reply : Reply}
    (htop : m.top = .answering s reply :: frames)
    (h : (m.goTo frames m.world m.control).react? (.answering s reply) = some m') :
    Moves allowed m m' := by
  cases hcontrol : m.control with
  | answer result =>
    simp only [react?, hcontrol, goTo_control, Option.some.injEq] at h
    subst h
    obtain ⟨w, control, heq, hcode, hshift⟩ :=
      reportCall_eq (m.goTo frames m.world (.answer result)) s reply result
    rw [heq, goTo_top, goTo_goTo]
    exact .idle [] w control htop trivial (by simp) hcode (by rw [hcontrol]; exact hshift)
      (.inr (by simp))
  | advance | raise | panicking | back | resumed => simp [hcontrol] at h

theorem moves_of_registering {own : HandleRef} {plan : AwaitPlan}
    (htop : m.top = .registering own plan :: frames)
    (h : (m.goTo frames m.world m.control).react? (.registering own plan) = some m') :
    Moves allowed m m' := by
  simp only [react?, registered, goTo_control] at h
  split at h
  next hcontrol =>
    cases h
    exact .registered htop (by rw [hcontrol]; trivial) (.refl m.world [])
  next failure hcontrol =>
    cases h
    rw [goTo_emit]
    exact .registered htop (by rw [hcontrol]; trivial) (m.world.shift_emit _ _ [])
  next panic hcontrol =>
    cases h
    rw [goTo_withWorld]
    refine .idle [] _ _ htop trivial (by simp) (by rw [hcontrol]; trivial) ?_ (.inr (by simp))
    rw [hcontrol]
    refine World.shift_release_of _ (fun f hf => ?_) fun _ => Nat.zero_le _
    simp [Frame.assets, Control.assets, hf.kept, hf.posts]
  next => cases h

/-! ### Drivers -/

theorem moves_of_listen {d : DriverId} {driver : Driver} {agenda : Agenda}
    (htop : m.top = .driving d .listen :: frames) (hcontrol : m.control = .advance)
    (hagenda : m.world.agenda = some agenda)
    (h : (m.goTo frames m.world .advance).listen? d driver agenda = some m') :
    Moves allowed m m' := by
  have hnext : ∀ phase w, DriverPhase.GoesOn .listen phase → (Frame.driving d phase).assets = [] →
      m.world.Shift [] w [] → Moves allowed m (m.goTo (.driving d phase :: frames) w .advance) :=
    fun phase w hphase hassets hshift =>
      .goesOn htop hphase (by rw [hcontrol, hassets]; exact hshift) (by simp)
  rw [listen?] at h
  split at h
  next =>
    simp only [goTo_world, goTo_withWorld, goTo_push, goTo_advance, Option.some.injEq] at h
    subst h
    exact .hears htop hcontrol
  next =>
    split at h
    next =>
      rw [Option.map_eq_some_iff] at h
      obtain ⟨later, hlater, h⟩ := h
      simp only [goTo_world, goTo_withWorld, goTo_push, goTo_advance] at h
      rw [Agenda.elapse?] at hlater
      split at hlater <;> cases hlater
      subst h
      refine hnext .listen _ .elapses rfl (World.shift_agenda hagenda ?_ ?_ []) <;> rfl
    next =>
      simp only [goTo_push, goTo_advance, Option.some.injEq] at h
      exact h ▸ hnext (.poll World.turnsPerPoll) _ (.polls _) rfl (.refl m.world [])

/-- A turn of a ready call either completes the call or leaves it waiting. -/
theorem moves_of_turn {d : DriverId} {turns : Nat} {agenda : Agenda} {call : HostCall}
    (htop : m.top = .driving d (.poll (turns + 1)) :: frames) (hcontrol : m.control = .advance)
    {w : World} (hshift : m.world.Shift [] w []) (hagenda : w.agenda = some agenda)
    (hcall : call ∈ agenda.calls) :
    Moves allowed m ((m.goTo (.driving d (.poll turns) :: frames) w .advance).turn call) := by
  have hgoes : ∀ w', w.Shift [] w' [] →
      Moves allowed m (m.goTo (.driving d (.poll turns) :: frames) w' .advance) :=
    fun w' hshift' =>
      .goesOn htop (.turns turns) (by rw [hcontrol]; exact hshift.trans hshift') (by simp)
  have hcomplete : ∀ {x work ending} (w' : World), call.state = .holding x work →
      work.ending = ending → w.Shift [] w' [] → w'.agenda = w.agenda →
      Moves allowed m ((m.goTo (.driving d (.poll turns) :: frames) w' .advance).complete
        call x ending) := by
    intro x work ending w' hstate hending hshift' hsame
    rw [complete]
    split
    next => exact hgoes w' hshift'
    next driver hd =>
      simp only [goTo_world, World.updateAgenda, hsame, hagenda, Option.map_some, goTo_withWorld,
        goTo_push]
      cases ending with
      | done outcome =>
        exact .completes htop hcontrol (hshift.trans hshift') (hsame.trans hagenda) hcall
          hstate hending hd
      | panicked =>
        simp only [endFuture, goTo_world, goTo_withWorld, goTo_withControl]
        exact .breaks htop hcontrol (hshift.trans hshift') (hsame.trans hagenda) hcall
          hstate hending (Option.isSome_iff_exists.2 ⟨driver, hd⟩)
  rw [turn]
  split
  next => exact hgoes w (.refl w [])
  next x work hstate =>
    cases work with
    | sleep milliseconds =>
      simp only
      split
      next => exact hcomplete w hstate rfl (.refl w []) rfl
      next =>
        simp only [goTo_world, World.updateAgenda, hagenda, Option.map_some, goTo_withWorld]
        have hending : Work.asleep.ending = (Work.sleep milliseconds).ending := rfl
        refine hgoes _ (World.shift_setWork hagenda hcall hstate hending ?_ [])
        rfl
    | asleep => exact hcomplete w hstate rfl (.refl w []) rfl
    | answer wait ending =>
      cases wait with
      | none => exact hcomplete w hstate rfl (.refl w []) rfl
      | some name =>
        simp only
        split
        next =>
          rw [goTo_withWorld]
          exact hcomplete _ hstate rfl (World.shift_setSemaphore _ _ _ _) rfl
        next =>
          simp only [goTo_world, World.updateAgenda, World.setSemaphore, hagenda, Option.map_some,
            goTo_withWorld]
          have hending : (Work.queued name ending).ending =
              (Work.answer (some name) ending).ending := rfl
          have hqueued : (w.setSemaphore name
              ⟨(w.semaphore name).permits,
                (w.semaphore name).waiters ++ [call.key]⟩).agenda = some agenda := hagenda
          refine hgoes _ ((World.shift_setSemaphore w name _ []).trans
            (World.shift_setWork hqueued hcall hstate hending ?_ []))
          rfl
    | queued name ending => exact hgoes w (.refl w [])
    | granted name outcome => exact hcomplete w hstate rfl (.refl w []) rfl

/-- A call that has what it waits for comes to its end in its turn. -/
theorem turn_of_over {x : HandleRef} {w : World} (frames : List Frame)
    (call : HostCall) {work : Work} (hstate : call.state = .holding x work)
    (hover : work.isOver w = true) :
    ∃ w', (m.goTo frames w .advance).turn call = (m.goTo frames w' .advance).complete call
      x work.ending ∧
      w.Shift [] w' [] ∧ w'.agenda = w.agenda ∧ w'.drivers = w.drivers ∧
        w'.handles = w.handles := by
  rw [turn, hstate]
  cases work with
  | sleep milliseconds =>
    rw [Work.isOver, decide_eq_true_iff] at hover
    simp only [if_pos hover]
    exact ⟨w, rfl, .refl w [], rfl, rfl, rfl⟩
  | asleep => exact ⟨w, rfl, .refl w [], rfl, rfl, rfl⟩
  | answer wait ending =>
    cases wait with
    | none => exact ⟨w, rfl, .refl w [], rfl, rfl, rfl⟩
    | some name =>
      rw [Work.isOver, decide_eq_true_iff] at hover
      simp only [goTo_world, if_pos hover, goTo_withWorld]
      exact ⟨_, rfl, World.shift_setSemaphore _ _ _ _, rfl, rfl, rfl⟩
  | queued => cases hover
  | granted => exact ⟨w, rfl, .refl w [], rfl, rfl, rfl⟩

/-- The move in which a loop lets such a call have its turn. -/
theorem move_of_turn {e : DriverId} {turns key : Nat} {rest : List Nat} {agenda : Agenda}
    {call : HostCall} {x : HandleRef} {work : Work}
    (htop : m.top = .driving e (.poll (turns + 1)) :: frames) (hcontrol : m.control = .advance)
    (hd : ∃ driver, m.world.driver? e = some driver) (hagenda : m.world.agenda = some agenda)
    (hready : agenda.ready = key :: rest) (hfind : agenda.find? key = some call)
    (hstate : call.state = .holding x work) (hover : work.isOver m.world = true) :
    ∃ w, m.move? =
      some ((m.goTo (.driving e (.poll turns) :: frames) w .advance).complete call x work.ending) ∧
      m.world.Shift [] w [] ∧ w.agenda = some { agenda with ready := rest } ∧
        w.drivers = m.world.drivers ∧ w.handles = m.world.handles := by
  obtain ⟨driver, hdriver⟩ := hd
  have hpolled : m.world.Shift []
      { m.world with agenda := some { agenda with ready := rest } } [] := by
    refine World.shift_agenda hagenda ?_ ?_ [] <;> rfl
  obtain ⟨w, hturn, hshift, hsame, hdrivers, hhandles⟩ := turn_of_over (m := m)
    (w := { m.world with agenda := some { agenda with ready := rest } })
    (.driving e (.poll turns) :: frames) call hstate
    (by cases work <;> exact hover)
  refine ⟨w, ?_, hpolled.trans hshift, hsame, hdrivers, hhandles⟩
  rw [move?_of_top m htop]
  simp only [react?, stepDriver?, goTo_world, goTo_control, hdriver, hagenda, hcontrol, poll,
    hready, goTo_withWorld, goTo_push, goTo_advance, hfind, hturn]

theorem moves_of_poll {d : DriverId} {turns : Nat} {agenda : Agenda}
    (htop : m.top = .driving d (.poll turns) :: frames) (hcontrol : m.control = .advance)
    (hagenda : m.world.agenda = some agenda) :
    Moves allowed m ((m.goTo frames m.world .advance).poll d turns agenda) := by
  have hpolled : Moves allowed m (m.goTo (.driving d .listen :: frames) m.world .advance) :=
    .goesOn htop (.polled turns) (by rw [hcontrol]; exact .refl m.world []) (by simp)
  rw [poll.eq_def]
  split
  next turns key rest hready =>
    have hshift : m.world.Shift []
        { m.world with agenda := some { agenda with ready := rest } } [] := by
      refine World.shift_agenda hagenda ?_ ?_ [] <;> rfl
    simp only [goTo_world, goTo_withWorld, goTo_push, goTo_advance]
    split
    next => exact .goesOn htop (.turns turns) (by rw [hcontrol]; exact hshift) (by simp)
    next call hfind =>
      exact moves_of_turn htop hcontrol hshift rfl (List.mem_of_find?_eq_some hfind)
  next =>
    rw [goTo_push, goTo_advance]
    exact hpolled

theorem moves_of_drained {d : DriverId} {driver : Driver} {n : Nat}
    (htop : m.top = .driving d .drain :: frames) (hcontrol : m.control = .answer (.ok n))
    (hd : m.world.driver? d = some driver) :
    Moves allowed m ((m.goTo frames m.world m.control).drained d driver) := by
  rw [drained]
  split
  next hflight =>
    rw [goTo_push, goTo_advance]
    refine .goesOn htop .listens (by rw [hcontrol]; exact .refl m.world []) fun _ => ?_
    rwa [World.inFlight, hd]
  next hflight =>
    split
    next hwaiting =>
      simp only [endDrive, goTo_world, goTo_withWorld, goTo_emit, goTo_advance]
      exact .ends htop hcontrol hd (by omega) (by simpa using hwaiting)
    next hwaiting =>
      simp only [goTo_world, goTo_withWorld, goTo_push, goTo_advance]
      exact .settles htop hcontrol hd (by omega) (by simpa using hwaiting)

theorem moves_of_driving {d : DriverId} {phase : DriverPhase}
    (htop : m.top = .driving d phase :: frames)
    (h : (m.goTo frames m.world m.control).react? (.driving d phase) = some m') :
    Moves allowed m m' := by
  simp only [react?, stepDriver?, goTo_world, goTo_control] at h
  split at h
  next driver agenda hd hagenda =>
    split at h
    next hcontrol =>
      cases h
      rw [hcontrol, goTo_push]
      exact .asksAgain htop hcontrol hd
    next n hcontrol => exact (Option.some.inj h) ▸ moves_of_drained htop hcontrol hd
    next hcontrol =>
      rw [hcontrol] at h
      exact moves_of_listen htop hcontrol hagenda h
    next turns hcontrol =>
      cases h
      rw [hcontrol]
      exact moves_of_poll htop hcontrol hagenda
    next hcontrol =>
      cases h
      rw [hcontrol, goTo_push, goTo_advance]
      exact .goesOn htop .settled (by rw [hcontrol]; exact .refl m.world []) (by simp)
    next x rest hcontrol =>
      cases h
      rw [hcontrol, goTo_push]
      exact .resumes htop hcontrol hd
    next fiber rest result hcontrol =>
      cases h
      have hheld : m.control.assets = [] := by rw [hcontrol]; rfl
      cases result with
      | ok ran =>
        simp only [goTo_push, goTo_advance]
        refine .goesOn htop (.resumed fiber rest) ?_ (by simp)
        rw [hheld, List.append_nil]
        exact .refl m.world _
      | error fault =>
        simp only [goTo_withWorld, goTo_push, goTo_advance]
        refine .goesOn htop (.resumed fiber rest) ?_ (by simp)
        rw [hheld, List.append_nil]
        exact m.world.shift_tell (Event.isQuiet_waiterLost fiber _) _
    next => cases h
  next => cases h

/-- Frames that wait for one thing only. -/
theorem moves_of_waiting {frame : Frame} (htop : m.top = frame :: frames)
    (h : (m.goTo frames m.world m.control).react? frame = some m')
    (hwaits : (∃ x plan, frame = .awaiting x plan) ∨
      (∃ name slot, frame = .transferring name slot) ∨
      (∃ s, frame = .dispatching s) ∨ (∃ s ran max, frame = .draining s ran max) ∨
      ∃ d key fiber, frame = .completing d key fiber) : Moves allowed m m' := by
  rcases hwaits with ⟨x, plan, rfl⟩ | ⟨name, slot, rfl⟩ | ⟨s, rfl⟩ | ⟨s, ran, max, rfl⟩ |
    ⟨d, key, fiber, rfl⟩
  all_goals
    cases hcontrol : m.control <;>
      simp only [react?, hcontrol, goTo_control, goTo_withWorld, goTo_advance, goTo_world,
        Option.some.injEq, reduceCtorEq] at h
  · exact h ▸ hcontrol ▸ .concludes htop hcontrol
  · exact h ▸ hcontrol ▸ .transferred htop hcontrol
  · exact h ▸ .receives htop hcontrol
  · exact h ▸ .drains htop hcontrol
  · exact h ▸ hcontrol ▸ .completed htop hcontrol

/-- A move of a machine whose places are in order is one of the things that a
step can do. -/
theorem moves_of_move (h : m.move? = some m') (horderly : m.world.Orderly)
    (hallowed : ∀ action, m.nextAction? = some action → allowed action.core) :
    Moves allowed m m' := by
  cases htop : m.top with
  | nil =>
    obtain ⟨world, running, root, control⟩ := m
    cases running with
    | nil => simp [move?, show root = [] from htop] at h
    | cons running below =>
      have hframes : running.frames = [] := htop
      simp only [move?, hframes, Option.map_eq_some_iff] at h
      obtain ⟨exit, hexit, rfl⟩ := h
      exact .leaves rfl htop hexit
  | cons frame frames =>
    rw [move?_of_top m htop] at h
    cases frame with
    | actions todo guards => exact moves_of_actions htop horderly hallowed h
    | again times body => exact moves_of_again htop h
    | catching => exact moves_of_catching htop h
    | registering own plan => exact moves_of_registering htop h
    | awaiting x plan => exact moves_of_waiting htop h (.inl ⟨x, plan, rfl⟩)
    | suspending raises => exact moves_of_suspending htop h
    | transferring name slot => exact moves_of_waiting htop h (.inr (.inl ⟨name, slot, rfl⟩))
    | dispatching s => exact moves_of_waiting htop h (.inr (.inr (.inl ⟨s, rfl⟩)))
    | draining s ran max =>
      exact moves_of_waiting htop h (.inr (.inr (.inr (.inl ⟨s, ran, max, rfl⟩))))
    | answering s reply => exact moves_of_answering htop h
    | driving d phase => exact moves_of_driving htop h
    | completing d key fiber =>
      exact moves_of_waiting htop h (.inr (.inr (.inr (.inr ⟨d, key, fiber, rfl⟩))))

end Machine

end Fibers
