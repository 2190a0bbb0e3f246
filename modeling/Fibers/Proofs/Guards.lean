import Fibers.Proofs.Fates
import Fibers.Proofs.Origins

/-!
Guards. A guard stands in the list of actions that pushed it until that list is over, and
lists of actions are over in the reverse order in which they began. So what a fiber
pushes it releases, each guard once, the last one first; it does so while it runs, or all
at once when it is unwound, and not while it is suspended.
-/

namespace Fibers

/-- A fiber that comes out of a handle was parked in it. -/
theorem World.parked_of_wake {w : World} {x : HandleRef} {owner : Owner}
    {resumption told : Resumption} {fiber : Fiber}
    (h : (w.wake x owner resumption).1 = .ok (some (fiber, told))) :
    ∃ cell, w.handles.get? x = some cell ∧ cell.slot = .parked fiber owner := by
  cases hcell : w.handles.get? x with
  | none =>
    rw [wake, hcell] at h
    cases h
  | some cell =>
    have hwakes := wakes hcell owner resumption
    generalize w.wake x owner resumption = result at h hwakes
    cases hwakes with
    | stored | refused => cases h
    | met other hslot =>
      cases h
      exact ⟨cell, rfl, hslot⟩

namespace Machine

variable {allowed : Action → Prop} {m m' : Machine} {frames : List Frame} {w : World}
  {told : Control} {fiber : Fiber} {resumption : Resumption} {x : HandleRef} {s : SchedulerId}
  {serial : Nat} {script : Script}

/-! ### The level that control is in -/

/-- What a step does with the guards of the level that control is in. -/
inductive GuardStep (m : Machine) : Machine → Prop
  | stays {frames : List Frame} {w : World} {control : Control}
      (h : framesGuards frames = framesGuards m.top) (hcontrol : control.fiber? = none) :
      GuardStep m (m.goTo frames w control)
  | pushes {value : Datum} {todo : List Action} {guards : List Datum} {frames : List Frame}
      (htop : m.top = .actions (.guard value :: todo) guards :: frames)
      (hcontrol : m.control = .advance) :
      GuardStep m (m.goTo (.actions todo (value :: guards) :: frames) m.world .advance)
  | releases {todo : List Action} {guards : List Datum} {frames : List Frame}
      (htop : m.top = .actions todo guards :: frames) (hcontrol : m.control.IsCode) :
      GuardStep m (m.goTo frames (m.world.release (guards.map .guard)) m.control)
  | enters {frames : List Frame} {w : World} {told : Control} {fiber : Fiber}
      {resumption : Resumption} (h : framesGuards frames = framesGuards m.top)
      (hfrom : fiber.isSuspended = true → m.world.HasFiber fiber) :
      GuardStep m ((m.goTo frames w told).enter fiber resumption)
  | suspends {running : Running} {below : List Running} {frames : List Frame} {w : World}
      {x : HandleRef} (hrunning : m.running = running :: below)
      (h : framesGuards frames = framesGuards m.top) :
      GuardStep m ⟨w, below, m.root, .back (running.leave (.suspended frames running.first))
        (.suspended x)⟩
  | leaves {running : Running} {below : List Running} {exit : Exit}
      (hrunning : m.running = running :: below) (htop : m.top = []) :
      GuardStep m (m.leave running below exit)

namespace GuardStep

variable (h : framesGuards frames = framesGuards m.top)

include h

theorem suspend (w : World) (htold : told.fiber? = none) (x : HandleRef) :
    m.GuardStep ((m.goTo frames w told).suspend x) := by
  obtain ⟨world, levels, root, control⟩ := m
  cases levels with
  | nil => exact .stays h htold
  | cons running below =>
    have hsuspends : GuardStep ⟨world, running :: below, root, control⟩
        ⟨{ w with current := running.outer }, below, root,
        .back (running.leave (.suspended frames running.first)) (.suspended x)⟩ := .suspends rfl h
    exact hsuspends

theorem suspendAwait (w : World) (htold : told.fiber? = none) (x : HandleRef) (plan : AwaitPlan) :
    m.GuardStep ((m.goTo frames w told).suspendAwait x plan) := by
  rw [Machine.suspendAwait, goTo_push]
  apply suspend
  · exact h
  · exact htold

theorem run (w : World) (told : Control) (s : SchedulerId) (max : Option Nat) :
    m.GuardStep ((m.goTo frames w told).run s max) := by
  rw [Machine.run]
  split
  · exact .stays h rfl
  · rw [goTo_push, goTo_advance]
    exact .stays h rfl

/-- A fiber that is resumed was parked. -/
theorem deliver (hnoArrivals : m.world.NoArrivals w) (told : Control) (s : SchedulerId)
    (x : HandleRef) (resumption : Resumption) :
    m.GuardStep ((m.goTo frames w told).deliver s x resumption) := by
  rw [Machine.deliver]
  simp only
  split
  · exact .stays h rfl
  · exact .stays h rfl
  next fiber met w' hwake =>
    split
    · exact .stays h rfl
    · rw [dispatch, goTo_withWorld, goTo_push, goTo_push]
      apply GuardStep.enters
      · exact h
      · intro _
        obtain ⟨cell, hcell, hslot⟩ := World.parked_of_wake (congrArg Prod.fst hwake)
        exact .kept (hnoArrivals.keepsFiber (.parked hcell hslot))

/-- A fiber that has its turn was queued. -/
theorem drain (told : Control) (s : SchedulerId) (ran : Nat) (max : Option Nat) :
    m.GuardStep ((m.goTo frames m.world told).drain s ran max) := by
  have hdrains := (m.goTo frames m.world told).drains s ran max
  generalize (m.goTo frames m.world told).drain s ran max = m' at hdrains
  cases hdrains with
  | stops | fails =>
    rw [goTo_goTo, goTo_top]
    exact .stays h rfl
  | starts _ _ _ _ _ hstate =>
    rw [goTo_goTo, goTo_top]
    apply GuardStep.enters
    · exact h
    · intro hsuspended
      simp [Fiber.isSuspended, Fiber.isStarted, hstate] at hsuspended
  | @wakes fiber resumption w hmore hnext =>
    rw [goTo_goTo, goTo_top]
    apply GuardStep.enters
    · exact h
    · intro _
      obtain ⟨queue, hqueue, -⟩ := World.next?_eq hnext
      rw [goTo_world] at hqueue
      have hqueued : .woken fiber resumption ∈ m.world.queue s := by
        rw [hqueue]
        exact List.mem_cons_self ..
      exact .kept (.queued hqueued)

end GuardStep

theorem framesGuards_fresh {pushed : List Frame} (h : ∀ frame ∈ pushed, frame.guards = []) :
    framesGuards pushed = [] := by
  rw [framesGuards, List.flatMap_eq_nil_iff]
  exact h

/-- An action leaves the guards of its level alone, and what it pushes has none. -/
theorem Does.guardStep (hm : m.Sound True) (hdoes : Does allowed (m.goTo frames m.world told) m')
    (h : framesGuards frames = framesGuards m.top) : m.GuardStep m' := by
  have hnoArrivals : ∀ {w out}, m.world.Shift [] w out → m.world.NoArrivals w := fun hshift =>
    (hshift _ hm.kept.balanced).drift.noArrivals
  cases hdoes with
  | idle pushed w control hpushed hcode hshift hfresh =>
    rw [goTo_goTo, goTo_top]
    apply GuardStep.stays
    · rw [framesGuards_append, framesGuards_fresh hfresh]
      exact h
    · cases control <;> first | rfl | exact hcode.elim
  | enqueues | awaits | strands | drives | drivers | makes =>
    rw [goTo_goTo]
    exact .stays (by simpa [Frame.guards] using h) rfl
  | asks =>
    rw [goTo_goTo]
    exact .run (by simpa [Frame.guards] using h) ..
  | delivers reply hshift =>
    rw [goTo_goTo]
    exact .deliver (by simpa [Frame.guards] using h) (hnoArrivals hshift) ..
  | issues | waits =>
    rw [goTo_goTo]
    exact .suspendAwait (by simpa [Frame.guards] using h) _ rfl ..
  | suspends =>
    rw [goTo_goTo]
    exact .suspend (by simpa [Frame.guards] using h) _ rfl _
  | @parks w x fiber slot keep name owner =>
    generalize w.park x fiber (.caller owner) = result
    obtain ⟨_ | ⟨other, resumption⟩, w'⟩ := result
    all_goals
      simp only [parkedByHand, handOut, goTo_goTo, goTo_withWorld, goTo_emit, goTo_world, goTo_top]
      exact .stays h rfl
  | @wakes w x resumption slot keep name owner =>
    generalize w.wake x (.caller owner) resumption = result
    obtain ⟨_ | _ | ⟨fiber, told⟩, w'⟩ := result
    all_goals
      simp only [wokenByHand, handOut, goTo_goTo, goTo_withWorld, goTo_emit, goTo_world, goTo_top]
      exact .stays h rfl
  | transfers hallowed hrests hshift hname =>
    rw [goTo_goTo]
    apply GuardStep.enters
    · simpa [Frame.guards] using h
    · intro _
      exact .named hname

/-- A list of actions pushes a guard, performs an action, or is over. -/
theorem Sound.guardStep_actions (h : m.Sound True) {todo : List Action} {guards : List Datum}
    (htop : m.top = .actions todo guards :: frames) (hstep : m.step? = some m') :
    m.GuardStep m' := by
  rw [h.step?_of_top htop] at hstep
  cases hcontrol : m.control with
  | raise failure | panicking panic =>
    simp only [react?, hcontrol, goTo_control, goTo_world, goTo_withWorld, Option.some.injEq]
      at hstep
    subst hstep
    rw [← hcontrol]
    exact .releases htop (by rw [hcontrol]; trivial)
  | resumed | back | answer => simp [react?, hcontrol] at hstep
  | advance =>
    cases todo with
    | nil =>
      simp only [react?, hcontrol, goTo_control, goTo_world, goTo_withWorld, Option.some.injEq]
        at hstep
      subst hstep
      rw [← hcontrol]
      exact .releases htop (by rw [hcontrol]; trivial)
    | cons action todo =>
      by_cases hguard : ∃ value, action = .guard value
      · obtain ⟨value, rfl⟩ := hguard
        simp only [react?, hcontrol, goTo_control, goTo_push, Option.some.injEq] at hstep
        subst hstep
        exact .pushes htop hcontrol
      · have hperform : m' =
          (m.goTo (.actions todo guards :: frames) m.world .advance).perform action := by
          rw [hcontrol] at hstep
          cases action with
          | guard value => exact absurd ⟨value, rfl⟩ hguard
          | _ =>
            simp only [react?, goTo_control, goTo_push, Option.some.injEq] at hstep
            exact hstep.symm
        rw [hperform]
        have hdoes : Does (fun _ => True) (m.goTo (.actions todo guards :: frames) m.world .advance)
            ((m.goTo (.actions todo guards :: frames) m.world .advance).perform action) :=
          perform_does (m := m.goTo (.actions todo guards :: frames) m.world .advance) rfl
            h.kept.orderly action trivial
        apply hdoes.guardStep h
        rw [htop]
        rfl

/-- What a step does with the guards of the level that control is in. -/
theorem Sound.guardStep (h : m.Sound True) (hstep : m.step? = some m') : m.GuardStep m' := by
  by_cases hactions : ∃ todo guards frames, m.top = .actions todo guards :: frames
  · obtain ⟨todo, guards, frames, htop⟩ := hactions
    exact h.guardStep_actions htop hstep
  · have hmoves : Moves (fun _ => True) m m' := step_moves hstep h fun _ _ => trivial
    have hbare : ∀ {frame : Frame} {frames : List Frame}, m.top = frame :: frames →
        framesGuards frames = framesGuards m.top := by
      intro frame frames htop
      rw [htop, framesGuards_cons]
      cases frame with
      | actions todo guards => exact absurd ⟨todo, guards, frames, htop⟩ hactions
      | _ => rfl
    have hplain : ∀ {control : Control}, control.IsCode → control.fiber? = none := by
      intro control hcode
      cases control <;> first | rfl | exact hcode.elim
    have hnoArrivals : ∀ {w out}, m.world.Shift [] w out → m.world.NoArrivals w := fun hshift =>
      (hshift _ h.kept.balanced).drift.noArrivals
    cases hmoves with
    | acts htop => exact absurd ⟨_, _, _, htop⟩ hactions
    | @idle frame frames pushed w control htop hlight hpushed hcode hshift hfresh =>
      apply GuardStep.stays
      · rcases hfresh with ⟨todo, guards, rfl⟩ | hfresh
        · exact absurd ⟨_, _, _, htop⟩ hactions
        · rw [framesGuards_append, framesGuards_fresh hfresh]
          exact hbare htop
      · exact hplain hcode
    | registered htop hcode => exact .suspendAwait (hbare htop) _ (hplain hcode) ..
    | @concludes x plan frames resumption htop hcontrol =>
      obtain ⟨w, control, heq, hcode, -⟩ :=
        concludeAwait_eq (m.goTo frames m.world m.control) x plan resumption
      rw [heq, goTo_goTo, goTo_top]
      exact .stays (hbare htop) (hplain hcode)
    | @transferred name slot fiber exit frames htop hcontrol =>
      obtain ⟨w, heq, -⟩ :=
        transferred_noProgress (m.goTo frames m.world m.control) name slot fiber exit
      rw [heq, goTo_goTo, goTo_top]
      exact .stays (hbare htop) rfl
    | @completed d key fiber result frames htop hcontrol =>
      obtain ⟨w, heq, -⟩ := completed_eq (m.goTo frames m.world m.control) d key fiber result
      rw [heq, goTo_goTo, goTo_top]
      exact .stays (hbare htop) rfl
    | receives htop | ends htop => exact .stays (hbare htop) rfl
    | goesOn htop | hears htop | settles htop =>
      apply GuardStep.stays
      · rw [framesGuards_cons]
        exact hbare htop
      · rfl
    | drains htop => exact .drain (hbare htop) ..
    | asksAgain htop =>
      apply GuardStep.run
      rw [framesGuards_cons]
      exact hbare htop
    | resumes htop =>
      apply GuardStep.deliver
      · rw [framesGuards_cons]
        exact hbare htop
      · exact .refl _
    | breaks htop =>
      apply GuardStep.stays
      · rw [framesGuards_cons, framesGuards_cons]
        exact hbare htop
      · rfl
    | @completes d driver turns call x work outcome agenda frames w htop hcontrol hshift =>
      have hhanded : w.NoProgress { w with agenda := some (agenda.setState call.key .handing) } :=
        .of_same rfl rfl rfl rfl
      apply GuardStep.deliver
      · rw [framesGuards_cons, framesGuards_cons]
        exact hbare htop
      · exact (hnoArrivals hshift).trans hhanded.toNoArrivals
    | leaves hrunning htop => exact .leaves hrunning htop

/-! ### The guards of one fiber -/

end Machine

/-- What happens to the guards of a fiber. -/
inductive GuardEvent
  | pushed (value : Datum)
  | released (value : Datum)

/-- Guards are released in the reverse order in which they were pushed, each one once. -/
inductive Replays : List Datum → List GuardEvent → List Datum → Prop
  | nil (guards : List Datum) : Replays guards [] guards
  | pushed {value : Datum} {before after : List Datum} {events : List GuardEvent}
      (h : Replays (value :: before) events after) : Replays before (.pushed value :: events) after
  | released {value : Datum} {before after : List Datum} {events : List GuardEvent}
      (h : Replays before events after) :
      Replays (value :: before) (.released value :: events) after

theorem Replays.trans {first second third : List Datum} {events more : List GuardEvent}
    (before : Replays first events second) (after : Replays second more third) :
    Replays first (events ++ more) third := by
  induction before with
  | nil => exact after
  | pushed _ ih => exact .pushed (ih after)
  | released _ ih => exact .released (ih after)

theorem replays_released (guards rest : List Datum) :
    Replays (guards ++ rest) (guards.map .released) rest := by
  induction guards with
  | nil => exact .nil rest
  | cons value guards ih => exact .released ih

namespace HandleTable

/-- Guards that are released leave the handles alone. -/
theorem release_guards (table : HandleTable) (guards : List Datum) :
    table.release (guards.map .guard) = (table, guards.map .dropped) := by
  induction guards with
  | nil => simp [release]
  | cons value rest ih => simp [release, ih]

end HandleTable

namespace Machine

variable {m m' : Machine} {running : Running} {fiber : Fiber} {serial : Nat} {script : Script}
  {guards : List Datum}

/-- The guards that the fiber of a serial has: on its level, as long as control is inside
of it, and in its own frames while it is suspended. -/
inductive Guarding (m : Machine) (serial : Nat) : List Datum → Prop
  | inside {running : Running} (member : running ∈ m.running) (hserial : running.serial = serial) :
      Guarding m serial (framesGuards running.frames)
  | outside {fiber : Fiber} (h : m.world.HasFiber fiber ∨ m.control.fiber? = some fiber)
      (hsuspended : fiber.isSuspended = true) (hserial : fiber.serial = serial) :
      Guarding m serial fiber.guards

/-- What happens to the guards of a fiber from one state of a session to the next. -/
inductive GuardChange (serial : Nat) (m m' : Machine) : List Datum → List GuardEvent →
    List Datum → Prop
  /-- A suspended fiber keeps its guards, wherever it is and also when it is entered. -/
  | rests {fiber : Fiber} (h : m.world.HasFiber fiber ∨ m.control.fiber? = some fiber)
      (hsuspended : fiber.isSuspended = true) (hserial : fiber.serial = serial)
      (hafter : m'.Has fiber) :
      GuardChange serial m m' fiber.guards [] fiber.guards
  /-- A fiber that control is inside of does something else, or suspends. -/
  | goesOn {running : Running} (member : running ∈ m.running) (hserial : running.serial = serial)
      (hafter : m'.Guarding serial (framesGuards running.frames)) :
      GuardChange serial m m' (framesGuards running.frames) [] (framesGuards running.frames)
  | pushes {running : Running} {below : List Running} {value : Datum} {todo : List Action}
      {guards : List Datum} {frames : List Frame} (hrunning : m.running = running :: below)
      (hserial : running.serial = serial)
      (hframes : running.frames = .actions (.guard value :: todo) guards :: frames)
      (hcontrol : m.control = .advance)
      (hafter : m'.Guarding serial (value :: framesGuards running.frames)) :
      GuardChange serial m m' (framesGuards running.frames) [.pushed value]
        (value :: framesGuards running.frames)
  /-- A list of actions is over, and nothing else is shown than its guards. -/
  | releases {running : Running} {below : List Running} {todo : List Action} {guards : List Datum}
      {frames : List Frame} (hrunning : m.running = running :: below)
      (hserial : running.serial = serial)
      (hframes : running.frames = .actions todo guards :: frames)
      (hnews : m'.world.history.toList = m.world.history.toList ++ guards.map
        (.entry (some running.id) "drop"))
      (hafter : m'.Guarding serial (framesGuards frames)) :
      GuardChange serial m m' (framesGuards running.frames) (guards.map .released)
        (framesGuards frames)
  | unwinds {fiber : Fiber} (h : m.world.HasFiber fiber ∨ m.control.fiber? = some fiber)
      (hsuspended : fiber.isSuspended = true) (hserial : fiber.serial = serial)
      (hunwinds : m.world.Unwinds fiber m'.world) :
      GuardChange serial m m' fiber.guards (fiber.guards.map .released) []
  /-- A fiber that ends has no guards left. -/
  | ends {running : Running} {below : List Running} {exit : Exit}
      (hrunning : m.running = running :: below) (hserial : running.serial = serial)
      (hframes : running.frames = [])
      (hended : .mark (.ended (running.leave .finished) exit) ∈ m'.world.history.toList) :
      GuardChange serial m m' [] [] []

/-- Whatever happens to its guards, a fiber releases what it pushed, the last one first. -/
theorem GuardChange.replays {before after : List Datum} {events : List GuardEvent}
    (h : m.GuardChange serial m' before events after) : Replays before events after := by
  cases h with
  | rests | goesOn | ends => exact .nil _
  | pushes => exact .pushed (.nil _)
  | releases hrunning hserial hframes =>
    rw [hframes, framesGuards_cons]
    exact replays_released _ _
  | @unwinds fiber =>
    have hreleased := replays_released fiber.guards []
    rwa [List.append_nil] at hreleased

theorem running_goTo {below : List Running} (hrunning : m.running = running :: below)
    (frames : List Frame) (w : World) (control : Control) : (m.goTo frames w control).running =
    { running with frames } :: below := by
  obtain ⟨world, levels, root, told⟩ := m
  cases hrunning
  rfl

theorem running_enter (m : Machine) (fiber : Fiber) (resumption : Resumption) :
    m.running ⊆ (m.enter fiber resumption).running := by
  rw [Machine.enter.eq_def]
  split
  · split
    · exact List.subset_cons_self ..
    · exact List.subset_cons_self ..
  · exact List.subset_cons_self ..
  · exact List.Subset.refl _

/-- A fiber that control is inside of stays so, if it is not the innermost one. -/
theorem GuardStep.below {below : List Running} (h : m.GuardStep m')
    (hrunning : m.running = running :: below) : below ⊆ m'.running := by
  have hgoTo : ∀ frames w control, below ⊆ (m.goTo frames w control).running := by
    intro frames w control
    rw [running_goTo hrunning]
    exact List.subset_cons_self ..
  cases h with
  | stays | pushes | releases => exact hgoTo ..
  | enters => exact List.Subset.trans (hgoTo ..) (running_enter ..)
  | suspends hsame =>
    cases hrunning.symm.trans hsame
    exact List.Subset.refl _
  | leaves hsame =>
    cases hrunning.symm.trans hsame
    exact List.Subset.refl _

theorem history_release_guards (w : World) (guards : List Datum) :
    (w.release (guards.map .guard)).history.toList =
      w.history.toList ++ guards.map (.entry w.currentId "drop") := by
  rw [World.release_eq, HandleTable.release_guards]
  simp [Relic.happening, Function.comp_def]

/-- What happens to the guards of the innermost fiber. -/
theorem GuardStep.innermost {below : List Running} (hm : m.Sound True) (h : m.GuardStep m')
    (hrunning : m.running = running :: below) (hserial : running.serial = serial) :
    ∃ events after, m.GuardChange serial m' (framesGuards running.frames) events after := by
  have htop : m.top = running.frames := by rw [top, hrunning, stackUnder]
  have hgoTo : ∀ frames w control, (m.goTo frames w control).Guarding serial
      (framesGuards frames) := by
    intro frames w control
    have member : { running with frames } ∈ (m.goTo frames w control).running := by
      rw [running_goTo hrunning]
      exact List.mem_cons_self ..
    exact .inside member hserial
  have member : running ∈ m.running := by
    rw [hrunning]
    exact List.mem_cons_self ..
  cases h with
  | @stays frames w control hsame =>
    refine ⟨_, _, .goesOn member hserial ?_⟩
    rw [← htop, ← hsame]
    exact hgoTo frames w control
  | @pushes value todo guards frames hactions hcontrol =>
    rw [htop] at hactions
    refine ⟨_, _, .pushes hrunning hserial hactions hcontrol ?_⟩
    rw [hactions]
    exact hgoTo (.actions todo (value :: guards) :: frames) m.world .advance
  | @releases todo guards frames hactions =>
    rw [htop] at hactions
    refine ⟨_, _, .releases hrunning hserial hactions ?_ (hgoTo ..)⟩
    rw [goTo_world, history_release_guards, World.currentId, hm.current, hrunning]
    rfl
  | @enters frames w told fiber resumption hsame =>
    refine ⟨_, _, .goesOn member hserial ?_⟩
    have hentered : { running with frames } ∈
        ((m.goTo frames w told).enter fiber resumption).running := by
      apply running_enter
      rw [running_goTo hrunning]
      exact List.mem_cons_self ..
    rw [← htop, ← hsame]
    exact .inside hentered hserial
  | @suspends left under frames w x hleft hsame =>
    cases hrunning.symm.trans hleft
    refine ⟨_, _, .goesOn member hserial ?_⟩
    rw [← htop, ← hsame]
    have hleft : (running.leave (.suspended frames running.first)).serial = serial := hserial
    exact .outside (.inr rfl) rfl hleft
  | @leaves left under exit hleft hnone =>
    cases hrunning.symm.trans hleft
    rw [htop] at hnone
    rw [hnone]
    have hended : .mark (.ended (running.leave .finished) exit) ∈
        (m.leave running below exit).world.history.toList := by
      rw [Machine.leave]
      simp [World.mark]
    exact ⟨_, _, .ends hrunning hserial hnone hended⟩

/-- What happens to the guards of a fiber from one state of a session to the next. -/
theorem Sound.guardChange (h : m.Sound True) (hfollows : m.Follows m')
    (hguards : m.Guarding serial guards) :
    ∃ events after, m.GuardChange serial m' guards events after := by
  cases hguards with
  | @inside running member hserial =>
    cases hfollows with
    | steps hstep =>
      have hguardStep := h.guardStep hstep
      obtain ⟨inner, below, hrunning⟩ := List.exists_cons_of_ne_nil (List.ne_nil_of_mem member)
      rw [hrunning] at member
      rcases List.mem_cons.1 member with rfl | hbelow
      · exact hguardStep.innermost h hrunning hserial
      · refine ⟨_, _, .goesOn (hrunning ▸ List.mem_cons_of_mem _ hbelow) hserial ?_⟩
        exact .inside (hguardStep.below hrunning hbelow) hserial
    | stirs => exact ⟨_, _, .goesOn member hserial (.inside member hserial)⟩
    | goesOn hdone action =>
      rw [hdone.1] at member
      cases member
    | closes hdone =>
      rw [hdone.1] at member
      cases member
  | @outside fiber haround hsuspended hserial =>
    obtain ⟨hand, hlosesNone, hhas⟩ := h.losesNone hfollows
    rcases hlosesNone.around haround hsuspended with hplaced | hhand | hunwinds
    · exact ⟨_, _, .rests haround hsuspended hserial (.inl hplaced)⟩
    · exact ⟨_, _, .rests haround hsuspended hserial (hhas fiber hhand hsuspended)⟩
    · exact ⟨_, _, .unwinds haround hsuspended hserial hunwinds⟩

theorem Has.guarding (h : m.Has fiber) (hsuspended : fiber.isSuspended = true)
    (hserial : fiber.serial = serial) : m.Guarding serial fiber.guards := by
  rcases h with hplaced | hback | ⟨running, below, hrunning, rfl⟩
  · exact .outside (.inl hplaced) hsuspended hserial
  · exact .outside (.inr hback) hsuspended hserial
  · exact .inside (hrunning ▸ List.mem_cons_self ..) hserial

/-- A fiber that has ended or was unwound has no guards. -/
theorem Sound.not_guarding (h : m.Sound True)
    (hburied : 0 < m.world.tally (Mark.terminates serial)) : ¬m.Guarding serial guards := by
  intro hguards
  cases hguards with
  | inside member hserial => exact h.serial_ne hburied member hserial
  | @outside fiber haround hsuspended hserial =>
    subst hserial
    have hbodies := h.kept.balanced.bodies fiber.serial
    have hhas : m.Has fiber := haround.imp_right .inl
    have hheld := Has.weigh_pos hhas hsuspended
    split at hbodies <;> omega

/-- A fiber has its guards after what happened to them, or it is no more, and then it
has none. -/
theorem GuardChange.guarding {before after : List Datum} {events : List GuardEvent}
    (h : m.GuardChange serial m' before events after) :
    m'.Guarding serial after ∨ after = [] ∧ 0 < m'.world.tally (Mark.terminates serial) := by
  cases h with
  | rests _ hsuspended hserial hafter => exact .inl (hafter.guarding hsuspended hserial)
  | goesOn _ _ hafter | pushes _ _ _ _ hafter | releases _ _ _ _ hafter => exact .inl hafter
  | unwinds _ _ hserial hunwinds =>
    subst hserial
    exact .inr ⟨rfl, hunwinds.discarded.buried⟩
  | @ends running below exit hrunning hserial hframes hended =>
    have hone : Mark.terminates serial (.ended (running.leave .finished) exit) = 1 := if_pos hserial
    have hle := le_tally hended (Mark.terminates serial)
    exact .inr ⟨rfl, by omega⟩

/-! ### How a fiber comes by guards -/

theorem exists_of_mem_goTo {frames : List Frame} {w : World} {control : Control}
    (member : running ∈ (m.goTo frames w control).running) :
    ∃ old ∈ m.running, old.serial = running.serial := by
  cases hrunning : m.running with
  | nil =>
    rw [(goTo_running_eq_nil m frames w control hrunning).1] at member
    cases member
  | cons inner below =>
    rw [running_goTo hrunning] at member
    rcases List.mem_cons.1 member with rfl | hbelow
    · exact ⟨inner, List.mem_cons_self .., rfl⟩
    · exact ⟨running, List.mem_cons_of_mem _ hbelow, rfl⟩

/-- A fiber that is entered goes on as it suspended, or begins without guards. -/
theorem of_mem_enter {resumption : Resumption}
    (member : running ∈ (m.enter fiber resumption).running) :
    running ∈ m.running ∨ running.serial = fiber.serial ∧
      (fiber.isSuspended = true ∨ framesGuards running.frames = []) := by
  rw [Machine.enter.eq_def] at member
  split at member
  next body hstate =>
    split at member
    · rcases List.mem_cons.1 member with rfl | hbefore
      · exact .inr ⟨rfl, .inr rfl⟩
      · exact .inl hbefore
    · rcases List.mem_cons.1 member with rfl | hbefore
      · exact .inr ⟨rfl, .inr rfl⟩
      · exact .inl hbefore
  next frames first hstate =>
    rcases List.mem_cons.1 member with rfl | hbefore
    · exact .inr
        ⟨rfl, .inl (by simp [Fiber.isSuspended, Fiber.isStarted, Fiber.isFinished, hstate])⟩
    · exact .inl hbefore
  · exact .inl member

/-- Only a finished fiber comes back at once from where it is entered. -/
theorem not_suspended_of_enter {resumption : Resumption} {other : Fiber}
    (hback : (m.enter fiber resumption).control.fiber? = some other) :
    ¬other.isSuspended = true := by
  rw [Machine.enter.eq_def] at hback
  split at hback
  · split at hback <;> cases hback
  · cases hback
  next hstate =>
    cases hback
    simp [Fiber.isSuspended, Fiber.isFinished, hstate]

/-- A suspended fiber does not come to rest out of nothing. -/
theorem Sound.noNewFibers (h : m.Sound True) (hfollows : m.Follows m')
    (hsuspended : fiber.isSuspended = true) (hplaced : m'.world.HasFiber fiber) :
    m.world.HasFiber fiber ∨ m.control.fiber? = some fiber := by
  have hshown : m.world.NoNewFibers m.control.fiber? (Script.showOutcome m) m.control.fiber? := by
    rw [Script.showOutcome]
    split
    · exact .of_same rfl rfl rfl
    · exact .of_same rfl rfl rfl
    · exact .of_same rfl rfl rfl
  cases hfollows with
  | steps hstep =>
    obtain ⟨entered, hfibers, -⟩ :=
      World.turns_noNewFibers.steps h (fun _ _ _ _ _ _ => .of_same rfl rfl rfl) hstep
    exact hfibers fiber hsuspended (.inl hplaced)
  | stirs hstirs =>
    rw [withWorld_world, hstirs.rest] at hplaced
    cases hplaced with
    | kept hkeeps => exact .inl (.kept (hstirs.noProgress.keepsFiber (by rwa [hstirs.rest])))
    | named hname => exact .inl (.named hname)
  | goesOn hdone action => exact hshown fiber hsuspended (.inl hplaced)
  | closes hdone =>
    cases hplaced with
    | kept hkeeps =>
      exact hshown fiber hsuspended (.inl (.kept ((World.noProgress_close _).keepsFiber hkeeps)))
    | named hname =>
      rw [World.close, World.release_eq] at hname
      cases hname

/-- A fiber that had no guards because it was nowhere, or had not suspended yet, has none
when it begins. -/
theorem Sound.born (h : m.Sound True) (hfollows : m.Follows m')
    (hnone : ∀ guards, ¬m.Guarding serial guards) (hguards : m'.Guarding serial guards) :
    guards = [] := by
  have habsent : ∀ running ∈ m.running, running.serial ≠ serial := fun running member hserial =>
    hnone _ (.inside member hserial)
  cases hguards with
  | @inside running member hserial =>
    cases hfollows with
    | goesOn | closes => cases member
    | stirs => exact absurd hserial (habsent running member)
    | steps hstep =>
      have hbefore : running ∉ m.running := fun hmem => habsent running hmem hserial
      have hgoTo : ∀ {frames w control}, running ∉ (m.goTo frames w control).running := by
        intro frames w control hmem
        obtain ⟨old, hold, hsame⟩ := exists_of_mem_goTo hmem
        exact habsent old hold (hsame.trans hserial)
      cases h.guardStep hstep with
      | stays | pushes | releases => exact absurd member hgoTo
      | @enters frames w told fiber resumption hsame hfrom =>
        rcases of_mem_enter member with hmem | ⟨heq, hsuspended | hfresh⟩
        · exact absurd hmem hgoTo
        · exact absurd
            (.outside (.inl (hfrom hsuspended)) hsuspended (heq.symm.trans hserial)) (hnone _)
        · exact hfresh
      | suspends hleft =>
        rw [hleft] at hbefore
        exact absurd (List.mem_cons_of_mem _ member) hbefore
      | leaves hleft =>
        rw [hleft] at hbefore
        exact absurd (List.mem_cons_of_mem _ member) hbefore
  | @outside fiber haround hsuspended hserial =>
    rcases haround with hplaced | hback
    · exact absurd
        (.outside (h.noNewFibers hfollows hsuspended hplaced) hsuspended hserial) (hnone _)
    · cases hfollows with
      | goesOn | closes => cases hback
      | stirs => exact absurd (.outside (.inr hback) hsuspended hserial) (hnone _)
      | steps hstep =>
        cases h.guardStep hstep with
        | stays _ hcontrol =>
          rw [goTo_control, hcontrol] at hback
          cases hback
        | pushes => cases hback
        | releases _ hcode =>
          rw [goTo_control] at hback
          cases hcontrol : m.control with
          | back =>
            rw [hcontrol] at hcode
            exact hcode.elim
          | _ =>
            rw [hcontrol] at hback
            cases hback
        | enters => exact absurd hsuspended (not_suspended_of_enter hback)
        | suspends hleft =>
          cases hback
          exact absurd hserial (habsent _ (hleft ▸ List.mem_cons_self ..))
        | leaves =>
          cases hback
          cases hsuspended

/-! ### Whole sessions -/

/-- What has happened to the guards of a fiber when a session has come to some state. -/
inductive Guarded (start : World) (serial : Nat) : Machine → List GuardEvent → Prop
  | begins (action : Action) : Guarded start serial (Script.begin start action) []
  | absent {a b : Machine} {events : List GuardEvent} (h : Guarded start serial a events)
      (hfollows : a.Follows b) (hnone : ∀ guards, ¬a.Guarding serial guards) :
      Guarded start serial b events
  | guardChange {a b : Machine} {events more : List GuardEvent} {before after : List Datum}
      (h : Guarded start serial a events) (hfollows : a.Follows b)
      (hguards : a.Guarding serial before)
      (hguardChange : a.GuardChange serial b before more after) :
      Guarded start serial b (events ++ more)

/-- Whatever a fiber has pushed and not released yet it has now, in this order; and once it
is no more it has released everything. -/
theorem Visits.guarded (h : Visits (fun _ => True) script.start m) (serial : Nat) :
    ∃ events after, Guarded script.start serial m events ∧ Replays [] events after ∧
      (m.Guarding serial after ∨ after = [] ∧ ∀ guards, ¬m.Guarding serial guards) := by
  apply h.follow
    (P := fun m => ∃ events after, Guarded script.start serial m events ∧ Replays [] events after ∧
    (m.Guarding serial after ∨ after = [] ∧ ∀ guards, ¬m.Guarding serial guards))
  · intro action
    refine ⟨[], [], .begins action, .nil _, .inr ⟨rfl, ?_⟩⟩
    intro guards hguards
    cases hguards with
    | inside member => cases member
    | outside haround =>
      rcases haround with hplaced | hback
      · cases hplaced with
        | kept hkeeps => exact World.not_keepsFiber_start script _ hkeeps
        | named hname =>
          rw [Script.begin, World.coroutines_start] at hname
          cases hname
      · cases hback
  · rintro a b ha hfollows ⟨events, before, hguarded, hreplays, hguards | ⟨rfl, hnone⟩⟩
    · obtain ⟨more, after, hguardChange⟩ := ha.guardChange hfollows hguards
      refine ⟨events ++ more, after, .guardChange hguarded hfollows hguards hguardChange,
        hreplays.trans hguardChange.replays, ?_⟩
      exact hguardChange.guarding.imp_right fun hgone =>
        ⟨hgone.1, fun _ => (ha.follows hfollows).not_guarding hgone.2⟩
    · refine ⟨events, [], .absent hguarded hfollows hnone, hreplays, ?_⟩
      by_cases hguards : ∃ guards, b.Guarding serial guards
      · obtain ⟨guards, hguards⟩ := hguards
        have hfresh := ha.born hfollows hnone hguards
        exact .inl (hfresh ▸ hguards)
      · exact .inr ⟨rfl, fun guards hguards' => hguards ⟨guards, hguards'⟩⟩

end Machine

end Fibers
