import Fibers.Proofs.Errands

/-!
The run of a driver whose tasks are errands. The frame of the driver's loop stands on what
was there when the run began; a run loop of its scheduler stands on it at times, and a fiber
of the scheduler at most above that. So there are a few things that a step can do until the
run is over, and each of them keeps to errands.
-/

namespace Fibers

namespace World

variable {a b c w : World} {x : HandleRef} {s : SchedulerId} {resumption : Resumption}

/-- The fiber is parked in the handle. -/
def ParkedIn (w : World) (x : HandleRef) (fiber : Fiber) : Prop :=
  ∃ cell owner, w.handles.get? x = some cell ∧ cell.slot = .parked fiber owner

/-- Positions and drivers are as they were. -/
structure SamePosts (a b : World) : Prop where
  positions : b.positions = a.positions
  drivers : b.drivers = a.drivers

namespace SamePosts

theorem refl (w : World) : w.SamePosts w := ⟨rfl, rfl⟩

theorem trans (first : a.SamePosts b) (second : b.SamePosts c) : a.SamePosts c :=
  ⟨second.positions.trans first.positions, second.drivers.trans first.drivers⟩

theorem of_aside (h : b.aside = a.aside) : a.SamePosts b :=
  ⟨congrArg Aside.positions h, congrArg Aside.drivers h⟩

end SamePosts

/-- A call that is over is gone. -/
theorem claims_callOver_remove (w : World) (d : DriverId) (key : Nat) :
    ((w.updateAgenda fun agenda => agenda.remove key).callOver d).claims =
      w.claims.map (·.filter fun claim => claim.1 ≠ key) := by
  simp only [claims, callOver, updateDriver, updateAgenda, Option.map_map]
  cases w.agenda with
  | none => rfl
  | some agenda => exact congrArg some (Machine.claims_remove agenda key)

theorem surroundings_wake (w : World) (x : HandleRef) (owner : Owner) (resumption : Resumption) :
    (w.wake x owner resumption).2.surroundings = w.surroundings := by
  rw [wake]
  split
  · rfl
  · split <;> simp

end World

namespace Machine

variable {m m' : Machine} {p : Permit} {d : DriverId} {s : SchedulerId} {frames rest : List Frame}

/-! ### Where the run of a driver stands -/

/-- What a run loop stands on while the driver runs. -/
inductive LoopBase (d : DriverId) (rest : List Frame) : List Frame → Prop
  | drain : LoopBase d rest (.driving d .drain :: rest)
  | resuming (fiber : FiberId) (waiters : List HandleRef) :
      LoopBase d rest (.driving d (.resuming fiber waiters) :: rest)
  | completing (key : Nat) (fiber : FiberId) (turns : Nat) :
      LoopBase d rest (.completing d key fiber :: .driving d (.poll turns) :: rest)

/-- Where control is while the driver runs: in its loop, in a run loop of its scheduler, or
in a fiber of that scheduler. -/
inductive Stage (p : Permit) (d : DriverId) (s : SchedulerId) (rest : List Frame) (m : Machine) :
    Prop
  | loop {phase : DriverPhase} (hrunning : m.running = [])
      (hroot : m.root = .driving d phase :: rest) (hcontrol : m.control = .advance)
  | answered {base : List Frame} {result : Except SchedulerFault Nat} (hbase : LoopBase d rest base)
      (hrunning : m.running = []) (hroot : m.root = base) (hcontrol : m.control = .answer result)
  | drains {base : List Frame} {ran : Nat} (hbase : LoopBase d rest base)
      (hrunning : m.running = []) (hroot : m.root = .draining s ran none :: base)
      (hcontrol : m.control = .advance)
  | back {base : List Frame} {ran : Nat} {fiber : Fiber} {exit : Exit}
      (hbase : LoopBase d rest base) (hrunning : m.running = [])
      (hroot : m.root = .dispatching s :: .draining s ran none :: base)
      (hcontrol : m.control = .back fiber exit) (hhome : fiber.home = some s)
      (hback : ∀ x, exit = .suspended x → fiber.IsErrand p ∧ m.InHand d x)
  | inside {base : List Frame} {ran : Nat} {running : Running} (hbase : LoopBase d rest base)
      (hrunning : m.running = [running])
      (hroot : m.root = .dispatching s :: .draining s ran none :: base)
      (hhome : running.home = some s) (herrand : ∀ frame ∈ running.frames, frame.IsErrand p)

/-- The driver runs, and everything that its scheduler has to do is an errand. -/
structure RunsErrands (p : Permit) (d : DriverId) (s : SchedulerId) (rest : List Frame)
    (m : Machine) : Prop where
  ordinary : m.Ordinary
  attends : m.Attends (fun w t => w.fedBy d = some t) (fun _ => true) d
  position : m.world.driverAt p.position = some d
  enqueues : ∀ t, m.world.schedulerAt p.position = some t → t = s
  fed : m.world.fedBy d = some s
  agenda : m.world.agenda.isSome
  claims : ∀ {claims}, m.world.claims = some claims → ∀ claim ∈ claims, claim.2.1 = d
  whole : ∀ {key x ending}, (key, some (x, ending)) ∈ m.world.promises → ending ≠ .panicked
  queued : ∀ entry ∈ m.world.queue s, entry.IsErrand p
  parked : ∀ {x fiber}, m.InHand d x → m.world.ParkedIn x fiber → fiber.IsErrand p
  plain : PlainStack false rest
  stage : m.Stage p d s rest

/-- What a step does while the driver runs. -/
inductive ErrandStep (p : Permit) (d : DriverId) (s : SchedulerId) (rest : List Frame)
    (m : Machine) : Machine → Prop
  | asks (hrunning : m.running = []) (hroot : m.root = .driving d .drain :: rest)
      (hcontrol : m.control = .advance) :
      ErrandStep p d s rest m
        (m.goTo (.draining s 0 none :: .driving d .drain :: rest) m.world .advance)
  | goesOn {phase phase' : DriverPhase} {w : World} (hrunning : m.running = [])
      (hroot : m.root = .driving d phase :: rest) (hphase : phase.GoesOn phase')
      (h : m.world.NoProgress w) (hhosts : m.world.SameHosts w) (hposts : m.world.SamePosts w)
      (haside : phase.Listens ∨ w.aside = m.world.aside ∧
        (phase = .drain → ∃ result, m.control = .answer result)) :
      ErrandStep p d s rest m (m.goTo (.driving d phase' :: rest) w .advance)
  | hears (hrunning : m.running = []) (hroot : m.root = .driving d .listen :: rest)
      (hcontrol : m.control = .advance) (hnotified : m.world.notified d = true) :
      ErrandStep p d s rest m (m.goTo (.driving d .drain :: rest) (m.world.heard d) .advance)
  | settles {driver : Driver} {n : Nat} (hrunning : m.running = [])
      (hroot : m.root = .driving d .drain :: rest) (hcontrol : m.control = .answer (.ok n))
      (hd : m.world.driver? d = some driver) (hwaiting : driver.waiting ≠ []) :
      ErrandStep p d s rest m (m.goTo (.driving d (.settle driver.waiting) :: rest)
        ((m.world.updateDriver d fun driver => { driver with waiting := [] }).tell
          (.settled driver.waiting.length))
        .advance)
  | ends {m' : Machine} (h : m.RunsOut d m') (hrunning : m.running = [])
      (hroot : m.root = .driving d .drain :: rest) (hafter : m'.running = [] ∧ m'.root = rest) :
      ErrandStep p d s rest m m'
  | resumes {m' : Machine} {x : HandleRef} {waiters : List HandleRef} {fiber : Fiber}
      (hroot : m.root = .driving d (.settle (x :: waiters)) :: rest)
      (hhands : m.Hands d x .unit s
        (.driving d (.resuming (m.world.handleId x) waiters) :: rest) m.world m')
      (hparks : m.ParksFor x fiber s) : ErrandStep p d s rest m m'
  | completes {m' : Machine} {turns key : Nat} {x : HandleRef} {outcome : Resumption} {w : World}
      {fiber : Fiber} {id : FiberId} {claims : List (Nat × DriverId × Option HandleRef)}
      (hroot : m.root = .driving d (.poll (turns + 1)) :: rest)
      (hhands : m.Hands d x outcome s
        (.completing d key id :: .driving d (.poll turns) :: rest) w m')
      (hparks : m.ParksFor x fiber s) (hclaims : m.world.claims = some claims)
      (hclaim : (key, d, some x) ∈ claims) (hgiven : w.claims = some (claims.map (givenUp key)))
      (hposts : m.world.SamePosts m'.world) : ErrandStep p d s rest m m'
  | completed {key turns : Nat} {fiber : FiberId} {result : Except SchedulerFault Nat}
      (hrunning : m.running = [])
      (hroot : m.root = .completing d key fiber :: .driving d (.poll turns) :: rest)
      (hcontrol : m.control = .answer result) :
      ErrandStep p d s rest m
        ((m.goTo (.driving d (.poll turns) :: rest) m.world m.control).completed d key fiber result)
  | drains {m' : Machine} {base : List Frame} {ran : Nat} (hbase : LoopBase d rest base)
      (hrunning : m.running = []) (hroot : m.root = .draining s ran none :: base)
      (hcontrol : m.control = .advance) (h : Drains (m.goTo base m.world .advance) s ran none m')
      (haside : m'.world.aside = m.world.aside) :
      ErrandStep p d s rest m m'
  | receives {base : List Frame} {ran : Nat} {fiber : Fiber} {exit : Exit} {w : World}
      (hbase : LoopBase d rest base) (hrunning : m.running = [])
      (hroot : m.root = .dispatching s :: .draining s ran none :: base)
      (hcontrol : m.control = .back fiber exit) (h : m.world.Receives s fiber exit w)
      (haside : w.aside = m.world.aside) :
      ErrandStep p d s rest m (m.goTo (.draining s ran none :: base) w .advance)
  | errandMove {m' : Machine} {base : List Frame} {ran : Nat} {running : Running}
      (hbase : LoopBase d rest base) (hrunning : m.running = [running])
      (hroot : m.root = .dispatching s :: .draining s ran none :: base) (h : m.ErrandMove p d m') :
      ErrandStep p d s rest m m'

/-! ### What the host does in a step -/

theorem surroundings_deliver (m : Machine) (s : SchedulerId) (x : HandleRef)
    (resumption : Resumption) :
    (m.deliver s x resumption).world.surroundings = m.world.surroundings := by
  have hwake := m.world.surroundings_wake x (.scheduler s) resumption
  rw [deliver]
  dsimp only
  split
  next hwoken => exact (congrArg (fun result => result.2.surroundings) hwoken).symm.trans hwake
  next hwoken => exact (congrArg (fun result => result.2.surroundings) hwoken).symm.trans hwake
  next hwoken =>
    have hsame := (congrArg (fun result => result.2.surroundings) hwoken).symm.trans hwake
    split
    · exact hsame
    · rw [dispatch, surroundings_enter, push_eq, goTo_world, push_eq, goTo_world]
      exact hsame

theorem aside_deliver (m : Machine) (s : SchedulerId) (x : HandleRef) (resumption : Resumption) :
    (m.deliver s x resumption).world.aside = m.world.aside :=
    World.aside_of_surroundings (surroundings_deliver ..)

theorem aside_endFuture (m : Machine) (s : SchedulerId) (x : HandleRef) (ending : Ending) :
    (m.endFuture s x ending).world.aside = m.world.aside := by
  cases ending with
  | done outcome => exact aside_deliver ..
  | panicked => exact World.aside_of_surroundings (World.surroundings_release ..)

/-- A turn of a call is up to the host and the fiber that is resumed. -/
theorem samePosts_turn (m : Machine) (call : HostCall) : m.world.SamePosts (m.turn call).world := by
  have hcomplete : ∀ (m : Machine) (call : HostCall) (x : HandleRef) (ending : Ending),
      m.world.SamePosts (m.complete call x ending).world := by
    intro m call x ending
    rw [complete]
    split
    · exact .refl _
    · refine .trans ?_ (.of_aside (aside_endFuture ..))
      rw [push_eq, goTo_world]
      exact ⟨rfl, rfl⟩
  rw [turn]
  split
  · exact .refl _
  · split
    · split
      · exact hcomplete ..
      · exact ⟨rfl, rfl⟩
    · exact hcomplete ..
    · exact hcomplete ..
    · dsimp only
      split
      · exact .trans (b := m.world.setSemaphore _ _) ⟨rfl, rfl⟩ (hcomplete (m.withWorld _) ..)
      · exact ⟨rfl, rfl⟩
    · exact .refl _
    · exact hcomplete ..

theorem samePosts_poll (m : Machine) (d : DriverId) (turns : Nat) (agenda : Agenda) :
    m.world.SamePosts (m.poll d turns agenda).world := by
  have hpush : ∀ (m : Machine) (frame : Frame),
      ((m.push frame).advance).world = m.world := fun m frame => by
    rw [push_eq, goTo_advance, goTo_world]
  rw [poll.eq_def]
  split
  next turns key rest hready =>
    dsimp only
    split
    next => rw [hpush]; exact ⟨rfl, rfl⟩
    next call hcall =>
      refine .trans ?_ (samePosts_turn _ call)
      rw [hpush]
      exact ⟨rfl, rfl⟩
  next => rw [hpush]; exact .refl _

section Driving

variable {driver : Driver} {agenda : Agenda} (hm : m.Sound True) (hrunning : m.running = [])

include hm hrunning

theorem errandStep_goesOn {phase phase' : DriverPhase} {w : World}
    (hroot : m.root = .driving d phase :: rest) (hphase : phase.GoesOn phase')
    (hshift : m.world.Shift [] w []) (hposts : m.world.SamePosts w)
    (haside : phase.Listens ∨ w.aside = m.world.aside ∧
      (phase = .drain → ∃ result, m.control = .answer result)) :
    m.ErrandStep p d s rest (m.goTo (.driving d phase' :: rest) w .advance) :=
  .goesOn hrunning hroot hphase (hm.noProgress_of_shift hshift)
    (hshift _ hm.kept.balanced).drift.sameHosts hposts haside

/-- A driver that listens hears of a notification, lets ready calls work, or lets the clock
move on. -/
theorem errandStep_of_listen (hroot : m.root = .driving d .listen :: rest)
    (hcontrol : m.control = .advance) (hd : m.world.driver? d = some driver)
    (hagenda : m.world.agenda = some agenda)
    (h : (m.goTo rest m.world .advance).listen? d driver agenda = some m') :
    m.ErrandStep p d s rest m' := by
  rw [listen?] at h
  split at h
  next hnotified =>
    simp only [goTo_world, goTo_withWorld, goTo_push, goTo_advance, Option.some.injEq] at h
    subst h
    refine .hears hrunning hroot hcontrol ?_
    rw [World.notified, hd]
    exact hnotified
  next =>
    split at h
    next =>
      rw [Option.map_eq_some_iff] at h
      obtain ⟨later, hlater, h⟩ := h
      simp only [goTo_world, goTo_withWorld, goTo_push, goTo_advance] at h
      rw [Agenda.elapse?] at hlater
      split at hlater <;> cases hlater
      subst h
      refine errandStep_goesOn hm hrunning hroot .elapses (World.shift_agenda hagenda ?_ ?_ [])
        ⟨rfl, rfl⟩ (.inl trivial) <;> rfl
    next =>
      simp only [goTo_push, goTo_advance, Option.some.injEq] at h
      exact h ▸ errandStep_goesOn hm hrunning hroot (.polls _) (.refl _ _) (.refl _) (.inl trivial)

/-- A driver whose run loop is done listens, turns to those who wait for it, or is done. -/
theorem errandStep_of_drained {n : Nat} (hroot : m.root = .driving d .drain :: rest)
    (hcontrol : m.control = .answer (.ok n)) (hd : m.world.driver? d = some driver)
    (hstep : m.step? = some ((m.goTo rest m.world m.control).drained d driver)) :
    m.ErrandStep p d s rest ((m.goTo rest m.world m.control).drained d driver) := by
  have htop : m.top = .driving d .drain :: rest := by rw [top, hrunning]; exact hroot
  rw [drained] at hstep ⊢
  split
  next hflight =>
    rw [goTo_push, goTo_advance]
    exact errandStep_goesOn hm hrunning hroot .listens (.refl _ _) (.refl _)
      (.inr ⟨rfl, fun _ => ⟨_, hcontrol⟩⟩)
  next hflight =>
    rw [if_neg hflight] at hstep
    split
    next hwaiting =>
      rw [if_pos hwaiting] at hstep
      simp only [endDrive, goTo_world, goTo_withWorld, goTo_emit, goTo_advance] at hstep ⊢
      exact .ends ⟨hstep, rest, htop, goTo_top ..⟩ hrunning hroot
        (goTo_running_eq_nil _ _ _ _ hrunning)
    next hwaiting =>
      simp only [goTo_world, goTo_withWorld, goTo_push, goTo_advance]
      exact .settles hrunning hroot hcontrol hd (by simpa using hwaiting)

end Driving

/-- In its turn a ready call goes on waiting, or hands its outcome over. -/
theorem RunsErrands.errandStep_of_poll {turns : Nat} (h : m.RunsErrands p d s rest)
    (hrunning : m.running = []) (hroot : m.root = .driving d (.poll turns) :: rest)
    (hstep : m.step? = some m') : m.ErrandStep p d s rest m' := by
  have hm := h.ordinary.sound
  have htop : m.top = .driving d (.poll turns) :: rest := by rw [top, hrunning]; exact hroot
  have hposts : m.world.SamePosts m'.world := by
    rw [h.ordinary.sound.step?_of_top htop] at hstep
    rcases hm.control_of_driving htop with hcontrol | ⟨result, hcontrol⟩ <;>
      simp only [react?, stepDriver?, goTo_world, goTo_control, hcontrol] at hstep <;>
        split at hstep
    next driver agenda hd hagenda =>
      cases hstep
      exact samePosts_poll (m.goTo rest m.world .advance) d turns agenda
    all_goals cases hstep
  have hmoves : Moves (fun _ => True) m m' := step_moves hstep hm fun _ _ => trivial
  cases hmoves with
  | goesOn htop' hphase hshift =>
    rw [htop] at htop'
    cases htop'
    have hassets : m.control.assets = [] := by
      rcases hm.control_of_driving htop with hcontrol | ⟨result, hcontrol⟩ <;> rw [hcontrol] <;> rfl
    rw [hassets] at hshift
    refine errandStep_goesOn hm hrunning hroot hphase ?_ hposts (.inl trivial)
    cases hphase <;> exact hshift
  | @completes e driver turns call x work outcome agenda frames w htop' hcontrol hshift hagenda
    hcall hstate hending hd =>
    rw [htop] at htop'
    cases htop'
    have hfinishes : m.Finishes call x work agenda w := ⟨hcontrol, hshift, hagenda, hcall, hstate⟩
    have hhands := hfinishes.hands hm htop hending hd
    obtain ⟨hclaims, hclaim⟩ := hfinishes.claim hm
    obtain rfl : call.driver = d := h.claims hclaims _ hclaim
    obtain rfl : driver.scheduler = s := Option.some.inj (hhands.fed.symm.trans h.fed)
    obtain ⟨fiber, t, hparks, ht⟩ :=
      h.attends.parksFor (h.ordinary.hosted.held hhands.held) hcontrol
    obtain rfl : driver.scheduler = t := Option.some.inj (h.fed.symm.trans ht)
    refine .completes hroot hhands hparks hclaims hclaim ?_ hposts
    exact congrArg some (claims_setState agenda call.key)
  | @breaks e turns call x work agenda frames w htop' hcontrol hshift hagenda hcall
    hstate hending =>
    have hfinishes : m.Finishes call x work agenda w := ⟨hcontrol, hshift, hagenda, hcall, hstate⟩
    exact absurd hending (h.whole (hfinishes.promise hm))
  | idle pushed w control htop' hlight =>
    rw [htop] at htop'
    cases htop'
    exact hlight.elim
  | acts htop' | registered htop' | concludes htop' | transferred htop' | receives htop'
  | drains htop' | asksAgain htop'
    | hears htop' | settles htop' | ends htop' | resumes htop' | completed htop' | leaves _ htop' =>
    rw [htop] at htop'
    cases htop'

/-- The run of a driver, while it goes on, does one of these things in a step. -/
theorem RunsErrands.errandStep (h : m.RunsErrands p d s rest) (hstep : m.step? = some m') :
    m.ErrandStep p d s rest m' := by
  have hm := h.ordinary.sound
  have htop : m.running = [] → m.top = m.root := fun hrunning => by rw [top, hrunning]; rfl
  obtain ⟨agenda, hagenda⟩ := Option.isSome_iff_exists.1 h.agenda
  obtain ⟨driver, hd, hfed⟩ := Option.map_eq_some_iff.1 h.fed
  have houtside : m.running = [] → m.world.currentId = none := fun hrunning => by
    rw [World.currentId, hm.current, hrunning]
    rfl
  cases h.stage with
  | @loop phase hrunning hroot hcontrol =>
    have hphase := (htop hrunning).trans hroot
    have hreact := hstep
    rw [h.ordinary.sound.step?_of_top hphase] at hreact
    simp only [react?, stepDriver?, goTo_world, goTo_control, hd, hagenda, hcontrol] at hreact
    cases phase with
    | drain =>
      simp only [run, goTo_push, goTo_world, houtside hrunning, goTo_advance, Option.some.injEq]
        at hreact
      subst hreact
      exact hfed ▸ .asks hrunning hroot hcontrol
    | listen => exact errandStep_of_listen hm hrunning hroot hcontrol hd hagenda hreact
    | poll turns => exact h.errandStep_of_poll hrunning hroot hstep
    | settle waiters =>
      cases waiters with
      | nil =>
        simp only [goTo_push, goTo_advance, Option.some.injEq] at hreact
        subst hreact
        exact errandStep_goesOn hm hrunning hroot .settled (.refl _ _) (.refl _)
          (.inr ⟨rfl, fun hdrain => by cases hdrain⟩)
      | cons x waiters =>
        simp only [goTo_push, Option.some.injEq] at hreact
        subst hreact
        have hhands := hm.hands_of_resumes hphase hcontrol hd
        obtain rfl : driver.scheduler = s := hfed
        obtain ⟨fiber, t, hparks, ht⟩ :=
          h.attends.parksFor (h.ordinary.hosted.held hhands.held) hcontrol
        obtain rfl : driver.scheduler = t := Option.some.inj (h.fed.symm.trans ht)
        exact .resumes hroot hhands hparks
    | resuming fiber waiters => cases hreact
  | @answered base result hbase hrunning hroot hcontrol =>
    have hframes := (htop hrunning).trans hroot
    cases hbase with
    | drain =>
      have hreact := hstep
      rw [h.ordinary.sound.step?_of_top hframes] at hreact
      cases result with
      | error fault => simp [react?, stepDriver?, hd, hagenda, hcontrol] at hreact
      | ok n =>
        simp only [react?, stepDriver?, goTo_world, goTo_control, hd, hagenda, hcontrol,
          Option.some.injEq] at hreact
        subst hreact
        rw [← hcontrol] at hstep ⊢
        exact errandStep_of_drained hm hrunning hroot hcontrol hd hstep
    | resuming fiber waiters =>
      rw [h.ordinary.sound.step?_of_top hframes] at hstep
      have hwarned : ∀ event : Event, event.IsQuiet →
          m.ErrandStep p d s rest
            (m.goTo (.driving d (.settle waiters) :: rest) (m.world.tell event)
              .advance) := fun event hquiet =>
        errandStep_goesOn hm hrunning hroot (.resumed fiber waiters)
          (m.world.shift_tell hquiet []) ⟨rfl, rfl⟩ (.inr ⟨rfl, fun hdrain => by cases hdrain⟩)
      cases result with
      | error fault =>
        simp only [react?, stepDriver?, goTo_world, goTo_control, hd, hagenda, hcontrol,
          goTo_withWorld, goTo_push, goTo_advance, Option.some.injEq] at hstep
        exact hstep ▸ hwarned _ (Event.isQuiet_waiterLost fiber _)
      | ok n =>
        simp only [react?, stepDriver?, goTo_world, goTo_control, hd, hagenda, hcontrol,
          goTo_push, goTo_advance, Option.some.injEq] at hstep
        exact hstep ▸ errandStep_goesOn hm hrunning hroot (.resumed fiber waiters) (.refl _ _)
          (.refl _) (.inr ⟨rfl, fun hdrain => by cases hdrain⟩)
    | completing key fiber turns =>
      rw [h.ordinary.sound.step?_of_top hframes] at hstep
      simp only [react?, goTo_control, hcontrol, Option.some.injEq] at hstep
      subst hstep
      rw [← hcontrol]
      exact .completed hrunning hroot hcontrol
  | drains hbase hrunning hroot hcontrol =>
    rw [h.ordinary.sound.step?_of_top ((htop hrunning).trans hroot)] at hstep
    simp only [react?, goTo_control, hcontrol, Option.some.injEq] at hstep
    subst hstep
    exact .drains hbase hrunning hroot hcontrol (Machine.drains ..)
      (World.aside_of_surroundings (surroundings_drain ..))
  | back hbase hrunning hroot hcontrol =>
    rw [h.ordinary.sound.step?_of_top ((htop hrunning).trans hroot)] at hstep
    simp only [react?, goTo_control, hcontrol, goTo_withWorld, goTo_advance, goTo_world,
      Option.some.injEq] at hstep
    subst hstep
    exact .receives hbase hrunning hroot hcontrol
      (hm.receives ((htop hrunning).trans hroot) hcontrol).2
      (World.aside_of_surroundings (World.surroundings_receive ..))
  | @inside base ran running hbase hrunning hroot hhome herrand =>
    have hframes : ∀ frame ∈ m.top, frame.IsErrand p := by
      rw [top, hrunning]
      exact herrand
    exact .errandMove hbase hrunning hroot
      (hm.errandMove hrunning h.position h.agenda hframes hstep)

end Machine

/-! ### What comes to queues and handles -/

namespace World

variable {a b w w' : World} {x y : HandleRef} {cell : HandleCell} {s : SchedulerId}
  {fiber other : Fiber} {resumption : Resumption}

theorem NoArrivals.parkedIn (h : a.NoArrivals b) (hparked : b.ParkedIn y fiber) :
    a.ParkedIn y fiber := by
  obtain ⟨cell, owner, hcell, hslot⟩ := hparked
  obtain ⟨old, hold, hsame⟩ := h.parked hcell hslot
  exact ⟨old, owner, hold, hsame⟩

theorem parkedIn_of_handles (hhandles : b.handles = a.handles) (h : b.ParkedIn y fiber) :
    a.ParkedIn y fiber := by
  rwa [ParkedIn, hhandles] at h

/-- Besides what was parked before there is what a slot was laid with. -/
theorem parkedIn_setSlot (hcell : w.handles.get? x = some cell) {slot : Slot Fiber Owner Resumption}
    (h : (w.setSlot x slot).ParkedIn y fiber) : w.ParkedIn y fiber ∨
    ∃ owner, slot = .parked fiber owner := by
  obtain ⟨after, owner, hafter, hslot⟩ := h
  rw [get?_setSlot hcell] at hafter
  split at hafter
  · cases hafter
    exact .inr ⟨owner, hslot⟩
  · exact .inl ⟨after, owner, hafter, hslot⟩

theorem Parks.parkedIn {owner : Owner} {result : Option (Fiber × Resumption) × World}
    (h : w.Parks x cell fiber owner result) (hcell : w.handles.get? x = some cell)
    (hparked : result.2.ParkedIn y other) : w.ParkedIn y other ∨ other = fiber := by
  cases h with
  | absorbed hslot u hu =>
    have hhandles : u.handles = w.handles := by rcases hu with rfl | rfl <;> rfl
    rcases parkedIn_setSlot (hhandles ▸ hcell) ((noArrivals_release _ _).parkedIn hparked) with
      hold | ⟨holder, hnew⟩
    · exact .inl (parkedIn_of_handles hhandles hold)
    · cases hnew
      exact .inr rfl
  | met _ hslot =>
    rcases parkedIn_setSlot hcell ((noArrivals_release _ _).parkedIn hparked) with
      hold | ⟨holder, hnew⟩
    · exact .inl hold
    · cases hnew
  | refused hslot =>
    exact .inl (parkedIn_of_handles (b := w.tell (.usedHandle fiber.id)) rfl
        ((noArrivals_release _ _).parkedIn hparked))

theorem Passes.queue_sub (h : Passes s a b) {entry : Runnable} (member : entry ∈ b.queue s) :
    entry ∈ a.queue s :=
  mem_queue_of_sameOrGone h.scheduler member

theorem Opens.parkedIn {plan : AwaitPlan} (h : w.Opens x plan w') (hparked : w'.ParkedIn y fiber) :
    w.ParkedIn y fiber := by
  obtain ⟨current, clones, hbefore, -, hafter⟩ := h
  obtain ⟨cell, owner, hcell, hslot⟩ := hafter.toNoArrivals.parkedIn hparked
  refine hbefore.toNoArrivals.parkedIn ⟨cell, owner, ?_, hslot⟩
  have hget := get?_makeHandle _ current clones _ ▸ hcell
  split at hget
  · cases hget
    cases hslot
  · exact hget

end World

namespace Machine

variable {m m' : Machine} {p : Permit} {d : DriverId} {s : SchedulerId} {frames rest : List Frame}
  {x y : HandleRef} {cell : HandleCell} {fiber other : Fiber} {resumption : Resumption}

/-- Whoever is entered is not parked by that. -/
theorem parkedIn_of_enter (hparked : (m.enter other resumption).world.ParkedIn y fiber) :
    m.world.ParkedIn y fiber := by
  rw [enter.eq_def] at hparked
  split at hparked
  · split at hparked <;> exact World.parkedIn_of_handles rfl hparked
  · exact World.parkedIn_of_handles rfl hparked
  · exact (World.noArrivals_release _ _).parkedIn hparked

/-- Nobody is parked by what is delivered. -/
theorem Delivers.parkedIn (h : Delivers m s x cell resumption m')
    (hcell : m.world.handles.get? x = some cell) (hparked : m'.world.ParkedIn y fiber) :
    m.world.ParkedIn y fiber := by
  have hlaid : ∀ {slot : Slot Fiber Owner Resumption} {told : Mark} {u : World},
      u.handles = (((m.world.setSlot x slot).mark told).release [.handle x]).handles →
        (∀ owner, slot ≠ .parked fiber owner) → u.ParkedIn y fiber → m.world.ParkedIn y fiber := by
    intro slot told u hhandles hslot hparked
    have hreleased :=
      (World.noArrivals_release _ _).parkedIn (World.parkedIn_of_handles hhandles hparked)
    rcases World.parkedIn_setSlot hcell (World.parkedIn_of_handles rfl hreleased) with
      hold | ⟨owner, hnew⟩
    · exact hold
    · exact absurd hnew (hslot owner)
  cases h with
  | stored event hslot => exact hlaid rfl (fun _ heq => by cases heq) hparked
  | queued _ event hslot => exact hlaid rfl (fun _ heq => by cases heq) hparked
  | dispatched _ event hslot =>
    exact hlaid rfl (fun _ heq => by cases heq) (parkedIn_of_enter hparked)
  | refused fault event hslot hother hquiet =>
    exact ((World.noArrivals_release _ _).trans (.tell _ hquiet.1)).parkedIn hparked

/-- A run loop parks whoever comes back to it, or nobody. -/
theorem parkedIn_of_receives {exit : Exit} {w : World} (hm : m.Sound True)
    (hcontrol : m.control = .back other exit) (h : m.world.Receives s other exit w)
    (hparked : w.ParkedIn y fiber) :
    m.world.ParkedIn y fiber ∨ ∃ x, exit = .suspended x ∧ fiber = other := by
  cases h with
  | parked hcell hbefore hsame hparks =>
    exact (hparks.parkedIn (hsame ▸ hcell) hparked).imp (hbefore.noArrivals hm.kept).parkedIn
      fun heq => ⟨_, rfl, heq⟩
  | handedBack hcell hbefore hsame hparks =>
    exact (hparks.parkedIn (hsame ▸ hcell) (World.parkedIn_of_handles rfl hparked)).imp
      (hbefore.noArrivals hm.kept).parkedIn fun heq => ⟨_, rfl, heq⟩
  | ended hexit hafter =>
    exact .inl ((hafter.noArrivals (hm.kept_of_back hcontrol)).parkedIn hparked)

/-- Nobody is parked in a turn of a run loop. -/
theorem Drains.parkedIn {ran : Nat} {max : Option Nat} (hm : m.Sound True)
    (htop : m.top = .draining s ran max :: frames)
    (h : Drains (m.goTo frames m.world .advance) s ran max m')
    (hparked : m'.world.ParkedIn y fiber) :
    m.world.ParkedIn y fiber := by
  have hkept := hm.kept_of_top htop
  have hnext : ∀ {entry w}, m.world.next? s = some (entry, w) → w.ParkedIn y fiber →
      m.world.ParkedIn y fiber :=
    fun hnext => World.parkedIn_of_handles (World.handles_next hnext)
  cases h with
  | stops => exact hparked
  | fails hmore htaken hbefore hafter =>
    have hbegun := ((hkept.next htaken).drift_gain hbefore).noArrivals
    have hfailed := hafter.noArrivals (World.Sound.unstarted ((hkept.next htaken).gain hbefore))
    exact hnext htaken (hbegun.parkedIn (World.parkedIn_of_handles rfl (hfailed.parkedIn hparked)))
  | starts hmore htaken hbefore =>
    exact hnext htaken
      (((hkept.next htaken).drift_gain hbefore).noArrivals.parkedIn (parkedIn_of_enter hparked))
  | wakes hmore htaken => exact hnext htaken (parkedIn_of_enter hparked)

theorem suspendAwait_handles (m : Machine) (x : HandleRef) (plan : AwaitPlan) :
    (m.suspendAwait x plan).world.handles = m.world.handles ∧
    (m.suspendAwait x plan).world.schedulers = m.world.schedulers := by
  rw [suspendAwait, push_eq, suspend]
  split <;> exact ⟨rfl, rfl⟩

theorem noArrivals_of_leave (m : Machine) (running : Running) (below : List Running) (exit : Exit) :
    ∃ w : World, w.handles = m.world.handles ∧ w.schedulers = m.world.schedulers ∧
      w.NoArrivals (m.leave running below exit).world := by
  exact ⟨m.world.restore running.current running.outer, rfl, rfl,
    (World.noArrivals_release _ running.first.debris).trans (.mark _ trivial)⟩

/-- What an errand does parks nobody. -/
theorem ErrandMove.parkedIn (h : m.ErrandMove p d m') (hparked : m'.world.ParkedIn y fiber) :
    m.world.ParkedIn y fiber := by
  cases h with
  | goesOn pushed htop hcontrol hpushed hless hcode hnoProgress =>
    exact hnoProgress.toNoArrivals.parkedIn hparked
  | enqueues =>
    exact World.parkedIn_of_handles (World.handles_enqueue ..)
      (World.parkedIn_of_handles rfl hparked)
  | calls htop hcontrol hlabor htakes =>
    exact htakes.opens.parkedIn (World.parkedIn_of_handles (suspendAwait_handles ..).1 hparked)
  | concludes htop hcontrol hcode hnoProgress =>
    exact World.parkedIn_of_handles rfl (hnoProgress.toNoArrivals.parkedIn hparked)
  | leaves =>
    obtain ⟨w, hhandles, -, hnoArrivals⟩ := noArrivals_of_leave m ..
    exact World.parkedIn_of_handles hhandles (hnoArrivals.parkedIn hparked)

/-- What an errand brings to a queue is an errand. -/
theorem ErrandMove.queued (h : m.ErrandMove p d m') {entry : Runnable}
    (member : entry ∈ m'.world.queue s) :
    entry ∈ m.world.queue s ∨ p.free = true ∧ entry.IsErrand p := by
  cases h with
  | goesOn pushed htop hcontrol hpushed hless hcode hnoProgress =>
    exact .inl (hnoProgress.queue_sub s member)
  | @enqueues action todo guards frames body t scheduler shown htop hcontrol hlabor hbody
    hposition hs hfree =>
    have hentry : entry ∈ (m.world.enqueue t body).2.queue s := member
    rw [World.queue_enqueue hs] at hentry
    split at hentry
    · exact (List.mem_append.1 hentry).imp_right fun hnew =>
        ⟨hfree, by rw [List.mem_singleton.1 hnew]; exact hbody⟩
    · exact .inl hentry
  | calls htop hcontrol hlabor htakes =>
    refine .inl ((htakes.opens.passes s).queue_sub ?_)
    rwa [World.queue, World.scheduler?, (suspendAwait_handles ..).2] at member
  | concludes htop hcontrol hcode hnoProgress => exact .inl (hnoProgress.queue_sub s member)
  | leaves =>
    obtain ⟨w, -, hschedulers, hnoArrivals⟩ := noArrivals_of_leave m ..
    have hentry := hnoArrivals.queue_sub s member
    rw [World.queue, World.scheduler?, hschedulers] at hentry
    exact .inl hentry

/-! ### The run keeps to errands -/

/-- A fiber that comes out of control comes back to a run loop. One that is suspended is an
errand, and the driver has its handle in its hands. -/
theorem RunsErrands.stage_of_back {exit : Exit} (h : m.RunsErrands p d s rest)
    (hcontrol : m.control = .back fiber exit) :
    ∃ base ran, LoopBase d rest base ∧ m.running = [] ∧
      m.root = .dispatching s :: .draining s ran none :: base ∧
      fiber.home = some s ∧ ∀ x, exit = .suspended x → fiber.IsErrand p ∧ m.InHand d x := by
  cases h.stage with
  | loop _ _ hother | answered _ _ _ hother | drains _ _ _ hother =>
    rw [hcontrol] at hother; cases hother
  | back hbase hrunning hroot hother hhome hback =>
    rw [hcontrol] at hother
    cases hother
    exact ⟨_, _, hbase, hrunning, hroot, hhome, hback⟩
  | @inside base ran running hbase hrunning hroot hhome herrand =>
    have haccepts := h.ordinary.sound.accepts
    rw [hcontrol, show m.top = running.frames by rw [top, hrunning]; rfl] at haccepts
    obtain ⟨hentered, -⟩ := haccepts
    unfold World.Entered at hentered
    split at hentered
    next name slot frames heq =>
      exact False.elim (herrand (.transferring name slot) (heq ▸ List.mem_cons_self ..))
    next t other ran max frames heq =>
      exact False.elim (herrand (.dispatching t) (heq ▸ List.mem_cons_self ..))
    next => exact hentered.elim

theorem RunsErrands.errand_of_back {exit : Exit} (h : m.RunsErrands p d s rest)
    (hcontrol : m.control = .back fiber exit) (hexit : ∃ x, exit = .suspended x) :
    fiber.IsErrand p := by
  obtain ⟨x, hexit⟩ := hexit
  obtain ⟨base, ran, -, -, -, -, hback⟩ := h.stage_of_back hcontrol
  exact (hback x hexit).1

/-- Outside of fibers no code runs. -/
theorem RunsErrands.nextAction?_of_root (h : m.RunsErrands p d s rest) (hrunning : m.running = []) :
    m.nextAction? = none := by
  have hbase : ∀ {base}, LoopBase d rest base → m.root = base → m.nextAction? = none := by
    intro base hbase hroot
    cases hbase <;> simp [nextAction?, top, hrunning, stackUnder, hroot]
  cases h.stage with
  | loop _ hroot | drains _ _ hroot | back _ _ hroot =>
    simp [nextAction?, top, hrunning, stackUnder, hroot]
  | answered hbase' _ hroot => exact hbase hbase' hroot
  | inside _ hinside =>
    rw [hrunning] at hinside
    cases hinside

theorem Hands.parkedIn {w : World} {stack : List Frame} (h : m.Hands d x resumption s stack w m')
    (hparked : m'.world.ParkedIn y fiber) : m.world.ParkedIn y fiber := by
  obtain ⟨cell, hcell⟩ := World.exists_cell h.alive
  have hdelivers := (m.goTo stack w .advance).delivers s hcell resumption
  rw [← h.eq] at hdelivers
  exact h.noArrivals.parkedIn (hdelivers.parkedIn hcell hparked)

/-- Whoever comes to be parked has just come out of control. -/
theorem RunsErrands.parkedIn_step (h : m.RunsErrands p d s rest)
    (herrandStep : m.ErrandStep p d s rest m') (hgoes : ¬m.RunsOut d m')
    (hparked : m'.world.ParkedIn y fiber) : m.world.ParkedIn y fiber ∨
    ∃ x, m.control = .back fiber (.suspended x) := by
  have hm := h.ordinary.sound
  cases herrandStep with
  | asks | hears | settles => exact .inl (World.parkedIn_of_handles rfl hparked)
  | goesOn hrunning hroot hphase hnoProgress =>
    exact .inl (hnoProgress.toNoArrivals.parkedIn hparked)
  | ends hends => exact absurd hends hgoes
  | resumes hroot hhands | completes hroot hhands => exact .inl (hhands.parkedIn hparked)
  | @completed key turns id result hrunning hroot hcontrol =>
    obtain ⟨w, heq, hshift⟩ :=
      completed_eq (m.goTo (.driving d (.poll turns) :: rest) m.world m.control) d key id result
    rw [heq] at hparked
    exact .inl ((hm.noArrivals hshift).parkedIn (World.parkedIn_of_handles rfl hparked))
  | drains hbase hrunning hroot hcontrol hdrains =>
    exact .inl (hdrains.parkedIn hm (by rw [top, hrunning]; exact hroot) hparked)
  | receives hbase hrunning hroot hcontrol hreceives =>
    rcases parkedIn_of_receives hm hcontrol hreceives hparked with hold | ⟨x, rfl, rfl⟩
    · exact .inl hold
    · exact .inr ⟨x, hcontrol⟩
  | errandMove hbase hrunning hroot herrandMove => exact .inl (herrandMove.parkedIn hparked)

/-- What comes to the queue is an errand that a task enqueues. -/
theorem RunsErrands.queued_step (h : m.RunsErrands p d s rest)
    (herrandStep : m.ErrandStep p d s rest m') (hstep : m.step? = some m') {entry : Runnable}
    (member : entry ∈ m'.world.queue s) : entry ∈ m.world.queue s ∨ p.free = true ∧
    entry.IsErrand p := by
  have hm := h.ordinary.sound
  have hpending : ∀ {fiber x cell}, m.control = .back fiber (.suspended x) →
      m.world.handles.get? x = some cell → cell.slot = .pending := by
    intro fiber x cell hcontrol hcell
    obtain ⟨-, -, -, -, -, -, hback⟩ := h.stage_of_back hcontrol
    cases h.attends.expects (h.ordinary.hosted.held (hback x rfl).2) with
    | parked _ _ _ _ _ hnot => exact absurd hcontrol (hnot fiber)
    | comes hcell' hslot =>
      obtain rfl := Option.some.inj (hcell.symm.trans hcell')
      exact hslot
  by_cases hrunning : m.running = []
  · cases hm.serves hstep s with
    | passes hpasses => exact .inl (hpasses.queue_sub member)
    | takes htakes =>
      obtain ⟨u, hgives, -, hafter⟩ := htakes.gives
      exact .inl (hgives.queue ▸ List.mem_cons_of_mem _ (hafter.queue_sub member))
    | jumps _ hcell hslot hbefore hafter => exact .inl (hbefore.queue_sub (hafter.queue_sub member))
    | @appends new u v hway hbefore hgains howners hafter =>
      have hentry := hgains.queue ▸ hafter.queue_sub member
      rcases List.mem_append.1 hentry with hold | hnew
      · exact .inl (hbefore.queue_sub hold)
      · cases List.mem_singleton.1 hnew
        cases hway with
        | enqueued haction =>
          rw [h.nextAction?_of_root hrunning] at haction
          cases haction
        | resumed hinside =>
          rw [hm.current, hrunning] at hinside
          cases hinside
        | early htop hcontrol hcell hslot =>
          rw [hpending hcontrol hcell] at hslot
          cases hslot
        | misused htop hcontrol hcell hslot =>
          rw [hpending hcontrol hcell] at hslot
          rcases hslot with hspent | ⟨other, holder, hparked⟩
          · cases hspent
          · cases hparked
  · cases herrandStep with
    | errandMove hbase hinside hroot herrandMove => exact herrandMove.queued member
    | asks hidle | goesOn hidle | hears hidle | settles hidle | ends _ hidle | completed hidle
    | drains _ hidle
      | receives _ hidle => exact absurd hidle hrunning
    | resumes _ hhands | completes _ hhands => exact absurd hhands.outside hrunning

/-- What a step of the run does to the calls that are alive. -/
theorem ErrandStep.claims_step (h : m.ErrandStep p d s rest m') (hd : (m.world.driver? d).isSome)
    (hgoes : ¬m.RunsOut d m') : m'.world.claims = m.world.claims ∨
      (∃ key x plan w, m.world.Takes d x plan w ∧
        m'.world.claims = m.world.claims.map (· ++ [(key, d, some x)])) ∨
      (∃ key x outcome stack w claims, m.Hands d x outcome s stack w m' ∧
        m.world.claims = some claims ∧
        (key, d, some x) ∈ claims ∧ m'.world.claims = some (claims.map (givenUp key))) ∨
      ∃ key fiber turns, m.root = .completing d key fiber :: .driving d (.poll turns) :: rest ∧
        m'.world.claims = m.world.claims.map (·.filter fun claim => claim.1 ≠ key) := by
  have hagenda : m'.world.aside = m.world.aside →
      m'.world.claims = m.world.claims := fun haside => by
    rw [World.claims, World.agenda_of_aside haside, World.claims]
  cases h with
  | asks | hears | settles => exact .inl rfl
  | goesOn hrunning hroot hphase hnoProgress hhosts => exact .inl hhosts.claims
  | ends hends => exact absurd hends hgoes
  | resumes hroot hhands =>
    refine .inl (hagenda ?_)
    rw [hhands.eq, aside_deliver, goTo_world]
  | completes hroot hhands hparks hclaims hclaim hgiven =>
    refine .inr (.inr (.inl ⟨_, _, _, _, _, _, hhands, hclaims, hclaim, ?_⟩))
    rw [hhands.claims (World.exists_cell hhands.alive), hgiven]
  | @completed key turns fiber result hrunning hroot =>
    refine .inr (.inr (.inr ⟨key, fiber, turns, hroot, ?_⟩))
    rw [Machine.completed.eq_def, goTo_world]
    cases result <;> exact World.claims_callOver_remove ..
  | drains hbase hrunning hroot hcontrol hdrains haside => exact .inl (hagenda haside)
  | receives hbase hrunning hroot hcontrol hreceives haside => exact .inl (hagenda haside)
  | errandMove hbase hrunning hroot herrandMove =>
    cases herrandMove with
    | goesOn pushed htop hcontrol hpushed hless hcode hnoProgress haside =>
      exact .inl (hagenda haside)
    | enqueues => exact .inl (hagenda (World.aside_of_surroundings (World.surroundings_enqueue ..)))
    | @calls action todo guards frames x plan w htop hcontrol hlabor htakes =>
      have hsame : ∀ n : Machine,
          (n.suspendAwait x plan).world.claims = n.world.claims := fun n => by
        rw [suspendAwait, push_eq, World.claims, World.agenda_of_aside
          (World.aside_of_surroundings (surroundings_suspend ..))]
        rfl
      rw [hsame, goTo_world]
      rcases (htakes.gets hd).hands with ⟨key, hclaims, -⟩ | ⟨hclaims, -⟩
      · exact .inr (.inl ⟨key, x, plan, w, htakes, hclaims⟩)
      · exact .inl hclaims
    | concludes htop hcontrol hcode hnoProgress haside => exact .inl (hagenda haside)
    | leaves => exact .inl (hagenda (World.aside_of_surroundings (surroundings_leave ..)))

end Machine

end Fibers
