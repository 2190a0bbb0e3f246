import Fibers.Proofs.Sleepers

/-!
Deadlines. While a driver runs whose tasks only sleep, a task that control is in has slept
for as long as the clock shows, and a task that waits will have at the deadline of its sleep.
So sleeps come back in the order of their deadlines, each of them once.
-/

namespace Fibers

/-- What the clock of the run shows. -/
def World.clock (w : World) : Nat := w.agenda.elim 0 Agenda.now

/-- The host lets those calls that are ready, and timers that are due at once, have their
turns in whatever order. Timers go off by their deadlines. -/
inductive World.Reorders (w : World) : World → Prop
  | same : w.Reorders w
  | sorts {agenda agenda' : Agenda} (hagenda : w.agenda = some agenda)
      (h : agenda.Reorders agenda') : w.Reorders (w.hosting agenda')

theorem World.Reorders.clock {w w' : World} (h : w.Reorders w') : w'.clock = w.clock := by
  cases h with
  | same => rfl
  | sorts hagenda hsorts =>
    rw [World.clock, World.clock, hagenda]
    exact hsorts.now

theorem World.Reorders.stirs {w w' : World} (h : w.Reorders w') : w.Stirs w' := by
  cases h with
  | same => exact .refl w
  | sorts hagenda hsorts =>
    refine ⟨rfl, ?_, ?_⟩
    · rw [World.claims, World.claims, hagenda]
      exact congrArg some (congrArg _ hsorts.calls)
    · rw [World.promises, World.promises, hagenda]
      exact congrArg (List.map HostCall.promise) hsorts.calls

namespace Machine

variable {m m' : Machine} {first w : World} {p : Permit} {d : DriverId} {s : SchedulerId}
  {rest : List Frame} {x : HandleRef} {fiber : Fiber} {running : Running} {agenda : Agenda}

/-- What tasks have slept for agrees with the clock. -/
structure OnTime (first : World) (d : DriverId) (s : SchedulerId) (rest : List Frame)
    (m : Machine) : Prop where
  punctual : ∀ {agenda}, m.world.agenda = some agenda →
    agenda.Punctual (first.deadline m.world d) m.world.callsMade
  inside : ∀ {running}, m.running = [running] → first.timeOf m.world d running.id = m.world.clock
  waits : ∀ {x fiber}, m.world.ParkedIn x fiber ∨ m.control = .back fiber (.suspended x) →
    m.InHand d x → first.timeOf m.world d fiber.id = first.deadline m.world d x
  fresh : ∀ entry ∈ m.world.queue s, ∃ id body, entry = .fresh id body ∧
    first.timeOf m.world d id = 0
  early : m.world.queue s ≠ [] → m.world.clock = 0
  returning : ∀ {x}, m.returning? = some x → first.deadline m.world d x = m.world.clock ∧
    m.control = .resumed .unit
  line : m.line d = []
  swept : (∃ result, m.control = .answer result) ∨
    (∃ phase, m.root = .driving d phase :: rest ∧ phase.Listens) → m.world.queue s = []
  long : (first.slept d).length ≤ (m.world.slept d).length

/-- What a step does to the clock and to the task that control is in, where no sleep is issued. -/
structure Ticks (first : World) (d : DriverId) (s : SchedulerId) (rest : List Frame)
    (m m' : Machine) : Prop where
  punctual : ∀ {agenda}, m'.world.agenda = some agenda →
    agenda.Punctual (first.deadline m.world d) m'.world.callsMade
  inside : ∀ {running}, m'.running = [running] → first.timeOf m.world d running.id = m'.world.clock
  later : m.world.clock ≤ m'.world.clock
  clock : m.world.queue s ≠ [] → m'.world.clock = m.world.clock
  returning : ∀ {x}, m'.returning? = some x →
    m.InHand d x ∧ first.deadline m.world d x = m'.world.clock ∧ m'.control = .resumed .unit
  swept : (∃ result, m'.control = .answer result) ∨
    (∃ phase, m'.root = .driving d phase :: rest ∧ phase.Listens) → m.world.queue s = []

/-! ### Whom a step does not concern -/

/-- A task in a place is not in another one. -/
theorem Sound.apart {byHand : Prop} (hm : m.Sound byHand) (hrunning : m.running = [running])
    (hhome : running.home = some s) :
    (∀ {x fiber}, m.world.ParkedIn x fiber → fiber.home = some s → fiber.id ≠ running.id) ∧
      ∀ {id body}, .fresh id body ∈ m.world.queue s → id ≠ running.id := by
  have hplaces := hm.places_running hrunning hhome
  constructor
  · rintro x fiber ⟨cell, owner, hcell, hslot⟩ hfiber hid
    have hseen : (⟨⟨s, running.id⟩, .parked x owner⟩ : Sighting) ∈ m.sightings :=
      mem_sightings_parked hcell hslot (mem_sight.2 ⟨hfiber, hid, rfl⟩)
    have member : Place.parked x owner ∈ m.places ⟨s, running.id⟩ :=
      List.mem_map.2 ⟨_, List.mem_filter.2 ⟨hseen, decide_eq_true rfl⟩, rfl⟩
    rw [hplaces] at member
    cases List.mem_singleton.1 member
  · intro id body member hid
    subst hid
    have hseen : (⟨⟨s, running.id⟩, .fresh s⟩ : Sighting) ∈ m.sightings :=
      mem_sightings_queue member (List.mem_singleton_self _)
    have member : Place.fresh s ∈ m.places ⟨s, running.id⟩ :=
      List.mem_map.2 ⟨_, List.mem_filter.2 ⟨hseen, decide_eq_true rfl⟩, rfl⟩
    rw [hplaces] at member
    cases List.mem_singleton.1 member

/-- Whatever sleeps, its handle was made. -/
theorem Sound.made_of_slept (hm : m.Sound True) :
    ∀ sleep ∈ m.world.slept d, m.world.handles.get? sleep.1 ≠ none := by
  intro sleep member hnone
  obtain ⟨plan, hplan, -⟩ := World.opened_of_slept member
  rw [opened_nil hm hnone] at hplan
  cases hplan

/-- Whoever is parked in what the driver has in its hands awaits it, and is a task of the
scheduler. -/
theorem RunsErrands.waits_of_parked (h : m.RunsErrands p d s rest)
    (hparked : m.world.ParkedIn x fiber) (hx : m.InHand d x) :
    fiber.AwaitsOn x ∧ fiber.home = some s := by
  cases h.attends.expects (h.ordinary.hosted.held hx) with
  | @parked cell t other hcell hslot hawaits hhome hkin =>
    obtain rfl := hparked.unique ⟨cell, _, hcell, hslot⟩
    exact ⟨hawaits, by rw [hhome, Option.some.inj (hkin.symm.trans h.fed)]⟩
  | comes hcell hslot =>
    obtain ⟨other, owner, hother, hslot'⟩ := hparked
    rw [hcell] at hother
    cases hother
    rw [hslot] at hslot'
    cases hslot'

theorem made_of_parked (h : m.world.ParkedIn x fiber) : m.world.handles.get? x ≠ none := by
  obtain ⟨cell, owner, hcell, -⟩ := h
  rw [hcell]
  exact Option.some_ne_none _

/-- The calls that hold handles are calls of the driver. -/
theorem RunsErrands.inHand_of_call (h : m.RunsErrands p d s rest)
    (hagenda : m.world.agenda = some agenda) {call : HostCall} {work : Work}
    (hcall : call ∈ agenda.calls) (hstate : call.state = .holding x work) : m.InHand d x := by
  have hclaims : m.world.claims = some (agenda.calls.map HostCall.claim) := by
    rw [World.claims, hagenda]
    rfl
  have hclaim : (call.key, call.driver, some x) ∈ agenda.calls.map HostCall.claim :=
    List.mem_map.2 ⟨call, hcall, by rw [HostCall.claim, hstate]⟩
  obtain rfl : call.driver = d := h.claims hclaims _ hclaim
  exact .call hclaims hclaim

/-- Nobody comes to stand in the line. -/
theorem RunsErrands.line_step (h : m.RunsErrands p d s rest) (h' : m'.RunsErrands p d s rest)
    (hstep : m.step? = some m') (hjoined : m'.world.joined d = m.world.joined d)
    (hline : m.line d = []) : m'.line d = [] := by
  have hm := h.ordinary.sound
  have hmoves : Moves (fun _ => True) m m' := step_moves hstep hm fun _ _ => trivial
  rcases (hm.works hmoves).line d with
    hsame | ⟨x, plan, w, hopens, -, -, hmore⟩ | ⟨x, waiters, -, hmore⟩
  · rw [hsame, hline]
  · have hx : x ∈ m'.world.joined d :=
      (h'.ordinary.hosted.joined_of_line
        (hmore ▸ List.mem_append_right _ (List.mem_singleton_self x))).2
    rw [hjoined, World.mem_joined, opened_nil hm hopens.unmade] at hx
    obtain ⟨plan, member, -⟩ := hx
    cases member
  · rw [hline] at hmore
    cases hmore

/-- What the driver has in its hands was there before, or its handle was made just now. -/
theorem Sound.inHand_back (hm : m.Sound True) (hstep : m.step? = some m')
    (hmade : m.world.handles.get? x ≠ none) (hx : m'.InHand d x) : m.InHand d x := by
  have hmoves : Moves (fun _ => True) m m' := step_moves hstep hm fun _ _ => trivial
  rcases (hm.works hmoves).inHand hx with hbefore | ⟨plan, w, hopens, -⟩
  · exact hbefore
  · exact absurd hopens.unmade hmade

/-- Whoever is parked in what the driver has in its hands was parked there before, or came
back to be parked there. -/
theorem RunsErrands.parkedIn_back (h : m.RunsErrands p d s rest) (h' : m'.RunsErrands p d s rest)
    (hstep : m.step? = some m') (hgoes : ¬m.RunsOut d m') (hparked : m'.world.ParkedIn x fiber)
    (hx : m'.InHand d x) :
    m.world.ParkedIn x fiber ∨ m.control = .back fiber (.suspended x) := by
  rcases h.parkedIn_step (h.errandStep hstep) hgoes hparked with hbefore | ⟨y, hcontrol⟩
  · exact .inl hbefore
  · obtain ⟨-, -, -, -, -, -, hback⟩ := h.stage_of_back hcontrol
    have hawaits : fiber.AwaitsOn y := by
      cases h.attends.expects (h.ordinary.hosted.held (hback y rfl).2) with
      | parked _ _ _ _ _ hnot => exact absurd hcontrol (hnot fiber)
      | comes _ _ hother hawaits =>
        cases hcontrol.symm.trans hother
        exact hawaits
    exact .inr ((h'.waits_of_parked hparked hx).1.eq hawaits ▸ hcontrol)

/-- What a step inside of a task does happens there, or takes control out of the task. -/
theorem ErrandMove.remains (h : m.ErrandMove p d m') (hrunning : m.running = [running]) :
    m'.root = m.root ∧ (m'.control.IsCode ∨ ∃ fiber exit, m'.control = .back fiber exit) ∧
      ∀ {other}, m'.running = [other] → other.id = running.id := by
  have hinside : ∀ {frames : List Frame} {w : World} {control : Control}, control.IsCode →
      (m.goTo frames w control).root = m.root ∧
        ((m.goTo frames w control).control.IsCode ∨
          ∃ fiber exit, (m.goTo frames w control).control = .back fiber exit) ∧
          ∀ {other}, (m.goTo frames w control).running = [other] → other.id = running.id := by
    intro frames w control hcode
    obtain ⟨hlevel, hroot⟩ := goTo_running hrunning frames w control
    refine ⟨hroot, .inl (by rwa [goTo_control]), fun hother => ?_⟩
    cases hlevel.symm.trans hother
    rfl
  cases h with
  | goesOn pushed htop hcontrol hpushed hless hcode | concludes htop hcontrol hcode =>
    exact hinside hcode
  | enqueues => exact hinside trivial
  | calls =>
    rw [suspendAwait_eq hrunning]
    exact ⟨rfl, .inr ⟨_, _, rfl⟩, nofun⟩
  | leaves hinner =>
    cases hrunning.symm.trans hinner
    exact ⟨rfl, .inr ⟨_, _, rfl⟩, nofun⟩

/-- A call that is over is gone. -/
theorem completed_agenda (m : Machine) (d : DriverId) (key : Nat) (fiber : FiberId)
    (result : Except SchedulerFault Nat) :
    ∃ w, m.completed d key fiber result = m.goTo m.top w .advance ∧
      w.agenda = m.world.agenda.map (·.remove key) ∧ w.callsMade = m.world.callsMade := by
  rw [completed.eq_def]
  simp only [withWorld_eq, goTo_advance]
  cases result <;> exact ⟨_, rfl, rfl, rfl⟩

/-! ### The clock -/

/-- Outside of tasks nothing but the clock and the calls can change. -/
theorem ticks_of_turn (hrunning : m'.running = [])
    (hcontrol : ∀ resumption, m'.control ≠ .resumed resumption)
    (hpunctual : ∀ {agenda}, m'.world.agenda = some agenda →
      agenda.Punctual (first.deadline m.world d) m'.world.callsMade)
    (hlater : m.world.clock ≤ m'.world.clock)
    (hclock : m.world.queue s ≠ [] → m'.world.clock = m.world.clock)
    (hswept : (∃ result, m'.control = .answer result) ∨
      (∃ phase, m'.root = .driving d phase :: rest ∧ phase.Listens) →
      m.world.queue s = []) : Ticks first d s rest m m' := by
  refine ⟨hpunctual, fun hinside => ?_, hlater, hclock, fun hx => ?_, hswept⟩
  · rw [hrunning] at hinside
    cases hinside
  · rw [returning?_eq_none hcontrol] at hx
    cases hx

section Ticks

variable (h : OnTime first d s rest m)

include h

/-- Where drivers and their calls stay as they are, so does the clock. -/
theorem OnTime.ticks_of_aside (haside : m'.world.aside = m.world.aside)
    (hinside : ∀ {running}, m'.running = [running] →
      first.timeOf m.world d running.id = m.world.clock)
    (hcontrol : ∀ resumption, m'.control ≠ .resumed resumption)
    (hswept : (∃ result, m'.control = .answer result) ∨
      (∃ phase, m'.root = .driving d phase :: rest ∧ phase.Listens) →
      m.world.queue s = []) : Ticks first d s rest m m' := by
  have hagenda := World.agenda_of_aside haside
  have hclock : m'.world.clock = m.world.clock := by rw [World.clock, hagenda, World.clock]
  refine ⟨fun hafter => ?_, fun hrunning => (hinside hrunning).trans hclock.symm,
    Nat.le_of_eq hclock.symm, fun _ => hclock, fun hx => ?_, hswept⟩
  · rw [show m'.world.callsMade = m.world.callsMade from congrArg Aside.callsMade haside]
    exact h.punctual (hagenda ▸ hafter)
  · rw [returning?_eq_none hcontrol] at hx
    cases hx

/-- A step of the loop or of a run loop that leaves calls and the clock alone. -/
theorem OnTime.ticks_of_root {frames : List Frame} {w : World} {control : Control}
    (hrunning : m.running = []) (haside : w.aside = m.world.aside)
    (hcontrol : ∀ resumption, control ≠ .resumed resumption)
    (hswept : (∃ result, control = .answer result) ∨
      (∃ phase, frames = .driving d phase :: rest ∧ phase.Listens) →
      m.world.queue s = []) : Ticks first d s rest m (m.goTo frames w control) := by
  obtain ⟨hnone, hroot⟩ := goTo_running_eq_nil m frames w control hrunning
  refine h.ticks_of_aside (by rwa [goTo_world]) (fun hinside => ?_) (by rwa [goTo_control]) ?_
  · rw [hnone] at hinside
    cases hinside
  · rwa [goTo_control, hroot]

/-- While the loop waits, the clock goes on and those come back whose sleeps are over. -/
theorem OnTime.ticks_of_waitingMove (herrands : m.RunsErrands p d s rest)
    (hstep : m.step? = some m') {phase : DriverPhase} (hroot : m.root = .driving d phase :: rest)
    (hlistens : phase.Listens) : Ticks first d s rest m m' := by
  have hm := herrands.ordinary.sound
  obtain ⟨agenda, hagenda⟩ := Option.isSome_iff_exists.1 herrands.agenda
  have hpunctual := h.punctual hagenda
  obtain ⟨hrunning, hcontrol⟩ := herrands.listening hroot hlistens
  have hempty : m.world.queue s = [] := h.swept (.inr ⟨phase, hroot, hlistens⟩)
  have hnow : m.world.clock = agenda.now := by
    rw [World.clock, hagenda]
    rfl
  -- No task is in control, and none is left in the queue.
  have hwaits : ∀ {frames w agenda'}, w.agenda = some agenda' →
      agenda'.Punctual (first.deadline m.world d) w.callsMade →
      agenda.now ≤ agenda'.now → Ticks first d s rest m (m.goTo frames w .advance) := by
    intro frames w agenda' hafter hpunctual' hlater
    refine ticks_of_turn (goTo_running_eq_nil _ _ _ _ hrunning).1 nofun ?_ ?_ (absurd hempty)
      fun _ => hempty
    · rw [goTo_world, hafter]
      rintro other ⟨⟩
      exact hpunctual'
    · rw [goTo_world, hnow, World.clock, hafter]
      exact hlater
  cases herrands.waitingMove hagenda hpunctual hroot hlistens hstep with
  | hears | polls | listens => exact hwaits hagenda hpunctual (Nat.le_refl _)
  | elapses _ hready helapse =>
    obtain ⟨hpunctual', hlater, -, -⟩ := hpunctual.elapses hready helapse
    exact hwaits rfl hpunctual' hlater
  | skips _ hready hnone => exact hwaits rfl (hpunctual.skips hready hnone) (Nat.le_refl _)
  | setsTimer _ hready hcall hkey hstate =>
    exact hwaits rfl (hpunctual.sleeps hready hcall hkey hstate) (Nat.le_refl _)
  | @wakes _ turns key ready call x work w id _ hready hcall hkey hstate hover hhands haside =>
    obtain ⟨fiber, hparks⟩ := herrands.parksFor hhands.held hcontrol
    obtain ⟨owned, hinside, hloop, hresumed, rfl⟩ := hhands.inside hm hstep hparks
    obtain ⟨plan, frames, -, -, htop, -⟩ := (hhands.arrives hm hstep hparks).once
    obtain ⟨cell, hcell, hslot⟩ := hparks.parked
    have hagenda' : m'.world.agenda = some ((agenda.later ready).setState key .handing) :=
      World.agenda_of_aside haside
    have hclock : m'.world.clock = agenda.now := by
      rw [World.clock, hagenda']
      rfl
    have hdeadline : first.deadline m.world d x = agenda.now :=
      hpunctual.wakes_now hready hcall hkey hstate hover
    refine ⟨?_, fun hother => ?_, Nat.le_of_eq (hnow.trans hclock.symm),
      fun _ => hclock.trans hnow.symm, fun hx => ?_, fun _ => hempty⟩
    · rw [hagenda', show m'.world.callsMade =
        m.world.callsMade from congrArg Aside.callsMade haside]
      rintro other ⟨⟩
      exact hpunctual.hands hready
    · cases hinside.symm.trans hother
      rw [hclock, ← hdeadline]
      exact h.waits (.inl ⟨cell, _, hcell, hslot⟩) hhands.held
    · obtain ⟨resumption, plan', frames', -, hother⟩ := returning?_eq_some.1 hx
      cases htop.symm.trans hother
      exact ⟨hhands.held, hdeadline.trans hclock.symm, hresumed⟩

/-- A run loop starts tasks that are new, all of them at the beginning. -/
theorem OnTime.ticks_of_drains {base : List Frame} {ran : Nat} (hrunning : m.running = [])
    (hdrains : Drains (m.goTo base m.world .advance) s ran none m')
    (haside : m'.world.aside = m.world.aside) :
    Ticks first d s rest m m' := by
  have hfront : ∀ {entry w}, m.world.next? s = some (entry, w) →
      entry ∈ m.world.queue s := fun hnext => by
    rw [(World.gives_next hnext).queue]
    exact List.mem_cons_self ..
  cases hdrains with
  | stops hstops =>
    rw [goTo_goTo]
    exact h.ticks_of_root hrunning rfl nofun fun _ =>
      hstops.resolve_left fun hnone => by cases hnone
  | fails =>
    rw [goTo_goTo, goTo_world] at *
    refine h.ticks_of_root hrunning haside nofun ?_
    rintro (⟨result, hanswer⟩ | ⟨phase, hroot, -⟩)
    · cases hanswer
    · cases hroot
  | @starts id body fiber w w₁ hmore hnext hbefore hid hhome hstate =>
    obtain ⟨_, _, hentry, hzero⟩ := h.fresh _ (hfront hnext)
    cases hentry
    rw [enter_unstarted hstate, goTo_goTo] at haside ⊢
    obtain ⟨hnone, hroot⟩ :=
      goTo_running_eq_nil m (.dispatching s :: .draining s (ran + 1) none :: base) w₁
      .advance hrunning
    rw [goTo_top, goTo_control] at haside ⊢
    refine h.ticks_of_aside haside (fun hinside => ?_) nofun ?_
    · obtain ⟨rfl, -⟩ := List.cons.inj hinside
      rw [h.early (List.ne_nil_of_mem (hfront hnext))]
      exact hid ▸ hzero
    · rintro (⟨result, hanswer⟩ | ⟨phase, hloop, -⟩)
      · cases hanswer
      · cases hroot.symm.trans hloop
  | wakes hmore hnext =>
    obtain ⟨id, body, hentry, -⟩ := h.fresh _ (hfront hnext)
    cases hentry

/-- A task goes on while the clock stands still, unless it issues a sleep. -/
theorem OnTime.ticks_of_errandMove {base : List Frame} {ran : Nat} (hm : m.Sound True)
    (hfree : p.free = false) (hsame : SameAwaits d m m') (hrunning : m.running = [running])
    (hroot : m.root = .dispatching s :: .draining s ran none :: base)
    (herrandMove : m.ErrandMove p d m') :
    Ticks first d s rest m m' := by
  rcases herrandMove.sleeps hm hfree hrunning with ⟨x, milliseconds, hsleeps⟩ | ⟨haside, -⟩
  · have hmore := congrArg List.length (hsleeps.slept.symm.trans hsame.slept)
    rw [List.length_append, List.length_singleton] at hmore
    exact absurd hmore (Nat.succ_ne_self _)
  · obtain ⟨hroot', hcontrol, hinside⟩ := herrandMove.remains hrunning
    have hnot : ∀ {control : Control}, ¬control.IsCode →
        (∀ fiber exit, control ≠ .back fiber exit) → m'.control ≠ control := by
      rintro control hcode hback rfl
      rcases hcontrol with hcode' | ⟨fiber, exit, heq⟩
      · exact hcode hcode'
      · exact hback fiber exit heq
    refine h.ticks_of_aside haside (fun hother => ?_)
      (fun _ => hnot (fun hcode => hcode) fun _ _ heq => by cases heq) ?_
    · rw [hinside hother]
      exact h.inside hrunning
    · rintro (⟨result, hanswer⟩ | ⟨phase, hloop, -⟩)
      · exact absurd hanswer (hnot (fun hcode => hcode) fun _ _ heq => by cases heq)
      · rw [hroot', hroot] at hloop
        cases hloop

/-- Where no sleep is issued, the clock goes on as it should. -/
theorem OnTime.ticks (herrands : m.RunsErrands p d s rest) (hstep : m.step? = some m')
    (hgoes : ¬m.RunsOut d m') (hfree : p.free = false) (hsame : SameAwaits d m m') :
    Ticks first d s rest m m' := by
  cases herrands.errandStep hstep with
  | asks hrunning hroot hcontrol =>
    refine h.ticks_of_root hrunning rfl (fun _ hsets => by cases hsets) ?_
    rintro (⟨result, hanswer⟩ | ⟨phase, hroot', -⟩)
    · cases hanswer
    · cases hroot'
  | @goesOn phase phase' w hrunning hroot hphase hnoProgress hhosts hposts hloops =>
    rcases hloops with hlistens | ⟨haside, hanswered⟩
    · exact h.ticks_of_waitingMove herrands hstep hroot hlistens
    · refine h.ticks_of_root hrunning haside (fun _ hsets => by cases hsets) ?_
      rintro (⟨result, hanswer⟩ | ⟨phase', hroot', hlistens⟩)
      · cases hanswer
      · cases hroot'
        cases hphase with
        | listens => exact h.swept (.inl (hanswered rfl))
        | elapses | polls | turns | polled => exact h.swept (.inr ⟨_, hroot, trivial⟩)
        | settled | resumed => exact hlistens.elim
  | hears hrunning hroot | completes hroot =>
    exact h.ticks_of_waitingMove herrands hstep hroot trivial
  | settles hrunning hroot hcontrol hd hwaiting =>
    have hline := h.line
    rw [Machine.line, List.append_eq_nil_iff, World.waiters, hd] at hline
    exact absurd hline.2 hwaiting
  | ends hends => exact absurd hends hgoes
  | @resumes _ x waiters fiber hroot =>
    have member : x ∈ m.line d :=
      List.mem_append_left _
        (mem_due.2 ⟨_, by rw [phases, hroot]; exact List.mem_cons_self .., List.mem_cons_self ..⟩)
    rw [h.line] at member
    cases member
  | @completed key turns id result hrunning hroot hcontrol =>
    obtain ⟨w, heq, hagenda', hmade⟩ :=
      completed_agenda (m.goTo (.driving d (.poll turns) :: rest) m.world m.control) d key id result
    obtain ⟨agenda, hagenda⟩ := Option.isSome_iff_exists.1 herrands.agenda
    rw [goTo_world] at hmade
    rw [goTo_world, hagenda] at hagenda'
    have hclock : w.clock = m.world.clock := by
      rw [World.clock, hagenda', World.clock, hagenda]
      rfl
    rw [heq, goTo_goTo, goTo_top]
    refine ticks_of_turn (goTo_running_eq_nil _ _ _ _ hrunning).1 (fun _ hsets => by cases hsets) ?_
      (Nat.le_of_eq hclock.symm) (fun _ => hclock) fun _ => h.swept (.inl ⟨result, hcontrol⟩)
    rw [goTo_world, hagenda', hmade]
    rintro other ⟨⟩
    exact (h.punctual hagenda).removes key
  | drains hbase hrunning hroot hcontrol hdrains haside =>
    exact h.ticks_of_drains hrunning hdrains haside
  | receives hbase hrunning hroot hcontrol hreceives haside =>
    refine h.ticks_of_root hrunning haside (fun _ hsets => by cases hsets) ?_
    rintro (⟨result, hanswer⟩ | ⟨phase, hroot', -⟩)
    · cases hanswer
    · cases hroot'
  | errandMove hbase hrunning hroot herrandMove =>
    exact h.ticks_of_errandMove herrands.ordinary.sound hfree hsame hrunning hroot herrandMove

end Ticks

/-! ### From step to step -/

section Step

variable (h : OnTime first d s rest m) (herrands : m.RunsErrands p d s rest)
  (herrands' : m'.RunsErrands p d s rest) (hstep : m.step? = some m') (hgoes : ¬m.RunsOut d m')

include h herrands herrands' hstep hgoes

/-- Where no task issues a sleep, tasks have slept and will have slept for as long as before,
and nobody else waits. -/
theorem OnTime.stays (hfree : p.free = false) (hsame : SameAwaits d m m')
    (hticks : Ticks first d s rest m m') :
    OnTime first d s rest m' := by
  have hm := herrands.ordinary.sound
  have hrecalls := herrands.recalls hstep hgoes
  have hmade := hm.made_of_slept (d := d)
  have hheld : ∀ {x}, m'.InHand d x → m.world.handles.get? x ≠ none := fun hx =>
    hm.made_of_reached (hsame.reached ▸ herrands'.ordinary.hosted.reached_of_inHand hx)
  have htime := World.timeOf_of_same hsame.slept hrecalls hmade first
  have hdeadline : ∀ {x}, m.world.handles.get? x ≠ none →
      first.deadline m'.world d x = first.deadline m.world d x :=
    World.deadline_of_same hsame.slept hrecalls hmade first
  have hqueue : ∀ {entry}, entry ∈ m'.world.queue s → entry ∈ m.world.queue s := fun member =>
    (herrands.queued_step (herrands.errandStep hstep) hstep member).resolve_right fun hmore => by
      rw [hfree] at hmore
      cases hmore.1
  refine ⟨fun hagenda => (hticks.punctual hagenda).congr (Nat.le_refl _)
    fun call member x work hstate => ?_, fun hrunning => (htime _).trans (hticks.inside hrunning),
      fun hwaits hx => ?_, fun entry member => ?_, fun hqueued => ?_,
    fun hx => ?_, herrands.line_step herrands' hstep hsame.joined h.line, fun hwhen =>
      ?_, hsame.slept ▸ h.long⟩
  · exact hdeadline (hheld (herrands'.inHand_of_call hagenda member hstate))
  · have hmade := hheld hx
    have hbefore := hm.inHand_back hstep hmade hx
    rw [htime, hdeadline hmade]
    rcases hwaits with hparked | hback
    · exact h.waits (herrands.parkedIn_back herrands' hstep hgoes hparked hx) hbefore
    · have hcoming := herrands.coming_of_reached herrands' hstep hsame.reached
      rw [hback] at hcoming
      cases hcoming
  · obtain ⟨id, body, rfl, hzero⟩ := h.fresh entry (hqueue member)
    exact ⟨id, body, rfl, (htime id).trans hzero⟩
  · obtain ⟨entry, member⟩ := List.exists_mem_of_ne_nil _ hqueued
    have hbefore := List.ne_nil_of_mem (hqueue member)
    rw [hticks.clock hbefore]
    exact h.early hbefore
  · obtain ⟨hheld, heq, hresumed⟩ := hticks.returning hx
    exact ⟨(hdeadline (hm.made_of_reached (herrands.ordinary.hosted.reached_of_inHand hheld))).trans
      heq, hresumed⟩
  · refine List.eq_nil_iff_forall_not_mem.2 fun entry member => ?_
    have hbefore := hqueue member
    rw [hticks.swept hwhen] at hbefore
    cases hbefore

/-- Where a task issues a sleep, it has slept for longer once it is over, at its deadline. -/
theorem OnTime.sleeps {milliseconds : Nat} (hsleeps : m.Sleeps d x milliseconds running m') :
    OnTime first d s rest m' := by
  have hm := herrands.ordinary.sound
  have hrecalls := herrands.recalls hstep hgoes
  have hmade := hm.made_of_slept (d := d)
  obtain rfl := hsleeps.new
  obtain ⟨fiber, hback, hid⟩ := hsleeps.back
  obtain ⟨base, ran, hbase, hrunning', hroot', -, -⟩ := herrands'.stage_of_back hback
  obtain ⟨agenda, hagenda⟩ := Option.isSome_iff_exists.1 herrands.agenda
  have hagenda' := hsleeps.issued hagenda
  have hhome : running.home = some s := by
    cases herrands.stage with
    | inside _ hinside _ hhome =>
      cases hsleeps.inside.symm.trans hinside
      exact hhome
    | loop hnone | answered _ hnone | drains _ hnone | back _ hnone =>
      rw [hsleeps.inside] at hnone
      cases hnone
  obtain ⟨hparked, hqueued⟩ := hm.apart hsleeps.inside hhome
  have hclock : m'.world.clock = m.world.clock := by
    rw [World.clock, hagenda', World.clock, hagenda]
    rfl
  have htime : ∀ id, id ≠ running.id →
      first.timeOf m'.world d id = first.timeOf m.world d id := fun id hne => by
    rw [World.timeOf_issued h.long hsleeps.slept hrecalls hmade, hsleeps.owner, if_neg hne.symm]
    rfl
  have hnow : first.timeOf m'.world d running.id = m.world.clock + milliseconds := by
    rw [World.timeOf_issued h.long hsleeps.slept hrecalls hmade, hsleeps.owner, if_pos rfl,
      h.inside hsleeps.inside]
  have hdeadline : ∀ {y}, m.world.handles.get? y ≠ none →
      first.deadline m'.world d y = first.deadline m.world d y :=
    World.deadline_issued_of_made h.long hsleeps.slept hrecalls hmade
  have hnew : first.deadline m'.world d m.world.handles.next = m.world.clock + milliseconds := by
    rw [World.deadline_issued h.long hsleeps.slept hrecalls hmade hsleeps.owner,
      h.inside hsleeps.inside]
  refine ⟨fun hother => ?_, fun hrunning => ?_, fun hwaits hx => ?_, fun entry member => ?_,
    fun hne => ?_, fun hx => ?_, herrands.line_step herrands' hstep hsleeps.joined h.line,
      fun hwhen => ?_, ?_⟩
  · obtain rfl := Option.some.inj (hagenda'.symm.trans hother)
    have hkeys : ∀ call ∈ agenda.calls, call.key < m.world.callsMade := fun call member =>
      hm.kept.balanced.issued _ (by rw [World.callKeys, hagenda]; exact List.mem_map_of_mem member)
    rw [hsleeps.made]
    refine Agenda.Punctual.issued
      ((h.punctual hagenda).congr (Nat.le_refl _) fun call member x work hstate => ?_) hkeys ?_
    · exact hdeadline (hm.made_of_reached
        (herrands.ordinary.hosted.reached_of_inHand
          (herrands.inHand_of_call hagenda member hstate)))
    · rw [hnew, World.clock, hagenda]
      rfl
  · rw [hrunning'] at hrunning
    cases hrunning
  · rcases hwaits with hwaits | hcomes
    · have hbefore := hsleeps.parked hwaits
      have hthere := made_of_parked hbefore
      rw [htime _ (hparked hbefore (herrands'.waits_of_parked hwaits hx).2), hdeadline hthere]
      exact h.waits (.inl hbefore) (hm.inHand_back hstep hthere hx)
    · cases hback.symm.trans hcomes
      rw [hid, hnow, hnew]
  · obtain ⟨id, body, rfl, hzero⟩ := h.fresh entry (hsleeps.queue s ▸ member)
    exact ⟨id, body, rfl, (htime id (hqueued (hsleeps.queue s ▸ member))).trans hzero⟩
  · rw [hclock]
    exact h.early (hsleeps.queue s ▸ hne)
  · rw [returning?_eq_none fun resumption heq => by rw [hback] at heq; cases heq] at hx
    cases hx
  · rcases hwhen with ⟨result, hanswer⟩ | ⟨phase, hroot, -⟩
    · rw [hback] at hanswer
      cases hanswer
    · rw [hroot'] at hroot
      cases hroot
  · rw [hsleeps.slept, List.length_append]
    exact Nat.le_add_right_of_le h.long

/-- From step to step tasks stay on time. -/
theorem OnTime.step (hfree : p.free = false) : OnTime first d s rest m' := by
  rcases herrands.sleeps hfree hstep with ⟨x, milliseconds, running, hsleeps⟩ | hsame
  · exact h.sleeps herrands herrands' hstep hgoes hsleeps
  · exact h.stays herrands herrands' hstep hgoes hfree hsame
      (h.ticks herrands hstep hgoes hfree hsame)

end Step

/-! ### The host's choice -/

/-- Whichever of those that are due has its turn first, tasks stay on time. -/
theorem OnTime.reorders (h : OnTime first d s rest m) (hreorders : m.world.Reorders w) :
    OnTime first d s rest (m.withWorld w) := by
  cases hreorders with
  | same => exact h
  | @sorts agenda agenda' hagenda hsorts =>
    have hclock := (World.Reorders.sorts hagenda hsorts).clock
    have hheld : ∀ {x}, (m.withWorld (m.world.hosting agenda')).InHand d x ↔ m.InHand d x :=
      inHand_of_stirs (World.Reorders.sorts hagenda hsorts).stirs
    refine ⟨?_, fun hrunning => (h.inside hrunning).trans hclock.symm,
      fun hwaits hx => h.waits hwaits (hheld.1 hx), h.fresh,
      fun hqueued => hclock.trans (h.early hqueued), fun hx => ?_, h.line, h.swept, h.long⟩
    · rintro other ⟨⟩
      exact (h.punctual hagenda).reorders hsorts
    · obtain ⟨hdeadline, hresumed⟩ := h.returning hx
      exact ⟨hdeadline.trans hclock.symm, hresumed⟩

end Machine

end Fibers
