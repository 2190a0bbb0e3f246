import Fibers.Proofs.Counting
import Fibers.Proofs.ErrandTasks

/-!
Runs of drivers. Whatever programs do, nothing is left to a driver when its run is over. If
its scheduler has errands only and the host completes every call, the run is over at some
time, each task has finished, and each call and each wait for all calls was one suspension.
-/

namespace Fibers

/-- The handle of an await that waits for the driver, where it is made: for a call that was
issued, or for all calls. -/
def Mark.reaches? (d : DriverId) : Mark → Option HandleRef
  | .opened x plan => if plan.kind.driver? = some d then some x else none
  | _ => none

theorem reaches?_of_unheard {told : Mark} (h : ∀ x, told.opened? x = none) (d : DriverId) :
    told.reaches? d = none := by
  cases told with
  | opened x plan =>
    have hread := h x
    rw [Mark.opened?, if_pos rfl] at hread
    cases hread
  | _ => rfl

theorem minds_reaches? (d : DriverId) : Machine.Minds (Mark.reaches? d) := by
  refine ⟨⟨fun told h => ?_, fun _ _ => rfl, fun _ _ => rfl⟩, fun _ _ => rfl⟩
  cases told <;> first | rfl | exact h.elim

namespace World

variable {w : World} {x : HandleRef} {d : DriverId} {s : SchedulerId}

/-- The awaits that waited for the driver, in the order in which they were made. -/
def reached (w : World) (d : DriverId) : List HandleRef := w.told (Mark.reaches? d)

/-- How many times tasks of the scheduler were suspended. -/
def suspensions (w : World) (s : SchedulerId) : Nat := (w.counted s).elim 0 Counters.suspensions

theorem mem_reached : x ∈ w.reached d ↔ ∃ plan ∈ w.opened x, plan.kind.driver? = some d := by
  simp only [reached, opened, mem_told]
  constructor
  · rintro ⟨told, member, hread⟩
    cases told with
    | opened y plan =>
      rw [Mark.reaches?] at hread
      split at hread
      next hdriver =>
        cases hread
        exact ⟨plan, ⟨_, member, if_pos rfl⟩, hdriver⟩
      next => cases hread
    | _ => cases hread
  · rintro ⟨plan, ⟨told, member, hread⟩, hdriver⟩
    cases told with
    | opened y other =>
      rw [Mark.opened?] at hread
      split at hread
      next heq =>
        cases hread
        subst heq
        exact ⟨_, member, if_pos hdriver⟩
      next => cases hread
    | _ => cases hread

end World

/-- 1 if a fiber comes out of control suspended. -/
def Control.coming : Control → Nat
  | .back _ (.suspended _) => 1
  | _ => 0

theorem Control.coming_of {control : Control}
    (h : ∀ fiber x, control ≠ .back fiber (.suspended x)) : control.coming = 0 := by
  cases control with
  | back fiber exit =>
    cases exit with
    | suspended x => exact absurd rfl (h fiber x)
    | completed | failed | panicked => rfl
  | advance | raise | panicking | resumed | answer => rfl

namespace Machine

variable {course : Nat → Machine} {script : Script} {m m' a : Machine} {w : World} {id : FiberId}
  {p : Permit} {d : DriverId} {s : SchedulerId} {rest : List Frame} {x : HandleRef} {fiber : Fiber}

/-! ### Suspensions -/

/-- Where an await is made that waits for a driver, its fiber comes out of control. -/
theorem Sound.tells_hosted {α : Type} {read : Mark → Option α} (hm : m.Sound True)
    (hstep : m.step? = some m') (hclaims : m.world.claims.isSome) (hread : Minds read)
    (hunheard : ∀ told : Mark, (∀ x, told.opened? x = none) → read told = none)
    (hhosted : ∀ x (plan : AwaitPlan), plan.kind.isHosted = false → read (.opened x plan) = none) :
    m'.world.told read = m.world.told read ∨
      m.running ≠ [] ∧ m'.control.coming = 1 ∧
        ∃ x plan, m'.world.told read = m.world.told read ++ (read (.opened x plan)).toList := by
  have hmoves : Moves m.Performs m m' :=
    step_moves hstep hm fun action haction => ⟨action, haction, rfl⟩
  have hremembers : m.world.Remembers m'.world := (Follows.steps hstep).leads.remembers hm
  rcases (hm.turns hmoves).told hm hread fun _ _ _ havoids =>
      hremembers.told_eq Mark.opened? (havoids _ hm.kept.balanced.not_shows_next).opened
        fun told h => hunheard told h with
    hsame | ⟨x, plan, w, hopens, hopening, htold⟩ | ⟨-, -, -, x, -,
      resumption, -, -, -, -, -, htold⟩
  · exact .inl hsame
  · cases hopening with
    | plain hplain =>
      rw [hhosted x plan hplain] at htold
      exact .inl (htold.trans (List.append_nil _))
    | stranded hcaller hnone => rw [hnone] at hclaims; cases hclaims
    | hosted _ _ _ hrunning _ hcontrol =>
      exact .inr ⟨hrunning ▸ List.cons_ne_nil _ _, by rw [hcontrol]; rfl, x, plan, htold⟩
  · rw [hunheard (.accepted x resumption) fun _ => rfl] at htold
    exact .inl (htold.trans (List.append_nil _))

theorem Sound.reaches (hm : m.Sound True) (hstep : m.step? = some m')
    (hclaims : m.world.claims.isSome) (d : DriverId) : m'.world.reached d = m.world.reached d ∨
      ∃ x, m'.world.reached d = m.world.reached d ++ [x] ∧ m'.control.coming = 1 := by
  have hhosted : ∀ x (plan : AwaitPlan), plan.kind.isHosted = false →
      Mark.reaches? d (.opened x plan) = none :=
    fun x plan hplain => if_neg fun hdriver => by
      rw [isHosted_of_driver? hdriver] at hplain
      cases hplain
  rcases hm.tells_hosted hstep hclaims (minds_reaches? d)
    (fun _ h => reaches?_of_unheard h d) hhosted with
    hsame | ⟨-, hcoming, x, plan, htold⟩
  · exact .inl hsame
  · rw [Mark.reaches?] at htold
    split at htold
    · exact .inr ⟨x, htold, hcoming⟩
    · exact .inl (htold.trans (List.append_nil _))

/-- Suspensions are counted where a fiber comes back. -/
theorem Sound.suspensions_eq (hm : m.Sound True) (hstep : m.step? = some m')
    (hcontrol : ∀ fiber exit, m.control ≠ .back fiber exit) (s : SchedulerId) :
    m'.world.suspensions s = m.world.suspensions s := by
  have hmoves : Moves (fun _ => True) m m' := step_moves hstep hm fun _ _ => trivial
  have hcount : ∀ {g : Counters → Counters},
      (∀ counters, (g counters).suspensions = counters.suspensions) →
      m'.world.counted s = (m.world.counted s).map g →
        m'.world.suspensions s = m.world.suspensions s := by
    intro g hg heq
    rw [World.suspensions, heq, World.suspensions]
    cases m.world.counted s with
    | none => rfl
    | some counters => exact hg counters
  cases hm.counts hmoves s with
  | keeps h | dispatches h | ends h =>
    exact hcount (g := id) (fun _ => rfl) (by rw [Option.map_id]; exact congrArg Account.counters h)
  | spawns _ _ h => exact hcount (g := Counters.spawn) (fun _ => rfl) (congrArg Account.counters h)
  | fails _ h => exact hcount (g := Counters.fail) (fun _ => rfl) (congrArg Account.counters h)
  | receives _ hback => exact absurd hback (hcontrol _ _)

/-- A fiber comes out of control with a handle that was made for it just now. -/
theorem RunsErrands.unmade_of_back (h : m.RunsErrands p d s rest) (h' : m'.RunsErrands p d s rest)
    (hstep : m.step? = some m') (hcontrol : ∀ fiber exit, m.control ≠ .back fiber exit)
    (hback : m'.control = .back fiber (.suspended x)) :
    m.world.handles.get? x = none ∧ m'.InHand d x := by
  have hm := h.ordinary.sound
  have hmoves : Moves (fun _ => True) m m' := step_moves hstep hm fun _ _ => trivial
  obtain ⟨base, ran, -, -, -, -, hhand⟩ := h'.stage_of_back hback
  obtain ⟨-, hx'⟩ := hhand x rfl
  refine ⟨?_, hx'⟩
  rcases (hm.works hmoves).inHand hx' with hx | ⟨plan, w, hopens, -, -⟩
  · have hheld := h.ordinary.hosted.held hx
    have hsame := h.attends.accepted hm h.ordinary.hosted h.ordinary.distinct (hm.turns hmoves)
      (hm.works hmoves) hheld hx'
    cases h.attends.expects hheld with
    | comes _ _ hother => exact absurd hother (hcontrol _ _)
    | parked hcell hslot =>
      obtain ⟨after, hafter, hslot'⟩ :=
        hm.stays h'.ordinary.sound (hm.fates h.ordinary.attended (.steps hstep)) hx' hcell
        hslot hsame
      cases h'.attends.expects (h'.ordinary.hosted.held hx') with
      | parked _ _ _ _ _ hnot => exact absurd hback (hnot fiber)
      | comes hpending hslot'' =>
        rw [hafter] at hpending
        cases hpending
        rw [hslot'] at hslot''
        cases hslot''
  · exact hopens.unmade

/-- A fiber that comes out of control comes back to its run loop, which goes on. -/
theorem RunsErrands.step_of_back {exit : Exit} (h : m.RunsErrands p d s rest)
    (hstep : m.step? = some m') (hcontrol : m.control = .back fiber exit) :
    m'.control = .advance ∧ m'.world = m.world.receive s fiber exit ∧
      (m.world.scheduler? s).isSome ∧
      m.world.Receives s fiber exit (m.world.receive s fiber exit) := by
  obtain ⟨base, ran, -, hrunning, hroot, -, -⟩ := h.stage_of_back hcontrol
  have htop : m.top = .dispatching s :: .draining s ran none :: base := by
    rw [top, hrunning]; exact hroot
  rw [h.ordinary.sound.step?_of_top htop] at hstep
  simp only [react?, goTo_control, hcontrol, goTo_world, goTo_withWorld, goTo_advance,
    Option.some.injEq] at hstep
  subst hstep
  exact ⟨goTo_control .., goTo_world .., h.ordinary.sound.receives htop hcontrol⟩

/-- What the driver has in its hands was made to wait for it. -/
theorem Hosted.reached_of_inHand (h : m.Hosted) (hx : m.InHand d x) : x ∈ m.world.reached d := by
  obtain ⟨plan, hopened, hdriver⟩ := h.opened hx
  exact World.mem_reached.2 ⟨plan, by rw [hopened]; exact List.mem_singleton_self _, hdriver⟩

theorem Sound.made_of_reached (hm : m.Sound True) (hx : x ∈ m.world.reached d) :
    m.world.handles.get? x ≠ none := by
  intro hunmade
  obtain ⟨plan, member, -⟩ := World.mem_reached.1 hx
  rw [opened_nil hm hunmade] at member
  cases member

/-- Nothing comes out of control suspended where no await is made that waits for the driver. -/
theorem RunsErrands.coming_of_reached (h : m.RunsErrands p d s rest)
    (h' : m'.RunsErrands p d s rest) (hstep : m.step? = some m')
    (hsame : m'.world.reached d = m.world.reached d) : m'.control.coming = 0 := by
  refine Control.coming_of fun fiber x hback => ?_
  have hother : ∀ other exit, m.control ≠ .back other exit := fun other exit hcontrol => by
    rw [(h.step_of_back hstep hcontrol).1] at hback
    cases hback
  obtain ⟨hunmade, hx⟩ := h.unmade_of_back h' hstep hother hback
  exact h.ordinary.sound.made_of_reached (hsame ▸ h'.ordinary.hosted.reached_of_inHand hx) hunmade

/-- Each await that waits for the driver is one suspension, as soon as its fiber is back. -/
theorem RunsErrands.suspensions_step (h : m.RunsErrands p d s rest) (hstep : m.step? = some m')
    (hgoes : ¬m.RunsOut d m') :
    m'.world.suspensions s + m'.control.coming + (m.world.reached d).length =
      m.world.suspensions s + m.control.coming + (m'.world.reached d).length := by
  have hm := h.ordinary.sound
  have h' := h.step hstep hgoes
  have hclaims : m.world.claims.isSome := (World.isSome_claims _).trans h.agenda
  have hreaches := hm.reaches hstep hclaims d
  by_cases hback : ∃ fiber exit, m.control = .back fiber exit
  · obtain ⟨fiber, exit, hcontrol⟩ := hback
    obtain ⟨hadvance, hworld, hs, hreceives⟩ := h.step_of_back hstep hcontrol
    have haccount := congrArg Account.counters (hreceives.account (hm.kept_of_back hcontrol) s)
    rw [if_pos rfl, ← hworld] at haccount
    have hcounted : m'.world.counted s = (m.world.counted s).map exit.count := haccount
    have hthere : ∃ counters, m.world.counted s = some counters := by
      obtain ⟨scheduler, hscheduler⟩ := Option.isSome_iff_exists.1 hs
      exact ⟨_, by rw [World.counted, hscheduler]; rfl⟩
    obtain ⟨counters, hcounters⟩ := hthere
    have hreached : m'.world.reached d = m.world.reached d := by
      rcases hreaches with heq | ⟨x, -, hcoming⟩
      · exact heq
      · rw [hadvance] at hcoming
        cases hcoming
    rw [hreached, World.suspensions, hcounted, hcounters, World.suspensions, hcounters,
      hcontrol, hadvance]
    cases exit <;> rfl
  · have hother : ∀ fiber exit, m.control ≠ .back fiber exit :=
      fun fiber exit hcontrol => hback ⟨fiber, exit, hcontrol⟩
    have hcoming : m.control.coming = 0 := Control.coming_of fun fiber x =>
      hother fiber (.suspended x)
    have hsame := hm.suspensions_eq hstep hother s
    rcases hreaches with heq | ⟨x, heq, hcomes⟩
    · rw [hsame, hcoming, h.coming_of_reached h' hstep heq, heq]
    · rw [hsame, hcoming, hcomes, heq, List.length_append, List.length_singleton]
      omega

/-! ### The end of a run -/

/-- What a driver leaves when its run is over with success. -/
structure Drained (m : Machine) (d : DriverId) : Prop where
  queue : ∀ {s}, m.world.fedBy d = some s → m.world.queue s = []
  waiters : m.world.waiters d = []
  inFlight : m.world.inFlight d = 0
  shown : m.world.history.toList.getLast? = some (.entry none "host_run" (.text "ok"))

/-- The last step of a run brings nothing to queues and handles. -/
theorem Sound.noProgress_of_runsOut (hm : m.Sound True) (h : m.RunsOut d m') :
    m.world.NoProgress m'.world := by
  obtain ⟨driver, n, frames, -, -, -, -, -, rfl⟩ := hm.ends_of_runsOut h
  exact ((World.NoProgress.tell m.world (Event.isQuiet_driverIdle).1).trans
      (World.noProgress_closeAgenda _)).trans (.emit ..)

/-- Whatever programs do, a driver leaves nothing when its run is over. -/
theorem Ordinary.drained (h : m.Ordinary) (hends : m.RunsOut d m') : m'.Drained d := by
  obtain ⟨driver, n, frames, htop, hcontrol, hd, -, -, -⟩ := h.sound.ends_of_runsOut hends
  obtain ⟨hwaiters, hinFlight, -, -, hshown⟩ := h.sound.runsOut hends
  refine ⟨fun {s} hs => ?_, hwaiters, hinFlight, hshown⟩
  have hfed : m.world.fedBy d = some driver.scheduler := by rw [World.fedBy, hd]; rfl
  cases hs.symm.trans (h.sound.fed_of_step hends.step hfed)
  exact (h.sound.noProgress_of_runsOut hends).toNoArrivals.queue_eq_nil
    (h.swept _ _ _ _ htop hfed (.inl ⟨_, hcontrol⟩))

/-- No place is left for a task when the run is over but that it has finished. -/
theorem RunsErrands.finished_of_runsOut (h : m.RunsErrands p d s rest) (hends : m.RunsOut d m')
    (hstands : m.Stands d s id) : m'.places ⟨s, id⟩ = [.finished] := by
  have hm := h.ordinary.sound
  obtain ⟨driver, n, frames, htop, hcontrol, hd, hnone, hwaiting, -⟩ := hm.ends_of_runsOut hends
  have houtside : m.running = [] := Sound.running_of_driving hm htop
  have hqueue : m.world.queue s = [] := h.ordinary.swept _ _ _ _ htop h.fed (.inl ⟨_, hcontrol⟩)
  cases hstands with
  | finished hfinished =>
    exact (hm.step hends.step).places_finished
      (Nat.lt_of_lt_of_le hfinished (((Follows.steps hends.step).leads.remembers hm).tally_le _))
  | fresh member | woken member =>
    rw [hqueue] at member
    cases member
  | inside hrunning =>
    rw [houtside] at hrunning
    cases hrunning
  | back hback =>
    rw [hcontrol] at hback
    cases hback
  | @parked x _ _ _ _ hx =>
    cases hx with
    | call hclaims hclaim =>
      have hcount := h.ordinary.tallied.inFlight d
      rw [World.inFlight, hd, hclaims] at hcount
      exact absurd (decide_eq_true rfl) (List.countP_eq_zero.1 (hcount.symm.trans hnone) _ hclaim)
    | lined member =>
      have hphases : m.phases = [(d, .drain)] := by
        have haccepts := hm.accepts
        rw [htop] at haccepts
        obtain ⟨hroot, hplain⟩ := haccepts.of_driving
        rw [phases_of_root hroot, htop, List.filterMap_cons, hplain.filterMap_driving?]
        rfl
      rw [line, due_of_phases hphases, World.waiters, hd] at member
      simp [hwaiting, DriverPhase.waiters] at member

/-! ### Tasks that are enqueued on the way -/

theorem enqueued_iff_appended : m.Enqueued ⟨s, id⟩ ↔
    ∃ body, .fresh id body ∈ m.world.appended s := by
  simp only [Enqueued, World.appended, World.mem_told]
  constructor
  · rintro ⟨body, member⟩
    exact ⟨body, _, member, if_pos rfl⟩
  · rintro ⟨body, told, member, hread⟩
    cases told with
    | appended t entry =>
      rw [Mark.appended?] at hread
      split at hread
      next heq =>
        cases hread
        exact ⟨body, heq ▸ member⟩
      next => cases hread
    | _ => cases hread

/-- What is enqueued just now stands in the queue. -/
theorem RunsErrands.stands_of_enqueued (h : m.RunsErrands p d s rest) (hstep : m.step? = some m')
    (hgoes : ¬m.RunsOut d m') (henqueued : m'.Enqueued ⟨s, id⟩) (hnot : ¬m.Enqueued ⟨s, id⟩) :
    m'.Stands d s id := by
  obtain ⟨body, member⟩ := enqueued_iff_appended.1 henqueued
  have hpos := (h.step hstep hgoes).owners_pos
  have hold : .fresh id body ∉ m.world.appended s :=
    fun hmem => hnot (enqueued_iff_appended.2 ⟨body, hmem⟩)
  cases h.ordinary.sound.serves hstep s with
  | passes hpasses => exact absurd (hpasses.appended ▸ member) hold
  | appends hway hbefore hgains howners hafter =>
    have halive := gains_of_alive hbefore hgains howners hafter hpos
    rw [halive.appended] at member
    rcases List.mem_append.1 member with hmem | hmem
    · exact absurd hmem hold
    · have hqueued : .fresh id body ∈ m'.world.queue s := by
        rw [halive.queue, List.mem_singleton.1 hmem]
        exact List.mem_append_right _ (List.mem_singleton_self _)
      exact .fresh hqueued
  | takes htakes => exact absurd ((htakes.gives_of_alive hpos).appended ▸ member) hold
  | jumps hrunning hcell hslot hbefore hafter =>
    rw [hafter.appended] at member
    have hmark : ∀ (w : World) (entry : Runnable),
        (w.mark (.dispatched s entry)).appended s = w.appended s := fun w entry => by
      rw [World.appended, World.told_mark]
      exact List.append_nil _
    rw [hmark, hbefore.appended] at member
    exact absurd member hold

theorem Stands.stirs (h : m.Stands d s id) (hstirs : m.world.Stirs w) :
    (m.withWorld w).Stands d s id := by
  have hqueue : (m.withWorld w).world.queue s = m.world.queue s := by
    rw [withWorld_world, hstirs.rest]
    rfl
  have hhandles : (m.withWorld w).world.handles = m.world.handles := by
    rw [withWorld_world, hstirs.rest]
  have hhistory : (m.withWorld w).world.history = m.world.history := by
    rw [withWorld_world, hstirs.rest]
  cases h with
  | finished h => exact .finished (by rwa [World.tally, hhistory])
  | fresh member => exact .fresh (hqueue ▸ member)
  | woken member hhome hid => exact .woken (hqueue ▸ member) hhome hid
  | inside hrunning hhome hid => exact .inside (m := m.withWorld w) hrunning hhome hid
  | back hcontrol hhome hid => exact .back (m := m.withWorld w) hcontrol hhome hid
  | parked hparked hhome hid hx =>
    obtain ⟨cell, owner, hcell, hslot⟩ := hparked
    exact .parked ⟨cell, owner, by rw [hhandles]; exact hcell, hslot⟩ hhome hid
      ((inHand_of_stirs hstirs).2 hx)

/-! ### The beginning of a run -/

/-- The program is about to run a driver at the root, outside of any other run, and what its
scheduler has to do is errands. Those who wait for all calls of the driver, if any do, are
tasks of that scheduler. -/
structure AboutToDrive (m : Machine) (script : Script) (p : Permit) (d : DriverId)
    (s : SchedulerId) : Prop where
  visits : Visits (fun _ => True) script.start m
  drives : m.nextAction? = some (.drive p.position)
  root : m.running = []
  outside : m.world.agenda = none
  position : m.world.driverAt p.position = some d
  fed : m.world.fedBy d = some s
  enqueues : ∀ t, m.world.schedulerAt p.position = some t → t = s
  queued : ∀ entry ∈ m.world.queue s, entry.IsErrand p
  waiting : m.world.waiters d = [] ∨ VisitsThrough (UsedAtHome d) script.start m ∧
    ∀ x ∈ m.world.waiters d, ∀ fiber, m.world.ParkedIn x fiber → fiber.IsErrand p

/-- The driver's loop begins, with no calls. -/
theorem AboutToDrive.step (h : m.AboutToDrive script p d s) :
    ∃ todo guards frames, m.control = .advance ∧
      m.top = .actions (.drive p.position :: todo) guards :: frames ∧
      m.step? = some (m.goTo (.driving d .drain :: .actions todo guards :: frames)
        { m.world with agenda := some .empty } .advance) := by
  have hm : m.Sound True := h.visits.sound fun _ _ _ _ => trivial
  have hnext := h.drives
  rw [nextAction?] at hnext
  split at hnext
  next action todo guards frames hcontrol htop =>
    cases hnext
    have hcurrent : m.world.currentId = none := by
      rw [World.currentId, hm.current, h.root]
      rfl
    refine ⟨todo, guards, frames, hcontrol, htop, ?_⟩
    rw [hm.step?_of_top htop]
    simp only [react?, goTo_control, hcontrol, goTo_push, perform, withDriver, goTo_world,
      h.position, drive, h.outside, hcurrent, goTo_withWorld, goTo_advance]
  next => cases hnext

/-- The driver's loop has begun just now, without calls, on a stack of code. -/
structure Begun (m m' : Machine) (d : DriverId) (rest : List Frame) : Prop where
  world : m'.world = { m.world with agenda := some .empty }
  running : m'.running = []
  root : m'.root = .driving d .drain :: rest
  control : m'.control = .advance
  plain : PlainStack false rest

theorem AboutToDrive.begun (h : m.AboutToDrive script p d s) (hstep : m.step? = some m') :
    ∃ rest, Begun m m' d rest := by
  obtain ⟨todo, guards, frames, hcontrol, htop, hbegins⟩ := h.step
  cases Option.some.inj (hstep.symm.trans hbegins)
  have hm : m.Sound True := h.visits.sound fun _ _ _ _ => trivial
  have haccepts := hm.accepts
  rw [hcontrol, htop, inFiber, h.root] at haccepts
  obtain ⟨hrunning, hroot⟩ :=
    goTo_running_eq_nil m (.driving d .drain :: .actions todo guards :: frames)
    { m.world with agenda := some .empty } .advance h.root
  refine ⟨.actions todo guards :: frames, goTo_world .., hrunning, hroot, goTo_control ..,
    fun frame member => ?_⟩
  rcases List.mem_cons.1 member with rfl | hmem
  · rfl
  · exact haccepts frame (List.mem_cons_of_mem _ hmem)

theorem Begun.line (h : Begun m m' d rest) : m'.line d = m.world.waiters d := by
  have hphases : m'.phases = [(d, .drain)] := by
    rw [phases, h.root, List.filterMap_cons, h.plain.filterMap_driving?]
    rfl
  rw [Machine.line, due_of_phases hphases, if_pos rfl, h.world]
  rfl

/-- In its hands the driver has those who wait for all its calls. -/
theorem Begun.waiters_of_inHand (h : Begun m m' d rest) (hx : m'.InHand d x) :
    x ∈ m.world.waiters d := by
  cases hx with
  | call hclaims hclaim =>
    rw [h.world] at hclaims
    cases hclaims
    cases hclaim
  | lined member => exact h.line ▸ member

/-- Then the driver has errands only. -/
theorem AboutToDrive.runsErrands (h : m.AboutToDrive script p d s) (hstep : m.step? = some m')
    (hbegun : Begun m m' d rest) : m'.RunsErrands p d s rest := by
  have hworld := hbegun.world
  have hclaims : m'.world.claims = some [] := by rw [hworld]; rfl
  refine ⟨h.visits.ordinary.step hstep, ?_, ?_, ?_, ?_, ?_, ?_, ?_, ?_, ?_, hbegun.plain,
    .loop hbegun.running hbegun.root hbegun.control⟩
  · rcases h.waiting with hnone | ⟨hhome, -⟩
    · have hnot : ∀ {x}, ¬m'.Held (fun _ => true) d x := fun hx => by
        have member := hbegun.waiters_of_inHand hx.1
        rw [hnone] at member
        cases member
      exact ⟨fun hx => absurd hx hnot, fun hx => absurd hx hnot⟩
    · have hused : UsedAtHome d m := fun running member => by
        rw [← asker?_of_any, asker?, h.drives] at member
        cases member
      exact (hhome.follows hused (.steps hstep)).attends_home
  · rw [hworld]; exact h.position
  · rw [hworld]; exact h.enqueues
  · rw [hworld]; exact h.fed
  · rw [hworld]; rfl
  · intro claims heq' claim member
    rw [hclaims] at heq'
    cases heq'
    cases member
  · intro key x ending member
    rw [hworld] at member
    cases member
  · rw [hworld]; exact h.queued
  · intro x fiber hx hparked
    have member := hbegun.waiters_of_inHand hx
    rcases h.waiting with hnone | ⟨-, herrand⟩
    · rw [hnone] at member
      cases member
    · rw [hworld] at hparked
      exact herrand x member fiber hparked

/-! ### Whole runs -/

/-- The task was there at first, or was enqueued since then. -/
def Due (first m : Machine) (d : DriverId) (s : SchedulerId) (id : FiberId) : Prop :=
  first.Stands d s id ∨ m.Enqueued ⟨s, id⟩ ∧ ¬first.Enqueued ⟨s, id⟩

/-- What holds on the way from a first state. -/
structure OnTheWay (first m : Machine) (d : DriverId) (s : SchedulerId) : Prop where
  stands : ∀ id, Due first m d s id → m.Stands d s id
  suspensions : m.world.suspensions s + m.control.coming + (first.world.reached d).length =
    first.world.suspensions s + (m.world.reached d).length

section OnTheWay

variable {first : Machine}

theorem OnTheWay.step (h : OnTheWay first m d s) (herrands : m.RunsErrands p d s rest)
    (hstep : m.step? = some m') (hgoes : ¬m.RunsOut d m') : OnTheWay first m' d s where
  stands id hdue := by
    by_cases hbefore : Due first m d s id
    · exact (h.stands id hbefore).step herrands hstep hgoes
    · rcases hdue with hfirst | ⟨henqueued, hnot⟩
      · exact absurd (.inl hfirst) hbefore
      · exact herrands.stands_of_enqueued hstep hgoes henqueued fun hm => hbefore (.inr ⟨hm, hnot⟩)
  suspensions := by
    have hone := herrands.suspensions_step hstep hgoes
    have hall := h.suspensions
    omega

theorem OnTheWay.stirs (h : OnTheWay first m d s) (hstirs : m.world.Stirs w) :
    OnTheWay first (m.withWorld w) d s := by
  have hhistory : (m.withWorld w).world.history = m.world.history := by
    rw [withWorld_world, hstirs.rest]
  have hschedulers : (m.withWorld w).world.schedulers = m.world.schedulers := by
    rw [withWorld_world, hstirs.rest]
  refine ⟨fun id hdue => (h.stands id ?_).stirs hstirs, ?_⟩
  · rwa [Due, Enqueued, hhistory] at hdue
  · have hsuspensions : (m.withWorld w).world.suspensions s = m.world.suspensions s := by
      rw [World.suspensions, World.counted, World.scheduler?, hschedulers]
      rfl
    have hreached : (m.withWorld w).world.reached d = m.world.reached d := by
      rw [World.reached, World.told, hhistory]
      rfl
    rw [hsuspensions, hreached]
    exact h.suspensions

/-- A run begins with all tasks at their places. -/
theorem AboutToDrive.onTheWay (h : m.AboutToDrive script p d s) (hbegun : Begun m m' d rest) :
    OnTheWay m m' d s := by
  have hordinary := h.visits.ordinary
  obtain ⟨todo, guards, frames, hcontrol, htop, -⟩ := h.step
  have hworld := hbegun.world
  have hcoming : m'.control.coming = 0 := by rw [hbegun.control]; rfl
  refine ⟨fun id hdue => ?_, ?_⟩
  · have hstands : m.Stands d s id := by
      rcases hdue with hfirst | ⟨henqueued, hnot⟩
      · exact hfirst
      · rw [Enqueued, hworld] at henqueued
        exact absurd henqueued hnot
    cases hstands with
    | finished hfinished => exact .finished (by rw [hworld]; exact hfinished)
    | fresh member => exact .fresh (by rw [hworld]; exact member)
    | woken member hhome hid => exact .woken (by rw [hworld]; exact member) hhome hid
    | inside hrunning =>
      rw [h.root] at hrunning
      cases hrunning
    | back hback =>
      rw [hcontrol] at hback
      cases hback
    | @parked x _ hparked hhome hid hx =>
      have hnone : m.world.claims = none := by rw [World.claims, h.outside]; rfl
      refine .parked (x := x) (by rw [hworld]; exact hparked) hhome hid (.lined ?_)
      cases hx with
      | call hclaims =>
        rw [hnone] at hclaims
        cases hclaims
      | lined member =>
        have hphases : m.phases = [] := by
          by_contra hne
          have hsome := hordinary.tallied.claimed hne
          rw [hnone] at hsome
          cases hsome
        rw [line, due_of_idle hphases] at member
        rw [hbegun.line]
        exact member
  · rw [hcoming, hworld]
    exact Nat.add_right_comm ..

end OnTheWay

/-- How the run of a driver comes out that is over at some time in the course of a machine. -/
structure Completes (course : Nat → Machine) (k : Nat) (d : DriverId) (s : SchedulerId) : Prop where
  ends : (course k).RunsOut d (course (k + 1))
  drained : (course (k + 1)).Drained d
  /-- Each task that there was at first, or that was enqueued since, has finished, and only once. -/
  finished : ∀ id, Due (course 0) (course (k + 1)) d s id →
    (course (k + 1)).places ⟨s, id⟩ = [.finished]
  /-- Each call that was reached, and each wait for all calls, was one suspension. -/
  suspensions : (course (k + 1)).world.suspensions s + ((course 0).world.reached d).length =
    (course 0).world.suspensions s + ((course (k + 1)).world.reached d).length

section Completes

variable {may : World → World → Prop} (h : (course 0).AboutToDrive script p d s)
  (hflows : Flows may course) (hmay : ∀ {a b}, may a b → a.Stirs b)

include h hflows hmay

/-- At some time the program runs the driver; nothing happens before that. -/
theorem AboutToDrive.begins : ∃ j, course j = course 0 ∧
    (course 0).step? = some (course (j + 1)) := by
  obtain ⟨todo, guards, frames, -, -, hbegins⟩ := h.step
  by_contra hnone
  have hstays : ∀ j, course j = course 0 := by
    intro j
    induction j with
    | zero => rfl
    | succ j ih =>
      rcases hflows.next j with hstep | ⟨w, hw, heq⟩
      · rw [ih] at hstep
        exact absurd ⟨j, ih, hstep⟩ hnone
      · rw [ih] at hw heq
        rcases (hmay hw).eq_or with hsame | ⟨agenda, agenda', hagenda, -⟩
        · rw [heq, hsame]
          rfl
        · rw [h.outside] at hagenda
          cases hagenda
  obtain ⟨j, -, hstep⟩ := hflows.goesOn 0 fun k _ => ⟨_, by rw [hstays k]; exact hbegins⟩
  rw [hstays j] at hstep
  exact hnone ⟨j, hstays j, hstep⟩

/-- If the host does not let it wait forever, the run is over at some time. Whatever else
holds when it begins holds then if it is kept from one moment to the next. -/
theorem AboutToDrive.completes_keeping {P : List Frame → Machine → Prop}
    (hbegins : ∀ {rest m'}, (course 0).step? = some m' → Begun (course 0) m' d rest →
      m'.RunsErrands p d s rest → P rest m')
    (hkeeps : ∀ {rest k}, (course k).RunsErrands p d s rest → P rest (course k) →
      ¬(course k).RunsOut d (course (k + 1)) → P rest (course (k + 1)))
    (hserviced : ∀ {rest n}, (∀ k ≥ n, (course k).RunsErrands p d s rest ∧ P rest (course k) ∧
      ¬(course k).RunsOut d (course (k + 1))) → Serviced course n) :
    ∃ k rest, Completes course k d s ∧ (course k).RunsErrands p d s rest ∧ P rest (course k) := by
  obtain ⟨j, -, hstep⟩ := h.begins hflows hmay
  obtain ⟨rest, hbegun⟩ := h.begun hstep
  have herrands := h.runsErrands hstep hbegun
  obtain ⟨k, -, hends, herrands, hway, hP⟩ :=
    exists_runsOut (P := fun a => OnTheWay (course 0) a d s ∧ P rest a) hflows hmay
    herrands ⟨h.onTheWay hbegun, hbegins hstep hbegun herrands⟩
    (fun k _ herrands hboth hgoes => by
      refine ⟨?_, hkeeps herrands hboth.2 hgoes⟩
      rcases hflows.next k with hstep | ⟨w, hw, heq⟩
      · exact hboth.1.step herrands hstep hgoes
      · exact heq ▸ hboth.1.stirs (hmay hw))
    fun hall => hserviced fun k hk => ⟨(hall k hk).1, (hall k hk).2.1.2, (hall k hk).2.2⟩
  have hm := herrands.ordinary.sound
  have hnoProgress := hm.noProgress_of_runsOut hends
  obtain ⟨driver, n, frames, -, hcontrol, -⟩ := hm.ends_of_runsOut hends
  refine ⟨k, rest,
    ⟨hends, herrands.ordinary.drained hends, fun id hdue => herrands.finished_of_runsOut hends
    (hway.stands id ?_), ?_⟩, herrands, hP⟩
  · rwa [Due, enqueued_iff_appended, (hnoProgress.toNoArrivals.passes s).appended,
      ← enqueued_iff_appended]
      at hdue
  · have hreached : (course (k + 1)).world.reached d = (course k).world.reached d :=
      hnoProgress.toNoArrivals.told (minds_reaches? d).heeds
    have hall := hway.suspensions
    rw [hcontrol] at hall
    rw [World.suspensions, hnoProgress.counted, hreached]
    exact hall

end Completes

theorem AboutToDrive.completes (h : (course 0).AboutToDrive script p d s)
    (hcourse : Course course) : ∃ k, Completes course k d s := by
  obtain ⟨k, -, hcompletes, -⟩ :=
    h.completes_keeping (P := fun _ _ => True) hcourse.toFlows id (fun _ _ _ => trivial)
    (fun _ _ _ => trivial) fun _ k _ => hcourse.serviced k (Nat.zero_le k)
  exact ⟨k, hcompletes⟩

/-- Whatever programs do, nothing is left to a driver when its run is over. A run that begins
with errands only is over at some time, in whichever order the host completes its calls, and
all tasks have finished by then. -/
theorem drivers_complete_all :
    (∀ {script : Script} {m a b : Machine} {d : DriverId}, Visits (fun _ => True) script.start
      m → m.Roams a → a.RunsOut d b → b.Drained d) ∧
    ∀ {course : Nat → Machine} {script : Script} {p : Permit} {d : DriverId} {s : SchedulerId},
      (course 0).AboutToDrive script p d s → Course course → ∃ k, Completes course k d s :=
  ⟨fun hvisits hroams hends => (hroams.ordinary hvisits.ordinary).drained hends,
    fun h hcourse => h.completes hcourse⟩

/-- One task sleeps, enqueues another one and then waits for all calls; the other one calls. -/
def busyRun : Action :=
  .scope [.newDriver 0,
    .enqueue 0 [.sleep 0 3 .raise, .enqueue 0 [.blocking 0 (.done 7) .raise, .panic (.text "late")],
      .awaitAll 0 .raise], .drive 0] false

/-- The state of that program after some steps, with one scheduler. -/
def busy (steps : Nat) : Machine := (Script.begin Script.single.start busyRun).settle steps

/-- After three steps the driver is about to run; nothing is left to do after 51. -/
theorem busy_run_completes_all :
    (busy 48).RunsOut ⟨0⟩ (busy 49) ∧ (busy 49).Drained ⟨0⟩ ∧
      (busy 3).AboutToDrive Script.single ⟨0, true⟩ ⟨0⟩ ⟨0⟩ ∧
      Course (busy 3).settle ∧ ∃ k, Completes (busy 3).settle k ⟨0⟩ ⟨0⟩ := by
  have hends : (busy 48).RunsOut ⟨0⟩ (busy 49) :=
    ⟨by with_unfolding_all rfl, (busy 49).top, by with_unfolding_all rfl, rfl⟩
  have habout : (busy 3).AboutToDrive Script.single ⟨0, true⟩ ⟨0⟩ ⟨0⟩ :=
    { visits := visits_settle _ busyRun 3
      drives := by with_unfolding_all rfl
      root := by with_unfolding_all rfl
      outside := by with_unfolding_all rfl
      position := by decide
      fed := by decide
      enqueues := fun t ht => by
        have hs : (busy 3).world.schedulerAt 0 = some ⟨0⟩ := by decide
        exact Option.some.inj (ht.symm.trans hs)
      queued := fun entry member => by
        have hqueue : (busy 3).world.queue ⟨0⟩ = [.fresh ⟨1⟩ [.sleep 0 3 .raise,
            .enqueue 0 [.blocking 0 (.done 7) .raise, .panic (.text "late")],
              .awaitAll 0 .raise]] := by
          with_unfolding_all rfl
        rw [hqueue] at member
        rw [List.mem_singleton.1 member]
        change Action.isErrandCode ⟨0, true⟩ _ = true
        decide
      waiting := .inl (by with_unfolding_all rfl) }
  have hdone : ((busy 3).settle 48).Done := ⟨by with_unfolding_all rfl, by with_unfolding_all rfl⟩
  exact ⟨hends, drivers_complete_all.1 (visits_settle _ busyRun 48) .refl hends, habout,
    course_settle hdone, drivers_complete_all.2 habout (course_settle hdone)⟩

end Machine

end Fibers
