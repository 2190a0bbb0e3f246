import Fibers.Proofs.Turns

/-!
What a step does to the queue of one scheduler. The queue grows at its back in
four ways, and only the run loop takes entries off it, from the front; a
resumption that is delivered at the root goes past the queue and runs its fiber
at once.
-/

namespace Fibers

open Mark (finishes)

namespace World

/-- The entry was put at the back of the queue. -/
structure Gains (s : SchedulerId) (entry : Runnable) (a b : World) : Prop where
  queue : b.queue s = a.queue s ++ [entry]
  appended : b.appended s = a.appended s ++ [entry]
  dispatched : b.dispatched s = a.dispatched s

/-- The entry was taken from the front of the queue. -/
structure Gives (s : SchedulerId) (entry : Runnable) (a b : World) : Prop where
  queue : a.queue s = entry :: b.queue s
  appended : b.appended s = a.appended s
  dispatched : b.dispatched s = a.dispatched s ++ [entry]

variable {w w' : World} {s t : SchedulerId} {entry : Runnable}

theorem passes_updateScheduler (w : World) (h : t ≠ s) (g : Scheduler → Scheduler) :
    Passes s w (w.updateScheduler t g) where
  scheduler := by
    rw [scheduler?_updateScheduler, if_neg h]
    exact .refl _
  appended := rfl
  dispatched := rfl

theorem passes_append (w : World) (h : t ≠ s) (entry : Runnable) : Passes s w (w.append t entry) :=
  (passes_updateScheduler w h _).trans (.mark _ (if_neg h) rfl)

theorem owners_updateScheduler_of_same (w : World) (s : SchedulerId) {g : Scheduler → Scheduler}
    (hg : ∀ scheduler, w.scheduler? s = some scheduler → (g scheduler).owners = scheduler.owners) :
    (w.updateScheduler s g).owners s = w.owners s := by
  rw [owners_updateScheduler, if_pos rfl, owners]
  cases hs : w.scheduler? s with
  | none => rfl
  | some scheduler => exact hg scheduler hs

theorem owners_append (w : World) (s : SchedulerId) (entry : Runnable) :
    (w.append s entry).owners s = w.owners s := w.owners_updateScheduler_of_same s fun _ _ => rfl

theorem gains_append (w : World) (hs : (w.scheduler? s).isSome) (entry : Runnable) :
    Gains s entry w (w.append s entry) := by
  obtain ⟨scheduler, hs⟩ := Option.isSome_iff_exists.1 hs
  refine ⟨?_, ?_, ?_⟩
  · rw [queue_append hs, if_pos rfl]
  · change ((w.updateScheduler s _).mark _).told _ = _
    rw [told_mark, Mark.appended?, if_pos rfl]
    rfl
  · change ((w.updateScheduler s _).mark _).told _ = _
    rw [told_mark]
    exact List.append_nil _

theorem passes_enqueue (w : World) (h : t ≠ s) (body : List Action) :
    Passes s w (w.enqueue t body).2 := by
  rw [World.enqueue]
  split
  · exact .refl w s
  · next scheduler hs =>
    have hmark : Mark.appended? s (.appended t (.fresh (scheduler.enqueue body).1 body)) =
        none := if_neg h
    exact ((passes_updateScheduler w h _).trans (.mark _ hmark rfl)).trans (.tell _ _)

theorem gains_enqueue {scheduler : Scheduler} (hs : w.scheduler? s = some scheduler)
    (body : List Action) : Gains s (.fresh ⟨scheduler.lastId + 1⟩ body) w (w.enqueue s body).2 := by
  have hqueue := queue_enqueue hs body s
  rw [if_pos rfl] at hqueue
  refine ⟨hqueue, ?_, ?_⟩
  · simp only [World.enqueue, hs]
    change (((w.updateScheduler s _).mark _).tell _).told _ = _
    rw [told_tell, told_mark, Mark.appended?, if_pos rfl]
    rfl
  · simp only [World.enqueue, hs]
    change (((w.updateScheduler s _).mark _).tell _).told _ = _
    rw [told_tell, told_mark]
    exact List.append_nil _

theorem owners_enqueue {scheduler : Scheduler} (hs : w.scheduler? s = some scheduler)
    (body : List Action) : (w.enqueue s body).2.owners s = w.owners s := by
  simp only [World.enqueue, hs]
  exact w.owners_updateScheduler_of_same s fun other hother => by
    rw [hs, Option.some.injEq] at hother
    exact hother ▸ rfl

theorem passes_next (h : t ≠ s) (hnext : w.next? t = some (entry, w')) : Passes s w w' := by
  obtain ⟨queue, hqueue, rfl⟩ := next?_eq hnext
  exact (passes_updateScheduler w h _).trans (.mark _ rfl (if_neg h))

theorem gives_next (hnext : w.next? s = some (entry, w')) : Gives s entry w w' := by
  obtain ⟨queue, hqueue, rfl⟩ := next?_eq hnext
  have hs : ∃ scheduler, w.scheduler? s = some scheduler := by
    rw [queue_eq] at hqueue
    cases hs : w.scheduler? s with
    | none => simp [hs] at hqueue
    | some scheduler => exact ⟨scheduler, rfl⟩
  obtain ⟨scheduler, hs⟩ := hs
  refine ⟨?_, ?_, ?_⟩
  · change _ = entry :: (w.updateScheduler s _).queue s
    rw [queue_updateScheduler, if_pos rfl, hs, Option.elim_some, hqueue]
  · change ((w.updateScheduler s _).mark _).told _ = _
    rw [told_mark]
    exact List.append_nil _
  · change ((w.updateScheduler s _).mark _).told _ = _
    rw [told_mark, Mark.dispatched?, if_pos rfl]
    rfl

theorem owners_next (hnext : w.next? s = some (entry, w')) : w'.owners s = w.owners s := by
  obtain ⟨queue, hqueue, rfl⟩ := next?_eq hnext
  exact w.owners_updateScheduler_of_same s fun _ _ => rfl

theorem Opens.passes {x : HandleRef} {plan : AwaitPlan} (h : w.Opens x plan w') (s : SchedulerId) :
    Passes s w w' := by
  obtain ⟨current, clones, hbefore, hnew, hafter⟩ := h
  have hmade : ∀ u : World, Passes s u (u.makeHandle current clones).2 := fun _ => .of_same rfl rfl
  exact ((hbefore.passes s).trans ((hmade _).trans (.mark _ rfl rfl))).trans (hafter.passes s)

end World

namespace Machine

/-- How an entry comes to the back of a scheduler's queue. -/
inductive Appends (m : Machine) (s : SchedulerId) (m' : Machine) : Runnable → Prop
  /-- An action enqueues a task, which gets the next number. -/
  | enqueued {action : Action} {position : Nat} {body : List Action} {scheduler : Scheduler}
      (haction : m.nextAction? = some action)
      (hbody : action.core = .enqueue position body ∨
        ∃ task, m.taskBody task = body ∧ action.core = .enqueueNamed position task)
      (hposition : m.world.schedulerAt position = some s)
      (hs : m.world.scheduler? s = some scheduler) :
      Appends m s m' (.fresh ⟨scheduler.lastId + 1⟩ body)
  /-- A resumption is accepted inside a fiber, for a fiber that the scheduler parked. -/
  | resumed {x : HandleRef} {cell : HandleCell} {fiber : Fiber} {resumption : Resumption}
      (hinside : m.world.current.isSome) (hcell : m.world.handles.get? x = some cell)
      (hslot : cell.slot = .parked fiber (.scheduler s))
      (haccepted : m'.world.accepted x = m.world.accepted x ++ [resumption]) :
      Appends m s m' (.woken fiber resumption)
  /-- A fiber suspends on a handle whose resumption has arrived. -/
  | early {x : HandleRef} {cell : HandleCell} {fiber : Fiber} {resumption : Resumption}
      {frames : List Frame} (htop : m.top = .dispatching s :: frames)
      (hcontrol : m.control = .back fiber (.suspended x))
      (hcell : m.world.handles.get? x = some cell) (hslot : cell.slot = .woken resumption) :
      Appends m s m' (.woken fiber resumption)
  /-- A fiber suspends on a handle that was used before. -/
  | misused {x : HandleRef} {cell : HandleCell} {fiber : Fiber} {frames : List Frame}
      (htop : m.top = .dispatching s :: frames)
      (hcontrol : m.control = .back fiber (.suspended x))
      (hcell : m.world.handles.get? x = some cell)
      (hslot : cell.slot = .spent ∨ ∃ other holder, cell.slot = .parked other holder) :
      Appends m s m' (.woken fiber (.error (.ofFault (.notSuspended fiber.id))))

/-- An entry has its turn, at the root: control is in its fiber, with the
resumption of a fiber that was woken. A task that gets no stack fails. -/
inductive Starts (s : SchedulerId) (rest : List Frame) (m m' : Machine) : Runnable → Prop
  | unstarted {id : FiberId} {body : List Action} (hrunning : m'.running = [])
      (hroot : m'.root = rest) (hcontrol : m'.control = .advance)
      (hfailed : m'.world.tally (finishes s id) = m.world.tally (finishes s id) + 1) :
      Starts s rest m m' (.fresh id body)
  | started {id : FiberId} {body : List Action} {running : Running}
      (hrunning : m'.running = [running]) (hroot : m'.root = .dispatching s :: rest)
      (hhome : running.home = some s) (hid : running.id = id)
      (hframes : running.frames = [.actions body []]) (hcontrol : m'.control = .advance) :
      Starts s rest m m' (.fresh id body)
  | resumed {fiber : Fiber} {resumption : Resumption} {running : Running}
      (hrunning : m'.running = [running]) (hroot : m'.root = .dispatching s :: rest)
      (hfiber : fiber = running.leave (.suspended running.frames running.first))
      (hcontrol : m'.control = .resumed resumption) : Starts s rest m m' (.woken fiber resumption)

/-- A run loop takes the first entry off its queue and starts it. -/
structure Takes (m : Machine) (s : SchedulerId) (ran : Nat) (max : Option Nat) (frames : List Frame)
    (entry : Runnable) (m' : Machine) : Prop where
  running : m.running = []
  root : m.root = .draining s ran max :: frames
  more : max.any (· ≤ ran) = false
  gives : ∃ u, World.Gives s entry m.world u ∧ u.owners s = m.world.owners s ∧
    World.Passes s u m'.world
  starts : Starts s (.draining s (ran + 1) max :: frames) m m' entry

/-- What a step does to the queue of a scheduler. -/
inductive Serves (m : Machine) (s : SchedulerId) (m' : Machine) : Prop
  | passes (h : World.Passes s m.world m'.world)
  | appends {entry : Runnable} {u v : World} (hway : m.Appends s m' entry)
      (hbefore : World.Passes s m.world u) (h : World.Gains s entry u v)
      (howners : v.owners s = u.owners s) (hafter : World.Passes s v m'.world)
  | takes {ran : Nat} {max : Option Nat} {frames : List Frame} {entry : Runnable}
      (h : m.Takes s ran max frames entry m')
  | jumps {x : HandleRef} {cell : HandleCell} {fiber : Fiber} {resumption : Resumption} {u : World}
      {frames : List Frame} (hrunning : m.running = []) (hcell : m.world.handles.get? x = some cell)
      (hslot : cell.slot = .parked fiber (.scheduler s)) (hbefore : World.Passes s m.world u)
      (hafter : World.Passes s (u.mark (.dispatched s (.woken fiber resumption))) m'.world)
      (hstarts : Starts s (.draining s 0 none :: frames) m m' (.woken fiber resumption))

variable {byHand : Prop} {m m' : Machine} {s : SchedulerId} {frames : List Frame} {w : World}
  {control : Control}

theorem goTo_running_eq_nil (m : Machine) (frames : List Frame) (w : World) (control : Control)
    (h : m.running = []) : (m.goTo frames w control).running = [] ∧
    (m.goTo frames w control).root = frames := by
  obtain ⟨world, running, root, control⟩ := m
  cases h
  exact ⟨rfl, rfl⟩

theorem running_eq_nil (h : m.inFiber = false) : m.running = [] := by
  simpa [inFiber] using h

/-- A fiber that waits is entered with its resumption. -/
theorem starts_enter {fiber : Fiber} {resumption : Resumption} {rest : List Frame} {n : Machine}
    (hrests : fiber.Rests (some s)) (hrunning : n.running = [])
    (hroot : n.root = .dispatching s :: rest) :
    Starts s rest m (n.enter fiber resumption) (.woken fiber resumption) := by
  obtain ⟨serial, id, home, stack, state⟩ := fiber
  have hsuspended := hrests.suspended rfl
  cases state with
  | unstarted | finished => cases hsuspended
  | suspended frames first =>
    have hentered :
        (n.enter ⟨serial, id, home, stack, .suspended frames first⟩ resumption).running =
        [⟨serial, id, home, stack, n.world.current, first, frames⟩] := by
      simp [enter, occupy, hrunning]
    exact .resumed hentered hroot rfl rfl

/-- A task that gets a stack is begun. -/
theorem starts_enter_unstarted {fiber : Fiber} {id : FiberId} {body : List Action}
    {rest : List Frame} {n : Machine} (hhome : fiber.home = some s) (hid : fiber.id = id)
    (hstate : fiber.state = .unstarted body) (hrunning : n.running = [])
    (hroot : n.root = .dispatching s :: rest) :
    Starts s rest m (n.enter fiber .unit) (.fresh id body) := by
  have hentered : (n.enter fiber .unit).running =
      [⟨fiber.serial, fiber.id, fiber.home, fiber.stack, n.world.current, .unit,
      [.actions body []]⟩] := by
    simp [enter, hstate, Resumption.unit, occupy, hrunning]
  refine .started hentered ?_ hhome hid rfl ?_
  · simpa [enter, hstate, Resumption.unit, occupy] using hroot
  · simp [enter, hstate, Resumption.unit, occupy]

theorem finishes_of_quiet (s : SchedulerId) (id : FiberId) (told : Mark) (h : told.IsQuiet) :
    finishes s id told = 0 := by
  cases told <;> first | rfl | exact h.elim

/-- A delivery to a handle, as the queue of a scheduler sees it. -/
theorem Delivers.serves {t : SchedulerId} {x : HandleRef} {cell : HandleCell}
    {resumption : Resumption} (h : m.Sound byHand) (hnoArrivals : m.world.NoArrivals w)
    (hcell : w.handles.get? x = some cell) (ht : (w.scheduler? t).isSome)
    (hdelivers : Delivers (m.goTo frames w .advance) t x cell resumption m') (s : SchedulerId) :
    m.Serves s m' := by
  have hbefore := hnoArrivals.passes s
  have hspent : ∀ slot, World.Passes s w
      (((w.setSlot x slot).mark (.accepted x resumption)).release [.handle x]) := by
    intro slot
    have hlaid : World.Passes s w (w.setSlot x slot) := .of_same rfl rfl
    exact (hlaid.trans (.mark _ rfl rfl)).trans (World.passes_release ..)
  cases hdelivers with
  | stored event hslot hquiet => exact .passes ((hbefore.trans (hspent _)).trans (.tell _ _))
  | refused fault event hslot hother hquiet =>
    exact .passes ((hbefore.trans (World.passes_release ..)).trans (.tell _ _))
  | queued fiber event hslot hcurrent hquiet =>
    have htold := (hbefore.trans (hspent .spent)).trans (.tell _ event)
    obtain ⟨old, hold, hparked⟩ := hnoArrivals.parked hcell hslot
    by_cases heq : t = s
    · subst heq
      refine .appends (.resumed (by rwa [← hnoArrivals.current]) hold hparked ?_) htold
        (World.gains_append _ ?_ _) (World.owners_append ..) (.refl _ _)
      · simp only [World.accepted, goTo_world]
        rw [World.told_append _ _ _ rfl, World.told_tell, World.told_release _ _
          (Mark.heeds_accepted? x), World.told_mark, World.told_setSlot,
          hnoArrivals.told (Mark.heeds_accepted? x), Mark.accepted?, if_pos rfl]
        rfl
      · rwa [((hspent .spent).trans (.tell _ event)).isSome]
    · exact .passes (htold.trans (World.passes_append _ heq _))
  | dispatched fiber event hslot hcurrent hquiet =>
    have htold := (hbefore.trans (hspent .spent)).trans (.tell _ event)
    obtain ⟨old, hold, hparked⟩ := hnoArrivals.parked hcell hslot
    have hrunning : m.running = [] := by
      refine running_eq_nil ?_
      rw [← h.current_isSome, ← hnoArrivals.current, show w.current = none from hcurrent]
      rfl
    by_cases heq : t = s
    · subst heq
      have hrests := h.kept.orderly.rests_of_met hold hparked
      obtain ⟨hlevels, hroot⟩ := goTo_running_eq_nil (m.goTo frames w .advance)
        (.dispatching t :: .draining t 0 none :: (m.goTo frames w .advance).top)
        (((((w.setSlot x .spent).mark (.accepted x resumption)).release [.handle x]).tell
          event).mark (.dispatched t (.woken fiber resumption))) (m.goTo frames w .advance).control
        (goTo_running_eq_nil m frames w .advance hrunning).1
      exact .jumps hrunning hold hparked htold (enter_spares (goTo ..) fiber resumption).toPasses
        (starts_enter hrests hlevels hroot)
    · refine .passes ((htold.trans ?_).trans (enter_spares (goTo ..) fiber resumption).toPasses)
      exact .mark _ rfl (if_neg heq)

/-- Whoever is on top of a run loop is at the root. -/
theorem Sound.root_of_draining (h : m.Sound byHand) {t : SchedulerId} {ran : Nat} {max : Option Nat}
    (htop : m.top = .draining t ran max :: frames) (hcontrol : m.control = .advance) :
    m.running = [] ∧ m.root = .draining t ran max :: frames := by
  have haccepts := h.accepts
  rw [htop, hcontrol] at haccepts
  have hrunning := running_eq_nil haccepts.1
  exact ⟨hrunning, by rw [← htop, top, hrunning, stackUnder]⟩

/-- A run loop that does not stop takes the first entry. -/
theorem Drains.takes {ran : Nat} {max : Option Nat} (h : m.Sound byHand)
    (htop : m.top = .draining s ran max :: frames) (hcontrol : m.control = .advance)
    (hdrains : Drains (m.goTo frames m.world .advance) s ran max m') :
    (m' = m.goTo frames m.world (.answer (.ok ran)) ∧
        (max.any (· ≤ ran) = true ∨ m.world.queue s = [])) ∨
      ∃ entry, m.Takes s ran max frames entry m' := by
  have hheld := h.kept_of_top htop
  obtain ⟨hrunning, hroot⟩ := h.root_of_draining htop hcontrol
  cases hdrains with
  | stops hstops =>
    rw [goTo_goTo, goTo_top]
    exact .inl ⟨rfl, hstops⟩
  | @fails id body w w₁ w₂ hmore hnext hbefore hafter =>
    have hbegun := (hheld.next hnext).drift_gain hbefore
    have hunstarted := World.Sound.unstarted ((hheld.next hnext).gain hbefore)
    have hpasses : World.Passes s w w₂ := (hbegun.noArrivals.passes s).trans
      ((World.Passes.mark w₁ rfl rfl).trans ((hafter.noArrivals hunstarted).passes s))
    rw [goTo_goTo, goTo_top]
    obtain ⟨hlevels, hfloor⟩ :=
      goTo_running_eq_nil m (.draining s (ran + 1) max :: frames) w₂ .advance hrunning
    refine .inr ⟨_, hrunning, hroot, hmore,
      ⟨w, World.gives_next hnext, World.owners_next hnext, hpasses⟩,
      .unstarted hlevels hfloor rfl ?_⟩
    have htaken := hbegun.tally_eq (finishes_of_quiet s id)
    obtain ⟨queue, hqueue, rfl⟩ := World.next?_eq hnext
    rw [goTo_world, hafter.tally_eq hunstarted (finishes_of_quiet s id), World.tally_mark, htaken,
      World.tally_mark]
    simp [finishes, World.tally, World.updateScheduler]
  | @starts id body fiber w w₁ hmore hnext hbefore hid hhome hstate =>
    have hbegun := ((hheld.next hnext).drift_gain hbefore).noArrivals
    rw [goTo_goTo, goTo_top, goTo_control]
    obtain ⟨hlevels, hfloor⟩ :=
      goTo_running_eq_nil m (.dispatching s :: .draining s (ran + 1) max :: frames)
      w₁ .advance hrunning
    exact .inr ⟨_, hrunning, hroot, hmore,
      ⟨w, World.gives_next hnext, World.owners_next hnext, (hbegun.passes s).trans
        (enter_spares (goTo ..) fiber .unit).toPasses⟩,
      starts_enter_unstarted hhome hid hstate hlevels hfloor⟩
  | @wakes fiber resumption w hmore hnext =>
    obtain ⟨queue, hqueue, -⟩ := World.next?_eq hnext
    have hrests := h.kept.orderly.queued s fiber resumption (hqueue ▸ List.mem_cons_self ..)
    rw [goTo_goTo, goTo_top]
    obtain ⟨hlevels, hfloor⟩ :=
      goTo_running_eq_nil m (.dispatching s :: .draining s (ran + 1) max :: frames)
      w (m.goTo frames m.world .advance).control hrunning
    exact .inr ⟨_, hrunning, hroot, hmore,
      ⟨w, World.gives_next hnext, World.owners_next hnext,
        (enter_spares (goTo ..) fiber resumption).toPasses⟩,
      starts_enter hrests hlevels hfloor⟩

/-- Another scheduler's run loop passes the queue by. -/
theorem Drains.passes {t : SchedulerId} {ran : Nat} {max : Option Nat} (h : m.Sound byHand)
    (htop : m.top = .draining t ran max :: frames) (hother : t ≠ s)
    (hdrains : Drains (m.goTo frames m.world .advance) t ran max m') :
    World.Passes s m.world m'.world := by
  have hheld := h.kept_of_top htop
  cases hdrains with
  | stops => exact .refl _ s
  | @fails id body w w₁ w₂ hmore hnext hbefore hafter =>
    have hbegun := ((hheld.next hnext).drift_gain hbefore).noArrivals
    have hunstarted := World.Sound.unstarted ((hheld.next hnext).gain hbefore)
    exact (World.passes_next hother hnext).trans
      ((hbegun.passes s).trans
        ((World.Passes.mark w₁ rfl rfl).trans ((hafter.noArrivals hunstarted).passes s)))
  | starts hmore hnext hbefore =>
    have hbegun := ((hheld.next hnext).drift_gain hbefore).noArrivals
    exact (World.passes_next hother hnext).trans
      ((hbegun.passes s).trans (enter_spares (goTo ..) _ .unit).toPasses)
  | wakes hmore hnext =>
    exact (World.passes_next hother hnext).trans (enter_spares (goTo ..) _ _).toPasses

/-- What a scheduler does with a fiber that comes back, as a queue sees it. -/
theorem receives_serves {t : SchedulerId} {fiber : Fiber} {exit : Exit} (h : m.Sound byHand)
    (htop : m.top = .dispatching t :: frames) (hcontrol : m.control = .back fiber exit)
    (ht : (m.world.scheduler? t).isSome) (hreceives : m.world.Receives t fiber exit w)
    (s : SchedulerId) :
    m.Serves s (m.goTo frames w .advance) := by
  have hpasses : ∀ {w : World} {g : Counters → Counters}, m.world.Reckons t g [] w →
      World.Passes s m.world w :=
    fun hreckons => (hreckons.noArrivals h.kept).passes s
  cases hreceives with
  | ended hexit hreckons => exact .passes ((hreckons.noArrivals (h.kept_of_back hcontrol)).passes s)
  | parked hcell hbefore hsame hparks =>
    exact .passes ((hpasses hbefore).trans ((hparks.spares s).toPasses))
  | @handedBack x cell resumption w₁ w₂ hcell hbefore hsame hparks =>
    have hparked := (hpasses hbefore).trans ((hparks.spares s).toPasses)
    by_cases heq : t = s
    · subst heq
      refine .appends ?_ hparked (World.gains_append _ (by rwa [hparked.isSome]) _)
        (World.owners_append ..) (.refl _ _)
      cases hparks with
      | met resumption hslot => exact .early htop hcontrol hcell hslot
      | refused hslot => exact .misused htop hcontrol hcell hslot
    · exact .passes (hparked.trans (World.passes_append _ heq _))

/-- Every step leaves the queue of a scheduler alone, puts an entry at its back,
takes one from its front, or passes it by at the root. -/
theorem Sound.serves (h : m.Sound byHand) (hstep : m.step? = some m') (s : SchedulerId) :
    m.Serves s m' := by
  have hmoves : Moves
      (fun core => ∃ action, m.nextAction? = some action ∧ action.core = core) m m' :=
    step_moves hstep h fun action haction => ⟨action, haction, rfl⟩
  have hturns := h.turns hmoves
  cases hturns with
  | noArrivals hframes hcontrol hnoArrivals => exact .passes (hnoArrivals.passes s)
  | @enqueues position t scheduler body frames hallowed hposition ht shown hframes =>
    by_cases heq : t = s
    · subst heq
      refine .appends ?_ (.refl _ _) (World.gains_enqueue ht body) (World.owners_enqueue ht body)
        (.emit ..)
      rcases hallowed with ⟨action, haction, hcore⟩ | ⟨task, hbody, action, haction, hcore⟩
      · exact .enqueued haction (.inl hcore) hposition ht
      · exact .enqueued haction (.inr ⟨task, hbody, hcore⟩) hposition ht
    · exact .passes ((World.passes_enqueue _ heq _).trans (.emit ..))
  | registers register hplan hopens hframes => exact .passes (hopens.passes s)
  | strands panic hcaller hnone hopens hframes => exact .passes (hopens.passes s)
  | issues huses hdriver hplan hlisted hcurrent hopens hframes =>
    exact .passes ((hopens.passes s).trans (suspendAwait_spares (goTo ..) _ _).toPasses)
  | registered htop hcontrol hnoArrivals =>
    exact .passes ((hnoArrivals.passes s).trans (suspendAwait_spares (goTo ..) _ _).toPasses)
  | delivers hframes hnoArrivals hcell ht hfrom hdelivers =>
    exact hdelivers.serves h hnoArrivals.toNoArrivals hcell ht s
  | concludes htop hresumed hcontrol hnoArrivals =>
    exact .passes (World.Passes.trans (.mark _ rfl rfl) (hnoArrivals.passes s))
  | receives htop hcontrol ht hreceives => exact receives_serves h htop hcontrol ht hreceives s
  | @drains t ran max frames _ htop hcontrol hdrains =>
    by_cases heq : t = s
    · subst heq
      rcases hdrains.takes h htop hcontrol with ⟨rfl, -⟩ | ⟨entry, htakes⟩
      · exact .passes (.refl _ t)
      · exact .takes htakes
    · exact .passes (hdrains.passes h htop heq)
  | leaves hrunning htop hcontrol =>
    refine .passes (World.Passes.trans ?_ (.mark _ rfl rfl))
    refine World.Passes.trans ?_ (World.passes_release ..)
    exact .of_same rfl rfl
  | hand hallowed hhand hspares => exact .passes (hspares s).toPasses

end Machine

end Fibers
