import Fibers.Proofs.ForeignSteps

/-!
What a foreign program has in its frames, queues and handles is foreign, at every point of
a session: no task raises or panics, every await wants a pointer, and whatever is on its
way to an await was passed by a foreign call.
-/

namespace Fibers

def Fiber.IsForeign (fiber : Fiber) : Prop := ∀ frame ∈ fiber.frames, frame.IsForeign

def Runnable.IsForeign : Runnable → Prop
  | .fresh _ body => Action.isForeignCode body = true
  | .woken fiber resumption => fiber.IsForeign ∧ resumption.IsForeign

/-- What a slot holds is foreign. -/
def Slot.IsForeign : Slot Fiber Owner Resumption → Prop
  | .woken resumption => resumption.IsForeign
  | .parked fiber _ => fiber.IsForeign
  | .pending | .spent => True

/-- Nothing is raised, and no task panics or fails. -/
def Control.IsForeign : Control → Prop
  | .advance | .answer _ => True
  | .resumed resumption => resumption.IsForeign
  | .back fiber exit => fiber.IsForeign ∧ ∀ failure panic, exit ≠ .failed failure ∧
    exit ≠ .panicked panic
  | .raise _ | .panicking _ => False

namespace Frame.LeavesBehind

variable {frame : Frame} {pushed : List Frame}

theorem isForeign (h : frame.LeavesBehind pushed) (hframe : frame.IsForeign) :
    ∀ left ∈ pushed, left.IsForeign := by
  cases h with
  | finished | done | answered => exact List.forall_mem_nil _
  | acts action todo guards =>
    rintro left (_ | ⟨_, ⟨⟩⟩)
    exact (Bool.and_eq_true_iff.1 hframe).2
  | @repeats action times body haction todo guards =>
    obtain ⟨hfirst, hrest⟩ := Bool.and_eq_true_iff.1 hframe
    rw [← Action.isForeign_core, haction] at hfirst
    rintro left (_ | ⟨_, _ | ⟨_, ⟨⟩⟩⟩)
    · exact hfirst
    · exact hrest
  | again times body =>
    rintro left (_ | ⟨_, _ | ⟨_, ⟨⟩⟩⟩)
    · exact hframe
    · exact hframe

theorem self_not_isAwait (h : frame.LeavesBehind pushed) : ¬frame.IsAwait := by
  cases h <;> exact id

end Frame.LeavesBehind

namespace World

variable {w w' : World} {x : HandleRef} {cell : HandleCell} {s : SchedulerId} {entry : Runnable}

/-- A task that is parked rested where it is parked. -/
theorem Orderly.rests_of_noArrivals {fiber : Fiber} (h : w.Orderly) (hnoArrivals : w.NoArrivals w')
    (hcell : w'.handles.get? x = some cell) (hslot : cell.slot = .parked fiber (.scheduler s)) :
    fiber.Rests (some s) := by
  obtain ⟨old, hold, heq⟩ := hnoArrivals.slot_eq hcell (by simp [hslot])
  exact h.rests_of_met hold (heq.symm.trans hslot)

/-- What is queued and what handles hold is foreign. -/
structure IsForeign (w : World) : Prop where
  queued : ∀ s, ∀ entry ∈ w.queue s, entry.IsForeign
  slots : ∀ x cell, w.handles.get? x = some cell → cell.slot.IsForeign

namespace IsForeign

theorem of_same (h : w.IsForeign) (handles : w'.handles = w.handles)
    (schedulers : w'.schedulers = w.schedulers) : w'.IsForeign where
  queued s entry member := h.queued s entry (by rwa [queue, scheduler?, schedulers] at member)
  slots x cell hcell := h.slots x cell (handles ▸ hcell)

theorem mark (h : w.IsForeign) (told : Mark) : (w.mark told).IsForeign := h.of_same rfl rfl

theorem tell (h : w.IsForeign) (event : Event) : (w.tell event).IsForeign := h.of_same rfl rfl

theorem noArrivals (h : w.IsForeign) (hnoArrivals : w.NoArrivals w') : w'.IsForeign where
  queued s entry member := h.queued s entry (hnoArrivals.queue_sub s member)
  slots x cell hcell := by
    by_cases hspent : cell.slot = .spent
    · exact hspent ▸ trivial
    · obtain ⟨old, hold, heq⟩ := hnoArrivals.slot_eq hcell hspent
      exact heq ▸ h.slots x old hold

theorem release (h : w.IsForeign) (work : List Debris) : (w.release work).IsForeign :=
  h.noArrivals (noArrivals_release w work)

theorem setSlot (h : w.IsForeign) (hcell : w.handles.get? x = some cell)
    (slot : Slot Fiber Owner Resumption) (hslot : slot.IsForeign) :
    (w.setSlot x slot).IsForeign where
  queued := h.queued
  slots y other hother := by
    rw [get?_setSlot hcell] at hother
    split at hother
    · cases hother
      exact hslot
    · exact h.slots y other hother

theorem append (h : w.IsForeign) (s : SchedulerId) (entry : Runnable) (hentry : entry.IsForeign) :
    (w.append s entry).IsForeign where
  queued t other member := by
    change other ∈ (w.updateScheduler s _).queue t at member
    rw [queue_updateScheduler] at member
    split at member
    next hst =>
      cases ht : w.scheduler? t with
      | none =>
        rw [ht] at member
        cases member
      | some scheduler =>
        rw [ht] at member
        rcases List.mem_append.1 member with member | member
        · refine h.queued t other ?_
          rwa [queue, ht]
        · exact List.mem_singleton.1 member ▸ hentry
    next => exact h.queued t other member
  slots := h.slots

theorem next (h : w.IsForeign) (hnext : w.next? s = some (entry, w')) :
    w'.IsForeign ∧ entry.IsForeign := by
  obtain ⟨queue, hqueue, -⟩ := next?_eq hnext
  refine ⟨⟨fun t other member => h.queued t other (mem_queue_next hnext member), ?_⟩,
    h.queued s entry (hqueue ▸ List.mem_cons_self ..)⟩
  rw [handles_next hnext]
  exact h.slots

theorem enqueue {body : List Action} {scheduler : Scheduler} (h : w.IsForeign)
    (hbody : Action.isForeignCode body = true) (hs : w.scheduler? s = some scheduler) :
    (w.enqueue s body).2.IsForeign where
  queued t entry member := by
    rw [queue_enqueue hs] at member
    split at member
    · rcases List.mem_append.1 member with member | member
      · exact h.queued t entry member
      · exact List.mem_singleton.1 member ▸ hbody
    · exact h.queued t entry member
  slots := by
    rw [handles_enqueue]
    exact h.slots

theorem opens {plan : AwaitPlan} (h : w.IsForeign) (hopens : w.Opens x plan w') : w'.IsForeign := by
  obtain ⟨current, clones, hbefore, -, hafter⟩ := hopens
  rename_i u
  have hu := h.noArrivals hbefore.toNoArrivals
  have hmade : IsForeign (Machine.openAwait u current plan clones).2 := by
    refine ⟨hu.queued, fun y cell hcell => ?_⟩
    rw [openAwait_eq] at hcell
    change (u.makeHandle current clones).2.handles.get? y = some cell at hcell
    rw [get?_makeHandle] at hcell
    split at hcell
    · cases hcell
      trivial
    · exact hu.slots y cell hcell
  exact hmade.noArrivals hafter.toNoArrivals

end IsForeign

end World

namespace Machine

variable {byHand : Prop} {m m' : Machine} {frames : List Frame} {w : World} {control : Control}
  {script : Script}

structure IsForeign (m : Machine) : Prop where
  root : ∀ frame ∈ m.root, frame.IsForeign
  levels : ∀ running ∈ m.running, ∀ frame ∈ running.frames, frame.IsForeign
  control : m.control.IsForeign
  world : m.world.IsForeign

namespace IsForeign

theorem top (h : m.IsForeign) : ∀ frame ∈ m.top, frame.IsForeign := by
  obtain ⟨world, running, root, control⟩ := m
  cases running with
  | nil => exact h.root
  | cons running below => exact h.levels running (List.mem_cons_self ..)

theorem goTo (h : m.IsForeign) (hframes : ∀ frame ∈ frames, frame.IsForeign)
    (hcontrol : control.IsForeign) (hworld : w.IsForeign) :
    (m.goTo frames w control).IsForeign := by
  obtain ⟨world, running, root, told⟩ := m
  cases running with
  | nil => exact ⟨hframes, h.levels, hcontrol, hworld⟩
  | cons running below =>
    refine ⟨h.root, fun other member => ?_, hcontrol, hworld⟩
    rcases List.mem_cons.1 member with rfl | member
    · exact hframes
    · exact h.levels other (List.mem_cons_of_mem _ member)

end IsForeign

/-! ### Steps -/

theorem fares_actions (hm : m.Sound byHand) (h : m.IsForeign) {todo : List Action}
    {guards : List Datum} (htop : m.top = .actions todo guards :: frames)
    (hreact : (m.goTo frames m.world m.control).react? (.actions todo guards) = some m') :
    m.Fares m' := by
  have hcontrol := h.control
  have hframe : Frame.IsForeign (.actions todo guards) := h.top _ (htop ▸ List.mem_cons_self ..)
  cases hadvance : m.control with
  | raise | panicking => exact (hadvance ▸ hcontrol).elim
  | resumed | back | answer => simp [react?, hadvance] at hreact
  | advance =>
    rw [hadvance] at hreact
    cases todo with
    | nil =>
      have hdone := (Option.some.inj hreact).symm
      rw [goTo_withWorld, goTo_world] at hdone
      exact hdone ▸ .goesOn htop (.inl hadvance) (.finished guards) (World.noProgress_release ..)
        (World.boxes_of_surroundings (World.surroundings_release ..))
    | cons action todo =>
      have haction := (Bool.and_eq_true_iff.1 hframe).1
      have hperforms : m.Fares
          ((m.goTo (.actions todo guards :: frames) m.world .advance).perform action) :=
        fares_perform hm htop hadvance haction action (.refl action)
      rw [← goTo_push] at hperforms
      cases action <;> first | cases haction; done | exact Option.some.inj hreact ▸ hperforms

theorem fares_again (h : m.IsForeign) {times : Nat} {body : List Action}
    (htop : m.top = .again times body :: frames)
    (hreact : (m.goTo frames m.world m.control).react? (.again times body) = some m') :
    m.Fares m' := by
  have hcontrol := h.control
  cases hadvance : m.control with
  | raise | panicking => exact (hadvance ▸ hcontrol).elim
  | resumed | back | answer => simp [react?, hadvance] at hreact
  | advance =>
    rw [hadvance] at hreact
    cases times with
    | zero => exact Option.some.inj hreact ▸ .goesOn htop (.inl hadvance) (.done body) (.refl _) rfl
    | succ times =>
      have hpushed := (Option.some.inj hreact).symm
      rw [goTo_push, goTo_push] at hpushed
      exact hpushed ▸ .goesOn htop (.inl hadvance) (.again times body) (.refl _) rfl

/-- A foreign call comes back by code, whether it succeeded or not. -/
theorem reportCall_foreign (m : Machine) (s : SchedulerId) {reply : Reply}
    (hforeign : Frame.IsForeign (.answering s reply)) (result : Except SchedulerFault Nat) :
    (m.reportCall s reply result).control = .advance ∧
      (m.reportCall s reply result).world.boxes = m.world.boxes := by
  rcases hforeign with rfl | ⟨name, rfl⟩ <;> cases result <;>
    exact ⟨rfl, World.boxes_of_surroundings (World.surroundings_disown ..)⟩

theorem fares_answering (hm : m.Sound byHand) {s : SchedulerId} {reply : Reply}
    (hforeign : Frame.IsForeign (.answering s reply)) (htop : m.top = .answering s reply :: frames)
    (hreact : (m.goTo frames m.world m.control).react? (.answering s reply) = some m') :
    m.Fares m' := by
  cases hcontrol : m.control with
  | answer result =>
    rw [hcontrol] at hreact
    have hheld := hm.kept_of_top htop
    rw [hcontrol] at hheld
    obtain ⟨w, control, heq, -, hshift⟩ :=
      reportCall_eq (m.goTo frames m.world (.answer result)) s reply result
    obtain ⟨hadvance, hboxes⟩ :=
      reportCall_foreign (m.goTo frames m.world (.answer result)) s hforeign result
    rw [heq, goTo_goTo, goTo_top] at hadvance hboxes
    cases hadvance
    have hreport := (Option.some.inj hreact).symm.trans heq
    rw [goTo_goTo, goTo_top] at hreport
    exact hreport ▸ .goesOn htop (.inr ⟨result, hcontrol⟩) (.answered s reply)
      (hheld.noProgress hshift) hboxes
  | _ => simp [react?, hcontrol] at hreact

/-- What is passed comes back as a value or as an error, and the task goes on. -/
theorem fares_awaiting (hm : m.Sound byHand) (h : m.IsForeign) {x : HandleRef}
    (htop : m.top = .awaiting x .foreign :: frames)
    (hreact : (m.goTo frames m.world m.control).react? (.awaiting x .foreign) = some m') :
    m.Fares m' := by
  have hforeign := h.control
  cases hcontrol : m.control with
  | resumed resumption =>
    rw [hcontrol] at hreact hforeign
    have hheld := hm.kept_of_top htop
    rw [hcontrol] at hheld
    obtain ⟨w, control, heq, -, hshift⟩ :=
      concludeAwait_eq (m.goTo frames m.world (.resumed resumption)) x .foreign resumption
    have hafter : (m.goTo frames w control).control = .advance ∧
        (m.goTo frames w control).world.boxes = m.world.boxes := by
      rw [goTo_goTo, goTo_top] at heq
      rw [← heq]
      cases hforeign with
      | pointer | message => exact ⟨rfl, rfl⟩
    obtain ⟨hadvance, hboxes⟩ := hafter
    cases hadvance
    have hconcluded := (Option.some.inj hreact).symm.trans heq
    rw [goTo_goTo, goTo_top] at hconcluded
    exact hconcluded ▸ .concludes htop hcontrol
      ((World.Sound.awaited hheld resumption).noProgress hshift) hboxes
  | _ => simp [react?, hcontrol] at hreact

/-- A step of a foreign program. -/
theorem Sound.fares (hm : m.Sound byHand) (h : m.IsForeign) (hstep : m.step? = some m') :
    m.Fares m' := by
  cases htop : m.top with
  | nil =>
    have hcontrol := h.control
    rw [hm.step?_eq] at hstep
    obtain ⟨world, running, root, control⟩ := m
    cases running with
    | nil => simp [move?, show root = [] from htop] at hstep
    | cons running below =>
      simp only [move?, show running.frames = [] from htop, Option.map_eq_some_iff] at hstep
      obtain ⟨exit, hexit, rfl⟩ := hstep
      cases control with
      | advance => exact Option.some.inj hexit ▸ .leaves rfl htop rfl
      | raise | panicking => exact hcontrol.elim
      | resumed | back | answer => cases hexit
  | cons frame frames =>
    have hframe := h.top frame (htop ▸ List.mem_cons_self ..)
    rw [hm.step?_of_top htop] at hstep
    cases frame with
    | actions todo guards => exact fares_actions hm h htop hstep
    | again times body => exact fares_again h htop hstep
    | answering s reply => exact fares_answering hm hframe htop hstep
    | registering x plan =>
      cases hframe
      cases hcontrol : m.control with
      | advance =>
        rw [hcontrol] at hstep
        exact Option.some.inj hstep ▸ .suspends htop hcontrol
      | raise | panicking => exact (hcontrol ▸ h.control).elim
      | resumed | back | answer => simp [react?, registered, hcontrol] at hstep
    | awaiting x plan =>
      cases hframe
      exact fares_awaiting hm h htop hstep
    | dispatching s =>
      cases hcontrol : m.control with
      | back fiber exit =>
        rw [hcontrol] at hstep
        have hreceived := (Option.some.inj hstep).symm
        rw [goTo_withWorld, goTo_advance, goTo_world] at hreceived
        exact hreceived ▸ .receives htop hcontrol (hm.receives htop hcontrol).2
          (World.boxes_of_surroundings (World.surroundings_receive ..))
      | _ => simp [react?, hcontrol] at hstep
    | draining s ran max =>
      cases hcontrol : m.control with
      | advance =>
        rw [hcontrol] at hstep
        cases Option.some.inj hstep
        exact .drains htop hcontrol (Machine.drains ..)
          (World.boxes_of_surroundings (surroundings_drain ..))
      | _ => simp [react?, hcontrol] at hstep
    | _ => exact hframe.elim

/-! ### Foreign programs stay foreign -/

variable {s : SchedulerId} {fiber : Fiber} {resumption : Resumption}

/-- A task of the foreign side begins or goes on. -/
theorem IsForeign.enter (h : m.IsForeign)
    (hfiber : (fiber.IsForeign ∧ ∃ stack first, fiber.state = .suspended stack first) ∧
      resumption.IsForeign ∨
    (∃ body, fiber.state = .unstarted body ∧ Action.isForeignCode body = true) ∧
    resumption = .unit) :
    (m.enter fiber resumption).IsForeign := by
  have hlevels : ∀ {level : Running}, (∀ frame ∈ level.frames, frame.IsForeign) →
      ∀ running ∈ level :: m.running, ∀ frame ∈ running.frames, frame.IsForeign :=
    fun hlevel => List.forall_mem_cons.2 ⟨hlevel, h.levels⟩
  rcases hfiber with ⟨⟨hframes, stack, first, hstate⟩, hresumption⟩ | ⟨⟨body, hstate, hbody⟩, rfl⟩
  · rw [enter_suspended hstate]
    refine ⟨h.root, hlevels fun frame member => hframes frame ?_, hresumption,
      h.world.of_same rfl rfl⟩
    rwa [Fiber.frames, hstate]
  · rw [enter_unstarted hstate]
    refine ⟨h.root, hlevels fun frame member => ?_, trivial, h.world.of_same rfl rfl⟩
    exact List.mem_singleton.1 member ▸ hbody

/-- A handle is delivered to. -/
theorem IsForeign.delivers {x : HandleRef} {cell : HandleCell} (h : m.IsForeign)
    (hrests : ∀ fiber, cell.slot = .parked fiber (.scheduler s) → fiber.Rests (some s))
    (hresumption : resumption.IsForeign) (hcell : m.world.handles.get? x = some cell)
    (hdelivers : Delivers m s x cell resumption m') : m'.IsForeign := by
  have hlaid : ∀ slot : Slot Fiber Owner Resumption, slot.IsForeign → ∀ told,
      (((m.world.setSlot x slot).mark told).release [.handle x]).IsForeign := fun slot hslot told =>
    ((h.world.setSlot hcell slot hslot).mark told).release _
  have hparked : ∀ {fiber owner}, cell.slot = .parked fiber owner →
      fiber.IsForeign := fun hslot => by
    have := h.world.slots x cell hcell
    rwa [hslot] at this
  cases hdelivers with
  | stored event hslot hquiet =>
    exact h.goTo h.top trivial ((hlaid (.woken resumption) hresumption _).tell event)
  | refused fault event hslot hother hquiet =>
    exact h.goTo h.top trivial ((h.world.release _).tell event)
  | queued fiber event hslot hcurrent hquiet =>
    exact h.goTo h.top trivial
      (((hlaid .spent trivial _).tell event).append s _ ⟨hparked hslot, hresumption⟩)
  | dispatched fiber event hslot hcurrent hquiet =>
    refine IsForeign.enter (h.goTo ?_ h.control (((hlaid .spent trivial _).tell event).mark _))
      (.inl ⟨⟨hparked hslot, suspended_of_rests (hrests fiber hslot)⟩, hresumption⟩)
    exact List.forall_mem_cons.2 ⟨trivial, List.forall_mem_cons.2 ⟨trivial, h.top⟩⟩

/-- A scheduler takes a task back. -/
theorem IsForeign.receives {exit : Exit} (h : m.IsForeign) (hm : m.Sound byHand)
    (hheedful : m.Heedful) (hcontrol : m.control = .back fiber exit)
    (hreceives : m.world.Receives s fiber exit w) : w.IsForeign := by
  have hfiber : fiber.IsForeign := by
    have := h.control
    rw [hcontrol] at this
    exact this.1
  cases hreceives with
  | ended hexit hreckons =>
    exact h.world.noArrivals (hreckons.noArrivals (hm.kept_of_back hcontrol))
  | @parked x cell w₁ w₂ hcell hbefore hsame hparks =>
    have hkept := h.world.noArrivals (hbefore.noArrivals hm.kept)
    cases hparks with
    | absorbed hslot u hu =>
      have hu' : u.IsForeign ∧ u.handles.get? x = some cell := by
        rcases hu with rfl | rfl <;> exact ⟨hkept.of_same rfl rfl, hsame ▸ hcell⟩
      exact (hu'.1.setSlot hu'.2 (.parked fiber (.scheduler s)) hfiber).release _
  | @handedBack x cell r w₁ w₂ hcell hbefore hsame hparks =>
    have hkept := h.world.noArrivals (hbefore.noArrivals hm.kept)
    have hcell₁ : w₁.handles.get? x = some cell := hsame ▸ hcell
    cases hparks with
    | met _ hslot =>
      have hmet := hkept.slots x cell hcell₁
      rw [hslot] at hmet
      exact ((hkept.setSlot hcell₁ .spent trivial).release _).append s (.woken fiber r)
        ⟨hfiber, hmet⟩
    | refused hslot =>
      -- no task suspends on a handle that was used
      obtain ⟨other, hother, hopen⟩ := (hheedful.back fiber x hcontrol).2
      cases hcell.symm.trans hother
      rcases hslot with hslot | ⟨_, _, hslot⟩ <;> rcases hopen with hopen | ⟨_, hopen⟩ <;>
        exact nomatch hslot.symm.trans hopen

/-- A run loop takes its next turn. -/
theorem IsForeign.drains {ran : Nat} {max : Option Nat} (h : m.IsForeign) (hm : m.Sound byHand)
    (htop : m.top = .draining s ran max :: frames)
    (hdrains : Drains (m.goTo frames m.world .advance) s ran max m') :
    m'.IsForeign := by
  have hkept := hm.kept_of_top htop
  have hframes : ∀ frame ∈ frames, frame.IsForeign :=
    fun frame member => h.top frame (htop ▸ List.mem_cons_of_mem _ member)
  have hdraining : ∀ frame ∈ .draining s (ran + 1) max :: frames, frame.IsForeign :=
    List.forall_mem_cons.2 ⟨trivial, hframes⟩
  have hadvance : Control.IsForeign .advance := trivial
  have hdispatching : ∀ frame ∈ .dispatching s :: .draining s (ran + 1) max :: frames,
      frame.IsForeign :=
    List.forall_mem_cons.2 ⟨trivial, hdraining⟩
  cases hdrains with
  | stops hstops =>
    rw [goTo_goTo, goTo_top]
    exact h.goTo hframes trivial h.world
  | fails hmore hnext hbefore hafter =>
    have hbegun := ((hkept.next hnext).drift_gain hbefore).noArrivals
    have hfailed := hafter.noArrivals (World.Sound.unstarted ((hkept.next hnext).gain hbefore))
    rw [goTo_goTo, goTo_top]
    exact h.goTo hdraining trivial
      ((((h.world.next hnext).1.noArrivals hbegun).mark _).noArrivals hfailed)
  | @starts id body fiber w w₁ hmore hnext hbefore hid hhome hstate =>
    have hbegun := ((hkept.next hnext).drift_gain hbefore).noArrivals
    obtain ⟨hworld, hentry⟩ := h.world.next hnext
    rw [goTo_goTo, goTo_top]
    exact (h.goTo hdispatching hadvance (hworld.noArrivals hbegun)).enter
      (.inr ⟨⟨body, hstate, hentry⟩, rfl⟩)
  | @wakes fiber resumption w hmore hnext =>
    obtain ⟨hworld, hentry⟩ := h.world.next hnext
    obtain ⟨queue, hqueue, -⟩ := World.next?_eq hnext
    rw [goTo_goTo, goTo_top]
    refine (h.goTo hdispatching hadvance hworld).enter (.inl ⟨⟨hentry.1, ?_⟩, hentry.2⟩)
    exact suspended_of_rests
      (hm.kept.orderly.queued s fiber resumption (hqueue ▸ List.mem_cons_self ..))

theorem Fares.isForeign (h : m.Fares m') (hm : m.Sound False) (hheedful : m.Heedful)
    (hforeign : m.IsForeign) : m'.IsForeign := by
  have htail : ∀ {frame : Frame} {frames : List Frame}, m.top = frame :: frames →
      ∀ other ∈ frames, other.IsForeign :=
    fun htop other member => hforeign.top other (htop ▸ List.mem_cons_of_mem _ member)
  have hhead : ∀ {frame : Frame} {frames : List Frame}, m.top = frame :: frames → frame.IsForeign :=
    fun htop => hforeign.top _ (htop ▸ List.mem_cons_self ..)
  have hrest : ∀ {action : Action} {todo : List Action} {guards : List Datum} {frames : List Frame},
      m.top = .actions (action :: todo) guards :: frames →
        action.core.IsForeign ∧ ∀ other ∈ .actions todo guards :: frames,
          other.IsForeign := fun {action _ _ _} htop => by
    obtain ⟨haction, htodo⟩ := Bool.and_eq_true_iff.1 (hhead htop)
    exact ⟨(Action.isForeign_core action).trans haction, List.forall_mem_cons.2 ⟨htodo, htail htop⟩⟩
  cases h with
  | goesOn htop hcontrol hleft hnoProgress hboxes =>
    refine hforeign.goTo (fun other member => ?_) trivial
      (hforeign.world.noArrivals hnoProgress.toNoArrivals)
    exact (List.mem_append.1 member).elim (hleft.isForeign (hhead htop) other) (htail htop other)
  | enqueues shown htop hcontrol haction hs =>
    obtain ⟨hfirst, hframes⟩ := hrest htop
    rw [haction] at hfirst
    exact hforeign.goTo hframes trivial ((hforeign.world.enqueue hfirst hs).of_same rfl rfl)
  | @asks action todo guards frames w s max htop hcontrol hnoProgress hboxes =>
    have hframes : ∀ other ∈ .answering s .foreignRun :: .actions todo guards :: frames,
        other.IsForeign :=
      List.forall_mem_cons.2 ⟨.inl rfl, (hrest htop).2⟩
    rw [run]
    split
    · rw [goTo_withControl]
      exact hforeign.goTo hframes trivial (hforeign.world.noArrivals hnoProgress.toNoArrivals)
    · rw [goTo_push, goTo_advance]
      exact hforeign.goTo (List.forall_mem_cons.2 ⟨trivial, hframes⟩) trivial
        (hforeign.world.noArrivals hnoProgress.toNoArrivals)
  | @passes action todo guards frames w s x cell resumption _ name htop hcontrol hpasses hnoProgress
    hboxes hcell hclones hs hdelivers =>
    have hframes : ∀ other ∈ .answering s (.foreignResume name) :: .actions todo guards :: frames,
        other.IsForeign :=
      List.forall_mem_cons.2 ⟨.inr ⟨name, rfl⟩, (hrest htop).2⟩
    have hadvance : Control.IsForeign .advance := trivial
    exact (hforeign.goTo hframes hadvance
      (hforeign.world.noArrivals hnoProgress.toNoArrivals)).delivers
      (fun _ => hm.kept.orderly.rests_of_noArrivals hnoProgress.toNoArrivals hcell)
      hpasses.isForeign.1
      hcell hdelivers
  | @opens action todo register guards frames slot x w htop hcontrol haction hinside
    hopens hboxes =>
    obtain ⟨hfirst, hframes⟩ := hrest htop
    rw [haction] at hfirst
    refine hforeign.goTo ?_ trivial (hforeign.world.opens hopens)
    exact List.forall_mem_cons.2 ⟨hfirst, List.forall_mem_cons.2 ⟨rfl, hframes⟩⟩
  | @suspends x frames htop hcontrol =>
    obtain ⟨running, below, hrunning⟩ := hm.inside_of_registering htop (hcontrol ▸ trivial)
    rw [suspendAwait_eq hrunning]
    refine ⟨hforeign.root, fun other member => hforeign.levels other
      (hrunning ▸ List.mem_cons_of_mem _ member), ⟨?_, ?_⟩, hforeign.world.of_same rfl rfl⟩
    · exact List.forall_mem_cons.2 ⟨rfl, htail htop⟩
    · refine fun _ _ => ⟨?_, ?_⟩ <;> rintro ⟨⟩
  | concludes htop hcontrol hnoProgress hboxes =>
    exact hforeign.goTo (htail htop) trivial
      ((hforeign.world.mark _).noArrivals hnoProgress.toNoArrivals)
  | receives htop hcontrol hreceives hboxes =>
    exact hforeign.goTo (htail htop) trivial (hforeign.receives hm hheedful hcontrol hreceives)
  | drains htop hcontrol hdrains hboxes => exact hforeign.drains hm htop hdrains
  | @leaves running below hrunning htop hcontrol =>
    refine ⟨hforeign.root, fun other member => hforeign.levels other
      (hrunning ▸ List.mem_cons_of_mem _ member), ⟨?_, ?_⟩, ?_⟩
    · rintro _ ⟨⟩
    · refine fun _ _ => ⟨?_, ?_⟩ <;> rintro ⟨⟩
    · rw [leave]
      have hleft : (m.world.restore running.current running.outer).IsForeign :=
        hforeign.world.of_same rfl rfl
      exact (hleft.release _).mark _

/-! ### Sessions -/

variable {allowed allowed' : Action → Prop}

theorem Visits.public_of_foreign {start : World} (h : Visits Action.IsForeign start m) :
    Visits Action.IsPublic start m := h.mono fun _ => Action.IsForeign.isPublic

theorem Between.isForeign (hbetween : m.Between w) (h : m.world.IsForeign) : w.IsForeign :=
  h.noArrivals hbetween.noArrivals

/-- A root action that goes on is foreign itself. -/
theorem isForeign_of_begin {action : Action} (hworld : w.IsForeign)
    (hallowed : ∀ next, (Script.begin w action).nextAction? = some next → next.core.IsForeign) :
    (Script.begin w action).IsForeign := by
  have haction : action.IsForeign := (Action.isForeign_core action).symm.trans (hallowed action rfl)
  refine ⟨fun frame member => ?_, List.forall_mem_nil _, trivial, hworld⟩
  rw [List.mem_singleton.1 member]
  exact Bool.and_eq_true_iff.2 ⟨haction, rfl⟩

/-- What a foreign session has is foreign, but for root actions that are not performed. -/
theorem Visits.foreign (h : Visits Action.IsForeign script.start m) :
    m.world.IsForeign ∧ (m.IsForeign ∨ ∃ action, m = Script.begin m.world action) := by
  obtain ⟨action, hleads⟩ := h
  have hbefore : Visits Action.IsForeign script.start (Script.begin script.start action) :=
    ⟨action, .refl⟩
  induction hleads with
  | refl =>
    refine ⟨⟨fun s entry member => ?_, fun x cell hcell => ?_⟩, .inr ⟨action, rfl⟩⟩
    · change entry ∈ script.start.queue s at member
      rw [World.queue_start] at member
      cases member
    · change script.start.handles.get? x = some cell at hcell
      rw [World.handles_start] at hcell
      cases hcell
  | @steps a b hleads hstep hallowed ih =>
    have ha := (hbefore.leads hleads).public_of_foreign
    have hforeign : a.IsForeign := ih.2.elim id fun ⟨first, heq⟩ => by
      rw [heq] at hallowed ⊢
      exact isForeign_of_begin ih.1 hallowed
    have hb := (ha.public.fares hforeign hstep).isForeign ha.public ha.faithful.toHeedful hforeign
    exact ⟨hb.world, .inl hb⟩
  | @stirs a w hleads hstirs ih =>
    have hworld : w.IsForeign := by
      rw [hstirs.rest]
      exact ih.1.of_same rfl rfl
    refine ⟨hworld, ih.2.imp (fun hforeign => ⟨hforeign.1, hforeign.2, hforeign.3, hworld⟩)
      fun ⟨first, heq⟩ => ⟨first, ?_⟩⟩
    rw [heq]
    rfl
  | goesOn hleads hdone next ih => exact ⟨Between.isForeign .shows ih.1, .inr ⟨next, rfl⟩⟩
  | closes hleads hdone ih =>
    have hworld := Between.isForeign .closes ih.1
    exact ⟨hworld, .inl ⟨List.forall_mem_nil _, List.forall_mem_nil _, trivial, hworld⟩⟩

theorem Visits.isForeign (h : Visits Action.IsForeign script.start m)
    (hallowed : ∀ action, m.nextAction? = some action → action.core.IsForeign) : m.IsForeign := by
  obtain ⟨hworld, hforeign | ⟨action, heq⟩⟩ := h.foreign
  · exact hforeign
  · rw [heq] at hallowed ⊢
    exact isForeign_of_begin hworld hallowed

end Machine

end Fibers
