import Fibers.Proofs.ForeignPrograms

/-!
Foreign programs come to an end. Every action stands for a bounded amount of labor, which
code takes along into frames, queues and handles, and each step uses some of it up. So a
root action is over at some point, and a call that is not stuck comes back.
-/

namespace Fibers

/-- An item for each new one, of at least its weight. -/
theorem weigh_le_of_getElem? {α : Type} {f : α → Nat} {old new : List α}
    (h : ∀ (i : Nat) b, new[i]? = some b → ∃ a, old[i]? = some a ∧ f b ≤ f a) :
    weigh f new ≤ weigh f old := by
  induction new generalizing old with
  | nil => exact Nat.zero_le _
  | cons b new ih =>
    obtain ⟨a, ha, hle⟩ := h 0 b rfl
    cases old with
    | nil => cases ha
    | cons first old =>
      cases ha
      exact Nat.add_le_add hle (ih fun i c hc => h (i + 1) c hc)

mutual

/-- How many steps an action can bring about, all that it enqueues or registers included,
and what is done for it until the await comes back that it makes. -/
def Action.labor : Action → Nat
  | .enqueue _ body => 5 + codeLabor body
  | .again times body => 4 + times * (2 + codeLabor body)
  | .scope body _ => 4 + codeLabor body
  | .sleep .. | .call .. | .blocking .. | .awaitAll .. => 10
  | .foreignAwait _ register => 6 + codeLabor register
  | .foreign _ action => action.labor
  | _ => 4

def Action.codeLabor : List Action → Nat
  | [] => 0
  | action :: rest => action.labor + codeLabor rest

end

theorem Action.labor_core : (action : Action) → action.core.labor = action.labor
  | .foreign _ action => by rw [core, labor, labor_core action]
  | .log _ | .guard _ | .enqueue .. | .enqueueNamed .. | .run .. | .await .. | .resume ..
  | .handle _ | .clone ..
  | .drop _ | .state | .dropScheduler _ | .fail _ | .panic _ | .again .. | .countdown .. | .scope ..
  | .suspend ..
  | .newHandle .. | .park .. | .wake .. | .newCoroutine .. | .transfer .. | .coroutineInfo _
  | .takeStack _
  | .dropCoroutine _ | .newDriver _ | .drive _ | .driverState _ | .inFlight _ | .sleep .. | .call ..
  | .blocking .. | .awaitAll .. | .signal .. | .unknown _ | .foreignRun .. | .pending _
  | .foreignAwait ..
  | .foreignResume .. | .foreignError .. | .directResume .. | .handleText _ | .destroyHandle ..
  | .destroyScheduler _ | .lastError => rfl

theorem Action.four_le_labor (action : Action) : 4 ≤ action.labor := by
  cases action
  case foreign position action => exact four_le_labor action
  all_goals first
    | exact Nat.le_refl 4
    | exact Nat.le_add_right_of_le (by decide)
    | exact (by decide : 4 ≤ 10)

/-- A frame is left in one step more than what it brings about. -/
def Frame.labor : Frame → Nat
  | .actions todo _ => 1 + Action.codeLabor todo
  | .again times body => 1 + times * (2 + Action.codeLabor body)
  | .registering .. => 4
  | _ => 1

/-- What a fiber does once it is resumed. -/
def Fiber.labor (fiber : Fiber) : Nat :=
  match fiber.state with
  | .unstarted body => 1 + Action.codeLabor body
  | .suspended frames _ => weigh Frame.labor frames
  | .finished => 0

/-- A fiber is entered, dispatched and left. -/
def Runnable.labor : Runnable → Nat
  | .fresh _ body => 4 + Action.codeLabor body
  | .woken fiber _ => 3 + fiber.labor

def Slot.labor : Slot Fiber Owner Resumption → Nat
  | .parked fiber _ => 3 + fiber.labor
  | .pending | .woken _ | .spent => 0

def Control.labor : Control → Nat
  | .back fiber (.suspended _) => 3 + fiber.labor
  | _ => 0

def Running.labor (running : Running) : Nat := 1 + weigh Frame.labor running.frames

def Scheduler.labor (scheduler : Scheduler) : Nat := weigh Runnable.labor scheduler.queue

/-- What queues and handles keep for later. -/
def World.labor (w : World) : Nat :=
  weigh (fun cell => cell.slot.labor) w.handles.cells + weigh Scheduler.labor w.schedulers

def Machine.labor (m : Machine) : Nat :=
  m.world.labor + m.control.labor + weigh Running.labor m.running + weigh Frame.labor m.root

theorem Frame.LeavesBehind.labor_lt {frame : Frame} {pushed : List Frame}
    (h : frame.LeavesBehind pushed) : weigh Frame.labor pushed < frame.labor := by
  cases h with
  | finished => rw [Frame.labor, weigh_nil]; omega
  | acts action todo guards =>
    have := action.four_le_labor
    simp only [weigh_cons, weigh_nil, Frame.labor, Action.codeLabor]
    omega
  | @repeats action times body haction todo guards =>
    have hlabor : action.labor = 4 + times * (2 + Action.codeLabor body) := by
      rw [← Action.labor_core, haction, Action.labor]
    simp only [weigh_cons, weigh_nil, Frame.labor, Action.codeLabor]
    omega
  | done body => rw [Frame.labor, weigh_nil]; omega
  | again times body =>
    simp only [weigh_cons, weigh_nil, Frame.labor, Nat.succ_mul]
    omega
  | answered s reply => exact Nat.zero_lt_one

namespace World

variable {w w' : World} {x : HandleRef} {cell : HandleCell} {s : SchedulerId} {entry : Runnable}

@[simp]
theorem labor_mark (w : World) (told : Mark) : (w.mark told).labor = w.labor := rfl

@[simp]
theorem labor_tell (w : World) (event : Event) : (w.tell event).labor = w.labor := rfl

@[simp]
theorem labor_emit (w : World) (name : String) (payload : Datum) :
    (w.emit name payload).labor = w.labor := rfl

/-- What goes takes its labor along. -/
theorem NoArrivals.labor_le (h : w.NoArrivals w') : w'.labor ≤ w.labor := by
  refine Nat.add_le_add (weigh_le_of_getElem? fun i cell hcell => ?_)
    (weigh_le_of_getElem? fun i scheduler hscheduler => ?_)
  · have hsameOrGone := h.cells ⟨i⟩
    rw [show w'.handles.get? ⟨i⟩ = some cell from hcell] at hsameOrGone
    generalize hold : w.handles.get? ⟨i⟩ = old at hsameOrGone
    cases hsameOrGone with
    | kept => exact ⟨_, hold, by simp [*]⟩
    | emptied => exact ⟨_, hold, by simp [*, Slot.labor]⟩
  · have hsameOrGone := h.schedulers ⟨i⟩
    rw [show w'.scheduler? ⟨i⟩ = some scheduler from hscheduler] at hsameOrGone
    generalize hold : w.scheduler? ⟨i⟩ = old at hsameOrGone
    cases hsameOrGone with
    | kept queue => exact ⟨_, hold, by simp [Scheduler.labor, queue]⟩
    | closed queue => exact ⟨_, hold, by rw [Scheduler.labor, queue]; exact Nat.zero_le _⟩

theorem labor_setSlot (hcell : w.handles.get? x = some cell) (slot : Slot Fiber Owner Resumption) :
    (w.setSlot x slot).labor + cell.slot.labor = w.labor + slot.labor := by
  have hset := weigh_set (fun cell => cell.slot.labor) { cell with slot } hcell
  dsimp only at hset
  rw [labor, labor, setSlot, HandleTable.setSlot, hcell]
  simp only [HandleTable.put]
  omega

theorem labor_updateScheduler {scheduler : Scheduler} (hs : w.scheduler? s = some scheduler)
    (g : Scheduler → Scheduler) :
    (w.updateScheduler s g).labor + scheduler.labor = w.labor + (g scheduler).labor := by
  have hmodify := weigh_modify Scheduler.labor g hs
  simp only [labor, updateScheduler]
  omega

theorem labor_append_le (w : World) (s : SchedulerId) (entry : Runnable) :
    (w.append s entry).labor ≤ w.labor + entry.labor := by
  rw [append, labor_mark]
  cases hs : w.scheduler? s with
  | none =>
    rw [labor, updateScheduler, List.modify_eq_self (List.getElem?_eq_none_iff.1 hs)]
    exact Nat.le_add_right ..
  | some scheduler =>
    have hupdate := labor_updateScheduler hs fun scheduler => scheduler.append entry
    have happended : (scheduler.append entry).labor = scheduler.labor + entry.labor := by
      simp [Scheduler.labor, Scheduler.append]
    omega

theorem labor_enqueue {scheduler : Scheduler} (hs : w.scheduler? s = some scheduler)
    (body : List Action) : (w.enqueue s body).2.labor = w.labor + (4 + Action.codeLabor body) := by
  have hupdate := labor_updateScheduler hs fun _ => (scheduler.enqueue body).2
  have henqueued : (scheduler.enqueue body).2.labor =
      scheduler.labor + (4 + Action.codeLabor body) := by
    simp [Scheduler.labor, Scheduler.enqueue, Scheduler.append, Runnable.labor]
  simp only [enqueue, hs, labor_tell, labor_mark]
  omega

theorem labor_next (h : w.next? s = some (entry, w')) : w'.labor + entry.labor = w.labor := by
  obtain ⟨queue, hqueue, rfl⟩ := next?_eq h
  rw [queue_eq] at hqueue
  cases hs : w.scheduler? s with
  | none =>
    rw [hs] at hqueue
    cases hqueue
  | some scheduler =>
    rw [hs] at hqueue
    have hupdate := labor_updateScheduler hs fun scheduler => { scheduler with queue }
    simp only [Scheduler.labor, show scheduler.queue = entry :: queue from hqueue, weigh_cons]
      at hupdate
    rw [labor_mark]
    omega

theorem Opens.labor_le {plan : AwaitPlan} (h : w.Opens x plan w') : w'.labor ≤ w.labor := by
  obtain ⟨current, clones, hbefore, -, hafter⟩ := h
  rename_i u
  have hmade : (Machine.openAwait u current plan clones).2.labor = u.labor := by
    simp [Machine.openAwait, makeHandle, labor, mark, HandleTable.make, Slot.labor]
  exact Nat.le_trans hafter.toNoArrivals.labor_le (hmade ▸ hbefore.toNoArrivals.labor_le)

end World

namespace Machine

variable {byHand : Prop} {m m' : Machine} {frames : List Frame} {s : SchedulerId} {x : HandleRef}
  {cell : HandleCell} {resumption : Resumption} {fiber : Fiber} {script : Script}

/-- What a step changes on the innermost level, in the world and in control. -/
theorem exists_labor_goTo (m : Machine) : ∃ beneath, ∀ frames w control,
    (m.goTo frames w control).labor = w.labor + control.labor + weigh Frame.labor
    frames + beneath := by
  obtain ⟨world, running, root, told⟩ := m
  cases running with
  | nil =>
    refine ⟨0, fun frames w control => ?_⟩
    simp only [labor, goTo, withTop, weigh_nil]
    omega
  | cons running below =>
    refine ⟨1 + weigh Running.labor below + weigh Frame.labor root, fun frames w control => ?_⟩
    simp only [labor, goTo, withTop, weigh_cons, Running.labor]
    omega

/-- A fiber is entered that begins or goes on. -/
theorem labor_enter (resumption : Resumption)
    (hfiber : (∃ stack first, fiber.state = .suspended stack first) ∨
      ∃ body, fiber.state = .unstarted body ∧ resumption = .unit) (m : Machine) :
    (m.enter fiber resumption).labor + m.control.labor = m.labor + (1 + fiber.labor) := by
  rcases hfiber with ⟨stack, first, hstate⟩ | ⟨body, hstate, rfl⟩
  · rw [enter_suspended hstate]
    simp only [occupy, labor, World.labor, weigh_cons, Running.labor, Control.labor,
      Fiber.labor, hstate]
    omega
  · rw [enter_unstarted hstate]
    simp only [occupy, labor, World.labor, weigh_cons, weigh_nil, Running.labor, Control.labor,
      Frame.labor, Fiber.labor, hstate]
    omega

/-- A delivery moves what is parked to where it is entered. -/
theorem Delivers.labor_le (h : Delivers m s x cell resumption m') (hcontrol : m.control = .advance)
    (hcell : m.world.handles.get? x = some cell)
    (hrests : ∀ fiber, cell.slot = .parked fiber (.scheduler s) → fiber.Rests (some s)) :
    m'.labor ≤ m.labor := by
  obtain ⟨beneath, hgo⟩ := m.exists_labor_goTo
  have hbefore := hgo m.top m.world m.control
  rw [goTo_self, hcontrol] at hbefore
  have hlaid : ∀ (slot : Slot Fiber Owner Resumption) (told : Mark) (event : Event),
      (((((m.world.setSlot x slot).mark told).release [.handle x]).tell event).labor +
        cell.slot.labor ≤ m.world.labor + slot.labor) := fun slot told event => by
    have hset := World.labor_setSlot hcell slot
    have hreleased :=
      (World.noArrivals_release ((m.world.setSlot x slot).mark told) [.handle x]).labor_le
    rw [World.labor_mark] at hreleased
    rw [World.labor_tell]
    omega
  cases h with
  | stored event hslot hquiet =>
    have := hlaid (.woken resumption) (.accepted x resumption) event
    rw [hgo]
    simp only [Control.labor, Slot.labor] at this hbefore ⊢
    omega
  | queued fiber event hslot hcurrent hquiet =>
    have hworld := hlaid .spent (.accepted x resumption) event
    have happend :=
      World.labor_append_le ((((m.world.setSlot x .spent).mark (.accepted x resumption)).release
      [.handle x]).tell event) s (.woken fiber resumption)
    rw [hgo]
    simp only [hslot, Control.labor, Slot.labor, Runnable.labor] at happend hworld hbefore ⊢
    omega
  | dispatched fiber event hslot hcurrent hquiet =>
    have hworld := hlaid .spent (.accepted x resumption) event
    have henter := labor_enter resumption (.inl (suspended_of_rests (hrests fiber hslot)))
      (m.goTo (.dispatching s :: .draining s 0 none :: m.top) (((((m.world.setSlot x .spent).mark
        (.accepted x resumption)).release [.handle x]).tell event).mark
        (.dispatched s (.woken fiber resumption))) m.control)
    rw [hgo, goTo_control, hcontrol, World.labor_mark] at henter
    simp only [hslot, Control.labor, Slot.labor, weigh_cons, Frame.labor] at henter hworld hbefore ⊢
    rw [hcontrol]
    omega
  | refused fault event hslot hother hquiet =>
    have := (World.noArrivals_release m.world (resumption.debris ++ [.handle x])).labor_le
    rw [hgo, World.labor_tell]
    simp only [Control.labor] at hbefore ⊢
    omega

/-- A scheduler parks the fiber that comes back, or queues it, or it is over. -/
theorem labor_receives {w : World} {exit : Exit} (hm : m.Sound byHand)
    (hcontrol : m.control = .back fiber exit) (h : m.world.Receives s fiber exit w) :
    w.labor ≤ m.world.labor + m.control.labor := by
  rw [hcontrol]
  cases h with
  | ended hexit hreckons =>
    exact Nat.le_add_right_of_le (hreckons.noArrivals (hm.kept_of_back hcontrol)).labor_le
  | @parked x cell w₁ w₂ hcell hbefore hsame hparks =>
    have hkept := (hbefore.noArrivals hm.kept).labor_le
    cases hparks with
    | absorbed hslot u hu =>
      have hset : (u.setSlot x (.parked fiber (.scheduler s))).labor + cell.slot.labor =
          u.labor + (3 + fiber.labor) :=
            World.labor_setSlot (by rcases hu with rfl | rfl <;> exact hsame ▸ hcell) _
      have hreleased :=
        (World.noArrivals_release (u.setSlot x (.parked fiber (.scheduler s))) [.handle x]).labor_le
      have hu : u.labor = w₁.labor := by rcases hu with rfl | rfl <;> rfl
      rw [Control.labor]
      omega
  | @handedBack x cell r w₁ w₂ hcell hbefore hsame hparks =>
    have hkept := (hbefore.noArrivals hm.kept).labor_le
    have happend := w₂.labor_append_le s (.woken fiber r)
    rw [Runnable.labor] at happend
    rw [Control.labor]
    suffices w₂.labor ≤ w₁.labor by omega
    cases hparks with
    | met _ hslot =>
      have hset : (w₁.setSlot x .spent).labor + cell.slot.labor = w₁.labor + 0 :=
        World.labor_setSlot (hsame ▸ hcell) .spent
      have hreleased := (World.noArrivals_release (w₁.setSlot x .spent) [.handle x]).labor_le
      omega
    | refused hslot => exact (World.noArrivals_release _ [.handle x]).labor_le

/-- A turn of a run loop moves an entry from the queue to where it is entered. -/
theorem Drains.labor_le {ran : Nat} {max : Option Nat} (hm : m.Sound byHand)
    (htop : m.top = .draining s ran max :: frames)
    (h : Drains (m.goTo frames m.world .advance) s ran max m') :
    m'.labor < (m.goTo (.draining s ran max :: frames) m.world .advance).labor := by
  have hkept := hm.kept_of_top htop
  obtain ⟨beneath, hgo⟩ := m.exists_labor_goTo
  cases h with
  | stops hstops =>
    rw [goTo_goTo, goTo_top, hgo, hgo]
    simp only [Control.labor, weigh_cons, Frame.labor, goTo_world]
    omega
  | @fails id body w w₁ w₂ hmore hnext hbefore hafter =>
    have htaken := World.labor_next hnext
    have hbegun := ((hkept.next hnext).drift_gain hbefore).noArrivals.labor_le
    have hfailed :=
      (hafter.noArrivals (World.Sound.unstarted ((hkept.next hnext).gain hbefore))).labor_le
    rw [goTo_goTo, goTo_top, hgo, hgo]
    simp only [goTo_world, World.labor_mark, Runnable.labor, Control.labor, weigh_cons, Frame.labor]
      at *
    omega
  | @starts id body fiber w w₁ hmore hnext hbefore hid hhome hstate =>
    have htaken := World.labor_next hnext
    have hbegun := ((hkept.next hnext).drift_gain hbefore).noArrivals.labor_le
    have henter := labor_enter .unit (.inr ⟨body, hstate, rfl⟩)
      (m.goTo (.dispatching s :: .draining s (ran + 1) max :: frames) w₁ .advance)
    have hfiber : fiber.labor = 1 + Action.codeLabor body := by rw [Fiber.labor, hstate]
    rw [goTo_goTo, goTo_top, hgo]
    rw [hgo] at henter
    simp only [goTo_world, goTo_control, Runnable.labor, Control.labor, weigh_cons, Frame.labor]
      at *
    omega
  | @wakes fiber resumption w hmore hnext =>
    have htaken := World.labor_next hnext
    obtain ⟨queue, hqueue, -⟩ := World.next?_eq hnext
    have hrests := hm.kept.orderly.queued s fiber resumption (hqueue ▸ List.mem_cons_self ..)
    have henter := labor_enter resumption (.inl (suspended_of_rests hrests))
      (m.goTo (.dispatching s :: .draining s (ran + 1) max :: frames) w .advance)
    rw [goTo_goTo, goTo_top, hgo]
    rw [hgo] at henter
    simp only [goTo_world, goTo_control, Runnable.labor, Control.labor, weigh_cons, Frame.labor]
      at *
    omega

/-- Each step of a foreign program uses up labor. -/
theorem Fares.labor_lt (h : m.Fares m') (hm : m.Sound False) : m'.labor < m.labor := by
  obtain ⟨beneath, hgo⟩ := m.exists_labor_goTo
  have hbefore := hgo m.top m.world m.control
  rw [goTo_self] at hbefore
  cases h with
  | goesOn htop hcontrol hleft hnoProgress hboxes =>
    have hworld := hnoProgress.toNoArrivals.labor_le
    have hframe := hleft.labor_lt
    rw [hbefore, htop, hgo, weigh_append, weigh_cons, show Control.labor .advance = 0 from rfl]
    omega
  | @enqueues action todo guards frames position body s scheduler shown htop hcontrol haction hs =>
    have hlabor : action.labor = 5 + Action.codeLabor body := by
      rw [← Action.labor_core, haction, Action.labor]
    have henqueued := World.labor_enqueue hs body
    rw [hbefore, htop, hgo, World.labor_emit]
    simp only [weigh_cons, Frame.labor, Action.codeLabor, Control.labor]
    omega
  | @asks action todo guards frames w s max htop hcontrol hnoProgress hboxes =>
    have hworld := hnoProgress.toNoArrivals.labor_le
    have hlabor := action.four_le_labor
    rw [hbefore, htop, run]
    split
    · rw [goTo_withControl, hgo]
      simp only [weigh_cons, Frame.labor, Action.codeLabor, Control.labor]
      omega
    · rw [goTo_push, goTo_advance, hgo]
      simp only [weigh_cons, Frame.labor, Action.codeLabor, Control.labor]
      omega
  | @passes action todo guards frames w s x cell resumption _ name htop hcontrol hpasses hnoProgress
      hboxes hcell hclones hs hdelivers =>
    have hworld := hnoProgress.toNoArrivals.labor_le
    have hlabor := action.four_le_labor
    have hdelivered := hdelivers.labor_le rfl hcell fun _ =>
      hm.kept.orderly.rests_of_noArrivals hnoProgress.toNoArrivals hcell
    rw [hgo] at hdelivered
    rw [hbefore, htop]
    simp only [weigh_cons, Frame.labor, Action.codeLabor, Control.labor] at *
    omega
  | @opens action todo register guards frames slot x w htop hcontrol haction hinside
    hopens hboxes =>
    have hlabor : action.labor = 6 + Action.codeLabor register := by
      rw [← Action.labor_core, haction, Action.labor]
    have hworld := hopens.labor_le
    rw [hbefore, htop, hgo]
    simp only [weigh_cons, Frame.labor, Action.codeLabor, Control.labor]
    omega
  | @suspends x frames htop hcontrol =>
    obtain ⟨running, below, hrunning⟩ := hm.inside_of_registering htop (hcontrol ▸ trivial)
    have hframes : running.frames = .registering x .foreign :: frames := by
      rwa [top, hrunning] at htop
    rw [suspendAwait_eq hrunning]
    simp only [labor, World.labor, hrunning, weigh_cons, Running.labor, Control.labor, Fiber.labor,
      Running.leave, hframes, Frame.labor]
    omega
  | concludes htop hcontrol hnoProgress hboxes =>
    have hworld := hnoProgress.toNoArrivals.labor_le
    rw [World.labor_mark] at hworld
    rw [hbefore, htop, hgo, hcontrol, weigh_cons]
    simp only [Control.labor, Frame.labor]
    omega
  | receives htop hcontrol hreceives hboxes =>
    have hworld := labor_receives hm hcontrol hreceives
    rw [hbefore, htop, hgo, weigh_cons]
    simp only [Control.labor, Frame.labor] at *
    omega
  | @drains s ran max frames m' htop hcontrol hdrains hboxes =>
    have hdrained := hdrains.labor_le hm htop
    rwa [← htop, ← hcontrol, goTo_self] at hdrained
  | @leaves running below hrunning htop hcontrol =>
    have hworld : (m.leave running below .completed).world.labor ≤ m.world.labor := by
      rw [leave, World.labor_mark]
      exact (World.noArrivals_release (m.world.restore running.current running.outer) _).labor_le
    have hlevels : weigh Running.labor m.running =
        Running.labor running + weigh Running.labor below := by
      rw [hrunning, weigh_cons]
    have hleft : (m.leave running below .completed).labor =
        (m.leave running below .completed).world.labor + 0 + weigh Running.labor below +
        weigh Frame.labor m.root := rfl
    rw [hleft, labor, hlevels, Running.labor]
    omega

/-! ### Coming to an end -/

variable {a b : Machine} {rest : List Frame} {goal : Machine → Prop}

/-- What a foreign program does next is foreign. -/
theorem IsForeign.allowed (h : m.IsForeign) : ∀ action, m.nextAction? = some action →
    action.core.IsForeign := by
  intro action hnext
  rw [nextAction?] at hnext
  split at hnext
  next todo guards frames _ htop =>
    cases hnext
    have hframe : Frame.IsForeign (.actions (action :: todo) guards) :=
      h.top _ (htop ▸ List.mem_cons_self ..)
    exact (Action.isForeign_core action).trans (Bool.and_eq_true_iff.1 hframe).1
  next => cases hnext

theorem Visits.fares (h : Visits Action.IsForeign script.start m) (hforeign : m.IsForeign)
    (hstep : m.step? = some m') :
    m.Fares m' ∧ Visits Action.IsForeign script.start m' ∧ m'.IsForeign := by
  have hpublic := h.public_of_foreign
  have hfares := hpublic.public.fares hforeign hstep
  exact ⟨hfares, h.leads (.steps .refl hstep hforeign.allowed),
    hfares.isForeign hpublic.public hpublic.faithful.toHeedful hforeign⟩

/-- A foreign program that goes on above some frames until it comes to its goal comes
there, for its labor is bounded. -/
theorem Visits.comes (h : Visits Action.IsForeign script.start m) (hforeign : m.IsForeign)
    (hgoes : ∀ a, Runs rest m a → goal a ∨ a.root ≠ rest ∧ ∃ b, a.step? = some b) :
    ∃ a, Runs rest m a ∧ goal a := by
  suffices hmost : ∀ n a, a.labor ≤ n → Runs rest m a →
      Visits Action.IsForeign script.start a → a.IsForeign →
      ∃ c, Runs rest m c ∧ goal c from hmost m.labor m (Nat.le_refl _) .refl h hforeign
  intro n
  induction n with
  | zero =>
    intro a hlabor hruns ha haforeign
    rcases hgoes a hruns with hgoal | ⟨-, b, hstep⟩
    · exact ⟨a, hruns, hgoal⟩
    · have := (ha.fares haforeign hstep).1.labor_lt ha.public_of_foreign.public
      omega
  | succ n ih =>
    intro a hlabor hruns ha haforeign
    rcases hgoes a hruns with hgoal | ⟨habove, b, hstep⟩
    · exact ⟨a, hruns, hgoal⟩
    · obtain ⟨hfares, hb, hbforeign⟩ := ha.fares haforeign hstep
      have := hfares.labor_lt ha.public_of_foreign.public
      exact ih b (by omega) (hruns.step habove hstep) hb hbforeign

end Machine

end Fibers
