import Fibers.Proofs.Resumptions

/-!
What schedulers count. A step of a machine is one of a few transactions on the
account of a scheduler, so that the counters are always what there was to count:
the tasks that got a number, the entries that were dispatched, and the tasks that
ended, but for the ones that control is in or comes out of.
-/

namespace Fibers

namespace Counters

/-- Tasks that have ended, one way or another. -/
def ended (counters : Counters) : Nat := counters.completed + counters.failed + counters.panicked

def spawn (counters : Counters) : Counters := { counters with spawned := counters.spawned + 1 }

end Counters

/-- What a scheduler has counted, and what there was to count. -/
structure Account where
  counters : Option Counters
  /-- Tasks that got a number. -/
  tasks : Nat
  /-- Entries that were dispatched. -/
  dispatched : Nat
  /-- Tasks that ended. -/
  finished : Nat

namespace Account

def count (account : Account) (g : Counters → Counters) : Account :=
  { account with counters := account.counters.map g }

def spawn (account : Account) : Account :=
  { account.count Counters.spawn with tasks := account.tasks + 1 }

def dispatch (account : Account) : Account := { account with dispatched := account.dispatched + 1 }

def finish (account : Account) : Account := { account with finished := account.finished + 1 }

/-- The counters are what there was to count, but for the tasks that control is
still in, and the ends that are still to be counted. -/
def Agrees (account : Account) (entered ending : Nat) : Prop :=
  ∀ counters, account.counters = some counters → counters.spawned = account.tasks ∧
    counters.ended + ending = account.finished ∧
      counters.ended + counters.suspensions + entered = account.dispatched

end Account

namespace World

variable {shown : HandleRef → Prop} {a b w w' : World} {out : List Asset} {s t : SchedulerId}

def account (w : World) (s : SchedulerId) : Account :=
  ⟨w.counted s, w.lastId s, (w.dispatched s).length, (w.finished s).length⟩

theorem account_eq (hcounted : b.counted s = a.counted s) (hlast : b.lastId s = a.lastId s)
    (hdispatched : b.dispatched s = a.dispatched s) (hfinished : b.finished s = a.finished s) :
    b.account s = a.account s := by
  rw [account, hcounted, hlast, hdispatched, hfinished, account]

theorem Passes.lastId (h : Passes s a b) : b.lastId s = a.lastId s := by
  have hsameOrGone := h.scheduler
  rw [World.lastId, World.lastId]
  generalize a.scheduler? s = before, b.scheduler? s = after at hsameOrGone
  cases hsameOrGone with
  | none => rfl
  | kept hqueue hlast hdead => exact hlast
  | closed hqueue hlast hdead => exact hlast

theorem Spares.account (h : Spares s a b) : b.account s = a.account s :=
  account_eq h.counted h.lastId h.dispatched h.finished

theorem NoProgress.account (h : a.NoProgress b) (s : SchedulerId) : b.account s = a.account s :=
  (h.spares s).account

theorem account_mark (w : World) (told : Mark) (s : SchedulerId) :
    (w.mark told).account s = { w.account s with
      dispatched := (w.account s).dispatched + (told.dispatched? s).toList.length
      finished := (w.account s).finished + (told.finished? s).toList.length } := by
  simp only [account, dispatched, finished, told_mark, List.length_append]
  rfl

theorem account_mark_dispatched (w : World) (t s : SchedulerId) (entry : Runnable) :
    (w.mark (.dispatched t entry)).account s = if t =
    s then (w.account s).dispatch else w.account s := by
  simp only [account_mark, Mark.dispatched?, Mark.finished?]
  split <;> rfl

theorem account_updateScheduler (w : World) (t s : SchedulerId) {g : Scheduler → Scheduler}
    (hcounters : ∀ scheduler, (g scheduler).counters = scheduler.counters)
    (hlast : ∀ scheduler, (g scheduler).lastId = scheduler.lastId) :
    (w.updateScheduler t g).account s = w.account s :=
  account_eq (congrFun (w.counted_updateScheduler t hcounters) s)
    (congrFun (lastId_updateScheduler t hlast) s) rfl rfl

theorem account_append (w : World) (t : SchedulerId) (entry : Runnable) (s : SchedulerId) :
    (w.append t entry).account s = w.account s := by
  have hgrown : (w.updateScheduler t fun scheduler => scheduler.append entry).account s =
      w.account s :=
    w.account_updateScheduler t s (fun _ => rfl) fun _ => rfl
  rw [append, account_mark, hgrown]
  rfl

theorem account_next {entry : Runnable} (h : w.next? t = some (entry, w')) (s : SchedulerId) :
    w'.account s = if t = s then (w.account s).dispatch else w.account s := by
  obtain ⟨queue, hqueue, rfl⟩ := next?_eq h
  have htaken : (w.updateScheduler t fun scheduler => { scheduler with queue }).account s =
      w.account s :=
    w.account_updateScheduler t s (fun _ => rfl) fun _ => rfl
  rw [account_mark_dispatched, htaken]

theorem account_enqueue {scheduler : Scheduler} (hs : w.scheduler? t = some scheduler)
    (body : List Action) (s : SchedulerId) : (w.enqueue t body).2.account s = if t =
    s then (w.account s).spawn else w.account s := by
  simp only [World.enqueue, hs]
  have htold : ∀ (u : World) (event : Event) (entry : Runnable),
      ((u.mark (.appended t entry)).tell event).account s = u.account s := by
    intro u event entry
    refine (Spares.tell (s := s) _ event).account.trans ?_
    rw [account_mark]
    rfl
  rw [htold]
  simp only [account, counted, lastId, scheduler?_updateScheduler]
  split
  next heq =>
    subst heq
    rw [hs]
    rfl
  next => rfl

theorem account_ended (w : World) (fiber : Fiber) (exit : Exit) (s : SchedulerId) :
    (w.mark (.ended fiber exit)).account s = if fiber.home =
    some s then (w.account s).finish else w.account s := by
  simp only [account_mark, Mark.dispatched?, Mark.finished?]
  split <;> rfl

theorem account_unstarted (w : World) (t s : SchedulerId) (id : FiberId) :
    (w.mark (.unstarted t id)).account s = if t = s then (w.account s).finish else w.account s := by
  simp only [account_mark, Mark.dispatched?, Mark.finished?]
  split <;> rfl

theorem Reckons.account {g : Counters → Counters} {given : List Asset} (h : w.Reckons t g given w')
    (hsound : w.Sound shown (given ++ out)) (s : SchedulerId) :
    w'.account s = if t = s then (w.account s).count g else w.account s := by
  have hcounted : (w.count t g).account s = if t =
      s then (w.account s).count g else w.account s := by
    have hlast : (w.count t g).lastId = w.lastId := lastId_updateScheduler t fun _ => rfl
    rw [World.account, counted_count, hlast]
    split <;> rfl
  rw [← hcounted]
  exact (h.drift hsound).noProgress.account s

theorem Receives.account {fiber : Fiber} {exit : Exit} (h : w.Receives t fiber exit w')
    (hsound : w.Sound shown (fiber.assets ++ out)) (s : SchedulerId) :
    w'.account s = if t = s then (w.account s).count exit.count else w.account s := by
  cases h with
  | ended hexit hreckons => exact hreckons.account hsound s
  | parked hcell hbefore hsame hparks => rw [(hparks.spares s).account, hbefore.account hsound s]
  | handedBack hcell hbefore hsame hparks =>
    rw [account_append, (hparks.spares s).account, hbefore.account hsound s]

theorem Opens.account {x : HandleRef} {plan : AwaitPlan} (h : w.Opens x plan w') (s : SchedulerId) :
    w'.account s = w.account s := by
  obtain ⟨current, clones, hbefore, hnew, hafter⟩ := h
  rename_i u
  have hmade : (Machine.openAwait u current plan clones).2.account s = u.account s := by
    refine (account_mark ..).trans ?_
    exact (Spares.of_same rfl rfl : Spares s u (u.makeHandle current clones).2).account
  rw [hafter.account, hmade, hbefore.account]

end World

/-- An exit by which a fiber ends. -/
def Exit.isEnd : Exit → Bool
  | .suspended _ => false
  | _ => true

namespace Machine

variable {byHand : Prop} {allowed : Action → Prop} {m m' : Machine}
  {frames : List Frame} {w : World} {s t : SchedulerId}

/-- 1 if control is in a task of the scheduler, or comes out of one. -/
def entered (m : Machine) (s : SchedulerId) : Nat := m.homes.count s

/-- 1 if control comes out of a task of the scheduler that has ended. -/
def ending (m : Machine) (s : SchedulerId) : Nat := m.control.ended?.toList.count s

/-- What a step means to what a scheduler counts. -/
inductive Counts (allowed : Action → Prop) (s : SchedulerId) (m m' : Machine) : Prop
  | keeps (h : m'.world.account s = m.world.account s) (hentered : m'.entered s = m.entered s)
      (hending : m'.ending s = m.ending s)
  | spawns {position : Nat} {body : List Action}
      (hallowed : allowed (.enqueue position body) ∨
        ∃ task, m.taskBody task = body ∧ allowed (.enqueueNamed position task))
      (hposition : m.world.schedulerAt position = some s)
      (h : m'.world.account s = (m.world.account s).spawn) (hentered : m'.entered s = m.entered s)
      (hending : m'.ending s = m.ending s)
  | dispatches (h : m'.world.account s = (m.world.account s).dispatch)
      (hentered : m'.entered s = m.entered s + 1) (hending : m'.ending s = m.ending s)
  /-- A task gets no stack. -/
  | fails {ran : Nat} {max : Option Nat} {rest : List Frame}
      (htop : m.top = .draining s ran max :: rest)
      (h : m'.world.account s = ((m.world.account s).dispatch.finish).count Counters.fail)
      (hentered : m'.entered s = m.entered s) (hending : m'.ending s = m.ending s)
  | ends (h : m'.world.account s = (m.world.account s).finish)
      (hentered : m'.entered s = m.entered s) (hending : m'.ending s = m.ending s + 1)
  | receives {fiber : Fiber} {exit : Exit} {rest : List Frame}
      (htop : m.top = .dispatching s :: rest) (hcontrol : m.control = .back fiber exit)
      (hhome : fiber.home = some s) (h : m'.world.account s = (m.world.account s).count exit.count)
      (hentered : m.entered s = m'.entered s + 1)
      (hending : m.ending s = m'.ending s + exit.isEnd.toNat)

/-! ### What steps change -/

theorem Control.ended?_of_home? {control : Control} (h : control.home? = none) :
    control.ended? = none := by
  cases control with
  | back fiber exit => cases exit <;> first | rfl | exact h
  | _ => rfl

theorem entered_goTo (hnone : m.control.home? = none) {control : Control}
    (hcontrol : control.home? = none) (frames : List Frame) (w : World) (s : SchedulerId) :
    (m.goTo frames w control).entered s = m.entered s := by
  rw [entered, homes_goTo, entered, homes, hcontrol, hnone]

theorem ending_eq (hnone : m.control.home? = none) (hended : m'.control.ended? = none)
    (s : SchedulerId) : m'.ending s = m.ending s := by
  rw [ending, ending, hended, Control.ended?_of_home? hnone]

/-- The innermost level goes on, and nothing is counted. -/
theorem Counts.goTo (hnone : m.control.home? = none) {control : Control}
    (hcontrol : control.IsPlain) (h : w.account s = m.world.account s) :
    Counts allowed s m (m.goTo frames w control) :=
  .keeps h (entered_goTo hnone hcontrol.home? _ _ _)
    (ending_eq hnone (Control.ended?_of_home? hcontrol.home?) s)

/-- A fiber awaits, and nothing is counted before it has come back. -/
theorem Counts.suspendAwait (hnone : m.control.home? = none) {control : Control}
    (hcontrol : control.IsPlain) (x : HandleRef) (plan : AwaitPlan)
    (h : w.account s = m.world.account s) :
    Counts allowed s m ((m.goTo frames w control).suspendAwait x plan) := by
  refine .keeps ?_ ?_ (ending_eq hnone ?_ s)
  · rw [(suspendAwait_spares (s := s) (m.goTo frames w control) x plan).account]
    exact h
  · rw [Machine.suspendAwait, push_eq, entered, suspend_homes _ _ hcontrol.home?,
      entered, homes, hnone]
    simp
  · rw [Machine.suspendAwait, push_eq]
    exact suspend_ended _ _ (Control.ended?_of_home? hcontrol.home?)

/-- Control goes into a task that was dispatched. -/
theorem Counts.enter {fiber : Fiber} {resumption : Resumption} {control : Control}
    (hnone : m.control.home? = none) (hhome : fiber.home = some t)
    (hstate : fiber.state ≠ .finished)
    (h : w.account s = if t = s then (m.world.account s).dispatch else m.world.account s) :
    Counts allowed s m ((m.goTo frames w control).enter fiber resumption) := by
  have haccount : ((m.goTo frames w control).enter fiber resumption).world.account s =
      w.account s :=
    (enter_spares (m.goTo frames w control) fiber resumption).account
  have hentered : ((m.goTo frames w control).enter fiber resumption).entered s =
      m.entered s + if t = s then 1 else 0 := by
    rw [entered, enter_homes, within_goTo, hhome, entered, homes, hnone]
    simp [List.count_cons]
  have hending := ending_eq hnone (enter_ended (m.goTo frames w control) resumption (.inr hstate)) s
  by_cases heq : t = s
  · rw [if_pos heq] at h hentered
    exact .dispatches (haccount.trans h) hentered hending
  · rw [if_neg heq] at h hentered
    exact .keeps (haccount.trans h) hentered hending

theorem Delivers.counts {x : HandleRef} {cell : HandleCell} {resumption : Resumption}
    (hm : m.Sound byHand) (hnone : m.control.home? = none) (hnoProgress : m.world.NoProgress w)
    (hcell : w.handles.get? x = some cell)
    (h : Delivers (m.goTo frames w .advance) t x cell resumption m') (s : SchedulerId) :
    Counts allowed s m m' := by
  have haccount : w.account s = m.world.account s := hnoProgress.account s
  have hspent : ∀ slot (event : Event),
      ((((w.setSlot x slot).mark (.accepted x resumption)).release [.handle x]).tell event).account
        s = m.world.account s := by
    intro slot event
    rw [(World.Spares.tell (s := s) _ event).account, (World.spares_release _ _ s).account,
      World.account_mark]
    exact haccount
  cases h with
  | stored event hslot hquiet =>
    rw [goTo_goTo]
    exact .goTo hnone trivial (hspent _ _)
  | queued fiber event hslot hcurrent hquiet =>
    rw [goTo_goTo]
    exact .goTo hnone trivial ((World.account_append ..).trans (hspent _ _))
  | dispatched fiber event hslot hcurrent hquiet =>
    obtain ⟨old, hold, hheld⟩ := hnoProgress.parked hcell hslot
    have hrests := hm.kept.orderly.rests_of_met hold hheld
    obtain ⟨stack, first, hstate⟩ := suspended_of_rests hrests
    rw [goTo_goTo]
    refine .enter hnone hrests.home_eq (by simp [hstate]) ?_
    rw [World.account_mark_dispatched]
    split
    · exact congrArg Account.dispatch (hspent _ _)
    · exact hspent _ _
  | refused fault event hslot hother hquiet =>
    rw [goTo_goTo]
    refine .goTo hnone trivial ?_
    rw [(World.Spares.tell (s := s) _ event).account, (World.spares_release _ _ s).account]
    exact haccount

theorem Drains.counts {ran : Nat} {max : Option Nat} (hm : m.Sound byHand)
    (hnone : m.control.home? = none) (htop : m.top = .draining t ran max :: frames)
    (h : Drains (m.goTo frames m.world .advance) t ran max m') (s : SchedulerId) :
    Counts allowed s m m' := by
  have hheld := hm.kept_of_top htop
  cases h with
  | stops hstops =>
    rw [goTo_goTo]
    exact .goTo hnone trivial rfl
  | @fails id body w w₁ w₂ hmore hnext hbefore hafter =>
    have hbegun : w₁.account s = w.account s :=
      ((hheld.next hnext).drift_gain hbefore).noProgress.account s
    have hunstarted := World.Sound.unstarted ((hheld.next hnext).gain hbefore)
    have haccount := hafter.account hunstarted s
    rw [World.account_unstarted, hbegun, World.account_next hnext] at haccount
    rw [goTo_goTo]
    by_cases heq : t = s
    · subst heq
      simp only [if_true] at haccount
      exact .fails htop haccount (entered_goTo hnone rfl _ _ _) (ending_eq hnone rfl _)
    · simp only [if_neg heq] at haccount
      exact .goTo hnone trivial haccount
  | @starts id body fiber w w₁ hmore hnext hbefore hid hhome hstate =>
    have hbegun : w₁.account s = w.account s :=
      ((hheld.next hnext).drift_gain hbefore).noProgress.account s
    rw [goTo_goTo]
    exact .enter hnone hhome (by simp [hstate]) (hbegun.trans (World.account_next hnext s))
  | @wakes fiber resumption w hmore hnext =>
    obtain ⟨queue, hqueue, -⟩ := World.next?_eq hnext
    have hrests := hm.kept.orderly.queued t fiber resumption (hqueue ▸ List.mem_cons_self ..)
    obtain ⟨stack, first, hstate⟩ := suspended_of_rests hrests
    rw [goTo_goTo]
    exact .enter hnone hrests.home_eq (by simp [hstate]) (World.account_next hnext s)

/-- Control that comes out of a task goes to the scheduler that dispatched it. -/
theorem Sound.receives_or (h : m.Sound byHand) (hmoves : Moves allowed m m') :
    m.control.home? = none ∨ ∃ s fiber exit frames, m.top = .dispatching s :: frames ∧
      m.control = .back fiber exit ∧ fiber.home = some s ∧
        m' = m.goTo frames (m.world.receive s fiber exit) .advance := by
  have haccepts := h.accepts
  have hplain : m.control.IsPlain ∨ (∃ resumption, m.control = .resumed resumption) →
      m.control.home? = none := by
    rintro (hplain | ⟨resumption, hresumed⟩)
    · exact hplain.home?
    · rw [hresumed]
      rfl
  cases hmoves with
  | acts htop hcontrol | drains htop hcontrol | asksAgain htop hcontrol | hears htop hcontrol
  | settles htop hcontrol | ends htop hcontrol
  | resumes htop hcontrol | completes htop hcontrol | breaks htop hcontrol
  | completed htop hcontrol =>
    exact .inl (hplain (.inl (by rw [hcontrol]; trivial)))
  | idle pushed w control htop hlight =>
    rw [htop] at haccepts
    refine .inl ?_
    generalize m.control = told at haccepts
    cases told with
    | back fiber exit => cases ‹Frame› <;> first | exact hlight.elim | exact haccepts.1.elim
    | _ => rfl
  | registered htop hcode => exact .inl (hplain (.inl hcode.isPlain))
  | concludes htop hcontrol => exact .inl (hplain (.inr ⟨_, hcontrol⟩))
  | transferred htop hcontrol =>
    rw [htop, hcontrol] at haccepts
    rw [hcontrol]
    exact .inl haccepts.1.2.1
  | receives htop hcontrol =>
    rw [htop, hcontrol] at haccepts
    obtain ⟨ran, max, rest, -, -, hhome, -⟩ := haccepts.1.of_dispatching
    exact .inr ⟨_, _, _, _, htop, hcontrol, hhome, rfl⟩
  | goesOn htop hphase =>
    rw [htop] at haccepts
    refine .inl ?_
    generalize m.control = told at haccepts
    cases told with
    | back fiber exit => exact haccepts.1.elim
    | _ => rfl
  | leaves hrunning htop hcontrol =>
    refine .inl (hplain (.inl ?_))
    generalize m.control = told at hcontrol
    cases told <;> trivial

theorem leave_counts {running : Running} {below : List Running} {exit : Exit}
    (hnone : m.control.home? = none) (hrunning : m.running = running :: below)
    (hexit : exit? m.control = some exit) (s : SchedulerId) :
    Counts allowed s m (m.leave running below exit) := by
  have hleft : World.Spares s m.world (m.world.restore running.current running.outer) :=
    .of_same rfl rfl
  have hspares := hleft.trans (World.spares_release _ running.first.debris s)
  have haccount : (m.leave running below exit).world.account s = if running.home = some s then
      (m.world.account s).finish else m.world.account s := by
    refine (World.account_ended _ _ _ s).trans ?_
    rw [hspares.account]
    rfl
  have hentered : (m.leave running below exit).entered s = m.entered s := by
    rw [entered, entered, homes, homes, hnone, within, within, hrunning, List.filterMap_cons]
    change (running.home.toList ++ below.filterMap Running.home).count s = _
    cases running.home <;> rfl
  have hending : (m.leave running below exit).ending s = m.ending s + if running.home =
      some s then 1 else 0 := by
    have hended : (m.leave running below exit).control.ended? = running.home := by
      cases hcontrol : m.control <;> rw [hcontrol] at hexit <;> cases hexit <;> rfl
    rw [ending, hended, ending, Control.ended?_of_home? hnone]
    cases running.home with
    | none => rfl
    | some t => simp [List.count_cons]
  by_cases hhome : running.home = some s
  · rw [if_pos hhome] at haccount hending
    exact .ends haccount hentered hending
  · rw [if_neg hhome] at haccount hending
    exact .keeps haccount hentered hending

/-- What a step changes of what a scheduler counts. -/
theorem Sound.counts (h : m.Sound byHand) (hmoves : Moves allowed m m') (s : SchedulerId) :
    Counts allowed s m m' := by
  rcases h.receives_or hmoves with hnone | ⟨t, fiber, exit, frames, htop, hcontrol, hhome, rfl⟩
  · have hturns := h.turns hmoves
    cases hturns with
    | noArrivals hframes hcontrol hnoProgress => exact .goTo hnone hcontrol (hnoProgress.account s)
    | @enqueues position t scheduler body frames hallowed hposition ht shown hframes =>
      have haccount :=
        (World.Spares.emit (s := s) (m.world.enqueue t body).2 "enqueue" shown).account.trans
        (World.account_enqueue ht body s)
      by_cases heq : t = s
      · subst heq
        rw [if_pos rfl] at haccount
        exact .spawns hallowed hposition haccount (entered_goTo hnone rfl _ _ _)
          (ending_eq hnone rfl _)
      · rw [if_neg heq] at haccount
        exact .goTo hnone trivial haccount
    | registers register hplan hopens hframes => exact .goTo hnone trivial (hopens.account s)
    | strands panic hcaller hclaims hopens hframes => exact .goTo hnone trivial (hopens.account s)
    | issues huses hdriver hplan hlisted hcurrent hopens hframes =>
      have hplain : Control.advance.IsPlain := trivial
      exact .suspendAwait hnone hplain _ _ (hopens.account s)
    | registered htop hcontrol hnoProgress =>
      exact .suspendAwait hnone hcontrol.isPlain _ _ (hnoProgress.account s)
    | delivers hframes hnoProgress hcell ht hfrom hdelivers =>
      exact hdelivers.counts h hnone hnoProgress hcell s
    | concludes htop hresumed hcontrol hnoProgress =>
      refine .goTo hnone hcontrol.isPlain ((hnoProgress.account s).trans ?_)
      rw [World.account_mark]
      rfl
    | drains htop hcontrol hdrains => exact hdrains.counts h hnone htop s
    | hand hallowed hhand hspares hhomes hended =>
      refine .keeps (hspares s).account ?_ (ending_eq hnone hended s)
      rw [entered, hhomes, entered, homes, hnone]
      rfl
    | receives htop hcontrol ht hreceives =>
      have haccepts := h.accepts
      rw [htop, hcontrol] at haccepts
      obtain ⟨ran, max, rest, -, -, hhome, -⟩ := haccepts.1.of_dispatching
      rw [hcontrol, Control.home?, hhome] at hnone
      cases hnone
    | leaves hrunning htop hcontrol => exact leave_counts hnone hrunning hcontrol s
  · have hheld := h.kept_of_top htop
    have haccepts := h.accepts
    rw [htop, hcontrol] at haccepts
    have haccount := (h.receives htop hcontrol).2.account (h.kept_of_back hcontrol) s
    by_cases heq : t = s
    · subst heq
      rw [if_pos rfl] at haccount
      refine .receives htop hcontrol hhome haccount ?_ ?_
      · rw [entered, homes, hcontrol, Control.home?, hhome, entered, homes_goTo]
        simp [Control.home?, Nat.add_comm]
      · rw [ending, hcontrol, ending]
        cases exit <;> simp [Control.ended?, hhome, Exit.isEnd]
    · rw [if_neg heq] at haccount
      refine .keeps haccount ?_ ?_
      · rw [entered, homes_goTo, entered, homes, hcontrol, Control.home?, hhome]
        simp [Control.home?, heq]
      · rw [ending, ending, hcontrol]
        cases exit <;> simp [Control.ended?, hhome, heq]

/-! ### Whole sessions -/

theorem Counts.agrees (h : Counts allowed s m m')
    (hagrees : (m.world.account s).Agrees (m.entered s) (m.ending s)) :
    (m'.world.account s).Agrees (m'.entered s) (m'.ending s) := by
  intro counters hcounters
  cases h with
  | keeps h hentered hending =>
    rw [h] at hcounters ⊢
    rw [hentered, hending]
    exact hagrees counters hcounters
  | spawns hallowed hposition h hentered hending =>
    rw [h] at hcounters ⊢
    obtain ⟨old, hold, rfl⟩ := Option.map_eq_some_iff.1 hcounters
    obtain ⟨hspawned, hended, hdispatched⟩ := hagrees old hold
    rw [hentered, hending]
    exact ⟨congrArg (· + 1) hspawned, hended, hdispatched⟩
  | dispatches h hentered hending =>
    rw [h] at hcounters ⊢
    obtain ⟨hspawned, hended, hdispatched⟩ := hagrees counters hcounters
    rw [hentered, hending]
    exact ⟨hspawned, hended, congrArg (· + 1) hdispatched⟩
  | fails htop h hentered hending =>
    rw [h] at hcounters ⊢
    obtain ⟨old, hold, rfl⟩ := Option.map_eq_some_iff.1 hcounters
    obtain ⟨hspawned, hended, hdispatched⟩ := hagrees old hold
    rw [hentered, hending]
    refine ⟨hspawned, ?_, ?_⟩ <;>
      simp only [Counters.fail, Counters.ended, Account.finish, Account.dispatch, Account.count]
        at hended hdispatched ⊢ <;>
      omega
  | ends h hentered hending =>
    rw [h] at hcounters ⊢
    obtain ⟨hspawned, hended, hdispatched⟩ := hagrees counters hcounters
    rw [hentered, hending]
    exact ⟨hspawned, congrArg (· + 1) hended, hdispatched⟩
  | @receives fiber exit rest htop hcontrol hhome h hentered hending =>
    rw [h] at hcounters ⊢
    obtain ⟨old, hold, rfl⟩ := Option.map_eq_some_iff.1 hcounters
    obtain ⟨hspawned, hended, hdispatched⟩ := hagrees old hold
    cases exit <;> refine ⟨hspawned, ?_, ?_⟩ <;>
      simp only [Exit.count, Exit.isEnd, Counters.ended, Account.count, Bool.toNat_true,
        Bool.toNat_false]
        at hended hdispatched hending ⊢ <;>
      omega

theorem Visits.agrees {script : Script} (h : Visits allowed script.start m) (s : SchedulerId) :
    (m.world.account s).Agrees (m.entered s) (m.ending s) := by
  refine h.induct (P := fun m => (m.world.account s).Agrees (m.entered s) (m.ending s))
    (fun action => ?_) (fun a b ha hb _ hmoves ih => ?_) (fun a w _ _ hstirs ih => ?_)
    fun a w root ha ih hdone hbetween hroot hm' => ?_
  · intro counters hcounters
    obtain ⟨scheduler, hs, rfl⟩ := Option.map_eq_some_iff.1 hcounters
    change script.start.scheduler? s = some scheduler at hs
    obtain ⟨-, hlast, hzero⟩ := World.unused_start hs
    have hlosesNone : script.start.lastId s = 0 := by rw [World.lastId, hs]; exact hlast
    refine ⟨?_, ?_, ?_⟩ <;> rw [hzero]
    · exact hlosesNone.symm
    · exact (congrArg List.length (World.told_start script _)).symm
    · exact (congrArg List.length (World.told_start script _)).symm
  · have hsound : a.Sound True := ha.sound fun _ _ _ _ => trivial
    exact (hsound.counts hmoves s).agrees ih
  · rw [← hstirs.noProgress.account s] at ih
    exact ih
  · have hsound : a.Sound True := ha.sound fun _ _ _ _ => trivial
    have hplain := (hsound.done hdone).2.2.isPlain.home?
    have hentered : a.entered s = 0 := by rw [Machine.entered, homes, within, hplain, hdone.1]; rfl
    have hending : a.ending s = 0 := by rw [ending, Control.ended?_of_home? hplain]; rfl
    rw [hentered, hending, ← hbetween.noProgress.account s] at ih
    exact ih

end Machine

end Fibers
