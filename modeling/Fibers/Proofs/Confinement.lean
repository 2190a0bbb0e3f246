import Fibers.Proofs.Pools
import Fibers.Proofs.Resumptions

/-!
Schedulers keep their fibers and their stacks to themselves. A fiber comes to rest
only with the scheduler that its task was enqueued on, and only that one dispatches
it. A stack is in one place at a time; a pool keeps stacks that its own scheduler
mapped, in the size that it is configured for, and gets back just those of fibers
that complete or fail.
-/

namespace Fibers

open Asset (stackOf unsuitedOf)

/-! ### Stacks and where they are -/

def Runnable.stacked : Runnable → List Stack
  | .fresh .. => []
  | .woken fiber _ => [fiber.stack]

def HandleCell.stacked (cell : HandleCell) : List Stack :=
  match cell.slot with
  | .parked fiber _ => [fiber.stack]
  | _ => []

def Control.stacked : Control → List Stack
  | .back fiber _ => [fiber.stack]
  | _ => []

/-- The stacks of the fibers in a scheduler's queue, and its idle ones. -/
def Scheduler.stacked (scheduler : Scheduler) : List Stack :=
  scheduler.queue.flatMap Runnable.stacked ++ scheduler.pool.idle

/-- The stacks of all fibers and pools, one for each place. -/
def Machine.stacked (m : Machine) : List Stack :=
  m.world.coroutines.values.map Fiber.stack ++ m.world.handles.cells.flatMap HandleCell.stacked ++
    m.world.schedulers.flatMap Scheduler.stacked ++ m.running.map Running.stack ++ m.control.stacked

/-- Counts a stack. -/
def Stack.of (label : Nat) (stack : Stack) : Nat := if stack.label = label then 1 else 0

section Counting

variable (label : Nat)

theorem weigh_fiber_stack (fiber : Fiber) :
    Stack.of label fiber.stack ≤ weigh (stackOf label) fiber.assets := by
  rw [Fiber.assets, weigh_cons]
  exact Nat.le_add_right _ _

theorem weigh_cell_stacks (cell : HandleCell) :
    weigh (Stack.of label) cell.stacked ≤ weigh (stackOf label) cell.assets := by
  obtain ⟨id, clones, slot⟩ := cell
  cases slot with
  | parked fiber owner => exact weigh_fiber_stack label fiber
  | pending | woken | spent => exact Nat.zero_le _

theorem weigh_entry_stacks (s : SchedulerId) (entry : Runnable) :
    weigh (Stack.of label) entry.stacked ≤ weigh (stackOf label) (entry.assets s) := by
  cases entry with
  | fresh => exact Nat.zero_le _
  | woken fiber resumption =>
    rw [Runnable.assets, weigh_append]
    exact Nat.le_add_right_of_le (weigh_fiber_stack label fiber)

theorem weigh_scheduler_stacks (s : SchedulerId) (scheduler : Scheduler) :
    weigh (Stack.of label) scheduler.stacked ≤ weigh (stackOf label) (scheduler.assets s) := by
  rw [Scheduler.stacked, Scheduler.assets, weigh_append, weigh_append, weigh_flatMap,
    weigh_flatMap, weigh_map]
  exact Nat.add_le_add (weigh_le (fun entry => weigh_entry_stacks label s entry) _) (Nat.le_refl _)

theorem weigh_schedulers_stacks (n : Nat) (schedulers : List Scheduler) :
    weigh (Stack.of label) (schedulers.flatMap Scheduler.stacked) ≤
      weigh (stackOf label) (schedulersAssets n schedulers) := by
  induction schedulers generalizing n with
  | nil => exact Nat.le_refl _
  | cons scheduler rest ih =>
    rw [List.flatMap_cons, schedulersAssets, weigh_append, weigh_append]
    exact Nat.add_le_add (weigh_scheduler_stacks label ⟨n⟩ scheduler) (ih (n + 1))

theorem weigh_running_stack (running : Running) :
    Stack.of label running.stack ≤ weigh (stackOf label) running.assets := by
  rw [Running.assets, weigh_cons]
  exact Nat.le_add_right _ _

theorem weigh_control_stacks (control : Control) :
    weigh (Stack.of label) control.stacked ≤ weigh (stackOf label) control.assets := by
  cases control with
  | back fiber exit =>
    rw [Control.assets, weigh_append]
    exact Nat.le_add_right_of_le (weigh_fiber_stack label fiber)
  | _ => exact Nat.zero_le _

/-- The books have every stack that is in some place. -/
theorem weigh_stacks (m : Machine) :
    weigh (Stack.of label) m.stacked ≤ m.world.worth (stackOf label) + weigh (stackOf label)
      m.assets := by
  have hnamed : weigh (Stack.of label) (m.world.coroutines.values.map Fiber.stack) ≤
      weigh (fun fiber => weigh (stackOf label) fiber.assets) m.world.coroutines.values := by
    rw [weigh_map]
    exact weigh_le (weigh_fiber_stack label) _
  have hcells : weigh (Stack.of label) (m.world.handles.cells.flatMap HandleCell.stacked) ≤
      m.world.handles.worth (stackOf label) := by
    rw [weigh_flatMap]
    exact weigh_le (weigh_cell_stacks label) _
  have hschedulers := weigh_schedulers_stacks label 0 m.world.schedulers
  have hlevels : weigh (Stack.of label) (m.running.map Running.stack) ≤
      weigh (stackOf label) (m.running.flatMap Running.assets) := by
    rw [weigh_map, weigh_flatMap]
    exact weigh_le (weigh_running_stack label) _
  have hcontrol := weigh_control_stacks label m.control
  have hassets := m.weigh_levels (stackOf label)
  simp only [Machine.stacked, World.worth, Machine.assets, weigh_append]
  omega

theorem count_labels (stacked : List Stack) :
    (stacked.map Stack.label).count label = weigh (Stack.of label) stacked := by
  induction stacked with
  | nil => rfl
  | cons stack rest ih =>
    rw [List.map_cons, List.count_cons, ih, weigh_cons, Stack.of]
    by_cases heq : stack.label = label <;> simp [heq, Nat.add_comm]

end Counting

theorem Machine.Sound.nodup_stacks {byHand : Prop} {m : Machine} (h : m.Sound byHand) :
    (m.stacked.map Stack.label).Nodup := by
  refine List.nodup_iff_count_le_one.2 fun label => ?_
  have hbooks := h.kept.balanced.stacked label
  have hall := weigh_stacks label m
  rw [count_labels]
  split at hbooks <;> omega

/-! ### Idle stacks -/

/-- A size is rounded up to whole pages, one page at least. -/
def Rounds (request size : Nat) : Prop :=
  pageSize ∣ size ∧ max request 1 ≤ size ∧ size < max request 1 + pageSize

theorem rounds_of_mapStack {mapping : Mapping} {request size : Nat}
    (h : mapStack mapping pageSize request = .ok size) :
    Rounds request size := by
  rw [mapStack, StackExtent.plan?] at h
  cases hnext : nextMultiple? pageSize (max request 1) with
  | none => simp [hnext] at h
  | some usable =>
    have hpage : 0 < pageSize := by decide
    have hdvd := dvd_of_nextMultiple? hpage hnext
    have hsize : usable = size := by
      rw [hnext, Option.bind_some] at h
      cases hwords : addWords? usable pageSize with
      | none => simp [hwords] at h
      | some length =>
        simp only [hwords, Option.map_some] at h
        split at h
        · exact Except.ok.inj h
        · cases h
    subst hsize
    rcases nextMultiple?_eq_some_iff.1 hnext with ⟨-, heq⟩ | ⟨hmod, heq, -⟩
    · exact ⟨hdvd, Nat.le_of_eq heq.symm, by omega⟩
    · have := Nat.mod_lt (max request 1) hpage
      exact ⟨hdvd, by omega, by omega⟩

theorem mem_schedulersAssets {schedulers : List Scheduler} {scheduler : Scheduler}
    {i n : Nat} {a : Asset} (h : schedulers[i]? = some scheduler)
    (member : a ∈ scheduler.assets ⟨n + i⟩) :
    a ∈ schedulersAssets n schedulers := by
  induction schedulers generalizing i n with
  | nil => cases h
  | cons first rest ih =>
    rw [schedulersAssets, List.mem_append]
    cases i with
    | zero =>
      cases h
      exact .inl member
    | succ i =>
      rw [show n + (i + 1) = n + 1 + i by omega] at member
      exact .inr (ih h member)

theorem Machine.Sound.idle_mapped {byHand : Prop} {m : Machine} (h : m.Sound byHand)
    {s : SchedulerId} {scheduler : Scheduler} (hs : m.world.scheduler? s = some scheduler)
    {stack : Stack} (hidle : stack ∈ scheduler.pool.idle) :
    stack.source = .scheduler s ∧ scheduler.pool.config.Yields m.world.mappings stack.size := by
  have hunsuited : unsuitedOf (Stack.suits m.world.mappings m.world.poolConfig)
      (.holds stack (some s)) = 0 := by
    have member : .holds stack (some s) ∈ schedulersAssets 0 m.world.schedulers := by
      refine mem_schedulersAssets hs ?_
      rw [Nat.zero_add]
      exact List.mem_append_right _ (List.mem_map_of_mem hidle)
    have hle := le_weigh_of_mem
      (unsuitedOf (Stack.suits m.world.mappings m.world.poolConfig)) member
    have hnone := h.kept.balanced.suited
    rw [World.worth] at hnone
    omega
  have hsuits : stack.suits m.world.mappings m.world.poolConfig (some s) = true := by
    rw [unsuitedOf] at hunsuited
    split at hunsuited
    next hsuits => exact hsuits
    next => cases hunsuited
  have hconfig : m.world.poolConfig s = some scheduler.pool.config := by
    rw [World.poolConfig, hs]; rfl
  obtain ⟨hsource, config, hsame, hyields⟩ := Stack.suits_some.1 hsuits
  rw [hconfig, Option.some.injEq] at hsame
  subst hsame
  exact ⟨hsource, hyields⟩

theorem Machine.Sound.idle_suits {byHand : Prop} {m : Machine} (h : m.Sound byHand)
    {s : SchedulerId} {scheduler : Scheduler} (hs : m.world.scheduler? s = some scheduler)
    {stack : Stack} (hidle : stack ∈ scheduler.pool.idle) :
    stack.source = .scheduler s ∧ Rounds scheduler.pool.config.stackSize stack.size :=
  (h.idle_mapped hs hidle).imp_right fun ⟨_, hmapped⟩ => rounds_of_mapStack hmapped

namespace Machine

variable {byHand : Prop} {m m' : Machine} {s : SchedulerId} {frames : List Frame}

/-! ### Fibers and where they rest -/

theorem Sound.enqueued_of_mem (h : m.Sound byHand) {task : TaskId} {place : Place}
    (member : place ∈ m.places task) : m.Enqueued task := by
  rw [enqueued_iff]
  have hlength := h.length_places task
  have hpos := List.length_pos_of_mem member
  omega

/-- A task that a scheduler dispatches was enqueued on it, and its fiber is one of the
scheduler's own. -/
def Owns (m : Machine) (s : SchedulerId) : Runnable → Prop
  | .fresh id _ => m.Enqueued ⟨s, id⟩
  | .woken fiber _ => fiber.home = some s ∧ m.Enqueued ⟨s, fiber.id⟩

theorem Sound.owns_of_mem (h : m.Sound byHand) {entry : Runnable}
    (member : entry ∈ m.world.queue s) : m.Owns s entry := by
  cases entry with
  | fresh id body =>
    exact h.enqueued_of_mem (mem_places.2 (mem_sightings_queue member (List.mem_singleton.2 rfl)))
  | woken fiber resumption =>
    have hhome := (h.kept.orderly.queued s fiber resumption member).home_eq
    exact ⟨hhome,
      h.enqueued_of_mem (mem_places.2 (mem_sightings_queue member (mem_sight.2 ⟨hhome, rfl, rfl⟩)))⟩

theorem Sound.owns_of_transfers (h : m.Sound byHand) {entry : Runnable}
    (htransfers : Transfers m s m' entry) : m.Owns s entry := by
  cases htransfers with
  | begun hbefore | unstarted hbefore =>
    exact h.enqueued_of_mem (hbefore ▸ List.mem_singleton.2 rfl)
  | resumed hhome hbefore =>
    rcases hbefore with hbefore | ⟨x, hbefore⟩ <;>
      exact ⟨hhome, h.enqueued_of_mem (hbefore ▸ List.mem_singleton.2 rfl)⟩

/-- Control is in a task's fiber at the root only, for a dispatch of the task's own scheduler. -/
theorem Sound.dispatched_of_home (h : m.Sound byHand) {running : Running} {below : List Running}
    (hrunning : m.running = running :: below) (hhome : running.home = some s) :
    below = [] ∧ ∃ rest, m.root = .dispatching s :: rest := by
  have hnested := h.nested
  rw [hrunning] at hnested
  obtain ⟨-, hentered, -⟩ := hnested
  rw [hhome] at hentered
  unfold World.Entered at hentered
  split at hentered
  · cases hentered.2.1
  next t other ran max frames heq =>
    obtain ⟨hbelow, hsame, -⟩ := hentered
    cases hsame
    have hnil : below = [] := by simpa using hbelow
    subst hnil
    exact ⟨rfl, _, heq⟩
  · exact hentered.elim

/-- A scheduler is told of the end of a fiber of its own, and gets the stack back if
the fiber completed or failed. -/
theorem Sound.gives_back (h : m.Sound byHand) {running : Running}
    {below : List Running} {exit : Exit} (hrunning : m.running = running :: below)
    (htop : m.top = []) (hexit : exit? m.control = some exit) (hhome : running.home = some s) :
    ∃ a b, m.step? = some a ∧ a.step? = some b ∧
      b.world.pools = if exit.givesBack then m.world.pools.modify s.index fun pool =>
        pool.put running.stack else m.world.pools := by
  obtain ⟨hbelow, rest, hroot⟩ := h.dispatched_of_home hrunning hhome
  subst hbelow
  obtain ⟨world, levels, root, control⟩ := m
  cases hrunning
  cases hroot
  have hframes : running.frames = [] := htop
  have hleaves : Machine.step? ⟨world, [running], .dispatching s :: rest, control⟩ =
      some (Machine.leave ⟨world, [running], .dispatching s :: rest, control⟩ running [] exit) := by
    rw [h.step?_eq]
    simp only [move?, hframes]
    rw [show exit? control = some exit from hexit]
    rfl
  have hleft : Sound True
      (Machine.leave ⟨world, [running], .dispatching s :: rest, control⟩ running [] exit) :=
    Sound.step (h.allow fun _ => trivial) hleaves
  have hreceives : ∃ b,
      (Machine.leave ⟨world, [running], .dispatching s :: rest, control⟩ running [] exit).step? =
      some b := ⟨_, hleft.step?_eq.trans rfl⟩
  obtain ⟨b, hstep⟩ := hreceives
  refine ⟨_, b, hleaves, hstep, ?_⟩
  have htold :
      (Machine.leave ⟨world, [running], .dispatching s :: rest, control⟩ running [] exit).control =
      .back (running.leave .finished) exit := rfl
  have hback := pools_back (s := s) hleft rfl htold hstep
  rw [hback, pools_leave]
  rfl

/-- What a step does to the pools. -/
inductive Pooling (m m' : Machine) : Prop
  | keeps (h : m'.world.pools = m.world.pools)
  /-- The stack that was kept last goes to a task that its scheduler starts. -/
  | hands {s : SchedulerId} {running : Running} (hrunning : m'.running = [running])
      (hhome : running.home = some s) (h : m.world.Hands s running.stack m'.world)
  /-- A scheduler takes back the stack of a fiber of its own that completed or failed. -/
  | takesBack {s : SchedulerId} {fiber : Fiber} {exit : Exit}
      (hcontrol : m.control = .back fiber exit) (hhome : fiber.home = some s)
      (hexit : exit.givesBack = true)
      (h : m'.world.pools = m.world.pools.modify s.index fun pool => pool.put fiber.stack)

theorem Sound.pooling (h : m.Sound byHand) (h' : m'.Sound byHand) (hstep : m.step? = some m') :
    m.Pooling m' := by
  by_cases hback : ∃ s frames fiber exit, m.top = .dispatching s :: frames ∧
    m.control = .back fiber exit
  · obtain ⟨s, frames, fiber, exit, htop, hcontrol⟩ := hback
    have hpools := pools_back h htop hcontrol hstep
    cases hexit : exit.givesBack with
    | false => exact .keeps (by rwa [hexit] at hpools)
    | true =>
      have haccepts := h.accepts
      rw [htop, hcontrol] at haccepts
      have hentered := haccepts.1
      unfold World.Entered at hentered
      split at hentered
      next heq => cases heq
      next heq =>
        cases heq
        exact .takesBack hcontrol hentered.2.1 hexit (by rwa [hexit] at hpools)
      · exact hentered.elim
  · by_cases hdrain : ∃ s ran max frames, m.top = .draining s ran max :: frames ∧
      m.control = .advance
    · obtain ⟨s, ran, max, frames, htop, hcontrol⟩ := hdrain
      rcases pools_turns h htop hcontrol hstep with
        hsame | ⟨running, below, hrunning, hhome, hhands⟩
      · exact .keeps hsame
      · obtain ⟨hbelow, -⟩ := h'.dispatched_of_home hrunning hhome
        subst hbelow
        exact .hands hrunning hhome hhands
    · obtain ⟨-, hpools, -⟩ :=
        World.admits_pools.move h.kept.balanced.linked (h.step?_eq.symm.trans hstep)
        (fun s ran max frames htop hcontrol => hdrain ⟨s, ran, max, frames, htop, hcontrol⟩)
        (fun s frames fiber exit htop hcontrol => hback ⟨s, frames, fiber, exit, htop, hcontrol⟩)
        fun _ _ _ _ _ _ => rfl
      exact .keeps hpools

/-- Fibers and stacks are where they belong. -/
structure Confined (m : Machine) : Prop where
  queued : ∀ s, ∀ entry ∈ m.world.queue s, m.Owns s entry
  /-- A fiber that a scheduler parked is one of its own. -/
  parked : ∀ x cell fiber s, m.world.handles.get? x = some cell →
    cell.slot = .parked fiber (.scheduler s) → fiber.home = some s
  entered : ∀ running below s, m.running = running :: below → running.home = some s →
    below = [] ∧ ∃ rest, m.root = .dispatching s :: rest
  /-- No stack is in two places. -/
  stacked : (m.stacked.map Stack.label).Nodup
  idle : ∀ s scheduler, m.world.scheduler? s = some scheduler → ∀ stack ∈ scheduler.pool.idle,
    stack.source = .scheduler s ∧ Rounds scheduler.pool.config.stackSize stack.size
  bounded : ∀ s scheduler, m.world.scheduler? s = some scheduler →
    scheduler.pool.config.maxIdle ≠ 0 → scheduler.pool.idle.length ≤ scheduler.pool.config.maxIdle

theorem Sound.confined (h : m.Sound byHand) : m.Confined where
  queued s entry member := h.owns_of_mem member
  parked x cell fiber s hcell hslot := (h.kept.orderly.parked x cell fiber _ hcell hslot).1.home_eq
  entered running below s hrunning hhome := h.dispatched_of_home hrunning hhome
  stacked := h.nodup_stacks
  idle s scheduler hs stack hidle := h.idle_suits hs hidle
  bounded s scheduler hs hmax := by
    have hbound :=
      h.kept.balanced.bounded s scheduler.pool.config (by rw [World.poolConfig, hs]; rfl) hmax
    rwa [World.idleStacks, hs] at hbound

theorem Sound.dispatches_own (h : m.Sound True) (hstep : m.step? = some m') (s : SchedulerId) :
    m'.world.dispatched s = m.world.dispatched s ∨
      ∃ entry, m'.world.dispatched s = m.world.dispatched s ++ [entry] ∧ m.Owns s entry :=
  (h.dispatches (h.step hstep) hstep s).imp_right fun ⟨entry, heq, htransfers⟩ =>
    ⟨entry, heq, h.owns_of_transfers htransfers⟩

/-- All that a scheduler ever dispatched are fibers of its own. -/
def KeptHome (m : Machine) : Prop :=
  ∀ s fiber resumption, .woken fiber resumption ∈ m.world.dispatched s → fiber.home = some s

theorem Visits.keptHome {script : Script} (h : Visits (fun _ => True) script.start m) :
    m.KeptHome := by
  have hbegin : ∀ action, KeptHome (Script.begin script.start action) := by
    intro action s fiber resumption member
    change _ ∈ script.start.told _ at member
    rw [World.told_start] at member
    cases member
  refine h.induct hbegin (fun a b ha _ hstep _ ih s fiber resumption member => ?_)
    (fun a w _ _ hstirs ih s fiber resumption member => ?_)
    fun a w root _ ih _ hbetween _ _ s fiber resumption member => ?_
  · rcases (ha.sound fun _ _ _ _ => trivial : a.Sound True).dispatches_own hstep s with
      hsame | ⟨last, hlast, howns⟩
    · exact ih s fiber resumption (hsame ▸ member)
    · rw [hlast, List.mem_append, List.mem_singleton] at member
      rcases member with member | rfl
      · exact ih s fiber resumption member
      · exact howns.1
  · change _ ∈ w.told _ at member
    rw [hstirs.noProgress.told (Mark.heeds_dispatched? s)] at member
    exact ih s fiber resumption member
  · change _ ∈ w.told _ at member
    rw [hbetween.noArrivals.told (Mark.heeds_dispatched? s)] at member
    exact ih s fiber resumption member

/-- A scheduler dispatches only what was enqueued on it, in whatever way the fiber came
to be woken, and all fibers and stacks are where they belong. A pool gives its stacks to
tasks of its scheduler and gets them back just if those complete or fail; whatever is
unwound leaves the pools alone. -/
theorem fibers_keep_to_their_scheduler {script : Script}
    (h : Visits (fun _ => True) script.start m) : m.Confined ∧ m.KeptHome ∧
      (∀ m' s, m.step? = some m' → m'.world.dispatched s = m.world.dispatched s ∨
        ∃ entry, m'.world.dispatched s = m.world.dispatched s ++ [entry] ∧ m.Owns s entry) ∧
      (∀ m', m.step? = some m' → m.Pooling m') ∧
      (∀ running below exit s, m.running = running :: below → m.top = [] →
        exit? m.control = some exit → running.home = some s →
        ∃ a b, m.step? = some a ∧ a.step? = some b ∧ b.world.pools =
          if exit.givesBack then m.world.pools.modify s.index fun pool => pool.put running.stack
          else m.world.pools) ∧
      ∀ work, (m.world.release work).pools = m.world.pools := by
  have hm : m.Sound True := h.sound fun _ _ _ _ => trivial
  exact ⟨hm.confined, h.keptHome, fun m' s hstep => hm.dispatches_own hstep s,
    fun m' hstep => hm.pooling (hm.step hstep) hstep,
    fun running below exit s hrunning htop hexit hhome => hm.gives_back hrunning htop hexit hhome,
    fun work => World.pools_release _ work⟩

/-- The task that was resumed completes, and its stack goes back to the pool it came from. -/
theorem waiting_stack_is_given_back :
    (waiting 14).Confined ∧ (waiting 14).stacked.length = 1 ∧
      ∃ a b, (waiting 14).step? = some a ∧ a.step? = some b ∧
        b.world.pools = (waiting 14).world.pools.modify 0 fun pool =>
          pool.put ⟨0, 262144, .scheduler ⟨0⟩⟩ := by
  have hrunning : ∃ running, (waiting 14).running = [running] ∧ running.home = some ⟨0⟩ ∧
      running.stack = ⟨0, 262144, .scheduler ⟨0⟩⟩ :=
    ⟨_, by with_unfolding_all rfl, by with_unfolding_all rfl, by with_unfolding_all rfl⟩
  obtain ⟨running, hrunning, hhome, hstack⟩ := hrunning
  have hkept := fibers_keep_to_their_scheduler (visits_settle Script.single.start waitAndResume 14)
  obtain ⟨a, b, hleaves, hreceives, hpools⟩ := hkept.2.2.2.2.1 running [] .completed ⟨0⟩ hrunning
    (by with_unfolding_all rfl) (by with_unfolding_all rfl) hhome
  rw [hstack] at hpools
  exact ⟨hkept.1, by decide +kernel, a, b, hleaves, hreceives, hpools⟩

end Machine

end Fibers
