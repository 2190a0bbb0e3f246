import Fibers.Proofs.Rounds

/-!
Where tasks are. A machine is searched for everything that holds a task: entries
of queues, parked fibers, fibers under names, fibers that control is in, and the
ends that the history tells. The books of the ledger count the same things, so
every task that was enqueued is found once, and where it belongs.
-/

namespace Fibers

open Asset (taskOf fiberOf)
open Mark (enqueues starts finishes discards vanishes)

/-- A task, by the scheduler that it was enqueued on and its number there. -/
@[ext]
structure TaskId where
  scheduler : SchedulerId
  id : FiberId
deriving DecidableEq

inductive Place
  | fresh (queue : SchedulerId)
  | woken (queue : SchedulerId)
  /-- Control is in the fiber of the task, or is just coming out of it. -/
  | entered
  | parked (handle : HandleRef) (owner : Owner)
  /-- A coroutine has the fiber of the task under its name. -/
  | named
  /-- Completed, failed or panicked. -/
  | finished
  | discarded
deriving DecidableEq

/-- The places of a scheduler's own. -/
def Place.Befits (task : TaskId) : Place → Prop
  | .fresh queue => queue = task.scheduler
  | .woken queue => queue = task.scheduler
  | .parked _ owner => owner = .scheduler task.scheduler
  | .named => False
  | .entered | .finished | .discarded => True

/-- A task that was seen in a place. -/
structure Sighting where
  task : TaskId
  place : Place

/-- A fiber in a place; one that no scheduler made is no task. -/
def sight (home : Option SchedulerId) (id : FiberId) (place : Place) : List Sighting :=
  home.toList.map fun s => ⟨⟨s, id⟩, place⟩

def Runnable.sightings (queue : SchedulerId) : Runnable → List Sighting
  | .fresh id _ => [⟨⟨queue, id⟩, .fresh queue⟩]
  | .woken fiber _ => sight fiber.home fiber.id (.woken queue)

def HandleCell.sightings (n : Nat) (cell : HandleCell) : List Sighting :=
  match cell.slot with
  | .parked fiber owner => sight fiber.home fiber.id (.parked ⟨n⟩ owner)
  | _ => []

def Control.sightings : Control → List Sighting
  | .back fiber (.suspended _) => sight fiber.home fiber.id .entered
  | _ => []

def Happening.sightings : Happening → List Sighting
  | .mark (.ended fiber _) => sight fiber.home fiber.id .finished
  | .mark (.unstarted s id) => [⟨⟨s, id⟩, .finished⟩]
  | .mark (.discarded _ id home) => sight home id .discarded
  | .mark (.vanished s id) => [⟨⟨s, id⟩, .discarded⟩]
  | _ => []

/-- What is seen in the items of a table, which are numbered from `n`. -/
def seenIn {α : Type} (sightings : Nat → α → List Sighting) : Nat → List α → List Sighting
  | _, [] => []
  | n, item :: rest => sightings n item ++ seenIn sightings (n + 1) rest

def Scheduler.sightings (n : Nat) (scheduler : Scheduler) : List Sighting :=
  scheduler.queue.flatMap (Runnable.sightings ⟨n⟩)

def World.sightings (w : World) : List Sighting :=
  seenIn Scheduler.sightings 0 w.schedulers ++ seenIn HandleCell.sightings 0 w.handles.cells ++
    w.coroutines.values.flatMap (fun fiber => sight fiber.home fiber.id .named) ++
    w.history.toList.flatMap Happening.sightings

namespace Machine

def sightings (m : Machine) : List Sighting :=
  m.world.sightings ++ m.running.flatMap (fun running => sight running.home running.id .entered) ++
    m.control.sightings

/-- The places where a task is seen, one for each sighting. -/
def places (m : Machine) (task : TaskId) : List Place :=
  (m.sightings.filter fun sighting => sighting.task = task).map Sighting.place

/-- The history tells that the task was enqueued. -/
def Enqueued (m : Machine) (task : TaskId) : Prop :=
  ∃ body, .mark (.appended task.scheduler (.fresh task.id body)) ∈ m.world.history.toList

end Machine

/-! ### Counting sightings -/

/-- Counts the sightings of a task. -/
def Sighting.of (task : TaskId) (sighting : Sighting) : Nat := if sighting.task = task then 1 else 0

/-- Counts what a task is in the books: an entry that waits to start, or a fiber. -/
def Asset.ofTask (task : TaskId) (asset : Asset) : Nat :=
  taskOf task.scheduler task.id asset + fiberOf task.scheduler task.id asset

variable {task : TaskId}

theorem weigh_sight (home : Option SchedulerId) (id : FiberId) (place : Place) :
    weigh (Sighting.of task) (sight home id place) = if home = some task.scheduler ∧
      id = task.id then 1 else 0 := by
  obtain ⟨s, number⟩ := task
  cases home with
  | none => rfl
  | some other => simp [sight, Sighting.of]

theorem Machine.length_places (m : Machine) :
    (m.places task).length = weigh (Sighting.of task) m.sightings := by
  rw [places, List.length_map]
  induction m.sightings with
  | nil => rfl
  | cons sighting rest ih =>
    rw [List.filter_cons, weigh_cons, Sighting.of, ← ih]
    split <;> split <;> simp_all [Nat.add_comm]

theorem Asset.ofTask_guards (guards : List Datum) :
    weigh (Asset.ofTask task) (loosen (guards.map .guard)) = 0 := by
  rw [loosen, List.map_map]
  refine weigh_eq_zero _ fun asset member => ?_
  obtain ⟨value, -, rfl⟩ := List.mem_map.1 member
  rfl

theorem Asset.ofTask_kept (handles : List HandleRef) :
    weigh (Asset.ofTask task) (handles.map .kept) = 0 := by
  refine weigh_eq_zero _ fun asset member => ?_
  obtain ⟨handle, -, rfl⟩ := List.mem_map.1 member
  rfl

theorem Asset.ofTask_holds (stacked : List Stack) (holder : Option SchedulerId) :
    weigh (Asset.ofTask task) (stacked.map fun stack => .holds stack holder) = 0 := by
  refine weigh_eq_zero _ fun asset member => ?_
  obtain ⟨stack, -, rfl⟩ := List.mem_map.1 member
  rfl

theorem Asset.ofTask_cons_holds (stack : Stack) (holder : Option SchedulerId)
    (assets : List Asset) :
    weigh (Asset.ofTask task) (.holds stack holder :: assets) =
      weigh (Asset.ofTask task) assets := by
  rw [weigh_cons]
  exact Nat.zero_add _

/-- Frames hold no tasks. -/
theorem Frame.ofTask_assets (frame : Frame) : weigh (Asset.ofTask task) frame.assets = 0 := by
  unfold Frame.assets
  split
  · exact Asset.ofTask_guards _
  · rfl
  · rfl
  · rfl
  · exact Asset.ofTask_kept _
  · exact Asset.ofTask_kept _
  · rfl

theorem ofTask_framesAssets (frames : List Frame) :
    weigh (Asset.ofTask task) (framesAssets frames) = 0 := by
  rw [framesAssets, weigh_flatMap]
  exact weigh_eq_zero _ fun frame _ => frame.ofTask_assets

theorem Payload.ofTask_assets (payload : Payload) :
    weigh (Asset.ofTask task) payload.assets = 0 := by
  cases payload <;> rfl

theorem Resumption.ofTask_assets (resumption : Resumption) :
    weigh (Asset.ofTask task) resumption.assets = 0 := by
  cases resumption with
  | value payload => exact payload.ofTask_assets
  | error failure => rfl

theorem Ending.ofTask_assets (ending : Ending) : weigh (Asset.ofTask task) ending.assets = 0 := by
  cases ending with
  | done outcome => exact outcome.ofTask_assets
  | panicked => rfl

theorem ofTask_fiberAssets (serial : Nat) (id : FiberId) (home : Option SchedulerId)
    (frames : List Frame) (first : Payload) :
    weigh (Asset.ofTask task) (fiberAssets serial id home frames first) =
      if home = some task.scheduler ∧ id = task.id then 1 else 0 := by
  simp only [fiberAssets, weigh_cons, weigh_append, ofTask_framesAssets, Payload.ofTask_assets,
    Asset.ofTask, taskOf, fiberOf, Nat.zero_add, Nat.add_zero]

/-- A fiber that rests where it belongs is counted if it is seen. -/
theorem Fiber.Rests.sighted {fiber : Fiber} {home : Option SchedulerId} (h : fiber.Rests home)
    (place : Place) :
    weigh (Sighting.of task) (sight fiber.home fiber.id place) =
      weigh (Asset.ofTask task) fiber.assets := by
  rw [weigh_sight]
  obtain ⟨serial, id, other, stack, state⟩ := fiber
  obtain ⟨rfl, -, hsuspended⟩ := h
  rw [Fiber.assets, Asset.ofTask_cons_holds]
  cases state with
  | suspended frames first => exact (ofTask_fiberAssets ..).symm
  | unstarted | finished =>
    refine if_neg fun heq => ?_
    have := hsuspended (by rw [heq.1]; rfl)
    cases this

theorem weigh_seenIn_queues {n : Nat} {schedulers : List Scheduler}
    (h : ∀ (i : Nat) (scheduler : Scheduler) (fiber : Fiber) (resumption : Resumption),
      schedulers[i]? = some scheduler → .woken fiber resumption ∈ scheduler.queue →
        ∃ home, fiber.Rests home) :
    weigh (Sighting.of task) (seenIn Scheduler.sightings n schedulers) =
      weigh (Asset.ofTask task) (schedulersAssets n schedulers) := by
  induction schedulers generalizing n with
  | nil => rfl
  | cons scheduler rest ih =>
    rw [seenIn, schedulersAssets, Scheduler.assets, weigh_append, weigh_append, weigh_append,
      Asset.ofTask_holds, Nat.add_zero, ih fun i other fiber resumption hi =>
        h (i + 1) other fiber resumption hi]
    refine congrArg (· + _) ?_
    rw [Scheduler.sightings, weigh_flatMap, weigh_flatMap]
    refine weigh_congr _ fun entry member => ?_
    cases entry with
    | fresh id body =>
      simp [Runnable.sightings, Runnable.assets, Sighting.of, Asset.ofTask, taskOf, fiberOf,
        TaskId.ext_iff]
    | woken fiber resumption =>
      obtain ⟨home, hrests⟩ := h 0 scheduler fiber resumption rfl member
      rw [Runnable.sightings, Runnable.assets, weigh_append, resumption.ofTask_assets]
      exact hrests.sighted _

theorem weigh_seenIn_cells {n : Nat} {cells : List HandleCell}
    (h : ∀ (i : Nat) (cell : HandleCell) (fiber : Fiber) (owner : Owner), cells[i]? = some cell →
      cell.slot = .parked fiber owner → ∃ home, fiber.Rests home) :
    weigh (Sighting.of task) (seenIn HandleCell.sightings n cells) =
      weigh (fun cell => weigh (Asset.ofTask task) cell.assets) cells := by
  induction cells generalizing n with
  | nil => rfl
  | cons cell rest ih =>
    rw [seenIn, weigh_append, weigh_cons,
      ih fun i other fiber owner hi => h (i + 1) other fiber owner hi]
    refine congrArg (· + _) ?_
    rw [HandleCell.sightings, HandleCell.assets]
    cases hslot : cell.slot with
    | pending | spent => rfl
    | woken resumption => exact (resumption.ofTask_assets).symm
    | parked fiber owner =>
      obtain ⟨home, hrests⟩ := h 0 cell fiber owner rfl hslot
      exact hrests.sighted _

/-- The ends that the history tells are the ones that it tallies. -/
theorem World.weigh_history (w : World) (task : TaskId) :
    weigh (Sighting.of task) (w.history.toList.flatMap Happening.sightings) =
      w.tally (finishes task.scheduler task.id) + w.tally (discards task.scheduler task.id) +
        w.tally (vanishes task.scheduler task.id) := by
  rw [World.tally, World.tally, World.tally, weigh_flatMap]
  induction w.history.toList with
  | nil => rfl
  | cons happening rest ih =>
    have hhead : weigh (Sighting.of task) happening.sightings =
        happening.weight (finishes task.scheduler task.id) + happening.weight
          (discards task.scheduler task.id) +
          happening.weight (vanishes task.scheduler task.id) := by
      cases happening with
      | entry | event => rfl
      | mark told =>
        cases told <;>
          simp [Happening.sightings, Happening.weight, weigh_sight, finishes, discards,
          vanishes, Sighting.of, TaskId.ext_iff]
    simp only [weigh_cons, hhead, ih]
    omega

/-! ### Every task is seen once -/

theorem HostCall.ofTask_assets (call : HostCall) : weigh (Asset.ofTask task) call.assets = 0 := by
  obtain ⟨key, driver, state⟩ := call
  cases state with
  | holding handle work =>
    rw [HostCall.assets, weigh_cons, work.ending.ofTask_assets]
    rfl
  | handing => rfl

theorem World.worth_ofTask (w : World) (task : TaskId) :
    w.worth (Asset.ofTask task) = weigh (fun fiber => weigh (Asset.ofTask task) fiber.assets)
      w.coroutines.values +
      w.handles.worth (Asset.ofTask task) + weigh (Asset.ofTask task)
        (schedulersAssets 0 w.schedulers) := by
  have hslots : ∀ handles : List HandleRef,
      weigh (fun handle => Asset.ofTask task (.loose (.handle handle))) handles = 0 :=
    fun handles => weigh_eq_zero _ fun _ _ => rfl
  have hagenda : weigh (Asset.ofTask task) (agendaAssets w.agenda) = 0 := by
    cases w.agenda with
    | none => rfl
    | some agenda =>
      rw [agendaAssets, weigh_flatMap]
      exact weigh_eq_zero _ fun call _ => call.ofTask_assets
  have hdrivers : weigh (fun driver => weigh (Asset.ofTask task) (Driver.assets driver))
      w.drivers = 0 := by
    refine weigh_eq_zero _ fun driver _ => ?_
    rw [Driver.assets, weigh_cons, Asset.ofTask_kept]
    rfl
  have hpositions : weigh (fun position => weigh (Asset.ofTask task) (Position.assets position))
      w.positions = 0 := by
    refine weigh_eq_zero _ fun position _ => ?_
    rw [Position.assets]
    cases position.scheduler <;> rfl
  rw [World.worth, hslots, hslots, hagenda, hdrivers, hpositions]
  omega

namespace Machine

variable {byHand : Prop} {m m' : Machine}

theorem Sound.weigh_sightings (h : m.Sound byHand) (task : TaskId) :
    weigh (Sighting.of task) m.sightings =
      m.world.worth (Asset.ofTask task) + weigh (Asset.ofTask task) m.assets +
        (m.world.tally (finishes task.scheduler task.id) + m.world.tally
          (discards task.scheduler task.id) + m.world.tally (vanishes task.scheduler task.id)) := by
  have hqueues : weigh (Sighting.of task) (seenIn Scheduler.sightings 0 m.world.schedulers) = _ :=
    weigh_seenIn_queues fun i scheduler fiber resumption hi member => by
      refine ⟨_, h.kept.orderly.queued ⟨i⟩ fiber resumption ?_⟩
      rw [World.queue, World.scheduler?, hi]
      exact member
  have hcells : weigh (Sighting.of task)
      (seenIn HandleCell.sightings 0 m.world.handles.cells) = _ :=
    weigh_seenIn_cells fun i cell fiber owner hi hparked =>
      ⟨_, (h.kept.orderly.parked ⟨i⟩ cell fiber owner hi hparked).1⟩
  have hnamed : weigh (Sighting.of task)
      (m.world.coroutines.values.flatMap fun fiber => sight fiber.home fiber.id .named) =
        weigh (fun fiber => weigh (Asset.ofTask task) fiber.assets) m.world.coroutines.values := by
    rw [weigh_flatMap]
    exact weigh_congr _ fun fiber member => (h.kept.orderly.named fiber member).sighted _
  have hrunning : weigh (Sighting.of task)
      (m.running.flatMap fun running => sight running.home running.id .entered) =
        weigh (Asset.ofTask task) (m.running.flatMap Running.assets) := by
    rw [weigh_flatMap, weigh_flatMap]
    refine weigh_congr _ fun running _ => ?_
    rw [weigh_sight, Running.assets, Asset.ofTask_cons_holds, ofTask_fiberAssets]
  have hcontrol : weigh (Sighting.of task) m.control.sightings =
      weigh (Asset.ofTask task) m.control.assets := by
    have haccepts := h.accepts
    generalize m.control = control at haccepts
    cases control with
    | advance | raise | panicking | answer => rfl
    | resumed resumption => exact (resumption.ofTask_assets).symm
    | back fiber exit =>
      obtain ⟨-, -, hsuspended⟩ := haccepts
      obtain ⟨serial, id, home, stack, state⟩ := fiber
      cases exit with
      | suspended handle =>
        have := hsuspended.2 ⟨handle, rfl⟩
        cases state with
        | unstarted | finished => cases this
        | suspended frames first =>
          rw [Control.sightings, weigh_sight, Control.assets, weigh_append, Fiber.assets,
            Asset.ofTask_cons_holds]
          exact (ofTask_fiberAssets ..).symm
      | completed | failed | panicked =>
        cases state with
        | unstarted | finished => rfl
        | suspended frames first =>
          obtain ⟨handle, heq⟩ := hsuspended.1 rfl
          cases heq
  have hlevels := m.weigh_levels (Asset.ofTask task)
  rw [ofTask_framesAssets, ofTask_framesAssets] at hlevels
  have hassets : weigh (Asset.ofTask task) m.assets =
      weigh (Asset.ofTask task) m.control.assets + weigh (Asset.ofTask task) m.beneath := by
    rw [Machine.assets, weigh_append, weigh_append, ofTask_framesAssets, Nat.zero_add]
  have hhistory := m.world.weigh_history task
  have hworth := m.world.worth_ofTask task
  rw [sightings, weigh_append, weigh_append, World.sightings, weigh_append,
    weigh_append, weigh_append]
  rw [HandleTable.worth] at hworth
  omega

/-- A task is seen as often as it was enqueued. -/
theorem Sound.length_places (h : m.Sound byHand) (task : TaskId) :
    (m.places task).length = m.world.tally (enqueues task.scheduler task.id) := by
  have htasks := h.kept.balanced.tasks task.scheduler task.id
  have hfibers := h.kept.balanced.fibers task.scheduler task.id
  have hsightings := h.weigh_sightings task
  have hworth : m.world.worth (Asset.ofTask task) = _ :=
    m.world.worth_add (taskOf task.scheduler task.id) (fiberOf task.scheduler task.id)
  have hassets : weigh (Asset.ofTask task) m.assets = _ :=
    weigh_add (taskOf task.scheduler task.id) (fiberOf task.scheduler task.id) m.assets
  rw [Machine.length_places, hsightings]
  omega

theorem Sound.enqueues_le (h : m.Sound byHand) (task : TaskId) :
    m.world.tally (enqueues task.scheduler task.id) ≤ 1 := by
  rw [h.kept.balanced.numbered]
  split <;> omega

theorem Sound.starts_le (h : m.Sound byHand) (task : TaskId) :
    m.world.tally (starts task.scheduler task.id) ≤ 1 := by
  have htasks := h.kept.balanced.tasks task.scheduler task.id
  have := h.enqueues_le task
  omega

theorem Sound.places_eq_of_mem (h : m.Sound byHand) {task : TaskId} {place : Place}
    (member : place ∈ m.places task) : m.places task = [place] := by
  have hlength := h.length_places task
  have := h.enqueues_le task
  cases hplaces : m.places task with
  | nil =>
    rw [hplaces] at member
    cases member
  | cons first rest =>
    rw [hplaces, List.length_cons] at hlength
    have hrest : rest = [] := List.length_eq_zero_iff.1 (by omega)
    rw [hplaces, hrest] at member
    rw [hrest, List.mem_singleton.1 member]

theorem mem_places {task : TaskId} {place : Place} :
    place ∈ m.places task ↔ ⟨task, place⟩ ∈ m.sightings := by
  rw [places, List.mem_map]
  constructor
  · rintro ⟨⟨other, seen⟩, member, rfl⟩
    obtain ⟨member, htask⟩ := List.mem_filter.1 member
    exact of_decide_eq_true htask ▸ member
  · exact fun member => ⟨_, List.mem_filter.2 ⟨member, decide_eq_true rfl⟩, rfl⟩

theorem enqueued_iff (m : Machine) (task : TaskId) :
    m.Enqueued task ↔ 0 < m.world.tally (enqueues task.scheduler task.id) := by
  constructor
  · rintro ⟨body, member⟩
    have := le_weigh_of_mem (Happening.weight (enqueues task.scheduler task.id)) member
    simp only [Happening.weight, enqueues, and_self, if_true] at this
    exact this
  · intro hpos
    by_contra hnone
    have hzero : m.world.tally (enqueues task.scheduler task.id) = 0 := by
      refine weigh_eq_zero _ fun happening member => ?_
      cases happening with
      | entry | event => rfl
      | mark told =>
        cases told with
        | appended s entry =>
          cases entry with
          | fresh id body =>
            refine if_neg ?_
            rintro ⟨rfl, rfl⟩
            exact hnone ⟨body, member⟩
          | woken => rfl
        | _ => rfl
    omega

end Machine

/-! ### Where a task belongs -/

theorem mem_sight {home : Option SchedulerId} {id : FiberId} {place : Place} {sighting : Sighting} :
    sighting ∈ sight home id place ↔
      home = some sighting.task.scheduler ∧ id = sighting.task.id ∧ place = sighting.place := by
  obtain ⟨⟨s, number⟩, seen⟩ := sighting
  cases home <;> simp [sight, eq_comm, and_assoc]

theorem mem_seenIn {α : Type} {sightings : Nat → α → List Sighting} {n : Nat} {items : List α}
    {sighting : Sighting} : sighting ∈ seenIn sightings n items ↔
      ∃ i item, items[i]? = some item ∧ sighting ∈ sightings (n + i) item := by
  induction items generalizing n with
  | nil => simp [seenIn]
  | cons item rest ih =>
    rw [seenIn, List.mem_append, ih]
    constructor
    · rintro (hfirst | ⟨i, other, hi, hfound⟩)
      · exact ⟨0, item, rfl, hfirst⟩
      · exact ⟨i + 1, other, hi, by rwa [Nat.add_right_comm] at hfound⟩
    · rintro ⟨i, other, hi, hfound⟩
      cases i with
      | zero =>
        cases hi
        exact .inl hfound
      | succ i => exact .inr ⟨i, other, hi, by rwa [Nat.add_right_comm]⟩

theorem World.Orderly.befits {w : World} (h : w.Orderly) {sighting : Sighting}
    (member : sighting ∈ w.sightings) : sighting.place.Befits sighting.task := by
  rw [World.sightings, List.mem_append, List.mem_append, List.mem_append, mem_seenIn,
    mem_seenIn, List.mem_flatMap, List.mem_flatMap] at member
  rcases member with ((⟨i, scheduler, hi, hseen⟩ | ⟨i, cell, hi, hseen⟩) | ⟨fiber, hfiber, hseen⟩) |
    ⟨happening, -, hseen⟩
  · obtain ⟨entry, hentry, hseen⟩ := List.mem_flatMap.1 hseen
    rw [Nat.zero_add] at hseen
    cases entry with
    | fresh id body =>
      cases List.mem_singleton.1 hseen
      rfl
    | woken fiber resumption =>
      have hrests := h.queued ⟨i⟩ fiber resumption (by rwa [World.queue, World.scheduler?, hi])
      obtain ⟨hhome, -, hplace⟩ := mem_sight.1 hseen
      rw [← hplace]
      rw [hrests.home_eq] at hhome
      exact Option.some.inj hhome
  · rw [HandleCell.sightings] at hseen
    split at hseen
    next fiber owner hparked =>
      have hrests := (h.parked ⟨i⟩ cell fiber owner hi hparked).1
      obtain ⟨hhome, -, hplace⟩ := mem_sight.1 hseen
      rw [← hplace]
      rw [hrests.home_eq] at hhome
      cases owner with
      | scheduler s => exact congrArg _ (Option.some.inj hhome)
      | caller => cases hhome
    next => cases hseen
  · obtain ⟨hhome, -, -⟩ := mem_sight.1 hseen
    rw [(h.named fiber hfiber).home_eq] at hhome
    cases hhome
  · cases happening with
    | entry | event => cases hseen
    | mark told =>
      cases told with
      | ended | discarded =>
        obtain ⟨-, -, hplace⟩ := mem_sight.1 hseen
        rw [← hplace]
        trivial
      | unstarted | vanished =>
        cases List.mem_singleton.1 hseen
        trivial
      | _ => cases hseen

namespace Machine

variable {byHand : Prop} {m m' : Machine} {s : SchedulerId}

theorem Sound.befits (h : m.Sound byHand) {task : TaskId} {place : Place}
    (member : place ∈ m.places task) : place.Befits task := by
  have hseen := mem_places.1 member
  rw [sightings, List.mem_append, List.mem_append, List.mem_flatMap] at hseen
  rcases hseen with (hseen | ⟨running, -, hseen⟩) | hseen
  · exact h.kept.orderly.befits hseen
  · obtain ⟨-, -, rfl⟩ := mem_sight.1 hseen
    trivial
  · rw [Control.sightings.eq_def] at hseen
    split at hseen
    · obtain ⟨-, -, rfl⟩ := mem_sight.1 hseen
      trivial
    · cases hseen

/-! ### Transfers -/

/-- A scheduler transfers control into the task of an entry. A task that begins was
a fresh entry of its queue, and any other task was queued or parked with the fiber
that is entered; nothing was running. -/
inductive Transfers (m : Machine) (s : SchedulerId) (m' : Machine) : Runnable → Prop
  | begun {id : FiberId} {body : List Action} {running : Running}
      (hbefore : m.places ⟨s, id⟩ = [.fresh s]) (hafter : m'.places ⟨s, id⟩ = [.entered])
      (hidle : m.running = []) (hentered : m'.running = [running])
      (hframes : running.frames = [.actions body []]) (hcontrol : m'.control = .advance) :
      Transfers m s m' (.fresh id body)
  /-- Without a stack a task fails before it begins. -/
  | unstarted {id : FiberId} {body : List Action} (hbefore : m.places ⟨s, id⟩ = [.fresh s])
      (hafter : m'.places ⟨s, id⟩ = [.finished]) (hidle : m.running = [])
      (hentered : m'.running = []) :
      Transfers m s m' (.fresh id body)
  | resumed {fiber : Fiber} {resumption : Resumption} {running : Running}
      (hhome : fiber.home = some s) (hbefore : m.places ⟨s, fiber.id⟩ = [.woken s] ∨
        ∃ x, m.places ⟨s, fiber.id⟩ = [.parked x (.scheduler s)])
      (hafter : m'.places ⟨s, fiber.id⟩ = [.entered]) (hidle : m.running = [])
      (hentered : m'.running = [running])
      (hfiber : fiber = running.leave (.suspended running.frames running.first))
      (hcontrol : m'.control = .resumed resumption) : Transfers m s m' (.woken fiber resumption)

theorem mem_sightings_queue {entry : Runnable} {sighting : Sighting}
    (member : entry ∈ m.world.queue s) (hseen : sighting ∈ entry.sightings s) :
    sighting ∈ m.sightings := by
  have hscheduler : ∃ scheduler, m.world.schedulers[s.index]? = some scheduler ∧
      entry ∈ scheduler.queue := by
    rw [World.queue, World.scheduler?] at member
    split at member
    · cases member
    next scheduler hs => exact ⟨scheduler, hs, member⟩
  obtain ⟨scheduler, hs, hentry⟩ := hscheduler
  have hqueue : sighting ∈ seenIn Scheduler.sightings 0 m.world.schedulers := by
    refine mem_seenIn.2 ⟨s.index, scheduler, hs, ?_⟩
    rw [Nat.zero_add]
    exact List.mem_flatMap.2 ⟨entry, hentry, hseen⟩
  simp only [sightings, World.sightings, List.mem_append]
  exact .inl (.inl (.inl (.inl (.inl hqueue))))

theorem mem_sightings_parked {x : HandleRef} {cell : HandleCell} {fiber : Fiber} {owner : Owner}
    {sighting : Sighting} (hcell : m.world.handles.get? x = some cell)
    (hslot : cell.slot = .parked fiber owner)
    (hseen : sighting ∈ sight fiber.home fiber.id (.parked x owner)) : sighting ∈ m.sightings := by
  have hcells : sighting ∈ seenIn HandleCell.sightings 0 m.world.handles.cells := by
    refine mem_seenIn.2 ⟨x.index, cell, hcell, ?_⟩
    rw [Nat.zero_add, HandleCell.sightings, hslot]
    exact hseen
  simp only [sightings, World.sightings, List.mem_append]
  exact .inl (.inl (.inl (.inl (.inr hcells))))

theorem Sound.places_running (h : m.Sound byHand) {running : Running}
    (hrunning : m.running = [running]) (hhome : running.home = some s) :
    m.places ⟨s, running.id⟩ = [.entered] := by
  refine h.places_eq_of_mem (mem_places.2 ?_)
  simp only [sightings, List.mem_append, hrunning, List.flatMap_singleton]
  exact .inl (.inr (mem_sight.2 ⟨hhome, rfl, rfl⟩))

theorem Sound.places_finished (h : m.Sound byHand) {task : TaskId}
    (hpos : 0 < m.world.tally (finishes task.scheduler task.id)) : m.places task = [.finished] := by
  have hfound : ∃ happening ∈ m.world.history.toList,
      (⟨task, .finished⟩ : Sighting) ∈ happening.sightings := by
    by_contra hnone
    have hzero : m.world.tally (finishes task.scheduler task.id) = 0 := by
      refine weigh_eq_zero _ fun happening member => ?_
      have hunseen := fun hseen => hnone ⟨happening, member, hseen⟩
      cases happening with
      | entry | event => rfl
      | mark told =>
        cases told with
        | ended fiber exit => exact if_neg fun heq => hunseen (mem_sight.2 ⟨heq.1, heq.2, rfl⟩)
        | unstarted s id =>
          refine if_neg ?_
          rintro ⟨rfl, rfl⟩
          exact hunseen (List.mem_singleton.2 rfl)
        | _ => rfl
    omega
  refine h.places_eq_of_mem (mem_places.2 ?_)
  simp only [sightings, World.sightings, List.mem_append]
  exact .inl (.inl (.inr (List.mem_flatMap.2 hfound)))

/-- What is started was queued or parked. -/
theorem Starts.transfers {rest : List Frame} {entry : Runnable} (h : m.Sound byHand)
    (h' : m'.Sound byHand) (hidle : m.running = []) (hstarts : Starts s rest m m' entry)
    (hheld : entry ∈ m.world.queue s ∨ ∃ x cell fiber resumption, entry = .woken fiber resumption ∧
      m.world.handles.get? x = some cell ∧ cell.slot = .parked fiber (.scheduler s)) :
    Transfers m s m' entry := by
  have hfresh : ∀ {id body}, entry = .fresh id body → m.places ⟨s, id⟩ = [.fresh s] := by
    rintro id body rfl
    rcases hheld with member | ⟨x, cell, fiber, resumption, heq, -⟩
    · exact h.places_eq_of_mem
        (mem_places.2 (mem_sightings_queue member (List.mem_singleton.2 rfl)))
    · cases heq
  cases hstarts with
  | unstarted hrunning hroot hcontrol hfailed =>
    exact .unstarted (hfresh rfl) (h'.places_finished (by rw [hfailed]; exact Nat.succ_pos _))
      hidle hrunning
  | started hrunning hroot hhome hid hframes hcontrol =>
    exact .begun (hfresh rfl) (hid ▸ h'.places_running hrunning hhome) hidle hrunning
      hframes hcontrol
  | @resumed fiber resumption running hrunning hroot hfiber hcontrol =>
    have hplaces : fiber.home = some s ∧ (m.places ⟨s, fiber.id⟩ = [.woken s] ∨
        ∃ x, m.places ⟨s, fiber.id⟩ = [.parked x (.scheduler s)]) := by
      rcases hheld with member | ⟨x, cell, other, told, heq, hcell, hslot⟩
      · have hhome := (h.kept.orderly.queued s fiber resumption member).home_eq
        exact ⟨hhome, .inl (h.places_eq_of_mem (mem_places.2
          (mem_sightings_queue member (mem_sight.2 ⟨hhome, rfl, rfl⟩))))⟩
      · cases heq
        have hhome := (h.kept.orderly.rests_of_met hcell hslot).home_eq
        exact ⟨hhome, .inr ⟨x, h.places_eq_of_mem (mem_places.2
          (mem_sightings_parked hcell hslot (mem_sight.2 ⟨hhome, rfl, rfl⟩)))⟩⟩
    obtain ⟨hhome, hbefore⟩ := hplaces
    have hafter : m'.places ⟨s, fiber.id⟩ = [.entered] := by
      have hrunhome : running.home = some s := by rw [← hhome, hfiber]; rfl
      have hid : fiber.id = running.id := by rw [hfiber]; rfl
      rw [hid]
      exact h'.places_running hrunning hrunhome
    exact .resumed hhome hbefore hafter hidle hrunning hfiber hcontrol

/-- A step dispatches nothing, or one entry, which control is transferred into. -/
theorem Sound.dispatches (h : m.Sound byHand) (h' : m'.Sound byHand) (hstep : m.step? = some m')
    (s : SchedulerId) :
    m'.world.dispatched s = m.world.dispatched s ∨
      ∃ entry, m'.world.dispatched s = m.world.dispatched s ++ [entry] ∧
        Transfers m s m' entry := by
  cases h.serves hstep s with
  | passes hpasses => exact .inl hpasses.dispatched
  | appends hway hbefore hgains howners hafter =>
    exact .inl (by rw [hafter.dispatched, hgains.dispatched, hbefore.dispatched])
  | @takes ran max frames entry htakes =>
    obtain ⟨u, hgives, -, hafter⟩ := htakes.gives
    refine .inr ⟨entry, by rw [hafter.dispatched, hgives.dispatched], ?_⟩
    exact htakes.starts.transfers h h' htakes.running (.inl (hgives.queue ▸ List.mem_cons_self ..))
  | @jumps x cell fiber resumption u frames hrunning hcell hslot hbefore hafter hstarts =>
    refine .inr ⟨_, ?_, hstarts.transfers h h' hrunning
      (.inr ⟨x, cell, fiber, resumption, rfl, hcell, hslot⟩)⟩
    rw [hafter.dispatched, ← hbefore.dispatched, World.dispatched, World.told_mark,
      Mark.dispatched?, if_pos rfl]
    rfl

/-- Every task that was enqueued is in one place, once, and where it belongs: a task
is begun at most once, and what a scheduler transfers control into was waiting in its
queue or parked on its behalf, and is neither running nor finished. -/
theorem tasks_have_one_place {script : Script} (h : Visits (fun _ => True) script.start m) :
    (∀ task, m.Enqueued task → ∃ place, m.places task = [place] ∧ place.Befits task) ∧
      (∀ task, ¬m.Enqueued task → m.places task = []) ∧
      (∀ task : TaskId, m.world.tally (starts task.scheduler task.id) ≤ 1) ∧
      ∀ m' s, m.step? = some m' → m'.world.dispatched s = m.world.dispatched s ∨
        ∃ entry, m'.world.dispatched s = m.world.dispatched s ++ [entry] ∧
          Transfers m s m' entry := by
  have hsound : m.Sound True := h.sound fun _ _ _ _ => trivial
  refine ⟨fun task henqueued => ?_, fun task henqueued => ?_, hsound.starts_le,
    fun m' s hstep => ?_⟩
  · have hpos := (m.enqueued_iff task).1 henqueued
    have hlength := hsound.length_places task
    cases hplaces : m.places task with
    | nil =>
      rw [hplaces, List.length_nil] at hlength
      omega
    | cons place rest =>
      have member : place ∈ m.places task := hplaces ▸ List.mem_cons_self ..
      exact ⟨place, hplaces ▸ hsound.places_eq_of_mem member, hsound.befits member⟩
  · have hzero := mt (m.enqueued_iff task).2 henqueued
    exact List.length_eq_zero_iff.1 (by rw [hsound.length_places]; omega)
  · have hstepped := h.leads (.steps .refl hstep fun _ _ => trivial)
    exact hsound.dispatches (hstepped.sound fun _ _ _ _ => trivial) hstep s

theorem waiting_task_has_one_place :
    (waiting 11).places ⟨⟨0⟩, ⟨1⟩⟩ = [.parked ⟨0⟩ (.scheduler ⟨0⟩)] ∧
      (∃ place, (waiting 11).places ⟨⟨0⟩, ⟨1⟩⟩ = [place] ∧ place.Befits ⟨⟨0⟩, ⟨1⟩⟩) ∧
      ∃ entry, Transfers (waiting 11) ⟨0⟩ (waiting 12) entry := by
  have hplaces := tasks_have_one_place (visits_settle Script.single.start waitAndResume 11)
  refine ⟨by decide +kernel, hplaces.1 _ ((enqueued_iff _ _).2 (by decide +kernel)), ?_⟩
  rcases hplaces.2.2.2 (waiting 12) ⟨0⟩ (by with_unfolding_all rfl) with
    hsame | ⟨entry, -, htransfers⟩
  · have hlength : ((waiting 12).world.dispatched ⟨0⟩).length ≠
      ((waiting 11).world.dispatched ⟨0⟩).length := by
      decide +kernel
    exact absurd (congrArg List.length hsame) hlength
  · exact ⟨entry, htransfers⟩

end Machine

end Fibers
