import Fibers.Proofs.Counting
import Fibers.Proofs.Whereabouts

/-!
Where the tasks that a scheduler has counted are. Every task of a scheduler is seen
once: in its queue, parked for it, in the fiber it is dispatching, or among the tasks
that ended or were discarded. Together with what it counts this gives the equation
between its counters and what there is.
-/

namespace Fibers

/-- Counts the sightings of tasks of a scheduler. -/
def Sighting.among (s : SchedulerId) (sighting : Sighting) : Nat :=
  if sighting.task.scheduler = s then 1 else 0

/-- The cell keeps a fiber for the scheduler, and somebody holds the handle. -/
def HandleCell.keepsFor (s : SchedulerId) (cell : HandleCell) : Bool :=
  match cell.slot with
  | .parked _ (.scheduler t) => t = s && 0 < cell.clones
  | _ => false

/-- The task of a scheduler that a mark says was discarded while it was suspended. -/
def Mark.discarded? (s : SchedulerId) : Mark → Option FiberId
  | .discarded _ id home => if home = some s then some id else none
  | _ => none

/-- The task that a mark says went with the queue of its scheduler. -/
def Mark.vanished? (s : SchedulerId) : Mark → Option FiberId
  | .vanished other id => if other = s then some id else none
  | _ => none

namespace World

/-- How many fibers are parked for a scheduler, in handles that are alive. -/
def parkedFor (w : World) (s : SchedulerId) : Nat := w.handles.cells.countP (HandleCell.keepsFor s)

/-- The tasks of a scheduler that were discarded while they were suspended. -/
def discarded (w : World) (s : SchedulerId) : List FiberId := w.told (Mark.discarded? s)

/-- The tasks that went with the queue of a scheduler. -/
def vanished (w : World) (s : SchedulerId) : List FiberId := w.told (Mark.vanished? s)

end World

section Among

variable {s : SchedulerId}

theorem weigh_among_sight (home : Option SchedulerId) (id : FiberId) (place : Place) :
    weigh (Sighting.among s) (sight home id place) = home.toList.count s := by
  cases home with
  | none => rfl
  | some t => simp [sight, Sighting.among, List.count_cons]

theorem weigh_among_queues {n : Nat} {schedulers : List Scheduler}
    (h : ∀ (i : Nat) (scheduler : Scheduler) (fiber : Fiber) (resumption : Resumption),
      schedulers[i]? = some scheduler → .woken fiber resumption ∈ scheduler.queue →
        fiber.home = some ⟨n + i⟩) :
    weigh (Sighting.among s) (seenIn Scheduler.sightings n schedulers) =
      if n ≤ s.index then (schedulers[s.index - n]?).elim 0 fun scheduler =>
        scheduler.queue.length else 0 := by
  obtain ⟨k⟩ := s
  induction schedulers generalizing n with
  | nil => simp [seenIn]
  | cons scheduler rest ih =>
    have hentry : ∀ entry ∈ scheduler.queue,
        weigh (Sighting.among ⟨k⟩) (entry.sightings ⟨n⟩) = if n = k then 1 else 0 := by
      intro entry member
      cases entry with
      | fresh id body => simp [Runnable.sightings, Sighting.among]
      | woken fiber resumption =>
        rw [Runnable.sightings, weigh_among_sight, h 0 scheduler fiber resumption rfl member]
        simp [List.count_cons]
    have hhead : weigh (Sighting.among ⟨k⟩) (scheduler.sightings n) =
        if n = k then scheduler.queue.length else 0 := by
      rw [Scheduler.sightings, weigh_flatMap, weigh_congr _ hentry]
      split <;> simp [weigh_const]
    rw [seenIn, weigh_append, hhead, ih fun i other fiber resumption hi member => by
      rw [h (i + 1) other fiber resumption hi member, Nat.add_right_comm, Nat.add_assoc]]
    rcases Nat.lt_trichotomy n k with hlt | rfl | hgt
    · have hindex : k - n = k - (n + 1) + 1 := by omega
      rw [if_neg (Nat.ne_of_lt hlt), if_pos (Nat.succ_le_of_lt hlt),
        if_pos (Nat.le_of_lt hlt), hindex, List.getElem?_cons_succ, Nat.zero_add]
    · rw [if_pos rfl, if_neg (Nat.not_succ_le_self n), if_pos (Nat.le_refl n), Nat.sub_self]
      rfl
    · have hafter : ¬ n + 1 ≤ k := by omega
      rw [if_neg (Nat.ne_of_gt hgt), if_neg hafter, if_neg (Nat.not_le_of_gt hgt)]

theorem weigh_among_cells {n : Nat} {cells : List HandleCell}
    (h : ∀ (i : Nat) (cell : HandleCell) (fiber : Fiber) (owner : Owner), cells[i]? = some cell →
      cell.slot = .parked fiber owner → fiber.home = owner.home ∧ 0 < cell.clones) :
    weigh (Sighting.among s) (seenIn HandleCell.sightings n cells) =
      cells.countP (HandleCell.keepsFor s) := by
  induction cells generalizing n with
  | nil => rfl
  | cons cell rest ih =>
    have hhead : weigh (Sighting.among s) (cell.sightings n) =
        if cell.keepsFor s then 1 else 0 := by
      rw [HandleCell.sightings, HandleCell.keepsFor]
      cases hslot : cell.slot with
      | pending | spent | woken => rfl
      | parked fiber owner =>
        obtain ⟨hhome, halive⟩ := h 0 cell fiber owner rfl hslot
        simp only [weigh_among_sight, hhome]
        cases owner with
        | caller number => rfl
        | scheduler t => simp [Owner.home, List.count_cons, halive]
    rw [seenIn, weigh_append, List.countP_cons, hhead,
      ih fun i other fiber owner hi => h (i + 1) other fiber owner hi, Nat.add_comm]

theorem World.length_told {α : Type} (w : World) (read : Mark → Option α) :
    (w.told read).length = weigh (fun happening => (happening.read read).toList.length)
    w.history.toList := by
  rw [World.told]
  induction w.history.toList with
  | nil => rfl
  | cons happening rest ih =>
    rw [List.filterMap_cons, weigh_cons, ← ih]
    cases happening.read read with
    | none => exact (Nat.zero_add _).symm
    | some a => exact Nat.add_comm ..

theorem weigh_among_history (w : World) :
    weigh (Sighting.among s) (w.history.toList.flatMap Happening.sightings) =
      (w.finished s).length + (w.discarded s).length + (w.vanished s).length := by
  rw [World.finished, World.discarded, World.vanished, World.length_told, World.length_told,
    World.length_told, ← weigh_add, ← weigh_add, weigh_flatMap]
  refine weigh_congr _ fun happening _ => ?_
  cases happening with
  | entry | event => rfl
  | mark told =>
    cases told with
    | dispatched | accepted | awaited | opened | appended | returned => rfl
    | ended fiber =>
      refine (weigh_among_sight ..).trans ?_
      obtain ⟨serial, id, home, stack, state⟩ := fiber
      cases home with
      | none => rfl
      | some t =>
        by_cases heq : t = s <;>
          simp [Happening.read, Mark.finished?, heq, Mark.discarded?, Mark.vanished?]
    | discarded serial id home =>
      refine (weigh_among_sight ..).trans ?_
      cases home with
      | none => rfl
      | some t =>
        by_cases heq : t = s <;>
          simp [Happening.read, Mark.finished?, heq, Mark.discarded?, Mark.vanished?]
    | unstarted t id | vanished t id =>
      by_cases heq : t = s <;>
        simp [Happening.sightings, Sighting.among, Happening.read, Mark.finished?, heq,
          Mark.discarded?, Mark.vanished?]

end Among

/-- The task that the entry starts. -/
def Runnable.fresh? : Runnable → Option FiberId
  | .fresh id _ => some id
  | .woken .. => none

namespace World

variable {a b w : World} {out : List Asset} {s : SchedulerId}

/-- What is told of one thing is counted by a tally of the marks that tell it. -/
theorem tally_eq_count {α : Type} [DecidableEq α] (w : World) {f : Mark → Nat}
    {read : Mark → Option α} {a : α} (h : ∀ told, f told = (read told).toList.count a) :
    w.tally f = (w.told read).count a := by
  rw [tally, told]
  induction w.history.toList with
  | nil => rfl
  | cons happening rest ih =>
    have hhead : happening.weight f = (happening.read read).toList.count a := by
      cases happening with
      | entry | event => rfl
      | mark told => exact h told
    rw [weigh_cons, hhead, ih, List.filterMap_cons]
    cases happening.read read with
    | none => exact Nat.zero_add _
    | some b => rw [Option.toList_some, ← List.count_append, List.singleton_append]

theorem told_filterMap {α β : Type} (w : World) (read : Mark → Option α) (f : α → Option β) :
    (w.told read).filterMap f = w.told fun told => (read told).bind f := by
  rw [World.told, World.told, List.filterMap_filterMap]
  refine List.filterMap_congr fun happening _ => ?_
  cases happening <;> rfl

theorem count_appended (w : World) (s : SchedulerId) (id : FiberId) :
    ((w.appended s).filterMap Runnable.fresh?).count id = w.tally (Mark.enqueues s id) := by
  rw [appended, told_filterMap]
  refine (w.tally_eq_count fun told => ?_).symm
  cases told with
  | appended t entry =>
    rw [Mark.appended?]
    cases entry with
    | fresh number body =>
      by_cases heq : t = s <;> simp [Mark.enqueues, heq, Runnable.fresh?, List.count_cons]
    | woken fiber resumption => split <;> rfl
  | _ => rfl

theorem count_dispatched (w : World) (s : SchedulerId) (id : FiberId) :
    ((w.dispatched s).filterMap Runnable.fresh?).count id = w.tally (Mark.starts s id) := by
  rw [dispatched, told_filterMap]
  refine (w.tally_eq_count fun told => ?_).symm
  cases told with
  | dispatched t entry =>
    rw [Mark.dispatched?]
    cases entry with
    | fresh number body =>
      by_cases heq : t = s <;> simp [Mark.starts, heq, Runnable.fresh?, List.count_cons]
    | woken fiber resumption => split <;> rfl
  | _ => rfl

theorem count_vanished (w : World) (s : SchedulerId) (id : FiberId) :
    (w.vanished s).count id = w.tally (Mark.vanishes s id) := by
  refine (w.tally_eq_count fun told => ?_).symm
  cases told with
  | vanished t number =>
    by_cases heq : t = s <;> simp [Mark.vanishes, Mark.vanished?, heq, List.count_cons]
  | _ => rfl

theorem count_queue_le (w : World) (s : SchedulerId) (id : FiberId) :
    ((w.queue s).filterMap Runnable.fresh?).count id ≤
      weigh (Asset.taskOf s id) ((w.queue s).flatMap (Runnable.assets s)) := by
  rw [weigh_flatMap]
  induction w.queue s with
  | nil => exact Nat.le_refl 0
  | cons entry rest ih =>
    rw [weigh_cons]
    cases entry with
    | fresh number body =>
      have hentry : weigh (Asset.taskOf s id) ((Runnable.fresh number body).assets s) =
          if number = id then 1 else 0 := by
        simp [Runnable.assets, Asset.taskOf]
      change (number :: rest.filterMap Runnable.fresh?).count id ≤ _
      rw [hentry, List.count_cons]
      simp only [beq_iff_eq]
      omega
    | woken fiber resumption => exact Nat.le_add_left_of_le ih

/-- As long as a scheduler is alive, every task that was enqueued was dispatched or
is still in the queue. -/
def Complete (s : SchedulerId) (w : World) : Prop :=
  0 < w.owners s → (w.appended s).filterMap Runnable.fresh? =
    (w.dispatched s).filterMap Runnable.fresh? ++ (w.queue s).filterMap Runnable.fresh?

theorem Complete.passes (hcomplete : a.Complete s) (h : Passes s a b) : b.Complete s := by
  intro halive
  obtain ⟨halive', hqueue⟩ := h.alive halive
  rw [h.appended, h.dispatched, hqueue]
  exact hcomplete halive'

theorem Complete.gains {entry : Runnable} (hcomplete : a.Complete s) (h : Gains s entry a b)
    (howners : b.owners s = a.owners s) : b.Complete s := by
  intro halive
  rw [h.appended, h.dispatched, h.queue, List.filterMap_append, hcomplete (howners ▸ halive),
    List.filterMap_append, List.append_assoc]

theorem Complete.gives {entry : Runnable} (hcomplete : a.Complete s) (h : Gives s entry a b)
    (howners : b.owners s = a.owners s) : b.Complete s := by
  intro halive
  rw [h.appended, h.dispatched, hcomplete (howners ▸ halive), h.queue, List.filterMap_append,
    List.append_assoc]
  exact congrArg _ (List.filterMap_append (l := [entry]))

/-- A resumption at the root starts no task. -/
theorem Complete.jumps (hcomplete : w.Complete s) (fiber : Fiber) (resumption : Resumption) :
    (w.mark (.dispatched s (.woken fiber resumption))).Complete s := by
  intro halive
  have happended : (w.mark (.dispatched s (.woken fiber resumption))).appended s =
      w.appended s := by
    rw [appended, told_mark]
    exact List.append_nil _
  have hdispatched : (w.mark (.dispatched s (.woken fiber resumption))).dispatched s =
      w.dispatched s ++ [.woken fiber resumption] := by
    rw [dispatched, told_mark]
    simp only [Mark.dispatched?, if_true]
    rfl
  rw [happended, hdispatched, List.filterMap_append]
  exact (hcomplete halive).trans (congrArg (· ++ _) (List.append_nil _).symm)

theorem Complete.vanished (hcomplete : w.Complete s) (hbalanced : w.Balanced out)
    (halive : 0 < w.owners s) : w.vanished s = [] := by
  refine List.eq_nil_iff_forall_not_mem.2 fun id member => ?_
  have hpos := List.count_pos_iff.2 member
  have htasks := hbalanced.tasks s id
  have hqueue := w.weigh_queue_le s (Asset.taskOf s id)
  have hcounts := congrArg (List.count id) (hcomplete halive)
  have hle := w.count_queue_le s id
  rw [List.count_append, w.count_appended, w.count_dispatched] at hcounts
  rw [w.count_vanished] at hpos
  omega

end World

namespace Machine

variable {byHand : Prop} {allowed : Action → Prop} {m m' : Machine} {s : SchedulerId}

theorem Serves.complete (hserves : m.Serves s m') (hcomplete : m.world.Complete s) :
    m'.world.Complete s := by
  cases hserves with
  | passes h => exact hcomplete.passes h
  | appends hway hbefore h howners hafter =>
    exact ((hcomplete.passes hbefore).gains h howners).passes hafter
  | takes h =>
    obtain ⟨u, hgives, howners, hafter⟩ := h.gives
    exact (hcomplete.gives hgives howners).passes hafter
  | jumps hrunning hcell hslot hbefore hafter hstarts =>
    exact ((hcomplete.passes hbefore).jumps _ _).passes hafter

theorem Visits.complete {script : Script} (h : Visits allowed script.start m) (s : SchedulerId) :
    m.world.Complete s := by
  refine h.induct (P := fun m => m.world.Complete s) (fun action => ?_)
    (fun a b ha _ hstep _ ih => ?_)
    (fun a w _ _ hstirs ih => ih.passes (hstirs.noProgress.passes s))
    fun a w root ha ih hdone hbetween hroot hm' => ?_
  · intro halive
    change (script.start.appended s).filterMap _ =
      (script.start.dispatched s).filterMap _ ++ (script.start.queue s).filterMap _
    rw [World.appended, World.dispatched, World.told_start, World.told_start, World.queue_start]
    rfl
  · have hsound : a.Sound True := ha.sound fun _ _ _ _ => trivial
    exact (hsound.serves hstep s).complete ih
  · exact ih.passes (hbetween.noProgress.passes s)

/-- The numbers of the tasks of a scheduler that are seen. -/
def numbers (m : Machine) (s : SchedulerId) : List Nat :=
  (m.sightings.filter fun sighting => sighting.task.scheduler = s).map fun sighting =>
  sighting.task.id.number

theorem length_numbers (m : Machine) (s : SchedulerId) :
    (m.numbers s).length = weigh (Sighting.among s) m.sightings := by
  rw [numbers, List.length_map]
  induction m.sightings with
  | nil => rfl
  | cons sighting rest ih =>
    rw [List.filter_cons, weigh_cons, Sighting.among, ← ih]
    split <;> split <;> simp_all [Nat.add_comm]

theorem count_numbers (m : Machine) (s : SchedulerId) (n : Nat) :
    (m.numbers s).count n = (m.places ⟨s, ⟨n⟩⟩).length := by
  rw [numbers, length_places]
  induction m.sightings with
  | nil => rfl
  | cons sighting rest ih =>
    obtain ⟨⟨t, ⟨k⟩⟩, place⟩ := sighting
    rw [List.filter_cons, weigh_cons, Sighting.of, ← ih]
    by_cases heq : t = s <;> by_cases hk : k = n <;> simp [heq, hk, Nat.add_comm]

/-- Every task that a scheduler has given a number is seen once. -/
theorem Sound.weigh_among (h : m.Sound byHand) (s : SchedulerId) :
    weigh (Sighting.among s) m.sightings = m.world.lastId s := by
  have hnumbers : (m.numbers s).Perm (List.range' 1 (m.world.lastId s)) := by
    refine List.perm_iff_count.2 fun n => ?_
    rw [count_numbers, h.length_places, h.kept.balanced.numbered,
      List.Nodup.count (List.nodup_range' ..)]
    refine if_congr ?_ rfl rfl
    rw [List.mem_range'_1]
    change 0 < n ∧ n ≤ m.world.lastId s ↔ _
    omega
  rw [← length_numbers, hnumbers.length_eq, List.length_range']

/-- Every task is in a queue, parked, or in a fiber that control is in or comes out
of, or it is over. -/
theorem Sound.lastId_eq (h : m.Sound byHand) (s : SchedulerId) :
    m.world.lastId s + m.ending s = (m.world.queue s).length + m.world.parkedFor s +
      ((m.world.finished s).length + (m.world.discarded s).length + (m.world.vanished s).length) +
      m.entered s := by
  have hqueues : weigh (Sighting.among s) (seenIn Scheduler.sightings 0 m.world.schedulers) =
      (m.world.queue s).length := by
    rw [weigh_among_queues, if_pos (Nat.zero_le _), Nat.sub_zero, World.queue_eq, World.scheduler?]
    · cases m.world.schedulers[s.index]? <;> rfl
    · intro i scheduler fiber resumption hi member
      rw [Nat.zero_add]
      refine (h.kept.orderly.queued ⟨i⟩ fiber resumption ?_).home_eq
      rw [World.queue, World.scheduler?, hi]
      exact member
  have hcells : weigh (Sighting.among s) (seenIn HandleCell.sightings 0 m.world.handles.cells) =
      m.world.parkedFor s := by
    refine weigh_among_cells fun i cell fiber owner hi hparked => ?_
    obtain ⟨hrests, halive⟩ := h.kept.orderly.parked ⟨i⟩ cell fiber owner hi hparked
    exact ⟨hrests.home_eq, halive⟩
  have hnamed : weigh (Sighting.among s)
      (m.world.coroutines.values.flatMap fun fiber => sight fiber.home fiber.id .named) = 0 := by
    rw [weigh_flatMap]
    refine weigh_eq_zero _ fun fiber member => ?_
    rw [weigh_among_sight, (h.kept.orderly.named fiber member).home_eq]
    rfl
  have hrunning : weigh (Sighting.among s)
      (m.running.flatMap fun running => sight running.home running.id .entered) =
      m.within.count s := by
    rw [weigh_flatMap, within]
    induction m.running with
    | nil => rfl
    | cons running below ih =>
      rw [weigh_cons, weigh_among_sight, ih, List.filterMap_cons]
      cases running.home with
      | none => exact Nat.zero_add _
      | some t => rw [Option.toList_some, ← List.count_append, List.singleton_append]
  have hcontrol : weigh (Sighting.among s) m.control.sightings + m.ending s =
      m.control.home?.toList.count s := by
    rw [ending]
    cases m.control with
    | back fiber exit =>
      cases exit with
      | suspended handle => exact (congrArg (· + 0) (weigh_among_sight ..)).trans (Nat.add_zero _)
      | completed | failed | panicked => exact Nat.zero_add _
    | _ => rfl
  have hhistory := weigh_among_history (s := s) m.world
  have hall := h.weigh_among s
  rw [entered, homes, List.count_append]
  rw [sightings, weigh_append, weigh_append, World.sightings, weigh_append, weigh_append,
    weigh_append] at hall
  omega

/-! ### Control in a dispatch -/

end Machine

/-- The scheduler whose fiber the frame waits for. -/
def Frame.dispatching? : Frame → Option SchedulerId
  | .dispatching s => some s
  | _ => none

namespace Machine

variable {byHand : Prop} {m : Machine} {frames : List Frame} {w : World} {s : SchedulerId}

/-- A fiber of the scheduler was entered, and has not been received yet. -/
def dispatching (m : Machine) (s : SchedulerId) : Bool :=
  m.root.any fun frame => frame.dispatching? = some s

section Stands

variable {inFiber : Bool} {home : Option SchedulerId}

theorem dispatching_plain (h : PlainStack inFiber frames) :
    frames.filterMap Frame.dispatching? = [] := by
  refine List.filterMap_eq_nil_iff.2 fun frame member => ?_
  have hplain := h frame member
  cases frame with
  | dispatching t => cases hplain
  | _ => rfl

theorem dispatching_cons {frame : Frame} (hframe : frame.dispatching? = none)
    (h : frames.filterMap Frame.dispatching? = []) :
    (frame :: frames).filterMap Frame.dispatching? = [] :=
  (List.filterMap_cons_none hframe).trans h

theorem dispatching_asks {max : Option Nat} (h : w.Asks s max frames) :
    frames.filterMap Frame.dispatching? = [] := by
  unfold World.Asks at h
  split at h
  · exact dispatching_cons rfl (dispatching_plain h.2)
  · exact dispatching_cons rfl (dispatching_plain h.2.2)
  · exact dispatching_cons rfl (dispatching_plain h.2.2)
  · exact dispatching_cons rfl (dispatching_cons rfl (dispatching_plain h.2.2.2))
  · exact h.elim

theorem dispatching_entered (h : w.Entered byHand inFiber home frames) :
    frames.filterMap Frame.dispatching? = home.toList := by
  unfold World.Entered at h
  split at h
  · obtain ⟨-, rfl, hplain⟩ := h
    exact dispatching_cons rfl (dispatching_plain hplain)
  · obtain ⟨-, rfl, -, hasks⟩ := h
    exact congrArg (List.cons _) (dispatching_cons rfl (dispatching_asks hasks))
  · exact h.elim

/-- From inside a fiber only fibers that are nobody's are entered. -/
theorem home_of_entered (h : w.Entered byHand true home frames) : home = none := by
  unfold World.Entered at h
  split at h
  · exact h.2.1
  · cases h.1
  · exact h.elim

theorem dispatching_nested {root : List Frame} {levels : List Running}
    (h : Nested byHand w root levels) (hlevels : levels ≠ []) :
      ∃ home : Option SchedulerId, root.filterMap Frame.dispatching? = home.toList ∧
      levels.filterMap Running.home = home.toList := by
  induction levels with
  | nil => exact absurd rfl hlevels
  | cons running below ih =>
    obtain ⟨-, hentered, hnested⟩ := h
    cases below with
    | nil =>
      refine ⟨running.home, dispatching_entered hentered, ?_⟩
      rw [List.filterMap_cons]
      cases running.home <;> rfl
    | cons other below =>
      obtain ⟨home, hroot, hhomes⟩ := ih hnested (by simp)
      exact ⟨home, hroot, by rw [List.filterMap_cons_none (home_of_entered hentered), hhomes]⟩

theorem dispatching_accepts {control : Control} (h : w.Accepts byHand false control frames) :
    frames.filterMap Frame.dispatching? = control.home?.toList := by
  cases control with
  | advance =>
    dsimp only [World.Accepts] at h
    split at h
    · exact dispatching_cons rfl (dispatching_asks h.2)
    · exact dispatching_cons rfl (dispatching_plain h.2.2)
    · exact dispatching_plain h
  | raise | panicking => exact dispatching_plain h
  | resumed => cases h.1
  | back fiber exit => exact dispatching_entered h.1
  | answer result =>
    dsimp only [World.Accepts] at h
    split at h
    · exact dispatching_cons rfl (dispatching_plain h)
    · obtain ⟨-, ⟨s, hasks⟩, -⟩ := h
      exact dispatching_asks hasks

end Stands

/-- The scheduler whose fiber control is in stands at the root. -/
theorem Sound.homes_eq (h : m.Sound byHand) : ∃ home : Option SchedulerId,
    m.root.filterMap Frame.dispatching? = home.toList ∧ m.homes = home.toList := by
  have haccepts := h.accepts
  cases hrunning : m.running with
  | nil =>
    rw [inFiber, top, hrunning] at haccepts
    refine ⟨m.control.home?, dispatching_accepts haccepts, ?_⟩
    rw [homes, within, hrunning]
    exact List.append_nil _
  | cons running below =>
    obtain ⟨home, hroot, hhomes⟩ := dispatching_nested h.nested (by simp [hrunning])
    refine ⟨home, hroot, ?_⟩
    have hcontrol : m.control.home? = none := by
      rw [inFiber, hrunning] at haccepts
      generalize m.control = control at haccepts
      cases control with
      | back fiber exit => exact home_of_entered haccepts.1
      | _ => rfl
    rw [homes, hcontrol, within, hhomes]
    rfl

theorem Sound.entered_eq (h : m.Sound byHand) (s : SchedulerId) :
    m.entered s = (m.dispatching s).toNat := by
  obtain ⟨home, hroot, hhomes⟩ := h.homes_eq
  have hany : m.dispatching s = home.toList.any (· = s) := by
    rw [← hroot, dispatching, List.any_filterMap]
    congr
    funext frame
    cases frame.dispatching? <;> simp
  rw [entered, hhomes, hany]
  cases home with
  | none => rfl
  | some t => by_cases heq : t = s <;> simp [heq]

/-! ### The counters of a session -/

/-- The next step is one of the scheduler's own: it takes a task, a turn of its run
loop, or a fiber back that it dispatched. -/
inductive Operates (m : Machine) (s : SchedulerId) : Prop
  | enqueues {action : Action} {position : Nat} (haction : m.nextAction? = some action)
      (hposition : m.world.schedulerAt position = some s)
      (hcore : (∃ body, action.core = .enqueue position body) ∨ ∃ task,
        action.core = .enqueueNamed position task)
  | turns {ran : Nat} {max : Option Nat} {rest : List Frame}
      (htop : m.top = .draining s ran max :: rest)
  | receives {fiber : Fiber} {exit : Exit} {rest : List Frame}
      (htop : m.top = .dispatching s :: rest) (hcontrol : m.control = .back fiber exit)

/-- A step that is none of the scheduler's own leaves its counters alone. -/
theorem Sound.counted_eq (h : m.Sound byHand) {m' : Machine} (hstep : m.step? = some m')
    (hother : ¬m.Operates s) : m'.world.counted s = m.world.counted s := by
  have hmoves : Moves
      (fun core => ∃ action, m.nextAction? = some action ∧ action.core = core) m m' :=
    step_moves hstep h fun action haction => ⟨action, haction, rfl⟩
  cases h.counts hmoves s with
  | keeps h | dispatches h | ends h => exact congrArg Account.counters h
  | spawns hallowed hposition =>
    refine absurd ?_ hother
    rcases hallowed with ⟨action, haction, hcore⟩ | ⟨task, -, action, haction, hcore⟩
    · exact .enqueues haction hposition (.inl ⟨_, hcore⟩)
    · exact .enqueues haction hposition (.inr ⟨_, hcore⟩)
  | fails htop => exact absurd (.turns htop) hother
  | receives htop hcontrol => exact absurd (.receives htop hcontrol) hother

/-- Whatever a program does, every task that a living scheduler has spawned has
ended, is in its queue, is parked for it, was discarded, or is the one it is
dispatching; and every entry that it dispatched is counted as an end or a suspension,
but for the one it is dispatching. Its counters only change by operations of its own. -/
theorem counters_are_conserved {script : Script} {m : Machine}
    (h : Visits (fun _ => True) script.start m) {s : SchedulerId} {scheduler : Scheduler}
    (hs : m.world.scheduler? s = some scheduler) :
    (0 < scheduler.owners → scheduler.counters.spawned =
      scheduler.counters.completed + scheduler.counters.failed + scheduler.counters.panicked +
        scheduler.queue.length + m.world.parkedFor s + (m.world.discarded s).length +
          (m.dispatching s).toNat) ∧
    scheduler.counters.completed + scheduler.counters.failed + scheduler.counters.panicked +
      scheduler.counters.suspensions + (m.dispatching s).toNat = (m.world.dispatched s).length ∧
    (∀ m', m.step? = some m' → ¬m.Operates s → m'.world.counted s = m.world.counted s) ∧
    (Script.showOutcome m).counted s = m.world.counted s ∧
      (Script.showOutcome m).close.counted s = m.world.counted s := by
  have hsound : m.Sound True := h.sound fun _ _ _ _ => trivial
  obtain ⟨hspawned, hended, hdispatched⟩ := h.agrees s scheduler.counters (by
    rw [World.account, World.counted, hs]
    rfl)
  rw [hsound.entered_eq] at hdispatched
  refine ⟨fun howners => ?_, hdispatched, fun m' hstep => hsound.counted_eq hstep, ?_⟩
  · have halive : 0 < m.world.owners s := by rwa [World.owners, hs]
    have hqueue : m.world.queue s = scheduler.queue := by rw [World.queue, hs]
    have hall := hsound.lastId_eq s
    rw [(h.complete s).vanished hsound.kept.balanced halive, hsound.entered_eq, hqueue,
      List.length_nil] at hall
    simp only [World.account, Counters.ended] at hspawned hended
    omega
  · exact ⟨congrFun Between.shows.noProgress.counted s,
      congrFun Between.closes.noProgress.counted s⟩

/-- The first task was resumed, and the second one is queued. -/
theorem waiting_counters_are_conserved :
    ∃ scheduler, (waiting 12).world.scheduler? ⟨0⟩ = some scheduler ∧
    0 < scheduler.owners ∧ scheduler.counters.spawned = 2 ∧
    scheduler.counters.spawned =
      scheduler.counters.completed + scheduler.counters.failed + scheduler.counters.panicked +
        scheduler.queue.length + (waiting 12).world.parkedFor ⟨0⟩ +
          ((waiting 12).world.discarded ⟨0⟩).length + ((waiting 12).dispatching ⟨0⟩).toNat ∧
    scheduler.counters.completed + scheduler.counters.failed + scheduler.counters.panicked +
      scheduler.counters.suspensions + ((waiting 12).dispatching ⟨0⟩).toNat =
        ((waiting 12).world.dispatched ⟨0⟩).length := by
  have hs : (waiting 12).world.scheduler? ⟨0⟩ = some
      ⟨[.fresh ⟨2⟩ [.log .null]], 2, ⟨2, 0, 0, 0, 1⟩, .empty .standard, 2⟩ := by
        with_unfolding_all rfl
  obtain ⟨hspawned, hdispatched, -⟩ := counters_are_conserved (visits_settle _ _ 12) hs
  exact ⟨_, hs, by decide, rfl, hspawned (by decide), hdispatched⟩

end Machine

end Fibers
