import Fibers.Proofs.Rounds

/-!
Where awaits are. The frames of an await stand on the stack of the level that
control is in, on the stack of a fiber that just comes out of it, or on the
stack of a fiber that rests in a slot or in a queue. As long as programs touch
fibers only through schedulers, handles and drivers, a step brings such a frame
about only where an await opens, or where its register function ends.
-/

namespace Fibers

open Asset (cloneOf postOf)

/-- The frames of a fiber that is suspended. -/
def Fiber.frames (fiber : Fiber) : List Frame :=
  match fiber.state with
  | .suspended frames _ => frames
  | _ => []

theorem Fiber.framesAssets_le (fiber : Fiber) (f : Asset → Nat) :
    weigh f (framesAssets fiber.frames) ≤ weigh f fiber.assets := by
  obtain ⟨serial, id, home, stack, state⟩ := fiber
  cases state with
  | suspended stack first =>
    simp only [Fiber.frames, assets, FiberState.assets, fiberAssets, weigh_cons, weigh_append]
    omega
  | unstarted | finished => exact Nat.zero_le _

theorem Frame.assets_le_of_mem {frame : Frame} {frames : List Frame} (member : frame ∈ frames)
    (f : Asset → Nat) : weigh f frame.assets ≤ weigh f (framesAssets frames) := by
  rw [framesAssets, weigh_flatMap]
  exact le_weigh_of_mem (fun frame => weigh f (Frame.assets frame)) member

/-! ### Stacks without awaits -/

theorem PlainStack.not_isAwait {frames : List Frame} (h : PlainStack false frames) :
    ∀ frame ∈ frames, ¬frame.IsAwait := by
  intro frame member
  have hplain := h frame member
  cases frame <;> simp_all [Frame.isPlain, Frame.IsAwait]

theorem World.Asks.not_isAwait {w : World} {s : SchedulerId} {max : Option Nat}
    {frames : List Frame} (h : w.Asks s max frames) : ∀ frame ∈ frames, ¬frame.IsAwait := by
  unfold World.Asks at h
  split at h
  · exact List.forall_mem_cons.2 ⟨id, h.2.not_isAwait⟩
  · exact List.forall_mem_cons.2 ⟨id, h.2.2.not_isAwait⟩
  · exact List.forall_mem_cons.2 ⟨id, h.2.2.not_isAwait⟩
  · exact List.forall_mem_cons.2 ⟨id, List.forall_mem_cons.2 ⟨id, h.2.2.2.not_isAwait⟩⟩
  · exact h.elim

/-- Without transfers by hand, fibers are entered only from run loops. -/
theorem World.Entered.not_isAwait {w : World} {inFiber : Bool} {home : Option SchedulerId}
    {frames : List Frame} (h : w.Entered False inFiber home frames) :
    ∀ frame ∈ frames, ¬frame.IsAwait := by
  unfold World.Entered at h
  split at h
  · exact h.1.elim
  · exact List.forall_mem_cons.2 ⟨id, List.forall_mem_cons.2 ⟨id, h.2.2.2.not_isAwait⟩⟩
  · exact h.elim

namespace World

/-! ### Fibers that rest -/

/-- A fiber that is parked or queued. -/
inductive KeepsFiber (w : World) (fiber : Fiber) : Prop
  | parked {x : HandleRef} {cell : HandleCell} {owner : Owner}
      (hcell : w.handles.get? x = some cell) (hslot : cell.slot = .parked fiber owner)
  | queued {s : SchedulerId} {resumption : Resumption}
      (member : .woken fiber resumption ∈ w.queue s)

variable {byHand : Prop} {w w' a b u v : World} {x y : HandleRef} {cell : HandleCell}
  {fiber : Fiber} {s : SchedulerId} {out : List Asset} {slot : Slot Fiber Owner Resumption}

theorem le_worth_of_cell (hcell : w.handles.get? x = some cell) (f : Asset → Nat) :
    weigh f cell.assets ≤ w.worth f := by
  have hle : weigh f cell.assets ≤ w.handles.worth f :=
    le_weigh_of_mem (fun cell => weigh f (HandleCell.assets cell)) (List.mem_of_getElem? hcell)
  rw [worth]
  omega

theorem weigh_queue_le (w : World) (s : SchedulerId) (f : Asset → Nat) :
    weigh f ((w.queue s).flatMap (Runnable.assets s)) ≤ w.worth f := by
  rw [queue_eq]
  cases hs : w.scheduler? s with
  | none => exact Nat.zero_le _
  | some scheduler =>
    have hemptied := worth_requeue hs (fun scheduler => { scheduler with queue := [] }) rfl f
    rw [Option.elim_some]
    rw [List.flatMap_nil, weigh_nil] at hemptied
    omega

theorem le_worth_of_queue {entry : Runnable} (member : entry ∈ w.queue s) (f : Asset → Nat) :
    weigh f (entry.assets s) ≤ w.worth f := by
  have hle := w.weigh_queue_le s f
  have hone := le_weigh_of_mem (fun entry => weigh f (Runnable.assets s entry)) member
  rw [weigh_flatMap] at hle
  exact Nat.le_trans hone hle

theorem KeepsFiber.le_worth (h : w.KeepsFiber fiber) (f : Asset → Nat) :
    weigh f fiber.assets ≤ w.worth f := by
  cases h with
  | parked hcell hslot =>
    have hle := le_worth_of_cell hcell f
    rwa [HandleCell.assets, hslot] at hle
  | @queued s resumption member =>
    have hle := le_worth_of_queue member f
    rw [Runnable.assets, weigh_append] at hle
    omega

theorem keepsFiber_of_same (hhandles : w'.handles = w.handles)
    (hschedulers : w'.schedulers = w.schedulers) (h : w'.KeepsFiber fiber) :
    w.KeepsFiber fiber := by
  cases h with
  | parked hcell hslot => exact .parked (hhandles ▸ hcell) hslot
  | @queued s resumption member =>
    rw [queue, scheduler?, hschedulers] at member
    exact .queued member

theorem keepsFiber_of_mark {told : Mark} (h : (w.mark told).KeepsFiber fiber) :
    w.KeepsFiber fiber := by
  refine keepsFiber_of_same ?_ ?_ h <;> rfl

namespace NoArrivals

variable (h : a.NoArrivals b)

include h

theorem queue_sub (s : SchedulerId) {entry : Runnable} (member : entry ∈ b.queue s) :
    entry ∈ a.queue s :=
  mem_queue_of_sameOrGone (h.schedulers s) member

theorem keepsFiber (hfiber : b.KeepsFiber fiber) : a.KeepsFiber fiber := by
  cases hfiber with
  | parked hcell hslot =>
    obtain ⟨old, hold, hparked⟩ := h.parked hcell hslot
    exact .parked hold hparked
  | queued member => exact .queued (h.queue_sub _ member)

theorem clones_pos (hclones : 0 < b.handles.clones x) : 0 < a.handles.clones x := by
  have hsameOrGone := h.cells x
  rw [HandleTable.clones] at hclones ⊢
  generalize a.handles.get? x = old, b.handles.get? x = new at hsameOrGone hclones ⊢
  cases hsameOrGone with
  | none => exact hclones
  | kept hdead => exact Nat.pos_of_ne_zero fun hzero => absurd hclones (by simp [hdead.1 hzero])
  | emptied => simp at hclones

theorem get?_eq_none : b.handles.get? x = none ↔ a.handles.get? x = none := by
  have hsameOrGone := h.cells x
  generalize a.handles.get? x = old, b.handles.get? x = new at hsameOrGone
  cases hsameOrGone <;> simp

end NoArrivals

/-! ### Slots -/

theorem get?_setSlot (hcell : w.handles.get? x = some cell) (slot : Slot Fiber Owner Resumption)
    (y : HandleRef) : (w.setSlot x slot).handles.get? y =
      if y = x then some { cell with slot } else w.handles.get? y := by
  simp only [World.setSlot, HandleTable.setSlot, hcell]
  exact HandleTable.get?_put hcell _ y

/-- No fiber has parked in the handle yet. -/
def IsOpen (w : World) (x : HandleRef) : Prop :=
  ∃ cell, w.handles.get? x = some cell ∧
    (cell.slot = .pending ∨ ∃ resumption, cell.slot = .woken resumption)

theorem NoArrivals.isOpen (h : a.NoArrivals b) (hx : a.IsOpen x) (hheld : 0 < b.handles.clones x) :
    b.IsOpen x := by
  obtain ⟨cell, hcell, hslot⟩ := hx
  obtain ⟨after, hafter, hsame⟩ := (h.cells x).slot_eq hcell hheld
  exact ⟨after, hafter, hsame ▸ hslot⟩

theorem isOpen_of_same (hhandles : w'.handles = w.handles) (h : w.IsOpen x) : w'.IsOpen x := by
  rwa [IsOpen, hhandles]

/-- One slot was laid anew, and then nothing came to it. -/
structure SetsSlot (x : HandleRef) (cell : HandleCell) (slot : Slot Fiber Owner Resumption)
    (w u : World) : Prop where
  hcell : w.handles.get? x = some cell
  laid : ∃ v : World, v.handles = (w.setSlot x slot).handles ∧ v.schedulers = w.schedulers ∧
    (∀ y ≠ x, v.accepted y = w.accepted y) ∧ v.NoArrivals u

namespace SetsSlot

variable (h : SetsSlot x cell slot w u)

include h

/-- What rests afterwards rested before, or was just put into the slot. -/
theorem keepsFiber (hfiber : u.KeepsFiber fiber) : w.KeepsFiber fiber ∨
    ∃ owner, slot = .parked fiber owner := by
  obtain ⟨hcell, v, hlaid, hschedulers, -, hworn⟩ := h
  cases hworn.keepsFiber hfiber with
  | @queued s resumption member =>
    rw [queue, scheduler?, hschedulers] at member
    exact .inl (.queued member)
  | @parked y new holder hnew hparked =>
    rw [hlaid, get?_setSlot hcell] at hnew
    split at hnew
    · cases hnew
      exact .inr ⟨holder, hparked⟩
    · exact .inl (.parked hnew hparked)

theorem clones_pos (hclones : 0 < u.handles.clones y) : 0 < w.handles.clones y := by
  obtain ⟨hcell, v, hlaid, hschedulers, -, hworn⟩ := h
  have hheld := hworn.clones_pos hclones
  rw [HandleTable.clones, hlaid, get?_setSlot hcell] at hheld
  split at hheld
  next heq => rwa [heq, HandleTable.clones, hcell]
  next => exact hheld

/-- Another handle stays open, and so does this one if a resumption is stored. -/
theorem isOpen (hopen : w.IsOpen y) (hslot : y = x → ∃ resumption, slot = .woken resumption)
    (hclones : 0 < u.handles.clones y) : u.IsOpen y := by
  obtain ⟨hcell, v, hlaid, hschedulers, -, hworn⟩ := h
  refine hworn.isOpen ?_ hclones
  obtain ⟨old, hold, hopened⟩ := hopen
  by_cases hyx : y = x
  · exact ⟨{ cell with slot }, by rw [hlaid, get?_setSlot hcell, if_pos hyx], .inr (hslot hyx)⟩
  · exact ⟨old, by rw [hlaid, get?_setSlot hcell, if_neg hyx, hold], hopened⟩

end SetsSlot

/-! ### Queues and new handles -/

theorem keepsFiber_of_append {other : Fiber} {resumption : Resumption}
    (h : (w.append s (.woken other resumption)).KeepsFiber fiber) : w.KeepsFiber fiber ∨
    fiber = other := by
  cases h with
  | parked hcell hslot => exact .inl (.parked hcell hslot)
  | @queued t r member =>
    cases hs : w.scheduler? s with
    | none =>
      have hsame : (w.append s (.woken other resumption)).queue t = w.queue t := by
        change (w.updateScheduler s _).queue t = _
        rw [queue_updateScheduler]
        split
        next heq => subst heq; rw [queue_eq, hs]; rfl
        next => rfl
      exact .inl (.queued (hsame ▸ member))
    | some scheduler =>
      rw [queue_append hs] at member
      split at member
      · rcases List.mem_append.1 member with member | member
        · exact .inl (.queued member)
        · cases List.mem_singleton.1 member
          exact .inr rfl
      · exact .inl (.queued member)

theorem mem_queue_enqueue {scheduler : Scheduler} (hs : w.scheduler? s = some scheduler)
    {body : List Action} {t : SchedulerId} {resumption : Resumption}
    (member : .woken fiber resumption ∈ (w.enqueue s body).2.queue t) :
    .woken fiber resumption ∈ w.queue t := by
  rw [queue_enqueue hs] at member
  split at member
  · exact (List.mem_append.1 member).resolve_right (by simp)
  · exact member

theorem handles_enqueue (w : World) (s : SchedulerId) (body : List Action) :
    (w.enqueue s body).2.handles = w.handles := by
  rw [enqueue]
  split <;> rfl

theorem keepsFiber_of_enqueue {scheduler : Scheduler} (hs : w.scheduler? s = some scheduler)
    {body : List Action} (h : (w.enqueue s body).2.KeepsFiber fiber) : w.KeepsFiber fiber := by
  cases h with
  | parked hcell hslot => exact .parked (handles_enqueue w s body ▸ hcell) hslot
  | queued member => exact .queued (mem_queue_enqueue hs member)

theorem mem_queue_next {entry other : Runnable} (hnext : w.next? s = some (entry, w'))
    {t : SchedulerId} (member : other ∈ w'.queue t) : other ∈ w.queue t := by
  obtain ⟨queue, hqueue, rfl⟩ := next?_eq hnext
  change other ∈ (w.updateScheduler s _).queue t at member
  rw [queue_updateScheduler] at member
  split at member
  next heq =>
    subst heq
    rw [hqueue]
    cases hs : w.scheduler? s with
    | none => simp [hs] at member
    | some scheduler => exact List.mem_cons_of_mem _ (by simpa [hs] using member)
  next => exact member

theorem handles_next {entry : Runnable} (hnext : w.next? s = some (entry, w')) :
    w'.handles = w.handles := by
  obtain ⟨queue, -, rfl⟩ := next?_eq hnext
  rfl

theorem keepsFiber_of_next {entry : Runnable} (hnext : w.next? s = some (entry, w'))
    (h : w'.KeepsFiber fiber) : w.KeepsFiber fiber := by
  cases h with
  | parked hcell hslot => exact .parked (handles_next hnext ▸ hcell) hslot
  | queued member => exact .queued (mem_queue_next hnext member)

namespace Opens

variable {plan : AwaitPlan} (h : w.Opens x plan w')

include h

theorem keepsFiber (hfiber : w'.KeepsFiber fiber) : w.KeepsFiber fiber := by
  obtain ⟨current, clones, hbefore, -, hafter⟩ := h
  refine hbefore.keepsFiber ?_
  cases hafter.keepsFiber hfiber with
  | queued member => exact .queued member
  | parked hcell hslot =>
    have hget := get?_makeHandle _ current clones _ ▸ hcell
    split at hget
    · cases hget
      cases hslot
    · exact .parked hget hslot

/-- The new handle is open, and so is every other one that was. -/
theorem isOpen (hy : y = x ∨ w.IsOpen y) (hclones : 0 < w'.handles.clones y) : w'.IsOpen y := by
  obtain ⟨current, clones, hbefore, rfl, hafter⟩ := h
  rename_i u
  have hget : ∀ y, (Machine.openAwait u current plan clones).2.handles.get? y =
      if u.handles.next = y then some ⟨current, clones, .pending⟩ else u.handles.get? y :=
    get?_makeHandle u current clones
  refine hafter.isOpen ?_ hclones
  by_cases heq : u.handles.next = y
  · exact ⟨_, by rw [hget, if_pos heq], .inl rfl⟩
  · have hheld := hafter.clones_pos hclones
    rw [HandleTable.clones, hget, if_neg heq] at hheld
    obtain ⟨cell, hcell, hslot⟩ := hbefore.isOpen (hy.resolve_left (Ne.symm heq)) hheld
    exact ⟨cell, by rw [hget, if_neg heq, hcell], hslot⟩

theorem unmade : w.handles.get? x = none := by
  obtain ⟨current, clones, hbefore, rfl, hafter⟩ := h
  exact hbefore.get?_eq_none.1 (List.getElem?_eq_none (Nat.le_refl _))

/-- Nothing has come to the new handle. -/
theorem pending (hclones : 0 < w'.handles.clones x) : ∃ cell, w'.handles.get? x = some cell ∧
    cell.slot = .pending := by
  obtain ⟨current, clones, hbefore, rfl, hafter⟩ := h
  rename_i u
  have hmade := (get?_makeHandle u current clones u.handles.next).trans (if_pos rfl)
  exact (hafter.cells _).slot_eq hmade hclones

end Opens

end World

namespace Machine

variable {byHand : Prop} {m m' : Machine} {x y : HandleRef} {frame : Frame}
  {frames : List Frame} {w : World} {control : Control} {fiber : Fiber} {resumption : Resumption}
  {plan : AwaitPlan} {running : Running} {below : List Running} {s : SchedulerId}
  {cell : HandleCell}

/-- A stack of frames that awaits may stand in: of the level that control is in,
of the fiber that comes out of it, or of a fiber that rests. -/
inductive HasStack (m : Machine) : List Frame → Prop
  | top : HasStack m m.top
  | back {fiber : Fiber} {exit : Exit} (h : m.control = .back fiber exit) : HasStack m fiber.frames
  | kept {fiber : Fiber} (h : m.world.KeepsFiber fiber) : HasStack m fiber.frames

/-- The frame stands on one of these stacks. -/
def Holds (m : Machine) (frame : Frame) : Prop := ∃ frames, m.HasStack frames ∧ frame ∈ frames

theorem HasStack.assets_le (h : m.HasStack frames) (f : Asset → Nat) :
    weigh f (framesAssets frames) ≤ m.world.worth f + weigh f m.assets := by
  rw [assets, weigh_append, weigh_append]
  cases h with
  | top => omega
  | @back fiber exit hcontrol =>
    have hle := fiber.framesAssets_le f
    rw [hcontrol, Control.assets, weigh_append]
    omega
  | @kept fiber hkeeps =>
    have hle := fiber.framesAssets_le f
    have hworth := hkeeps.le_worth f
    omega

/-- An await holds its handle while its register function runs. -/
theorem Sound.clones_of_registering (h : m.Sound byHand) (hx : m.Holds (.registering x plan)) :
    0 < m.world.handles.clones x := by
  obtain ⟨frames, hstacked, member⟩ := hx
  have hle := hstacked.assets_le (cloneOf x)
  have hframe := Frame.assets_le_of_mem member (cloneOf x)
  have hclones := h.kept.balanced.clones x
  simp only [Frame.assets, weigh_cons, cloneOf, if_true] at hframe
  omega

/-- A fiber that suspends brings a clone of its handle. -/
theorem Sound.clones_of_suspended (h : m.Sound byHand)
    (hcontrol : m.control = .back fiber (.suspended x)) : 0 < m.world.handles.clones x := by
  have hclones := h.kept.balanced.clones x
  rw [assets, weigh_append, weigh_append, hcontrol, Control.assets, weigh_append, Exit.assets,
    weigh_cons] at hclones
  simp only [cloneOf, if_true] at hclones
  omega

theorem Sound.posts_le (h : m.Sound byHand) (x : HandleRef) :
    m.world.worth (postOf x) + weigh (postOf x) m.assets ≤ 1 := by
  have hposts := h.kept.balanced.posts x
  have hopened := h.kept.balanced.opened x
  split at hopened <;> omega

/-! ### Fibers that rest -/

theorem suspendAwait_eq (hrunning : m.running = running :: below) (frames : List Frame) (w : World)
    (control : Control) (x : HandleRef) (plan : AwaitPlan) :
    (m.goTo frames w control).suspendAwait x plan =
      { world := { w with current := running.outer }, running := below, root := m.root
        control := .back (running.leave (.suspended (.awaiting x plan :: frames) running.first))
          (.suspended x) } := by
  obtain ⟨world, levels, root, told⟩ := m
  cases hrunning
  rfl

theorem suspendAwait_world (m : Machine) (x : HandleRef) (plan : AwaitPlan) :
    (m.suspendAwait x plan).world.handles = m.world.handles ∧
      (m.suspendAwait x plan).world.schedulers = m.world.schedulers ∧
      (m.suspendAwait x plan).world.history = m.world.history := by
  rw [suspendAwait, push_eq, suspend]
  split <;> exact ⟨rfl, rfl, rfl⟩

theorem enter_suspended {stack : List Frame} {first : Payload}
    (h : fiber.state = .suspended stack first) (m : Machine) (resumption : Resumption) :
    m.enter fiber resumption = m.occupy fiber first stack (.resumed resumption) := by
  rw [enter, h]

theorem enter_unstarted {body : List Action} (h : fiber.state = .unstarted body) (m : Machine) :
    m.enter fiber .unit = m.occupy fiber .unit [.actions body []] .advance := by
  rw [enter, h]
  rfl

/-- A fiber that a scheduler made rests suspended. -/
theorem suspended_of_rests (h : fiber.Rests (some s)) :
    ∃ stack first, fiber.state = .suspended stack first := by
  obtain ⟨serial, id, home, stack, state⟩ := fiber
  have hsuspended := h.suspended rfl
  cases state with
  | suspended frames first => exact ⟨frames, first, rfl⟩
  | unstarted | finished => cases hsuspended

theorem Sound.inside (h : m.Sound byHand) (hcurrent : m.world.current.isSome) :
    ∃ running below, m.running = running :: below := by
  rw [h.current_isSome, inFiber] at hcurrent
  cases hrunning : m.running with
  | nil => simp [hrunning] at hcurrent
  | cons running below => exact ⟨running, below, rfl⟩

theorem Sound.inside_of_registering (h : m.Sound False)
    (htop : m.top = .registering x plan :: frames) (hcontrol : m.control.IsCode) :
    ∃ running below, m.running = running :: below := by
  have haccepts := h.accepts
  rw [htop] at haccepts
  cases hrunning : m.running with
  | cons running below => exact ⟨running, below, rfl⟩
  | nil =>
    have hroot : m.inFiber = false := by simp [inFiber, hrunning]
    rw [hroot] at haccepts
    generalize m.control = control at haccepts hcontrol
    cases control with
    | advance | raise | panicking => simp [World.Accepts, Frame.isPlain] at haccepts
    | resumed | back | answer => exact hcontrol.elim

theorem Sound.noArrivals (h : m.Sound byHand) (hshift : ∀ out, m.world.Shift out w out) :
    m.world.NoArrivals w :=
  (hshift [] _ h.kept.balanced).drift.noArrivals

/-- A fiber that begins or goes on brings its own frames, or those of its body. -/
theorem exists_occupy (hfiber : (∃ stack first, fiber.state = .suspended stack first) ∨
      ∃ body, fiber.state = .unstarted body ∧ resumption = .unit) (m : Machine) :
    ∃ first stack control, m.enter fiber resumption = m.occupy fiber first stack control ∧
      (∀ frame ∈ stack, frame ∈ fiber.frames ∨ ¬frame.IsAwait) ∧ ∀ other exit, control ≠
      .back other exit := by
  rcases hfiber with ⟨stack, first, hstate⟩ | ⟨body, hstate, rfl⟩
  · refine ⟨first, stack, _, enter_suspended hstate m resumption,
      fun frame member => .inl ?_, by simp⟩
    rwa [Fiber.frames, hstate]
  · refine ⟨_, _, _, enter_unstarted hstate m, fun frame member => .inr ?_, by simp⟩
    exact List.mem_singleton.1 member ▸ id

/-! ### How frames move -/

/-- The machine stays on its level. -/
theorem Holds.of_goTo (hframe : frame.IsAwait)
    (hframes : ∀ frame ∈ frames, frame ∈ m.top ∨ ¬frame.IsAwait) (hcontrol : control.IsPlain)
    (hfibers : ∀ fiber, w.KeepsFiber fiber → m.HasStack fiber.frames)
    (h : (m.goTo frames w control).Holds frame) : m.Holds frame := by
  obtain ⟨stack, hstacked, member⟩ := h
  cases hstacked with
  | top =>
    rw [goTo_top] at member
    exact ⟨_, .top, (hframes _ member).resolve_right fun hnot => hnot hframe⟩
  | back hback =>
    rw [goTo_control] at hback
    rw [hback] at hcontrol
    exact hcontrol.elim
  | kept hkeeps => exact ⟨_, hfibers _ hkeeps, member⟩

/-- A fiber is entered. -/
theorem Holds.of_enter (hframe : frame.IsAwait)
    (hfiber : (∃ stack first, fiber.state = .suspended stack first) ∨
      ∃ body, fiber.state = .unstarted body ∧ resumption = .unit)
    (hfibers : ∀ other, m.world.KeepsFiber other → m'.HasStack other.frames)
    (hentered : frame ∈ fiber.frames → m'.HasStack fiber.frames)
    (h : (m.enter fiber resumption).Holds frame) : m'.Holds frame := by
  obtain ⟨first, stack, control, heq, hstack, hcontrol⟩ := exists_occupy hfiber m
  rw [heq] at h
  obtain ⟨frames, hstacked, member⟩ := h
  cases hstacked with
  | top =>
    have hown := (hstack _ member).resolve_right fun hnot => hnot hframe
    exact ⟨_, hentered hown, hown⟩
  | back hback => exact absurd hback (hcontrol _ _)
  | @kept other hkeeps =>
    have hrests : m.world.KeepsFiber other := by
      refine World.keepsFiber_of_same ?_ ?_ hkeeps <;> rfl
    exact ⟨_, hfibers _ hrests, member⟩

/-- The innermost fiber suspends on the handle of an await. -/
theorem Holds.of_suspendAwait (hframe : frame.IsAwait) (hrunning : m.running = running :: below)
    (hfibers : ∀ other, w.KeepsFiber other → m'.HasStack other.frames)
    (hframes : frame ∈ frames → m'.Holds frame)
    (hsound : ((m.goTo frames w control).suspendAwait x plan).Sound False)
    (h : ((m.goTo frames w control).suspendAwait x plan).Holds frame) :
    frame = .awaiting x plan ∨ m'.Holds frame := by
  rw [suspendAwait_eq hrunning] at h hsound
  obtain ⟨stack, hstacked, member⟩ := h
  cases hstacked with
  | top => exact absurd hframe (hsound.accepts.1.not_isAwait _ member)
  | back hback =>
    cases hback
    exact (List.mem_cons.1 member).imp_right hframes
  | @kept other hkeeps =>
    have hrests : w.KeepsFiber other := by refine World.keepsFiber_of_same ?_ ?_ hkeeps <;> rfl
    exact .inr ⟨_, hfibers _ hrests, member⟩

/-- Slots that are laid anew keep their fibers, but for the one of the slot. -/
theorem setsSlot_release (hcell : w.handles.get? x = some cell) (slot : Slot Fiber Owner Resumption)
    (resumption : Resumption) (event : Event) (hquiet : event.IsQuiet) :
    World.SetsSlot x cell slot w
      ((((w.setSlot x slot).mark (.accepted x resumption)).release [.handle x]).tell event) := by
  refine ⟨hcell, (w.setSlot x slot).mark (.accepted x resumption), rfl, rfl, fun y hyx => ?_,
    (World.noArrivals_release _ _).trans (.tell _ hquiet.1)⟩
  rw [World.accepted, World.told_mark, World.told_setSlot, Mark.accepted?, if_neg (Ne.symm hyx)]
  exact List.append_nil _

theorem Delivers.holds (hframe : frame.IsAwait) (hm : m.Sound byHand)
    (hframes : ∀ frame ∈ frames, frame ∈ m.top ∨ ¬frame.IsAwait)
    (hnoArrivals : m.world.NoArrivals w) (hcell : w.handles.get? x = some cell)
    (h : Delivers (m.goTo frames w .advance) s x cell resumption m') (hheld : m'.Holds frame) :
    m.Holds frame := by
  have hparked : ∀ fiber owner, cell.slot = .parked fiber owner →
      m.world.KeepsFiber fiber := fun fiber owner hslot =>
    hnoArrivals.keepsFiber (.parked hcell hslot)
  cases h with
  | stored event hslot hquiet =>
    rw [goTo_goTo, goTo_top] at hheld
    refine hheld.of_goTo hframe hframes (by trivial) fun other hkeeps =>
      .kept (hnoArrivals.keepsFiber ?_)
    exact ((setsSlot_release hcell _ _ event hquiet).keepsFiber hkeeps).resolve_right (by simp)
  | queued fiber event hslot hcurrent hquiet =>
    rw [goTo_goTo, goTo_top] at hheld
    refine hheld.of_goTo hframe hframes (by trivial) fun other hkeeps => .kept ?_
    rcases World.keepsFiber_of_append hkeeps with hkeeps | rfl
    · exact hnoArrivals.keepsFiber
        (((setsSlot_release hcell _ _ event hquiet).keepsFiber hkeeps).resolve_right (by simp))
    · exact hparked _ _ hslot
  | dispatched fiber event hslot hcurrent hquiet =>
    obtain ⟨old, hold, hheldSlot⟩ := hnoArrivals.parked hcell hslot
    have hrests := hm.kept.orderly.rests_of_met hold hheldSlot
    refine hheld.of_enter hframe (.inl (suspended_of_rests hrests))
      (fun other hkeeps => .kept (hnoArrivals.keepsFiber ?_)) fun _ => .kept (hparked _ _ hslot)
    exact ((setsSlot_release hcell _ _ event hquiet).keepsFiber
        (World.keepsFiber_of_mark hkeeps)).resolve_right (by simp)
  | refused fault event hslot hother hquiet =>
    rw [goTo_goTo, goTo_top] at hheld
    refine hheld.of_goTo hframe hframes (by trivial) fun other hkeeps =>
      .kept (hnoArrivals.keepsFiber ?_)
    exact ((World.noArrivals_release _ _).trans (.tell _ hquiet.1)).keepsFiber hkeeps

theorem hasStack_of_receives {exit : Exit} (hm : m.Sound byHand)
    (hcontrol : m.control = .back fiber exit) (h : m.world.Receives s fiber exit w) {other : Fiber}
    (hkeeps : w.KeepsFiber other) : m.HasStack other.frames := by
  cases h with
  | ended hexit hreckons =>
    exact .kept ((hreckons.noArrivals (hm.kept_of_back hcontrol)).keepsFiber hkeeps)
  | @parked x cell w₁ w₂ hcell hbefore hsame hparks =>
    cases hparks with
    | absorbed hslot u hu =>
      have hnoArrivals : m.world.NoArrivals u := by
        rcases hu with rfl | rfl
        · exact hbefore.noArrivals hm.kept
        · exact (hbefore.noArrivals hm.kept).trans (.tell _ (Event.isQuiet_unheld _).1)
      have hhandles : u.handles = m.world.handles := by rcases hu with rfl | rfl <;> exact hsame
      have hsets : World.SetsSlot x cell (.parked fiber (.scheduler s)) u _ :=
        ⟨hhandles ▸ hcell, u.setSlot x _, rfl, rfl, fun _ _ => rfl,
          World.noArrivals_release _ [.handle x]⟩
      rcases hsets.keepsFiber hkeeps with hkeeps | ⟨owner, heq⟩
      · exact .kept (hnoArrivals.keepsFiber hkeeps)
      · cases heq
        exact .back hcontrol
  | @handedBack x cell resumption w₁ w₂ hcell hbefore hsame hparks =>
    rcases World.keepsFiber_of_append hkeeps with hrests | rfl
    · refine .kept ((hbefore.noArrivals hm.kept).keepsFiber ?_)
      clear hkeeps
      cases hparks with
      | met resumption hslot =>
        have hsets : World.SetsSlot x cell .spent w₁ _ :=
          ⟨hsame ▸ hcell, w₁.setSlot x _, rfl, rfl, fun _ _ => rfl,
            World.noArrivals_release _ [.handle x]⟩
        exact (hsets.keepsFiber hrests).resolve_right (by simp)
      | refused hslot =>
        have htold :=
          (World.noArrivals_release (w₁.tell (.usedHandle fiber.id)) _).keepsFiber hrests
        refine World.keepsFiber_of_same ?_ ?_ htold <;> rfl
    · exact .back hcontrol

/-- A run loop takes its next turn. -/
theorem Drains.holds {ran : Nat} {max : Option Nat} (hframe : frame.IsAwait) (hm : m.Sound byHand)
    (htop : m.top = .draining s ran max :: frames)
    (h : Drains (m.goTo frames m.world .advance) s ran max m') (hheld : m'.Holds frame) :
    m.Holds frame := by
  have hkept := hm.kept_of_top htop
  have hframes : ∀ frame ∈ frames, frame ∈ m.top ∨ ¬frame.IsAwait := fun frame member =>
    .inl (htop ▸ List.mem_cons_of_mem _ member)
  have hdraining : ¬Frame.IsAwait (.draining s (ran + 1) max) := nofun
  cases h with
  | stops hstops =>
    rw [goTo_goTo, goTo_top] at hheld
    exact hheld.of_goTo hframe hframes (by trivial) fun other hkeeps => .kept hkeeps
  | @fails id body w w₁ w₂ hmore hnext hbefore hafter =>
    have hbegun := ((hkept.next hnext).drift_gain hbefore).noArrivals
    have hunstarted := World.Sound.unstarted ((hkept.next hnext).gain hbefore)
    have hfailed := hafter.noArrivals hunstarted
    rw [goTo_goTo, goTo_top] at hheld
    refine hheld.of_goTo hframe (List.forall_mem_cons.2 ⟨.inr hdraining, hframes⟩) (by trivial)
      fun other hkeeps => .kept ?_
    exact World.keepsFiber_of_next hnext
      (hbegun.keepsFiber (World.keepsFiber_of_mark (hfailed.keepsFiber hkeeps)))
  | @starts id body fiber w w₁ hmore hnext hbefore hid hhome hstate =>
    have hbegun := ((hkept.next hnext).drift_gain hbefore).noArrivals
    refine hheld.of_enter hframe (.inr ⟨body, hstate, rfl⟩)
      (fun other hkeeps => .kept (World.keepsFiber_of_next hnext (hbegun.keepsFiber hkeeps)))
      fun member => ?_
    rw [Fiber.frames, hstate] at member
    cases member
  | @wakes fiber resumption w hmore hnext =>
    obtain ⟨queue, hqueue, -⟩ := World.next?_eq hnext
    have member : .woken fiber resumption ∈ m.world.queue s := hqueue ▸ List.mem_cons_self ..
    exact hheld.of_enter hframe (.inl (suspended_of_rests (hm.kept.orderly.queued _ _ _ member)))
      (fun other hkeeps => .kept (World.keepsFiber_of_next hnext hkeeps)) fun _ =>
      .kept (.queued member)

theorem leave_holds {exit : Exit} (hframe : frame.IsAwait)
    (hsound : (m.leave running below exit).Sound False)
    (hheld : (m.leave running below exit).Holds frame) : m.Holds frame := by
  obtain ⟨stack, hstacked, member⟩ := hheld
  cases hstacked with
  | top => exact absurd hframe (hsound.accepts.1.not_isAwait _ member)
  | back hback =>
    cases hback
    cases member
  | @kept other hkeeps =>
    refine ⟨_, .kept ?_, member⟩
    rw [leave] at hkeeps
    have hrests := (World.noArrivals_release _ _).keepsFiber (World.keepsFiber_of_mark hkeeps)
    refine World.keepsFiber_of_same ?_ ?_ hrests <;> rfl

/-- The frames of awaits are where they were. A new one is of an await that opens,
and the frame of an await that registers becomes one that awaits. Frames that await
come about when their fiber suspends. -/
theorem Turns.holds (h : Turns Action.IsPublic m m') (hm : m.Sound False) (hm' : m'.Sound False)
    (hframe : frame.IsAwait) (hheld : m'.Holds frame) :
    m.Holds frame ∨
      (∃ x plan w, m.world.Opens x plan w ∧ w.handles = m'.world.handles ∧
        w.history = m'.world.history ∧ (frame = .registering x plan ∧ plan.kind.isHosted = false ∨
          frame = .awaiting x plan ∧ ∃ fiber, m'.control = .back fiber (.suspended x))) ∨
      ∃ x plan, frame = .awaiting x plan ∧ m.Holds (.registering x plan) ∧
        ∃ fiber, m'.control = .back fiber (.suspended x) := by
  cases h with
  | noArrivals hframes hcontrol hnoArrivals =>
    exact .inl (hheld.of_goTo hframe hframes hcontrol fun other hkeeps => .kept
        (hnoArrivals.keepsFiber hkeeps))
  | enqueues hallowed hposition hs shown hframes =>
    refine .inl (hheld.of_goTo hframe hframes (by trivial) fun other hkeeps => .kept ?_)
    exact World.keepsFiber_of_enqueue hs ((World.NoArrivals.emit ..).keepsFiber hkeeps)
  | @registers x plan w frames register hplan hopens hframes =>
    obtain ⟨stack, hstacked, member⟩ := hheld
    cases hstacked with
    | top =>
      rw [goTo_top] at member
      rcases List.mem_cons.1 member with rfl | member
      · exact hframe.elim
      · rcases List.mem_cons.1 member with rfl | member
        · exact .inr (.inl ⟨x, plan, w, hopens, rfl, rfl, .inl ⟨rfl, hplan⟩⟩)
        · exact .inl ⟨_, .top, (hframes _ member).resolve_right fun hnot => hnot hframe⟩
    | back hback => cases hback
    | kept hkeeps => exact .inl ⟨_, .kept (hopens.keepsFiber hkeeps), member⟩
  | strands panic hcaller hnone hopens hframes =>
    exact .inl (hheld.of_goTo hframe hframes (by trivial) fun other hkeeps => .kept
        (hopens.keepsFiber hkeeps))
  | @issues d x plan w frames huses hdriver hplan hlisted hcurrent hopens hframes =>
    obtain ⟨running, below, hrunning⟩ := hm.inside hcurrent
    obtain ⟨hhandles, -, hhistory⟩ := suspendAwait_world (m.goTo frames w .advance) x plan
    rcases hheld.of_suspendAwait hframe hrunning
      (fun other hkeeps => .kept (hopens.keepsFiber hkeeps))
      (fun member => ⟨_, .top, (hframes _ member).resolve_right fun hnot => hnot hframe⟩)
      hm' with rfl | hbefore
    · refine .inr (.inl ⟨x, plan, w, hopens, hhandles.symm, hhistory.symm, .inr ⟨rfl, ?_⟩⟩)
      rw [suspendAwait_eq hrunning]
      exact ⟨_, rfl⟩
    · exact .inl hbefore
  | @registered x plan frames w htop hcontrol hnoArrivals =>
    obtain ⟨running, below, hrunning⟩ := hm.inside_of_registering htop hcontrol
    rcases hheld.of_suspendAwait hframe hrunning
      (fun other hkeeps => .kept (hnoArrivals.keepsFiber hkeeps))
      (fun member => ⟨_, .top, htop ▸ List.mem_cons_of_mem _ member⟩) hm' with rfl | hbefore
    · refine .inr (.inr ⟨x, plan, rfl, ⟨_, .top, htop ▸ List.mem_cons_self ..⟩, ?_⟩)
      rw [suspendAwait_eq hrunning]
      exact ⟨_, rfl⟩
    · exact .inl hbefore
  | delivers hframes hnoArrivals hcell hs hfrom hdelivers =>
    exact .inl (hdelivers.holds hframe hm hframes hnoArrivals.toNoArrivals hcell hheld)
  | concludes htop hresumed hcontrol hnoArrivals =>
    refine .inl (hheld.of_goTo hframe
      (fun frame member => .inl (htop ▸ List.mem_cons_of_mem _ member))
      hcontrol.isPlain fun other hkeeps =>
        .kept (World.keepsFiber_of_mark (hnoArrivals.keepsFiber hkeeps)))
  | receives htop hcontrol hs hreceives =>
    exact .inl (hheld.of_goTo hframe
      (fun frame member => .inl (htop ▸ List.mem_cons_of_mem _ member)) (by trivial)
      fun other hkeeps => hasStack_of_receives hm hcontrol hreceives hkeeps)
  | drains htop hcontrol hdrains => exact .inl (hdrains.holds hframe hm htop hheld)
  | leaves hrunning htop hcontrol => exact .inl (leave_holds hframe hm' hheld)
  | hand hallowed hhand => exact absurd hallowed hhand

/-! ### How handles close -/

theorem enter_handles (hfiber : (∃ stack first, fiber.state = .suspended stack first) ∨
      ∃ body, fiber.state = .unstarted body ∧ resumption = .unit) (m : Machine) :
    (m.enter fiber resumption).world.handles = m.world.handles := by
  obtain ⟨first, stack, control, heq, -⟩ := exists_occupy hfiber m
  rw [heq]
  rfl

theorem Delivers.isOpen (hm : m.Sound byHand) (hnoArrivals : m.world.NoArrivals w)
    (hcell : w.handles.get? x = some cell)
    (h : Delivers (m.goTo frames w .advance) s x cell resumption m') (hopen : m.world.IsOpen y)
    (hclones : 0 < m'.world.handles.clones y) : m'.world.IsOpen y := by
  have hother : ∀ fiber owner, cell.slot = .parked fiber owner → w.IsOpen y → y ≠ x := by
    rintro fiber owner hslot ⟨old, hold, hopened⟩ rfl
    rw [hcell] at hold
    cases hold
    simp [hslot] at hopened
  have hwaits : ∀ {u : World}, w.NoArrivals u ∨ (∃ slot, World.SetsSlot x cell slot w u) →
      0 < u.handles.clones y → w.IsOpen y := by
    rintro u (hlater | ⟨slot, hlater⟩) hheld
    · exact hnoArrivals.isOpen hopen (hlater.clones_pos hheld)
    · exact hnoArrivals.isOpen hopen (hlater.clones_pos hheld)
  cases h with
  | stored event hslot hquiet =>
    have hsets := setsSlot_release hcell (.woken resumption) resumption event hquiet
    exact hsets.isOpen (hwaits (.inr ⟨_, hsets⟩) hclones) (fun _ => ⟨_, rfl⟩) hclones
  | queued fiber event hslot hcurrent hquiet =>
    have hsets := setsSlot_release hcell .spent resumption event hquiet
    have hheld := hwaits (.inr ⟨_, hsets⟩) hclones
    exact World.isOpen_of_same rfl
      (hsets.isOpen hheld (fun heq => absurd heq (hother _ _ hslot hheld)) hclones)
  | dispatched fiber event hslot hcurrent hquiet =>
    obtain ⟨old, hold, hheldSlot⟩ := hnoArrivals.parked hcell hslot
    have hrests := hm.kept.orderly.rests_of_met hold hheldSlot
    have hsets := setsSlot_release hcell .spent resumption event hquiet
    have hrested := suspended_of_rests hrests
    rw [enter_handles (.inl hrested)] at hclones
    refine World.isOpen_of_same (enter_handles (.inl hrested) _) ?_
    have hheld := hwaits (.inr ⟨_, hsets⟩) hclones
    exact World.isOpen_of_same rfl
      (hsets.isOpen hheld (fun heq => absurd heq (hother _ _ hslot hheld)) hclones)
  | refused fault event hslot hother hquiet =>
    have hlater := (World.noArrivals_release w (resumption.debris ++ [.handle x])).trans
      (.tell _ hquiet.1)
    exact hlater.isOpen (hwaits (.inl hlater) hclones) hclones

theorem isOpen_of_receives {exit : Exit} (hm : m.Sound byHand)
    (hcontrol : m.control = .back fiber exit) (h : m.world.Receives s fiber exit w)
    (hother : exit ≠ .suspended y) (hopen : m.world.IsOpen y) (hclones : 0 < w.handles.clones y) :
    w.IsOpen y := by
  cases h with
  | ended hexit hreckons =>
    exact (hreckons.noArrivals (hm.kept_of_back hcontrol)).isOpen hopen hclones
  | @parked x cell w₁ w₂ hcell hbefore hsame hparks =>
    have hyx : y ≠ x := fun heq => hother (heq ▸ rfl)
    cases hparks with
    | absorbed hslot u hu =>
      have hhandles : u.handles = m.world.handles := by rcases hu with rfl | rfl <;> exact hsame
      have hsets : World.SetsSlot x cell (.parked fiber (.scheduler s)) u _ :=
        ⟨hhandles ▸ hcell, u.setSlot x _, rfl, rfl, fun _ _ => rfl,
          World.noArrivals_release _ [.handle x]⟩
      exact hsets.isOpen (World.isOpen_of_same hhandles hopen) (fun heq => absurd heq hyx) hclones
  | @handedBack x cell resumption w₁ w₂ hcell hbefore hsame hparks =>
    have hyx : y ≠ x := fun heq => hother (heq ▸ rfl)
    refine World.isOpen_of_same (w := w₂) rfl ?_
    change 0 < w₂.handles.clones y at hclones
    cases hparks with
    | met resumption hslot =>
      have hsets : World.SetsSlot x cell .spent w₁ _ :=
        ⟨hsame ▸ hcell, w₁.setSlot x _, rfl, rfl, fun _ _ => rfl,
          World.noArrivals_release _ [.handle x]⟩
      exact hsets.isOpen (World.isOpen_of_same hsame hopen) (fun heq => absurd heq hyx) hclones
    | refused hslot =>
      refine (World.noArrivals_release (w₁.tell (.usedHandle fiber.id)) _).isOpen ?_ hclones
      exact World.isOpen_of_same hsame hopen

theorem Drains.isOpen {ran : Nat} {max : Option Nat} (hm : m.Sound byHand)
    (htop : m.top = .draining s ran max :: frames)
    (h : Drains (m.goTo frames m.world .advance) s ran max m') (hopen : m.world.IsOpen y)
    (hclones : 0 < m'.world.handles.clones y) : m'.world.IsOpen y := by
  have hkept := hm.kept_of_top htop
  cases h with
  | stops hstops => exact hopen
  | @fails id body w w₁ w₂ hmore hnext hbefore hafter =>
    have hbegun := ((hkept.next hnext).drift_gain hbefore).noArrivals
    have hunstarted := World.Sound.unstarted ((hkept.next hnext).gain hbefore)
    have hfailed := hafter.noArrivals hunstarted
    have hmarked : w₁.NoArrivals (w₁.mark (.unstarted s id)) := .mark w₁ trivial
    refine ((hbegun.trans hmarked).trans hfailed).isOpen ?_ hclones
    exact World.isOpen_of_same (World.handles_next hnext) hopen
  | @starts id body fiber w w₁ hmore hnext hbefore hid hhome hstate =>
    have hbegun := ((hkept.next hnext).drift_gain hbefore).noArrivals
    have hfiber : ∃ body, fiber.state = .unstarted body ∧ Resumption.unit = .unit :=
      ⟨body, hstate, rfl⟩
    rw [enter_handles (.inr hfiber)] at hclones
    refine World.isOpen_of_same (enter_handles (.inr hfiber) _) (hbegun.isOpen ?_ hclones)
    exact World.isOpen_of_same (World.handles_next hnext) hopen
  | @wakes fiber resumption w hmore hnext =>
    obtain ⟨queue, hqueue, -⟩ := World.next?_eq hnext
    have member : .woken fiber resumption ∈ m.world.queue s := hqueue ▸ List.mem_cons_self ..
    have hrested := suspended_of_rests (hm.kept.orderly.queued _ _ _ member)
    exact World.isOpen_of_same
      ((enter_handles (.inl hrested) _).trans (World.handles_next hnext)) hopen

theorem leave_isOpen {exit : Exit} (hopen : m.world.IsOpen y)
    (hclones : 0 < (m.leave running below exit).world.handles.clones y) :
    (m.leave running below exit).world.IsOpen y := by
  have hnoArrivals : (m.world.restore running.current running.outer).NoArrivals
      (m.leave running below exit).world :=
    (World.noArrivals_release _ _).trans (.mark _ trivial)
  exact hnoArrivals.isOpen (World.isOpen_of_same rfl hopen) hclones

/-- A handle that somebody holds stays open, unless a fiber comes back to park in
it. -/
theorem Turns.isOpen (h : Turns Action.IsPublic m m') (hm : m.Sound False)
    (hopen : m.world.IsOpen y) (hcontrol : ∀ fiber, m.control ≠ .back fiber (.suspended y))
    (hclones : 0 < m'.world.handles.clones y) :
    m'.world.IsOpen y := by
  cases h with
  | noArrivals hframes hplain hnoArrivals => exact hnoArrivals.isOpen hopen hclones
  | enqueues hallowed hposition hs shown hframes =>
    exact (World.NoArrivals.emit ..).isOpen
      (World.isOpen_of_same (World.handles_enqueue ..) hopen) hclones
  | registers register hplan hopens hframes => exact hopens.isOpen (.inr hopen) hclones
  | strands panic hcaller hnone hopens hframes => exact hopens.isOpen (.inr hopen) hclones
  | issues huses hdriver hplan hlisted hcurrent hopens hframes =>
    rw [(suspendAwait_world ..).1] at hclones
    exact World.isOpen_of_same (suspendAwait_world ..).1 (hopens.isOpen (.inr hopen) hclones)
  | registered htop hcode hnoArrivals =>
    rw [(suspendAwait_world ..).1] at hclones
    exact World.isOpen_of_same (suspendAwait_world ..).1 (hnoArrivals.isOpen hopen hclones)
  | delivers hframes hnoArrivals hcell hs hfrom hdelivers =>
    exact hdelivers.isOpen hm hnoArrivals.toNoArrivals hcell hopen hclones
  | concludes htop hresumed hcode hnoArrivals =>
    exact hnoArrivals.isOpen (World.isOpen_of_same rfl hopen) hclones
  | receives htop hback hs hreceives =>
    exact isOpen_of_receives hm hback hreceives (fun heq => hcontrol _ (heq ▸ hback)) hopen hclones
  | drains htop hadvance hdrains => exact hdrains.isOpen hm htop hopen hclones
  | leaves hrunning htop hexit => exact leave_isOpen hopen hclones
  | hand hallowed hhand => exact absurd hallowed hhand

end Machine

end Fibers
