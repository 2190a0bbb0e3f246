import Fibers.Proofs.Visits

/-!
Histories, read as lists of what was told of one handle or one queue. Most of
what a step does leaves both alone, but for things that go for good; such a
change is recognised here without the books.
-/

namespace Fibers

/-- Marks that no handle and no queue takes part in. -/
def Mark.IsCalm : Mark → Prop
  | .unstarted .. | .ended .. | .discarded .. | .vanished .. | .returned .. => True
  | _ => False

def Happening.IsCalm : Happening → Prop
  | .entry .. => True
  | .event told => ∀ fiber, told ≠ .usedHandle fiber
  | .mark told => told.IsCalm

theorem Happening.IsQuiet.isCalm {x : Happening} (h : x.IsQuiet) : x.IsCalm := by
  cases x with
  | entry => trivial
  | event told => exact h.1
  | mark told => cases told <;> trivial

namespace Mark

/-- The entry that a mark says was put at the back of a queue. -/
def appended? (s : SchedulerId) : Mark → Option Runnable
  | .appended other entry => if other = s then some entry else none
  | _ => none

/-- The entry that a mark says was run by a scheduler. -/
def dispatched? (s : SchedulerId) : Mark → Option Runnable
  | .dispatched other entry => if other = s then some entry else none
  | _ => none

/-- The await that a mark says made a handle. -/
def opened? (x : HandleRef) : Mark → Option AwaitPlan
  | .opened other plan => if other = x then some plan else none
  | _ => none

/-- The resumption that a mark says was accepted for a handle. -/
def accepted? (x : HandleRef) : Mark → Option Resumption
  | .accepted other resumption => if other = x then some resumption else none
  | _ => none

/-- The resumption that a mark says the await on a handle came to. -/
def awaited? (x : HandleRef) : Mark → Option Resumption
  | .awaited other resumption => if other = x then some resumption else none
  | _ => none

/-- The task of a scheduler that a mark says has ended. -/
def finished? (s : SchedulerId) : Mark → Option FiberId
  | .ended fiber _ => if fiber.home = some s then some fiber.id else none
  | .unstarted other id => if other = s then some id else none
  | _ => none

theorem IsQuiet.finished? {told : Mark} (h : told.IsQuiet) (s : SchedulerId) :
    told.finished? s = none := by
  cases told <;> first | rfl | exact h.elim

/-- A reading of marks that sees no calm ones. -/
def Heeds {α : Type} (read : Mark → Option α) : Prop := ∀ told : Mark, told.IsCalm →
    read told = none

theorem heeds_appended? (s : SchedulerId) : Heeds (appended? s) := by
  intro told h
  cases told <;> first | rfl | exact h.elim

theorem heeds_dispatched? (s : SchedulerId) : Heeds (dispatched? s) := by
  intro told h
  cases told <;> first | rfl | exact h.elim

theorem heeds_opened? (x : HandleRef) : Heeds (opened? x) := by
  intro told h
  cases told <;> first | rfl | exact h.elim

theorem heeds_accepted? (x : HandleRef) : Heeds (accepted? x) := by
  intro told h
  cases told <;> first | rfl | exact h.elim

theorem heeds_awaited? (x : HandleRef) : Heeds (awaited? x) := by
  intro told h
  cases told <;> first | rfl | exact h.elim

end Mark

def Happening.read {α : Type} (read : Mark → Option α) : Happening → Option α
  | .mark told => read told
  | _ => none

namespace World

variable {α : Type}

/-- What the marks tell, in the order in which they were written. -/
def told (w : World) (read : Mark → Option α) : List α :=
  w.history.toList.filterMap (Happening.read read)

/-- The entries that were put at the back of a queue. -/
def appended (w : World) (s : SchedulerId) : List Runnable := w.told (Mark.appended? s)

/-- The entries that a scheduler ran. -/
def dispatched (w : World) (s : SchedulerId) : List Runnable := w.told (Mark.dispatched? s)

/-- The awaits that made a handle. -/
def opened (w : World) (x : HandleRef) : List AwaitPlan := w.told (Mark.opened? x)

/-- The resumptions that were accepted for a handle. -/
def accepted (w : World) (x : HandleRef) : List Resumption := w.told (Mark.accepted? x)

/-- The resumptions that the await on a handle came to. -/
def awaited (w : World) (x : HandleRef) : List Resumption := w.told (Mark.awaited? x)

/-- The tasks of a scheduler that have ended. -/
def finished (w : World) (s : SchedulerId) : List FiberId := w.told (Mark.finished? s)

theorem told_mark (w : World) (told : Mark) (read : Mark → Option α) :
    (w.mark told).told read = w.told read ++ (read told).toList := by
  simp only [World.told, World.mark, Array.toList_push, List.filterMap_append, List.filterMap_cons,
    List.filterMap_nil, Happening.read]
  cases read told <;> rfl

theorem told_tell (w : World) (event : Event) (read : Mark → Option α) :
    (w.tell event).told read = w.told read := by
  simp [World.told, World.tell, Happening.read]

theorem told_emit (w : World) (name : String) (payload : Datum) (read : Mark → Option α) :
    (w.emit name payload).told read = w.told read := by
  simp [World.told, World.emit, Happening.read]

/-- A suspension on a handle that was used before. -/
def Misused (w : World) : Prop := ∃ fiber, .event (.usedHandle fiber) ∈ w.history.toList

/-- Nothing came to a handle or a queue. Some of them may have gone. -/
structure NoArrivals (a b : World) : Prop where
  current : b.current = a.current
  cells : ∀ x, HandleTable.SameOrGone (a.handles.get? x) (b.handles.get? x)
  schedulers : ∀ s, Scheduler.SameOrGone (a.scheduler? s) (b.scheduler? s)
  history : ∃ news, b.history.toList = a.history.toList ++ news ∧ ∀ x ∈ news, x.IsCalm

namespace NoArrivals

variable {a b c w : World}

theorem refl (w : World) : w.NoArrivals w :=
  ⟨rfl, fun _ => .refl _, fun _ => .refl _, [], by simp, by simp⟩

theorem trans (first : a.NoArrivals b) (second : b.NoArrivals c) : a.NoArrivals c where
  current := second.current.trans first.current
  cells x := (first.cells x).trans (second.cells x)
  schedulers s := (first.schedulers s).trans (second.schedulers s)
  history := by
    obtain ⟨news, hnews, hcalm⟩ := first.history
    obtain ⟨more, hmore, hcalm'⟩ := second.history
    refine ⟨news ++ more, by rw [hmore, hnews, List.append_assoc], fun x hx => ?_⟩
    exact (List.mem_append.1 hx).elim (hcalm x) (hcalm' x)

theorem of_same (current : b.current = a.current) (handles : b.handles = a.handles)
    (schedulers : b.schedulers = a.schedulers) (history : b.history = a.history) :
    a.NoArrivals b where
  current := current
  cells x := by rw [handles]; exact .refl _
  schedulers s := by rw [scheduler?, scheduler?, schedulers]; exact .refl _
  history := ⟨[], by rw [history, List.append_nil], by simp⟩

theorem tell (w : World) {event : Event} (h : ∀ fiber, event ≠ .usedHandle fiber) :
    w.NoArrivals (w.tell event) :=
  { refl w with
    history := ⟨[.event event], by simp [World.tell], by simpa [Happening.IsCalm] using h⟩ }

theorem emit (w : World) (name : String) (payload : Datum) : w.NoArrivals (w.emit name payload) :=
  { refl w with history := ⟨[.entry w.currentId name payload], by simp [World.emit],
      by simp [Happening.IsCalm]⟩ }

theorem mark (w : World) {told : Mark} (h : told.IsCalm) : w.NoArrivals (w.mark told) :=
  { refl w with
    history := ⟨[.mark told], by simp [World.mark], by simpa [Happening.IsCalm] using h⟩ }

theorem told (h : a.NoArrivals b) {read : Mark → Option α} (hread : Mark.Heeds read) :
    b.told read = a.told read := by
  obtain ⟨news, hnews, hcalm⟩ := h.history
  have hnone : news.filterMap (Happening.read read) = [] := by
    refine List.filterMap_eq_nil_iff.2 fun x hx => ?_
    have := hcalm x hx
    cases x with
    | mark told => exact hread told this
    | entry | event => rfl
  rw [World.told, hnews, List.filterMap_append, hnone, List.append_nil, World.told]

/-- A fiber that is parked afterwards was parked before. -/
theorem parked (h : a.NoArrivals b) {x : HandleRef} {cell : HandleCell} {fiber : Fiber}
    {owner : Owner} (hcell : b.handles.get? x = some cell)
    (hslot : cell.slot = .parked fiber owner) :
    ∃ old, a.handles.get? x = some old ∧ old.slot = .parked fiber owner := by
  have hsameOrGone := h.cells x
  rw [hcell] at hsameOrGone
  generalize hold : a.handles.get? x = old at hsameOrGone
  cases hsameOrGone with
  | kept => exact ⟨_, rfl, hslot⟩
  | emptied => cases hslot

theorem misused (h : a.NoArrivals b) : b.Misused ↔ a.Misused := by
  obtain ⟨news, hnews, hcalm⟩ := h.history
  refine exists_congr fun fiber => ?_
  rw [hnews, List.mem_append]
  refine or_iff_left fun member => ?_
  exact hcalm _ member fiber rfl

end NoArrivals

theorem Drift.noArrivals {a b : World} (h : a.Drift b) : a.NoArrivals b where
  current := h.current
  cells := h.cells
  schedulers := h.schedulers
  history := by
    obtain ⟨news, hnews, hquiet⟩ := h.history
    exact ⟨news, hnews, fun x hx => (hquiet x hx).isCalm⟩

theorem Sound.noArrivals {shown : HandleRef → Prop} {w w' : World} {out out' rest : List Asset}
    (h : w.Sound shown (out ++ rest)) (hshift : w.Shift out w' out') : w.NoArrivals w' :=
  (h.drift hshift).noArrivals

/-- Nothing came to a handle or a queue, nothing was counted, and no task ended. -/
structure NoProgress (a b : World) : Prop extends NoArrivals a b where
  counted : b.counted = a.counted
  finished : ∀ s, b.finished s = a.finished s

namespace NoProgress

variable {a b c : World}

theorem refl (w : World) : w.NoProgress w := ⟨.refl w, rfl, fun _ => rfl⟩

theorem trans (first : a.NoProgress b) (second : b.NoProgress c) : a.NoProgress c :=
  ⟨first.toNoArrivals.trans second.toNoArrivals, second.counted.trans first.counted,
    fun s => (second.finished s).trans (first.finished s)⟩

theorem of_same (current : b.current = a.current) (handles : b.handles = a.handles)
    (schedulers : b.schedulers = a.schedulers) (history : b.history = a.history) :
    a.NoProgress b where
  toNoArrivals := .of_same current handles schedulers history
  counted := by funext s; rw [World.counted, scheduler?, schedulers, World.counted, scheduler?]
  finished s := by rw [World.finished, World.told, history, World.finished, World.told]

theorem tell (w : World) {event : Event} (h : ∀ fiber, event ≠ .usedHandle fiber) :
    w.NoProgress (w.tell event) := ⟨.tell w h, rfl, fun _ => told_tell ..⟩

theorem emit (w : World) (name : String) (payload : Datum) : w.NoProgress (w.emit name payload) :=
  ⟨.emit w name payload, rfl, fun _ => told_emit ..⟩

end NoProgress

theorem Stirs.noProgress {a b : World} (h : a.Stirs b) : a.NoProgress b := by
  rw [h.rest]
  exact .of_same rfl rfl rfl rfl

theorem Drift.told {a b : World} (h : a.Drift b) {read : Mark → Option α}
    (hread : ∀ told : Mark, told.IsQuiet → read told = none) : b.told read = a.told read := by
  obtain ⟨news, hnews, hquiet⟩ := h.history
  have hnone : news.filterMap (Happening.read read) = [] := by
    refine List.filterMap_eq_nil_iff.2 fun x hx => ?_
    have := hquiet x hx
    cases x with
    | mark told => exact hread told this
    | entry | event => rfl
  rw [World.told, hnews, List.filterMap_append, hnone, List.append_nil, World.told]

theorem Drift.noProgress {a b : World} (h : a.Drift b) : a.NoProgress b :=
  ⟨h.noArrivals, h.counted, fun s => h.told fun _ hquiet => hquiet.finished? s⟩

theorem Sound.noProgress {shown : HandleRef → Prop} {w w' : World} {out out' rest : List Asset}
    (h : w.Sound shown (out ++ rest)) (hshift : w.Shift out w' out') : w.NoProgress w' :=
  (h.drift hshift).noProgress

theorem Reckons.noArrivals {shown : HandleRef → Prop} {w w' : World} {out given : List Asset}
    {s : SchedulerId} {g : Counters → Counters} (h : w.Reckons s g given w')
    (hsound : w.Sound shown (given ++ out)) : w.NoArrivals w' :=
  NoArrivals.trans (b := w.count s g)
    { NoArrivals.refl w with schedulers := w.sameOrGone_count s g } (h.drift hsound).noArrivals

/-- Nothing came to the queue of a scheduler, which may have gone. -/
structure Passes (s : SchedulerId) (a b : World) : Prop where
  scheduler : Scheduler.SameOrGone (a.scheduler? s) (b.scheduler? s)
  appended : b.appended s = a.appended s
  dispatched : b.dispatched s = a.dispatched s

namespace Passes

variable {a b c : World} {s : SchedulerId}

theorem refl (w : World) (s : SchedulerId) : Passes s w w := ⟨.refl _, rfl, rfl⟩

theorem trans (first : Passes s a b) (second : Passes s b c) : Passes s a c :=
  ⟨first.scheduler.trans second.scheduler, second.appended.trans first.appended,
    second.dispatched.trans first.dispatched⟩

theorem of_same (schedulers : b.schedulers = a.schedulers) (history : b.history = a.history) :
    Passes s a b where
  scheduler := by rw [scheduler?, scheduler?, schedulers]; exact .refl _
  appended := by rw [World.appended, World.told, history, World.appended, World.told]
  dispatched := by rw [World.dispatched, World.told, history, World.dispatched, World.told]

theorem tell (w : World) (event : Event) : Passes s w (w.tell event) :=
  ⟨.refl _, told_tell .., told_tell ..⟩

theorem emit (w : World) (name : String) (payload : Datum) : Passes s w (w.emit name payload) :=
  ⟨.refl _, told_emit .., told_emit ..⟩

theorem mark (w : World) {told : Mark} (happended : told.appended? s = none)
    (hdispatched : told.dispatched? s = none) : Passes s w (w.mark told) where
  scheduler := .refl _
  appended := by
    rw [World.appended, told_mark, happended, Option.toList_none, List.append_nil, World.appended]
  dispatched := by
    rw [World.dispatched, told_mark, hdispatched, Option.toList_none, List.append_nil,
      World.dispatched]

/-- A scheduler that is there afterwards was there before, with the same queue. -/
theorem alive (h : Passes s a b) (halive : 0 < b.owners s) : 0 < a.owners s ∧
    b.queue s = a.queue s := by
  have hsameOrGone := h.scheduler
  rw [owners] at halive ⊢
  rw [queue_eq, queue_eq]
  generalize a.scheduler? s = before, b.scheduler? s = after at hsameOrGone halive ⊢
  cases hsameOrGone with
  | none => exact absurd halive (Nat.lt_irrefl 0)
  | kept hqueue hlast hdead =>
    refine ⟨Nat.pos_of_ne_zero fun hzero => ?_, hqueue⟩
    rw [Option.elim_some, hdead hzero] at halive
    exact absurd halive (Nat.lt_irrefl 0)
  | closed hqueue hlast hdead =>
    rw [Option.elim_some, hdead] at halive
    exact absurd halive (Nat.lt_irrefl 0)

end Passes

theorem Passes.isSome {a b : World} {s : SchedulerId} (h : Passes s a b) :
    (b.scheduler? s).isSome = (a.scheduler? s).isSome := by
  have hsameOrGone := h.scheduler
  generalize a.scheduler? s = before, b.scheduler? s = after at hsameOrGone
  cases hsameOrGone <;> rfl

theorem NoArrivals.passes {a b : World} (h : a.NoArrivals b) (s : SchedulerId) : Passes s a b :=
  ⟨h.schedulers s, h.told (Mark.heeds_appended? s), h.told (Mark.heeds_dispatched? s)⟩

theorem passes_release (w : World) (work : List Debris) (s : SchedulerId) :
    Passes s w (w.release work) := (w.drift_release work).noArrivals.passes s

/-- Nothing came to the queue of a scheduler, which counted nothing, and none of its
tasks ended. -/
structure Spares (s : SchedulerId) (a b : World) : Prop extends Passes s a b where
  counted : b.counted s = a.counted s
  finished : b.finished s = a.finished s

namespace Spares

variable {a b c : World} {s : SchedulerId}

theorem trans (first : Spares s a b) (second : Spares s b c) : Spares s a c :=
  ⟨first.toPasses.trans second.toPasses, second.counted.trans first.counted,
    second.finished.trans first.finished⟩

theorem of_same (schedulers : b.schedulers = a.schedulers) (history : b.history = a.history) :
    Spares s a b where
  toPasses := .of_same schedulers history
  counted := by rw [World.counted, scheduler?, schedulers, World.counted, scheduler?]
  finished := by rw [World.finished, World.told, history, World.finished, World.told]

theorem tell (w : World) (event : Event) : Spares s w (w.tell event) :=
  ⟨.tell w event, rfl, told_tell ..⟩

theorem emit (w : World) (name : String) (payload : Datum) : Spares s w (w.emit name payload) :=
  ⟨.emit w name payload, rfl, told_emit ..⟩

theorem mark (w : World) {told : Mark} (happended : told.appended? s = none)
    (hdispatched : told.dispatched? s = none) (hfinished : told.finished? s = none) :
    Spares s w (w.mark told) where
  toPasses := .mark w happended hdispatched
  counted := rfl
  finished := by
    rw [World.finished, told_mark, hfinished, Option.toList_none, List.append_nil, World.finished]

end Spares

theorem NoProgress.spares {a b : World} (h : a.NoProgress b) (s : SchedulerId) : Spares s a b :=
  ⟨h.passes s, congrFun h.counted s, h.finished s⟩

theorem spares_release (w : World) (work : List Debris) (s : SchedulerId) :
    Spares s w (w.release work) := (w.drift_release work).noProgress.spares s

theorem Parks.spares {w : World} {x : HandleRef} {cell : HandleCell} {fiber : Fiber} {owner : Owner}
    {result : Option (Fiber × Resumption) × World} (h : w.Parks x cell fiber owner result)
    (s : SchedulerId) : Spares s w result.2 := by
  have hslot : ∀ (u : World) slot, Spares s u (u.setSlot x slot) := fun _ _ => .of_same rfl rfl
  cases h with
  | absorbed hslot' w' hw =>
    refine Spares.trans ?_ (spares_release _ _ s)
    rcases hw with rfl | rfl
    · exact hslot _ _
    · exact (Spares.tell ..).trans (hslot _ _)
  | met => exact (hslot _ _).trans (spares_release _ _ s)
  | refused => exact (Spares.tell ..).trans (spares_release _ _ s)

theorem Wakes.spares {w : World} {x : HandleRef} {cell : HandleCell} {owner : Owner}
    {resumption : Resumption} {result : Except SchedulerFault (Option (Fiber × Resumption)) × World}
    (h : w.Wakes x cell owner resumption result) (s : SchedulerId) : Spares s w result.2 := by
  have hslot : ∀ slot, Spares s w (w.setSlot x slot) := fun _ => .of_same rfl rfl
  cases h with
  | stored | met => exact ((hslot _).trans (.mark _ rfl rfl rfl)).trans (spares_release _ _ s)
  | refused => exact spares_release _ _ s

/-- Nothing came to a handle, no await came to its resumption, and none made a
handle. -/
structure Avoids (x : HandleRef) (a b : World) : Prop where
  cell : (a.handles.get? x).isSome → HandleTable.SameOrGone (a.handles.get? x) (b.handles.get? x)
  accepted : b.accepted x = a.accepted x
  opened : ∀ y, b.opened y = a.opened y
  awaited : ∀ y, b.awaited y = a.awaited y

namespace Avoids

variable {a b c : World} {x : HandleRef}

theorem trans (first : Avoids x a b) (second : Avoids x b c) : Avoids x a c where
  cell hsome := by
    have hbefore := first.cell hsome
    refine hbefore.trans (second.cell ?_)
    generalize a.handles.get? x = old, b.handles.get? x = new at hbefore hsome ⊢
    cases hbefore with
    | none => exact hsome
    | kept | emptied => rfl
  accepted := second.accepted.trans first.accepted
  opened y := (second.opened y).trans (first.opened y)
  awaited y := (second.awaited y).trans (first.awaited y)

theorem of_same (handles : b.handles = a.handles) (history : b.history = a.history) :
    Avoids x a b where
  cell _ := by rw [handles]; exact .refl _
  accepted := by rw [World.accepted, World.told, history, World.accepted, World.told]
  opened y := by rw [World.opened, World.told, history, World.opened, World.told]
  awaited y := by rw [World.awaited, World.told, history, World.awaited, World.told]

theorem tell (w : World) (event : Event) : Avoids x w (w.tell event) :=
  ⟨fun _ => .refl _, told_tell .., fun _ => told_tell .., fun _ => told_tell ..⟩

theorem emit (w : World) (name : String) (payload : Datum) : Avoids x w (w.emit name payload) :=
  ⟨fun _ => .refl _, told_emit .., fun _ => told_emit .., fun _ => told_emit ..⟩

theorem accept (w : World) {y : HandleRef} (h : y ≠ x) (resumption : Resumption) :
    Avoids x w (w.mark (.accepted y resumption)) where
  cell _ := .refl _
  accepted := by
    rw [World.accepted, told_mark, Mark.accepted?, if_neg h, Option.toList_none, List.append_nil,
      World.accepted]
  opened y := (told_mark ..).trans (List.append_nil _)
  awaited y := (told_mark ..).trans (List.append_nil _)

theorem setSlot (w : World) {y : HandleRef} (h : y ≠ x) (slot : Slot Fiber Owner Resumption) :
    Avoids x w (w.setSlot y slot) where
  cell _ := by
    cases hy : w.handles.get? y with
    | none => simp only [World.setSlot, HandleTable.setSlot, hy]; exact .refl _
    | some cell =>
      simp only [World.setSlot, HandleTable.setSlot, hy, HandleTable.get?_put hy, if_neg h.symm]
      exact .refl _
  accepted := rfl
  opened _ := rfl
  awaited _ := rfl

theorem makeHandle (w : World) (id : FiberId) (clones : Nat) :
    Avoids x w (w.makeHandle id clones).2 where
  cell hsome := by
    rw [get?_makeHandle]
    split
    next heq => simp [← heq, HandleTable.next, HandleTable.get?] at hsome
    next => exact .refl _
  accepted := rfl
  opened _ := rfl
  awaited _ := rfl

end Avoids

theorem NoArrivals.avoids {a b : World} (h : a.NoArrivals b) (x : HandleRef) : Avoids x a b :=
  ⟨fun _ => h.cells x, h.told (Mark.heeds_accepted? x), fun y => h.told (Mark.heeds_opened? y),
    fun y => h.told (Mark.heeds_awaited? y)⟩

theorem Parks.avoids {w : World} {x y : HandleRef} {cell : HandleCell} {fiber : Fiber}
    {owner : Owner} {result : Option (Fiber × Resumption) × World}
    (h : w.Parks y cell fiber owner result) (hother : y ≠ x) :
    Avoids x w result.2 := by
  cases h with
  | absorbed hslot w' hw =>
    refine Avoids.trans ?_
      ((World.drift_release (w'.setSlot y (.parked fiber owner)) [.handle y]).noArrivals.avoids x)
    rcases hw with rfl | rfl
    · exact .setSlot _ hother _
    · exact (Avoids.tell ..).trans (.setSlot _ hother _)
  | met => exact (Avoids.setSlot _ hother _).trans ((World.drift_release _ _).noArrivals.avoids x)
  | refused => exact (Avoids.tell ..).trans ((World.drift_release _ _).noArrivals.avoids x)

theorem Wakes.avoids {w : World} {x y : HandleRef} {cell : HandleCell} {owner : Owner}
    {resumption : Resumption} {result : Except SchedulerFault (Option (Fiber × Resumption)) × World}
    (h : w.Wakes y cell owner resumption result) (hother : y ≠ x) : Avoids x w result.2 := by
  cases h with
  | stored | met =>
    exact ((Avoids.setSlot _ hother _).trans (.accept _ hother _)).trans
      ((World.drift_release _ _).noArrivals.avoids x)
  | refused => exact (World.drift_release _ _).noArrivals.avoids x

theorem noArrivals_release (w : World) (work : List Debris) : w.NoArrivals (w.release work) :=
  (w.drift_release work).noArrivals

theorem told_release (w : World) (work : List Debris) {read : Mark → Option α}
    (hread : Mark.Heeds read) :
    (w.release work).told read = w.told read := (noArrivals_release w work).told hread

theorem told_setSlot (w : World) (x : HandleRef) (slot : Slot Fiber Owner Resumption)
    (read : Mark → Option α) : (w.setSlot x slot).told read = w.told read := rfl

theorem told_append (w : World) (s : SchedulerId) (entry : Runnable) {read : Mark → Option α}
    (h : read (.appended s entry) = none) : (w.append s entry).told read = w.told read := by
  change ((w.updateScheduler s _).mark _).told read = _
  rw [told_mark, h]
  exact List.append_nil _

theorem noProgress_release (w : World) (work : List Debris) : w.NoProgress (w.release work) :=
  (w.drift_release work).noProgress

theorem noProgress_bind (w : World) (name : String) (fiber : Fiber) :
    w.NoProgress (w.bind name fiber) := by
  have hlaid : w.NoProgress { w with coroutines := w.coroutines.insert name fiber } :=
    .of_same rfl rfl rfl rfl
  rw [bind]
  split
  · exact hlaid
  · exact hlaid.trans (noProgress_release _ _)

theorem noProgress_storeOrRelease (w : World) (name : Option String) (x : HandleRef) :
    w.NoProgress (w.storeOrRelease name x) := by
  cases name with
  | none => exact noProgress_release _ _
  | some name =>
    have hlaid : w.NoProgress { w with slots := w.slots.insert name x } := .of_same rfl rfl rfl rfl
    rw [storeOrRelease, store]
    split
    · exact hlaid
    · exact hlaid.trans (noProgress_release _ _)

theorem noProgress_signal (w : World) (name : String) (permits : Nat) :
    w.NoProgress (w.signal name permits) := by
  have hgrants : ∀ (keys : List Nat) (w : World),
      w.NoProgress (keys.foldl (fun w key => w.grant name key) w) := by
    intro keys
    induction keys with
    | nil => exact fun w => .refl w
    | cons key rest ih =>
      intro w
      have hgrant : w.NoProgress (w.grant name key) := .of_same rfl rfl rfl rfl
      exact hgrant.trans (ih _)
  have hlaid : ∀ semaphore, w.NoProgress (w.setSemaphore name semaphore) :=
    fun _ => .of_same rfl rfl rfl rfl
  exact (hlaid _).trans (hgrants _ _)

theorem noProgress_dropCall (w : World) (call : HostCall) : w.NoProgress (w.dropCall call) := by
  have hleft : ∃ u, w.dropCall call = (u.release call.debris).callOver call.driver ∧
      w.NoProgress u := by
    simp only [World.dropCall]
    split
    · exact ⟨_, rfl, .of_same rfl rfl rfl rfl⟩
    · exact ⟨_, rfl, noProgress_signal _ _ _⟩
    · exact ⟨_, rfl, .refl w⟩
  obtain ⟨u, heq, hbefore⟩ := hleft
  rw [heq]
  exact (hbefore.trans (noProgress_release _ _)).trans (.of_same rfl rfl rfl rfl)

theorem noProgress_closeAgenda (w : World) : w.NoProgress w.closeAgenda := by
  have hfold : ∀ (calls : List HostCall) (w : World),
      w.NoProgress (calls.foldl World.dropCall w) := by
    intro calls
    induction calls with
    | nil => exact fun w => .refl w
    | cons call rest ih => exact fun w => (noProgress_dropCall w call).trans (ih _)
  rw [closeAgenda]
  split
  · exact .refl w
  · exact (hfold _ w).trans (.of_same rfl rfl rfl rfl)

/-- An await made the handle, and nothing else came to a handle or a queue. -/
inductive Opens (x : HandleRef) (plan : AwaitPlan) (a b : World) : Prop
  | intro {u : World} (current : FiberId) (clones : Nat) (hbefore : a.NoProgress u)
      (hnew : u.handles.next = x)
      (hafter : (Machine.openAwait u current plan clones).2.NoProgress b)

end World

end Fibers
