import Fibers.Proofs.SuspendedFibers

/-!
Where suspended fibers come from. A fiber that is parked, queued, named or in hand after
some operation was so before it, for no operation makes a suspended fiber: fibers suspend
only when control comes out of them.
-/

namespace Fibers

namespace World

/-- Every suspended fiber that is somewhere, or in hand, afterwards was somewhere or in
hand before. -/
def NoNewFibers (a : World) (hand : Option Fiber) (b : World) (hand' : Option Fiber) : Prop :=
  ∀ fiber, fiber.isSuspended = true → b.HasFiber fiber ∨ hand' = some fiber → a.HasFiber fiber ∨
    hand = some fiber

namespace NoNewFibers

variable {a b c w w' : World} {hand hand' hand'' : Option Fiber} {x : HandleRef} {s : SchedulerId}

theorem trans (before : a.NoNewFibers hand b hand') (after : b.NoNewFibers hand' c hand'') :
    a.NoNewFibers hand c hand'' :=
  fun fiber hsuspended h => before fiber hsuspended (after fiber hsuspended h)

/-- Slots and queues bring nothing new, and names stay. -/
theorem of_keepsFiber (coroutines : b.coroutines = a.coroutines)
    (hfibers : ∀ fiber, b.KeepsFiber fiber → a.KeepsFiber fiber) : a.NoNewFibers hand b hand := by
  intro fiber _ h
  rcases h with (hkeeps | hname) | hhand
  · exact .inl (.kept (hfibers fiber hkeeps))
  · exact .inl (.named (coroutines ▸ hname))
  · exact .inr hhand

theorem of_same (handles : b.handles = a.handles) (schedulers : b.schedulers = a.schedulers)
    (coroutines : b.coroutines = a.coroutines) : a.NoNewFibers hand b hand :=
  of_keepsFiber coroutines fun _ => keepsFiber_of_same handles schedulers

theorem release (w : World) (work : List Debris) : w.NoNewFibers hand (w.release work) hand := by
  apply of_keepsFiber
  · rw [release_eq]
  · exact fun _ => (noArrivals_release w work).keepsFiber

/-- Handles change in their clones, and new ones are empty. -/
theorem of_handles (schedulers : b.schedulers = a.schedulers)
    (coroutines : b.coroutines = a.coroutines)
    (h : ∀ {x cell fiber owner}, b.handles.get? x = some cell → cell.slot = .parked fiber owner →
      ∃ old, a.handles.get? x = some old ∧
        old.slot = .parked fiber owner) : a.NoNewFibers hand b hand := by
  apply of_keepsFiber coroutines
  intro fiber hkeeps
  cases hkeeps with
  | parked hcell hslot =>
    obtain ⟨old, hold, hparked⟩ := h hcell hslot
    exact .parked hold hparked
  | @queued s resumption member =>
    rw [queue, scheduler?, schedulers] at member
    exact .queued member

theorem retain (w : World) (x : HandleRef) : w.NoNewFibers hand (w.retain x) hand := by
  apply of_handles
  · rfl
  · rfl
  intro y cell fiber owner hcell hslot
  rw [World.retain, HandleTable.retain] at hcell
  cases hx : w.handles.get? x with
  | none =>
    simp only [hx] at hcell
    exact ⟨cell, hcell, hslot⟩
  | some old =>
    simp only [hx] at hcell
    rw [HandleTable.get?_put hx] at hcell
    split at hcell
    next heq =>
      cases hcell
      exact ⟨old, heq ▸ hx, hslot⟩
    next => exact ⟨cell, hcell, hslot⟩

theorem makeHandle (w : World) (id : FiberId) (clones : Nat) :
    w.NoNewFibers hand (w.makeHandle id clones).2 hand := by
  apply of_handles
  · rfl
  · rfl
  intro y cell fiber owner hcell hslot
  rw [get?_makeHandle] at hcell
  split at hcell
  · cases hcell
    cases hslot
  · exact ⟨cell, hcell, hslot⟩

/-- A scheduler changes, and its queue gets no entry. -/
theorem updateScheduler (w : World) (s : SchedulerId) {g : Scheduler → Scheduler}
    (h : ∀ scheduler, (g scheduler).queue ⊆ scheduler.queue) :
    w.NoNewFibers hand (w.updateScheduler s g) hand := by
  apply of_keepsFiber
  · rfl
  intro fiber hkeeps
  cases hkeeps with
  | parked hcell hslot => exact .parked hcell hslot
  | @queued t resumption member =>
    rw [queue_updateScheduler] at member
    split at member
    next heq =>
      subst heq
      cases hs : w.scheduler? s with
      | none => simp [hs] at member
      | some scheduler =>
        rw [hs] at member
        have hqueued : .woken fiber resumption ∈ w.queue s := by
          rw [queue_eq, hs]
          exact h scheduler member
        exact .queued hqueued
    next => exact .queued member

theorem disown (w : World) (s : SchedulerId) : w.NoNewFibers hand (w.disown s) hand := by
  rw [World.disown]
  split
  · exact of_same rfl rfl rfl
  · split
    · exact (updateScheduler w s fun _ => List.nil_subset _).trans (release _ _)
    · exact updateScheduler w s fun _ => List.Subset.refl _

theorem enqueue (w : World) (h : 0 < w.owners s) (body : List Action) :
    w.NoNewFibers hand (w.enqueue s body).2 hand := by
  obtain ⟨scheduler, hs⟩ := Option.isSome_iff_exists.1 (Machine.scheduler_of_owners h)
  apply of_keepsFiber
  · rw [World.enqueue, hs]
    rfl
  · exact fun _ => keepsFiber_of_enqueue hs

theorem take {name : String} {fiber : Fiber} (h : w.takeCoroutine? name = some (fiber, w')) :
    w.NoNewFibers none w' (some fiber) := by
  rw [takeCoroutine?, Option.map_eq_some_iff] at h
  obtain ⟨found, hfound, heq⟩ := h
  cases heq
  intro other _ haround
  rcases haround with (hkeeps | @⟨other, hname⟩) | hhand
  · refine .inl (.kept (keepsFiber_of_same ?_ ?_ hkeeps))
    · rfl
    · rfl
  · by_cases hsame : other = name
    · rw [hsame, Names.get?_erase_self] at hname
      cases hname
    · rw [Names.get?_erase_of_ne _ hsame] at hname
      exact .inl (.named hname)
  · cases hhand
    exact .inl (.named hfound)

theorem bind (w : World) (name : String) (fiber : Fiber) :
    w.NoNewFibers (some fiber) (w.bind name fiber) none := by
  have hlaid : w.NoNewFibers
      (some fiber) { w with coroutines := w.coroutines.insert name fiber } none := by
    intro other _ haround
    rcases haround with (hkeeps | @⟨another, hname⟩) | hhand
    · refine .inl (.kept (keepsFiber_of_same ?_ ?_ hkeeps))
      · rfl
      · rfl
    · by_cases hsame : another = name
      · rw [hsame, Names.get?_insert_self] at hname
        exact .inr hname
      · rw [Names.get?_insert_of_ne _ fiber hsame] at hname
        exact .inl (.named hname)
    · cases hhand
  rw [World.bind]
  split
  · exact hlaid
  · exact hlaid.trans (release _ _)

/-- What is in a slot that was laid anew was there before, or in hand. -/
theorem lay {u : World} {cell : HandleCell} (hcell : w.handles.get? x = some cell)
    (slot : Slot Fiber Owner Resumption) (handles : u.handles = (w.setSlot x slot).handles)
    (schedulers : u.schedulers = w.schedulers) (coroutines : u.coroutines = w.coroutines)
    (hslot : ∀ fiber owner, slot = .parked fiber owner → hand = some fiber)
    (hhand : ∀ fiber, hand' = some fiber → hand = some fiber ∨ ∃ owner,
      cell.slot = .parked fiber owner) :
    w.NoNewFibers hand u hand' := by
  intro fiber _ haround
  rcases haround with ((@⟨y, old, owner, hold, hparked⟩ | @⟨s, resumption, member⟩) | hname) | hlast
  · rw [handles, get?_setSlot hcell] at hold
    split at hold
    · cases hold
      exact .inr (hslot fiber owner hparked)
    · exact .inl (.kept (.parked hold hparked))
  · rw [queue, scheduler?, schedulers] at member
    exact .inl (.kept (.queued member))
  · exact .inl (.named (coroutines ▸ hname))
  · rcases hhand fiber hlast with hfirst | ⟨owner, hparked⟩
    · exact .inr hfirst
    · exact .inl (.kept (.parked hcell hparked))

theorem park (w : World) (h : 0 < w.handles.clones x) (fiber : Fiber) (owner : Owner) :
    w.NoNewFibers (some fiber) (w.park x fiber owner).2
      ((w.park x fiber owner).1.map Prod.fst) := by
  rw [HandleTable.clones] at h
  cases hcell : w.handles.get? x with
  | none => simp [hcell] at h
  | some cell =>
    have hparks := parks hcell fiber owner
    generalize w.park x fiber owner = result at hparks
    cases hparks with
    | absorbed hslot u hu =>
      have hlaid : w.NoNewFibers (some fiber) (u.setSlot x (.parked fiber owner)) none := by
        apply lay hcell (.parked fiber owner)
        · rcases hu with rfl | rfl <;> rfl
        · rcases hu with rfl | rfl <;> rfl
        · rcases hu with rfl | rfl <;> rfl
        · intro other holder heq
          cases heq
          rfl
        · intro other hlast
          cases hlast
      exact hlaid.trans (release _ _)
    | met resumption hslot =>
      have hlaid : w.NoNewFibers (some fiber) (w.setSlot x .spent) (some fiber) := by
        apply lay hcell .spent rfl rfl rfl
        · intro other holder heq
          cases heq
        · intro other hlast
          exact .inl hlast
      exact hlaid.trans (release _ _)
    | refused =>
      have htold : w.NoNewFibers (some fiber) (w.tell (.usedHandle fiber.id)) (some fiber) :=
        of_same rfl rfl rfl
      exact htold.trans (release _ _)

theorem wake (w : World) (x : HandleRef) (owner : Owner) (resumption : Resumption) :
    w.NoNewFibers none (w.wake x owner resumption).2
      (wokenFiber (w.wake x owner resumption).1) := by
  cases hcell : w.handles.get? x with
  | none =>
    rw [World.wake, hcell]
    exact of_same rfl rfl rfl
  | some cell =>
    have hwakes := wakes hcell owner resumption
    generalize w.wake x owner resumption = result at hwakes
    cases hwakes with
    | stored hslot =>
      have hlaid : w.NoNewFibers none
          ((w.setSlot x (.woken resumption)).mark (.accepted x resumption)) none := by
        apply lay hcell (.woken resumption)
        · rfl
        · rfl
        · rfl
        · intro other holder heq
          cases heq
        · intro other hlast
          cases hlast
      exact hlaid.trans (release _ _)
    | met fiber hslot =>
      have hlaid : w.NoNewFibers none ((w.setSlot x .spent).mark (.accepted x resumption))
          (some fiber) := by
        apply lay hcell .spent
        · rfl
        · rfl
        · rfl
        · intro other holder heq
          cases heq
        · intro other hlast
          cases hlast
          exact .inr ⟨owner, hslot⟩
      exact hlaid.trans (release _ _)
    | refused => exact release _ _

theorem append (w : World) (s : SchedulerId) (fiber : Fiber) (resumption : Resumption) :
    w.NoNewFibers (some fiber) (w.append s (.woken fiber resumption)) none := by
  intro other _ haround
  rcases haround with (hkeeps | hname) | hhand
  · rcases keepsFiber_of_append hkeeps with hbefore | rfl
    · exact .inl (.kept hbefore)
    · exact .inr rfl
  · exact .inl (.named hname)
  · cases hhand

theorem next {entry : Runnable} (h : w.next? s = some (entry, w')) :
    w.NoNewFibers none w' entry.fiber? := by
  intro fiber _ haround
  rcases haround with (hkeeps | hname) | hhand
  · exact .inl (.kept (keepsFiber_of_next h hkeeps))
  · obtain ⟨queue, -, rfl⟩ := next?_eq h
    exact .inl (.named hname)
  · cases entry with
    | fresh => cases hhand
    | woken other resumption =>
      cases hhand
      obtain ⟨queue, hqueue, -⟩ := next?_eq h
      have hqueued : .woken fiber resumption ∈ w.queue s := by
        rw [hqueue]
        exact List.mem_cons_self ..
      exact .inl (.kept (.queued hqueued))

end NoNewFibers

/-- No operation of programs or of run loops makes a suspended fiber. -/
theorem turns_noNewFibers : AdmitsTurns NoNewFibers where
  trans := NoNewFibers.trans
  rest handles schedulers coroutines _ _ := .of_same handles schedulers coroutines
  write _ _ _ _ := .of_same rfl rfl rfl
  comesBack h := by
    cases h <;> exact .of_same rfl rfl rfl
  release w work := .release w work
  retain w x _ := .retain w x
  makeHandle w id clones := .makeHandle w id clones
  own w s _ := .updateScheduler w s fun _ => List.Subset.refl _
  disown w s := .disown w s
  enqueue w _ h body := .enqueue w h body
  pick w fiber hnot := by
    intro other hsuspended haround
    rcases haround with hplaced | hhand
    · exact .inl hplaced
    · cases hhand
      exact absurd hsuspended hnot
  take := .take
  bind w name fiber := .bind w name fiber
  unwind w fiber := by
    intro other hsuspended haround
    have hreleased : w.NoNewFibers none (w.release fiber.debris) none := .release w fiber.debris
    rcases hreleased other hsuspended haround with hplaced | hhand
    · exact .inl hplaced
    · cases hhand
  park w _ h fiber owner := .park w h fiber owner
  wake w x owner resumption := .wake w x owner resumption
  append w s _ fiber resumption := .append w s fiber resumption
  next := .next
  tune w s g hqueue _ := by
    intro hand
    apply NoNewFibers.updateScheduler
    intro scheduler
    rw [hqueue]
    exact List.Subset.refl _

end World

end Fibers
