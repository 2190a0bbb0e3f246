import Fibers.Proofs.WorldSoundness

/-!
Meetings. A fiber that parks and a resumption that wakes meet at a handle,
whichever of the two comes first. The ways in which parking and waking come out
are listed once; from each of them the world comes out sound, with the fiber and
its resumption in the hands of whoever made them meet.
-/

namespace Fibers

open Asset (cloneOf looseOf shareOf postOf taskOf fiberOf)

/-- A clone of the handle, whoever passes it on. -/
def Asset.IsClone (x : HandleRef) (a : Asset) : Prop := a = .kept x ∨ a = .loose (.handle x)

theorem Asset.IsClone.cloneOf {a : Asset} (h : a.IsClone x) : a.cloneOf x = 1 := by
  rcases h with rfl | rfl <;> exact if_pos rfl

/-- What comes out of a handle goes into the hands of whoever used it. -/
def handedOut : Option (Fiber × Resumption) → List Asset
  | none => []
  | some (fiber, resumption) => fiber.assets ++ resumption.assets

@[simp]
theorem handedOut_none : handedOut none = [] := rfl

@[simp]
theorem handedOut_some (fiber : Fiber) (resumption : Resumption) :
    handedOut (some (fiber, resumption)) = fiber.assets ++ resumption.assets := rfl

namespace World

variable {shown : HandleRef → Prop} {w w' w'' : World} {out out' : List Asset} {x : HandleRef}
  {cell : HandleCell} {fiber : Fiber} {owner : Owner} {resumption : Resumption}

/-- The frames of every level go on relying on what they relied on. -/
structure Steady (w w' : World) : Prop extends Keeps w w' where
  current : w'.current = w.current

theorem Steady.refl (w : World) : w.Steady w := ⟨.refl w, rfl⟩

theorem Steady.trans (first : w.Steady w') (second : w'.Steady w'') : w.Steady w'' :=
  ⟨first.toKeeps.trans second.toKeeps, second.current.trans first.current⟩

theorem Steady.of_same (current : w'.current = w.current) (drivers : w'.drivers = w.drivers)
    (callsMade : w'.callsMade = w.callsMade) (agenda : w'.agenda = w.agenda) : w.Steady w' where
  fed h := by rwa [fedBy, driver?, drivers]
  handing h := by rwa [Handing, callsMade, agenda]
  current := current

theorem Drift.steady (h : w.Drift w') : w.Steady w' := ⟨h.keeps, h.current⟩

/-! ### Clones that change hands -/

theorem shift_clone (w : World) {a : Asset} (h : a.IsClone x) :
    w.Shift [a] (w.release [.handle x]) [] := by
  refine shift_release_of _ (fun f hf => ?_) fun f => Nat.zero_le _
  rcases h with rfl | rfl <;> simp [hf.kept]

theorem Sound.release_clone {a : Asset} (h : w.Sound shown (a :: out)) (hclone : a.IsClone x) :
    (w.release [.handle x]).Sound shown out := by
  have hout : w.Sound shown ([a] ++ out) := h
  exact hout.shift (shift_clone w hclone)

theorem Balanced.restate (h : w.Balanced out)
    (hclones : ∀ x, weigh (cloneOf x) out' = weigh (cloneOf x) out)
    (hshares : ∀ s, weigh (shareOf s) out' = weigh (shareOf s) out)
    (hout : ∀ f, Asset.Narrow f → weigh f out' = weigh f out) : w.Balanced out' :=
  h.adjust (fun x => by rw [hclones]; exact h.clones x) (fun s => by rw [hshares]; exact h.shares s)
    (fun f hf => by rw [hout f hf]) (Nat.le_refl _) rfl h.keys h.issued rfl

/-- The machine passes a program's handle on. -/
theorem Sound.hide (h : w.Sound shown (.loose (.handle x) :: out)) :
    w.Sound shown (.kept x :: out) := by
  refine ⟨h.balanced.restate (fun y => ?_) (fun s => ?_) fun f hf => ?_, h.orderly,
    fun y hshown hhosts hshows => h.hidden y hshown hhosts ?_⟩
  · rfl
  · rfl
  · rw [weigh_cons, weigh_cons, hf.kept, hf.handles]
  · simp only [Shows, weigh_cons, looseOf] at hshows ⊢
    omega

/-- Whoever transfers by hand sees the handle that a fiber suspends on. -/
theorem Sound.reveal (h : w.Sound shown (.kept x :: out)) (hshown : shown x) :
    w.Sound shown (.loose (.handle x) :: out) := by
  refine ⟨h.balanced.restate (fun y => ?_) (fun s => ?_) fun f hf => ?_, h.orderly,
    fun y hnot hhosts hshows => h.hidden y hnot hhosts ?_⟩
  · rfl
  · rfl
  · rw [weigh_cons, weigh_cons, hf.kept, hf.handles]
  · have hne : x ≠ y := fun heq => hnot (heq ▸ hshown)
    simpa only [Shows, weigh_cons, looseOf, hne, if_false] using hshows

/-! ### Parking -/

/-- How parking comes out. -/
inductive Parks (w : World) (x : HandleRef) (cell : HandleCell) (fiber : Fiber) (owner : Owner) :
    Option (Fiber × Resumption) × World → Prop
  | absorbed (hslot : cell.slot = .pending) (w' : World)
      (hw : w' = w ∨ w' = w.tell (.unheld cell.id)) :
      Parks w x cell fiber owner (none, (w'.setSlot x (.parked fiber owner)).release [.handle x])
  | met (resumption : Resumption) (hslot : cell.slot = .woken resumption) :
      Parks w x cell fiber owner
        (some (fiber, resumption), (w.setSlot x .spent).release [.handle x])
  | refused (hslot : cell.slot = .spent ∨ ∃ other holder, cell.slot = .parked other holder) :
      Parks w x cell fiber owner (some (fiber, .error (.ofFault (.notSuspended fiber.id))),
        (w.tell (.usedHandle fiber.id)).release [.handle x])

theorem parks (hcell : w.handles.get? x = some cell) (fiber : Fiber) (owner : Owner) :
    w.Parks x cell fiber owner (w.park x fiber owner) := by
  rw [park, hcell]
  simp only
  cases hslot : cell.slot with
  | pending =>
    refine .absorbed hslot _ ?_
    split
    · exact .inr rfl
    · exact .inl rfl
  | woken resumption => exact .met resumption hslot
  | parked other holder => exact .refused (.inr ⟨other, holder, hslot⟩)
  | spent => exact .refused (.inl hslot)

theorem steady_setSlot (w : World) (x : HandleRef) (slot : Slot Fiber Owner Resumption) :
    w.Steady (w.setSlot x slot) := .of_same rfl rfl rfl rfl

theorem steady_tell (w : World) (event : Event) : w.Steady (w.tell event) :=
  .of_same rfl rfl rfl rfl

theorem steady_mark (w : World) (told : Mark) : w.Steady (w.mark told) := .of_same rfl rfl rfl rfl

theorem steady_append (w : World) (s : SchedulerId) (entry : Runnable) :
    w.Steady (w.append s entry) :=
  .of_same rfl rfl rfl rfl

theorem steady_release (w : World) (work : List Debris) : w.Steady (w.release work) :=
  (w.drift_release work).steady

theorem Parks.steady {result : Option (Fiber × Resumption) × World}
    (h : w.Parks x cell fiber owner result) : w.Steady result.2 := by
  cases h with
  | absorbed hslot w' hw =>
    refine Steady.trans ?_ (steady_release _ _)
    rcases hw with rfl | rfl
    · exact steady_setSlot ..
    · exact (steady_tell ..).trans (steady_setSlot ..)
  | met => exact (steady_setSlot ..).trans (steady_release _ _)
  | refused => exact (steady_tell ..).trans (steady_release _ _)

theorem release_schedulers (w : World) (work : List Debris) :
    (w.release work).schedulers = w.schedulers := by
  rw [release_eq]

theorem Parks.schedulers {result : Option (Fiber × Resumption) × World}
    (h : w.Parks x cell fiber owner result) : result.2.schedulers = w.schedulers := by
  cases h with
  | absorbed hslot w' hw =>
    rw [release_schedulers]
    rcases hw with rfl | rfl <;> rfl
  | met | refused => rw [release_schedulers]; rfl

/-- The fiber stays in the handle, or comes back with its resumption. -/
theorem Sound.parks {a : Asset} (hclone : a.IsClone x)
    (h : w.Sound shown (a :: (fiber.assets ++ out))) (hcell : w.handles.get? x = some cell)
    (hrests : fiber.Rests owner.home) {result : Option (Fiber × Resumption) × World}
    (hparks : w.Parks x cell fiber owner result) :
    result.2.Sound shown (handedOut result.1 ++ out) := by
  cases hparks with
  | absorbed hslot w' hw =>
    have hsound : w'.Sound shown (a :: (fiber.assets ++ out)) ∧ w'.handles = w.handles := by
      rcases hw with rfl | rfl
      · exact ⟨h, rfl⟩
      · exact ⟨h.tell _, rfl⟩
    refine Sound.release_clone (hsound.1.setSlot (hsound.2 ▸ hcell) ?_ fun f _ => ?_) hclone
    · intro other holder heq
      cases heq
      obtain ⟨alive, halive, hpos⟩ := hsound.1.balanced.clones_pos (x := x)
        (by rw [weigh_cons, hclone.cloneOf]; omega)
      rw [HandleTable.clones, halive]
      exact ⟨hrests, hpos⟩
    · simp only [HandleCell.assets, hslot, weigh_append, weigh_cons, weigh_nil, handedOut_none]
      omega
  | met resumption hslot =>
    refine Sound.release_clone (h.setSlot hcell ?_ fun f _ => ?_) hclone
    · simp
    · simp only [HandleCell.assets, hslot, handedOut_some, weigh_append, weigh_cons, weigh_nil]
      omega
  | refused hslot =>
    refine Sound.release_clone ((h.tell _).recount fun f _ => ?_) hclone
    simp [Resumption.assets, Resumption.debris]

/-! ### Waking -/

/-- How waking comes out. -/
inductive Wakes (w : World) (x : HandleRef) (cell : HandleCell) (owner : Owner)
    (resumption : Resumption) : Except SchedulerFault (Option (Fiber × Resumption)) × World → Prop
  | stored (hslot : cell.slot = .pending) :
      Wakes w x cell owner resumption (.ok none,
        ((w.setSlot x (.woken resumption)).mark (.accepted x resumption)).release [.handle x])
  | met (fiber : Fiber) (hslot : cell.slot = .parked fiber owner) :
      Wakes w x cell owner resumption (.ok (some (fiber, resumption)),
        ((w.setSlot x .spent).mark (.accepted x resumption)).release [.handle x])
  | refused (fault : SchedulerFault) (hslot : cell.slot ≠ .pending)
      (hother : ∀ fiber, cell.slot ≠ .parked fiber owner) :
      Wakes w x cell owner resumption
        (.error fault, w.release (resumption.debris ++ [.handle x]))

theorem wakes (hcell : w.handles.get? x = some cell) (owner : Owner) (resumption : Resumption) :
    w.Wakes x cell owner resumption (w.wake x owner resumption) := by
  rw [wake, hcell]
  simp only
  cases hslot : cell.slot with
  | pending => exact .stored hslot
  | woken | spent => exact .refused _ (by simp [hslot]) (by simp [hslot])
  | parked fiber holder =>
    by_cases heq : holder = owner
    · subst heq
      simp only [Slot.wake, if_true]
      exact .met fiber hslot
    · simp only [Slot.wake, if_neg heq]
      exact .refused _ (by simp [hslot]) (by simp [hslot, heq])

theorem Wakes.steady {result : Except SchedulerFault (Option (Fiber × Resumption)) × World}
    (h : w.Wakes x cell owner resumption result) : w.Steady result.2 := by
  cases h with
  | stored | met =>
    exact ((steady_setSlot ..).trans (steady_mark ..)).trans (steady_release _ _)
  | refused => exact steady_release _ _

theorem Wakes.schedulers {result : Except SchedulerFault (Option (Fiber × Resumption)) × World}
    (h : w.Wakes x cell owner resumption result) : result.2.schedulers = w.schedulers := by
  cases h <;> rw [release_schedulers] <;> rfl

/-- What waking hands out. -/
def wokenOut : Except SchedulerFault (Option (Fiber × Resumption)) → List Asset
  | .ok met => handedOut met
  | .error _ => []

/-- The resumption stays in the handle, comes out with its fiber, or goes. -/
theorem Sound.wakes {a : Asset} (hclone : a.IsClone x)
    (h : w.Sound shown (a :: (resumption.assets ++ out))) (hcell : w.handles.get? x = some cell)
    {result : Except SchedulerFault (Option (Fiber × Resumption)) × World}
    (hwakes : w.Wakes x cell owner resumption result) :
    result.2.Sound shown (wokenOut result.1 ++ out) := by
  cases hwakes with
  | stored hslot =>
    refine Sound.release_clone (Sound.remark (h.setSlot hcell ?_ fun f _ => ?_) _
      (.inl ⟨x, resumption, rfl⟩)) hclone
    · simp
    · simp only [HandleCell.assets, hslot, wokenOut, handedOut_none, weigh_append,
        weigh_cons, weigh_nil]
      omega
  | met fiber hslot =>
    refine Sound.release_clone (Sound.remark (h.setSlot hcell ?_ fun f _ => ?_) _
      (.inl ⟨x, resumption, rfl⟩)) hclone
    · simp
    · simp only [HandleCell.assets, hslot, wokenOut, handedOut_some, weigh_append,
        weigh_cons, weigh_nil]
      omega
  | refused fault =>
    have hout : w.Sound shown ((a :: resumption.assets) ++ out) := h
    refine hout.shift (shift_release_of _ (fun f hf => ?_) fun f => Nat.zero_le _)
    rcases hclone with rfl | rfl <;> simp [hf.kept, Resumption.assets, wokenOut] <;> omega

/-- The fiber that comes out of a handle rests where it is woken from. -/
theorem Orderly.rests_of_met (h : w.Orderly) (hcell : w.handles.get? x = some cell)
    (hslot : cell.slot = .parked fiber owner) : fiber.Rests owner.home :=
  (h.parked x cell fiber owner hcell hslot).1

end World

end Fibers
