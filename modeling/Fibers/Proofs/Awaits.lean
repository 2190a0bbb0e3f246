import Fibers.Proofs.AwaitFrames

/-!
What the slots and the queues of a world say about awaits. A handle is unmet
until a resumption is accepted for it; from then on the world owes that one
resumption to the await on the handle, until the await has come to it. Slots
and queue entries never tell anything else than the history.
-/

namespace Fibers

/-- The fiber is suspended on the await that made the handle. -/
def Fiber.AwaitsOn (fiber : Fiber) (x : HandleRef) : Prop :=
  ∃ plan frames, fiber.frames = .awaiting x plan :: frames

theorem Fiber.AwaitsOn.eq {fiber : Fiber} {x y : HandleRef} (hx : fiber.AwaitsOn x)
    (hy : fiber.AwaitsOn y) : x = y := by
  obtain ⟨plan, frames, hx⟩ := hx
  obtain ⟨plan', frames', hy⟩ := hy
  rw [hx] at hy
  cases hy
  rfl

/-- A fiber that awaits is suspended with those frames. -/
theorem Fiber.AwaitsOn.state_eq {fiber : Fiber} {x : HandleRef} (h : fiber.AwaitsOn x) :
    ∃ plan frames first, fiber.state = .suspended (.awaiting x plan :: frames) first := by
  obtain ⟨plan, frames, hframes⟩ := h
  obtain ⟨serial, id, home, stack, state⟩ := fiber
  cases state with
  | suspended all first =>
    cases hframes
    exact ⟨plan, frames, first, rfl⟩
  | unstarted | finished => cases hframes

namespace World

/-- No resumption was accepted for the handle. -/
structure Unmet (w : World) (x : HandleRef) : Prop where
  accepted : w.accepted x = []
  awaited : w.awaited x = []

/-- The resumption was accepted for the handle, and the await on it has yet to
come to it. -/
structure Owes (w : World) (x : HandleRef) (resumption : Resumption) : Prop where
  accepted : w.accepted x = [resumption]
  awaited : w.awaited x = []

/-- Fiber and resumption of the handle have met, or its last clone went. -/
def IsSpent (w : World) (x : HandleRef) : Prop :=
  ∃ cell, w.handles.get? x = some cell ∧ cell.slot = .spent

/-- Slots and queues agree with what was accepted for each handle and with what
the await on it came to. -/
structure Tended (w : World) : Prop where
  once : ∀ x, (w.accepted x).length ≤ 1 ∧ w.awaited x <+: w.accepted x
  unmade : ∀ {x}, w.handles.get? x = none → w.Unmet x
  pending : ∀ {x cell}, w.handles.get? x = some cell → cell.slot = .pending → w.Unmet x
  woken : ∀ {x cell resumption}, w.handles.get? x = some cell → cell.slot = .woken resumption →
    w.Owes x resumption
  parked : ∀ {x cell fiber owner}, w.handles.get? x = some cell → cell.slot = .parked fiber owner →
    w.Unmet x ∧ fiber.AwaitsOn x
  queued : ∀ {s fiber resumption}, .woken fiber resumption ∈ w.queue s →
    ∃ x, fiber.AwaitsOn x ∧ w.IsSpent x ∧ w.Owes x resumption

variable {w w' : World} {x y : HandleRef} {cell : HandleCell} {fiber : Fiber} {owner : Owner}
  {resumption : Resumption} {s : SchedulerId}

/-- The parts of a world that awaits are about. -/
structure SameAwaits (w w' : World) : Prop where
  cells : ∀ x, w'.handles.get? x = w.handles.get? x
  queues : ∀ s fiber resumption, .woken fiber resumption ∈ w'.queue s →
    .woken fiber resumption ∈ w.queue s
  accepted : ∀ x, w'.accepted x = w.accepted x
  awaited : ∀ x, w'.awaited x = w.awaited x

theorem Tended.congr (h : w.Tended) (hsame : w.SameAwaits w') : w'.Tended := by
  have hunmet : ∀ {x}, w.Unmet x → w'.Unmet x := fun hunmet =>
    ⟨(hsame.accepted _).trans hunmet.accepted, (hsame.awaited _).trans hunmet.awaited⟩
  have howes : ∀ {x resumption}, w.Owes x resumption → w'.Owes x resumption := fun howes =>
    ⟨(hsame.accepted _).trans howes.accepted, (hsame.awaited _).trans howes.awaited⟩
  constructor
  case once => intro x; rw [hsame.accepted, hsame.awaited]; exact h.once x
  case unmade => intro x hx; exact hunmet (h.unmade ((hsame.cells x).symm.trans hx))
  case pending =>
    intro x cell hx hslot
    exact hunmet (h.pending ((hsame.cells x).symm.trans hx) hslot)
  case woken =>
    intro x cell resumption hx hslot
    exact howes (h.woken ((hsame.cells x).symm.trans hx) hslot)
  case parked =>
    intro x cell fiber owner hx hslot
    exact (h.parked ((hsame.cells x).symm.trans hx) hslot).imp_left hunmet
  case queued =>
    intro s fiber resumption member
    obtain ⟨x, hawaits, ⟨cell, hcell, hslot⟩, howed⟩ := h.queued (hsame.queues s _ _ member)
    exact ⟨x, hawaits, ⟨cell, (hsame.cells x).trans hcell, hslot⟩, howes howed⟩

/-! ### Wear -/

namespace NoArrivals

variable {a b : World} (h : a.NoArrivals b)

include h

theorem accepted (x : HandleRef) : b.accepted x = a.accepted x := h.told (Mark.heeds_accepted? x)

theorem awaited (x : HandleRef) : b.awaited x = a.awaited x := h.told (Mark.heeds_awaited? x)

theorem unmet (hx : a.Unmet x) : b.Unmet x :=
  ⟨(h.accepted x).trans hx.accepted, (h.awaited x).trans hx.awaited⟩

theorem owes (hx : a.Owes x resumption) : b.Owes x resumption :=
  ⟨(h.accepted x).trans hx.accepted, (h.awaited x).trans hx.awaited⟩

theorem isSpent (hx : a.IsSpent x) : b.IsSpent x := by
  obtain ⟨cell, hcell, hslot⟩ := hx
  have hsameOrGone := h.cells x
  rw [hcell] at hsameOrGone
  generalize hnew : b.handles.get? x = new at hsameOrGone
  cases hsameOrGone with
  | kept => exact ⟨_, hnew, hslot⟩
  | emptied => exact ⟨_, hnew, rfl⟩

/-- A slot that is not spent is what it was. -/
theorem slot_eq {new : HandleCell} (hnew : b.handles.get? x = some new)
    (hslot : new.slot ≠ .spent) : ∃ old, a.handles.get? x = some old ∧ new.slot = old.slot := by
  have hsameOrGone := h.cells x
  rw [hnew] at hsameOrGone
  generalize hold : a.handles.get? x = old at hsameOrGone
  cases hsameOrGone with
  | kept => exact ⟨_, rfl, rfl⟩
  | emptied => simp at hslot

theorem tended (ha : a.Tended) : b.Tended where
  once x := by rw [h.accepted, h.awaited]; exact ha.once x
  unmade hx := h.unmet (ha.unmade (h.get?_eq_none.1 hx))
  pending hx hslot := by
    obtain ⟨old, hold, heq⟩ := h.slot_eq hx (by simp [hslot])
    exact h.unmet (ha.pending hold (heq.symm.trans hslot))
  woken hx hslot := by
    obtain ⟨old, hold, heq⟩ := h.slot_eq hx (by simp [hslot])
    exact h.owes (ha.woken hold (heq.symm.trans hslot))
  parked hx hslot := by
    obtain ⟨old, hold, heq⟩ := h.slot_eq hx (by simp [hslot])
    exact (ha.parked hold (heq.symm.trans hslot)).imp_left h.unmet
  queued member := by
    obtain ⟨x, hawaits, hspent, howes⟩ := ha.queued (h.queue_sub _ member)
    exact ⟨x, hawaits, h.isSpent hspent, h.owes howes⟩

end NoArrivals

/-! ### Slots and queues -/

theorem accepted_mark (w : World) (told : Mark) (x : HandleRef) :
    (w.mark told).accepted x = w.accepted x ++ (told.accepted? x).toList := told_mark ..

theorem awaited_mark (w : World) (told : Mark) (x : HandleRef) :
    (w.mark told).awaited x = w.awaited x ++ (told.awaited? x).toList := told_mark ..

/-- A slot changes, and what was accepted for its handle with it. -/
theorem Tended.slot (h : w.Tended) (hcell : w.handles.get? x = some cell)
    {slot : Slot Fiber Owner Resumption}
    (hhandles : ∀ y, w'.handles.get? y = if y = x then some { cell with slot }
      else w.handles.get? y)
    (hqueues : ∀ s, w'.queue s = w.queue s) (haccepted : ∀ y, y ≠ x → w'.accepted y = w.accepted y)
    (hawaited : ∀ y, w'.awaited y = w.awaited y) (hopen : ¬w.IsSpent x)
    (honce : (w'.accepted x).length ≤ 1 ∧ w'.awaited x <+: w'.accepted x)
    (hpending : slot ≠ .pending)
    (hwoken : ∀ resumption, slot = .woken resumption → w'.Owes x resumption)
    (hparked : ∀ fiber owner, slot = .parked fiber owner → w'.Unmet x ∧ fiber.AwaitsOn x) :
    w'.Tended := by
  have hunmet : ∀ {y}, y ≠ x → w.Unmet y → w'.Unmet y := fun hne hy =>
    ⟨(haccepted _ hne).trans hy.accepted, (hawaited _).trans hy.awaited⟩
  have howes : ∀ {y resumption}, y ≠ x → w.Owes y resumption → w'.Owes y resumption := fun hne hy =>
    ⟨(haccepted _ hne).trans hy.accepted, (hawaited _).trans hy.awaited⟩
  have hother : ∀ {y}, y ≠ x → w'.handles.get? y = w.handles.get? y :=
    fun hne => by rw [hhandles, if_neg hne]
  have hself : w'.handles.get? x = some { cell with slot } := by rw [hhandles, if_pos rfl]
  constructor
  case once =>
    intro y
    by_cases hy : y = x
    · exact hy ▸ honce
    · rw [haccepted y hy, hawaited]
      exact h.once y
  case unmade =>
    intro y hy
    by_cases hyx : y = x
    · subst hyx
      rw [hself] at hy
      cases hy
    · exact hunmet hyx (h.unmade ((hother hyx).symm.trans hy))
  case pending =>
    intro y new hy hslot
    by_cases hyx : y = x
    · subst hyx
      rw [hself] at hy
      cases hy
      exact absurd hslot hpending
    · exact hunmet hyx (h.pending ((hother hyx).symm.trans hy) hslot)
  case woken =>
    intro y new resumption hy hslot
    by_cases hyx : y = x
    · subst hyx
      rw [hself] at hy
      cases hy
      exact hwoken _ hslot
    · exact howes hyx (h.woken ((hother hyx).symm.trans hy) hslot)
  case parked =>
    intro y new fiber owner hy hslot
    by_cases hyx : y = x
    · subst hyx
      rw [hself] at hy
      cases hy
      exact hparked _ _ hslot
    · exact (h.parked ((hother hyx).symm.trans hy) hslot).imp_left (hunmet hyx)
  case queued =>
    intro s fiber resumption member
    rw [hqueues] at member
    obtain ⟨y, hawaits, hspent, howed⟩ := h.queued member
    have hyx : y ≠ x := fun heq => hopen (heq ▸ hspent)
    obtain ⟨old, hold, hslot⟩ := hspent
    exact ⟨y, hawaits, ⟨old, (hother hyx).trans hold, hslot⟩, howes hyx howed⟩

theorem not_isSpent (hcell : w.handles.get? x = some cell) (hslot : cell.slot ≠ .spent) :
    ¬w.IsSpent x := by
  rintro ⟨old, hold, hspent⟩
  rw [hcell] at hold
  cases hold
  exact hslot hspent

/-- A resumption is accepted before the fiber has parked. -/
theorem Tended.store (h : w.Tended) (hcell : w.handles.get? x = some cell)
    (hslot : cell.slot = .pending) (resumption : Resumption) :
    ((w.setSlot x (.woken resumption)).mark (.accepted x resumption)).Tended ∧
      ((w.setSlot x (.woken resumption)).mark (.accepted x resumption)).Owes x resumption := by
  have hunmet := h.pending hcell hslot
  have howes : ((w.setSlot x (.woken resumption)).mark (.accepted x resumption)).Owes x
      resumption := by
    refine ⟨?_, ?_⟩
    · rw [accepted_mark, accepted, told_setSlot, ← accepted, hunmet.accepted,
        Mark.accepted?, if_pos rfl]
      rfl
    · rw [awaited_mark, awaited, told_setSlot, ← awaited, hunmet.awaited]
      rfl
  refine ⟨h.slot hcell (get?_setSlot hcell _) (fun _ => rfl) (fun y hy => ?_) (fun y => ?_)
    (not_isSpent hcell (by simp [hslot])) ?_ (by simp) (fun other heq => ?_) (by simp), howes⟩
  · rw [accepted_mark, Mark.accepted?, if_neg (Ne.symm hy)]
    exact List.append_nil _
  · rw [awaited_mark]
    exact List.append_nil _
  · rw [howes.accepted, howes.awaited]
    exact ⟨Nat.le_refl _, List.nil_prefix⟩
  · cases heq
    exact howes

/-- A resumption is accepted for a fiber that is parked. -/
theorem Tended.wake (h : w.Tended) (hcell : w.handles.get? x = some cell)
    (hslot : cell.slot = .parked fiber owner) (resumption : Resumption) :
    ((w.setSlot x .spent).mark (.accepted x resumption)).Tended ∧
      ((w.setSlot x .spent).mark (.accepted x resumption)).IsSpent x ∧
      ((w.setSlot x .spent).mark (.accepted x resumption)).Owes x resumption := by
  have hunmet := (h.parked hcell hslot).1
  have howes : ((w.setSlot x .spent).mark (.accepted x resumption)).Owes x resumption := by
    refine ⟨?_, ?_⟩
    · rw [accepted_mark, accepted, told_setSlot, ← accepted, hunmet.accepted,
        Mark.accepted?, if_pos rfl]
      rfl
    · rw [awaited_mark, awaited, told_setSlot, ← awaited, hunmet.awaited]
      rfl
  refine ⟨h.slot hcell (get?_setSlot hcell _) (fun _ => rfl) (fun y hy => ?_) (fun y => ?_)
    (not_isSpent hcell (by simp [hslot])) ?_ (by simp) (by simp) (by simp),
    ⟨{ cell with slot := .spent }, ?_, rfl⟩, howes⟩
  · rw [accepted_mark, Mark.accepted?, if_neg (Ne.symm hy)]
    exact List.append_nil _
  · rw [awaited_mark]
    exact List.append_nil _
  · rw [howes.accepted, howes.awaited]
    exact ⟨Nat.le_refl _, List.nil_prefix⟩
  · change (w.setSlot x .spent).handles.get? x = _
    rw [get?_setSlot hcell, if_pos rfl]

/-- A fiber parks in a pending handle. -/
theorem Tended.park (h : w.Tended) (hcell : w.handles.get? x = some cell)
    (hslot : cell.slot = .pending) (hawaits : fiber.AwaitsOn x) (owner : Owner) :
    (w.setSlot x (.parked fiber owner)).Tended := by
  refine h.slot hcell (get?_setSlot hcell _) (fun _ => rfl) (fun _ _ => rfl) (fun _ => rfl)
    (not_isSpent hcell (by simp [hslot])) (h.once x) (by simp) (by simp) fun other holder heq => ?_
  cases heq
  have hunmet := h.pending hcell hslot
  exact ⟨⟨hunmet.accepted, hunmet.awaited⟩, hawaits⟩

/-- A fiber parks in a handle whose resumption has arrived. -/
theorem Tended.meet (h : w.Tended) (hcell : w.handles.get? x = some cell)
    (hslot : cell.slot = .woken resumption) :
    (w.setSlot x .spent).Tended ∧ (w.setSlot x .spent).IsSpent x ∧
    (w.setSlot x .spent).Owes x resumption := by
  refine ⟨h.slot hcell (get?_setSlot hcell _) (fun _ => rfl) (fun _ _ => rfl) (fun _ => rfl)
    (not_isSpent hcell (by simp [hslot])) (h.once x) (by simp) (by simp) (by simp),
    ⟨{ cell with slot := .spent }, ?_, rfl⟩, ?_⟩
  · rw [get?_setSlot hcell, if_pos rfl]
  · have howes := h.woken hcell hslot
    exact ⟨howes.accepted, howes.awaited⟩

/-- A queue grows by a fiber and the resumption that is owed to it. -/
theorem Tended.append (h : w.Tended) (hawaits : fiber.AwaitsOn x) (hspent : w.IsSpent x)
    (howes : w.Owes x resumption) (s : SchedulerId) :
    (w.append s (.woken fiber resumption)).Tended := by
  have haccepted : ∀ y, (w.append s (.woken fiber resumption)).accepted y = w.accepted y :=
    fun y => told_append _ _ _ rfl
  have hawaited : ∀ y, (w.append s (.woken fiber resumption)).awaited y = w.awaited y :=
    fun y => told_append _ _ _ rfl
  have howed : ∀ {y r}, w.Owes y r → (w.append s (.woken fiber resumption)).Owes y r :=
    fun hy => ⟨(haccepted _).trans hy.accepted, (hawaited _).trans hy.awaited⟩
  have hunmet : ∀ {y}, w.Unmet y → (w.append s (.woken fiber resumption)).Unmet y :=
    fun hy => ⟨(haccepted _).trans hy.accepted, (hawaited _).trans hy.awaited⟩
  constructor
  case once => intro y; rw [haccepted, hawaited]; exact h.once y
  case unmade => intro y hy; exact hunmet (h.unmade hy)
  case pending => intro y new hy hslot; exact hunmet (h.pending hy hslot)
  case woken => intro y new r hy hslot; exact howed (h.woken hy hslot)
  case parked => intro y new other holder hy hslot; exact (h.parked hy hslot).imp_left hunmet
  case queued =>
    intro t other r member
    cases hs : w.scheduler? s with
    | none =>
      have hsame : (w.append s (.woken fiber resumption)).queue t = w.queue t := by
        change (w.updateScheduler s _).queue t = _
        rw [queue_updateScheduler]
        split
        next heq => subst heq; rw [queue_eq, hs]; rfl
        next => rfl
      rw [hsame] at member
      obtain ⟨y, hother, hspent', howes'⟩ := h.queued member
      exact ⟨y, hother, hspent', howed howes'⟩
    | some scheduler =>
      rw [queue_append hs] at member
      split at member
      next heq =>
        rcases List.mem_append.1 member with member | member
        · obtain ⟨y, hother, hspent', howes'⟩ := h.queued member
          exact ⟨y, hother, hspent', howed howes'⟩
        · cases List.mem_singleton.1 member
          exact ⟨x, hawaits, hspent, howed howes⟩
      next =>
        obtain ⟨y, hother, hspent', howes'⟩ := h.queued member
        exact ⟨y, hother, hspent', howed howes'⟩

/-- The await on a handle comes to what is owed to it, unless another fiber is
queued for the same. -/
theorem Tended.awaited (h : w.Tended) (hspent : w.IsSpent x) (howes : w.Owes x resumption)
    (halone : ∀ s fiber r, .woken fiber r ∈ w.queue s → ¬fiber.AwaitsOn x) :
    (w.mark (.awaited x resumption)).Tended := by
  have haccepted : ∀ y, (w.mark (.awaited x resumption)).accepted y = w.accepted y := fun y => by
    rw [accepted_mark]
    exact List.append_nil _
  have hawaited : ∀ y, y ≠ x →
      (w.mark (.awaited x resumption)).awaited y = w.awaited y := fun y hy => by
    rw [awaited_mark, Mark.awaited?, if_neg (Ne.symm hy)]
    exact List.append_nil _
  have hunmet : ∀ {y}, y ≠ x → w.Unmet y → (w.mark (.awaited x resumption)).Unmet y := fun hne hy =>
    ⟨(haccepted _).trans hy.accepted, (hawaited _ hne).trans hy.awaited⟩
  have howed : ∀ {y r}, y ≠ x → w.Owes y r →
      (w.mark (.awaited x resumption)).Owes y r := fun hne hy =>
    ⟨(haccepted _).trans hy.accepted, (hawaited _ hne).trans hy.awaited⟩
  have hne : ∀ {y cell}, w.handles.get? y = some cell → cell.slot ≠ .spent → y ≠ x := by
    rintro y cell hy hslot rfl
    exact not_isSpent hy hslot hspent
  constructor
  case once =>
    intro y
    by_cases hy : y = x
    · subst hy
      rw [awaited_mark, haccepted, howes.accepted, howes.awaited, Mark.awaited?, if_pos rfl]
      exact ⟨Nat.le_refl _, List.prefix_rfl⟩
    · rw [haccepted, hawaited y hy]
      exact h.once y
  case unmade =>
    intro y hy
    refine hunmet ?_ (h.unmade hy)
    rintro rfl
    obtain ⟨cell, hcell, -⟩ := hspent
    rw [show w.handles.get? y = none from hy] at hcell
    cases hcell
  case pending => intro y new hy hslot; exact hunmet (hne hy (by simp [hslot])) (h.pending hy hslot)
  case woken => intro y new r hy hslot; exact howed (hne hy (by simp [hslot])) (h.woken hy hslot)
  case parked =>
    intro y new other holder hy hslot
    exact (h.parked hy hslot).imp_left (hunmet (hne hy (by simp [hslot])))
  case queued =>
    intro s other r member
    obtain ⟨y, hother, hspent', howes'⟩ := h.queued member
    have hyx : y ≠ x := by
      rintro rfl
      exact halone s other r member hother
    exact ⟨y, hother, hspent', howed hyx howes'⟩

/-- A new handle is pending. -/
theorem Tended.openAwait (h : w.Tended) (current : FiberId) (plan : AwaitPlan) (clones : Nat) :
    (Machine.openAwait w current plan clones).2.Tended ∧
      (Machine.openAwait w current plan clones).2.IsOpen w.handles.next := by
  have hget : ∀ y, (Machine.openAwait w current plan clones).2.handles.get? y =
      if w.handles.next = y then some ⟨current, clones, .pending⟩ else w.handles.get? y :=
    get?_makeHandle w current clones
  have haccepted : ∀ y,
      (Machine.openAwait w current plan clones).2.accepted y = w.accepted y := fun y => by
    change ((w.makeHandle current clones).2.mark _).accepted y = _
    rw [accepted_mark]
    exact List.append_nil _
  have hawaited : ∀ y,
      (Machine.openAwait w current plan clones).2.awaited y = w.awaited y := fun y => by
    change ((w.makeHandle current clones).2.mark _).awaited y = _
    rw [awaited_mark]
    exact List.append_nil _
  have hnext : w.handles.get? w.handles.next = none := List.getElem?_eq_none (Nat.le_refl _)
  have hunmet : ∀ {y}, w.Unmet y → (Machine.openAwait w current plan clones).2.Unmet y :=
    fun hy => ⟨(haccepted _).trans hy.accepted, (hawaited _).trans hy.awaited⟩
  have howed : ∀ {y r}, w.Owes y r → (Machine.openAwait w current plan clones).2.Owes y r :=
    fun hy => ⟨(haccepted _).trans hy.accepted, (hawaited _).trans hy.awaited⟩
  refine ⟨?_, ⟨current, clones, .pending⟩, by rw [hget, if_pos rfl], .inl rfl⟩
  constructor
  case once => intro y; rw [haccepted, hawaited]; exact h.once y
  case unmade =>
    intro y hy
    rw [hget] at hy
    split at hy
    · cases hy
    · exact hunmet (h.unmade hy)
  case pending =>
    intro y new hy hslot
    rw [hget] at hy
    split at hy
    next heq => exact hunmet (h.unmade (heq ▸ hnext))
    next => exact hunmet (h.pending hy hslot)
  case woken =>
    intro y new r hy hslot
    rw [hget] at hy
    split at hy
    · cases hy
      cases hslot
    · exact howed (h.woken hy hslot)
  case parked =>
    intro y new other holder hy hslot
    rw [hget] at hy
    split at hy
    · cases hy
      cases hslot
    · exact (h.parked hy hslot).imp_left hunmet
  case queued =>
    intro s other r member
    obtain ⟨y, hother, ⟨cell, hcell, hslot⟩, howes⟩ := h.queued (s := s) member
    refine ⟨y, hother, ⟨cell, ?_, hslot⟩, howed howes⟩
    rw [hget, if_neg, hcell]
    rintro rfl
    rw [hnext] at hcell
    cases hcell

end World

end Fibers
