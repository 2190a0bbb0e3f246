import Fibers.Proofs.Handovers
import Fibers.Proofs.Unwinding

/-!
What becomes of suspended fibers while something else goes on. A fiber that is parked,
queued or named stays there, is taken into hand, or is unwound; and it is unwound out
of a handle only with the last clone of it. What is in hand is put somewhere, entered,
or unwound. Every operation of programs goes along with this, and so does every step.
-/

namespace Fibers

namespace World

/-- A fiber that is parked, queued or has a name. -/
inductive HasFiber (w : World) (fiber : Fiber) : Prop
  | kept (h : w.KeepsFiber fiber)
  | named {name : String} (h : w.coroutines.get? name = some fiber)

/-- In the course of what happens from one world to the other a fiber is discarded, and
then its guards are released, the innermost one first. -/
def Unwinds (a : World) (fiber : Fiber) (b : World) : Prop :=
  ∃ news current, b.history.toList = a.history.toList ++ news ∧
    (fiber.relics.map (Relic.happening current)).Sublist news

/-- Nothing that happened is forgotten. -/
def Remembers (a b : World) : Prop := a.history.toList <+: b.history.toList

namespace Remembers

variable {a b c : World}

theorem refl (w : World) : w.Remembers w := List.prefix_refl _

theorem trans (first : a.Remembers b) (second : b.Remembers c) : a.Remembers c :=
  List.IsPrefix.trans first second

theorem of_same (h : b.history = a.history) : a.Remembers b := by
  have hsame : a.history.toList = b.history.toList := by rw [h]
  exact ⟨[], by rw [List.append_nil, hsame]⟩

theorem release (w : World) (work : List Debris) : w.Remembers (w.release work) := by
  rw [release_eq]
  exact ⟨(w.handles.release work).2.map (Relic.happening w.currentId), by simp⟩

theorem write (w : World) (happening : Happening) :
    w.Remembers { w with history := w.history.push happening } := ⟨[happening], by simp⟩

theorem told_prefix {α : Type} (h : a.Remembers b) (read : Mark → Option α) :
    a.told read <+: b.told read := by
  obtain ⟨news, hnews⟩ := h
  rw [told, told, ← hnews, List.filterMap_append]
  exact List.prefix_append ..

theorem told_le {α : Type} (h : a.Remembers b) (read : Mark → Option α) :
    (a.told read).length ≤ (b.told read).length :=
  (h.told_prefix read).length_le

end Remembers

namespace Unwinds

variable {a b c : World} {fiber : Fiber}

theorem after (h : b.Unwinds fiber c) (hbefore : a.Remembers b) : a.Unwinds fiber c := by
  obtain ⟨news, current, hnews, hsub⟩ := h
  obtain ⟨earlier, hearlier⟩ := hbefore
  exact ⟨earlier ++ news, current, by rw [hnews, ← hearlier, List.append_assoc],
    hsub.trans (List.sublist_append_right _ _)⟩

theorem before (h : a.Unwinds fiber b) (hafter : b.Remembers c) : a.Unwinds fiber c := by
  obtain ⟨news, current, hnews, hsub⟩ := h
  obtain ⟨later, hlater⟩ := hafter
  exact ⟨news ++ later, current, by rw [← hlater, hnews, List.append_assoc],
    hsub.trans (List.sublist_append_left _ _)⟩

/-- What a release shows is written down. -/
theorem of_relics {w : World} {work : List Debris}
    (h : fiber.relics.Sublist (w.handles.release work).2) : w.Unwinds fiber (w.release work) := by
  rw [release_eq]
  exact ⟨_, w.currentId, by simp, h.map _⟩

end Unwinds

/-- A suspended fiber that is let go is unwound. -/
theorem unwinds_release (w : World) {fiber : Fiber} (h : fiber.isSuspended = true)
    {work : List Debris} (hwork : fiber.debris.Sublist work) :
    w.Unwinds fiber (w.release work) := by
  apply Unwinds.of_relics
  rw [← Fiber.relics_debris h]
  exact (hwork.filterMap _).trans (HandleTable.relics_sublist _ _)

/-- Only schedulers that somebody owns have something queued. -/
def Attended (w : World) : Prop := ∀ s, w.queue s ≠ [] → 0 < w.owners s

/-- No scheduler comes back that nobody owns, and nothing is queued there. -/
structure KeepsClosed (a b : World) : Prop where
  closed {s : SchedulerId} (h : a.owners s = 0) : b.owners s = 0
  attended (h : a.Attended) : b.Attended

namespace KeepsClosed

variable {a b c : World}

theorem of_same (schedulers : b.schedulers = a.schedulers) : a.KeepsClosed b where
  closed h := by rwa [owners, scheduler?, schedulers]
  attended h s hqueue := by
    rw [queue, scheduler?, schedulers] at hqueue
    rw [owners, scheduler?, schedulers]
    exact h s hqueue

theorem trans (before : a.KeepsClosed b) (after : b.KeepsClosed c) : a.KeepsClosed c :=
  ⟨fun h => after.closed (before.closed h), fun h => after.attended (before.attended h)⟩

/-- One scheduler changes: it has no owner afterwards if it had none before, and has one
if something is queued. -/
theorem updateScheduler (w : World) (s : SchedulerId) {g : Scheduler → Scheduler}
    (hclosed : ∀ scheduler, w.scheduler? s = some scheduler → scheduler.owners = 0 →
      (g scheduler).owners = 0)
    (hattended : ∀ scheduler, w.scheduler? s = some scheduler → (g scheduler).queue ≠ [] →
      (scheduler.queue ≠ [] → 0 < scheduler.owners) → 0 < (g scheduler).owners) :
    w.KeepsClosed (w.updateScheduler s g) where
  closed {t} h := by
    rw [owners_updateScheduler]
    split
    next heq =>
      subst heq
      rw [owners] at h
      cases hs : w.scheduler? s with
      | none => rfl
      | some scheduler => exact hclosed scheduler hs (by rwa [hs] at h)
    next => exact h
  attended h t hqueue := by
    rw [queue_updateScheduler] at hqueue
    rw [owners_updateScheduler]
    split
    next heq =>
      subst heq
      rw [if_pos rfl] at hqueue
      have hbefore := h s
      rw [queue_eq, owners] at hbefore
      cases hs : w.scheduler? s with
      | none => simp [hs] at hqueue
      | some scheduler =>
        rw [hs] at hqueue hbefore
        exact hattended scheduler hs hqueue hbefore
    next hne =>
      rw [if_neg hne] at hqueue
      exact h t hqueue

end KeepsClosed

/-- What becomes of the fibers in slots and queues from one world to another. -/
structure KeepsOrUnwinds (a b : World) : Prop extends a.KeepsClosed b where
  history : a.Remembers b
  /-- A parked fiber stays, is resumed, or is unwound when nobody holds its handle. -/
  parked {x : HandleRef} {cell : HandleCell} {fiber : Fiber} {owner : Owner}
    (hcell : a.handles.get? x = some cell) (hslot : cell.slot = .parked fiber owner)
    (hsuspended : fiber.isSuspended = true) :
    (∃ after, b.handles.get? x = some after ∧ after.slot = .parked fiber owner) ∨
      (a.accepted x).length < (b.accepted x).length ∨ a.Unwinds fiber b ∧ b.handles.Dead x
  dead {x : HandleRef} (h : a.handles.Dead x) : b.handles.Dead x
  /-- A queued fiber stays, has its turn, or is unwound when nobody owns its scheduler. -/
  queued {s : SchedulerId} {fiber : Fiber} {resumption : Resumption}
    (member : .woken fiber resumption ∈ a.queue s) (hsuspended : fiber.isSuspended = true) :
    .woken fiber resumption ∈ b.queue s ∨ (a.dispatched s).length < (b.dispatched s).length ∨
      a.Unwinds fiber b ∧ b.owners s = 0

/-- What becomes of suspended fibers when one may be in hand at first, and one at last.
Wherever a fiber was, it does not go unless it is unwound. -/
structure LosesNone (a : World) (hand : Option Fiber) (b : World) (hand' : Option Fiber) :
    Prop extends a.KeepsOrUnwinds b where
  around {fiber : Fiber} (h : a.HasFiber fiber ∨ hand = some fiber)
    (hsuspended : fiber.isSuspended = true) :
    b.HasFiber fiber ∨ hand' = some fiber ∨ a.Unwinds fiber b

section KeepsOrUnwinds

variable {a b c w : World} {hand : Option Fiber} {x : HandleRef} {s : SchedulerId}

theorem KeepsOrUnwinds.trans (before : a.KeepsOrUnwinds b) (after : b.KeepsOrUnwinds c) :
    a.KeepsOrUnwinds c where
  toKeepsClosed := before.toKeepsClosed.trans after.toKeepsClosed
  history := before.history.trans after.history
  parked {x} _ _ _ hcell hslot hsuspended := by
    have haccepted := before.history.told_le (Mark.accepted? x)
    have haccepted' := after.history.told_le (Mark.accepted? x)
    rcases before.parked hcell hslot hsuspended with
      ⟨cell', hcell', hslot'⟩ | hmore | ⟨hunwound, hdead⟩
    · rcases after.parked hcell' hslot' hsuspended with hstays | hmore | ⟨hunwound, hdead⟩
      · exact .inl hstays
      · exact .inr (.inl (Nat.lt_of_le_of_lt haccepted hmore))
      · exact .inr (.inr ⟨hunwound.after before.history, hdead⟩)
    · exact .inr (.inl (Nat.lt_of_lt_of_le hmore haccepted'))
    · exact .inr (.inr ⟨hunwound.before after.history, after.dead hdead⟩)
  dead h := after.dead (before.dead h)
  queued {s} _ _ member hsuspended := by
    have hdispatched := before.history.told_le (Mark.dispatched? s)
    have hdispatched' := after.history.told_le (Mark.dispatched? s)
    rcases before.queued member hsuspended with member' | hmore | ⟨hunwound, hclosed⟩
    · rcases after.queued member' hsuspended with hstays | hmore | ⟨hunwound, hclosed⟩
      · exact .inl hstays
      · exact .inr (.inl (Nat.lt_of_le_of_lt hdispatched hmore))
      · exact .inr (.inr ⟨hunwound.after before.history, hclosed⟩)
    · exact .inr (.inl (Nat.lt_of_lt_of_le hmore hdispatched'))
    · exact .inr (.inr ⟨hunwound.before after.history, after.closed hclosed⟩)

theorem LosesNone.trans {first second third : Option Fiber} (before : a.LosesNone first b second)
    (after : b.LosesNone second c third) : a.LosesNone first c third where
  toKeepsOrUnwinds := before.toKeepsOrUnwinds.trans after.toKeepsOrUnwinds
  around h hsuspended := by
    have hlater : ∀ {fiber : Fiber}, b.HasFiber fiber ∨ second = some fiber →
        fiber.isSuspended = true → c.HasFiber fiber ∨ third = some fiber ∨ a.Unwinds fiber c := by
      intro fiber haround hsuspended
      exact (after.around haround hsuspended).imp_right (Or.imp_right fun hunwound =>
        hunwound.after before.history)
    rcases before.around h hsuspended with hplaced | hhand | hunwound
    · exact hlater (.inl hplaced) hsuspended
    · exact hlater (.inr hhand) hsuspended
    · exact .inr (.inr (hunwound.before after.history))

namespace LosesNone

/-- Fibers stay in their slots, queues and names, or are unwound there. -/
theorem of_places (keepsClosed : a.KeepsClosed b) (history : a.Remembers b)
    (parked : ∀ {x cell fiber owner}, a.handles.get? x = some cell →
      cell.slot = .parked fiber owner →
      fiber.isSuspended = true →
        (∃ after, b.handles.get? x = some after ∧ after.slot = .parked fiber owner) ∨
        a.Unwinds fiber b ∧ b.handles.Dead x)
    (dead : ∀ {x}, a.handles.Dead x → b.handles.Dead x)
    (queued : ∀ {s fiber resumption}, .woken fiber resumption ∈ a.queue s →
      fiber.isSuspended = true →
      .woken fiber resumption ∈ b.queue s ∨ a.Unwinds fiber b ∧ b.owners s = 0)
    (coroutines : b.coroutines = a.coroutines) : a.LosesNone hand b hand where
  toKeepsClosed := keepsClosed
  history := history
  parked hcell hslot hsuspended := (parked hcell hslot hsuspended).imp_right .inr
  dead := dead
  queued member hsuspended := (queued member hsuspended).imp_right .inr
  around {fiber} h hsuspended := by
    rcases h with ((⟨hcell, hslot⟩ | member) | hname) | hhand
    · rcases parked hcell hslot hsuspended with ⟨after, hafter, hslot'⟩ | ⟨hunwound, -⟩
      · exact .inl (.kept (.parked hafter hslot'))
      · exact .inr (.inr hunwound)
    · rcases queued member hsuspended with member' | ⟨hunwound, -⟩
      · exact .inl (.kept (.queued member'))
      · exact .inr (.inr hunwound)
    · exact .inl (.named (coroutines ▸ hname))
    · exact .inr (.inl hhand)

/-- Queues may gain entries, and what else changes is no place of a fiber. -/
theorem of_queues (keepsClosed : a.KeepsClosed b) (history : a.Remembers b)
    (handles : b.handles = a.handles)
    (queues : ∀ {s fiber resumption}, .woken fiber resumption ∈ a.queue s →
      .woken fiber resumption ∈ b.queue s)
    (coroutines : b.coroutines = a.coroutines) : a.LosesNone hand b hand := by
  apply of_places keepsClosed history
  · intro x cell fiber owner hcell hslot _
    exact .inl ⟨cell, handles ▸ hcell, hslot⟩
  · intro x h
    rwa [handles]
  · intro s fiber resumption member _
    exact .inl (queues member)
  · exact coroutines

theorem of_same (history : a.Remembers b) (handles : b.handles = a.handles)
    (schedulers : b.schedulers = a.schedulers) (coroutines : b.coroutines = a.coroutines) :
    a.LosesNone hand b hand := by
  apply of_queues (.of_same schedulers) history handles
  · intro s fiber resumption member
    rwa [queue, scheduler?, schedulers]
  · exact coroutines

theorem refl (w : World) : w.LosesNone hand w hand := of_same (.refl w) rfl rfl rfl

theorem write (w : World) (happening : Happening) :
    w.LosesNone hand { w with history := w.history.push happening } hand :=
      of_same (.write w happening) rfl rfl rfl

/-- A change of a scheduler that keeps its queue, or adds to it. -/
theorem updateScheduler (w : World) (s : SchedulerId) {g : Scheduler → Scheduler}
    (hkeepsClosed : w.KeepsClosed (w.updateScheduler s g))
    (h : ∀ scheduler, w.scheduler? s = some scheduler → scheduler.queue ⊆ (g scheduler).queue) :
    w.LosesNone hand (w.updateScheduler s g) hand := by
  apply of_queues hkeepsClosed
  · exact .of_same rfl
  · rfl
  · intro t fiber resumption member
    rw [queue_updateScheduler]
    split
    next heq =>
      subst heq
      rw [queue_eq] at member
      cases hs : w.scheduler? s with
      | none => rwa [hs] at member
      | some scheduler =>
        rw [hs] at member
        exact h scheduler hs member
    next => exact member
  · rfl

/-- Whatever is released, only what loses its last clone is unwound. -/
theorem release (w : World) (work : List Debris) : w.LosesNone hand (w.release work) hand := by
  have hhandles : (w.release work).handles = (w.handles.release work).1 := by rw [release_eq]
  apply of_places (.of_same (release_schedulers w work)) (.release w work)
  · intro x cell fiber owner hcell hslot hsuspended
    rw [hhandles]
    exact (HandleTable.release_parked hcell hslot hsuspended).imp_right fun ⟨hdead, hsub⟩ =>
      ⟨.of_relics hsub, hdead⟩
  · intro x hdead
    rw [hhandles]
    exact (HandleTable.release_sameOrGone w.handles work x).dead hdead
  · intro s fiber resumption member _
    rw [queue, scheduler?, release_schedulers]
    exact .inl member
  · rw [release_eq]

/-- A fiber in hand is unwound. -/
theorem unwind (w : World) (fiber : Fiber) :
    w.LosesNone (some fiber) (w.release fiber.debris) none := by
  have hreleased : w.LosesNone none (w.release fiber.debris) none := release w fiber.debris
  refine ⟨hreleased.toKeepsOrUnwinds, ?_⟩
  intro other haround hsuspended
  rcases haround with hplaced | hhand
  · exact hreleased.around (.inl hplaced) hsuspended
  · cases hhand
    exact .inr (.inr (w.unwinds_release hsuspended (List.Sublist.refl _)))

/-- A handle that somebody holds gets another clone. -/
theorem retain (w : World) {x : HandleRef} (h : 0 < w.handles.clones x) :
    w.LosesNone hand (w.retain x) hand := by
  rw [HandleTable.clones] at h
  cases hx : w.handles.get? x with
  | none => simp [hx] at h
  | some old =>
    have hput : w.retain x =
        { w with handles := w.handles.put x { old with clones := old.clones + 1 } } := by
      simp only [World.retain, HandleTable.retain, hx]
    have hlive : old.clones ≠ 0 := by simpa [hx, Nat.pos_iff_ne_zero] using h
    rw [hput]
    apply of_places
    · exact .of_same rfl
    · exact .of_same rfl
    · intro y cell fiber owner hcell hslot _
      by_cases hyx : y = x
      · subst hyx
        obtain rfl : old = cell := Option.some.inj (hx.symm.trans hcell)
        exact .inl ⟨_, (HandleTable.get?_put hx _ y).trans (if_pos rfl), hslot⟩
      · exact .inl ⟨cell, by rw [HandleTable.get?_put hx, if_neg hyx, hcell], hslot⟩
    · rintro y ⟨cell, hcell, hzero⟩
      by_cases hyx : y = x
      · subst hyx
        obtain rfl : old = cell := Option.some.inj (hx.symm.trans hcell)
        exact absurd hzero hlive
      · exact ⟨cell, by rw [HandleTable.get?_put hx, if_neg hyx, hcell], hzero⟩
    · intro s fiber resumption member _
      exact .inl member
    · rfl

/-- A new handle is nobody's. -/
theorem makeHandle (w : World) (id : FiberId) (clones : Nat) :
    w.LosesNone hand (w.makeHandle id clones).2 hand := by
  have hnew : ∀ {x cell}, w.handles.get? x = some cell →
      (w.makeHandle id clones).2.handles.get? x = some cell := by
    intro x cell hcell
    rw [get?_makeHandle, if_neg, hcell]
    rintro rfl
    rw [HandleTable.get?, HandleTable.next, List.getElem?_eq_none (Nat.le_refl _)] at hcell
    cases hcell
  apply of_places
  · exact .of_same rfl
  · exact .of_same rfl
  · intro x cell fiber owner hcell hslot _
    exact .inl ⟨cell, hnew hcell, hslot⟩
  · rintro x ⟨cell, hcell, hzero⟩
    exact ⟨cell, hnew hcell, hzero⟩
  · intro s fiber resumption member _
    exact .inl member
  · rfl

/-- A scheduler that somebody owns gets something to do, or one more owner. -/
theorem extend (w : World) {s : SchedulerId} (h : 0 < w.owners s) {g : Scheduler → Scheduler}
    (hqueue : ∀ scheduler, w.scheduler? s = some scheduler → scheduler.queue ⊆ (g scheduler).queue)
    (howners : ∀ scheduler, w.scheduler? s = some scheduler →
      scheduler.owners ≤ (g scheduler).owners) :
    w.LosesNone hand (w.updateScheduler s g) hand := by
  have howned : ∀ scheduler, w.scheduler? s = some scheduler → 0 < scheduler.owners := by
    intro scheduler hs
    rwa [owners, hs] at h
  apply updateScheduler w s
  · apply KeepsClosed.updateScheduler
    · intro scheduler hs hzero
      exact absurd hzero (Nat.pos_iff_ne_zero.1 (howned scheduler hs))
    · intro scheduler hs _ _
      exact Nat.lt_of_lt_of_le (howned scheduler hs) (howners scheduler hs)
  · exact hqueue

theorem enqueue (w : World) {s : SchedulerId} (h : 0 < w.owners s) (body : List Action) :
    w.LosesNone hand (w.enqueue s body).2 hand := by
  rw [World.enqueue]
  split
  · exact refl w
  next scheduler hs =>
    have hsame : ∀ other, w.scheduler? s = some other → other = scheduler := fun other hother =>
      Option.some.inj (hother.symm.trans hs)
    refine (extend w h ?_ ?_).trans ((write _ _).trans (write _ _))
    · intro other hother
      rw [hsame other hother]
      exact List.subset_append_left _ _
    · intro other hother
      rw [hsame other hother]
      exact Nat.le_refl _

/-- The entries of a queue are unwound with its scheduler. -/
theorem disown (w : World) (s : SchedulerId) : w.LosesNone hand (w.disown s) hand := by
  rw [World.disown]
  split
  · exact refl w
  next scheduler hs =>
    split
    · -- The queue is emptied and released at once; in between its fibers are nowhere.
      have hrelease : World.LosesNone _ hand _ hand :=
        release (w.updateScheduler s fun scheduler => { scheduler with owners := 0, queue := [] })
          (scheduler.queue.flatMap (Runnable.debris s))
      have hkeepsClosed : w.KeepsClosed
          (w.updateScheduler s fun scheduler => { scheduler with owners := 0, queue := [] }) :=
        KeepsClosed.updateScheduler w s (fun _ _ _ => rfl) fun _ _ hqueue => absurd rfl hqueue
      apply of_places (hkeepsClosed.trans hrelease.toKeepsClosed)
      · exact hrelease.history
      · intro x cell fiber owner hcell hslot hsuspended
        rcases hrelease.parked hcell hslot hsuspended with hstays | hmore | hunwound
        · exact .inl hstays
        · have hsame :=
            told_release
            (w.updateScheduler s fun scheduler => { scheduler with owners := 0, queue := [] })
            (scheduler.queue.flatMap (Runnable.debris s)) (Mark.heeds_accepted? x)
          rw [accepted, accepted, hsame] at hmore
          exact absurd hmore (Nat.lt_irrefl _)
        · exact .inr hunwound
      · exact hrelease.dead
      · intro t fiber resumption member hsuspended
        by_cases heq : s = t
        · subst heq
          rw [queue_eq, hs, Option.elim_some] at member
          refine .inr ⟨unwinds_release _ hsuspended ?_, hrelease.closed ?_⟩
          swap
          · rw [owners_updateScheduler, if_pos rfl, hs]
            rfl
          obtain ⟨before, after, hsplit⟩ := List.append_of_mem member
          rw [hsplit, List.flatMap_append, List.flatMap_cons, Runnable.debris]
          refine List.Sublist.trans ?_ (List.sublist_append_right _ _)
          exact (List.sublist_append_left _ _).trans (List.sublist_append_left _ _)
        · have hother :
            (w.updateScheduler s fun scheduler => { scheduler with owners := 0, queue := [] }).queue
              t = w.queue t := by rw [queue_updateScheduler, if_neg heq]
          rw [← hother] at member
          left
          rwa [queue, scheduler?, release_schedulers]
      · rw [release_eq]
        rfl
    next hmore =>
      apply updateScheduler w s
      · apply KeepsClosed.updateScheduler
        · intro other _ hzero
          rw [hzero]
        · intro other hother _ _
          obtain rfl : scheduler = other := Option.some.inj (hs.symm.trans hother)
          exact Nat.sub_pos_of_lt (Nat.not_le.1 hmore)
      · exact fun _ _ => List.Subset.refl _

/-! ### Fibers in hand -/

theorem pick (w : World) (fiber : Fiber) : w.LosesNone none w (some fiber) := by
  have hsame : w.LosesNone none w none := refl w
  refine ⟨hsame.toKeepsOrUnwinds, ?_⟩
  intro other haround _
  rcases haround with hplaced | hhand
  · exact .inl hplaced
  · cases hhand

/-- A fiber is taken out of its name, or put under one, in place of another one. -/
theorem rename (w : World) (coroutines : Names Fiber) (name : String)
    (hself : ∀ fiber, hand = some fiber → hand' = some fiber ∨ coroutines.get? name = some fiber)
    (hold : ∀ fiber, w.coroutines.get? name = some fiber → hand' = some fiber)
    (hothers : ∀ other, other ≠ name → coroutines.get? other = w.coroutines.get? other) :
    w.LosesNone hand { w with coroutines } hand' where
  toKeepsOrUnwinds := ⟨.of_same rfl, .of_same rfl, fun hcell hslot _ => .inl ⟨_, hcell, hslot⟩, id,
    fun member _ => .inl member⟩
  around {fiber} h hsuspended := by
    rcases h with ((⟨hcell, hslot⟩ | member) | @⟨other, hname⟩) | hhand
    · exact .inl (.kept (.parked hcell hslot))
    · exact .inl (.kept (.queued member))
    · by_cases hsame : other = name
      · subst hsame
        exact .inr (.inl (hold fiber hname))
      · exact .inl (.named ((hothers other hsame).trans hname))
    · rcases hself fiber hhand with hstays | hnamed
      · exact .inr (.inl hstays)
      · exact .inl (.named hnamed)

theorem take {w' : World} {name : String} {fiber : Fiber}
    (h : w.takeCoroutine? name = some (fiber, w')) : w.LosesNone none w' (some fiber) := by
  rw [takeCoroutine?, Option.map_eq_some_iff] at h
  obtain ⟨found, hfound, heq⟩ := h
  cases heq
  apply rename w _ name
  · intro other hhand
    cases hhand
  · intro other hother
    rw [hfound] at hother
    exact hother
  · intro other hne
    exact Names.get?_erase_of_ne _ hne

theorem bind (w : World) (name : String) (fiber : Fiber) :
    w.LosesNone (some fiber) (w.bind name fiber) none := by
  have hlaid : w.LosesNone (some fiber) { w with coroutines := w.coroutines.insert name fiber }
    (w.coroutines.get? name) := by
    apply rename w _ name
    · intro other hhand
      cases hhand
      exact .inr (Names.get?_insert_self _ name fiber)
    · intro other hother
      exact hother
    · intro other hne
      exact Names.get?_insert_of_ne _ fiber hne
  rw [World.bind]
  split
  next hnone =>
    rw [hnone] at hlaid
    exact hlaid
  next old hold =>
    rw [hold] at hlaid
    exact hlaid.trans (unwind _ old)

/-- A slot is laid anew. What was parked in it comes to hand as its resumption is
accepted, and what is in hand may be parked in it. -/
theorem lay {u : World} {x : HandleRef} {cell : HandleCell} (hcell : w.handles.get? x = some cell)
    (slot : Slot Fiber Owner Resumption) (handles : u.handles = (w.setSlot x slot).handles)
    (schedulers : u.schedulers = w.schedulers) (coroutines : u.coroutines = w.coroutines)
    (history : w.Remembers u) (hleft : ∀ fiber owner, cell.slot = .parked fiber owner →
      (w.accepted x).length < (u.accepted x).length ∧ hand' = some fiber)
    (hhand : ∀ fiber, hand = some fiber → hand' = some fiber ∨
      ∃ owner, slot = .parked fiber owner) :
    w.LosesNone hand u hand' := by
  have hget := fun y => (congrArg (HandleTable.get? · y) handles).trans (get?_setSlot hcell slot y)
  have hqueue : ∀ s, u.queue s = w.queue s :=
    fun s => by rw [queue, scheduler?, schedulers, queue, scheduler?]
  have hstays : ∀ {y : HandleRef} {old : HandleCell}, y ≠ x → w.handles.get? y = some old →
      u.handles.get? y = some old := fun hyx hold => (hget _).trans ((if_neg hyx).trans hold)
  constructor
  · constructor
    · exact .of_same schedulers
    · exact history
    · intro y old fiber owner hold hslot _
      by_cases hyx : y = x
      · subst hyx
        obtain rfl : cell = old := Option.some.inj (hcell.symm.trans hold)
        exact .inr (.inl (hleft fiber owner hslot).1)
      · exact .inl ⟨old, hstays hyx hold, hslot⟩
    · rintro y ⟨old, hold, hzero⟩
      by_cases hyx : y = x
      · subst hyx
        obtain rfl : cell = old := Option.some.inj (hcell.symm.trans hold)
        exact ⟨_, (hget y).trans (if_pos rfl), hzero⟩
      · exact ⟨old, hstays hyx hold, hzero⟩
    · intro s fiber resumption member _
      rw [hqueue]
      exact .inl member
  · intro fiber haround _
    rcases haround with
      ((@⟨y, old, owner, hold, hslot⟩ | @⟨s, resumption, member⟩) | hname) | hfirst
    · by_cases hyx : y = x
      · subst hyx
        obtain rfl : cell = old := Option.some.inj (hcell.symm.trans hold)
        exact .inr (.inl (hleft fiber owner hslot).2)
      · exact .inl (.kept (.parked (hstays hyx hold) hslot))
    · rw [← hqueue] at member
      exact .inl (.kept (.queued member))
    · exact .inl (.named (coroutines ▸ hname))
    · rcases hhand fiber hfirst with hlast | ⟨owner, hslot⟩
      · exact .inr (.inl hlast)
      · exact .inl (.kept (.parked ((hget x).trans (if_pos rfl)) hslot))

theorem park (w : World) {x : HandleRef} (h : 0 < w.handles.clones x) (fiber : Fiber)
    (owner : Owner) :
    w.LosesNone (some fiber) (w.park x fiber owner).2 ((w.park x fiber owner).1.map Prod.fst) := by
  rw [HandleTable.clones] at h
  cases hcell : w.handles.get? x with
  | none => simp [hcell] at h
  | some cell =>
    have hparks := parks hcell fiber owner
    generalize w.park x fiber owner = result at hparks
    cases hparks with
    | absorbed hslot w' hw =>
      refine LosesNone.trans (lay hcell (.parked fiber owner) ?_ ?_ ?_ ?_ ?_ ?_) (release _ _)
      · rcases hw with rfl | rfl <;> rfl
      · rcases hw with rfl | rfl <;> rfl
      · rcases hw with rfl | rfl <;> rfl
      · rcases hw with rfl | rfl
        · exact .of_same rfl
        · exact .write w _
      · intro other holder hparked
        rw [hslot] at hparked
        cases hparked
      · intro other hhand
        cases hhand
        exact .inr ⟨owner, rfl⟩
    | met resumption hslot =>
      refine LosesNone.trans (lay hcell .spent rfl rfl rfl (.of_same rfl) ?_ ?_) (release _ _)
      · intro other holder hparked
        rw [hslot] at hparked
        cases hparked
      · intro other hhand
        exact .inl hhand
    | refused => exact (write w _).trans (release _ _)

theorem wake (w : World) (x : HandleRef) (owner : Owner) (resumption : Resumption) :
    w.LosesNone none (w.wake x owner resumption).2 (wokenFiber (w.wake x owner resumption).1) := by
  cases hcell : w.handles.get? x with
  | none =>
    rw [World.wake, hcell]
    exact refl w
  | some cell =>
    have hwakes := wakes hcell owner resumption
    have hgrows : ∀ slot, (w.accepted x).length <
        (((w.setSlot x slot).mark (.accepted x resumption)).accepted x).length := by
      intro slot
      rw [accepted, accepted, told_mark, Mark.accepted?, if_pos rfl, told_setSlot,
        List.length_append]
      exact Nat.lt_succ_self _
    generalize w.wake x owner resumption = result at hwakes
    cases hwakes with
    | stored hslot =>
      have hlaid : w.LosesNone none
          ((w.setSlot x (.woken resumption)).mark (.accepted x resumption)) none := by
        apply lay hcell (.woken resumption)
        · rfl
        · rfl
        · rfl
        · exact .write _ _
        · intro other holder hparked
          rw [hslot] at hparked
          cases hparked
        · intro other hhand
          cases hhand
      exact hlaid.trans (release _ _)
    | met fiber hslot =>
      have hlaid : w.LosesNone none ((w.setSlot x .spent).mark (.accepted x resumption))
          (some fiber) := by
        apply lay hcell .spent
        · rfl
        · rfl
        · rfl
        · exact .write _ _
        · intro other holder hparked
          rw [hslot] at hparked
          cases hparked
          exact ⟨hgrows .spent, rfl⟩
        · intro other hhand
          cases hhand
      exact hlaid.trans (release _ _)
    | refused => exact release _ _

theorem append (w : World) {s : SchedulerId} (h : 0 < w.owners s) (fiber : Fiber)
    (resumption : Resumption) :
    w.LosesNone (some fiber) (w.append s (.woken fiber resumption)) none := by
  obtain ⟨scheduler, hs⟩ := Option.isSome_iff_exists.1 (Machine.scheduler_of_owners h)
  have hextended : w.LosesNone none
      (w.updateScheduler s fun scheduler => scheduler.append (.woken fiber resumption)) none :=
    extend w h (fun _ _ => List.subset_append_left _ _) fun _ _ => Nat.le_refl _
  have happended : w.LosesNone none (w.append s (.woken fiber resumption)) none :=
    hextended.trans (write _ _)
  refine ⟨happended.toKeepsOrUnwinds, ?_⟩
  intro other haround hsuspended
  rcases haround with hplaced | hhand
  · exact happended.around (.inl hplaced) hsuspended
  · cases hhand
    have member : .woken fiber resumption ∈ (w.append s (.woken fiber resumption)).queue s := by
      rw [queue_append hs, if_pos rfl]
      exact List.mem_append_right _ (List.mem_singleton_self _)
    exact .inl (.kept (.queued member))

end LosesNone

end KeepsOrUnwinds

/-- Every operation of programs goes along with what becomes of fibers. -/
theorem admits_losesNone : Admits LosesNone where
  trans := LosesNone.trans
  rest handles schedulers coroutines history _ :=
    .of_same (.of_same history) handles schedulers coroutines
  write w happening _ _ := .write w happening
  comesBack {w _ _ _ hand} h := by
    have herror : ∀ text, w.LosesNone hand { w with lastError := text } hand := fun _ =>
      .of_same (.of_same rfl) rfl rfl rfl
    cases h with
    | code | pointer => exact .trans (.write _ _) (.write _ _)
    | refused | null => exact (herror _).trans (.trans (.write _ _) (.write _ _))
  release w work := .release w work
  retain w _ h := .retain w h
  makeHandle w id clones := .makeHandle w id clones
  own w _ h := .extend w h (fun _ _ => List.Subset.refl _) fun _ _ => Nat.le_succ _
  disown w s := .disown w s
  enqueue w _ h body := .enqueue w h body
  pick w fiber _ := .pick w fiber
  take := .take
  bind w name fiber := .bind w name fiber
  unwind w fiber := .unwind w fiber
  park w _ h fiber owner := .park w h fiber owner
  wake w x owner resumption := .wake w x owner resumption
  append w _ h fiber resumption := .append w h fiber resumption

/-! ### Turns of the run loop, and what comes between root actions -/

/-- An entry is taken from the front of a queue. -/
theorem losesNone_next {w w' : World} {s : SchedulerId} {entry : Runnable}
    (h : w.next? s = some (entry, w')) : w.LosesNone none w' entry.fiber? := by
  have hgives := gives_next h
  have hhandles := handles_next h
  have hpasses : ∀ {t}, s ≠ t → w'.queue t = w.queue t := by
    intro t hne
    obtain ⟨queue, -, rfl⟩ := next?_eq h
    change (w.updateScheduler s _).queue t = _
    rw [queue_updateScheduler, if_neg hne]
  have hremembers : w.Remembers w' := by
    obtain ⟨queue, -, rfl⟩ := next?_eq h
    exact .write _ _
  have hcoroutines : w'.coroutines = w.coroutines := by
    obtain ⟨queue, -, rfl⟩ := next?_eq h
    rfl
  have hkeepsClosed : w.KeepsClosed w' := by
    obtain ⟨queue, hqueue, rfl⟩ := next?_eq h
    refine (KeepsClosed.updateScheduler w s ?_ ?_).trans (.of_same rfl)
    · exact fun _ _ hzero => hzero
    · intro scheduler hs _ hattended
      apply hattended
      intro hnone
      rw [queue_eq, hs, Option.elim_some, hnone] at hqueue
      cases hqueue
  constructor
  · constructor
    · exact hkeepsClosed
    · exact hremembers
    · intro x cell fiber owner hcell hslot _
      exact .inl ⟨cell, hhandles ▸ hcell, hslot⟩
    · intro x hdead
      rwa [hhandles]
    · intro t fiber resumption member _
      by_cases heq : s = t
      · subst heq
        right; left
        rw [hgives.dispatched, List.length_append]
        exact Nat.lt_succ_self _
      · left
        rwa [hpasses heq]
  · intro fiber haround _
    rcases haround with ((⟨hcell, hslot⟩ | @⟨t, resumption, member⟩) | hname) | hhand
    · exact .inl (.kept (.parked (hhandles ▸ hcell) hslot))
    · by_cases heq : s = t
      · subst heq
        rw [hgives.queue] at member
        rcases List.mem_cons.1 member with rfl | member
        · exact .inr (.inl rfl)
        · exact .inl (.kept (.queued member))
      · exact .inl (.kept (.queued (hpasses heq ▸ member)))
    · exact .inl (.named (hcoroutines ▸ hname))
    · cases hhand

/-- The run loop goes along as well. -/
theorem turns_losesNone : AdmitsTurns LosesNone where
  toAdmits := admits_losesNone
  next := losesNone_next
  tune w s g hqueue howners := by
    intro hand
    apply LosesNone.updateScheduler w s
    · apply KeepsClosed.updateScheduler
      · intro scheduler _ hzero
        rw [howners, hzero]
      · intro scheduler _ hqueued hattended
        rw [howners]
        rw [hqueue] at hqueued
        exact hattended hqueued
    · intro scheduler _
      rw [hqueue]
      exact List.Subset.refl _

/-- When the names are given up, the fibers that have one are unwound. -/
theorem losesNone_close (w : World) : w.LosesNone none w.close none := by
  have hslots : w.LosesNone none { w with slots := .empty } none :=
    .of_same (.of_same rfl) rfl rfl rfl
  have hhandles := hslots.trans (.release _ (w.slots.values.map Debris.handle))
  rw [close]
  refine hhandles.trans ?_
  generalize ({ w with slots := .empty } : World).release (w.slots.values.map Debris.handle) = u
  have hreleased : World.LosesNone _ none _ none :=
    .release ({ u with coroutines := .empty } : World) (u.coroutines.values.flatMap Fiber.debris)
  constructor
  · exact ⟨⟨hreleased.closed, hreleased.attended⟩, hreleased.history, hreleased.parked,
      hreleased.dead, hreleased.queued⟩
  · intro fiber haround hsuspended
    rcases haround with ((⟨hcell, hslot⟩ | member) | hname) | hhand
    · exact hreleased.around (.inl (.kept (.parked hcell hslot))) hsuspended
    · exact hreleased.around (.inl (.kept (.queued member))) hsuspended
    · obtain ⟨before, after, hsplit⟩ := List.append_of_mem (Names.mem_values_of_get? hname)
      have hwork : fiber.debris.Sublist (u.coroutines.values.flatMap Fiber.debris) := by
        rw [hsplit, List.flatMap_append, List.flatMap_cons]
        exact (List.sublist_append_left _ _).trans (List.sublist_append_right _ _)
      exact .inr (.inr
        ((unwinds_release ({ u with coroutines := .empty } : World) hsuspended hwork).after
        (.of_same rfl)))
    · cases hhand

end World

end Fibers
