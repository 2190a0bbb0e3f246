import Fibers.Proofs.Drift

/-!
Sound worlds. Every place of a world keeps what it was given until it is given up: a
world is sound when its books are right with what is held outside, every fiber
is where it belongs, and the handles of host calls are kept from the program.
Each operation by which fibers change places has its rule here.
-/

namespace Fibers

open Asset (cloneOf looseOf shareOf postOf taskOf fiberOf serialOf begunOf unstartedOf
    stackOf unsuitedOf)
open Mark (enqueues starts finishes discards vanishes opens hosts awaits terminates)

/-- What an entry brings when its turn comes: a fiber is to be made for a task. -/
def Runnable.yield (s : SchedulerId) : Runnable → List Asset
  | .fresh id _ => [.claim id (some s)]
  | .woken fiber resumption => fiber.assets ++ resumption.assets

namespace World

/-- A world in order, with what is held outside. Some handles may be shown to
programs even where they were made for host calls. -/
structure Sound (shown : HandleRef → Prop) (w : World) (out : List Asset) : Prop where
  balanced : w.Balanced out
  orderly : w.Orderly
  hidden : ∀ x, ¬shown x → 0 < w.tally (hosts x) → ¬w.Shows out x

variable {shown : HandleRef → Prop} {w w' : World} {out out' rest : List Asset}

theorem Drift.tally_eq (h : w.Drift w') {f : Mark → Nat} (hf : ∀ told, told.IsQuiet → f told = 0) :
    w'.tally f = w.tally f := by
  obtain ⟨news, hnews, hquiet⟩ := h.history
  have hzero : weigh (Happening.weight f) news = 0 := by
    refine weigh_eq_zero _ fun x hx => ?_
    have := hquiet x hx
    cases x with
    | mark told => exact hf told this
    | entry | event => rfl
  rw [tally, hnews, weigh_append, hzero, tally, Nat.add_zero]

theorem hosts_of_quiet (x : HandleRef) (told : Mark) (h : told.IsQuiet) : hosts x told = 0 := by
  cases told <;> first | rfl | exact h.elim

theorem Sound.shift (h : w.Sound shown (out ++ rest)) (hshift : w.Shift out w' out') :
    w'.Sound shown (out' ++ rest) := by
  have hshifted := hshift rest h.balanced
  refine ⟨hshifted.balanced, h.orderly.drift hshifted.drift, fun x hshown hhosts hshows => ?_⟩
  rw [hshifted.drift.tally_eq (hosts_of_quiet x)] at hhosts
  exact h.hidden x hshown hhosts (hshifted.shows x hshows)

/-- Nothing need be given up for what comes out. -/
theorem Sound.gain (h : w.Sound shown out) (hshift : w.Shift [] w' out') :
    w'.Sound shown (out' ++ out) := by
  have hnone : w.Sound shown ([] ++ out) := h
  exact hnone.shift hshift

theorem Sound.drift (h : w.Sound shown (out ++ rest)) (hshift : w.Shift out w' out') : w.Drift w' :=
  (hshift rest h.balanced).drift

theorem Sound.drift_gain (h : w.Sound shown out) (hshift : w.Shift [] w' out') : w.Drift w' := by
  have hnone : w.Sound shown ([] ++ out) := h
  exact hnone.drift hshift

/-- Assets change places, and fibers stay where they belong. -/
theorem Sound.transfer (h : w.Sound shown out) (hfigures : w'.figures = w.figures)
    (hworth : ∀ f, Asset.Fair f → w'.worth f + weigh f out' = w.worth f + weigh f out)
    (horderly : w'.Orderly) : w'.Sound shown out' := by
  refine ⟨h.balanced.transfer hfigures hworth, horderly, fun x hshown hhosts hshows => ?_⟩
  have hhistory : w'.history = w.history := congrArg Figures.history hfigures
  rw [tally, hhistory] at hhosts
  refine h.hidden x hshown hhosts ?_
  rwa [Shows, ← hworth _ (Asset.fair_looseOf x)]

theorem Sound.recount (h : w.Sound shown out)
    (hout : ∀ f, Asset.Fair f → weigh f out' = weigh f out) : w.Sound shown out' :=
  h.transfer rfl (fun f hf => by rw [hout f hf]) h.orderly

/-- What is told moves assets as the mark says, and opens nothing. -/
theorem Sound.mark (h : w.Sound shown out) (told : Mark)
    (hloose : ∀ x, weigh (looseOf x) out' ≤ weigh (looseOf x) out)
    (hclones : ∀ x, weigh (cloneOf x) out' = weigh (cloneOf x) out)
    (hshares : ∀ s, weigh (shareOf s) out' = weigh (shareOf s) out)
    (htasks : ∀ s id,
      weigh (taskOf s id) out' + vanishes s id told + starts s id told = weigh (taskOf s id) out)
    (hfibers : ∀ s id, weigh (fiberOf s id) out' + discards s id told + finishes s id told =
      weigh (fiberOf s id) out + starts s id told)
    (hposts : ∀ x, weigh (postOf x) out' + awaits x told ≤ weigh (postOf x) out)
    (hopens : ∀ x, opens x told = 0) (henqueues : ∀ s id, enqueues s id told = 0)
    (hbodies : ∀ n, weigh (serialOf n) out' + terminates n told ≤ weigh (serialOf n) out)
    (hstacks : ∀ label, weigh (stackOf label) out' ≤ weigh (stackOf label) out)
    (hsuited : ∀ suits, weigh (unsuitedOf suits) out' ≤ weigh (unsuitedOf suits) out) :
    (w.mark told).Sound shown out' := by
  refine ⟨h.balanced.mark told hclones hshares htasks hfibers hposts hopens henqueues hbodies
    hstacks hsuited, ⟨h.orderly.queued, h.orderly.parked, h.orderly.named, h.orderly.driven⟩,
      fun x hshown hhosts hshows => ?_⟩
  have hnone : hosts x told = 0 := by
    have := hopens x
    cases told <;> simp_all [hosts, opens]
  rw [tally_mark, hnone] at hhosts
  refine h.hidden x hshown hhosts ?_
  have := hloose x
  have hworth : (w.mark told).worth (looseOf x) = w.worth (looseOf x) := rfl
  simp only [Shows, hworth] at hshows ⊢
  omega

/-- A mark that moves nothing. -/
theorem Sound.remark (h : w.Sound shown out) (told : Mark)
    (hsilent : (∃ x resumption, told = .accepted x resumption) ∨
      ∃ s fiber resumption, told = .appended s (.woken fiber resumption) ∨
        told = .dispatched s (.woken fiber resumption)) : (w.mark told).Sound shown out := by
  rcases hsilent with ⟨x, resumption, rfl⟩ | ⟨s, fiber, resumption, rfl | rfl⟩ <;>
    exact h.mark _ (fun _ => Nat.le_refl _) (fun _ => rfl) (fun _ => rfl) (fun _ _ => rfl)
      (fun _ _ => rfl) (fun _ => Nat.le_refl _) (fun _ => rfl) (fun _ _ => rfl)
      (fun _ => Nat.le_refl _) (fun _ => Nat.le_refl _) fun _ => Nat.le_refl _

theorem Sound.tell (h : w.Sound shown out) (event : Event) : (w.tell event).Sound shown out :=
  ⟨h.balanced.tell event, ⟨h.orderly.queued, h.orderly.parked, h.orderly.named, h.orderly.driven⟩,
    fun x hshown hhosts => h.hidden x hshown (by rwa [tally_tell] at hhosts)⟩

theorem Sound.setCurrent (h : w.Sound shown out) (current : Option Current) :
    World.Sound shown { w with current } out :=
  h.transfer rfl (fun _ _ => rfl)
    ⟨h.orderly.queued, h.orderly.parked, h.orderly.named, h.orderly.driven⟩

/-! ### Slots -/

theorem Orderly.setSlot (h : w.Orderly) (x : HandleRef) {slot : Slot Fiber Owner Resumption}
    (hslot : ∀ fiber owner, slot = .parked fiber owner → fiber.Rests owner.home ∧
      0 < w.handles.clones x) :
    (w.setSlot x slot).Orderly where
  queued := h.queued
  parked y cell fiber owner hcell hparked := by
    cases hx : w.handles.get? x with
    | none =>
      have hsame : (w.setSlot x slot).handles = w.handles := by
        simp only [World.setSlot, HandleTable.setSlot, hx]
      rw [hsame] at hcell
      exact h.parked y cell fiber owner hcell hparked
    | some old =>
      simp only [World.setSlot, HandleTable.setSlot, hx] at hcell
      rw [HandleTable.get?_put hx] at hcell
      split at hcell
      next =>
        cases hcell
        obtain ⟨hrests, hpos⟩ := hslot fiber owner hparked
        rw [HandleTable.clones, hx] at hpos
        exact ⟨hrests, hpos⟩
      next => exact h.parked y cell fiber owner hcell hparked
  named := h.named
  driven := h.driven

/-- What a slot takes in comes from outside, and what it gives up goes there. -/
theorem Sound.setSlot (h : w.Sound shown out) {x : HandleRef} {cell : HandleCell}
    (hcell : w.handles.get? x = some cell) {slot : Slot Fiber Owner Resumption}
    (hslot : ∀ fiber owner, slot = .parked fiber owner → fiber.Rests owner.home ∧
      0 < w.handles.clones x)
    (hout : ∀ f, Asset.Fair f → weigh f out' + weigh f (HandleCell.assets { cell with slot }) =
      weigh f out + weigh f cell.assets) : (w.setSlot x slot).Sound shown out' := by
  refine ⟨h.balanced.setSlot hcell hout, h.orderly.setSlot x hslot,
    fun y hshown hhosts hshows => ?_⟩
  refine h.hidden y hshown hhosts ?_
  have := worth_setSlot hcell slot (looseOf y)
  have := hout _ (Asset.fair_looseOf y)
  simp only [Shows] at hshows ⊢
  omega

/-! ### Queues -/

theorem queue_eq (w : World) (s : SchedulerId) :
    w.queue s = (w.scheduler? s).elim [] Scheduler.queue := by
  rw [queue]
  cases w.scheduler? s <;> rfl

theorem queue_updateScheduler (s t : SchedulerId) (g : Scheduler → Scheduler) :
    (w.updateScheduler s g).queue t =
      if s = t then (w.scheduler? t).elim [] (fun scheduler => (g scheduler).queue)
      else w.queue t := by
  rw [queue_eq, scheduler?_updateScheduler]
  split
  next => cases w.scheduler? t <;> rfl
  next => rw [queue_eq]

theorem Sound.requeue (h : w.Sound shown out) {s : SchedulerId} {scheduler : Scheduler}
    (hs : w.scheduler? s = some scheduler) {g : Scheduler → Scheduler}
    (howners : ∀ scheduler, (g scheduler).owners = scheduler.owners)
    (hlast : ∀ scheduler, (g scheduler).lastId = scheduler.lastId)
    (hpool : ∀ scheduler, (g scheduler).pool = scheduler.pool)
    (hqueue : ∀ fiber resumption, .woken fiber resumption ∈ (g scheduler).queue →
      fiber.Rests (some s))
    (hout : ∀ f, Asset.Fair f →
      weigh f out' + weigh f ((g scheduler).queue.flatMap (Runnable.assets s)) =
      weigh f out + weigh f (scheduler.queue.flatMap (Runnable.assets s))) :
    (w.updateScheduler s g).Sound shown out' := by
  refine h.transfer (figures_updateScheduler s howners hlast hpool) (fun f hf => ?_)
    ⟨fun t fiber resumption member => ?_, h.orderly.parked, h.orderly.named, h.orderly.driven⟩
  · have := worth_requeue hs g (hpool scheduler) f
    have := hout f hf
    omega
  · rw [queue_updateScheduler] at member
    split at member
    next heq =>
      subst heq
      rw [hs] at member
      exact hqueue fiber resumption member
    next => exact h.orderly.queued t fiber resumption member

theorem queue_append {s : SchedulerId} {scheduler : Scheduler}
    (hs : w.scheduler? s = some scheduler) (entry : Runnable) (t : SchedulerId) :
    (w.append s entry).queue t = if s = t then w.queue t ++ [entry] else w.queue t := by
  change (w.updateScheduler s _).queue t = _
  rw [queue_updateScheduler]
  split
  next heq =>
    subst heq
    rw [queue_eq, hs]
    rfl
  next => rfl

/-- A woken fiber goes into the queue with its resumption. -/
theorem Sound.append {fiber : Fiber} {resumption : Resumption}
    (h : w.Sound shown (fiber.assets ++ resumption.assets ++ out)) {s : SchedulerId}
    {scheduler : Scheduler} (hs : w.scheduler? s = some scheduler) (hrests : fiber.Rests (some s)) :
    (w.append s (.woken fiber resumption)).Sound shown out := by
  have hqueue : w.queue s = scheduler.queue := by rw [queue_eq, hs]; rfl
  refine Sound.remark ?_ _ (.inr ⟨s, fiber, resumption, .inl rfl⟩)
  refine h.requeue hs (fun _ => rfl) (fun _ => rfl) (fun _ => rfl)
    (fun other told member => ?_) fun f _ => ?_
  · rcases List.mem_append.1 member with member | member
    · exact h.orderly.queued s other told (hqueue ▸ member)
    · cases List.mem_singleton.1 member
      exact hrests
  · simp only [Scheduler.append, List.flatMap_append, List.flatMap_singleton, Runnable.assets,
      weigh_append]
    omega

theorem next?_eq {s : SchedulerId} {entry : Runnable} (h : w.next? s = some (entry, w')) :
    ∃ queue, w.queue s = entry :: queue ∧ w' = (w.updateScheduler s fun scheduler =>
      { scheduler with queue }).mark (.dispatched s entry) := by
  rw [next?] at h
  split at h
  next => cases h
  next first queue hqueue =>
    cases h
    exact ⟨queue, hqueue, rfl⟩

/-- The first entry of a queue comes out with what it brings. -/
theorem Sound.next (h : w.Sound shown out) {s : SchedulerId} {entry : Runnable}
    (hnext : w.next? s = some (entry, w')) : w'.Sound shown (entry.yield s ++ out) := by
  obtain ⟨queue, hqueue, rfl⟩ := next?_eq hnext
  have hscheduler : ∃ scheduler, w.scheduler? s = some scheduler ∧
      scheduler.queue = entry :: queue := by
    rw [queue_eq] at hqueue
    cases hs : w.scheduler? s with
    | none => simp [hs] at hqueue
    | some scheduler => exact ⟨scheduler, rfl, by simpa [hs] using hqueue⟩
  obtain ⟨scheduler, hs, hentries⟩ := hscheduler
  have hpopped : (w.updateScheduler s fun scheduler => { scheduler with queue }).Sound shown
      (entry.assets s ++ out) := by
    refine h.requeue hs (fun _ => rfl) (fun _ => rfl) (fun _ => rfl)
      (fun fiber resumption member => ?_) fun f _ => ?_
    · exact h.orderly.queued s fiber resumption (hqueue ▸ List.mem_cons_of_mem _ member)
    · simp only [hentries, List.flatMap_cons, weigh_append]
      omega
  cases entry with
  | woken fiber resumption => exact hpopped.remark _ (.inr ⟨s, fiber, resumption, .inr rfl⟩)
  | fresh id body =>
    refine hpopped.mark _ (fun x => ?_) (fun x => ?_) (fun t => ?_) (fun t number => ?_)
      (fun t number => ?_) (fun x => ?_) (fun _ => rfl) (fun _ _ => rfl) (fun _ => Nat.le_refl _)
      (fun _ => Nat.le_refl _) (fun _ => Nat.le_refl _)
    · exact Nat.le_refl _
    · rfl
    · rfl
    · simp only [Runnable.yield, Runnable.assets, List.cons_append, List.nil_append,
        weigh_cons, taskOf, vanishes, starts]
      omega
    · simp only [Runnable.yield, Runnable.assets, List.cons_append, List.nil_append,
        weigh_cons, fiberOf, discards, finishes, starts, Option.some.injEq]
      omega
    · exact Nat.le_refl _

theorem queue_enqueue {s : SchedulerId} {scheduler : Scheduler}
    (hs : w.scheduler? s = some scheduler) (body : List Action) (t : SchedulerId) :
    (w.enqueue s body).2.queue t =
      if s = t then w.queue t ++ [.fresh ⟨scheduler.lastId + 1⟩ body] else w.queue t := by
  simp only [World.enqueue, hs]
  change (w.updateScheduler s _).queue t = _
  rw [queue_updateScheduler]
  split
  next heq =>
    subst heq
    rw [queue_eq, hs]
    rfl
  next => rfl

theorem Sound.enqueue (h : w.Sound shown out) (s : SchedulerId) (body : List Action) :
    (w.enqueue s body).2.Sound shown out := by
  cases hs : w.scheduler? s with
  | none => simpa only [World.enqueue, hs] using h
  | some scheduler =>
    refine ⟨h.balanced.enqueue s body, ⟨fun t fiber resumption member => ?_, ?_, ?_, ?_⟩,
      fun x hshown hhosts hshows => ?_⟩
    · rw [queue_enqueue hs] at member
      split at member
      next =>
        rcases List.mem_append.1 member with member | member
        · exact h.orderly.queued t fiber resumption member
        · cases List.mem_singleton.1 member
      next => exact h.orderly.queued t fiber resumption member
    · simp only [World.enqueue, hs]
      exact h.orderly.parked
    · simp only [World.enqueue, hs]
      exact h.orderly.named
    · simp only [World.enqueue, hs]
      exact h.orderly.driven
    · have hworth := worth_requeue hs (fun _ => (scheduler.enqueue body).2) rfl (looseOf x)
      simp only [Scheduler.enqueue, Scheduler.append, List.flatMap_append, weigh_append,
        List.flatMap_singleton, Runnable.assets, weigh_cons, weigh_nil, looseOf] at hworth
      simp only [World.enqueue, hs, tally_tell, tally_mark, hosts, Nat.add_zero] at hhosts hshows
      refine h.hidden x hshown hhosts ?_
      simp only [Shows, Scheduler.enqueue, Scheduler.append] at hshows ⊢
      change 0 < (w.updateScheduler s _).worth (looseOf x) + _ at hshows
      omega

/-! ### Handles of awaits -/

theorem looseOf_le_cloneOf (x : HandleRef) (a : Asset) : looseOf x a ≤ cloneOf x a := by
  cases a with
  | loose debris => cases debris <;> exact Nat.le_refl _
  | kept => exact Nat.zero_le _
  | share | post | claim | unstarted | holds => exact Nat.le_refl _

/-- Nobody has seen a handle that is yet to be made. -/
theorem Balanced.not_shows_next (h : w.Balanced out) : ¬w.Shows out w.handles.next := by
  have hclones := h.clones w.handles.next
  rw [w.clones_next] at hclones
  have := w.worth_le (looseOf_le_cloneOf w.handles.next)
  have := weigh_le (looseOf_le_cloneOf w.handles.next) out
  simp only [Shows]
  omega

theorem Balanced.opens_next (h : w.Balanced out) : w.tally (opens w.handles.next) = 0 := by
  have := h.opened w.handles.next
  simpa [HandleTable.next] using this

theorem hosts_le_opens (x : HandleRef) (w : World) : w.tally (hosts x) ≤ w.tally (opens x) := by
  refine weigh_le (fun happening => ?_) _
  cases happening with
  | mark told =>
    cases told <;> simp only [Happening.weight, hosts, opens, Nat.le_refl]
    split <;> split <;> simp_all
  | entry | event => exact Nat.le_refl _

theorem openAwait_eq (w : World) (current : FiberId) (plan : AwaitPlan) (n : Nat) :
    Machine.openAwait w current plan n =
      (w.handles.next, (w.makeHandle current n).2.mark (.opened w.handles.next plan)) := rfl

theorem worth_mark (w : World) (told : Mark) (f : Asset → Nat) :
    (w.mark told).worth f = w.worth f := rfl

theorem tally_makeHandle (w : World) (id : FiberId) (n : Nat) (f : Mark → Nat) :
    (w.makeHandle id n).2.tally f = w.tally f := rfl

theorem get?_makeHandle (w : World) (id : FiberId) (n : Nat) (x : HandleRef) :
    (w.makeHandle id n).2.handles.get? x =
      if w.handles.next = x then some ⟨id, n, .pending⟩ else w.handles.get? x := by
  obtain ⟨i⟩ := x
  simp only [World.makeHandle, HandleTable.make, HandleTable.get?, HandleTable.next,
    HandleRef.mk.injEq]
  rw [List.getElem?_append]
  split
  next hlt => rw [if_neg (by omega)]
  next hge =>
    split
    next heq => simp [heq]
    next hne => rw [List.getElem?_eq_none (by simp; omega), List.getElem?_eq_none (by omega)]

theorem Orderly.makeHandle (h : w.Orderly) (id : FiberId) (n : Nat) :
    (w.makeHandle id n).2.Orderly where
  queued := h.queued
  parked x cell fiber owner hcell hparked := by
    rw [get?_makeHandle] at hcell
    split at hcell
    next =>
      cases hcell
      cases hparked
    next => exact h.parked x cell fiber owner hcell hparked
  named := h.named
  driven := h.driven

section Made

variable {clones : List Asset} {n : Nat}
  (hclones : ∀ x, weigh (cloneOf x) clones = if w.handles.next = x then n else 0)
  (hother : ∀ f, Asset.Narrow f → weigh f clones = 0) (hshares : ∀ s, weigh (shareOf s) clones = 0)

include hclones hother hshares

/-- A new handle comes with its clones. -/
theorem Sound.makeHandle (h : w.Sound shown out) (id : FiberId) :
    (w.makeHandle id n).2.Sound shown (clones ++ out) := by
  refine ⟨h.balanced.makeHandle id n (fun x => ?_) (fun s => ?_) fun f hf => ?_,
    h.orderly.makeHandle id n, fun x hshown hhosts hshows => ?_⟩
  · rw [weigh_append, hclones]
    exact Nat.add_comm _ _
  · rw [weigh_append, hshares, Nat.zero_add]
  · rw [weigh_append, hother f hf, Nat.zero_add]
  · rw [tally_makeHandle] at hhosts
    simp only [Shows, worth_makeHandle, weigh_append] at hshows
    by_cases hnew : w.handles.next = x
    · subst hnew
      have := hosts_le_opens w.handles.next w
      have := h.balanced.opens_next
      omega
    · refine h.hidden x hshown hhosts ?_
      have := weigh_le (looseOf_le_cloneOf x) clones
      rw [hclones, if_neg hnew] at this
      simp only [Shows]
      omega

/-- An await gets a new handle, the right to its resumption, and clones; those of
a host call are kept from the program. -/
theorem Sound.openAwait (h : w.Sound shown out) (current : FiberId) (plan : AwaitPlan)
    (hkept : plan.kind.isHosted = true → weigh (looseOf w.handles.next) clones = 0) :
    (Machine.openAwait w current plan n).2.Sound shown
      (.post w.handles.next :: (clones ++ out)) := by
  have hmade := h.makeHandle hclones hother hshares current
  have hvalid : w.handles.next.index < (w.makeHandle current n).2.handles.cells.length := by
    simp [World.makeHandle, HandleTable.make, HandleTable.next]
  rw [openAwait_eq]
  refine ⟨hmade.balanced.opened_mark h.balanced.opens_next hvalid plan,
    ⟨hmade.orderly.queued, hmade.orderly.parked, hmade.orderly.named, hmade.orderly.driven⟩,
      fun x hshown hhosts hshows => ?_⟩
  rw [tally_mark, tally_makeHandle] at hhosts
  simp only [Shows, worth_mark, weigh_cons, looseOf, Nat.zero_add] at hshows
  by_cases hnew : w.handles.next = x
  · subst hnew
    have hzero := h.balanced.not_shows_next
    have hle := hosts_le_opens w.handles.next w
    rw [h.balanced.opens_next, Nat.le_zero] at hle
    rw [hle, Nat.zero_add, hosts] at hhosts
    split at hhosts
    next hhosted =>
      simp only [Shows] at hzero
      have := hkept hhosted.2
      rw [worth_makeHandle, weigh_append] at hshows
      omega
    next => exact absurd hhosts (Nat.lt_irrefl 0)
  · refine hmade.hidden x hshown ?_ hshows
    rw [tally_makeHandle]
    simpa [hosts, hnew] using hhosts

end Made

end World

end Fibers
