import Fibers.Proofs.ForeignHandles

/-!
Awaits of the foreign side stay under way. It has every handle that was not passed yet, so no
task is lost that waits for one: from where its await registers to where it comes back, the
frame of the await stands on the stack of a task of the same scheduler, as long as that
scheduler is alive.
-/

namespace Fibers

/-- The await on the handle stands on the stack. -/
def StandsOn (frames : List Frame) (x : HandleRef) : Prop :=
  .registering x .foreign ∈ frames ∨ .awaiting x .foreign ∈ frames

namespace StandsOn

variable {frame : Frame} {frames frames' : List Frame} {x : HandleRef}

theorem mono (h : StandsOn frames x) (hmono : ∀ frame ∈ frames, frame.IsAwait → frame ∈ frames') :
    StandsOn frames' x :=
  h.imp (hmono _ · trivial) (hmono _ · trivial)

theorem append (h : StandsOn frames x) (pushed : List Frame) : StandsOn (pushed ++ frames) x :=
  h.mono fun _ member _ => List.mem_append_right _ member

theorem of_cons (h : StandsOn (frame :: frames) x) (hframe : ¬frame.IsAwait) : StandsOn frames x :=
  h.mono fun _ member hawait => (List.mem_cons.1 member).resolve_left fun heq =>
    hframe (heq ▸ hawait)

/-- The register function ends, and the task suspends. -/
theorem suspended {y : HandleRef} (h : StandsOn (.registering y .foreign :: frames) x) :
    StandsOn (.awaiting y .foreign :: frames) x := by
  rcases h with member | member
  · rcases List.mem_cons.1 member with heq | member
    · cases heq
      exact .inr (List.mem_cons_self ..)
    · exact .inl (List.mem_cons_of_mem _ member)
  · rcases List.mem_cons.1 member with heq | member
    · cases heq
    · exact .inr (List.mem_cons_of_mem _ member)

/-- Another await comes back. -/
theorem of_awaiting {y : HandleRef} (h : StandsOn (.awaiting y .foreign :: frames) x)
    (hyx : y ≠ x) :
    StandsOn frames x := by
  rcases h with member | member
  · rcases List.mem_cons.1 member with heq | member
    · cases heq
    · exact .inl member
  · rcases List.mem_cons.1 member with heq | member
    · cases heq
      exact absurd rfl hyx
    · exact .inr member

end StandsOn

namespace World

/-- The await on the handle stands on the stack of a task that rests: parked on behalf of
its scheduler for a handle that was not passed, or in the queue. -/
inductive AwaitRests (w : World) (s : SchedulerId) (x : HandleRef) : Prop
  | parked {y : HandleRef} {cell : HandleCell} {fiber : Fiber}
      (hcell : w.handles.get? y = some cell) (hslot : cell.slot = .parked fiber (.scheduler s))
      (hnone : w.accepted y = []) (hstands : StandsOn fiber.frames x)
  | queued {fiber : Fiber} (resumption : Resumption) (member : .woken fiber resumption ∈ w.queue s)
      (hstands : StandsOn fiber.frames x)

variable {w w' a b : World} {s t : SchedulerId} {x y : HandleRef} {cell : HandleCell}
  {entry : Runnable}

/-- What rests goes on resting. -/
theorem AwaitRests.mono (h : w.AwaitRests s x)
    (hslots : ∀ y cell fiber, w.handles.get? y = some cell →
      cell.slot = .parked fiber (.scheduler s) →
      w.accepted y = [] → w'.accepted y = [] ∧ ∃ after, w'.handles.get? y = some after ∧
        after.slot = cell.slot)
    (hqueue : ∀ fiber resumption, .woken fiber resumption ∈ w.queue s →
      .woken fiber resumption ∈ w'.queue s) :
    w'.AwaitRests s x := by
  cases h with
  | @parked y cell fiber hcell hslot hnone hstands =>
    obtain ⟨hnone', after, hafter, hsame⟩ := hslots y cell fiber hcell hslot hnone
    exact .parked hafter (hsame.trans hslot) hnone' hstands
  | @queued fiber resumption member hstands =>
    exact .queued resumption (hqueue fiber resumption member) hstands

theorem AwaitRests.of_handles (h : w.AwaitRests s x) (hhandles : w'.handles = w.handles)
    (haccepted : ∀ y, w'.accepted y = w.accepted y)
    (hqueue : ∀ fiber resumption, .woken fiber resumption ∈ w.queue s →
      .woken fiber resumption ∈ w'.queue s) :
    w'.AwaitRests s x :=
  h.mono (fun y cell _ hcell _ hnone => ⟨(haccepted y).trans hnone, cell, hhandles ▸ hcell, rfl⟩)
    hqueue

theorem AwaitRests.of_same (h : w.AwaitRests s x) (hhandles : w'.handles = w.handles)
    (hschedulers : w'.schedulers = w.schedulers) (haccepted : ∀ y, w'.accepted y = w.accepted y) :
    w'.AwaitRests s x :=
  h.of_handles hhandles haccepted fun _ _ member => by rwa [queue, scheduler?, hschedulers]

/-- A mark that is not about what was accepted changes nothing. -/
theorem AwaitRests.mark (h : w.AwaitRests s x) {told : Mark}
    (htold : ∀ y, told.accepted? y = none) : (w.mark told).AwaitRests s x :=
  h.of_same rfl rfl fun y => by rw [accepted_mark, htold]; exact List.append_nil _

/-- The queue of a scheduler that stays alive stays. -/
theorem NoArrivals.queue_eq_of_alive (h : a.NoArrivals b) (halive : 0 < b.owners s) :
    b.queue s = a.queue s := by
  have hsameOrGone := h.schedulers s
  rw [owners] at halive
  rw [queue_eq, queue_eq]
  generalize a.scheduler? s = old, b.scheduler? s = new at hsameOrGone halive ⊢
  cases hsameOrGone with
  | none => rfl
  | kept hqueue => exact hqueue
  | closed _ _ hdead => simp [hdead] at halive

theorem AwaitRests.noArrivals (hx : a.AwaitRests s x) (h : a.NoArrivals b) (hheld : b.Retentive)
    (halive : 0 < b.owners s) : b.AwaitRests s x := by
  refine hx.mono (fun y cell fiber hcell hslot hnone => ?_) fun fiber resumption member => ?_
  · have hnone' := (h.accepted y).trans hnone
    refine ⟨hnone', (h.cells y).slot_eq hcell (hheld y (fun hgone => ?_) hnone')⟩
    rw [h.get?_eq_none.1 hgone] at hcell
    cases hcell
  · rwa [h.queue_eq_of_alive halive]

theorem IsOpen.not_parked (hopen : w.IsOpen y) (hcell : w.handles.get? y = some cell) :
    ¬∃ fiber, cell.slot = .parked fiber (.scheduler s) ∧ StandsOn fiber.frames x := by
  rintro ⟨fiber, hslot, -⟩
  obtain ⟨other, hother, hopen⟩ := hopen
  cases hcell.symm.trans hother
  rcases hopen with hopen | ⟨_, hopen⟩ <;> exact nomatch hslot.symm.trans hopen

/-- A slot that is laid anew gives up its task. -/
theorem AwaitRests.setsSlot {slot : Slot Fiber Owner Resumption} {u : World} (hx : w.AwaitRests s x)
    (h : SetsSlot y cell slot w u) (hheld : u.Retentive) (halive : 0 < u.owners s) :
    u.AwaitRests s x ∨ ∃ fiber, cell.slot = .parked fiber (.scheduler s) ∧
      StandsOn fiber.frames x := by
  obtain ⟨hcell, v, hlaid, hschedulers, htold, hworn⟩ := h
  cases hx with
  | @parked z other fiber hother hslot hnone hstands =>
    by_cases hzy : z = y
    · cases hzy
      cases hcell.symm.trans hother
      exact .inr ⟨fiber, hslot, hstands⟩
    · have hsame : v.handles.get? z = some other := by
        rw [hlaid, get?_setSlot hcell, if_neg hzy, hother]
      exact .inl (AwaitRests.noArrivals (.parked hsame hslot ((htold z hzy).trans hnone) hstands)
          hworn hheld halive)
  | queued resumption member hstands =>
    refine .inl (AwaitRests.noArrivals (.queued resumption ?_ hstands) hworn hheld halive)
    rwa [queue, scheduler?, hschedulers]

theorem SetsSlot.get?_self {slot : Slot Fiber Owner Resumption} {u : World}
    (h : SetsSlot y cell slot w u) (hheld : u.Retentive) (hnone : u.accepted y = []) :
    ∃ after, u.handles.get? y = some after ∧ after.slot = slot := by
  have hmade : u.handles.get? y ≠ none := fun hgone => by
    have hcell := h.hcell
    rw [h.get?_eq_none.1 hgone] at hcell
    cases hcell
  obtain ⟨hcell, v, hlaid, -, -, hworn⟩ := h
  exact (hworn.cells y).slot_eq (by rw [hlaid, get?_setSlot hcell, if_pos rfl])
    (hheld y hmade hnone)

theorem mem_queue_append (w : World) (t : SchedulerId) (entry : Runnable) {other : Runnable}
    (member : other ∈ w.queue s) : other ∈ (w.append t entry).queue s := by
  change other ∈ (w.updateScheduler t fun scheduler => scheduler.append entry).queue s
  rw [queue_updateScheduler]
  split
  next heq =>
    cases hs : w.scheduler? s with
    | none =>
      rw [queue_eq, hs] at member
      cases member
    | some scheduler =>
      rw [queue_eq, hs] at member
      exact List.mem_append_left _ member
  next => exact member

theorem mem_queue_append_self (hs : (w.scheduler? s).isSome) (entry : Runnable) :
    entry ∈ (w.append s entry).queue s := by
  rw [(gains_append w hs entry).queue]
  exact List.mem_append_right _ (List.mem_singleton_self entry)

theorem AwaitRests.append (h : w.AwaitRests s x) (t : SchedulerId) (entry : Runnable) :
    (w.append t entry).AwaitRests s x :=
  h.of_handles rfl (fun _ => told_append _ _ _ rfl) fun _ _ member =>
    mem_queue_append w t entry member

/-- An entry is taken off its queue. -/
theorem AwaitRests.next (h : w.AwaitRests s x) (hnext : w.next? t = some (entry, w')) :
    w'.AwaitRests s x ∨ t = s ∧ ∃ fiber resumption, entry = .woken fiber resumption ∧
      StandsOn fiber.frames x := by
  have hhandles := handles_next hnext
  by_cases hts : t = s
  · cases hts
    have hgives := gives_next hnext
    cases h with
    | parked hcell hslot hnone hstands =>
      exact .inl (.parked (hhandles ▸ hcell) hslot
          ((Machine.told_next hnext rfl).trans hnone) hstands)
    | @queued fiber resumption member hstands =>
      rw [hgives.queue] at member
      rcases List.mem_cons.1 member with heq | member
      · exact .inr ⟨rfl, fiber, resumption, heq.symm, hstands⟩
      · exact .inl (.queued resumption member hstands)
  · refine .inl
      (h.of_handles hhandles (fun _ => Machine.told_next hnext rfl)
        fun fiber resumption member => ?_)
    obtain ⟨queue, -, rfl⟩ := next?_eq hnext
    change _ ∈ (w.updateScheduler t _).queue s
    rwa [queue_updateScheduler, if_neg hts]

theorem AwaitRests.enqueue {scheduler : Scheduler} (h : w.AwaitRests s x)
    (ht : w.scheduler? t = some scheduler) (body : List Action) :
    (w.enqueue t body).2.AwaitRests s x := by
  refine h.of_handles (handles_enqueue w t body) (fun _ => told_enqueue ht body rfl)
    fun fiber resumption member => ?_
  rw [queue_enqueue ht]
  split
  · exact List.mem_append_left _ member
  · exact member

theorem AwaitRests.opens {plan : AwaitPlan} (h : w.AwaitRests s x) (hopens : w.Opens y plan w')
    (hheld : w'.Retentive) (halive : 0 < w'.owners s) : w'.AwaitRests s x := by
  obtain ⟨current, clones, hbefore, rfl, hafter⟩ := hopens
  rename_i u
  have hu : u.Retentive := (hheld.of_noArrivals hafter.toNoArrivals).of_openAwait
  refine AwaitRests.noArrivals ?_ hafter.toNoArrivals hheld halive
  refine (h.noArrivals hbefore.toNoArrivals hu (hafter.toNoArrivals.owners_pos halive)).mono
    (fun z cell fiber hcell hslot hnone => ?_) fun _ _ => id
  refine ⟨(accepted_openAwait ..).trans hnone, cell,
    (get?_openAwait u current plan clones fun hnone => ?_).trans hcell, rfl⟩
  rw [hnone] at hcell
  cases hcell

end World

namespace Machine

variable {byHand : Prop} {m m' : Machine} {frames : List Frame} {s t : SchedulerId}
  {x y : HandleRef} {cell : HandleCell} {resumption : Resumption} {fiber : Fiber} {w : World}
  {script : Script}

/-! ### Awaits under way -/

/-- The await on the handle is under way in a task of the scheduler: one that rests, one
that control is inside of, or one that comes back suspended. -/
inductive Pledged (m : Machine) (s : SchedulerId) (x : HandleRef) : Prop
  | rests (h : m.world.AwaitRests s x)
  | inside {running : Running} (member : running ∈ m.running) (hhome : running.home = some s)
      (hstands : StandsOn running.frames x)
  | back {fiber : Fiber} {y : HandleRef} (hcontrol : m.control = .back fiber (.suspended y))
      (hhome : fiber.home = some s) (hstands : StandsOn fiber.frames x)

/-- Control goes on where it is. -/
theorem Pledged.goTo {control : Control} (h : m.Pledged s x)
    (hcontrol : ∀ fiber y, m.control ≠ .back fiber (.suspended y))
    (hworld : m.world.AwaitRests s x → w.AwaitRests s x)
    (hframes : StandsOn m.top x → StandsOn frames x) : (m.goTo frames w control).Pledged s x := by
  cases h with
  | rests h => exact .rests (hworld h)
  | back hback => exact absurd hback (hcontrol _ _)
  | @inside running member hhome hstands =>
    obtain ⟨world, levels, root, told⟩ := m
    cases levels with
    | nil => cases member
    | cons first below =>
      rcases List.mem_cons.1 member with rfl | member
      · exact .inside (List.mem_cons_self ..) hhome (hframes hstands)
      · exact .inside (List.mem_cons_of_mem _ member) hhome hstands

/-- A fiber is entered. -/
theorem Pledged.enter (hfiber : (∃ stack first, fiber.state = .suspended stack first) ∨
      ∃ body, fiber.state = .unstarted body ∧ resumption = .unit) (h : m.Pledged s x)
    (hcontrol : ∀ fiber y, m.control ≠ .back fiber (.suspended y)) :
    (m.enter fiber resumption).Pledged s x := by
  obtain ⟨first, stack, control, heq, -⟩ := exists_occupy hfiber m
  rw [heq]
  cases h with
  | rests h => exact .rests (h.of_same rfl rfl fun _ => rfl)
  | inside member hhome hstands => exact .inside (List.mem_cons_of_mem _ member) hhome hstands
  | back hback => exact absurd hback (hcontrol _ _)

theorem pledged_of_enter {stack : List Frame} {first : Payload}
    (hstate : fiber.state = .suspended stack first) (hhome : fiber.home = some s)
    (hstands : StandsOn fiber.frames x) : (m.enter fiber resumption).Pledged s x := by
  rw [enter_suspended hstate]
  refine .inside (List.mem_cons_self ..) hhome ?_
  rwa [Fiber.frames, hstate] at hstands

/-- A delivery queues or enters the task that it takes from its handle. -/
theorem Delivers.pledged (h : Delivers m t y cell resumption m') (hcontrol : m.control = .advance)
    (hcell : m.world.handles.get? y = some cell)
    (hrests : ∀ fiber, cell.slot = .parked fiber (.scheduler t) → fiber.Rests (some t))
    (hheld : m'.world.Retentive) (halive : 0 < m'.world.owners s) (hx : m.Pledged s x) :
    m'.Pledged s x := by
  have hplain : ∀ fiber z, m.control ≠ .back fiber (.suspended z) :=
    fun fiber z => by rw [hcontrol]; nofun
  cases h with
  | stored event hslot hquiet =>
    refine hx.goTo hplain (fun hatRest => ?_) id
    exact (hatRest.setsSlot (setsSlot_release hcell _ _ event hquiet) hheld halive).resolve_right
      (by simp [hslot])
  | queued fiber event hslot hcurrent hquiet =>
    refine hx.goTo hplain (fun hatRest => ?_) id
    have halive' := World.owners_append_eq _ t (.woken fiber resumption) s ▸ halive
    have hsets := setsSlot_release hcell .spent resumption event hquiet
    have hheld' :
        ((((m.world.setSlot y .spent).mark (.accepted y resumption)).release [.handle y]).tell
        event).Retentive :=
      World.Retentive.of_same hheld rfl fun z =>
        (World.told_append _ t (.woken fiber resumption) rfl).symm
    rcases hatRest.setsSlot hsets hheld' halive' with hatRest | ⟨other, hother, hstands⟩
    · exact hatRest.append _ _
    · cases hslot.symm.trans hother
      exact .queued resumption (World.mem_queue_append_self (scheduler_of_owners halive') _) hstands
  | dispatched fiber event hslot hcurrent hquiet =>
    obtain ⟨stack, first, hstate⟩ := suspended_of_rests (hrests fiber hslot)
    have hsets := setsSlot_release hcell .spent resumption event hquiet
    rw [enter_suspended hstate] at hheld halive
    have hheld' :
        ((((m.world.setSlot y .spent).mark (.accepted y resumption)).release [.handle y]).tell
        event).Retentive :=
      World.Retentive.of_same hheld rfl fun z =>
        ((World.accepted_mark _ (.dispatched t (.woken fiber resumption)) z).trans
          (List.append_nil _)).symm
    by_cases hatRest : m.world.AwaitRests s x
    · rcases hatRest.setsSlot hsets hheld' halive with hatRest | ⟨other, hother, hstands⟩
      · exact Pledged.enter (.inl ⟨stack, first, hstate⟩)
          (.rests (hatRest.mark fun _ => rfl)) hplain
      · cases hslot.symm.trans hother
        exact pledged_of_enter hstate (hrests fiber hslot).home_eq hstands
    · refine Pledged.enter (.inl ⟨stack, first, hstate⟩) ?_ hplain
      exact hx.goTo hplain (absurd · hatRest)
        (StandsOn.append · [.dispatching t, .draining t 0 none])
  | refused fault event hslot hother hquiet =>
    refine hx.goTo hplain (fun hatRest => ?_) id
    exact hatRest.noArrivals ((World.noArrivals_release _ _).trans (.tell _ hquiet.1)) hheld halive

/-- A fiber that comes back suspended has a clone of its handle. -/
theorem Sound.clones_of_back (hm : m.Sound byHand)
    (hcontrol : m.control = .back fiber (.suspended y))
    (hcell : m.world.handles.get? y = some cell) : 0 < cell.clones := by
  obtain ⟨other, hother, hclones⟩ := (hm.kept_of_back hcontrol).balanced.clones_pos (x := y) (by
    simp only [Exit.assets, List.cons_append, List.nil_append, weigh_append, weigh_cons,
      Asset.cloneOf, if_true]
    omega)
  cases hcell.symm.trans hother
  exact hclones

/-- A scheduler parks or queues the task that comes back. -/
theorem awaitRests_of_receives {exit : Exit} (hm : m.Sound byHand) (hheedful : m.Heedful)
    (hcontrol : m.control = .back fiber exit) (h : m.world.Receives s fiber exit w)
    (hheld : w.Retentive) (halive : 0 < w.owners t)
    (hx : m.world.AwaitRests t x ∨ s = t ∧ (∃ y, exit = .suspended y) ∧ StandsOn fiber.frames x) :
    w.AwaitRests t x := by
  cases h with
  | ended hexit hreckons =>
    refine (hx.resolve_right ?_).noArrivals
      (hreckons.noArrivals (hm.kept_of_back hcontrol)) hheld halive
    rintro ⟨-, ⟨y, rfl⟩, -⟩
    exact hexit y rfl
  | @parked y cell w₁ w₂ hcell hbefore hsame hparks =>
    have hopen := World.isOpen_of_same hsame (hheedful.back _ _ hcontrol).2
    have hnoArrivals := hbefore.noArrivals hm.kept
    have hcell' : w₁.handles.get? y = some cell := hsame ▸ hcell
    obtain ⟨slot, hsets, hslot⟩ := setsSlot_parks hopen hcell' hparks
    rcases hx with hx | ⟨rfl, -, hstands⟩
    · have hheld' := hheld.of_setsSlot hsets (hm.clones_of_back hcontrol hcell)
      exact ((hx.noArrivals hnoArrivals hheld' (hsets.owners_pos halive)).setsSlot hsets hheld
        halive).resolve_right (hopen.not_parked hcell')
    · have hpending : cell.slot = .pending := by
        cases hparks with
        | absorbed hpending => exact hpending
      have hnone : w.accepted y = [] :=
        (told_parks hparks (Mark.heeds_accepted? y)).trans
        ((hnoArrivals.accepted y).trans (hheedful.tended.pending hcell hpending).accepted)
      obtain ⟨after, hafter, hlaid⟩ := hsets.get?_self hheld hnone
      exact .parked hafter (hlaid.trans (hslot rfl)) hnone hstands
  | @handedBack y cell r w₁ w₂ hcell hbefore hsame hparks =>
    have hopen := World.isOpen_of_same hsame (hheedful.back _ _ hcontrol).2
    have hcell' : w₁.handles.get? y = some cell := hsame ▸ hcell
    obtain ⟨slot, hsets, -⟩ := setsSlot_parks hopen hcell' hparks
    have halive' := World.owners_append_eq w₂ s (.woken fiber r) t ▸ halive
    have hheld₂ : w₂.Retentive := hheld.of_same rfl fun z => (World.told_append _ _ _ rfl).symm
    rcases hx with hx | ⟨rfl, -, hstands⟩
    · have hheld₁ := hheld₂.of_setsSlot hsets (hm.clones_of_back hcontrol hcell)
      exact (((hx.noArrivals (hbefore.noArrivals hm.kept) hheld₁
        (hsets.owners_pos halive')).setsSlot hsets
        hheld₂ halive').resolve_right (hopen.not_parked hcell')).append _ _
    · exact .queued r (World.mem_queue_append_self (scheduler_of_owners halive') _) hstands

/-- A run loop enters the task that it takes from the queue. -/
theorem Drains.pledged {ran : Nat} {max : Option Nat} (hm : m.Sound byHand)
    (htop : m.top = .draining t ran max :: frames)
    (h : Drains (m.goTo frames m.world .advance) t ran max m') (hcontrol : m.control = .advance)
    (hheld : m'.world.Retentive) (halive : 0 < m'.world.owners s) (hx : m.Pledged s x) :
    m'.Pledged s x := by
  have hkept := hm.kept_of_top htop
  have hplain : ∀ fiber z, m.control ≠ .back fiber (.suspended z) :=
    fun fiber z => by rw [hcontrol]; nofun
  have hframes : ∀ pushed, StandsOn m.top x →
      StandsOn (pushed ++ frames) x := fun pushed hstands => by
    rw [htop] at hstands
    exact (hstands.of_cons id).append pushed
  cases h with
  | stops hstops =>
    rw [goTo_goTo, goTo_top]
    exact hx.goTo hplain id (hframes [])
  | @fails id body w w₁ w₂ hmore hnext hbefore hafter =>
    have hbegun := ((hkept.next hnext).drift_gain hbefore).noArrivals
    have hfailed := hafter.noArrivals (World.Sound.unstarted ((hkept.next hnext).gain hbefore))
    rw [goTo_goTo, goTo_top]
    refine hx.goTo hplain (fun hatRest => ?_) (hframes [.draining t (ran + 1) max])
    have hrests := (hatRest.next hnext).resolve_right (by rintro ⟨-, _, _, ⟨⟩, -⟩)
    have hmark : w₁.NoArrivals (w₁.mark (.unstarted t id)) := .mark w₁ trivial
    exact hrests.noArrivals ((hbegun.trans hmark).trans hfailed) hheld halive
  | @starts id body fiber w w₁ hmore hnext hbefore hid hhome hstate =>
    have hbegun := ((hkept.next hnext).drift_gain hbefore).noArrivals
    rw [enter_unstarted hstate] at hheld halive
    rw [goTo_goTo, goTo_top]
    refine Pledged.enter (.inr ⟨body, hstate, rfl⟩) (hx.goTo hplain (fun hatRest => ?_)
      (hframes [.dispatching t, .draining t (ran + 1) max])) nofun
    exact ((hatRest.next hnext).resolve_right (by rintro ⟨-, _, _, ⟨⟩, -⟩)).noArrivals
      hbegun hheld halive
  | @wakes fiber resumption w hmore hnext =>
    obtain ⟨queue, hqueue, -⟩ := World.next?_eq hnext
    have hrests := hm.kept.orderly.queued t fiber resumption (hqueue ▸ List.mem_cons_self ..)
    obtain ⟨stack, first, hstate⟩ := suspended_of_rests hrests
    rw [goTo_goTo, goTo_top]
    have hentered : ∀ {w : World}, (m.world.AwaitRests s x → w.AwaitRests s x) →
        ((m.goTo (.dispatching t :: .draining t (ran + 1) max :: frames) w .advance).enter fiber
          resumption).Pledged s x :=
      fun hworld => Pledged.enter (.inl ⟨stack, first, hstate⟩) (hx.goTo hplain hworld
        (hframes [.dispatching t, .draining t (ran + 1) max])) nofun
    by_cases hatRest : m.world.AwaitRests s x
    · rcases hatRest.next hnext with hrest | ⟨rfl, _, _, ⟨⟩, hstands⟩
      · exact hentered fun _ => hrest
      · exact pledged_of_enter hstate hrests.home_eq hstands
    · exact hentered (absurd · hatRest)

/-- An await that is under way stays so until it comes back. -/
theorem Fares.pledged (h : m.Fares m') (hm : m.Sound False) (hheedful : m.Heedful)
    (hheld : m'.world.Retentive) (halive : 0 < m'.world.owners s) (hx : m.Pledged s x) :
    m'.Pledged s x ∨ m'.world.awaited x ≠ [] := by
  have hadvances : m.control = .advance → ∀ fiber z,
      m.control ≠ .back fiber (.suspended z) := fun hcontrol fiber z => by
    rw [hcontrol]
    rintro ⟨⟩
  -- the frames of awaits stay below the one that has the turn
  have hbelow : ∀ {frame : Frame} {frames : List Frame} (pushed : List Frame),
      m.top = frame :: frames → ¬frame.IsAwait →
      StandsOn m.top x → StandsOn (pushed ++ frames) x := fun pushed htop hframe hstands =>
    (StandsOn.of_cons (htop ▸ hstands) hframe).append pushed
  cases h with
  | @goesOn frame pushed frames w htop hcontrol hleft hnoProgress hboxes =>
    refine .inl (hx.goTo (fun fiber z => ?_)
      (fun hatRest => hatRest.noArrivals hnoProgress.toNoArrivals hheld halive)
      (hbelow pushed htop hleft.self_not_isAwait))
    rcases hcontrol with hcontrol | ⟨result, hcontrol⟩ <;> rw [hcontrol] <;> rintro ⟨⟩
  | @enqueues action todo guards frames position body t scheduler shown htop hcontrol haction ht =>
    exact .inl (hx.goTo (hadvances hcontrol)
      (fun hatRest => (hatRest.enqueue ht body).of_same rfl rfl fun _ => World.told_emit ..)
      (hbelow [.actions todo guards] htop (by rintro ⟨⟩)))
  | @asks action todo guards frames w t max htop hcontrol hnoProgress hboxes =>
    obtain ⟨pushed, control, heq⟩ :=
      run_pushes (m.goTo (.answering t .foreignRun :: .actions todo guards :: frames) w .advance) t
        max
    rw [heq, goTo_goTo, goTo_top] at hheld halive ⊢
    exact .inl (hx.goTo (hadvances hcontrol)
        (fun hatRest => hatRest.noArrivals hnoProgress.toNoArrivals hheld halive) fun hstands =>
      (hbelow [.answering t .foreignRun, .actions todo guards] htop (by rintro ⟨⟩) hstands).append
      pushed)
  | @passes action todo guards frames w t y cell r _ name htop hcontrol hpasses
    hnoProgress hboxes hcell hclones ht hdelivers =>
    have hrests : ∀ fiber, cell.slot = .parked fiber (.scheduler t) →
        fiber.Rests (some t) := fun _ =>
      hm.kept.orderly.rests_of_noArrivals hnoProgress.toNoArrivals hcell
    obtain ⟨hheld', halive'⟩ := hdelivers.retentive hcell hclones hrests hheld
    refine .inl (hdelivers.pledged rfl hcell hrests hheld halive ?_)
    exact hx.goTo (hadvances hcontrol)
      (fun hatRest => hatRest.noArrivals hnoProgress.toNoArrivals hheld' (halive' halive))
      (hbelow [.answering t (.foreignResume name), .actions todo guards] htop (by rintro ⟨⟩))
  | @opens action todo register guards frames slot y w htop hcontrol haction hinside
    hopens hboxes =>
    exact .inl (hx.goTo (hadvances hcontrol) (fun hatRest => hatRest.opens hopens hheld halive)
      (hbelow [.actions register [], .registering y .foreign, .actions todo guards] htop
        (by rintro ⟨⟩)))
  | @suspends y frames htop hcontrol =>
    obtain ⟨running, below, hrunning⟩ := hm.inside_of_registering htop (hcontrol ▸ trivial)
    have hframes : running.frames = .registering y .foreign :: frames := by
      rwa [top, hrunning] at htop
    rw [suspendAwait_eq hrunning]
    cases hx with
    | rests hatRest => exact .inl (.rests (hatRest.of_same rfl rfl fun _ => rfl))
    | back hback => exact absurd hback (hadvances hcontrol _ _)
    | inside member hhome hstands =>
      rw [hrunning] at member
      rcases List.mem_cons.1 member with rfl | member
      · exact .inl (.back rfl hhome (hframes ▸ hstands).suspended)
      · exact .inl (.inside member hhome hstands)
  | @concludes y frames r w htop hcontrol hnoProgress hboxes =>
    by_cases hxy : y = x
    · right
      rw [goTo_world, hnoProgress.toNoArrivals.awaited, World.awaited_mark]
      simp [Mark.awaited?, hxy]
    · refine .inl
        (hx.goTo (fun fiber z => by rw [hcontrol]; rintro ⟨⟩) (fun hatRest => ?_)
          fun hstands => ?_)
      · have hmarked : (m.world.mark (.awaited y r)).AwaitRests s x := hatRest.mark fun _ => rfl
        exact hmarked.noArrivals hnoProgress.toNoArrivals hheld halive
      · rw [htop] at hstands
        exact hstands.of_awaiting hxy
  | @receives t fiber exit frames w htop hcontrol hreceives hboxes =>
    have haccepts := hm.accepts
    rw [htop, hcontrol] at haccepts
    obtain ⟨hentered, -⟩ := haccepts
    obtain ⟨ran, max, rest, rfl, hfiber, hhome, -⟩ := hentered.of_dispatching
    refine .inl (.rests (awaitRests_of_receives hm hheedful hcontrol hreceives hheld halive ?_))
    cases hx with
    | rests hatRest => exact .inl hatRest
    | inside member => rw [running_eq_nil hfiber] at member; cases member
    | back hback hhome' hstands =>
      cases hcontrol.symm.trans hback
      cases hhome.symm.trans hhome'
      exact .inr ⟨rfl, ⟨_, rfl⟩, hstands⟩
  | drains htop hcontrol hdrains hboxes =>
    exact .inl (hdrains.pledged hm htop hcontrol hheld halive hx)
  | @leaves running below hrunning htop hcontrol =>
    obtain ⟨u, hhandles, hschedulers, haccepted, hnoArrivals⟩ :=
      leave_noArrivals m running below .completed
    have hdone : running.frames = [] := by rwa [top, hrunning] at htop
    cases hx with
    | rests hatRest =>
      exact .inl (.rests
          ((hatRest.of_same hhandles hschedulers haccepted).noArrivals hnoArrivals hheld halive))
    | back hback => exact absurd hback (hadvances hcontrol _ _)
    | inside member hhome hstands =>
      rw [hrunning] at member
      rcases List.mem_cons.1 member with rfl | member
      · rw [StandsOn, hdone] at hstands
        rcases hstands with ⟨⟨⟩⟩ | ⟨⟨⟩⟩
      · exact .inl (.inside member hhome hstands)

/-! ### Sessions -/

variable {a : Machine}

theorem Serves.owners_pos (h : m.Serves s m') (halive : 0 < m'.world.owners s) :
    0 < m.world.owners s := by
  cases h with
  | passes h => exact (h.alive halive).1
  | appends hway hbefore hgains howners hafter =>
    have hv := (hafter.alive halive).1
    rw [howners] at hv
    exact (hbefore.alive hv).1
  | takes htakes =>
    obtain ⟨u, -, howners, hpasses⟩ := htakes.gives
    exact howners ▸ (hpasses.alive halive).1
  | jumps hrunning hcell hslot hbefore hafter => exact (hbefore.alive (hafter.alive halive).1).1

/-- An await of a session that is under way stays so until it comes back, as long as its
scheduler is alive. -/
theorem Pledged.leads (hx : a.Pledged s x) (ha : VisitsHome script.start a) (hleads : LeadsHome a m)
    (halive : 0 < m.world.owners s) : m.Pledged s x ∨ m.world.awaited x ≠ [] := by
  induction hleads with
  | refl => exact .inl hx
  | @steps b c hleads hstep hallowed hhome ih =>
    have hb := (ha.leads hleads).visits
    have hc := ha.leads (hleads.steps hstep hallowed hhome)
    have hsound := hb.public_of_foreign.public
    rcases ih ((hsound.serves hstep s).owners_pos halive) with hpledged | hawaited
    · exact (hsound.fares (hb.isForeign hallowed) hstep).pledged hsound
        hb.public_of_foreign.faithful.toHeedful hc.retentive halive hpledged
    · have hremembers : b.world.Remembers c.world :=
        (Leads.refl.steps hstep fun _ _ => trivial).remembers
        (hb.public_of_foreign.sound fun _ _ _ _ => trivial)
      have hlonger := hremembers.told_le (Mark.awaited? x)
      refine .inr fun hnone => hawaited (List.length_eq_zero_iff.1 (Nat.le_zero.1 ?_))
      have hempty : c.world.told (Mark.awaited? x) = [] := hnone
      rwa [hempty] at hlonger
  | @goesOn b hleads hdone action ih =>
    have hb := ha.leads hleads
    have hafter := ha.leads (hleads.goesOn hdone action)
    have hnoArrivals : b.world.NoArrivals (Script.showOutcome b) := Between.shows.noArrivals
    rcases ih (hnoArrivals.owners_pos halive) with hpledged | hawaited
    · cases hpledged with
      | rests hatRest =>
        exact .inl (.rests (hatRest.noArrivals hnoArrivals hafter.retentive halive))
      | inside member => rw [hdone.1] at member; cases member
      | back hback =>
        have hcode := (hb.visits.public_of_foreign.public.done hdone).2.2
        rw [hback] at hcode
        exact hcode.elim
    · exact .inr (hnoArrivals.awaited x ▸ hawaited)

/-- Once the queue of a scheduler is empty at the root, a task of it whose await is under
way is parked for a handle that was not passed: for the one of that await, or for one that
the register function of that await itself waits for. -/
theorem Pledged.at_root (hx : m.Pledged s x) (h : Visits Action.IsForeign script.start m)
    (hroot : m.AtRoot) (hqueue : m.world.queue s = []) :
    ∃ y cell fiber, m.world.handles.get? y = some cell ∧ cell.slot = .parked fiber (.scheduler s) ∧
      m.world.opened y = [.foreign] ∧ m.world.accepted y = [] ∧
        (x = y ∨ .registering x .foreign ∈ fiber.frames) := by
  cases hx with
  | inside member => rw [hroot.1] at member; cases member
  | back hback => exact absurd hback (hroot.2 _ _)
  | rests hatRest =>
    cases hatRest with
    | queued resumption member => rw [hqueue] at member; cases member
    | @parked y cell fiber hcell hslot hnone hstands =>
      have hpublic := h.public_of_foreign
      obtain ⟨-, hawaits⟩ := hpublic.faithful.tended.parked hcell hslot
      obtain ⟨plan, frames, first, hstate⟩ := hawaits.state_eq
      have hframes : fiber.frames = .awaiting y plan :: frames := by rw [Fiber.frames, hstate]
      have hforeign : fiber.IsForeign := by
        have hheld := h.foreign.1.slots y cell hcell
        rwa [hslot] at hheld
      obtain rfl : plan = .foreign := hforeign (.awaiting y plan) (hframes ▸ List.mem_cons_self ..)
      have hopened := hpublic.titled y .foreign
        (.inr ⟨_, .kept (.parked hcell hslot), hframes ▸ List.mem_cons_self ..⟩)
      refine ⟨y, cell, fiber, hcell, hslot, hopened, hnone, ?_⟩
      rcases hstands with member | member
      · exact .inr member
      · rw [hframes] at member
        rcases List.mem_cons.1 member with heq | member
        · cases heq
          exact .inl rfl
        · -- below the await that a task waits for, no other one waits
          have hplain :=
            (hpublic.public.kept.orderly.rests_of_met hcell hslot).atRest _ first hstate
          cases hplain _ member

end Machine

end Fibers
