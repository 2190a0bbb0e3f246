import Fibers.Proofs.Awaits

/-!
Delivery of resumptions. As long as programs touch fibers only through
schedulers, handles and drivers, an await that suspends is resumed with the one
resumption that was accepted for its handle, and a resumption that was accepted
is still on its way only in a queue. The invariant follows the await frames of
every fiber, wherever the fiber is.
-/

namespace Fibers

open Asset (cloneOf postOf)

namespace World

variable {w w' : World} {s : SchedulerId} {x : HandleRef} {fiber : Fiber} {resumption : Resumption}

theorem not_misused_mark {told : Mark} (h : ¬w.Misused) : ¬(w.mark told).Misused := by
  rintro ⟨id, member⟩
  exact h ⟨id, by simpa [mark] using member⟩

theorem not_misused_append {entry : Runnable} (h : ¬w.Misused) : ¬(w.append s entry).Misused := by
  rintro ⟨id, member⟩
  exact h ⟨id, by simpa [append, mark, updateScheduler] using member⟩

theorem not_misused_enqueue {scheduler : Scheduler} (hs : w.scheduler? s = some scheduler)
    {body : List Action} (h : ¬w.Misused) : ¬(w.enqueue s body).2.Misused := by
  rintro ⟨id, member⟩
  refine h ⟨id, ?_⟩
  simpa [enqueue, hs, tell, mark, updateScheduler, (Event.isQuiet_enqueued _ _).1,
    Ne.symm ((Event.isQuiet_enqueued _ _).1 _)] using member

/-- What is told of a task that is enqueued is told of its queue. -/
theorem told_enqueue {α : Type} {read : Mark → Option α} {scheduler : Scheduler}
    (hs : w.scheduler? s = some scheduler) (body : List Action)
    (hread : read (.appended s (.fresh ⟨scheduler.lastId + 1⟩ body)) = none) :
    (w.enqueue s body).2.told read = w.told read := by
  simp only [World.enqueue, hs]
  change (((w.updateScheduler s _).mark (.appended s (.fresh ⟨scheduler.lastId + 1⟩ body))).tell
      _).told _ = _
  rw [told_tell, told_mark, hread]
  exact List.append_nil _

theorem Tended.enqueue {scheduler : Scheduler} (h : w.Tended) (hs : w.scheduler? s = some scheduler)
    (body : List Action) : (w.enqueue s body).2.Tended :=
  h.congr ⟨fun _ => by rw [handles_enqueue], fun _ _ _ => mem_queue_enqueue hs,
    fun _ => told_enqueue hs body rfl, fun _ => told_enqueue hs body rfl⟩

/-- Marks about queues say nothing of awaits. -/
theorem Owes.mark_dispatched (h : w.Owes x resumption) (s : SchedulerId) (entry : Runnable) :
    (w.mark (.dispatched s entry)).Owes x resumption := by
  refine ⟨?_, ?_⟩
  · rw [accepted_mark]
    exact (List.append_nil _).trans h.accepted
  · rw [awaited_mark]
    exact (List.append_nil _).trans h.awaited

theorem Tended.next {entry : Runnable} (h : w.Tended) (hnext : w.next? s = some (entry, w')) :
    w'.Tended := by
  refine h.congr
    ⟨fun _ => by rw [handles_next hnext], fun _ _ _ => mem_queue_next hnext,
    fun x => ?_, fun x => ?_⟩
  all_goals obtain ⟨queue, hqueue, rfl⟩ := next?_eq hnext
  · rw [accepted_mark]
    exact List.append_nil _
  · rw [awaited_mark]
    exact List.append_nil _

theorem Owes.next {entry : Runnable} (h : w.Owes x resumption)
    (hnext : w.next? s = some (entry, w')) : w'.Owes x resumption := by
  obtain ⟨queue, hqueue, rfl⟩ := next?_eq hnext
  exact Owes.mark_dispatched (w := w.updateScheduler s _) ⟨h.accepted, h.awaited⟩ s entry

theorem not_misused_next {entry : Runnable} (h : ¬w.Misused)
    (hnext : w.next? s = some (entry, w')) : ¬w'.Misused := by
  obtain ⟨queue, hqueue, rfl⟩ := next?_eq hnext
  exact not_misused_mark h

theorem Tended.opens {plan : AwaitPlan} (h : w.Tended) (hopens : w.Opens x plan w') :
    w'.Tended := by
  obtain ⟨current, clones, hbefore, -, hafter⟩ := hopens
  exact hafter.tended ((hbefore.tended h).openAwait current plan clones).1

theorem not_misused_opens {plan : AwaitPlan} (h : ¬w.Misused) (hopens : w.Opens x plan w') :
    ¬w'.Misused := by
  obtain ⟨current, clones, hbefore, -, hafter⟩ := hopens
  exact mt hafter.misused.1 (not_misused_mark (mt hbefore.misused.1 h))

end World

/-- A fiber that waits for a handle has its post. -/
theorem Fiber.AwaitsOn.posts {fiber : Fiber} {x : HandleRef} (h : fiber.AwaitsOn x) :
    0 < weigh (postOf x) fiber.assets := by
  obtain ⟨plan, frames, hframes⟩ := h
  have hle := fiber.framesAssets_le (postOf x)
  rw [hframes, framesAssets_cons, weigh_append] at hle
  simp only [Frame.assets, weigh_cons, postOf, if_true] at hle
  omega

namespace Machine

variable {byHand : Prop} {m m' : Machine} {x : HandleRef} {frames : List Frame} {w : World}
  {control : Control} {fiber : Fiber} {resumption : Resumption} {plan plan' : AwaitPlan}
  {running : Running} {below : List Running} {s : SchedulerId}

/-! ### One await for each handle -/

/-- A handle has one await, so no other one registers for it. -/
theorem Sound.not_registering_of_back (h : m.Sound byHand) {exit : Exit}
    (hcontrol : m.control = .back fiber exit) (hawaits : fiber.AwaitsOn x) :
    ¬m.Holds (.registering x plan) := by
  rintro ⟨frames, hstacked, member⟩
  have hposts := h.posts_le x
  have hpost := hawaits.posts
  have hframe := Frame.assets_le_of_mem member (postOf x)
  simp only [Frame.assets, weigh_cons, postOf, if_true] at hframe
  rw [assets, weigh_append, weigh_append, hcontrol, Control.assets, weigh_append] at hposts
  cases hstacked with
  | top => omega
  | @back other exit' hback =>
    rw [hcontrol] at hback
    cases hback
    -- The await on the handle stands on top of the stack, so the other one is below it.
    obtain ⟨plan', rest, hframes⟩ := hawaits
    rw [hframes] at member
    have hrest :=
      Frame.assets_le_of_mem ((List.mem_cons.1 member).resolve_left (by simp)) (postOf x)
    have hle := fiber.framesAssets_le (postOf x)
    rw [hframes, framesAssets_cons, weigh_append] at hle
    simp only [Frame.assets, weigh_cons, postOf, if_true] at hrest hle
    omega
  | @kept other hkeeps =>
    have hle := other.framesAssets_le (postOf x)
    have hworth := hkeeps.le_worth (postOf x)
    omega

theorem Sound.not_awaits_of_top (h : m.Sound byHand) (htop : m.top = .awaiting x plan :: frames)
    (hkeeps : m.world.KeepsFiber fiber) : ¬fiber.AwaitsOn x := by
  intro hawaits
  have hposts := h.posts_le x
  have hpost := hawaits.posts
  have hworth := hkeeps.le_worth (postOf x)
  rw [assets, weigh_append, weigh_append, htop, framesAssets_cons, weigh_append] at hposts
  simp only [Frame.assets, weigh_cons, postOf, if_true] at hposts
  omega

/-- A register function that runs is not for a handle that a suspended fiber awaits. -/
theorem Sound.not_registering_of_kept (h : m.Sound byHand) (hkeeps : m.world.KeepsFiber fiber)
    (hawaits : fiber.AwaitsOn x) : m.top ≠ .registering x plan :: frames := by
  intro htop
  have hposts := h.posts_le x
  have hpost := hawaits.posts
  have hworth := hkeeps.le_worth (postOf x)
  rw [assets, weigh_append, weigh_append, htop, framesAssets_cons, weigh_append] at hposts
  simp only [Frame.assets, weigh_cons, postOf, if_true] at hposts
  omega

/-! ### The invariant -/

/-- Every await that suspends is on its own handle, and what it is resumed with is
what was accepted for the handle. -/
structure Heedful (m : Machine) : Prop where
  tended : m.world.Tended
  unused : ¬m.world.Misused
  resumed : ∀ resumption, m.control = .resumed resumption →
    ∃ x plan frames, m.top = .awaiting x plan :: frames ∧ m.world.IsSpent x ∧
      m.world.Owes x resumption
  back : ∀ fiber x, m.control = .back fiber (.suspended x) → fiber.AwaitsOn x ∧ m.world.IsOpen x

/-- Besides, no fiber parks in a handle before its register function ends. -/
structure Faithful (m : Machine) : Prop extends Heedful m where
  registers : ∀ x plan, m.Holds (.registering x plan) → m.world.IsOpen x

/-- The machine stays on its level. -/
theorem heedful_goTo (htended : w.Tended) (hunused : ¬w.Misused) (hcontrol : control.IsPlain) :
    (m.goTo frames w control).Heedful where
  tended := htended
  unused := hunused
  resumed resumption heq := by
    rw [goTo_control] at heq
    rw [heq] at hcontrol
    exact hcontrol.elim
  back fiber x heq := by
    rw [goTo_control] at heq
    rw [heq] at hcontrol
    exact hcontrol.elim

theorem Heedful.noArrivals (h : m.Heedful) (hnoArrivals : m.world.NoArrivals w)
    (hcontrol : control.IsPlain) : (m.goTo frames w control).Heedful :=
  heedful_goTo (hnoArrivals.tended h.tended) (mt hnoArrivals.misused.1 h.unused) hcontrol

/-- The innermost fiber suspends on the handle of its await. -/
theorem heedful_suspendAwait (hrunning : m.running = running :: below) (htended : w.Tended)
    (hunused : ¬w.Misused) (hopen : w.IsOpen x) :
    ((m.goTo frames w control).suspendAwait x plan).Heedful := by
  rw [suspendAwait_eq hrunning]
  refine ⟨htended.congr ⟨fun _ => rfl, fun _ _ _ => id, fun _ => rfl, fun _ => rfl⟩,
    hunused, ?_, ?_⟩
  · rintro r heq
    cases heq
  · rintro fiber y heq
    cases heq
    exact ⟨⟨plan, frames, rfl⟩, hopen⟩

/-- A fiber is entered with what is owed to it. -/
theorem heedful_enter (htended : m.world.Tended) (hunused : ¬m.world.Misused)
    (hawaits : fiber.AwaitsOn x) (hspent : m.world.IsSpent x) (howes : m.world.Owes x resumption) :
    (m.enter fiber resumption).Heedful := by
  obtain ⟨plan, rest, first, hstate⟩ := hawaits.state_eq
  rw [enter_suspended hstate]
  refine ⟨htended.congr ⟨fun _ => rfl, fun _ _ _ => id, fun _ => rfl, fun _ => rfl⟩,
    hunused, ?_, ?_⟩
  · rintro r heq
    cases heq
    exact ⟨x, plan, rest, rfl, hspent, howes.accepted, howes.awaited⟩
  · rintro other y heq
    cases heq

/-- A task begins. -/
theorem heedful_begin {body : List Action} (htended : m.world.Tended) (hunused : ¬m.world.Misused)
    (hstate : fiber.state = .unstarted body) : (m.enter fiber .unit).Heedful := by
  rw [enter_unstarted hstate]
  refine ⟨htended.congr ⟨fun _ => rfl, fun _ _ _ => id, fun _ => rfl, fun _ => rfl⟩,
    hunused, ?_, ?_⟩
  · rintro r heq
    cases heq
  · rintro other y heq
    cases heq

/-! ### Steps -/

section Slots

variable {cell : HandleCell} {slot : Slot Fiber Owner Resumption} {u : World} {told : Mark}

theorem not_misused_of_slot (hworn : ((w.setSlot x slot).mark told).NoArrivals u)
    (hunused : ¬w.Misused) : ¬u.Misused := by
  refine mt hworn.misused.1 ?_
  rintro ⟨id, member⟩
  exact hunused ⟨id, by simpa [World.mark, World.setSlot] using member⟩

/-- A handle is delivered to. -/
theorem Delivers.heedful (htended : m.world.Tended) (hunused : ¬m.world.Misused)
    (hcell : m.world.handles.get? x = some cell) (hdelivers : Delivers m s x cell resumption m') :
    m'.Heedful := by
  have hworn : ∀ slot (event : Event), event.IsQuiet →
      ((m.world.setSlot x slot).mark (.accepted x resumption)).NoArrivals
        ((((m.world.setSlot x slot).mark (.accepted x resumption)).release [.handle x]).tell
          event) :=
    fun slot event hquiet => (World.noArrivals_release _ _).trans (.tell _ hquiet.1)
  cases hdelivers with
  | stored event hslot hquiet =>
    have hu := hworn (.woken resumption) event hquiet
    exact heedful_goTo (hu.tended (htended.store hcell hslot resumption).1)
      (not_misused_of_slot hu hunused) trivial
  | refused fault event hslot hother hquiet =>
    have hu := (World.noArrivals_release m.world (resumption.debris ++ [.handle x])).trans
      (.tell _ hquiet.1)
    exact heedful_goTo (hu.tended htended) (mt hu.misused.1 hunused) trivial
  | queued fiber event hslot hcurrent hquiet =>
    have hu := hworn .spent event hquiet
    obtain ⟨hmet, hspent, howes⟩ := htended.wake hcell hslot resumption
    exact heedful_goTo
      ((hu.tended hmet).append (htended.parked hcell hslot).2 (hu.isSpent hspent) (hu.owes howes) s)
      (World.not_misused_append (not_misused_of_slot hu hunused)) trivial
  | dispatched fiber event hslot hcurrent hquiet =>
    have hu := hworn .spent event hquiet
    obtain ⟨hmet, hspent, howes⟩ := htended.wake hcell hslot resumption
    refine heedful_enter
      ((hu.tended hmet).congr ⟨fun _ => rfl, fun _ _ _ => id, fun y => ?_, fun y => ?_⟩)
      (World.not_misused_mark (not_misused_of_slot hu hunused)) (htended.parked hcell hslot).2
      (hu.isSpent hspent) ((hu.owes howes).mark_dispatched s _)
    · exact (World.accepted_mark ..).trans (List.append_nil _)
    · exact (World.awaited_mark ..).trans (List.append_nil _)

end Slots

/-- A scheduler receives a fiber that comes back to it. -/
theorem Heedful.receives {exit : Exit} (h : m.Heedful) (hm : m.Sound byHand)
    (hcontrol : m.control = .back fiber exit) (hreceives : m.world.Receives s fiber exit w) :
    (m.goTo frames w .advance).Heedful := by
  cases hreceives with
  | ended hexit hreckons =>
    exact h.noArrivals (hreckons.noArrivals (hm.kept_of_back hcontrol)) trivial
  | @parked x cell w₁ w₂ hcell hbefore hsame hparks =>
    obtain ⟨hawaits, -⟩ := h.back fiber x hcontrol
    cases hparks with
    | absorbed hslot u hu =>
      have hlaid : m.world.NoArrivals u := by
        rcases hu with rfl | rfl
        · exact hbefore.noArrivals hm.kept
        · exact (hbefore.noArrivals hm.kept).trans (.tell _ (Event.isQuiet_unheld _).1)
      have hhandles : u.handles = m.world.handles := by rcases hu with rfl | rfl <;> exact hsame
      have hworn :=
        World.noArrivals_release (u.setSlot x (.parked fiber (.scheduler s))) [.handle x]
      exact heedful_goTo
        (hworn.tended ((hlaid.tended h.tended).park (hhandles.symm ▸ hcell) hslot hawaits _))
        (mt hworn.misused.1 (mt hlaid.misused.1 h.unused)) trivial
  | @handedBack x cell resumption w₁ w₂ hcell hbefore hsame hparks =>
    obtain ⟨hawaits, old, hold, hopen⟩ := h.back fiber x hcontrol
    rw [hcell] at hold
    cases hold
    cases hparks with
    | refused hslot => rcases hslot with hslot | ⟨other, holder, hslot⟩ <;> simp [hslot] at hopen
    | met resumption hslot =>
      have hnoArrivals := hbefore.noArrivals hm.kept
      have hworn := World.noArrivals_release (w₁.setSlot x .spent) [.handle x]
      obtain ⟨htended, hspent, howes⟩ :=
        (hnoArrivals.tended h.tended).meet (hsame.symm ▸ hcell) hslot
      exact heedful_goTo
        ((hworn.tended htended).append hawaits (hworn.isSpent hspent) (hworn.owes howes) s)
        (World.not_misused_append (mt hworn.misused.1 (mt hnoArrivals.misused.1 h.unused))) trivial

/-- A run loop takes its next turn. -/
theorem Heedful.drains {ran : Nat} {max : Option Nat} (h : m.Heedful) (hm : m.Sound byHand)
    (htop : m.top = .draining s ran max :: frames)
    (hdrains : Drains (m.goTo frames m.world .advance) s ran max m') : m'.Heedful := by
  have hheld := hm.kept_of_top htop
  cases hdrains with
  | stops hstops => exact heedful_goTo h.tended h.unused (by trivial)
  | @fails id body w w₁ w₂ hmore hnext hbefore hafter =>
    have hbegun := ((hheld.next hnext).drift_gain hbefore).noArrivals
    have hunstarted := World.Sound.unstarted ((hheld.next hnext).gain hbefore)
    have hmarked : w₁.NoArrivals (w₁.mark (.unstarted s id)) := .mark w₁ trivial
    have hnoArrivals := (hbegun.trans hmarked).trans (hafter.noArrivals hunstarted)
    exact heedful_goTo (hnoArrivals.tended (h.tended.next hnext))
      (mt hnoArrivals.misused.1 (World.not_misused_next h.unused hnext)) trivial
  | @starts id body fiber w w₁ hmore hnext hbefore hid hhome hstate =>
    have hnoArrivals := ((hheld.next hnext).drift_gain hbefore).noArrivals
    exact heedful_begin (hnoArrivals.tended (h.tended.next hnext))
      (mt hnoArrivals.misused.1 (World.not_misused_next h.unused hnext)) hstate
  | @wakes fiber resumption w hmore hnext =>
    obtain ⟨queue, hqueue, -⟩ := World.next?_eq hnext
    obtain ⟨x, hawaits, ⟨cell, hcell, hslot⟩, howes⟩ :=
      h.tended.queued (hqueue ▸ List.mem_cons_self ..)
    exact heedful_enter (h.tended.next hnext) (World.not_misused_next h.unused hnext) hawaits
      ⟨cell, (World.handles_next hnext) ▸ hcell, hslot⟩ (howes.next hnext)

theorem Heedful.leave {exit : Exit} (h : m.Heedful) (hcontrol : exit? m.control = some exit) :
    (m.leave running below exit).Heedful := by
  have hnoArrivals : (m.world.restore running.current running.outer).NoArrivals
      (m.leave running below exit).world :=
    (World.noArrivals_release _ _).trans (.mark _ trivial)
  refine ⟨hnoArrivals.tended (h.tended.congr ?_), mt hnoArrivals.misused.1 ?_, ?_, ?_⟩
  · exact ⟨fun _ => rfl, fun _ _ _ => id, fun _ => rfl, fun _ => rfl⟩
  · exact h.unused
  · rintro r heq
    cases heq
  · rintro fiber y heq
    cases heq
    cases hm : m.control <;> simp [hm, exit?] at hcontrol

/-- Every step of a program that uses schedulers, handles and drivers alone. -/
theorem Faithful.heedful (h : m.Faithful) (hm : m.Sound False) (hm' : m'.Sound False)
    (hturns : Turns Action.IsPublic m m') : m'.Heedful := by
  cases hturns with
  | noArrivals hframes hcontrol hnoArrivals =>
    exact h.toHeedful.noArrivals hnoArrivals.toNoArrivals hcontrol
  | @enqueues position s scheduler body frames hallowed hposition hs shown hframes =>
    have hshown := World.NoArrivals.emit (m.world.enqueue s body).2 "enqueue" shown
    exact heedful_goTo (hshown.tended (h.tended.enqueue hs _))
      (mt hshown.misused.1 (World.not_misused_enqueue hs h.unused)) trivial
  | registers register hplan hopens hframes =>
    exact heedful_goTo (h.tended.opens hopens) (World.not_misused_opens h.unused hopens) trivial
  | strands panic hcaller hnone hopens hframes =>
    exact heedful_goTo (h.tended.opens hopens) (World.not_misused_opens h.unused hopens) trivial
  | @issues d x plan w frames huses hdriver hplan hlisted hcurrent hopens hframes =>
    obtain ⟨running, below, hrunning⟩ := hm.inside hcurrent
    refine heedful_suspendAwait hrunning (h.tended.opens hopens)
      (World.not_misused_opens h.unused hopens) (hopens.isOpen (.inl rfl) ?_)
    rw [suspendAwait_eq hrunning] at hm'
    exact hm'.clones_of_suspended rfl
  | @registered x plan frames w htop hcontrol hnoArrivals =>
    obtain ⟨running, below, hrunning⟩ := hm.inside_of_registering htop hcontrol
    have hopen := h.registers x plan ⟨_, .top, htop ▸ List.mem_cons_self ..⟩
    refine heedful_suspendAwait hrunning (hnoArrivals.tended h.tended)
      (mt hnoArrivals.misused.1 h.unused) (hnoArrivals.isOpen hopen ?_)
    rw [suspendAwait_eq hrunning] at hm'
    exact hm'.clones_of_suspended rfl
  | delivers hframes hnoArrivals hcell hs hfrom hdelivers =>
    exact hdelivers.heedful (hnoArrivals.tended h.tended) (mt hnoArrivals.misused.1 h.unused) hcell
  | @concludes x plan frames resumption w control htop hresumed hcontrol hnoArrivals =>
    obtain ⟨y, plan', rest, htop', hspent, howes⟩ := h.resumed resumption hresumed
    rw [htop] at htop'
    cases htop'
    have htended := h.tended.awaited hspent howes fun s fiber r member =>
      hm.not_awaits_of_top htop (.queued member)
    exact heedful_goTo (hnoArrivals.tended htended)
      (mt hnoArrivals.misused.1 (World.not_misused_mark h.unused)) hcontrol.isPlain
  | receives htop hcontrol hs hreceives => exact h.toHeedful.receives hm hcontrol hreceives
  | drains htop hcontrol hdrains => exact h.toHeedful.drains hm htop hdrains
  | leaves hrunning htop hcontrol => exact h.toHeedful.leave hcontrol
  | hand hallowed hhand => exact absurd hallowed hhand

theorem Faithful.turns (h : m.Faithful) (hm : m.Sound False) (hm' : m'.Sound False)
    (hturns : Turns Action.IsPublic m m') : m'.Faithful where
  toHeedful := h.heedful hm hm' hturns
  registers x plan hheld := by
    have hclones := hm'.clones_of_registering hheld
    rcases hturns.holds hm hm' (by trivial) hheld with
      hbefore | ⟨y, plan', w, hopens, hhandles, -, ⟨heq, -⟩ | ⟨heq, -⟩⟩ | ⟨y, plan', heq, -⟩
    · exact hturns.isOpen hm (h.registers x plan hbefore)
        (fun fiber hback => hm.not_registering_of_back hback (h.back fiber x hback).1 hbefore)
        hclones
    · cases heq
      rw [← hhandles] at hclones
      exact World.isOpen_of_same hhandles.symm (hopens.isOpen (.inl rfl) hclones)
    · cases heq
    · cases heq

end Machine

end Fibers
