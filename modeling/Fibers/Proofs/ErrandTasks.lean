import Fibers.Proofs.Courses

/-!
No task is lost while a driver runs whose tasks are errands. Each of them waits for its turn
in the queue, or control is in it, or it waits for something that the driver has in its
hands; or it has finished.
-/

namespace Fibers

open Mark (finishes)

theorem World.Remembers.tally_le {a b : World} (h : a.Remembers b) (f : Mark → Nat) :
    a.tally f ≤ b.tally f := by
  obtain ⟨news, hnews⟩ := h
  rw [tally, tally, ← hnews, weigh_append]
  exact Nat.le_add_right ..

theorem World.ParkedIn.unique {w : World} {x : HandleRef} {a b : Fiber} (ha : w.ParkedIn x a)
    (hb : w.ParkedIn x b) : a = b := by
  obtain ⟨cell, owner, hcell, hslot⟩ := ha
  obtain ⟨other, holder, hother, hslot'⟩ := hb
  rw [hcell] at hother
  cases hother
  rw [hslot] at hslot'
  cases hslot'
  rfl

namespace Machine

variable {m m' : Machine} {p : Permit} {d : DriverId} {s : SchedulerId} {rest : List Frame}
  {x : HandleRef} {id : FiberId} {fiber : Fiber}

/-- The task stands somewhere, and is sure to go on from there. -/
inductive Stands (m : Machine) (d : DriverId) (s : SchedulerId) (id : FiberId) : Prop
  | finished (h : 0 < m.world.tally (finishes s id))
  | fresh {body : List Action} (member : .fresh id body ∈ m.world.queue s)
  | woken {fiber : Fiber} {resumption : Resumption}
      (member : .woken fiber resumption ∈ m.world.queue s) (hhome : fiber.home = some s)
      (hid : fiber.id = id)
  | inside {running : Running} (hrunning : m.running = [running]) (hhome : running.home = some s)
      (hid : running.id = id)
  | back {fiber : Fiber} {x : HandleRef} (hcontrol : m.control = .back fiber (.suspended x))
      (hhome : fiber.home = some s) (hid : fiber.id = id)
  | parked {x : HandleRef} {fiber : Fiber} (hparked : m.world.ParkedIn x fiber)
      (hhome : fiber.home = some s) (hid : fiber.id = id) (hx : m.InHand d x)

/-! ### What the driver has in its hands -/

theorem RunsErrands.owners_pos (h : m.RunsErrands p d s rest) : 0 < m.world.owners s := by
  obtain ⟨scheduler, hs, halive⟩ := h.ordinary.sound.kept.balanced.fedBy_alive h.fed
  rw [World.owners, hs]
  exact halive

/-- Whoever waits for something that the driver has in its hands is parked by the scheduler. -/
theorem RunsErrands.parksFor (h : m.RunsErrands p d s rest) (hx : m.InHand d x)
    (hadvance : m.control = .advance) : ∃ fiber, m.ParksFor x fiber s := by
  obtain ⟨fiber, t, hparks, ht⟩ := h.attends.parksFor (h.ordinary.hosted.held hx) hadvance
  obtain rfl : s = t := Option.some.inj (h.fed.symm.trans ht)
  exact ⟨fiber, hparks⟩

/-- The driver keeps what it has in its hands until it resumes the fiber that waits for it. -/
theorem RunsErrands.inHand_step (h : m.RunsErrands p d s rest) (hstep : m.step? = some m')
    (hgoes : ¬m.RunsOut d m') (hx : m.InHand d x) : m'.InHand d x ∨
    ∃ outcome stack w, m.Hands d x outcome s stack w m' := by
  have hm := h.ordinary.sound
  have hmoves : Moves (fun _ => True) m m' := step_moves hstep hm fun _ _ => trivial
  cases hx with
  | @call claims key hclaims hclaim =>
    have hcalls := (h.errandStep hstep).claims_step (isSome_driver? ⟨s, h.fed⟩) hgoes
    rw [hclaims] at hcalls
    rcases hcalls with
      heq | ⟨other, y, plan, w, -, heq⟩ | ⟨other, y, outcome, stack, w, others, hhands, hothers,
      hother, heq⟩ | ⟨other, fiber, turns, hroot, heq⟩
    · exact .inl (.call heq hclaim)
    · exact .inl (.call heq (List.mem_append_left _ hclaim))
    · cases hothers
      by_cases hkey : key = other
      · subst hkey
        have hsame := hm.claim_eq hclaims hclaim hother
        cases hsame
        exact .inr ⟨outcome, stack, w, hhands⟩
      · exact .inl (.call heq (List.mem_map.2 ⟨_, hclaim, if_neg hkey⟩))
    · refine .inl (.call heq (List.mem_filter.2 ⟨hclaim, decide_eq_true fun hkey => ?_⟩))
      subst hkey
      have hhanding : (key, d) ∈ m.handing := by
        rw [handing, hroot]
        exact List.mem_cons_self ..
      rw [← h.ordinary.tallied.handing, hclaims] at hhanding
      have hsame := hm.claim_eq hclaims hclaim (World.mem_of_filterMap_passed hhanding)
      cases hsame
  | lined member =>
    rcases (hm.works hmoves).line d with
      heq | ⟨y, plan, w, -, -, -, heq⟩ | ⟨y, waiters, ⟨hcontrol, frames, htop⟩, heq⟩
    · exact .inl (.lined (heq ▸ member))
    · exact .inl (.lined (heq ▸ List.mem_append_left _ member))
    · rw [heq] at member
      rcases List.mem_cons.1 member with rfl | hrest
      · obtain ⟨t, stack, loop, w, hhands, -⟩ := GivesAway.hands (.waiter htop hstep) hm
        obtain rfl : s = t := Option.some.inj (h.fed.symm.trans hhands.fed)
        exact .inr ⟨.unit, stack, w, hhands⟩
      · exact .inl (.lined hrest)

/-! ### One step -/

/-- An entry stays in the queue, or has its turn. -/
theorem RunsErrands.entry_step {entry : Runnable} (h : m.RunsErrands p d s rest)
    (h' : m'.RunsErrands p d s rest) (hstep : m.step? = some m')
    (member : entry ∈ m.world.queue s) : entry ∈ m'.world.queue s ∨
    ∃ frames, Starts s frames m m' entry := by
  have hpos := h'.owners_pos
  cases h.ordinary.sound.serves hstep s with
  | passes hpasses => exact .inl ((hpasses.alive hpos).2 ▸ member)
  | appends hway hbefore hgains howners hafter =>
    have hqueue := (gains_of_alive hbefore hgains howners hafter hpos).queue
    exact .inl (hqueue ▸ List.mem_append_left _ member)
  | takes htakes =>
    have hqueue := (htakes.gives_of_alive hpos).queue
    rw [hqueue] at member
    rcases List.mem_cons.1 member with rfl | hrest
    · exact .inr ⟨_, htakes.starts⟩
    · exact .inl hrest
  | @jumps x cell fiber resumption u frames hrunning hcell hslot hbefore hafter =>
    obtain ⟨hu, hqueue⟩ := hafter.alive hpos
    have hqueue' := (hbefore.alive hu).2
    exact .inl (by rw [hqueue]; exact hqueue' ▸ member)

/-- A task that control is in goes on, is suspended, or is over. -/
theorem ErrandMove.stands {running : Running} (h : m.ErrandMove p d m')
    (hrunning : m.running = [running]) (hhome : running.home = some s) (hid : running.id = id) :
    m'.Stands d s id := by
  cases h with
  | goesOn | enqueues | concludes => exact .inside (goTo_running hrunning ..).1 hhome hid
  | calls =>
    rw [suspendAwait_eq hrunning]
    exact .back rfl hhome hid
  | leaves hinner =>
    rw [hrunning] at hinner
    cases hinner
    refine .finished ?_
    have hended : ∀ exit, finishes s id (.ended (running.leave .finished) exit) = 1 :=
      fun _ => if_pos ⟨hhome, hid⟩
    rw [leave, World.tally_mark, hended]
    exact Nat.succ_pos _

/-- A fiber that is suspended comes to be parked. -/
theorem RunsErrands.stands_of_back (h : m.RunsErrands p d s rest) (hstep : m.step? = some m')
    (hgoes : ¬m.RunsOut d m') (hcontrol : m.control = .back fiber (.suspended x))
    (hhome : fiber.home = some s) (hid : fiber.id = id) :
    m'.Stands d s id := by
  have hm := h.ordinary.sound
  have h' := h.step hstep hgoes
  obtain ⟨base, ran, -, hrunning, hroot, -, hback⟩ := h.stage_of_back hcontrol
  obtain ⟨-, hx⟩ := hback x rfl
  rcases h.inHand_step hstep hgoes hx with hx' | ⟨outcome, stack, w, hhands⟩
  · have htop : m.top = .dispatching s :: .draining s ran none :: base := by
      rw [top, hrunning]; exact hroot
    rw [h.ordinary.sound.step?_of_top htop] at hstep
    simp only [react?, goTo_control, hcontrol, goTo_world, goTo_withWorld, goTo_advance,
      Option.some.injEq] at hstep
    subst hstep
    cases h'.attends.expects (h'.ordinary.hosted.held hx') with
    | comes _ _ hcontrol' => cases hcontrol'
    | @parked cell t other hcell hslot =>
      have hparked : World.ParkedIn (m.world.receive s fiber (.suspended x)) x other :=
        ⟨cell, _, hcell, hslot⟩
      rcases parkedIn_of_receives hm hcontrol (hm.receives htop hcontrol).2 hparked with
        ⟨old, owner, hold, hslot'⟩ | ⟨-, -, rfl⟩
      · cases h.attends.expects (h.ordinary.hosted.held hx) with
        | parked _ _ _ _ _ hnot => exact absurd hcontrol (hnot fiber)
        | comes hpending hslot'' =>
          rw [hold] at hpending
          cases hpending
          rw [hslot'] at hslot''
          cases hslot''
      · exact .parked hparked hhome hid hx'
  · rw [hhands.advances] at hcontrol
    cases hcontrol

/-- A task stands as long as the run goes on. -/
theorem Stands.step (h : m.RunsErrands p d s rest) (hstep : m.step? = some m')
    (hgoes : ¬m.RunsOut d m') (hstands : m.Stands d s id) : m'.Stands d s id := by
  have hm := h.ordinary.sound
  have h' := h.step hstep hgoes
  have hm' := h'.ordinary.sound
  cases hstands with
  | finished hfinished =>
    exact .finished
      (Nat.lt_of_lt_of_le hfinished (((Follows.steps hstep).leads.remembers hm).tally_le _))
  | fresh member =>
    rcases h.entry_step h' hstep member with hstays | ⟨frames, hstarts⟩
    · exact .fresh hstays
    · cases hstarts with
      | unstarted _ _ _ hfailed => exact .finished (by omega)
      | started hrunning _ hhome hid => exact .inside hrunning hhome hid
  | woken member hhome hid =>
    rcases h.entry_step h' hstep member with hstays | ⟨frames, hstarts⟩
    · exact .woken hstays hhome hid
    · cases hstarts with
      | resumed hrunning hroot hfiber =>
        subst hfiber
        exact .inside hrunning hhome hid
  | inside hrunning hhome hid =>
    cases h.errandStep hstep with
    | errandMove hbase hinside hroot herrandMove => exact herrandMove.stands hrunning hhome hid
    | asks hidle | goesOn hidle | hears hidle | settles hidle | ends _ hidle | completed hidle
    | drains _ hidle
      | receives _ hidle =>
      rw [hrunning] at hidle
      cases hidle
    | resumes _ hhands | completes _ hhands =>
      have hidle := hhands.outside
      rw [hrunning] at hidle
      cases hidle
  | back hcontrol hhome hid => exact h.stands_of_back hstep hgoes hcontrol hhome hid
  | @parked x fiber hparked hhome hid hx =>
    have hheld := h.ordinary.hosted.held hx
    rcases h.inHand_step hstep hgoes hx with hx' | ⟨outcome, stack, w, hhands⟩
    · obtain ⟨cell, owner, hcell, hslot⟩ := hparked
      have hmoves : Moves (fun _ => True) m m' := step_moves hstep hm fun _ _ => trivial
      have hsame := h.attends.accepted hm h.ordinary.hosted h.ordinary.distinct (hm.turns hmoves)
        (hm.works hmoves) hheld hx'
      have howner : ∃ t, owner = .scheduler t := by
        cases h.attends.expects hheld with
        | parked hcell' hslot' =>
          rw [hcell] at hcell'
          cases hcell'
          rw [hslot] at hslot'
          cases hslot'
          exact ⟨_, rfl⟩
        | comes hcell' hslot' =>
          rw [hcell] at hcell'
          cases hcell'
          rw [hslot] at hslot'
          cases hslot'
      obtain ⟨t, rfl⟩ := howner
      obtain ⟨after, hafter, hslot'⟩ :=
        hm.stays hm' (hm.fates h.ordinary.attended (.steps hstep)) hx' hcell hslot hsame
      exact .parked ⟨after, _, hafter, hslot'⟩ hhome hid hx'
    · obtain ⟨other, hparks⟩ := h.parksFor hx hhands.advances
      obtain ⟨cell, hcell, hslot⟩ := hparks.parked
      obtain rfl := hparked.unique ⟨cell, _, hcell, hslot⟩
      obtain ⟨running, hrunning, -, -, rfl⟩ := hhands.inside hm hstep hparks
      exact .inside hrunning hhome hid

end Machine

end Fibers
