import Fibers.Proofs.HostWork
import Fibers.Proofs.Holdings

/-!
Turns of the run loop, deliveries and returns of fibers, case by case. Each case
says which entry or fiber is concerned, what becomes of the queue and the slot,
and what was written down in between.
-/

namespace Fibers

/-- What a scheduler counts when a fiber comes back to it. -/
def Exit.count : Exit → Counters → Counters
  | .suspended _, counters => { counters with suspensions := counters.suspensions + 1 }
  | .completed, counters => { counters with completed := counters.completed + 1 }
  | .failed _, counters => { counters with failed := counters.failed + 1 }
  | .panicked _, counters => { counters with panicked := counters.panicked + 1 }

/-- A task that gets no stack has failed. -/
def Counters.fail (counters : Counters) : Counters :=
  { counters with failed := counters.failed + 1 }

namespace World

/-- A scheduler counts something. -/
def count (w : World) (s : SchedulerId) (g : Counters → Counters) : World :=
  w.updateScheduler s fun scheduler => { scheduler with counters := g scheduler.counters }

/-- A scheduler counts something, what it is given is dealt with, and whatever else happens
goes unnoticed. -/
def Reckons (w : World) (s : SchedulerId) (g : Counters → Counters) (given : List Asset)
    (w' : World) : Prop :=
  (w.count s g).Shift given w' []

section Count

variable {shown : HandleRef → Prop} {w w' : World} {out : List Asset} (s : SchedulerId)
  (g : Counters → Counters)

theorem counted_count (w : World) (t : SchedulerId) :
    (w.count s g).counted t = if s = t then (w.counted t).map g else w.counted t := by
  rw [counted, count, scheduler?_updateScheduler, counted]
  split
  · cases w.scheduler? t <;> rfl
  · rfl

theorem worth_count (w : World) (f : Asset → Nat) : (w.count s g).worth f = w.worth f := by
  cases hs : w.scheduler? s with
  | none =>
    rw [scheduler?, List.getElem?_eq_none_iff] at hs
    rw [count, updateScheduler, List.modify_eq_self hs]
  | some scheduler =>
    exact Nat.add_right_cancel
      (worth_requeue hs
        (fun scheduler => { scheduler with counters := g scheduler.counters }) rfl f)

theorem queue_count (w : World) (t : SchedulerId) : (w.count s g).queue t = w.queue t := by
  rw [count, queue_updateScheduler]
  split
  · rw [queue_eq]
  · rfl

theorem sameOrGone_count (w : World) (t : SchedulerId) :
    Scheduler.SameOrGone (w.scheduler? t) ((w.count s g).scheduler? t) := by
  rw [count, scheduler?_updateScheduler]
  split
  · cases w.scheduler? t with
    | none => exact .none
    | some scheduler => exact .kept rfl rfl id
  · exact .refl _

/-- Counters are not in the books. -/
theorem Sound.count (h : w.Sound shown out) : (w.count s g).Sound shown out where
  balanced := h.balanced.tune s (fun _ => rfl) (fun _ => rfl) (fun _ => rfl) fun _ => rfl
  orderly := ⟨fun t fiber resumption member => h.orderly.queued t fiber resumption
    (w.queue_count s g t ▸ member), h.orderly.parked, h.orderly.named, h.orderly.driven⟩
  hidden x hshown hhosts hshows := h.hidden x hshown hhosts (by rwa [Shows, worth_count] at hshows)

variable {s} {g} {given : List Asset}

theorem Reckons.drift (h : w.Reckons s g given w') (hsound : w.Sound shown (given ++ out)) :
    (w.count s g).Drift w' :=
  (h _ (hsound.count s g).balanced).drift

theorem Reckons.steady (h : w.Reckons s g given w') (hsound : w.Sound shown (given ++ out)) :
    w.Steady w' := by
  have hcounted : w.Steady (w.count s g) := .of_same rfl rfl rfl rfl
  exact hcounted.trans (h.drift hsound).steady

theorem Reckons.isSome_scheduler? (h : w.Reckons s g given w')
    (hsound : w.Sound shown (given ++ out)) (t : SchedulerId) :
    (w'.scheduler? t).isSome = (w.scheduler? t).isSome := by
  rw [(h.drift hsound).isSome_scheduler? t, count, scheduler?_updateScheduler]
  split
  · exact Option.isSome_map ..
  · rfl

theorem Reckons.tally_eq (h : w.Reckons s g given w') (hsound : w.Sound shown (given ++ out))
    {f : Mark → Nat} (hf : ∀ told, told.IsQuiet → f told = 0) : w'.tally f = w.tally f :=
  (h.drift hsound).tally_eq hf

theorem Sound.reckons (hsound : w.Sound shown (given ++ out)) (h : w.Reckons s g given w') :
    w'.Sound shown out :=
  (hsound.count s g).shift h

end Count

end World

namespace Machine

/-- What comes of a delivery to a handle. -/
inductive Delivers (m : Machine) (s : SchedulerId) (x : HandleRef) (cell : HandleCell)
    (resumption : Resumption) : Machine → Prop
  | stored (event : Event) (hslot : cell.slot = .pending) (hquiet : event.IsQuiet) :
      Delivers m s x cell resumption (m.goTo m.top
        ((((m.world.setSlot x (.woken resumption)).mark (.accepted x resumption)).release
          [.handle x]).tell event) (.answer (.ok 0)))
  | queued (fiber : Fiber) (event : Event) (hslot : cell.slot = .parked fiber (.scheduler s))
      (hcurrent : m.world.current.isSome) (hquiet : event.IsQuiet) :
      Delivers m s x cell resumption (m.goTo m.top
        (((((m.world.setSlot x .spent).mark (.accepted x resumption)).release
          [.handle x]).tell event).append s (.woken fiber resumption)) (.answer (.ok 0)))
  | dispatched (fiber : Fiber) (event : Event) (hslot : cell.slot = .parked fiber (.scheduler s))
      (hcurrent : m.world.current = none) (hquiet : event.IsQuiet) :
      Delivers m s x cell resumption
        ((m.goTo (.dispatching s :: .draining s 0 none :: m.top)
          (((((m.world.setSlot x .spent).mark (.accepted x resumption)).release
            [.handle x]).tell event).mark (.dispatched s (.woken fiber resumption)))
          m.control).enter fiber resumption)
  | refused (fault : SchedulerFault) (event : Event) (hslot : cell.slot ≠ .pending)
      (hother : ∀ fiber, cell.slot ≠ .parked fiber (.scheduler s)) (hquiet : event.IsQuiet) :
      Delivers m s x cell resumption (m.goTo m.top
        ((m.world.release (resumption.debris ++ [.handle x])).tell event) (.answer (.error fault)))

theorem delivers (m : Machine) (s : SchedulerId) {x : HandleRef} {cell : HandleCell}
    (hcell : m.world.handles.get? x = some cell) (resumption : Resumption) :
    m.Delivers s x cell resumption (m.deliver s x resumption) := by
  have hwakes := World.wakes hcell (.scheduler s) resumption
  have hsteady := hwakes.steady.current
  rw [deliver]
  simp only
  generalize m.world.wake x (.scheduler s) resumption = result at hwakes hsteady
  cases hwakes with
  | stored hslot =>
    simp only [withWorld_eq, goTo_withControl]
    exact .stored _ hslot (Event.isQuiet_resumedEarly _)
  | refused fault hslot hother =>
    simp only [withWorld_eq, goTo_withControl]
    exact .refused fault _ hslot hother (Event.isQuiet_rejected _ _)
  | met fiber hslot =>
    simp only at hsteady ⊢
    split
    next hcurrent =>
      rw [withWorld_eq, goTo_withControl]
      exact .queued fiber _ hslot (hsteady ▸ hcurrent) (Event.isQuiet_queuedInside _)
    next hcurrent =>
      rw [withWorld_eq, goTo_push, dispatch, goTo_push]
      refine .dispatched fiber _ hslot ?_ (Event.isQuiet_resuming _)
      rwa [hsteady, Option.not_isSome_iff_eq_none] at hcurrent

/-- What one turn of the run loop does. -/
inductive Drains (m : Machine) (s : SchedulerId) (ran : Nat) (max : Option Nat) : Machine → Prop
  | stops (h : max.any (· ≤ ran) = true ∨ m.world.queue s = []) :
      Drains m s ran max (m.goTo m.top m.world (.answer (.ok ran)))
  | fails {id : FiberId} {body : List Action} {w w₁ w₂ : World}
      (hmore : max.any (· ≤ ran) = false) (hnext : m.world.next? s = some (.fresh id body, w))
      (hbefore : w.Shift [] w₁ [])
      (hafter : (w₁.mark (.unstarted s id)).Reckons s Counters.fail [] w₂) :
      Drains m s ran max (m.goTo (.draining s (ran + 1) max :: m.top) w₂ .advance)
  | starts {id : FiberId} {body : List Action} {fiber : Fiber} {w w₁ : World}
      (hmore : max.any (· ≤ ran) = false) (hnext : m.world.next? s = some (.fresh id body, w))
      (hbefore : w.Shift [] w₁ fiber.assets) (hid : fiber.id = id) (hhome : fiber.home = some s)
      (hstate : fiber.state = .unstarted body) :
      Drains m s ran max ((m.goTo (.dispatching s :: .draining s (ran + 1) max :: m.top) w₁
        m.control).enter fiber .unit)
  | wakes {fiber : Fiber} {resumption : Resumption} {w : World} (hmore : max.any (· ≤ ran) = false)
      (hnext : m.world.next? s = some (.woken fiber resumption, w)) :
      Drains m s ran max ((m.goTo (.dispatching s :: .draining s (ran + 1) max :: m.top) w
        m.control).enter fiber resumption)

theorem drains (m : Machine) (s : SchedulerId) (ran : Nat) (max : Option Nat) :
    m.Drains s ran max (m.drain s ran max) := by
  rw [drain]
  split
  next hbound =>
    rw [withControl_eq]
    exact .stops (.inl hbound)
  next hmore =>
    rw [Bool.not_eq_true] at hmore
    split
    next hnext =>
      rw [withControl_eq]
      refine .stops (.inr ?_)
      rw [World.next?] at hnext
      split at hnext
      next hqueue => exact hqueue
      next => cases hnext
    next entry w hnext =>
      simp only
      rw [withWorld_eq, goTo_push]
      cases entry with
      | woken fiber resumption =>
        simp only [dispatch, goTo_push]
        exact .wakes hmore hnext
      | fresh id body =>
        simp only [start, goTo_world]
        have hsupply := World.shift_supplyStack w s
        generalize w.supplyStack s = supply at hsupply
        obtain ⟨result, w₁⟩ := supply
        cases result with
        | ok stack =>
          simp only [goTo_withWorld, dispatch, goTo_push]
          exact .starts hmore hnext
            (hsupply.trans (World.shift_makeFiber w₁ id (some s) stack body)) rfl rfl rfl
        | error fault =>
          simp only [goTo_withWorld, goTo_advance]
          exact .fails hmore hnext hsupply
            (World.shift_tell ((w₁.mark (.unstarted s id)).count s Counters.fail)
            (Event.isQuiet_noStack id (SchedulerFault.stack fault).message) [])

end Machine

namespace World

/-- What a scheduler does with a fiber that comes back to it. -/
inductive Receives (w : World) (s : SchedulerId) (fiber : Fiber) : Exit → World → Prop
  | parked {x : HandleRef} {cell : HandleCell} {w₁ w₂ : World}
      (hcell : w.handles.get? x = some cell) (hbefore : w.Reckons s (Exit.suspended x).count [] w₁)
      (hsame : w₁.handles = w.handles) (hparks : w₁.Parks x cell fiber (.scheduler s) (none, w₂)) :
      Receives w s fiber (.suspended x) w₂
  | handedBack {x : HandleRef} {cell : HandleCell} {resumption : Resumption} {w₁ w₂ : World}
      (hcell : w.handles.get? x = some cell)
      (hbefore : w.Reckons s (Exit.suspended x).count [] w₁) (hsame : w₁.handles = w.handles)
      (hparks : w₁.Parks x cell fiber (.scheduler s) (some (fiber, resumption), w₂)) :
      Receives w s fiber (.suspended x) (w₂.append s (.woken fiber resumption))
  | ended {exit : Exit} {w' : World} (hexit : ∀ x, exit ≠ .suspended x)
      (h : w.Reckons s exit.count fiber.assets w') : Receives w s fiber exit w'

/-- Of a fiber that is not suspended the stack alone is left. -/
theorem shift_strip (w : World) {fiber : Fiber} (h : ¬fiber.isSuspended = true) :
    w.Shift fiber.assets w [.holds fiber.stack fiber.home] := by
  have hrest : w.Shift (fiber.state.assets fiber.serial fiber.id fiber.home) w [] := by
    refine w.shift_drop fun f hf => ?_
    cases hstate : fiber.state with
    | unstarted => simp [FiberState.assets, hf.unstarted]
    | suspended => simp [Fiber.isSuspended, Fiber.isStarted, Fiber.isFinished, hstate] at h
    | finished => rfl
  refine Shift.trans (.recount w fun f _ => ?_) (hrest.beside [.holds fiber.stack fiber.home])
  simp only [Fiber.assets, weigh_cons, weigh_append, weigh_nil]
  omega

theorem receives (w : World) (s : SchedulerId) (fiber : Fiber) (exit : Exit)
    (hexit : ∀ x, exit = .suspended x → ∃ cell, w.handles.get? x = some cell)
    (hhome : fiber.home = some s)
    (hsuspended : fiber.isSuspended = true → ∃ x, exit = .suspended x) :
    w.Receives s fiber exit (w.receive s fiber exit) := by
  have hended : ∀ {w₁ : World} {event : Event}, (∀ x, exit ≠ .suspended x) → event.IsQuiet →
      w₁ = w.count s exit.count →
        w.Reckons s exit.count fiber.assets ((w₁.tell event).returnStack s fiber.stack) := by
    rintro w₁ event hnot hquiet rfl
    have hstripped := shift_strip (w.count s exit.count) fun h => (hsuspended h).elim hnot
    rw [hhome] at hstripped
    exact (hstripped.trans (shift_tell _ hquiet _)).trans (shift_returnStack _ _ _)
  cases exit with
  | suspended x =>
    obtain ⟨cell, hcell⟩ := hexit x rfl
    have hbefore : w.Reckons s (Exit.suspended x).count []
        ((w.updateScheduler s Scheduler.countSuspension).tell (.suspended fiber.id)) :=
      shift_tell _ (Event.isQuiet_suspended fiber.id) []
    have hparks := parks (w := (w.updateScheduler s Scheduler.countSuspension).tell
      (.suspended fiber.id)) hcell fiber (.scheduler s)
    simp only [receive]
    split
    next w₂ heq =>
      rw [heq] at hparks
      exact .parked hcell hbefore rfl hparks
    next other resumption w₂ heq =>
      rw [heq] at hparks
      have hother : other = fiber := by cases hparks <;> rfl
      subst hother
      exact .handedBack hcell hbefore rfl hparks
  | completed => exact .ended (by simp) (hended (by simp) (Event.isQuiet_finished fiber.id) rfl)
  | failed failure =>
    exact .ended (by simp) (hended (by simp) (Event.isQuiet_failed fiber.id failure.oneLine) rfl)
  | panicked panic =>
    have hleft := shift_leave (w.count s (Exit.panicked panic).count) fun h => by
      obtain ⟨x, hx⟩ := hsuspended h
      cases hx
    exact .ended (by simp)
      (hleft.trans (shift_tell _ (Event.isQuiet_panicked fiber.id panic.message) []))

end World

end Fibers
