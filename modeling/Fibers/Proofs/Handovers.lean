import Fibers.Proofs.Passing
import Fibers.Proofs.Resumptions

/-!
Handovers between fibers and their schedulers. A run loop takes an entry from its queue
and enters its fiber, which is made then if the entry is a task, and a scheduler takes
back the fibers that it entered. A relation that goes along with these too relates the
worlds before and after every step.
-/

namespace Fibers

/-- The fiber that an entry of a queue brings. -/
def Runnable.fiber? : Runnable → Option Fiber
  | .fresh .. => none
  | .woken fiber _ => some fiber

namespace World

/-- A relation that goes along with run loops, and with all operations of programs but for the
warnings of drivers and the returns of foreign calls. -/
structure AdmitsRounds (R : World → Option Fiber → World → Option Fiber → Prop) :
    Prop extends AdmitsWork R where
  next {w w' : World} {s : SchedulerId} {entry : Runnable} (h : w.next? s = some (entry, w')) :
    R w none w' entry.fiber?
  /-- A scheduler counts something, or its pool changes. -/
  tune (w : World) (s : SchedulerId) (g : Scheduler → Scheduler)
    (hqueue : ∀ scheduler, (g scheduler).queue = scheduler.queue)
    (howners : ∀ scheduler, (g scheduler).owners = scheduler.owners) {hand : Option Fiber} :
    R w hand (w.updateScheduler s g) hand

/-- Foreign calls may come back besides. -/
structure AdmitsTurns (R : World → Option Fiber → World → Option Fiber → Prop) :
    Prop extends Admits R, AdmitsRounds R

theorem schedulers_park (w : World) (x : HandleRef) (fiber : Fiber) (owner : Owner) :
    (w.park x fiber owner).2.schedulers = w.schedulers := by
  cases hcell : w.handles.get? x with
  | none => rw [park, hcell]
  | some cell => exact (parks hcell fiber owner).schedulers

namespace AdmitsRounds

open Machine

variable {R : World → Option Fiber → World → Option Fiber → Prop} (h : AdmitsRounds R)
  {m m' : Machine} {hand : Option Fiber}

include h

theorem supplyStack (w : World) (s : SchedulerId) : R w hand (w.supplyStack s).2 hand := by
  rw [World.supplyStack]
  split
  · exact h.refl w
  next scheduler hs =>
    have hpool : ∀ pool : StackPool,
        R w hand (w.updateScheduler s fun scheduler => { scheduler with pool }) hand :=
      fun pool => h.tune w s (fun scheduler => { scheduler with pool }) (fun _ => rfl) fun _ => rfl
    simp only
    split
    · exact h.trans (hpool _) (h.tell _ rfl)
    · exact h.trans (hpool _) (h.resting (h.tell _ rfl) rfl rfl rfl rfl rfl)
    · exact h.trans (hpool _) (h.tell _ rfl)

theorem returnStack (w : World) (s : SchedulerId) (stack : Stack) :
    R w hand (w.returnStack s stack) hand := by
  rw [World.returnStack]
  split
  · exact h.refl w
  · have hpool : R w hand
      (w.updateScheduler s fun scheduler => { scheduler with pool := scheduler.pool.put stack })
        hand := h.tune w s (fun scheduler => { scheduler with pool := scheduler.pool.put stack })
          (fun _ => rfl) fun _ => rfl
    simp only
    split
    · exact h.trans hpool (h.tell _ rfl)
    · exact hpool

/-- A fiber comes back to its scheduler. One that has ended is nowhere afterwards. -/
theorem receive (w : World) {s : SchedulerId} (hs : 0 < w.owners s) (fiber : Fiber) (exit : Exit)
    (hexit : ∀ x, exit = .suspended x → 0 < w.handles.clones x)
    (hsuspended : fiber.isSuspended = true → ∃ x, exit = .suspended x) :
    R w (some fiber) (w.receive s fiber exit) none := by
  have hforget : (∀ x, exit ≠ .suspended x) → R w (some fiber) w none := by
    intro hnot
    apply h.forget
    intro hsuspends
    obtain ⟨x, hx⟩ := hsuspended hsuspends
    exact hnot x hx
  cases exit with
  | suspended x =>
    generalize hcounted : (w.updateScheduler s Scheduler.countSuspension).tell
      (.suspended fiber.id) = u
    have hbefore : R w (some fiber) u (some fiber) := by
      rw [← hcounted]
      exact h.trans (h.tune w s Scheduler.countSuspension (fun _ => rfl) fun _ => rfl)
        (h.tell _ rfl)
    have hheld : 0 < u.handles.clones x := by
      rw [← hcounted]
      exact hexit x rfl
    have hparked := h.trans hbefore (h.park u hheld fiber (.scheduler s))
    have halive : 0 < (u.park x fiber (.scheduler s)).2.owners s := by
      rw [owners, scheduler?, schedulers_park, ← hcounted]
      change 0 < (w.updateScheduler s Scheduler.countSuspension).owners s
      rwa [owners_updateScheduler_of_same w s (g := Scheduler.countSuspension) fun _ _ => rfl]
    rw [World.receive]
    simp only [hcounted]
    generalize u.park x fiber (.scheduler s) = result at hparked halive
    obtain ⟨_ | ⟨other, resumption⟩, after⟩ := result
    · exact hparked
    · exact h.trans hparked (h.append after halive other resumption)
  | completed =>
    have hcounted : R w none _ none :=
      h.tune w s Scheduler.countCompleted (fun _ => rfl) fun _ => rfl
    exact h.trans (hforget fun _ h => by cases h)
      (h.trans hcounted (h.trans (h.tell _ rfl) (h.returnStack _ s fiber.stack)))
  | failed failure =>
    have hcounted : R w none _ none := h.tune w s Scheduler.countFailed (fun _ => rfl) fun _ => rfl
    exact h.trans (hforget fun _ h => by cases h)
      (h.trans hcounted
        (h.trans (h.tell _ (Event.isLoss_failed _ _)) (h.returnStack _ s fiber.stack)))
  | panicked panic =>
    have hcounted : R w none _ none :=
      h.tune w s Scheduler.countPanicked (fun _ => rfl) fun _ => rfl
    exact h.trans (hforget fun _ h => by cases h) (h.trans hcounted (h.tell _ rfl))

/-- A task that gets a stack becomes a fiber, which is entered. -/
theorem start (m : Machine) (s : SchedulerId) (id : FiberId) (body : List Action) :
    m.Carries R none (m.start s id body) := by
  have hsupplied : R m.world none (m.world.supplyStack s).2 none := h.supplyStack m.world s
  rw [Machine.start]
  generalize m.world.supplyStack s = supply at hsupplied
  obtain ⟨fault | stack, w⟩ := supply
  · apply AdmitsWork.carries
    have hcounted : R _ none _ none :=
      h.tune ((w.mark (.unstarted s id)).tell (.noStack id (SchedulerFault.stack fault).message)) s
        Scheduler.countFailed (fun _ => rfl) fun _ => rfl
    exact h.trans hsupplied (h.trans (h.mark _ rfl) (h.trans (h.tell _ rfl) hcounted))
  · have hmade : R w none (w.makeFiber id (some s) stack body).2 none := h.rest rfl rfl rfl rfl rfl
    have hpicked : R _ none _ (some (w.makeFiber id (some s) stack body).1) :=
      h.pick (w.makeFiber id (some s) stack body).2 fun hsuspended => by cases hsuspended
    exact h.carries_of (n := m.withWorld _) (h.trans hsupplied (h.trans hmade hpicked))
      (h.dispatches _ s _ _)

/-- A turn of the run loop. -/
theorem drain (m : Machine) (s : SchedulerId) (ran : Nat) (max : Option Nat) :
    m.Carries R none (m.drain s ran max) := by
  rw [Machine.drain]
  split
  · exact AdmitsWork.carries (h.refl _)
  · split
    · exact AdmitsWork.carries (h.refl _)
    next entry w hnext =>
      have htaken := h.next hnext
      have hpushed : ((m.withWorld w).push (.draining s (ran + 1) max)).world = w := push_world ..
      cases entry with
      | fresh id body =>
        exact h.carries_of (hpushed.symm ▸ htaken)
          (h.start ((m.withWorld w).push (.draining s (ran + 1) max)) s id body)
      | woken fiber resumption =>
        exact h.carries_of (hpushed.symm ▸ htaken)
          (h.dispatches ((m.withWorld w).push (.draining s (ran + 1) max)) s fiber resumption)

variable {byHand : Prop} {s : SchedulerId} {frames : List Frame}

/-- A scheduler takes back a fiber that it entered. -/
theorem takesBack (hm : m.Sound byHand) {fiber : Fiber} {exit : Exit}
    (htop : m.top = .dispatching s :: frames) (hcontrol : m.control = .back fiber exit)
    (hstep : m.step? = some m') : m.Carries R m.control.fiber? m' := by
  have haccepts := hm.accepts
  rw [htop, hcontrol] at haccepts
  obtain ⟨hentered, -, hexit⟩ := haccepts
  obtain ⟨ran, max, rest, rfl, hfiber, -, -⟩ := hentered.of_dispatching
  have hlooping : m.Looping s ran max rest := by
    refine .inr ?_
    rw [← htop, top, running_eq_nil hfiber]
    rfl
  rw [hm.step?_of_top htop, hcontrol] at hstep
  simp only [react?, goTo_control, Option.some.injEq] at hstep
  subst hstep
  rw [hcontrol]
  refine AdmitsWork.carries (h.receive m.world (hlooping.alive hm) fiber exit ?_ hexit.1)
  rintro x rfl
  exact hm.clones_of_suspended hcontrol

theorem drains (hm : m.Sound byHand) {ran : Nat} {max : Option Nat}
    (htop : m.top = .draining s ran max :: frames) (hcontrol : m.control = .advance)
    (hstep : m.step? = some m') : m.Carries R m.control.fiber? m' := by
  rw [hm.step?_of_top htop, hcontrol] at hstep
  simp only [react?, goTo_control, Option.some.injEq] at hstep
  subst hstep
  rw [hcontrol]
  exact h.drain (m.goTo frames m.world .advance) s ran max

end AdmitsRounds

namespace AdmitsTurns

open Machine

variable {R : World → Option Fiber → World → Option Fiber → Prop} (h : AdmitsTurns R)
  {m m' : Machine} {byHand : Prop}

include h

/-- The relation goes along with every step, where a driver warns of a loss if it goes
along with that. -/
theorem steps (hm : m.Sound byHand) (hlost : ∀ frame frames fault event, m.top = frame :: frames →
      frame.Loses m.control fault → R m.world none (m.world.tell event) none)
        (hstep : m.step? = some m') :
    m.Carries R m.control.fiber? m' := by
  by_cases hback : ∃ s frames fiber exit, m.top = .dispatching s :: frames ∧
    m.control = .back fiber exit
  · obtain ⟨s, frames, fiber, exit, htop, hcontrol⟩ := hback
    exact h.takesBack hm htop hcontrol hstep
  · by_cases hdrain : ∃ s ran max frames, m.top = .draining s ran max :: frames ∧
      m.control = .advance
    · obtain ⟨s, ran, max, frames, htop, hcontrol⟩ := hdrain
      exact h.drains hm htop hcontrol hstep
    · apply h.move hm.kept.balanced.linked (hm.step?_eq.symm.trans hstep)
      · intro s ran max frames htop hcontrol
        exact hdrain ⟨s, ran, max, frames, htop, hcontrol⟩
      · intro s frames fiber exit htop hcontrol
        exact hback ⟨s, frames, fiber, exit, htop, hcontrol⟩
      · exact hlost

end AdmitsTurns

end World

end Fibers
