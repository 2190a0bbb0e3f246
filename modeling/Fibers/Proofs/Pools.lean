import Fibers.Proofs.Meeting
import Fibers.Proofs.Passing

/-!
What steps do to the pools of stacks. A run loop may take a stack for a task that
it starts, and a scheduler takes back the stack of a fiber that completes or fails.
Nothing else touches a pool: fibers that panic or are unwound lose their stacks.
-/

namespace Fibers

namespace World

variable {w : World} {s : SchedulerId}

/-- The pools of all schedulers. -/
def pools (w : World) : List StackPool := w.schedulers.map Scheduler.pool

theorem pools_updateScheduler (w : World) (s : SchedulerId) {g : Scheduler → Scheduler}
    (h : ∀ scheduler, (g scheduler).pool = scheduler.pool) :
    (w.updateScheduler s g).pools = w.pools := by
  refine List.ext_getElem? fun i => ?_
  rw [pools, pools, List.getElem?_map, List.getElem?_map, updateScheduler, List.getElem?_modify]
  split <;> cases w.schedulers[i]? <;> simp [h]

/-- What is unwound leaves no stack to a pool. -/
theorem pools_release (w : World) (work : List Debris) : (w.release work).pools = w.pools := by
  rw [pools, release_schedulers, pools]

theorem pools_append (w : World) (s : SchedulerId) (entry : Runnable) :
    (w.append s entry).pools = w.pools :=
  pools_updateScheduler w s fun _ => rfl

/-- A destroyed scheduler releases its queue, and hands no stack around for that. -/
theorem pools_disown (w : World) (s : SchedulerId) : (w.disown s).pools = w.pools := by
  rw [disown]
  split
  · rfl
  · split
    · rw [pools_release]
      exact pools_updateScheduler w s fun _ => rfl
    · exact pools_updateScheduler w s fun _ => rfl

theorem pools_enqueue (w : World) (s : SchedulerId) (body : List Action) :
    (w.enqueue s body).2.pools = w.pools := by
  rw [enqueue]
  split
  · rfl
  next scheduler hs =>
    refine List.ext_getElem? fun i => ?_
    change ((w.schedulers.modify s.index fun _ => (scheduler.enqueue body).2).map
        Scheduler.pool)[i]? = _
    rw [pools, List.getElem?_map, List.getElem?_map, List.getElem?_modify]
    split
    next heq =>
      rw [← heq, show w.schedulers[s.index]? = some scheduler from hs]
      rfl
    next => simp

theorem pools_tell (w : World) (event : Event) : (w.tell event).pools = w.pools := rfl

theorem pools_park (w : World) (x : HandleRef) (fiber : Fiber) (owner : Owner) :
    (w.park x fiber owner).2.pools = w.pools := by
  rw [park]
  split
  · rfl
  · split
    · rw [pools_release]
      split <;> rfl
    · exact pools_release ..
    · exact pools_release ..

theorem pools_wake (w : World) (x : HandleRef) (owner : Owner) (resumption : Resumption) :
    (w.wake x owner resumption).2.pools = w.pools := by
  rw [wake]
  split
  · rfl
  · split <;> exact pools_release ..

theorem pools_bind (w : World) (name : String) (fiber : Fiber) :
    (w.bind name fiber).pools = w.pools := by
  rw [bind]
  split
  · rfl
  · exact pools_release ..

theorem pools_take {w w' : World} {name : String} {fiber : Fiber}
    (h : w.takeCoroutine? name = some (fiber, w')) : w'.pools = w.pools := by
  rw [takeCoroutine?, Option.map_eq_some_iff] at h
  obtain ⟨found, -, heq⟩ := h
  cases heq
  rfl

/-- Whatever is in hand, the pools stay. -/
theorem admits_pools : Admits fun w _ w' _ => w'.pools = w.pools where
  trans before after := after.trans before
  rest _ schedulers _ _ _ := congrArg (List.map Scheduler.pool) schedulers
  write _ _ _ _ := rfl
  comesBack h := by
    cases h <;> rfl
  release w work := pools_release w work
  retain _ _ _ := rfl
  makeHandle _ _ _ := rfl
  own w s _ := pools_updateScheduler w s fun _ => rfl
  disown w s := pools_disown w s
  enqueue w s _ body := pools_enqueue w s body
  pick _ _ _ := rfl
  take := pools_take
  bind := pools_bind
  unwind w fiber := pools_release w fiber.debris
  park w _ _ := pools_park w _
  wake := pools_wake
  append w s _ fiber resumption := pools_append w s (.woken fiber resumption)

end World

/-- A fiber that completes or fails gives its stack back. -/
def Exit.givesBack : Exit → Bool
  | .completed | .failed _ => true
  | .suspended _ | .panicked _ => false

namespace World

variable {w : World} {s : SchedulerId}

/-- A pool takes a stack back; a full one releases it. -/
theorem pools_returnStack (w : World) (s : SchedulerId) (stack : Stack) :
    (w.returnStack s stack).pools = w.pools.modify s.index fun pool => pool.put stack := by
  have hmodify : ∀ schedulers : List Scheduler,
      (schedulers.modify s.index fun scheduler =>
        { scheduler with pool := scheduler.pool.put stack }).map
        Scheduler.pool = (schedulers.map Scheduler.pool).modify s.index fun pool =>
          pool.put stack := by
    intro schedulers
    refine List.ext_getElem? fun i => ?_
    rw [List.getElem?_map, List.getElem?_modify, List.getElem?_modify, List.getElem?_map]
    split <;> cases schedulers[i]? <;> rfl
  rw [returnStack]
  split
  next hs =>
    have hout : w.pools.length ≤ s.index := by
      rw [pools, List.length_map]
      exact List.getElem?_eq_none_iff.1 hs
    rw [List.modify_eq_self hout]
  · simp only
    split <;> exact hmodify w.schedulers

theorem pools_receive (w : World) (s : SchedulerId) (fiber : Fiber) (exit : Exit) :
    (w.receive s fiber exit).pools =
      if exit.givesBack then w.pools.modify s.index fun pool =>
        pool.put fiber.stack else w.pools := by
  have hcount : ∀ count : Scheduler → Scheduler,
      (∀ scheduler, (count scheduler).pool = scheduler.pool) →
      (w.updateScheduler s count).pools = w.pools :=
      fun count hpool => pools_updateScheduler w s hpool
  cases exit with
  | suspended x =>
    have hpark :=
      ((w.updateScheduler s Scheduler.countSuspension).tell (.suspended fiber.id)).pools_park x
      fiber (.scheduler s)
    rw [pools_tell, hcount Scheduler.countSuspension fun _ => rfl] at hpark
    rw [receive]
    split
    next heq => rwa [heq] at hpark
    next heq =>
      rw [heq] at hpark
      rw [pools_append]
      exact hpark
  | completed =>
    rw [receive, pools_returnStack, pools_tell, hcount Scheduler.countCompleted fun _ => rfl]
    rfl
  | failed failure =>
    rw [receive, pools_returnStack, pools_tell, hcount Scheduler.countFailed fun _ => rfl]
    rfl
  | panicked panic =>
    rw [receive, pools_tell, hcount Scheduler.countPanicked fun _ => rfl]
    rfl

/-- The stack that was kept last is taken out of a pool. -/
def Hands (w : World) (s : SchedulerId) (stack : Stack) (w' : World) : Prop :=
  ∃ pool rest, w.pools[s.index]? = some pool ∧ pool.idle = stack :: rest ∧
    w'.pools = w.pools.set s.index { pool with idle := rest }

theorem pools_supplyStack (w : World) (s : SchedulerId) :
    (w.supplyStack s).2.pools = w.pools ∨
      ∃ stack, (w.supplyStack s).1 = .ok stack ∧ w.Hands s stack (w.supplyStack s).2 := by
  cases hs : w.scheduler? s with
  | none =>
    simp only [supplyStack, hs]
    exact .inl trivial
  | some scheduler =>
    have hsupplies := w.supplies hs
    generalize w.supplyStack s = supply at hsupplies
    cases hsupplies with
    | mapped | refused => exact .inl rfl
    | @hit stack rest hidle =>
      refine .inr ⟨stack, rfl, scheduler.pool, rest, ?_, hidle, ?_⟩
      · rw [pools, List.getElem?_map, show w.schedulers[s.index]? = some scheduler from hs]
        rfl
      · refine List.ext_getElem? fun i => ?_
        rw [pools_tell, pools, updateScheduler, List.getElem?_map, List.getElem?_modify,
          List.getElem?_set, pools, List.length_map, List.getElem?_map,
            if_pos (List.getElem?_eq_some_iff.1 hs).1]
        split
        next heq =>
          subst heq
          rw [show w.schedulers[s.index]? = some scheduler from hs]
          rfl
        next => simp

end World

namespace Machine

variable {m m' : Machine} {s : SchedulerId} {frames : List Frame}

/-- A scheduler that gets a fiber back. -/
theorem pools_back {byHand : Prop} (hm : m.Sound byHand) {fiber : Fiber} {exit : Exit}
    (htop : m.top = .dispatching s :: frames) (hcontrol : m.control = .back fiber exit)
    (hstep : m.step? = some m') :
    m'.world.pools =
      if exit.givesBack then m.world.pools.modify s.index fun pool =>
        pool.put fiber.stack else m.world.pools := by
  rw [hm.step?_of_top htop, react?.eq_def] at hstep
  simp only [goTo_control, hcontrol, Option.some.injEq] at hstep
  subst hstep
  exact m.world.pools_receive s fiber exit

theorem pools_dispatch (m : Machine) (s : SchedulerId) (fiber : Fiber) (resumption : Resumption) :
    (m.dispatch s fiber resumption).world.pools = m.world.pools := by
  obtain ⟨-, hpools, -⟩ := World.admits_pools.dispatches m s fiber resumption
  exact hpools

theorem pools_leave (m : Machine) (running : Running) (below : List Running) (exit : Exit) :
    (m.leave running below exit).world.pools = m.world.pools := by
  exact World.pools_release _ running.first.debris

/-- A stack is taken out of a pool for the fiber that is entered. -/
theorem pools_start (m : Machine) (s : SchedulerId) (id : FiberId) (body : List Action) :
    (m.start s id body).world.pools = m.world.pools ∨ ∃ running below,
      (m.start s id body).running = running :: below ∧
      running.home = some s ∧ m.world.Hands s running.stack (m.start s id body).world := by
  have hsupply := m.world.pools_supplyStack s
  rw [start]
  generalize m.world.supplyStack s = supply at hsupply
  obtain ⟨_ | stack, w⟩ := supply
  · refine .inl ?_
    rcases hsupply with hsame | ⟨stack, hstack, -⟩
    · have hcounted := World.pools_updateScheduler ((w.mark (.unstarted s id)).tell
        (.noStack id (SchedulerFault.stack ‹IoFault›).message)) s
        (g := Scheduler.countFailed) fun _ => rfl
      exact hcounted.trans hsame
    · cases hstack
  · have hpools : ∀ n : Machine,
        (n.dispatch s (w.makeFiber id (some s) stack body).1 .unit).world.pools =
        n.world.pools := fun n => n.pools_dispatch s _ _
    rcases hsupply with hsame | ⟨other, hstack, hhands⟩
    · exact .inl ((hpools _).trans hsame)
    · cases hstack
      obtain ⟨pool, rest, hpool, hidle, hafter⟩ := hhands
      exact .inr ⟨_, _, rfl, rfl, pool, rest, hpool, hidle, (hpools _).trans hafter⟩

/-- A turn of a run loop. -/
theorem pools_turns {byHand : Prop} (hm : m.Sound byHand) {ran : Nat} {max : Option Nat}
    (htop : m.top = .draining s ran max :: frames) (hcontrol : m.control = .advance)
    (hstep : m.step? = some m') :
    m'.world.pools = m.world.pools ∨ ∃ running below, m'.running = running :: below ∧
      running.home = some s ∧ m.world.Hands s running.stack m'.world := by
  rw [hm.step?_of_top htop, react?.eq_def] at hstep
  simp only [goTo_control, hcontrol, Option.some.injEq] at hstep
  subst hstep
  rw [drain]
  split
  · exact .inl rfl
  · split
    · exact .inl rfl
    next entry w hnext =>
      have htaken : w.pools = m.world.pools := by
        obtain ⟨queue, hqueue, rfl⟩ := World.next?_eq hnext
        exact World.pools_updateScheduler m.world s fun _ => rfl
      cases entry with
      | woken fiber resumption =>
        have hdispatch :=
          (((m.goTo frames m.world .advance).withWorld w).push
          (.draining s (ran + 1) max)).pools_dispatch s fiber resumption
        rw [push_world, withWorld_world] at hdispatch
        exact .inl (hdispatch.trans htaken)
      | fresh id body =>
        have hstart :=
          pools_start (((m.goTo frames m.world .advance).withWorld w).push
          (.draining s (ran + 1) max)) s id body
        simp only [push_world, withWorld_world, World.Hands, htaken] at hstart
        exact hstart

end Machine

end Fibers
