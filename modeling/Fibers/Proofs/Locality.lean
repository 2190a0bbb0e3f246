import Fibers.Machine.Step

/-!
Fibers do not see the root. Whatever control does inside a fiber, it reads and changes
the world and the levels that fibers are on; the frames of the root wait, and may be
any. A step inside a fiber is therefore the same step above every root.
-/

namespace Fibers

namespace Machine

/-- The machine over another root. -/
def reroot (m : Machine) (root : List Frame) : Machine := { m with root }

/-- Control is inside a fiber. -/
def IsInside (m : Machine) : Prop := m.running ≠ []

variable {m : Machine} {root : List Frame}

/-! ### Operations that push nothing -/

section Reroot

variable (m root)

theorem reroot_world : (m.reroot root).world = m.world := rfl

theorem reroot_withWorld (w : World) :
    (m.reroot root).withWorld w = (m.withWorld w).reroot root := rfl

theorem reroot_leaveUnwound (length : Nat) :
    (m.reroot root).leaveUnwound length = (m.leaveUnwound length).reroot root := by
  rw [leaveUnwound, leaveUnwound]
  change (bif (m.world.unwoundSince length).any (m.world.current = some ·) then _ else _) = _
  cases (m.world.unwoundSince length).any (m.world.current = some ·) <;> rfl

theorem reroot_advance : (m.reroot root).advance = m.advance.reroot root := rfl

theorem reroot_enter (fiber : Fiber) (resumption : Resumption) :
    (m.reroot root).enter fiber resumption = (m.enter fiber resumption).reroot root := by
  simp only [enter]
  split
  · split <;> rfl
  · rfl
  · rfl

theorem reroot_suspend (x : HandleRef) : (m.reroot root).suspend x = (m.suspend x).reroot root := by
  obtain ⟨world, running, floor, told⟩ := m
  cases running <;> rfl

theorem reroot_failAwait (plan : AwaitPlan) (failure : Failure) :
    (m.reroot root).failAwait plan failure = (m.failAwait plan failure).reroot root := by
  simp only [failAwait]
  split <;> rfl

theorem reroot_concludeAwait (x : HandleRef) (plan : AwaitPlan) (resumption : Resumption) :
    (m.reroot root).concludeAwait x plan resumption =
    (m.concludeAwait x plan resumption).reroot root := by
  simp only [concludeAwait, reroot_world, reroot_withWorld]
  split
  · exact reroot_failAwait ..
  next payload =>
    split
    · cases payload with
      | handle => rfl
      | scalar value =>
        simp only [yieldAwait]
        split <;> rfl
    · exact reroot_failAwait ..

theorem reroot_concludeSuspend (raises : Bool) (resumption : Resumption) :
    (m.reroot root).concludeSuspend raises resumption =
    (m.concludeSuspend raises resumption).reroot root := by
  cases resumption <;> rfl

theorem reroot_transferred (name : String) (slot : Option String) (fiber : Fiber) (exit : Exit) :
    (m.reroot root).transferred name slot fiber exit =
    (m.transferred name slot fiber exit).reroot root := by
  cases exit <;> rfl

theorem reroot_reportCall (s : SchedulerId) (reply : Reply) (result : Except SchedulerFault Nat) :
    (m.reroot root).reportCall s reply result = (m.reportCall s reply result).reroot root := by
  cases result <;> rcases reply with (_ | _) | (_ | _) | _ | _ | _ <;> rfl

theorem reroot_withScheduler (name : String) (position : Nat) {use use' : SchedulerId → Machine}
    (h : ∀ s, use' s = (use s).reroot root) :
    (m.reroot root).withScheduler name position use' =
    (m.withScheduler name position use).reroot root := by
  simp only [withScheduler, reroot_world]
  split
  · rfl
  · exact h _

theorem reroot_withDriver (name : String) (position : Nat) {use use' : DriverId → Machine}
    (h : ∀ d, use' d = (use d).reroot root) :
    (m.reroot root).withDriver name position use' =
    (m.withDriver name position use).reroot root := by
  simp only [withDriver, reroot_world]
  split
  · rfl
  · exact h _

end Reroot

/-! ### Operations inside a fiber -/

section Inside

variable (h : m.IsInside)
include h

theorem IsInside.withWorld (w : World) : (m.withWorld w).IsInside := h

theorem IsInside.advance : m.advance.IsInside := h

theorem IsInside.push (frame : Frame) : (m.push frame).IsInside := by
  obtain ⟨world, running, floor, told⟩ := m
  cases running with
  | nil => exact absurd rfl h
  | cons => exact List.cons_ne_nil _ _

theorem reroot_push (frame : Frame) : (m.reroot root).push frame = (m.push frame).reroot root := by
  obtain ⟨world, running, floor, told⟩ := m
  cases running with
  | nil => exact absurd rfl h
  | cons => rfl

theorem reroot_run (s : SchedulerId) (max : Option Nat) :
    (m.reroot root).run s max = (m.run s max).reroot root := by
  simp only [run, reroot_world]
  split
  · rfl
  · rw [reroot_push h]
    rfl

theorem reroot_dispatch (s : SchedulerId) (fiber : Fiber) (resumption : Resumption) :
    (m.reroot root).dispatch s fiber resumption = (m.dispatch s fiber resumption).reroot root := by
  rw [dispatch, dispatch, reroot_push h, reroot_enter]

theorem reroot_deliver (s : SchedulerId) (x : HandleRef) (resumption : Resumption) :
    (m.reroot root).deliver s x resumption = (m.deliver s x resumption).reroot root := by
  simp only [deliver, reroot_world, reroot_withWorld]
  split
  · rfl
  · rfl
  next fiber resumption w hwoken =>
    split
    · rfl
    · rw [reroot_push (h.withWorld _), reroot_dispatch ((h.withWorld _).push _)]

omit h in
theorem reroot_withResumption (name : String) (delivery : Delivery) (taken : List Debris)
    {use use' : Machine → Resumption → Machine}
    (huse : ∀ w resumption, use' ((m.withWorld w).reroot root) resumption =
      (use (m.withWorld w) resumption).reroot root) :
    (m.reroot root).withResumption name delivery taken use' =
    (m.withResumption name delivery taken use).reroot root := by
  simp only [withResumption, reroot_world, reroot_withWorld]
  split
  · rfl
  next resumption w hresumption => exact huse w resumption

omit h in
theorem reroot_withEnding (name : String) (outcome : CallOutcome)
    {use use' : Machine → Ending → Machine}
    (huse : ∀ w ending,
      use' ((m.withWorld w).reroot root) ending = (use (m.withWorld w) ending).reroot root) :
    (m.reroot root).withEnding name outcome use' = (m.withEnding name outcome use).reroot root := by
  cases outcome with
  | done delivery =>
    simp only [withEnding]
    refine reroot_withResumption name delivery [] fun w resumption => ?_
    exact huse w (.done resumption)
  | panicked => exact huse m.world .panicked

theorem reroot_suspendAwait (x : HandleRef) (plan : AwaitPlan) :
    (m.reroot root).suspendAwait x plan = (m.suspendAwait x plan).reroot root := by
  rw [suspendAwait, suspendAwait, reroot_push h, reroot_suspend]

theorem reroot_issue (d : DriverId) (work : Work) (plan : AwaitPlan) :
    (m.reroot root).issue d work plan = (m.issue d work plan).reroot root := by
  simp only [issue, reroot_world, reroot_withWorld]
  split
  · exact reroot_failAwait ..
  · rfl
  · exact reroot_suspendAwait (h.withWorld _) _ _

theorem reroot_awaitAll (d : DriverId) (plan : AwaitPlan) :
    (m.reroot root).awaitAll d plan = (m.awaitAll d plan).reroot root := by
  simp only [awaitAll, reroot_world, reroot_withWorld]
  split
  · exact reroot_failAwait ..
  · exact reroot_suspendAwait (h.withWorld _) _ _

theorem reroot_await (plan : AwaitPlan) (slot : Option String) (register : List Action) :
    (m.reroot root).await plan slot register = (m.await plan slot register).reroot root := by
  simp only [await, reroot_world, reroot_withWorld]
  split
  · exact reroot_failAwait ..
  · rw [reroot_push (h.withWorld _), reroot_push ((h.withWorld _).push _)]
    rfl

theorem reroot_foreignAwait (slot : String) (register : List Action) :
    (m.reroot root).foreignAwait slot register = (m.foreignAwait slot register).reroot root := by
  simp only [foreignAwait, reroot_world, reroot_withWorld]
  split
  · exact reroot_failAwait ..
  · rw [reroot_push (h.withWorld _), reroot_push ((h.withWorld _).push _)]
    rfl

theorem reroot_runLoop (position : Nat) (max : Option Nat) (reply : Reply) :
    (m.reroot root).runLoop position max reply = (m.runLoop position max reply).reroot root := by
  refine reroot_withScheduler _ _ _ _ fun s => ?_
  rw [reroot_world, reroot_withWorld, reroot_push (h.withWorld _),
    reroot_run ((h.withWorld _).push _)]

/-- A call that delivers a resumption on behalf of its caller. -/
theorem reroot_answering (w : World) (s : SchedulerId) (reply : Reply) (x : HandleRef)
    (resumption : Resumption) :
    (((m.reroot root).withWorld w).push (.answering s reply)).deliver s x resumption =
      (((m.withWorld w).push (.answering s reply)).deliver s x resumption).reroot root := by
  rw [reroot_withWorld, reroot_push (h.withWorld _), reroot_deliver ((h.withWorld _).push _)]

theorem reroot_resume (position : Nat) (slot : String) (keep : Bool) (delivery : Delivery)
    (raises : Bool) : (m.reroot root).resume position slot keep delivery raises =
      (m.resume position slot keep delivery raises).reroot root := by
  refine reroot_withScheduler _ _ _ _ fun s => ?_
  simp only [reroot_world]
  split
  · rfl
  next x w htaken =>
    rw [reroot_withWorld]
    refine reroot_withResumption _ _ _ fun w resumption => ?_
    exact reroot_answering (h.withWorld w) _ s _ x resumption

theorem reroot_foreignResume (name : String) (s : SchedulerId) (slot : Option String) (keep : Bool)
    (resumption : Resumption) : (m.reroot root).foreignResume name s slot keep resumption =
      (m.foreignResume name s slot keep resumption).reroot root := by
  simp only [foreignResume, reroot_world]
  split
  · rfl
  · exact reroot_answering h ..

theorem reroot_directResume (s : SchedulerId) (slot : Option String) (keep : Bool)
    (resumption : Resumption) : (m.reroot root).directResume s slot keep resumption =
      (m.directResume s slot keep resumption).reroot root := by
  simp only [directResume, reroot_world]
  split
  · rfl
  · exact reroot_answering h ..

theorem reroot_countdown (counter : String) (body : List Action) :
    (m.reroot root).countdown counter body = (m.countdown counter body).reroot root := by
  simp only [countdown, reroot_world]
  split
  · rfl
  · rfl
  · exact reroot_push (h.withWorld _) _

theorem reroot_suspendOn (x : HandleRef) (raises : Bool) :
    (m.reroot root).suspendOn x raises = (m.suspendOn x raises).reroot root := by
  rw [suspendOn, suspendOn]
  by_cases hcurrent : m.world.current.isSome = true
  · rw [if_pos hcurrent, if_pos (show (m.reroot root).world.current.isSome = true from hcurrent),
      reroot_push h, reroot_suspend]
  · rw [if_neg hcurrent, if_neg (show ¬(m.reroot root).world.current.isSome = true from hcurrent)]
    rfl

theorem reroot_suspendOnSlot (slot : String) (keep raises : Bool) :
    (m.reroot root).suspendOnSlot slot keep raises =
    (m.suspendOnSlot slot keep raises).reroot root := by
  simp only [suspendOnSlot, reroot_world, reroot_withWorld]
  split
  · rfl
  · exact reroot_suspendOn (h.withWorld _) ..

theorem reroot_transfer (name : String) (delivery : Delivery) (slot : Option String) :
    (m.reroot root).transfer name delivery slot = (m.transfer name delivery slot).reroot root := by
  simp only [transfer, reroot_world, reroot_withWorld]
  split
  · rfl
  · refine reroot_withResumption _ _ _ fun w resumption => ?_
    rw [reroot_push ((h.withWorld _).withWorld w), reroot_enter]

end Inside

/-- What an action does inside a fiber does not depend on the root. -/
theorem reroot_perform (h : m.IsInside) :
    (action : Action) → (m.reroot root).perform action = (m.perform action).reroot root
  | .log _ | .guard _ | .state | .fail _ | .panic _ | .signal .. | .unknown _ | .handleText _
  | .lastError | .newHandle .. => rfl
  | .again times body => reroot_push h (.again times body)
  | .scope body false => reroot_push h (.actions body [])
  | .scope body true => by
    rw [perform, perform, reroot_push h, reroot_push (h.push _)]
  | .enqueue .. | .enqueueNamed .. | .dropScheduler _ | .destroyScheduler _ | .pending _ =>
    reroot_withScheduler _ _ _ _ fun s => rfl
  | .run .. | .foreignRun .. => reroot_runLoop h ..
  | .await .. => reroot_await h ..
  | .resume .. => reroot_resume h ..
  | .handle slot => by
    simp only [perform, showHandle, reroot_world]
    split <;> rfl
  | .clone slot target => by
    simp only [perform, cloneHandle, reroot_world]
    split <;> rfl
  | .drop slot => by
    simp only [perform, dropHandle, reroot_world]
    split <;> rfl
  | .countdown .. => reroot_countdown h ..
  | .suspend .. => reroot_suspendOnSlot h ..
  | .park slot keep name owner => by
    simp only [perform, park, reroot_world]
    split
    · rfl
    · split
      · rfl
      · simp only [parkedByHand]
        split <;> rfl
  | .wake slot keep name owner delivery => by
    simp only [perform, wake, reroot_world, reroot_withWorld]
    split
    · rfl
    · refine reroot_withResumption _ _ _ fun w resumption => ?_
      simp only [wokenByHand, reroot_world]
      split <;> rfl
  | .newCoroutine name id size body => by
    simp only [perform, newCoroutine, reroot_world]
    split <;> rfl
  | .transfer .. => reroot_transfer h ..
  | .coroutineInfo name => by
    simp only [perform, coroutineInfo, reroot_world]
    split <;> rfl
  | .takeStack name => by
    simp only [perform, takeStack, reroot_world]
    split
    · rfl
    · split <;> rfl
  | .dropCoroutine name => by
    simp only [perform, dropCoroutine, reroot_world]
    split <;> rfl
  | .newDriver position => by
    simp only [perform, newDriver, reroot_world]
    split <;> rfl
  | .drive position => by
    refine reroot_withDriver _ _ _ _ fun d => ?_
    simp only [drive, reroot_world]
    split
    · rfl
    · split
      · rfl
      · rw [reroot_withWorld, reroot_push (h.withWorld _)]
        rfl
  | .driverState _ | .inFlight _ => reroot_withDriver _ _ _ _ fun d => rfl
  | .sleep .. | .blocking .. => reroot_withDriver _ _ _ _ fun d => reroot_issue h ..
  | .call .. => reroot_withDriver _ _ _ _ fun d =>
    reroot_withEnding _ _ fun w ending => reroot_issue (h.withWorld w) ..
  | .awaitAll .. => reroot_withDriver _ _ _ _ fun d => reroot_awaitAll h ..
  | .foreign position action => by
    simp only [perform, reroot_world]
    split
    · rfl
    · exact reroot_perform h action
  | .foreignAwait .. => reroot_foreignAwait h ..
  | .foreignResume .. | .foreignError .. => reroot_withScheduler _ _ _ _ fun s =>
    reroot_foreignResume h ..
  | .directResume .. => reroot_withScheduler _ _ _ _ fun s =>
    reroot_withResumption _ _ _ fun w resumption => reroot_directResume (h.withWorld w) ..
  | .destroyHandle slot keep => by
    simp only [perform, destroyHandle, reroot_world]
    split <;> rfl

/-! ### Steps -/

section Frames

variable (h : m.IsInside)
include h

theorem reroot_drain (s : SchedulerId) (ran : Nat) (max : Option Nat) :
    (m.reroot root).drain s ran max = (m.drain s ran max).reroot root := by
  simp only [drain, reroot_world, reroot_withWorld]
  split
  · rfl
  · split
    · rfl
    next entry w hnext =>
      rw [reroot_push (h.withWorld w)]
      have hpushed := (h.withWorld w).push (.draining s (ran + 1) max)
      generalize (m.withWorld w).push (.draining s (ran + 1) max) = n at hpushed
      cases entry with
      | woken fiber resumption => exact reroot_dispatch hpushed s fiber resumption
      | fresh id body =>
        simp only [start, reroot_world, reroot_withWorld]
        split
        · exact reroot_dispatch (hpushed.withWorld _) s _ _
        · rfl

theorem reroot_endFuture (s : SchedulerId) (x : HandleRef) (ending : Ending) :
    (m.reroot root).endFuture s x ending = (m.endFuture s x ending).reroot root := by
  cases ending with
  | done outcome => exact reroot_deliver h ..
  | panicked => rfl

theorem reroot_complete (call : HostCall) (x : HandleRef) (ending : Ending) :
    (m.reroot root).complete call x ending = (m.complete call x ending).reroot root := by
  simp only [complete, reroot_world, reroot_withWorld]
  split
  · rfl
  · rw [reroot_push (h.withWorld _), reroot_endFuture ((h.withWorld _).push _)]

theorem reroot_turn (call : HostCall) : (m.reroot root).turn call = (m.turn call).reroot root := by
  simp only [turn, reroot_world, reroot_withWorld]
  split
  · rfl
  · split
    · split
      · exact reroot_complete h ..
      · rfl
    · exact reroot_complete h ..
    · exact reroot_complete h ..
    next name outcome hstate =>
      by_cases hpermits : 0 < (m.world.semaphore name).permits
      · refine (if_pos hpermits).trans
          (.trans ?_ (congrArg (fun m => reroot m root) (if_pos hpermits).symm))
        exact reroot_complete (h.withWorld _) ..
      · exact (if_neg hpermits).trans (congrArg (fun m => reroot m root) (if_neg hpermits).symm)
    · rfl
    · exact reroot_complete h ..

theorem reroot_poll (d : DriverId) (turns : Nat) (agenda : Agenda) :
    (m.reroot root).poll d turns agenda = (m.poll d turns agenda).reroot root := by
  simp only [poll, reroot_world, reroot_withWorld]
  split
  · rw [reroot_push (h.withWorld _), reroot_advance]
    split
    · rfl
    · exact reroot_turn ((h.withWorld _).push _).advance _
  · rw [reroot_push h, reroot_advance]

theorem reroot_drained (d : DriverId) (driver : Driver) :
    (m.reroot root).drained d driver = (m.drained d driver).reroot root := by
  simp only [drained, reroot_world, reroot_withWorld]
  split
  · rw [reroot_push h]
    rfl
  · split
    · rfl
    · rw [reroot_push (h.withWorld _)]
      rfl

theorem reroot_listen? (d : DriverId) (driver : Driver) (agenda : Agenda) :
    (m.reroot root).listen? d driver agenda = (m.listen? d driver agenda).map fun m =>
    m.reroot root := by
  simp only [listen?, reroot_world, reroot_withWorld]
  split
  · rw [reroot_push (h.withWorld _)]
    rfl
  · split
    · rw [Option.map_map]
      refine Option.map_congr fun agenda _ => ?_
      rw [reroot_push (h.withWorld _)]
      rfl
    · rw [reroot_push h]
      rfl

theorem reroot_stepDriver? (d : DriverId) (phase : DriverPhase) :
    (m.reroot root).stepDriver? d phase = (m.stepDriver? d phase).map fun m => m.reroot root := by
  simp only [stepDriver?, reroot_world, reroot_withWorld,
    show (m.reroot root).control = m.control from rfl]
  split
  · split
    · rw [reroot_push h, reroot_run (h.push _)]
      rfl
    · rw [reroot_drained h]
      rfl
    · exact reroot_listen? h ..
    · rw [reroot_poll h]
      rfl
    · rw [reroot_push h]
      rfl
    · rw [reroot_push h, reroot_deliver (h.push _)]
      rfl
    · split
      · rw [reroot_push h]
        rfl
      · rw [reroot_push (h.withWorld _)]
        rfl
    · rfl
  · rfl

theorem reroot_react? (frame : Frame) :
    (m.reroot root).react? frame = (m.react? frame).map fun m => m.reroot root := by
  simp only [react?, show (m.reroot root).control = m.control from rfl]
  split
  · rw [reroot_push h]
    rfl
  · rw [reroot_push h, reroot_perform (h.push _)]
    rfl
  · rfl
  · rfl
  · rfl
  · rfl
  · rw [reroot_push h, reroot_push (h.push _)]
    rfl
  · rfl
  · rfl
  · rfl
  · rfl
  · rfl
  · simp only [registered, show (m.reroot root).control = m.control from rfl]
    split
    · rw [reroot_suspendAwait h]
      rfl
    · exact congrArg some (reroot_suspendAwait (h.withWorld _) ..)
    · rfl
    · rfl
  · rw [reroot_concludeAwait]
    rfl
  · rw [reroot_concludeSuspend]
    rfl
  · rw [reroot_transferred]
    rfl
  · rfl
  · rw [reroot_drain h]
    rfl
  · rw [reroot_reportCall]
    rfl
  · exact reroot_stepDriver? h ..
  · rfl
  · rfl

/-- A move inside a fiber does not depend on the root. -/
theorem reroot_move? : (m.reroot root).move? = m.move?.map fun m => m.reroot root := by
  obtain ⟨world, running, floor, told⟩ := m
  cases running with
  | nil => exact absurd rfl h
  | cons running below =>
    obtain ⟨serial, id, home, stack, outer, first, frames⟩ := running
    cases frames with
    | nil =>
      simp only [move?, reroot]
      cases told <;> rfl
    | cons frame frames =>
      exact reroot_react?
        (m := ⟨world, ⟨serial, id, home, stack, outer, first, frames⟩ :: below, floor, told⟩)
        (List.cons_ne_nil _ _) frame

/-- A step inside a fiber does not depend on the root. -/
theorem reroot_step? : (m.reroot root).step? = m.step?.map fun m => m.reroot root := by
  rw [step?, step?, reroot_move? h, Option.map_map, Option.map_map]
  exact congrArg (fun f => m.move?.map f)
    (funext fun next => reroot_leaveUnwound next root m.world.history.size)

end Frames

end Machine

end Fibers
