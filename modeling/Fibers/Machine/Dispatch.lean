import Fibers.Handle.Exchange
import Fibers.Machine.Transfer

/-!
The run loop of a scheduler and the delivery of resumptions. The loop takes
entries from the front of the queue and transfers into each; a fiber that
comes back is parked, counted and queued again, or counted as ended. A
resumption delivered at the root runs its fiber and then the loop; inside a
fiber it only queues the fiber.
-/

namespace Fibers

namespace World

/-- Takes the first entry off a queue. -/
def next? (w : World) (s : SchedulerId) : Option (Runnable × World) :=
  match w.queue s with
  | [] => none
  | entry :: rest =>
    let w := w.updateScheduler s fun scheduler => { scheduler with queue := rest }
    some (entry, w.mark (.dispatched s entry))

def enqueue (w : World) (s : SchedulerId) (body : List Action) : FiberId × World :=
  match w.scheduler? s with
  | none => (⟨0⟩, w)
  | some scheduler =>
    let (id, scheduler) := scheduler.enqueue body
    let w := w.updateScheduler s fun _ => scheduler
    (id, (w.mark (.appended s (.fresh id body))).tell (.enqueued id scheduler.queue.length))

/-- A stack from a scheduler's pool. -/
def supplyStack (w : World) (s : SchedulerId) : Except IoFault Stack × World :=
  match w.scheduler? s with
  | none => (.error .noMemory, w)
  | some scheduler =>
    let (supply, pool) := scheduler.pool.get w.mapping w.stacksMapped (.scheduler s)
    let w := w.updateScheduler s fun scheduler => { scheduler with pool }
    match supply with
    | .hit stack => (.ok stack, w.tell .poolHit)
    | .mapped stack =>
      (.ok stack,
        { w with stacksMapped := w.stacksMapped + 1 }.tell (.poolMiss pool.config.stackSize))
    | .refused fault => (.error fault, w.tell (.poolMiss pool.config.stackSize))

/-- Gives a stack to a scheduler's pool. -/
def returnStack (w : World) (s : SchedulerId) (stack : Stack) : World :=
  match w.scheduler? s with
  | none => w
  | some scheduler =>
    let w := w.updateScheduler s fun scheduler =>
      { scheduler with pool := scheduler.pool.put stack }
    if scheduler.pool.full then w.tell (.poolFull stack.size) else w

/-- A fiber for a task. -/
def makeFiber (w : World) (id : FiberId) (home : Option SchedulerId) (stack : Stack)
    (body : List Action) : Fiber × World :=
  (⟨w.fibersMade, id, home, stack, .unstarted body⟩, { w with fibersMade := w.fibersMade + 1 })

/-- What a scheduler does with a fiber that comes back from a transfer. The
stack of a fiber that panicked is not used again. -/
def receive (w : World) (s : SchedulerId) (fiber : Fiber) : Exit → World
  | .suspended handle =>
    let w := (w.updateScheduler s Scheduler.countSuspension).tell (.suspended fiber.id)
    match w.park handle fiber (.scheduler s) with
    | (none, w) => w
    | (some (fiber, resumption), w) => w.append s (.woken fiber resumption)
  | .completed =>
    let w := (w.updateScheduler s Scheduler.countCompleted).tell (.finished fiber.id)
    w.returnStack s fiber.stack
  | .failed failure =>
    let w := (w.updateScheduler s Scheduler.countFailed).tell (.failed fiber.id failure.oneLine)
    w.returnStack s fiber.stack
  | .panicked panic =>
    (w.updateScheduler s Scheduler.countPanicked).tell (.panicked fiber.id panic.message)

end World

namespace Machine

def dispatch (m : Machine) (s : SchedulerId) (fiber : Fiber) (resumption : Resumption) : Machine :=
  (m.push (.dispatching s)).enter fiber resumption

/-- Starts a task. Without a stack it fails alone. -/
def start (m : Machine) (s : SchedulerId) (id : FiberId) (body : List Action) : Machine :=
  match m.world.supplyStack s with
  | (.ok stack, w) =>
    let (fiber, w) := w.makeFiber id (some s) stack body
    (m.withWorld w).dispatch s fiber .unit
  | (.error fault, w) =>
    let w := (w.mark (.unstarted s id)).tell (.noStack id (SchedulerFault.stack fault).message)
    (m.withWorld (w.updateScheduler s Scheduler.countFailed)).advance

/-- One turn of the run loop, which ends at its bound or with the queue. -/
def drain (m : Machine) (s : SchedulerId) (ran : Nat) (max : Option Nat) : Machine :=
  if max.any (· ≤ ran) then m.withControl (.answer (.ok ran))
  else
    match m.world.next? s with
    | none => m.withControl (.answer (.ok ran))
    | some (entry, w) =>
      let m := (m.withWorld w).push (.draining s (ran + 1) max)
      match entry with
      | .fresh id body => m.start s id body
      | .woken fiber resumption => m.dispatch s fiber resumption

/-- Drives the run loop, which is refused inside a fiber. -/
def run (m : Machine) (s : SchedulerId) (max : Option Nat) : Machine :=
  match m.world.currentId with
  | some current => m.withControl (.answer (.error (.reentrant current)))
  | none => (m.push (.draining s 0 max)).advance

/-- Delivers a resumption through a scheduler. -/
def deliver (m : Machine) (s : SchedulerId) (handle : HandleRef) (resumption : Resumption) :
    Machine :=
  let id := m.world.handleId handle
  match m.world.wake handle (.scheduler s) resumption with
  | (.ok none, w) => (m.withWorld (w.tell (.resumedEarly id))).withControl (.answer (.ok 0))
  | (.error fault, w) =>
    (m.withWorld (w.tell (.rejected id fault.message))).withControl (.answer (.error fault))
  | (.ok (some (fiber, resumption)), w) =>
    if w.current.isSome then
      (m.withWorld ((w.tell (.queuedInside id)).append s (.woken fiber resumption))).withControl
        (.answer (.ok 0))
    else
      let w := (w.tell (.resuming id)).mark (.dispatched s (.woken fiber resumption))
      ((m.withWorld w).push (.draining s 0 none)).dispatch s fiber resumption

end Machine

end Fibers
