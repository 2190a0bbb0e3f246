import Fibers.Handle.Table
import Fibers.Stack.Pool

/-!
Schedulers: a queue of runnable entries, counters, and a pool of stacks. The
queue is served from the front and only ever grows at the back.
-/

namespace Fibers

structure Counters where
  spawned : Nat
  completed : Nat
  /-- Tasks that ended in an error nobody caught, and tasks without a stack. -/
  failed : Nat
  panicked : Nat
  suspensions : Nat
deriving DecidableEq

def Counters.zero : Counters := ⟨0, 0, 0, 0, 0⟩

inductive Runnable
  /-- A task that was never transferred into; its fiber is made on dispatch. -/
  | fresh (id : FiberId) (body : List Action)
  /-- A fiber whose resumption arrived while something else was running. -/
  | woken (fiber : Fiber) (resumption : Resumption)

/-- What an entry of a scheduler's queue leaves; a task that never started
owns nothing. -/
def Runnable.debris (scheduler : SchedulerId) : Runnable → List Debris
  | .fresh id _ => [.task scheduler id]
  | .woken fiber resumption => fiber.debris ++ resumption.debris

structure Scheduler where
  queue : List Runnable
  /-- The number of the task that was enqueued last. -/
  lastId : Nat
  counters : Counters
  pool : StackPool
  /-- Places that keep the scheduler alive. -/
  owners : Nat

namespace Scheduler

def new (config : PoolConfig) (owners : Nat) : Scheduler :=
  ⟨[], 0, .zero, .empty config, owners⟩

def append (scheduler : Scheduler) (entry : Runnable) : Scheduler :=
  { scheduler with queue := scheduler.queue ++ [entry] }

/-- Adds a task at the back of the queue under the next number. -/
def enqueue (scheduler : Scheduler) (body : List Action) : FiberId × Scheduler :=
  let id : FiberId := ⟨scheduler.lastId + 1⟩
  let counters := { scheduler.counters with spawned := scheduler.counters.spawned + 1 }
  (id, { scheduler with lastId := id.number, counters := counters }.append (.fresh id body))

def countCompleted (scheduler : Scheduler) : Scheduler :=
  { scheduler with
    counters := { scheduler.counters with completed := scheduler.counters.completed + 1 } }

def countFailed (scheduler : Scheduler) : Scheduler :=
  { scheduler with
    counters := { scheduler.counters with failed := scheduler.counters.failed + 1 } }

def countPanicked (scheduler : Scheduler) : Scheduler :=
  { scheduler with
    counters := { scheduler.counters with panicked := scheduler.counters.panicked + 1 } }

def countSuspension (scheduler : Scheduler) : Scheduler :=
  { scheduler with
    counters := { scheduler.counters with suspensions := scheduler.counters.suspensions + 1 } }

/-- Length, emptiness, idleness, counters and idle stacks, in this order. No
scheduler is idle while a fiber is current. -/
def datum (scheduler : Scheduler) (inFiber : Bool) : Datum :=
  .list [.nat scheduler.queue.length, .bool scheduler.queue.isEmpty,
    .bool (scheduler.queue.isEmpty && !inFiber), .nat scheduler.counters.spawned,
    .nat scheduler.counters.completed, .nat scheduler.counters.failed,
    .nat scheduler.counters.panicked, .nat scheduler.counters.suspensions,
    .nat scheduler.pool.idle.length]

/-- What the foreign side sees: length, counters and idle stacks. -/
def foreignDatum (scheduler : Scheduler) : Datum :=
  .list [.nat scheduler.queue.length, .nat scheduler.counters.spawned,
    .nat scheduler.counters.completed, .nat scheduler.counters.failed,
    .nat scheduler.counters.panicked, .nat scheduler.counters.suspensions,
    .nat scheduler.pool.idle.length]

end Scheduler

end Fibers
