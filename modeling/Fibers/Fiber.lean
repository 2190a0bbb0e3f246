import Fibers.Action
import Fibers.Stack

/-!
Fibers and what they remember. Running code is a stack of frames; a frame says
what happens next when control comes back to it. A suspended fiber keeps its
frames, and with them everything its unfinished lists of actions own.
-/

namespace Fibers

/-- What an await waits for. Host calls name the driver they are issued
through. -/
inductive AwaitKind
  | plain
  | foreign
  | sleep (driver : DriverId) (milliseconds : Nat)
  | call (driver : DriverId)
  | blocking (driver : DriverId)
  /-- All calls of a driver. -/
  | all (driver : DriverId)

/-- An await, with the type that it wants and what it does with an error or a
handle that it gets. -/
structure AwaitPlan where
  kind : AwaitKind
  expects : PayloadType
  onError : OnError
  keepIn : Option String

/-- An await of the foreign side wants a pointer and reports by code. -/
def AwaitPlan.foreign : AwaitPlan := ⟨.foreign, .pointer, .raise, none⟩

/-- How the outcome of a call on a scheduler is reported. -/
inductive Reply
  | run (raises : Bool)
  | resume (raises : Bool)
  | foreignRun
  | foreignResume (name : String)
  | directResume

/-- Where a driver stands in its loop. -/
inductive DriverPhase
  | drain
  | listen
  /-- Ready calls have their turns, at most this many before the loop looks
  for a notification. -/
  | poll (turns : Nat)
  | settle (waiters : List HandleRef)
  /-- One waiter is being resumed; the others come after it. -/
  | resuming (fiber : FiberId) (waiters : List HandleRef)

inductive Frame
  /-- The guards of the list, the last one first. -/
  | actions (todo : List Action) (guards : List Datum)
  | again (times : Nat) (body : List Action)
  | catching
  /-- A register function runs; the await keeps a clone of its handle. -/
  | registering (own : HandleRef) (plan : AwaitPlan)
  | awaiting (handle : HandleRef) (plan : AwaitPlan)
  | suspending (raises : Bool)
  | transferring (coroutine : String) (slot : Option String)
  | dispatching (scheduler : SchedulerId)
  | draining (scheduler : SchedulerId) (ran : Nat) (max : Option Nat)
  | answering (scheduler : SchedulerId) (reply : Reply)
  | driving (driver : DriverId) (phase : DriverPhase)
  | completing (driver : DriverId) (call : Nat) (fiber : FiberId)

inductive FiberState
  | unstarted (body : List Action)
  /-- The payload of the first transfer lives as long as the frames. -/
  | suspended (frames : List Frame) (first : Payload)
  | finished

structure Fiber where
  /-- Fibers are numbered in the order in which they are made. -/
  serial : Nat
  id : FiberId
  /-- The scheduler that made the fiber for one of its tasks; fibers made by
  hand have none. -/
  home : Option SchedulerId
  stack : Stack
  state : FiberState

namespace Fiber

def isFinished (fiber : Fiber) : Bool :=
  match fiber.state with
  | .finished => true
  | _ => false

def isStarted (fiber : Fiber) : Bool :=
  match fiber.state with
  | .unstarted _ => false
  | _ => true

def isSuspended (fiber : Fiber) : Bool := fiber.isStarted && !fiber.isFinished

private def flag (b : Bool) : String := if b then "true" else "false"

def describe (fiber : Fiber) : String :=
  "CoState \x7b id: " ++ fiber.id.describe ++ ", started: " ++ flag fiber.isStarted ++
    ", done: " ++ flag fiber.isFinished ++ " \x7d"

end Fiber

/-- A fiber as the current one: its serial tells fibers of one number apart. -/
structure Current where
  serial : Nat
  id : FiberId
deriving DecidableEq

/-- A fiber that control is inside of. -/
structure Running where
  serial : Nat
  id : FiberId
  home : Option SchedulerId
  stack : Stack
  /-- What was current when control last entered the fiber. -/
  outer : Option Current
  first : Payload
  frames : List Frame

namespace Running

def current (running : Running) : Current := ⟨running.serial, running.id⟩

def leave (running : Running) (state : FiberState) : Fiber :=
  ⟨running.serial, running.id, running.home, running.stack, state⟩

end Running

/-- How a transfer into a fiber comes back. -/
inductive Exit
  | suspended (handle : HandleRef)
  | completed
  | failed (failure : Failure)
  | panicked (panic : Panic)

end Fibers
