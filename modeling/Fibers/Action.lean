import Fibers.Payload

/-!
Programs. A program is a list of actions, run in order at the root or inside a
fiber. Actions name what they need: schedulers by position, handles by the
slot that holds them, coroutines, tasks and counters by name. A program cannot
write a handle down; it can only take one out of a slot.
-/

namespace Fibers

/-- Where an action gets a payload from. -/
inductive Source
  | scalar (value : Scalar)
  | slot (name : String) (keep : Bool)

/-- What an action delivers to a fiber. -/
inductive Delivery
  | value (source : Source)
  | error (failure : Failure)

def Delivery.unit : Delivery := .value (.scalar .unit)

/-- What a panic carries. -/
inductive Panic
  | text (message : String)
  | other
deriving DecidableEq

namespace Panic

def message : Panic → String
  | .text message => message
  | .other => "non-string panic payload"

def datum : Panic → Datum
  | .text message => .text message
  | .other => .record [("payload", .text "other")]

end Panic

/-- What an await does with an error. -/
inductive OnError
  | raise
  | catches
  | explain (context : String)

/-- How work on another thread ends. -/
inductive BlockingOutcome
  | done (value : Int)
  | failed (failure : Failure)
  | panicked

/-- How the future of a host call ends. -/
inductive CallOutcome
  | done (delivery : Delivery)
  /-- It panics when it is polled. -/
  | panicked

instance : Coe Delivery CallOutcome := ⟨.done⟩

inductive Action
  | log (value : Datum)
  /-- Holds a value until the list of actions ends. -/
  | guard (value : Datum)
  | enqueue (scheduler : Nat) (body : List Action)
  | enqueueNamed (scheduler : Nat) (task : String)
  | run (scheduler : Nat) (max : Option Nat) (raises : Bool)
  | await (type : PayloadType) (slot : Option String) (register : List Action)
      (onError : OnError) (keepIn : Option String)
  | resume (scheduler : Nat) (slot : String) (keep : Bool) (delivery : Delivery) (raises : Bool)
  | handle (slot : String)
  | clone (slot target : String)
  | drop (slot : String)
  | state
  | dropScheduler (scheduler : Nat)
  | fail (failure : Failure)
  | panic (panic : Panic)
  | again (times : Nat) (body : List Action)
  /-- Runs the body as long as the counter is above zero. -/
  | countdown (counter : String) (body : List Action)
  | scope (body : List Action) (catches : Bool)
  | suspend (slot : String) (keep : Bool) (raises : Bool)
  | newHandle (slot : String) (id : FiberId)
  | park (slot : String) (keep : Bool) (coroutine : String) (owner : Nat)
  | wake (slot : String) (keep : Bool) (coroutine : String) (owner : Nat) (delivery : Delivery)
  | newCoroutine (coroutine : String) (id : FiberId) (stackSize : Nat) (body : List Action)
  | transfer (coroutine : String) (delivery : Delivery) (slot : Option String)
  | coroutineInfo (coroutine : String)
  | takeStack (coroutine : String)
  | dropCoroutine (coroutine : String)
  | newDriver (scheduler : Nat)
  | drive (scheduler : Nat)
  | driverState (scheduler : Nat)
  | inFlight (scheduler : Nat)
  | sleep (scheduler : Nat) (milliseconds : Nat) (onError : OnError)
  | call (scheduler : Nat) (type : PayloadType) (outcome : CallOutcome) (wait : Option String)
      (onError : OnError) (keepIn : Option String)
  | blocking (scheduler : Nat) (outcome : BlockingOutcome) (onError : OnError)
  | awaitAll (scheduler : Nat) (onError : OnError)
  | signal (semaphore : String) (permits : Nat)
  | unknown (name : String)
  /-- Runs a foreign action as long as its scheduler exists. -/
  | foreign (scheduler : Nat) (action : Action)
  | foreignRun (scheduler : Nat) (max : Option Nat)
  | pending (scheduler : Nat)
  | foreignAwait (slot : String) (register : List Action)
  | foreignResume (scheduler : Nat) (slot : Option String) (keep : Bool) (value : Nat)
  /-- The message is a sequence of bytes, or absent. -/
  | foreignError (scheduler : Nat) (slot : Option String) (keep : Bool)
      (message : Option (List UInt8))
  | directResume (scheduler : Nat) (slot : Option String) (keep : Bool) (delivery : Delivery)
  | handleText (slot : String)
  | destroyHandle (slot : Option String) (keep : Bool)
  | destroyScheduler (scheduler : Nat)
  | lastError
deriving Inhabited

namespace Action

/-- The name under which an action reports. -/
def name : Action → String
  | .log _ => "log"
  | .guard _ => "guard"
  | .enqueue .. => "enqueue"
  | .enqueueNamed .. => "enqueue"
  | .run .. => "run"
  | .await .. => "await"
  | .resume .. => "resume"
  | .handle _ => "handle"
  | .clone .. => "clone"
  | .drop _ => "drop"
  | .state => "state"
  | .dropScheduler _ => "drop_sched"
  | .fail _ => "fail"
  | .panic _ => "panic"
  | .again .. => "repeat"
  | .countdown .. => "left"
  | .scope .. => "scope"
  | .suspend .. => "suspend"
  | .newHandle .. => "handle_new"
  | .park .. => "park"
  | .wake .. => "wake"
  | .newCoroutine .. => "co_new"
  | .transfer .. => "co_transfer"
  | .coroutineInfo _ => "co_info"
  | .takeStack _ => "co_stack"
  | .dropCoroutine _ => "co_drop"
  | .newDriver _ => "host_new"
  | .drive _ => "host_run"
  | .driverState _ => "host_state"
  | .inFlight _ => "in_flight"
  | .sleep .. => "sleep"
  | .call .. => "call"
  | .blocking .. => "blocking"
  | .awaitAll .. => "await_all"
  | .signal .. => "signal"
  | .unknown name => name
  | .foreign _ action => action.name
  | .foreignRun .. => "run"
  | .pending _ => "pending"
  | .foreignAwait .. => "await"
  | .foreignResume .. => "resume"
  | .foreignError .. => "resume_error"
  | .directResume .. => "rust_resume"
  | .handleText _ => "handle"
  | .destroyHandle .. => "handle_destroy"
  | .destroyScheduler _ => "sched_destroy"
  | .lastError => "last_error"

end Action

end Fibers
