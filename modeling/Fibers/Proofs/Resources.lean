import Fibers.Fiber

/-!
What programs name: schedulers by position, handles by slot, counters, coroutines and tasks
by name. An action may also use the host, report on schedulers, or touch the last error of
the foreign side.
-/

namespace Fibers

inductive Resource
  | position (n : Nat)
  | slot (name : String)
  | counter (name : String)
  | coroutine (name : String)
  | task (name : String)
  /-- The drivers and their work. -/
  | host
  /-- The state of schedulers, as a report shows it. -/
  | report
  /-- The last error of the foreign side is set. -/
  | failing
  /-- The last error is shown as some earlier call left it. -/
  | lastError
deriving DecidableEq

def Resource.slots (slot : Option String) : List Resource := slot.toList.map .slot

open Resource (slots)

def Source.names : Source → List Resource
  | .scalar _ => []
  | .slot name _ => [.slot name]

def Delivery.names : Delivery → List Resource
  | .value source => source.names
  | .error _ => []

def CallOutcome.names : CallOutcome → List Resource
  | .done delivery => delivery.names
  | .panicked => []

/-- An await of the foreign side sets the last error where it fails and shows it where it
comes back with null. -/
def AwaitKind.names : AwaitKind → List Resource
  | .plain => []
  | .foreign => [.failing, .lastError]
  | .sleep .. | .call _ | .blocking _ | .all _ => [.host]

def AwaitPlan.names (plan : AwaitPlan) : List Resource := plan.kind.names ++ slots plan.keepIn

def Reply.names : Reply → List Resource
  | .foreignRun | .foreignResume _ => [.failing]
  | .run _ | .resume _ | .directResume => []

namespace Action

/-- What an action names itself; code that it brings may name more. -/
def names : Action → List Resource
  | .log _ | .guard _ | .fail _ | .panic _ | .again .. | .scope .. | .unknown _ => []
  | .enqueue position _ | .run position .. | .dropScheduler position | .foreign position _
  | .pending position
  | .destroyScheduler position => [.position position]
  | .enqueueNamed position task => [.position position, .task task]
  | .await _ slot _ _ keepIn => slots slot ++ slots keepIn
  | .resume position slot _ delivery _ => .position position :: .slot slot :: delivery.names
  | .handle slot | .drop slot | .suspend slot .. | .newHandle slot _ | .handleText
    slot => [.slot slot]
  | .clone slot target => [.slot slot, .slot target]
  | .state => [.report]
  | .countdown counter _ => [.counter counter]
  | .park slot _ coroutine _ => [.slot slot, .coroutine coroutine]
  | .wake slot _ coroutine _ delivery => .slot slot :: .coroutine coroutine :: delivery.names
  | .newCoroutine coroutine .. | .coroutineInfo coroutine | .takeStack coroutine
  | .dropCoroutine coroutine =>
    [.coroutine coroutine]
  | .transfer coroutine delivery slot => .coroutine coroutine :: (delivery.names ++ slots slot)
  | .newDriver position | .drive position | .inFlight position | .sleep position ..
  | .blocking position ..
  | .awaitAll position _ => [.position position, .host]
  | .driverState position => [.position position, .host, .report]
  | .call position _ outcome _ _ keepIn =>
    .position position :: .host :: (outcome.names ++ slots keepIn)
  | .signal .. => [.host]
  | .foreignRun position _ => [.position position, .failing]
  | .foreignAwait slot _ => [.slot slot, .failing, .lastError]
  | .foreignResume position slot .. | .foreignError position slot .. =>
    .position position :: .failing :: slots slot
  | .directResume position slot _ delivery => .position position :: (delivery.names ++ slots slot)
  | .destroyHandle slot _ => slots slot
  | .lastError => [.lastError]

/-- An action that brings no code along. -/
def isPlain : Action → Bool
  | .enqueue .. | .await .. | .again .. | .countdown .. | .scope .. | .newCoroutine .. | .foreign ..
  | .foreignAwait .. => false
  | _ => true

end Action

mutual

/-- All that an action names, with the code that it brings. -/
def Action.resources : Action → List Resource
  | .enqueue position body => (Action.enqueue position body).names ++ codeResources body
  | .await type slot register onError keepIn =>
    (Action.await type slot register onError keepIn).names ++ codeResources register
  | .again times body => (Action.again times body).names ++ codeResources body
  | .countdown counter body => (Action.countdown counter body).names ++ codeResources body
  | .scope body catches => (Action.scope body catches).names ++ codeResources body
  | .newCoroutine coroutine id stackSize body =>
    (Action.newCoroutine coroutine id stackSize body).names ++ codeResources body
  | .foreign position action => (Action.foreign position action).names ++ action.resources
  | .foreignAwait slot register => (Action.foreignAwait slot register).names ++
    codeResources register
  | action => action.names

def Action.codeResources : List Action → List Resource
  | [] => []
  | action :: rest => action.resources ++ codeResources rest

end

end Fibers
