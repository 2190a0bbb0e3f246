import Fibers.Machine.Coroutine
import Fibers.Machine.Foreign
import Fibers.Machine.Hosting

/-!
The steps of the machine. An action starts with control going on and leaves
the machine either at the next frame or inside something that it started; a
frame whose turn comes reacts to the control value. The machine rests when the
root has no frames left. Each step is a total function, so a run is determined
by the program.
-/

namespace Fibers.Machine

/-- Reports the outcome of a call on a scheduler, which the call then lets go. -/
def reportCall (m : Machine) (s : SchedulerId) (reply : Reply)
    (result : Except SchedulerFault Nat) :
    Machine :=
  let m := m.advance
  let m :=
    match reply, result with
    | .run true, .error fault => m.withControl (.raise (.ofFault fault))
    | .run false, .error fault => m.emit "run" (Failure.ofFault fault).datum
    | .run true, .ok _ => m
    | .run false, .ok ran => m.emit "run" (.nat ran)
    | .resume true, .error fault => m.withControl (.raise (.ofFault fault))
    | .resume false, .error fault => m.emit "resume" (Failure.ofFault fault).datum
    | .resume true, .ok _ => m
    | .resume false, .ok _ => m.emit "resume" (.text "ok")
    | .foreignRun, result => m.foreignAnswer "run" result
    | .foreignResume name, .ok _ => m.foreignOk name 0
    | .foreignResume name, result => m.foreignAnswer name result
    | .directResume, .ok _ => m.emit "rust_resume" (.text "ok")
    | .directResume, .error fault =>
      m.emit "rust_resume" (.record [("error", .text fault.message)])
  m.withWorld (m.world.disown s)

/-- Uses the scheduler at a position. -/
def withScheduler (m : Machine) (name : String) (position : Nat)
    (use : SchedulerId → Machine) : Machine :=
  match m.world.schedulerAt position with
  | none => m.lacking name
  | some s => use s

/-- Uses the driver at a position. -/
def withDriver (m : Machine) (name : String) (position : Nat) (use : DriverId → Machine) :
    Machine :=
  match m.world.driverAt position with
  | none => m.lacking name
  | some d => use d

def enqueue (m : Machine) (position : Nat) (body : List Action) : Machine :=
  m.withScheduler "enqueue" position fun s =>
    let (id, w) := m.world.enqueue s body
    (m.withWorld w).emit "enqueue" (.nat id.number)

/-- The body of a named task; a name without a task stands for nothing to do. -/
def taskBody (m : Machine) (name : String) : List Action := (m.world.tasks.get? name).getD []

def runLoop (m : Machine) (position : Nat) (max : Option Nat) (reply : Reply) : Machine :=
  m.withScheduler "run" position fun s =>
    ((m.withWorld (m.world.own s)).push (.answering s reply)).run s max

def resume (m : Machine) (position : Nat) (slot : String) (keep : Bool) (delivery : Delivery)
    (raises : Bool) : Machine :=
  m.withScheduler "resume" position fun s =>
    match m.world.takeHandle? slot keep with
    | none => m.lacking "resume"
    | some (handle, w) =>
      (m.withWorld w).withResumption "resume" delivery [.handle handle] fun m resumption =>
        ((m.withWorld (m.world.own s)).push (.answering s (.resume raises))).deliver s
        handle resumption

def showHandle (m : Machine) (slot : String) : Machine :=
  match m.world.slots.get? slot with
  | none => m.lacking "handle"
  | some handle =>
    let id := m.world.handleId handle
    let parked := (m.world.handles.get? handle).elim false fun cell => cell.slot.isParked
    m.emit "handle"
      (.list [.nat id.number, .bool parked, .text (m.world.describe handle), .text id.label])

def cloneHandle (m : Machine) (slot target : String) : Machine :=
  match m.world.takeHandle? slot true with
  | none => m.lacking "clone"
  | some (handle, w) => m.withWorld (w.store target handle)

def dropHandle (m : Machine) (slot : String) : Machine :=
  match m.world.takeHandle? slot false with
  | none => m.lacking "drop"
  | some (handle, w) => (m.withWorld (w.release [.handle handle])).emit "dropped" (.text slot)

def dropScheduler (m : Machine) (position : Nat) : Machine :=
  m.withScheduler "drop_sched" position fun s =>
    (m.withWorld ((m.world.setScheduler position none).disown s)).emit "drop_sched" (.nat position)

def destroyScheduler (m : Machine) (position : Nat) : Machine :=
  m.withScheduler "sched_destroy" position fun s =>
    (m.withWorld ((m.world.setScheduler position none).disown s)).emit "sched_destroy" .null

def countdown (m : Machine) (counter : String) (body : List Action) : Machine :=
  match m.world.counters.get? counter with
  | none => m
  | some 0 => m
  | some (n + 1) =>
    (m.withWorld { m.world with counters := m.world.counters.insert counter n }).push
    (.actions body [])

def suspendOnSlot (m : Machine) (slot : String) (keep raises : Bool) : Machine :=
  match m.world.takeHandle? slot keep with
  | none => m.lacking "suspend"
  | some (handle, w) => (m.withWorld w).suspendOn handle raises

def newHandle (m : Machine) (slot : String) (id : FiberId) : Machine :=
  let (handle, w) := m.world.makeHandle id 1
  m.withWorld (w.store slot handle)

def driverState (m : Machine) (position : Nat) : Machine :=
  m.withDriver "host_state" position fun d =>
    let driver := m.world.driver? d
    let item := (driver.bind fun driver => m.world.scheduler? driver.scheduler).elim .null
      fun scheduler => scheduler.datum m.world.current.isSome
    m.emit "host_state" (.list [.nat (m.world.inFlight d), item])

/-- Work on another thread resumes its fiber with a number or an error. -/
def blockingOutcome : BlockingOutcome → Resumption
  | .done value => .value (.scalar (.number .i64 value))
  | .failed failure => .error failure
  | .panicked => .error ⟨.join, []⟩

/-- Performs one action. Guards are held by the list that the action stands in
and are handled there. -/
def perform (m : Machine) (action : Action) : Machine :=
  match action with
  | .log value => m.emit "log" value
  | .guard _ => m
  | .enqueue position body => m.enqueue position body
  | .enqueueNamed position task => m.enqueue position (m.taskBody task)
  | .run position max raises => m.runLoop position max (.run raises)
  | .await type slot register onError keepIn =>
    m.await ⟨.plain, type, onError, keepIn⟩ slot register
  | .resume position slot keep delivery raises => m.resume position slot keep delivery raises
  | .handle slot => m.showHandle slot
  | .clone slot target => m.cloneHandle slot target
  | .drop slot => m.dropHandle slot
  | .state => m.emit "state" m.world.rootState
  | .dropScheduler position => m.dropScheduler position
  | .fail failure => m.withControl (.raise failure)
  | .panic panic => m.withControl (.panicking panic)
  | .again times body => m.push (.again times body)
  | .countdown counter body => m.countdown counter body
  | .scope body true => (m.push .catching).push (.actions body [])
  | .scope body false => m.push (.actions body [])
  | .suspend slot keep raises => m.suspendOnSlot slot keep raises
  | .newHandle slot id => m.newHandle slot id
  | .park slot keep coroutine owner => m.park slot keep coroutine owner
  | .wake slot keep coroutine owner delivery => m.wake slot keep coroutine owner delivery
  | .newCoroutine coroutine id stackSize body => m.newCoroutine coroutine id stackSize body
  | .transfer coroutine delivery slot => m.transfer coroutine delivery slot
  | .coroutineInfo coroutine => m.coroutineInfo coroutine
  | .takeStack coroutine => m.takeStack coroutine
  | .dropCoroutine coroutine => m.dropCoroutine coroutine
  | .newDriver position => m.newDriver position
  | .drive position => m.withDriver "host_run" position m.drive
  | .driverState position => m.driverState position
  | .inFlight position =>
    m.withDriver "in_flight" position fun d => m.emit "in_flight" (.nat (m.world.inFlight d))
  | .sleep position milliseconds onError =>
    m.withDriver "sleep" position fun d =>
      m.issue d (.sleep milliseconds) ⟨.sleep d milliseconds, .unit, onError, none⟩
  | .call position type outcome wait onError keepIn =>
    m.withDriver "call" position fun d =>
      m.withEnding "call" outcome fun m ending =>
        m.issue d (.answer wait ending) ⟨.call d, type, onError, keepIn⟩
  | .blocking position outcome onError =>
    m.withDriver "blocking" position fun d =>
      m.issue d (.answer none (.done (blockingOutcome outcome)))
        ⟨.blocking d, .number .i64, onError, none⟩
  | .awaitAll position onError =>
    m.withDriver "await_all" position fun d => m.awaitAll d ⟨.all d, .unit, onError, none⟩
  | .signal semaphore permits => m.withWorld (m.world.signal semaphore permits)
  | .unknown name => m.emit "unknown" (.text name)
  | .foreign position action =>
    match m.world.schedulerAt position with
    | none => m.emit action.name (.text "gone")
    | some _ => m.perform action
  | .foreignRun position max => m.runLoop position max .foreignRun
  | .pending position =>
    m.withScheduler "pending" position fun s => m.emit "pending" (.nat (m.world.queue s).length)
  | .foreignAwait slot register => m.foreignAwait slot register
  | .foreignResume position slot keep value =>
    m.withScheduler "resume" position fun s =>
      m.foreignResume "resume" s slot keep (.value (.scalar (.pointer value)))
  | .foreignError position slot keep message =>
    m.withScheduler "resume_error" position fun s =>
      m.foreignResume "resume_error" s slot keep (.error (foreignError message))
  | .directResume position slot keep delivery =>
    m.withScheduler "rust_resume" position fun s =>
      m.withResumption "rust_resume" delivery [] fun m resumption =>
        m.directResume s slot keep resumption
  | .handleText slot => m.handleText slot
  | .destroyHandle slot keep => m.destroyHandle slot keep
  | .destroyScheduler position => m.destroyScheduler position
  | .lastError => m.emit "last_error" m.world.lastErrorDatum

/-- A frame, which was taken off its stack, reacts to control. -/
def react? (m : Machine) (frame : Frame) : Option Machine :=
  match frame, m.control with
  | .actions (.guard value :: todo) guards, .advance =>
    some (m.push (.actions todo (value :: guards)))
  | .actions (action :: todo) guards, .advance =>
    some ((m.push (.actions todo guards)).perform action)
  | .actions _ guards, .advance => some (m.withWorld (m.world.release (guards.map .guard)))
  | .actions _ guards, .raise _ => some (m.withWorld (m.world.release (guards.map .guard)))
  | .actions _ guards, .panicking _ => some (m.withWorld (m.world.release (guards.map .guard)))
  | .again 0 _, .advance => some m
  | .again (times + 1) body, .advance => some ((m.push (.again times body)).push (.actions body []))
  | .again .., .raise _ => some m
  | .again .., .panicking _ => some m
  | .catching, .advance => some m
  | .catching, .raise failure => some ((m.emit "caught" failure.datum).advance)
  | .catching, .panicking _ => some m
  | .registering own plan, _ => m.registered own plan
  | .awaiting handle plan, .resumed resumption => some (m.concludeAwait handle plan resumption)
  | .suspending raises, .resumed resumption => some (m.concludeSuspend raises resumption)
  | .transferring coroutine slot, .back fiber exit =>
    some (m.transferred coroutine slot fiber exit)
  | .dispatching s, .back fiber exit => some ((m.withWorld (m.world.receive s fiber exit)).advance)
  | .draining s ran max, .advance => some (m.drain s ran max)
  | .answering s reply, .answer result => some (m.reportCall s reply result)
  | .driving d phase, _ => m.stepDriver? d phase
  | .completing d key fiber, .answer result => some (m.completed d key fiber result)
  | _, _ => none

/-- The frame on top reacts, or a level without frames is left. Nothing is left to do when the
root has no frames. -/
def move? (m : Machine) : Option Machine :=
  match m.running with
  | [] =>
    match m.root with
    | [] => none
    | frame :: frames => { m with root := frames }.react? frame
  | running :: below =>
    match running.frames with
    | [] => (exit? m.control).map (m.leave running below)
    | frame :: frames =>
      { m with running := { running with frames } :: below }.react? frame

/-- The code is left of the suspended fibers that were unwound since the history was so long.
What was current outside of a fiber was taken when it was suspended, so nothing is current
afterwards if the fiber was. -/
def leaveUnwound (m : Machine) (length : Nat) : Machine :=
  bif (m.world.unwoundSince length).any (m.world.current = some ·) then
    m.withWorld { m.world with current := none }
  else m

/-- One step: a move, with which the code of the fibers is left that it unwinds. -/
def step? (m : Machine) : Option Machine :=
  m.move?.map fun next => next.leaveUnwound m.world.history.size

/-- Takes steps until the machine rests, at most as many as there is fuel. -/
def settle (m : Machine) : Nat → Machine
  | 0 => m
  | fuel + 1 =>
    match m.step? with
    | none => m
    | some next => next.settle fuel

end Fibers.Machine
