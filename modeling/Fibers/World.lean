import Fibers.Event
import Fibers.Host.Agenda
import Fibers.Scheduler
import Fibers.Text.Lossy

/-!
Everything that fibers and the root share: schedulers, handles, names, drivers,
the current fiber, and the history of what happened. Whatever a place owns is
given back through `World.release`, which unwinds fibers that lose their last
owner and records what their guards show. The code of these fibers is left at the
end of the step (`Machine.leaveUnwound`).
-/

namespace Fibers

/-- Steps of a run that are no output of their own; statements about whole
runs refer to them. -/
inductive Mark
  /-- An entry was put at the back of a queue. -/
  | appended (scheduler : SchedulerId) (entry : Runnable)
  /-- An entry was taken from the front of a queue, or a resumption at the root
  ran its fiber at once. -/
  | dispatched (scheduler : SchedulerId) (entry : Runnable)
  /-- A task got no stack. -/
  | unstarted (scheduler : SchedulerId) (id : FiberId)
  | ended (fiber : Fiber) (exit : Exit)
  /-- A suspended fiber lost its last owner and was unwound. -/
  | discarded (serial : Nat) (id : FiberId) (home : Option SchedulerId)
  /-- A task was queued when its scheduler went. -/
  | vanished (scheduler : SchedulerId) (id : FiberId)
  /-- An await made its handle. -/
  | opened (handle : HandleRef) (plan : AwaitPlan)
  /-- A resumption was accepted for a handle. -/
  | accepted (handle : HandleRef) (resumption : Resumption)
  /-- The await on a handle came to its resumption. -/
  | awaited (handle : HandleRef) (resumption : Resumption)
  /-- A foreign call came back, with its failure if it failed. -/
  | returned (name : String) (failure : Option Failure)

inductive Happening
  | entry (current : Option FiberId) (name : String) (payload : Datum)
  | event (event : Event)
  | mark (mark : Mark)

/-- One of the positions by which programs refer to schedulers and drivers. -/
structure Position where
  scheduler : Option SchedulerId
  driver : Option DriverId

structure World where
  schedulers : List Scheduler
  positions : List Position
  /-- All drivers that were ever made; none of them goes. -/
  drivers : List Driver
  handles : HandleTable
  /-- Each name owns a clone of its handle. -/
  slots : Names HandleRef
  coroutines : Names Fiber
  tasks : Names (List Action)
  counters : Names Nat
  semaphores : Names Semaphore
  /-- The work of the driver that runs, if one does. -/
  agenda : Option Agenda
  /-- Clones that the foreign side never gives back. -/
  retained : List HandleRef
  /-- How many more clones of a handle the foreign side makes for good. -/
  hoarded : Nat
  /-- The text of the foreign call that failed last. -/
  lastError : Option String
  current : Option Current
  /-- How the system answers when it is asked to map a stack, by how much has happened. -/
  mappings : Nat → Mapping
  stacksMapped : Nat
  fibersMade : Nat
  callsMade : Nat
  history : Array Happening

namespace World

/-- How the system answers now. -/
def mapping (w : World) : Mapping := w.mappings w.history.size

def currentId (w : World) : Option FiberId := w.current.map Current.id

def emit (w : World) (name : String) (payload : Datum) : World :=
  { w with history := w.history.push (.entry w.currentId name payload) }

def tell (w : World) (event : Event) : World :=
  { w with history := w.history.push (.event event) }

def mark (w : World) (mark : Mark) : World :=
  { w with history := w.history.push (.mark mark) }

/-- The code of a fiber is left for good: if the fiber is the current one, what was current
outside of it is current again. -/
def restore (w : World) (fiber : Current) (outer : Option Current) : World :=
  { w with current := if w.current = some fiber then outer else w.current }

/-- The suspended fibers that were unwound since the history was so long. -/
def unwoundSince (w : World) (length : Nat) : List Current :=
  (w.history.toList.drop length).filterMap fun
    | .mark (.discarded serial id _) => some ⟨serial, id⟩
    | _ => none

/-- What a report shows of a relic: a guard is shown under the fiber that is
current where it is dropped. -/
def note (w : World) : Relic → World
  | .dropped value => w.emit "drop" value
  | .discarded serial id home => w.mark (.discarded serial id home)
  | .vanished scheduler id => w.mark (.vanished scheduler id)

def release (w : World) (work : List Debris) : World :=
  let (handles, relics) := w.handles.release work
  relics.foldl note { w with handles }

/-! ### Handles and slots -/

def makeHandle (w : World) (id : FiberId) (clones : Nat) : HandleRef × World :=
  (w.handles.next, { w with handles := w.handles.make id clones })

def retain (w : World) (handle : HandleRef) : World :=
  { w with handles := w.handles.retain handle }

def setSlot (w : World) (handle : HandleRef) (slot : Slot Fiber Owner Resumption) : World :=
  { w with handles := w.handles.setSlot handle slot }

/-- Puts a handle under a name; the one that was there is released afterwards. -/
def store (w : World) (name : String) (handle : HandleRef) : World :=
  let old := w.slots.get? name
  let w := { w with slots := w.slots.insert name handle }
  match old with
  | none => w
  | some handle => w.release [.handle handle]

/-- Puts a handle under a name, if there is one, and releases it otherwise. -/
def storeOrRelease (w : World) (name : Option String) (handle : HandleRef) : World :=
  match name with
  | none => w.release [.handle handle]
  | some name => w.store name handle

/-- The foreign side puts a handle under a name. It gets a pointer, so the handle that was
there is not released: nothing gives it back anymore. -/
def entrust (w : World) (name : String) (handle : HandleRef) : World :=
  { w with
    slots := w.slots.insert name handle
    retained := (w.slots.get? name).toList ++ .replicate w.hoarded handle ++ w.retained }

/-- Takes a handle out of its slot, or a clone of it. -/
def takeHandle? (w : World) (name : String) (keep : Bool) : Option (HandleRef × World) :=
  (w.slots.get? name).map fun handle =>
    if keep then (handle, w.retain handle)
    else (handle, { w with slots := w.slots.erase name })

/-- A handle as it is shown, with the state of its slot. -/
def describe (w : World) (handle : HandleRef) : String :=
  match w.handles.get? handle with
  | none => ""
  | some cell =>
    "FiberHandle \x7b id: " ++ cell.id.describe ++ ", state: \"" ++ cell.slot.name ++ "\" \x7d"

def handleId (w : World) (handle : HandleRef) : FiberId :=
  match w.handles.get? handle with
  | none => ⟨0⟩
  | some cell => cell.id

/-- The payload that a source stands for; none if its slot is empty. -/
def payload? (w : World) : Source → Option (Payload × World)
  | .scalar value => some (.scalar value, w)
  | .slot name keep => (w.takeHandle? name keep).map fun (handle, w) => (.handle handle, w)

def resumption? (w : World) : Delivery → Option (Resumption × World)
  | .value source => (w.payload? source).map fun (payload, w) => (.value payload, w)
  | .error failure => some (.error failure, w)

/-! ### Coroutines by name -/

/-- Puts a fiber under a name; the one that was there is released afterwards. -/
def bind (w : World) (name : String) (fiber : Fiber) : World :=
  let old := w.coroutines.get? name
  let w := { w with coroutines := w.coroutines.insert name fiber }
  match old with
  | none => w
  | some fiber => w.release fiber.debris

def takeCoroutine? (w : World) (name : String) : Option (Fiber × World) :=
  (w.coroutines.get? name).map fun fiber =>
    (fiber, { w with coroutines := w.coroutines.erase name })

/-! ### Schedulers -/

/-- The scheduler at a position, as long as the position has not given it up. -/
def schedulerAt (w : World) (position : Nat) : Option SchedulerId :=
  (w.positions[position]?).bind Position.scheduler

def scheduler? (w : World) (s : SchedulerId) : Option Scheduler := w.schedulers[s.index]?

def updateScheduler (w : World) (s : SchedulerId) (f : Scheduler → Scheduler) : World :=
  { w with schedulers := w.schedulers.modify s.index f }

def queue (w : World) (s : SchedulerId) : List Runnable :=
  match w.scheduler? s with
  | none => []
  | some scheduler => scheduler.queue

def append (w : World) (s : SchedulerId) (entry : Runnable) : World :=
  (w.updateScheduler s fun scheduler => scheduler.append entry).mark (.appended s entry)

def own (w : World) (s : SchedulerId) : World :=
  w.updateScheduler s fun scheduler => { scheduler with owners := scheduler.owners + 1 }

/-- Gives up one owner. With the last one the queue is released, front to
back; tasks that never started vanish. -/
def disown (w : World) (s : SchedulerId) : World :=
  match w.scheduler? s with
  | none => w
  | some scheduler =>
    if scheduler.owners ≤ 1 then
      let w := w.updateScheduler s fun scheduler => { scheduler with owners := 0, queue := [] }
      w.release (scheduler.queue.flatMap (Runnable.debris s))
    else
      w.updateScheduler s fun scheduler => { scheduler with owners := scheduler.owners - 1 }

def setScheduler (w : World) (position : Nat) (scheduler : Option SchedulerId) : World :=
  { w with positions := w.positions.modify position fun p => { p with scheduler } }

/-- One item for each position; null once it has given its scheduler up. -/
def state (w : World) (view : Scheduler → Datum) : Datum :=
  .list (w.positions.map fun position =>
    match position.scheduler.bind w.scheduler? with
    | none => .null
    | some scheduler => view scheduler)

def rootState (w : World) : Datum :=
  w.state fun scheduler => scheduler.datum w.current.isSome

/-! ### Drivers -/

/-- The driver at a position. -/
def driverAt (w : World) (position : Nat) : Option DriverId :=
  (w.positions[position]?).bind Position.driver

def driver? (w : World) (d : DriverId) : Option Driver := w.drivers[d.index]?

def updateDriver (w : World) (d : DriverId) (f : Driver → Driver) : World :=
  { w with drivers := w.drivers.modify d.index f }

/-- How many calls of a driver are alive. -/
def inFlight (w : World) (d : DriverId) : Nat := (w.driver? d).elim 0 Driver.inFlight

def updateAgenda (w : World) (f : Agenda → Agenda) : World :=
  { w with agenda := w.agenda.map f }

def setSemaphore (w : World) (name : String) (semaphore : Semaphore) : World :=
  { w with semaphores := w.semaphores.insert name semaphore }

def semaphore (w : World) (name : String) : Semaphore :=
  (w.semaphores.get? name).getD .new

/-- A call that waited for a permit gets one and becomes ready. -/
def grant (w : World) (name : String) (key : Nat) : World :=
  w.updateAgenda fun agenda =>
    match (agenda.find? key).map HostCall.state with
    | some (.holding _ (.queued _ ending)) => (agenda.setWork key (.granted name ending)).wake key
    | _ => agenda

/-- Permits go to the calls that have waited longest; the others stay for
later. -/
def signal (w : World) (name : String) (permits : Nat) : World :=
  let semaphore := w.semaphore name
  let lucky := semaphore.waiters.take permits
  let w := w.setSemaphore name
    ⟨semaphore.permits + (permits - lucky.length), semaphore.waiters.drop permits⟩
  lucky.foldl (fun w key => w.grant name key) w

/-! ### Foreign errors -/

def foreignReturned (w : World) (name : String) : World := w.mark (.returned name none)

/-- A foreign call fails, and its text becomes the last error. -/
def foreignFailed (w : World) (name : String) (failure : Failure) : World :=
  { w with lastError := some (Text.withoutNul failure.oneLine) }.mark
    (.returned name (some failure))

def lastErrorDatum (w : World) : Datum := .ofOption .text w.lastError

end World

end Fibers
