import Fibers.Machine.Await

/-!
Drivers. A driver drains its scheduler, lets host calls work as long as any of
its own is in flight, then resumes the fibers that wait for all of them, and
ends when nobody waits. Each call that completes resumes its fiber through the
driver it was issued through and counts as in flight until the run loop after
that is done. A call whose future panics resumes nobody; it gives up its handle
and is over then.
-/

namespace Fibers

namespace World

/-- How many turns ready calls have before a driver looks for a notification. -/
def turnsPerPoll : Nat := 61

/-- A call of a driver is over: finished, or dropped. -/
def callOver (w : World) (d : DriverId) : World :=
  w.updateDriver d fun driver =>
    { driver with inFlight := driver.inFlight - 1, notified := true }

/-- Drops a call that did not finish. It leaves the semaphore it waits at, or
gives its permit back. -/
def dropCall (w : World) (call : HostCall) : World :=
  let w :=
    match call.state with
    | .holding _ (.queued name _) =>
      let semaphore := w.semaphore name
      w.setSemaphore name
        { semaphore with waiters := semaphore.waiters.filter fun key => key ≠ call.key }
    | .holding _ (.granted name _) => w.signal name 1
    | _ => w
  (w.release call.debris).callOver call.driver

/-- Ends the work of a run: the calls that are left are dropped in the order
in which they were issued. -/
def closeAgenda (w : World) : World :=
  match w.agenda with
  | none => w
  | some agenda => { agenda.calls.foldl dropCall w with agenda := none }

end World

namespace Machine

/-- Issues a host call and suspends the fiber until it is over. Outside fibers
it is refused; in a fiber that no driver runs it panics. Both release what the
call would have held. -/
def issue (m : Machine) (d : DriverId) (work : Work) (plan : AwaitPlan) : Machine :=
  let w := m.world
  match w.currentId, w.agenda with
  | none, _ =>
    (m.withWorld (w.release work.ending.debris)).failAwait plan (.ofFault .notInFiber)
  | some current, none =>
    let (own, w) := openAwait w current plan 2
    let w := w.updateDriver d fun driver => { driver with notified := true }
    let w := w.release (.handle own :: (work.ending.debris ++ [.handle own]))
    (m.withWorld w).withControl (.panicking (.text
      "`spawn_local` called from outside of a `task::LocalSet` or `runtime::LocalRuntime`"))
  | some current, some _ =>
    let (own, w) := openAwait w current plan 2
    let call : HostCall := ⟨w.callsMade, d, .holding own work⟩
    let w := { w with callsMade := w.callsMade + 1 }
    let w := w.updateDriver d fun driver => { driver with inFlight := driver.inFlight + 1 }
    let w := w.updateAgenda fun agenda => agenda.spawn call
    (m.withWorld w).suspendAwait own plan

/-- Suspends the fiber until all calls of a driver are over. -/
def awaitAll (m : Machine) (d : DriverId) (plan : AwaitPlan) : Machine :=
  match m.world.currentId with
  | none => m.failAwait plan (.ofFault .notInFiber)
  | some current =>
    let (own, w) := openAwait m.world current plan 2
    let w := w.updateDriver d fun driver =>
      { driver with waiting := driver.waiting ++ [own] }
    (m.withWorld w).suspendAwait own plan

/-- Starts a driver's run. Inside a fiber the run loop is refused; inside
another run no driver can start. -/
def drive (m : Machine) (d : DriverId) : Machine :=
  match m.world.agenda with
  | some _ =>
    m.withControl
      (.panicking (.text ("Cannot start a runtime from within a runtime. This happens " ++
      "because a function (like `block_on`) attempted to block the current thread while the " ++
      "thread is being used to drive asynchronous tasks.")))
  | none =>
    match m.world.currentId with
    | some current => m.emit "host_run" (Failure.ofFault (.reentrant current)).datum
    | none =>
      let m := m.withWorld { m.world with agenda := some .empty }
      (m.push (.driving d .drain)).advance

/-- The future of a call ends: the fiber that waits is resumed, or, if the future panics, the
handle that it holds is dropped. -/
def endFuture (m : Machine) (s : SchedulerId) (handle : HandleRef) : Ending → Machine
  | .done outcome => m.deliver s handle outcome
  | .panicked => (m.withWorld (m.world.release [.handle handle])).withControl (.answer (.ok 0))

/-- A call comes to its end, through the scheduler of its driver. -/
def complete (m : Machine) (call : HostCall) (handle : HandleRef) (ending : Ending) : Machine :=
  match m.world.driver? call.driver with
  | none => m
  | some driver =>
    let fiber := m.world.handleId handle
    let m := m.withWorld (m.world.updateAgenda fun agenda => agenda.setState call.key .handing)
    (m.push (.completing call.driver call.key fiber)).endFuture driver.scheduler handle ending

/-- One turn of a ready call: it completes, or goes on waiting. -/
def turn (m : Machine) (call : HostCall) : Machine :=
  match call.state with
  | .handing => m
  | .holding handle work =>
    match work with
    | .sleep milliseconds =>
      if milliseconds = 0 then m.complete call handle (.done .unit)
      else m.withWorld (m.world.updateAgenda fun agenda => agenda.sleep call.key milliseconds)
    | .asleep => m.complete call handle (.done .unit)
    | .answer none ending => m.complete call handle ending
    | .answer (some name) ending =>
      let semaphore := m.world.semaphore name
      if 0 < semaphore.permits then
        let w := m.world.setSemaphore name { semaphore with permits := semaphore.permits - 1 }
        (m.withWorld w).complete call handle ending
      else
        let w := m.world.setSemaphore name
          { semaphore with waiters := semaphore.waiters ++ [call.key] }
        m.withWorld (w.updateAgenda fun agenda => agenda.setWork call.key (.queued name ending))
    | .queued _ _ => m
    | .granted _ ending => m.complete call handle ending

def endDrive (m : Machine) : Machine :=
  let w := (m.world.tell .driverIdle).closeAgenda
  ((m.withWorld w).emit "host_run" (.text "ok")).advance

/-- The run loop of a driver is done: as long as calls are in flight the
driver listens, else it resumes all who wait. -/
def drained (m : Machine) (d : DriverId) (driver : Driver) : Machine :=
  if 0 < driver.inFlight then (m.push (.driving d .listen)).advance
  else if driver.waiting.isEmpty then m.endDrive
  else
    let w := m.world.updateDriver d fun driver => { driver with waiting := [] }
    let m := m.withWorld (w.tell (.settled driver.waiting.length))
    (m.push (.driving d (.settle driver.waiting))).advance

/-- A driver looks for a notification. Without one the ready calls work, and
when none is ready the clock moves on. -/
def listen? (m : Machine) (d : DriverId) (driver : Driver) (agenda : Agenda) :
    Option Machine :=
  if driver.notified then
    let m := m.withWorld (m.world.updateDriver d fun driver => { driver with notified := false })
    some ((m.push (.driving d .drain)).advance)
  else if agenda.ready.isEmpty then
    agenda.elapse?.map fun agenda =>
      ((m.withWorld { m.world with agenda := some agenda }).push (.driving d .listen)).advance
  else some ((m.push (.driving d (.poll World.turnsPerPoll))).advance)

def poll (m : Machine) (d : DriverId) (turns : Nat) (agenda : Agenda) : Machine :=
  match turns, agenda.ready with
  | turns + 1, key :: rest =>
    let m := m.withWorld { m.world with agenda := some { agenda with ready := rest } }
    let m := (m.push (.driving d (.poll turns))).advance
    match agenda.find? key with
    | none => m
    | some call => m.turn call
  | _, _ => (m.push (.driving d .listen)).advance

/-- A step of a driver's loop. A driver that listens for calls none of which
can go on takes no step. -/
def stepDriver? (m : Machine) (d : DriverId) (phase : DriverPhase) : Option Machine :=
  match m.world.driver? d, m.world.agenda with
  | some driver, some agenda =>
    match phase, m.control with
    | .drain, .advance => some ((m.push (.driving d .drain)).run driver.scheduler none)
    | .drain, .answer (.ok _) => some (m.drained d driver)
    | .listen, .advance => m.listen? d driver agenda
    | .poll turns, .advance => some (m.poll d turns agenda)
    | .settle [], .advance => some ((m.push (.driving d .drain)).advance)
    | .settle (handle :: rest), .advance =>
      let m := m.push (.driving d (.resuming (m.world.handleId handle) rest))
      some (m.deliver driver.scheduler handle .unit)
    | .resuming fiber rest, .answer result =>
      let m :=
        match result with
        | .ok _ => m
        | .error fault => m.withWorld (m.world.tell (.waiterLost fiber fault.message))
      some ((m.push (.driving d (.settle rest))).advance)
    | _, _ => none
  | _, _ => none

/-- The outcome of a call has been handed over, and the run loop after it is
done; or its future has panicked. -/
def completed (m : Machine) (d : DriverId) (key : Nat) (fiber : FiberId)
    (result : Except SchedulerFault Nat) : Machine :=
  let w :=
    match result with
    | .ok _ => m.world
    | .error fault => m.world.tell (.callLost fiber fault.message)
  let w := w.updateAgenda fun agenda => agenda.remove key
  (m.withWorld (w.callOver d)).advance

/-- A position gets a new driver. The one that was there goes on with its run,
if it is in one, and fibers that wait for it go on waiting. -/
def newDriver (m : Machine) (position : Nat) : Machine :=
  match m.world.schedulerAt position with
  | none => m.lacking "host_new"
  | some s =>
    let w := m.world.own s
    let d : DriverId := ⟨w.drivers.length⟩
    m.withWorld { w with
      drivers := w.drivers ++ [Driver.new s]
      positions := w.positions.modify position fun p => { p with driver := some d } }

end Machine

end Fibers
