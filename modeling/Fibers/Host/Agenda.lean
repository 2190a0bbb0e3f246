import Fibers.Handle.Table
import Fibers.Names

/-!
Host work: the calls that fibers wait for while a driver runs. Calls that can
go on stand in a queue and have their turns in order. A call waits for a
permit of a semaphore, for the clock, or for nothing. The clock is virtual: it
stands still while any call is ready and then jumps to the next timer.

This is one order in which a host may serve its calls. In a session the host may
also rearrange them as it likes between any two steps, so that calls complete in
any order; `World.Stirs` says what it leaves alone.
-/

namespace Fibers

/-- How the future of a call ends. -/
inductive Ending
  /-- The fiber that waits for it is resumed with the outcome. -/
  | done (outcome : Resumption)
  /-- It panics when it is polled, and is dropped. -/
  | panicked

def Ending.debris : Ending → List Debris
  | .done outcome => outcome.debris
  | .panicked => []

/-- What is left of a call. -/
inductive Work
  | sleep (milliseconds : Nat)
  | asleep
  /-- Needs a permit of the semaphore, if one is named. -/
  | answer (wait : Option String) (ending : Ending)
  | queued (semaphore : String) (ending : Ending)
  | granted (semaphore : String) (ending : Ending)

def Work.ending : Work → Ending
  | .sleep _ => .done .unit
  | .asleep => .done .unit
  | .answer _ ending => ending
  | .queued _ ending => ending
  | .granted _ ending => ending

inductive CallState
  /-- The call holds the handle of the fiber that waits for it. -/
  | holding (handle : HandleRef) (work : Work)
  /-- The outcome is being handed over. -/
  | handing

structure HostCall where
  /-- Calls are numbered in the order in which they are issued. -/
  key : Nat
  /-- The driver through which the call was issued. -/
  driver : DriverId
  state : CallState

def HostCall.debris (call : HostCall) : List Debris :=
  match call.state with
  | .holding handle work => .handle handle :: work.ending.debris
  | .handing => []

structure Semaphore where
  permits : Nat
  /-- The calls that wait, the one that came first in front. -/
  waiters : List Nat

def Semaphore.new : Semaphore := ⟨0, []⟩

structure Timer where
  deadline : Nat
  call : Nat

/-- The work of one run of a driver. -/
structure Agenda where
  now : Nat
  /-- The calls that are alive, in the order in which they were issued. -/
  calls : List HostCall
  ready : List Nat
  /-- By deadline; of one deadline, by the order in which the sleeps began. -/
  timers : List Timer

namespace Agenda

def empty : Agenda := ⟨0, [], [], []⟩

def find? (agenda : Agenda) (key : Nat) : Option HostCall :=
  agenda.calls.find? fun call => call.key = key

/-- A new call goes to the back of the ready queue. -/
def spawn (agenda : Agenda) (call : HostCall) : Agenda :=
  { agenda with calls := agenda.calls ++ [call], ready := agenda.ready ++ [call.key] }

def setState (agenda : Agenda) (key : Nat) (state : CallState) : Agenda :=
  { agenda with
    calls := agenda.calls.map fun call => if call.key = key then { call with state } else call }

def setWork (agenda : Agenda) (key : Nat) (work : Work) : Agenda :=
  { agenda with
    calls := agenda.calls.map fun call =>
      match call.state with
      | .holding handle _ =>
        if call.key = key then { call with state := .holding handle work } else call
      | .handing => call }

def remove (agenda : Agenda) (key : Nat) : Agenda :=
  { agenda with calls := agenda.calls.filter fun call => call.key ≠ key }

def wake (agenda : Agenda) (key : Nat) : Agenda :=
  { agenda with ready := agenda.ready ++ [key] }

/-- A later deadline stands behind; an equal one too. -/
def insertTimer (timer : Timer) : List Timer → List Timer
  | [] => [timer]
  | first :: rest =>
    if timer.deadline < first.deadline then timer :: first :: rest
    else first :: insertTimer timer rest

def sleep (agenda : Agenda) (key milliseconds : Nat) : Agenda :=
  { agenda.setWork key .asleep with
    timers := insertTimer ⟨agenda.now + milliseconds, key⟩ agenda.timers }

/-- Moves the clock to the next timer and wakes all calls that are due. -/
def elapse? (agenda : Agenda) : Option Agenda :=
  match agenda.timers with
  | [] => none
  | first :: _ =>
    let due := agenda.timers.takeWhile fun timer => timer.deadline ≤ first.deadline
    some { agenda with
      now := first.deadline
      ready := agenda.ready ++ due.map Timer.call
      timers := agenda.timers.drop due.length }

end Agenda

/-- A driver feeds one scheduler with the outcomes of host calls. -/
structure Driver where
  scheduler : SchedulerId
  /-- The calls issued through the driver that are alive. -/
  inFlight : Nat
  /-- The handles of fibers that wait for all calls, the first in front. -/
  waiting : List HandleRef
  /-- A call has ended since the driver looked last. -/
  notified : Bool

def Driver.new (scheduler : SchedulerId) : Driver := ⟨scheduler, 0, [], false⟩

end Fibers
