import Fibers.Ident
import Fibers.Datum

/-!
What is told about a run while it goes on. Events have a level, and a listener
hears the events of its own level and of the graver ones.
-/

namespace Fibers

inductive Level
  | error
  | warn
  | debug
  | trace
deriving DecidableEq

namespace Level

def name : Level → String
  | .error => "error"
  | .warn => "warn"
  | .debug => "debug"
  | .trace => "trace"

/-- Graver levels come first. -/
def rank : Level → Nat
  | .error => 1
  | .warn => 2
  | .debug => 3
  | .trace => 4

/-- A listener without a level hears nothing. -/
def heardAt (level : Level) : Option Level → Bool
  | none => false
  | some listener => level.rank ≤ listener.rank

end Level

structure Event where
  level : Level
  message : String
  fields : List (String × Datum)

namespace Event

/-- An event about one fiber. -/
def about (level : Level) (message : String) (fiber : FiberId) : Event :=
  ⟨level, message, [("fiber", .text fiber.label)]⟩

def enqueued (fiber : FiberId) (queued : Nat) : Event :=
  ⟨.debug, "task enqueued", [("fiber", .text fiber.label), ("queued", .nat queued)]⟩

def resumedEarly (fiber : FiberId) : Event := about .debug "resumed before suspending" fiber

def rejected (fiber : FiberId) (reason : String) : Event :=
  about .warn ("rejected resume: " ++ reason) fiber

def queuedInside (fiber : FiberId) : Event :=
  about .debug "resumed from inside a fiber; queued" fiber

def resuming (fiber : FiberId) : Event := about .debug "resuming" fiber

def noStack (fiber : FiberId) (reason : String) : Event := about .error reason fiber

def suspended (fiber : FiberId) : Event := about .debug "suspended awaiting host" fiber

def unheld (fiber : FiberId) : Event :=
  about .warn "no host holds the handle of a suspended fiber; discarding it" fiber

def usedHandle (fiber : FiberId) : Event :=
  about .warn "suspended on a handle that was already used" fiber

def finished (fiber : FiberId) : Event := about .debug "task finished" fiber

def failed (fiber : FiberId) (reason : String) : Event :=
  about .warn ("task failed: " ++ reason) fiber

def panicked (fiber : FiberId) (reason : String) : Event :=
  about .error ("Error in coroutine: " ++ reason) fiber

def poolHit : Event := ⟨.trace, "stack pool hit", []⟩

def poolMiss (size : Nat) : Event := ⟨.trace, "stack pool miss", [("size", .nat size)]⟩

def poolFull (size : Nat) : Event :=
  ⟨.trace, "stack pool full; releasing stack", [("size", .nat size)]⟩

def settled (fibers : Nat) : Event :=
  ⟨.debug, "host work settled; resuming waiters", [("fibers", .nat fibers)]⟩

def waiterLost (fiber : FiberId) (reason : String) : Event :=
  about .warn ("could not resume waiter: " ++ reason) fiber

def driverIdle : Event := ⟨.debug, "host driver idle", []⟩

def callLost (fiber : FiberId) (reason : String) : Event :=
  about .warn ("host call finished but its fiber could not be resumed: " ++ reason) fiber

def destroyed (fiber : FiberId) : Event :=
  about .warn "handle destroyed without resuming" fiber

def datum (event : Event) : Datum :=
  .list [.text event.level.name, .text event.message, .record event.fields]

end Event

end Fibers
