import Fibers.Ident
import Fibers.Datum

/-!
Failures that travel through a program. A failure has a cause and the contexts
that callers put around it; the cause stays recognisable under any contexts.
A failure is written in two ways: on one line, outermost text first, or as its
outermost text followed by a list of causes.
-/

namespace Fibers

/-- The kinds of input and output faults that can be told apart. -/
inductive IoKind
  | timedOut
  | invalidInput
  | outOfMemory
deriving DecidableEq

def IoKind.name : IoKind → String
  | .timedOut => "TimedOut"
  | .invalidInput => "InvalidInput"
  | .outOfMemory => "OutOfMemory"

structure IoFault where
  kind : IoKind
  message : String
deriving DecidableEq

/-- What the scheduler itself refuses or cannot do. -/
inductive SchedulerFault
  | notInFiber
  | reentrant (current : FiberId)
  | notSuspended (fiber : FiberId)
  | foreignHandle (fiber : FiberId)
  | unexpectedValue (expected : String)
  | stack (fault : IoFault)
deriving DecidableEq

namespace SchedulerFault

def kind : SchedulerFault → String
  | .notInFiber => "NotInFiber"
  | .reentrant _ => "Reentrant"
  | .notSuspended _ => "NotSuspended"
  | .foreignHandle _ => "ForeignHandle"
  | .unexpectedValue _ => "UnexpectedValue"
  | .stack _ => "Stack"

def message : SchedulerFault → String
  | .notInFiber => "not running inside a scheduled fiber"
  | .reentrant current => "the run loop cannot be driven from inside " ++ current.label
  | .notSuspended fiber => fiber.label ++ " is not suspended awaiting a host call"
  | .foreignHandle fiber => fiber.label ++ " is parked on another scheduler"
  | .unexpectedValue expected =>
    "fiber was resumed with a value that is not a `" ++ expected ++ "`"
  | .stack _ => "failed to allocate a fiber stack"

end SchedulerFault

inductive Cause
  | scheduler (fault : SchedulerFault)
  | boom
  | io (fault : IoFault)
  | message (text : String)
  /-- Work on another thread panicked. -/
  | join
deriving DecidableEq

namespace Cause

def kind : Cause → String
  | .scheduler fault => fault.kind
  | .boom => "Boom"
  | .io fault => "Io(" ++ fault.kind.name ++ ")"
  | .message _ => "Message"
  | .join => "Join"

/-- The texts of a cause; a fault of stack allocation has one of its own below. -/
def chain : Cause → List String
  | .scheduler (.stack fault) => [(SchedulerFault.stack fault).message, fault.message]
  | .scheduler fault => [fault.message]
  | .boom => ["boom"]
  | .io fault => [fault.message]
  | .message text => [text]
  | .join => ["task panicked"]

theorem chain_ne_nil (cause : Cause) : cause.chain ≠ [] := by
  unfold chain
  split <;> simp

end Cause

structure Failure where
  cause : Cause
  /-- The contexts around the cause, outermost first. -/
  contexts : List String
deriving DecidableEq

namespace Failure

def ofFault (fault : SchedulerFault) : Failure := ⟨.scheduler fault, []⟩

def ofMessage (text : String) : Failure := ⟨.message text, []⟩

/-- Puts a context around everything that is there. -/
def explain (failure : Failure) (context : String) : Failure :=
  { failure with contexts := context :: failure.contexts }

/-- All texts of a failure, outermost first. -/
def chain (failure : Failure) : List String := failure.contexts ++ failure.cause.chain

/-- The whole chain on one line. -/
def oneLine (failure : Failure) : String := ": ".intercalate failure.chain

/-- The lines after the first stand below the text of the first. -/
def indented (first rest : String) (text : String) : String :=
  first ++ ("\n" ++ rest).intercalate (text.splitOn "\n")

/-- A number in five columns, to the right. -/
def numbered (n : Nat) : String :=
  let digits := toString n
  String.ofList (List.replicate (5 - digits.length) ' ') ++ digits ++ ": "

def listed : Nat → List String → List String
  | _, [] => []
  | n, text :: rest => indented (numbered n) "       " text :: listed (n + 1) rest

def causes : List String → List String
  | [only] => [indented "    " "    " only]
  | texts => listed 0 texts

/-- The outermost text and, below it, the causes: a single one is indented,
several are numbered from zero. -/
def detailed (failure : Failure) : String :=
  match failure.chain with
  | [] => ""
  | [only] => only
  | outermost :: below =>
    outermost ++ "\n\nCaused by:\n" ++ "\n".intercalate (causes below)

/-- A panic on another thread has no text of its own. -/
def datum (failure : Failure) : Datum :=
  match failure.cause with
  | .join => .record [("error", .text "Join"), ("panic", .bool true)]
  | cause => .record [("error", .text cause.kind), ("message", .text failure.oneLine)]

theorem chain_explain (failure : Failure) (context : String) :
    (failure.explain context).chain = context :: failure.chain := rfl

theorem chain_ne_nil (failure : Failure) : failure.chain ≠ [] := by
  simp [chain, failure.cause.chain_ne_nil]

end Failure

end Fibers
