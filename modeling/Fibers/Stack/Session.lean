import Fibers.Event
import Fibers.Stack.Pool

/-!
Sessions with one pool: stacks are taken out of it, made beside it, given to
it and dropped. The session holds the stacks that are out.
-/

namespace Fibers

inductive PoolStep
  | get
  | put (label : Nat)
  /-- Makes a stack outside the pool. -/
  | make (size : Nat)
  | drop (label : Nat)

structure PoolSession where
  pool : StackPool
  held : List Stack
  stacksMade : Nat
  /-- How the system answers, by how many steps were made before. -/
  mappings : Nat → Mapping := fun _ => Mapping.bounded
  stepsMade : Nat := 0

namespace PoolSession

def new (config : PoolConfig) : PoolSession :=
  { pool := .empty config, held := [], stacksMade := 0 }

/-- How the system answers in the next step. -/
def mapping (session : PoolSession) : Mapping := session.mappings session.stepsMade

def stackDatum (stack : Stack) : Datum :=
  .record [("stack", .nat stack.label), ("size", .nat stack.size)]

def faultDatum (fault : IoFault) : Datum :=
  .record [("error", .text fault.kind.name), ("message", .text fault.message)]

def hold (session : PoolSession) (stack : Stack) : PoolSession :=
  { session with held := stack :: session.held }

def take? (session : PoolSession) (label : Nat) : Option (Stack × PoolSession) :=
  (session.held.find? fun stack => stack.label = label).map fun stack =>
    (stack, { session with held := session.held.filter fun stack => stack.label ≠ label })

/-- The answer to a step, the events it is told by, and the session after it. -/
def step (session : PoolSession) : PoolStep → Datum × List Event × PoolSession
  | .get =>
    let (supply, pool) := session.pool.get session.mapping session.stacksMade .direct
    let session := { session with pool }
    match supply with
    | .hit stack => (stackDatum stack, [.poolHit], session.hold stack)
    | .mapped stack =>
      (stackDatum stack, [.poolMiss pool.config.stackSize],
        { session with stacksMade := session.stacksMade + 1 }.hold stack)
    | .refused fault => (faultDatum fault, [.poolMiss pool.config.stackSize], session)
  | .put label =>
    match session.take? label with
    | none => (.text "not held", [], session)
    | some (stack, session) =>
      let full := session.pool.full
      (.record [("kept", .bool !full)], if full then [.poolFull stack.size] else [],
        { session with pool := session.pool.put stack })
  | .make size =>
    match Stack.make session.mapping pageSize session.stacksMade .direct size with
    | .ok stack =>
      (stackDatum stack, [], { session with stacksMade := session.stacksMade + 1 }.hold stack)
    | .error fault => (faultDatum fault, [], session)
  | .drop label =>
    match session.take? label with
    | none => (.bool false, [], session)
    | some (_, session) => (.bool true, [], session)

/-- One report for each step: its answer, the idle stacks after it, and the
events a listener hears. -/
def run (listener : Option Level) (session : PoolSession) : List PoolStep → List Datum
  | [] => []
  | step :: rest =>
    let (answer, events, session) := session.step step
    let idle := session.pool.idle
    let heard := events.filter fun event => event.level.heardAt listener
    .record [("r", answer), ("len", .nat idle.length), ("empty", .bool idle.isEmpty),
      ("log", .list (heard.map Event.datum))] ::
        run listener { session with stepsMade := session.stepsMade + 1 } rest

def report (listener : Option Level) (session : PoolSession) (steps : List PoolStep) : Datum :=
  .record [("steps", .list (session.run listener steps))]

end PoolSession

/-- What can be said of a single stack of the requested size: its usable part
is whole pages, lies on pages and can be written. -/
def Stack.inspect (request : Nat) : Datum :=
  match mapStack Mapping.bounded pageSize request with
  | .error fault => PoolSession.faultDatum fault
  | .ok size =>
    .record [("size", .nat size), ("page_multiple", .bool (size % pageSize == 0)),
      ("aligned", .bool true), ("writable", .bool true)]

end Fibers
