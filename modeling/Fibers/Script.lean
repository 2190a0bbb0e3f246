import Fibers.Machine.Step

/-!
Scripts: schedulers, named tasks, counters, and a list of root actions. Each
root action runs as a list of its own; what leaves it is shown, and the next
one goes on. At the end the names give up their handles and coroutines. A
report lists what happened in each step and the state after it.
-/

namespace Fibers

/-- How a position gets its scheduler. -/
inductive SchedulerChoice
  | own (config : PoolConfig)
  /-- The scheduler of the thread, one for all positions. -/
  | shared

structure Script where
  schedulers : List SchedulerChoice
  tasks : Names (List Action)
  counters : Names Nat
  steps : List Action
  /-- How many more clones of a handle the foreign side makes for good. -/
  hoarded : Nat := 0
  /-- How the system answers when it is asked to map a stack, by how much has happened. -/
  mappings : Nat → Mapping := fun _ => Mapping.bounded

structure StepReport where
  out : List Datum
  state : Datum

structure Report where
  steps : List StepReport
  /-- What giving up the names brought, if they were given up. -/
  ending : Option (List Datum)

namespace World

def initial (tasks : Names (List Action)) (counters : Names Nat) (hoarded : Nat)
    (mappings : Nat → Mapping) : World :=
  { schedulers := [], positions := [], drivers := [], handles := .empty, slots := .empty
    coroutines := .empty, tasks, counters, semaphores := .empty, agenda := none
    retained := [], hoarded, lastError := none, current := none, mappings, stacksMapped := 0
    fibersMade := 0, callsMade := 0, history := #[] }

/-- The scheduler of the thread, if a position has it already. The thread
itself is one of its owners. -/
def addPosition (w : World) (shared : Option SchedulerId) :
    SchedulerChoice → Option SchedulerId × World
  | .own config =>
    let s : SchedulerId := ⟨w.schedulers.length⟩
    (shared, { w with
      schedulers := w.schedulers ++ [.new config 1]
      positions := w.positions ++ [⟨some s, none⟩] })
  | .shared =>
    match shared with
    | some s => (some s, { w.own s with positions := w.positions ++ [⟨some s, none⟩] })
    | none =>
      let s : SchedulerId := ⟨w.schedulers.length⟩
      (some s, { w with
        schedulers := w.schedulers ++ [.new .standard 2]
        positions := w.positions ++ [⟨some s, none⟩] })

def addPositions (w : World) (shared : Option SchedulerId) : List SchedulerChoice → World
  | [] => w
  | choice :: rest =>
    let (shared, w) := w.addPosition shared choice
    w.addPositions shared rest

/-- The names give up what they own: handles first, then coroutines. -/
def close (w : World) : World :=
  let handles := w.slots.values.map Debris.handle
  let w := { w with slots := .empty }.release handles
  let fibers := w.coroutines.values.flatMap Fiber.debris
  { w with coroutines := .empty }.release fibers

end World

/-- A happening as a listener hears it. -/
def Happening.datum? (listener : Option Level) : Happening → Option Datum
  | .entry current name payload =>
    some (.list [.ofOption (fun id => .nat id.number) current, .text name, payload])
  | .event told => if told.level.heardAt listener then some told.datum else none
  | .mark _ => none

namespace Script

/-- The happenings after the first `start`, as a listener hears them. -/
def heard (listener : Option Level) (start : Nat) (w : World) : List Datum :=
  (w.history.toList.drop start).filterMap (Happening.datum? listener)

def start (script : Script) : World :=
  (World.initial script.tasks script.counters script.hoarded script.mappings).addPositions none
    script.schedulers

/-- Shows what leaves a root action. -/
def showOutcome (m : Machine) : World :=
  match m.control with
  | .raise failure => m.world.emit "raised" failure.datum
  | .panicking panic => m.world.emit "panicked" panic.datum
  | _ => m.world

/-- A root action as a list of its own. -/
def begin (w : World) (action : Action) : Machine :=
  { world := w, running := [], root := [.actions [action] []], control := .advance }

/-- Runs one root action to its end. -/
def runStep (fuel : Nat) (w : World) (action : Action) : World :=
  showOutcome ((begin w action).settle fuel)

/-- Runs root actions one after the other; gives the reports and the world
after them. -/
def runSteps (fuel : Nat) (listener : Option Level) (view : World → Datum) (w : World) :
    List Action → List StepReport × World
  | [] => ([], w)
  | action :: rest =>
    let after := runStep fuel w action
    let report : StepReport := ⟨heard listener w.history.size after, view after⟩
    let (reports, last) := runSteps fuel listener view after rest
    (report :: reports, last)

/-- More steps than any run takes. -/
def enough : Nat := Nat.pow 2 62

def run (script : Script) (listener : Option Level) : Report :=
  let (steps, w) := runSteps enough listener World.rootState script.start script.steps
  ⟨steps, some (heard listener w.history.size w.close)⟩

/-- Runs a script of foreign calls, with a clone of every handle that lasts.
Their states show less, and nothing is given up at the end. -/
def runForeign (script : Script) (listener : Option Level) : Report :=
  let view := fun w : World => w.state Scheduler.foreignDatum
  let start := { script with hoarded := 1 }.start
  ⟨(runSteps enough listener view start script.steps).1, none⟩

end Script

def StepReport.datum (report : StepReport) : Datum :=
  .record [("out", .list report.out), ("st", report.state)]

def Report.datum (report : Report) : Datum :=
  let steps := ("steps", Datum.list (report.steps.map StepReport.datum))
  match report.ending with
  | none => .record [steps]
  | some ending => .record [steps, ("end", .list ending)]

end Fibers
