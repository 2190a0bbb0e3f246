import Fibers.World

/-!
The machine that runs programs. Control is at the root or inside a nest of
fibers; each of these levels has a stack of frames, and the top frame of the
innermost level takes the next step. What a frame is told is the control
value: to go on, that something was raised, what a fiber was resumed with, how
a transfer came back, or what a scheduler answered.
-/

namespace Fibers

inductive Control
  | advance
  | raise (failure : Failure)
  | panicking (panic : Panic)
  | resumed (resumption : Resumption)
  | back (fiber : Fiber) (exit : Exit)
  | answer (result : Except SchedulerFault Nat)

structure Machine where
  world : World
  /-- The fibers that control is inside of, the innermost first. -/
  running : List Running
  root : List Frame
  control : Control

namespace Machine

def push (m : Machine) (frame : Frame) : Machine :=
  match m.running with
  | [] => { m with root := frame :: m.root }
  | running :: below =>
    { m with running := { running with frames := frame :: running.frames } :: below }

def withWorld (m : Machine) (w : World) : Machine := { m with world := w }

def emit (m : Machine) (name : String) (payload : Datum) : Machine :=
  m.withWorld (m.world.emit name payload)

/-- Something an action needs does not exist. -/
def lacking (m : Machine) (name : String) : Machine := m.emit name (.text "none")

def withControl (m : Machine) (control : Control) : Machine := { m with control }

def advance (m : Machine) : Machine := m.withControl .advance

end Machine

end Fibers
