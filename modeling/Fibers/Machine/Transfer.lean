import Fibers.Machine

/-!
Transfers of control into fibers and out of them. Entering a fiber makes it
the current one and remembers what was current before; whichever way control
leaves the fiber, that is current again.
-/

namespace Fibers.Machine

/-- Enters a fiber with some frames. -/
def occupy (m : Machine) (fiber : Fiber) (first : Payload) (frames : List Frame)
    (control : Control) : Machine :=
  let running : Running :=
    { serial := fiber.serial, id := fiber.id, home := fiber.home, stack := fiber.stack
      outer := m.world.current, first, frames }
  { m with
    world := { m.world with current := some running.current }
    running := running :: m.running
    control }

/-- Transfers control into a fiber. The first transfer starts the body, unless
it brings an error, which ends the fiber at once; the value it brings is kept
and not looked at. A finished fiber cannot be entered. -/
def enter (m : Machine) (fiber : Fiber) (resumption : Resumption) : Machine :=
  match fiber.state with
  | .unstarted body =>
    match resumption with
    | .value first => m.occupy fiber first [.actions body []] .advance
    | .error failure => m.occupy fiber .unit [] (.raise failure)
  | .suspended frames first => m.occupy fiber first frames (.resumed resumption)
  | .finished =>
    let m := m.withWorld (m.world.release resumption.debris)
    m.withControl (.back fiber (.panicked (.text "attempt to resume a completed coroutine")))

/-- Suspends the innermost fiber and hands its handle to whoever entered it. -/
def suspend (m : Machine) (handle : HandleRef) : Machine :=
  match m.running with
  | [] => m
  | running :: below =>
    let fiber := running.leave (.suspended running.frames running.first)
    { m with
      world := { m.world with current := running.outer }
      running := below
      control := .back fiber (.suspended handle) }

/-- Leaves a fiber whose last frame is gone. It stops being the current one
before the payload of its first transfer is released. -/
def leave (m : Machine) (running : Running) (below : List Running) (exit : Exit) : Machine :=
  let w := m.world.restore running.current running.outer
  let w := w.release running.first.debris
  let fiber := running.leave .finished
  { m with
    world := w.mark (.ended fiber exit)
    running := below
    control := .back fiber exit }

/-- How a fiber without frames ends. -/
def exit? : Control → Option Exit
  | .advance => some .completed
  | .raise failure => some (.failed failure)
  | .panicking panic => some (.panicked panic)
  | _ => none

end Fibers.Machine
