import Fibers.Machine.Dispatch

/-!
Fibers that are driven by hand: made, transferred into, parked and woken
without a scheduler. While a fiber is transferred into, its name is free.
-/

namespace Fibers.Machine

def newCoroutine (m : Machine) (name : String) (id : FiberId) (stackSize : Nat)
    (body : List Action) : Machine :=
  match Stack.make m.world.mapping pageSize m.world.stacksMapped .direct stackSize with
  | .error fault => m.emit "co_new" (Failure.mk (.io fault) []).datum
  | .ok stack =>
    let w := { m.world with stacksMapped := m.world.stacksMapped + 1 }
    let (fiber, w) := w.makeFiber id none stack body
    m.withWorld ((w.emit "co_new" (.text fiber.describe)).bind name fiber)

/-- Something an action needs does not exist; what it had taken is released
after it has said so. -/
def lose (m : Machine) (name : String) (taken : List Debris) : Machine :=
  let m := m.lacking name
  m.withWorld (m.world.release taken)

/-- What a delivery brings, under the action's name; its source may be a slot
that is empty. -/
def withResumption (m : Machine) (name : String) (delivery : Delivery) (taken : List Debris)
    (use : Machine → Resumption → Machine) : Machine :=
  match m.world.resumption? delivery with
  | none => m.lose name taken
  | some (resumption, w) => use (m.withWorld w) resumption

/-- How the future of a call is going to end. -/
def withEnding (m : Machine) (name : String) (outcome : CallOutcome)
    (use : Machine → Ending → Machine) :
    Machine :=
  match outcome with
  | .done delivery => m.withResumption name delivery [] fun m resumption => use m (.done resumption)
  | .panicked => use m .panicked

def transfer (m : Machine) (name : String) (delivery : Delivery) (slot : Option String) :
    Machine :=
  match m.world.takeCoroutine? name with
  | none => m.lacking "co_transfer"
  | some (fiber, w) =>
    (m.withWorld w).withResumption "co_transfer" delivery fiber.debris fun m resumption =>
      (m.push (.transferring name slot)).enter fiber resumption

/-- A fiber comes back to whoever transferred into it by hand. -/
def transferred (m : Machine) (name : String) (slot : Option String) (fiber : Fiber)
    (exit : Exit) : Machine :=
  let m := m.withWorld (m.world.bind name fiber)
  let m :=
    match exit with
    | .suspended handle =>
      let m := m.emit "co_transfer" (.list [.text "suspended", .text (m.world.describe handle)])
      m.withWorld (m.world.storeOrRelease slot handle)
    | .completed => m.emit "co_transfer" (.list [.text "completed"])
    | .failed failure => m.emit "co_transfer" (.list [.text "failed", failure.datum])
    | .panicked panic => m.emit "co_transfer" (.list [.text "panicked", panic.datum])
  m.advance

def coroutineInfo (m : Machine) (name : String) : Machine :=
  match m.world.coroutines.get? name with
  | none => m.lacking "co_info"
  | some fiber =>
    m.emit "co_info" (.list [.nat fiber.id.number, .bool fiber.isFinished, .text fiber.describe])

/-- Takes the stack of a finished fiber. A suspended one is unwound instead,
and one that never started has no stack to give. -/
def takeStack (m : Machine) (name : String) : Machine :=
  match m.world.takeCoroutine? name with
  | none => m.lacking "co_stack"
  | some (fiber, w) =>
    match fiber.state with
    | .suspended .. => (m.withWorld (w.release fiber.debris)).emit "co_stack" .null
    | .finished => (m.withWorld w).emit "co_stack" (.nat fiber.stack.size)
    | .unstarted _ =>
      (m.withWorld w).withControl
      (.panicking (.text "cannot extract stack from an incomplete coroutine"))

def dropCoroutine (m : Machine) (name : String) : Machine :=
  match m.world.takeCoroutine? name with
  | none => m.lacking "co_drop"
  | some (fiber, w) => (m.withWorld (w.release fiber.debris)).emit "co_drop" .null

/-- Shows a fiber that came out of a handle with its resumption, which is then
released; the fiber gets a name. -/
def handOut (m : Machine) (action name : String) (fiber : Fiber) (resumption : Resumption) :
    Machine :=
  let m := m.emit action (.list [.text fiber.describe, .text resumption.describe])
  m.withWorld ((m.world.bind name fiber).release resumption.debris)

/-- Shows how a coroutine that was to be parked fared. -/
def parkedByHand (m : Machine) (name : String) :
    Option (Fiber × Resumption) × World → Machine
  | (none, w) => (m.withWorld w).emit "park" (.text "parked")
  | (some (fiber, resumption), w) => (m.withWorld w).handOut "park" name fiber resumption

/-- Shows how a resumption fared that was to wake a coroutine. -/
def wokenByHand (m : Machine) (name : String) :
    Except SchedulerFault (Option (Fiber × Resumption)) × World → Machine
  | (.ok none, w) => (m.withWorld w).emit "wake" (.text "stored")
  | (.ok (some (fiber, resumption)), w) => (m.withWorld w).handOut "wake" name fiber resumption
  | (.error fault, w) => (m.withWorld w).emit "wake" (Failure.ofFault fault).datum

/-- A coroutine that finds no handle to park in is lost. -/
def park (m : Machine) (slot : String) (keep : Bool) (name : String) (owner : Nat) : Machine :=
  match m.world.takeCoroutine? name with
  | none => m.lacking "park"
  | some (fiber, w) =>
    match w.takeHandle? slot keep with
    | none => (m.withWorld w).lose "park" fiber.debris
    | some (handle, w) =>
      (m.withWorld w).parkedByHand name (w.park handle fiber (.caller owner))

def wake (m : Machine) (slot : String) (keep : Bool) (name : String) (owner : Nat)
    (delivery : Delivery) : Machine :=
  match m.world.takeHandle? slot keep with
  | none => m.lacking "wake"
  | some (handle, w) =>
    (m.withWorld w).withResumption "wake" delivery [.handle handle] fun m resumption =>
      m.wokenByHand name (m.world.wake handle (.caller owner) resumption)

end Fibers.Machine
