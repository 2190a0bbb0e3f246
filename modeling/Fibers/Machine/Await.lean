import Fibers.Machine.Dispatch

/-!
Awaits. An await gives a clone of a new handle to its register function, then
suspends with its own clone, and later comes back with exactly what was
delivered to the handle: a value of the wanted type, an error about a value of
another type, or the delivered error itself.
-/

namespace Fibers.Machine

/-- A null result of the foreign side, with the last error. -/
def foreignNull (w : World) : Datum :=
  .record [("value", .int 0), ("last_error", w.lastErrorDatum)]

/-- An await comes back with an error. -/
def failAwait (m : Machine) (plan : AwaitPlan) (failure : Failure) : Machine :=
  match plan.kind, plan.onError with
  | .foreign, _ =>
    let w := m.world.foreignFailed "await" failure
    ((m.withWorld w).emit "got" (foreignNull w)).advance
  | _, .raise => m.withControl (.raise failure)
  | _, .catches => (m.emit "caught" failure.datum).advance
  | _, .explain context => m.withControl (.raise (failure.explain context))

/-- A pointer comes back to the foreign side; zero is null. -/
def yieldPointer (m : Machine) (value : Nat) : Machine :=
  let w := m.world.foreignReturned "await"
  let shown := if value = 0 then foreignNull w else .record [("value", .nat value)]
  ((m.withWorld w).emit "got" shown).advance

/-- An await comes back with a value of the type that it wants. A handle is
shown as it was before it is kept or released. -/
def yieldAwait (m : Machine) (plan : AwaitPlan) (payload : Payload) : Machine :=
  match payload with
  | .handle handle =>
    let text := m.world.describe handle
    ((m.withWorld (m.world.storeOrRelease plan.keepIn handle)).emit "got" (.text text)).advance
  | .scalar value =>
    match plan.kind, value with
    | .foreign, .pointer value => m.yieldPointer value
    | .sleep _ _, _ => (m.emit "got" (.text "slept")).advance
    | .all _, _ => (m.emit "got" (.text "settled")).advance
    | _, _ => (m.emit "got" value.datum).advance

/-- A fiber that awaited is resumed. A value of another type is released
before the await fails. -/
def concludeAwait (m : Machine) (handle : HandleRef) (plan : AwaitPlan)
    (resumption : Resumption) : Machine :=
  let m := m.withWorld (m.world.mark (.awaited handle resumption))
  match resumption with
  | .error failure => m.failAwait plan failure
  | .value payload =>
    if payload.type = plan.expects then m.yieldAwait plan payload
    else
      (m.withWorld (m.world.release payload.debris)).failAwait plan
        (.ofFault (.unexpectedValue plan.expects.name))

/-- Suspends the current fiber on its await. -/
def suspendAwait (m : Machine) (handle : HandleRef) (plan : AwaitPlan) : Machine :=
  (m.push (.awaiting handle plan)).suspend handle

/-- The handle of an await, with its clones. -/
def openAwait (w : World) (current : FiberId) (plan : AwaitPlan) (clones : Nat) :
    HandleRef × World :=
  let (handle, w) := w.makeHandle current clones
  (handle, w.mark (.opened handle plan))

/-- An await whose register function shows the handle, keeps it in a slot or
releases it, and then runs a list of actions. -/
def await (m : Machine) (plan : AwaitPlan) (slot : Option String) (register : List Action) :
    Machine :=
  match m.world.currentId with
  | none => m.failAwait plan (.ofFault .notInFiber)
  | some current =>
    let (handle, w) := openAwait m.world current plan 2
    let w := w.emit "register" (.text (w.describe handle))
    let m := m.withWorld (w.storeOrRelease slot handle)
    ((m.push (.registering handle plan)).push (.actions register [])).advance

/-- The register function of a foreign await stores the handle, which is the
foreign side's from then on, and runs a list of actions. -/
def foreignAwait (m : Machine) (slot : String) (register : List Action) : Machine :=
  match m.world.currentId with
  | none => m.failAwait .foreign (.ofFault .notInFiber)
  | some current =>
    let (handle, w) := openAwait m.world current .foreign (m.world.hoarded + 2)
    let m := m.withWorld (w.entrust slot handle)
    ((m.push (.registering handle .foreign)).push (.actions register [])).advance

/-- The register function is done. Its error is shown and otherwise ignored;
its panic goes on through the await. -/
def registered (m : Machine) (own : HandleRef) (plan : AwaitPlan) : Option Machine :=
  match m.control with
  | .advance => some (m.suspendAwait own plan)
  | .raise failure => some ((m.emit "register failed" failure.datum).suspendAwait own plan)
  | .panicking _ => some (m.withWorld (m.world.release [.handle own]))
  | _ => none

/-- Suspends the current fiber on a handle. Outside fibers the handle is
released. -/
def suspendOn (m : Machine) (handle : HandleRef) (raises : Bool) : Machine :=
  if m.world.current.isSome then (m.push (.suspending raises)).suspend handle
  else
    let m := m.withWorld (m.world.release [.handle handle])
    (m.emit "resumed" (Failure.ofFault .notInFiber).datum).advance

/-- A fiber that suspended on a handle is resumed. -/
def concludeSuspend (m : Machine) (raises : Bool) (resumption : Resumption) : Machine :=
  let m := m.emit "resumed" (.text resumption.describe)
  match resumption with
  | .value payload => (m.withWorld (m.world.release payload.debris)).advance
  | .error failure => m.withControl (if raises then .raise failure else .advance)

end Fibers.Machine
