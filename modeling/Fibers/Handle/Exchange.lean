import Fibers.World

/-!
Parking and waking through a handle. Both take one clone of the handle and
release it when they are done, also when they are refused; a refused wake
releases what it was to deliver first.
-/

namespace Fibers.World

/-- Parks a fiber in a handle. A fiber that cannot stay there is handed back
with what it is to be resumed with: the resumption that had arrived, or an
error if the handle was used before. -/
def park (w : World) (handle : HandleRef) (fiber : Fiber) (owner : Owner) :
    Option (Fiber × Resumption) × World :=
  match w.handles.get? handle with
  | none => (none, w)
  | some cell =>
    match cell.slot.park fiber owner with
    | (.absorbed, slot) =>
      let w := if cell.clones ≤ 1 then w.tell (.unheld cell.id) else w
      (none, (w.setSlot handle slot).release [.handle handle])
    | (.met fiber resumption, slot) =>
      (some (fiber, resumption), (w.setSlot handle slot).release [.handle handle])
    | (.refused fiber, _) =>
      (some (fiber, .error (.ofFault (.notSuspended fiber.id))),
        (w.tell (.usedHandle fiber.id)).release [.handle handle])

/-- Delivers a resumption to a handle. The fiber that is parked there comes
out with it; if it has yet to park, the resumption stays. -/
def wake (w : World) (handle : HandleRef) (owner : Owner) (resumption : Resumption) :
    Except SchedulerFault (Option (Fiber × Resumption)) × World :=
  match w.handles.get? handle with
  | none => (.ok none, w)
  | some cell =>
    match cell.slot.wake owner resumption with
    | (.met fiber resumption, slot) =>
      (.ok (some (fiber, resumption)),
        ((w.setSlot handle slot).mark (.accepted handle resumption)).release [.handle handle])
    | (.stored, slot) =>
      (.ok none,
        ((w.setSlot handle slot).mark (.accepted handle resumption)).release [.handle handle])
    | (.foreign, _) =>
      (.error (.foreignHandle cell.id), w.release (resumption.debris ++ [.handle handle]))
    | (.notSuspended, _) =>
      (.error (.notSuspended cell.id), w.release (resumption.debris ++ [.handle handle]))

end Fibers.World
