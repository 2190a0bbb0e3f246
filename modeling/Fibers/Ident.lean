/-!
Identities of fibers, handles, schedulers and drivers, and the texts that show a
fiber. A fiber's number is chosen by whoever makes the fiber, so two fibers may
share one; the others are numbered by the tables that hold them.
-/

namespace Fibers

structure FiberId where
  number : Nat
deriving DecidableEq, Inhabited

/-- The name of a fiber in messages. -/
def FiberId.label (id : FiberId) : String := "fiber#" ++ toString id.number

/-- The name of a fiber in descriptions of handles and coroutines. -/
def FiberId.describe (id : FiberId) : String := "FiberId(" ++ toString id.number ++ ")"

/-- The position of a handle in the table of handles. -/
structure HandleRef where
  index : Nat
deriving DecidableEq, Inhabited

/-- Schedulers are numbered from zero in the order in which they are made. -/
structure SchedulerId where
  index : Nat
deriving DecidableEq, Inhabited

/-- Drivers are numbered from zero in the order in which they are made. -/
structure DriverId where
  index : Nat
deriving DecidableEq, Inhabited

/-- On whose behalf a fiber is parked: a scheduler, or a caller who parks by
hand under a number of its own. The two never coincide. -/
inductive Owner
  | scheduler (s : SchedulerId)
  | caller (number : Nat)
deriving DecidableEq

end Fibers
