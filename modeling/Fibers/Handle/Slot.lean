/-!
The slot behind a handle, which brings a suspended fiber and its one
resumption together, whichever of the two arrives first. The slot is written
for any types of fibers, owners and resumptions. It moves only from pending
through woken or parked to spent; an operation that is refused leaves it as it
was.
-/

namespace Fibers

inductive Slot (φ ω ρ : Type)
  /-- Neither the fiber nor its resumption has arrived. -/
  | pending
  | woken (resumption : ρ)
  | parked (fiber : φ) (owner : ω)
  /-- Fiber and resumption have been handed out together. -/
  | spent

namespace Slot

variable {φ ω ρ : Type}

def name : Slot φ ω ρ → String
  | .pending => "pending"
  | .woken _ => "woken"
  | .parked .. => "parked"
  | .spent => "spent"

def isParked : Slot φ ω ρ → Bool
  | .parked .. => true
  | _ => false

/-- How a fiber fares that is to be parked. -/
inductive Parking (φ ρ : Type)
  | absorbed
  /-- Its resumption had arrived. -/
  | met (fiber : φ) (resumption : ρ)
  /-- The slot was used already. -/
  | refused (fiber : φ)

/-- Parks a fiber for an owner. -/
def park (fiber : φ) (owner : ω) : Slot φ ω ρ → Parking φ ρ × Slot φ ω ρ
  | .pending => (.absorbed, .parked fiber owner)
  | .woken resumption => (.met fiber resumption, .spent)
  | slot => (.refused fiber, slot)

/-- How a resumption fares. -/
inductive Waking (φ ρ : Type)
  | stored
  | met (fiber : φ) (resumption : ρ)
  /-- The fiber is parked for another owner. -/
  | foreign
  | notSuspended

/-- Delivers a resumption for an owner. -/
def wake [DecidableEq ω] (owner : ω) (resumption : ρ) :
    Slot φ ω ρ → Waking φ ρ × Slot φ ω ρ
  | .pending => (.stored, .woken resumption)
  | .parked fiber parkedFor =>
    if parkedFor = owner then (.met fiber resumption, .spent)
    else (.foreign, .parked fiber parkedFor)
  | slot => (.notSuspended, slot)

end Slot

end Fibers
