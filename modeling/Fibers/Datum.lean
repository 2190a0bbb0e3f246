/-!
Plain data: what a program logs, what its guards carry, and what a report is
made of. Numbers are integers of any size.
-/

namespace Fibers

inductive Datum
  | null
  | bool (value : Bool)
  | int (value : Int)
  | text (value : String)
  | list (items : List Datum)
  | record (fields : List (String × Datum))
deriving Inhabited

namespace Datum

def nat (n : Nat) : Datum := .int (Int.ofNat n)

/-- Nothing is shown as null. -/
def ofOption {α : Type} (f : α → Datum) : Option α → Datum
  | none => .null
  | some a => f a

end Datum

end Fibers
