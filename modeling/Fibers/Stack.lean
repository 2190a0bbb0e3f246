import Fibers.Stack.Size
import Fibers.Failure

/-!
Stacks. A stack is not made for two reasons: its size is refused, or the system
does not map it. The first depends on the size alone; for the second the system
is asked.
-/

namespace Fibers

/-- The bytes in a page. -/
def pageSize : Nat := 4096

/-- The system is asked to map so many bytes, and to guard the page at their low
end. It answers with an error if one of the two fails. -/
abbrev Mapping := Nat → Option IoFault

/-- Who had a stack mapped. -/
inductive StackSource
  | scheduler (s : SchedulerId)
  | direct
deriving DecidableEq

structure Stack where
  /-- Stacks are numbered in the order in which they are mapped. -/
  label : Nat
  /-- The usable bytes, guard page excluded. -/
  size : Nat
  source : StackSource
deriving DecidableEq

def IoFault.stackTooLarge (request : Nat) : IoFault :=
  ⟨.invalidInput, "stack size " ++ toString request ++ " is too large"⟩

def IoFault.noMemory : IoFault :=
  ⟨.outOfMemory, "Cannot allocate memory (os error 12)"⟩

/-- No mapping is as long as this. -/
def addressSpace : Nat := Nat.pow 2 47

/-- A system that maps whatever the address space can hold. -/
def Mapping.bounded : Mapping := fun length =>
  if length < addressSpace then none else some .noMemory

/-- The usable size of a stack of the requested size, once it is mapped. -/
def mapStack (mapping : Mapping) (page request : Nat) : Except IoFault Nat :=
  match StackExtent.plan? page request with
  | none => .error (.stackTooLarge request)
  | some extent =>
    match mapping extent.length with
    | none => .ok extent.usable
    | some fault => .error fault

def Stack.make (mapping : Mapping) (page label : Nat) (source : StackSource) (request : Nat) :
    Except IoFault Stack :=
  (mapStack mapping page request).map fun size => ⟨label, size, source⟩

end Fibers
