import Fibers.Fiber
import Fibers.Handle.Slot

/-!
The table of handles. A handle is shared by its clones, and every clone is
owned by exactly one place: a name, a frame, a payload, a waiter's list. When
the last clone goes, what the slot holds goes with it: a stored resumption, or
a parked fiber, whose frames are unwound and may own further handles.
Releasing always comes to an end, because each thing released was held by one
place only.
-/

namespace Fibers

structure HandleCell where
  id : FiberId
  clones : Nat
  slot : Slot Fiber Owner Resumption

/-- Things that are let go. -/
inductive Debris
  | guard (value : Datum)
  | handle (handle : HandleRef)
  /-- A suspended fiber, whose frames follow. -/
  | fiber (serial : Nat) (id : FiberId) (home : Option SchedulerId)
  /-- A task that never started. -/
  | task (scheduler : SchedulerId) (id : FiberId)

/-- What releasing shows. -/
inductive Relic
  | dropped (value : Datum)
  | discarded (serial : Nat) (id : FiberId) (home : Option SchedulerId)
  | vanished (scheduler : SchedulerId) (id : FiberId)

def Payload.debris : Payload → List Debris
  | .scalar _ => []
  | .handle ref => [.handle ref]

def Resumption.debris : Resumption → List Debris
  | .value payload => payload.debris
  | .error _ => []

/-- What a frame owns, in the order in which unwinding lets it go. -/
def Frame.debris : Frame → List Debris
  | .actions _ guards => guards.map .guard
  | .registering own _ => [.handle own]
  | .driving _ (.settle waiters) => waiters.map .handle
  | .driving _ (.resuming _ waiters) => waiters.map .handle
  | _ => []

def Fiber.debris (fiber : Fiber) : List Debris :=
  match fiber.state with
  | .suspended frames first =>
    .fiber fiber.serial fiber.id fiber.home :: (frames.flatMap Frame.debris ++ first.debris)
  | _ => []

def HandleCell.debris (cell : HandleCell) : List Debris :=
  match cell.slot with
  | .woken resumption => resumption.debris
  | .parked fiber _ => fiber.debris
  | _ => []

structure HandleTable where
  cells : List HandleCell

namespace HandleTable

def empty : HandleTable := ⟨[]⟩

def get? (table : HandleTable) (handle : HandleRef) : Option HandleCell :=
  table.cells[handle.index]?

/-- The handle that the next `make` returns. -/
def next (table : HandleTable) : HandleRef := ⟨table.cells.length⟩

/-- A pending handle with some clones. -/
def make (table : HandleTable) (id : FiberId) (clones : Nat) : HandleTable :=
  ⟨table.cells ++ [⟨id, clones, .pending⟩]⟩

def put (table : HandleTable) (handle : HandleRef) (cell : HandleCell) : HandleTable :=
  ⟨table.cells.set handle.index cell⟩

/-- One more clone of a handle. -/
def retain (table : HandleTable) (handle : HandleRef) : HandleTable :=
  match table.get? handle with
  | none => table
  | some cell => table.put handle { cell with clones := cell.clones + 1 }

def setSlot (table : HandleTable) (handle : HandleRef) (slot : Slot Fiber Owner Resumption) :
    HandleTable :=
  match table.get? handle with
  | none => table
  | some cell => table.put handle { cell with slot := slot }

/-- How many things the slots hold. -/
def load (table : HandleTable) : Nat := table.cells.foldr (fun cell n => cell.debris.length + n) 0

private theorem foldr_set {α : Type} (f : α → Nat) (a : α) (items : List α) (i : Nat) (old : α)
    (h : items[i]? = some old) :
    (items.set i a).foldr (fun item n => f item + n) 0 + f old =
    items.foldr (fun item n => f item + n) 0 + f a := by
  induction items generalizing i with
  | nil => simp at h
  | cons item rest ih =>
    cases i with
    | zero =>
      simp only [List.getElem?_cons_zero, Option.some.injEq] at h
      subst h
      simp only [List.set_cons_zero, List.foldr_cons]
      omega
    | succ i =>
      simp only [List.getElem?_cons_succ] at h
      have := ih i h
      simp only [List.set_cons_succ, List.foldr_cons]
      omega

theorem load_put {table : HandleTable} {handle : HandleRef} {old : HandleCell} (cell : HandleCell)
    (h : table.get? handle = some old) :
    (table.put handle cell).load + old.debris.length = table.load + cell.debris.length :=
  foldr_set (fun cell => cell.debris.length) cell table.cells handle.index old h

/-- Releases things front to back. A handle's last clone takes along what its
slot holds, before anything that waits behind it is released. -/
def release (table : HandleTable) (work : List Debris) : HandleTable × List Relic :=
  match work with
  | [] => (table, [])
  | .guard value :: rest =>
    let (table, relics) := table.release rest
    (table, .dropped value :: relics)
  | .fiber serial id home :: rest =>
    let (table, relics) := table.release rest
    (table, .discarded serial id home :: relics)
  | .task scheduler id :: rest =>
    let (table, relics) := table.release rest
    (table, .vanished scheduler id :: relics)
  | .handle handle :: rest =>
    match _h : table.get? handle with
    | none => table.release rest
    | some cell =>
      if cell.clones ≤ 1 then
        (table.put handle { cell with clones := 0, slot := .spent }).release (cell.debris ++ rest)
      else
        (table.put handle { cell with clones := cell.clones - 1 }).release rest
termination_by table.load + work.length
decreasing_by
  · simp
  · simp
  · simp
  · simp
  · have hload := load_put { cell with clones := 0, slot := .spent } _h
    have hspent : HandleCell.debris { cell with clones := 0, slot := .spent } = [] := rfl
    simp only [hspent, List.length_nil, Nat.add_zero] at hload
    simp only [List.length_append, List.length_cons]
    omega
  · have hload := load_put { cell with clones := cell.clones - 1 } _h
    have hsame : HandleCell.debris { cell with clones := cell.clones - 1 } = cell.debris := rfl
    rw [hsame] at hload
    simp only [List.length_cons]
    omega

end HandleTable

end Fibers
