import Mathlib.Logic.Function.Iterate
import Fibers.Proofs.AwaitFrames

/-!
Unwinding. Letting something go takes one piece of work after the other, and every
piece was held by one place only, so it comes to an end. A fiber that is parked goes
with the last clone of its handle and no sooner, and then everything that its guards
hold goes with it, the innermost guard first, before whatever waited behind it.
-/

namespace Fibers

/-- The guards that a stack of frames holds, the innermost one first. -/
def framesGuards (frames : List Frame) : List Datum := frames.flatMap Frame.guards

@[simp]
theorem framesGuards_cons (frame : Frame) (frames : List Frame) :
    framesGuards (frame :: frames) = frame.guards ++ framesGuards frames := rfl

@[simp]
theorem framesGuards_append (first second : List Frame) :
    framesGuards (first ++ second) = framesGuards first ++ framesGuards second :=
      List.flatMap_append

namespace Fiber

/-- The guards that a suspended fiber holds, the innermost one first. -/
def guards (fiber : Fiber) : List Datum := framesGuards fiber.frames

/-- What unwinding a suspended fiber shows of it: that it is discarded, and its guards. -/
def relics (fiber : Fiber) : List Relic :=
  .discarded fiber.serial fiber.id fiber.home :: fiber.guards.map .dropped

end Fiber

/-- What letting something go shows at once. -/
def Debris.relic? : Debris → Option Relic
  | .guard value => some (.dropped value)
  | .handle _ => none
  | .fiber serial id home => some (.discarded serial id home)
  | .task s id => some (.vanished s id)

theorem Payload.relics_debris (payload : Payload) :
    payload.debris.filterMap Debris.relic? = [] := by
  cases payload <;> rfl

theorem relics_handles (handles : List HandleRef) :
    (handles.map Debris.handle).filterMap Debris.relic? = [] := by
  induction handles with
  | nil => rfl
  | cons x rest ih => exact ih

theorem relics_guards (guards : List Datum) :
    (guards.map Debris.guard).filterMap Debris.relic? = guards.map .dropped := by
  induction guards with
  | nil => rfl
  | cons value rest ih =>
    rw [List.map_cons, List.filterMap_cons, ih]
    rfl

theorem Frame.relics_debris (frame : Frame) :
    frame.debris.filterMap Debris.relic? = frame.guards.map .dropped := by
  cases frame with
  | actions todo guards => exact relics_guards guards
  | driving d phase =>
    cases phase with
    | settle waiters | resuming _ waiters => exact relics_handles waiters
    | drain | listen | poll => rfl
  | _ => rfl

/-- A suspended fiber shows itself and then its guards. -/
theorem Fiber.relics_debris {fiber : Fiber} (h : fiber.isSuspended = true) :
    fiber.debris.filterMap Debris.relic? = fiber.relics := by
  obtain ⟨serial, id, home, stack, state⟩ := fiber
  cases state with
  | unstarted | finished => cases h
  | suspended frames first =>
    have hframes : (frames.flatMap Frame.debris).filterMap Debris.relic? =
        (framesGuards frames).map .dropped := by
      induction frames with
      | nil => rfl
      | cons frame rest ih =>
        rw [List.flatMap_cons, List.filterMap_append, frame.relics_debris, ih h, framesGuards_cons,
          List.map_append]
    simp only [Fiber.debris, List.filterMap_cons, Debris.relic?, List.filterMap_append, hframes,
      first.relics_debris, List.append_nil]
    rfl

namespace HandleTable

/-- A release in progress: what is left to let go, and what it has shown so far. -/
structure Unwinding where
  table : HandleTable
  work : List Debris
  relics : List Relic

/-- One piece of work is let go. The last clone of a handle brings what its slot holds. -/
def Unwinding.next : Unwinding → Unwinding
  | ⟨table, [], relics⟩ => ⟨table, [], relics⟩
  | ⟨table, .guard value :: rest, relics⟩ => ⟨table, rest, relics ++ [.dropped value]⟩
  | ⟨table, .fiber serial id home :: rest, relics⟩ =>
    ⟨table, rest, relics ++ [.discarded serial id home]⟩
  | ⟨table, .task s id :: rest, relics⟩ => ⟨table, rest, relics ++ [.vanished s id]⟩
  | ⟨table, .handle x :: rest, relics⟩ =>
    match table.get? x with
    | none => ⟨table, rest, relics⟩
    | some cell =>
      if cell.clones ≤
        1 then ⟨table.put x { cell with clones := 0, slot := .spent }, cell.debris ++ rest, relics⟩
      else ⟨table.put x { cell with clones := cell.clones - 1 }, rest, relics⟩

/-- A release is over after as many pieces as there were to let go and in the slots. -/
theorem release_ends (table : HandleTable) (work : List Debris) (relics : List Relic) :
    ∃ n ≤ table.load + work.length,
      Unwinding.next^[n] ⟨table, work,
        relics⟩ = ⟨(table.release work).1, [], relics ++ (table.release work).2⟩ := by
  fun_induction release table work generalizing relics with
  | case1 table => exact ⟨0, Nat.zero_le _, by simp⟩
  | case2 table value rest last shown heq ih =>
    obtain ⟨n, hle, hends⟩ := ih (relics ++ [.dropped value])
    rw [heq] at hends
    refine ⟨n + 1, by simp only [List.length_cons]; omega, ?_⟩
    rw [Function.iterate_succ_apply, Unwinding.next, hends, List.append_assoc]
    rfl
  | case3 table serial id home rest last shown heq ih =>
    obtain ⟨n, hle, hends⟩ := ih (relics ++ [.discarded serial id home])
    rw [heq] at hends
    refine ⟨n + 1, by simp only [List.length_cons]; omega, ?_⟩
    rw [Function.iterate_succ_apply, Unwinding.next, hends, List.append_assoc]
    rfl
  | case4 table s id rest last shown heq ih =>
    obtain ⟨n, hle, hends⟩ := ih (relics ++ [.vanished s id])
    rw [heq] at hends
    refine ⟨n + 1, by simp only [List.length_cons]; omega, ?_⟩
    rw [Function.iterate_succ_apply, Unwinding.next, hends, List.append_assoc]
    rfl
  | case5 table x rest hnone ih =>
    obtain ⟨n, hle, hends⟩ := ih relics
    refine ⟨n + 1, by simp only [List.length_cons]; omega, ?_⟩
    rw [Function.iterate_succ_apply, Unwinding.next, hnone]
    exact hends
  | case6 table x rest cell hcell hlast ih =>
    obtain ⟨n, hle, hends⟩ := ih relics
    have hload := load_put { cell with clones := 0, slot := .spent } hcell
    have hspent : HandleCell.debris { cell with clones := 0, slot := .spent } = [] := rfl
    rw [hspent, List.length_nil, Nat.add_zero] at hload
    rw [List.length_append] at hle
    refine ⟨n + 1, by simp only [List.length_cons]; omega, ?_⟩
    simp only [Function.iterate_succ_apply, Unwinding.next, hcell, if_pos hlast]
    exact hends
  | case7 table x rest cell hcell hmore ih =>
    obtain ⟨n, hle, hends⟩ := ih relics
    have hload := load_put { cell with clones := cell.clones - 1 } hcell
    have hsame : HandleCell.debris { cell with clones := cell.clones - 1 } = cell.debris := rfl
    rw [hsame] at hload
    refine ⟨n + 1, by simp only [List.length_cons]; omega, ?_⟩
    simp only [Function.iterate_succ_apply, Unwinding.next, hcell, if_neg hmore]
    exact hends

/-- What is let go is shown in its order. -/
theorem relics_sublist (table : HandleTable) (work : List Debris) :
    (work.filterMap Debris.relic?).Sublist (table.release work).2 := by
  fun_induction release table work with
  | case1 => exact List.Sublist.refl _
  | case2 _ _ _ _ _ heq ih | case3 _ _ _ _ _ _ _ heq ih | case4 _ _ _ _ _ _ heq ih =>
    rw [heq] at ih
    exact ih.cons_cons _
  | case5 _ _ _ _ ih => exact ih
  | case6 table x rest cell hcell hlast ih =>
    rw [List.filterMap_append] at ih
    exact (List.sublist_append_right _ _).trans ih
  | case7 _ _ _ _ _ _ ih => exact ih

/-- The handle was made, and its last clone has gone. -/
def Dead (table : HandleTable) (x : HandleRef) : Prop := ∃ cell, table.get? x = some cell ∧
    cell.clones = 0

theorem SameOrGone.dead {table other : HandleTable} {x : HandleRef}
    (h : SameOrGone (table.get? x) (other.get? x)) (hdead : table.Dead x) : other.Dead x := by
  obtain ⟨cell, hcell, hzero⟩ := hdead
  rw [hcell] at h
  unfold Dead
  generalize other.get? x = after at h
  cases h with
  | kept hsame => exact ⟨_, rfl, hsame.1 hzero⟩
  | emptied => exact ⟨_, rfl, rfl⟩

/-- A parked fiber stays where it is as long as a clone of its handle is left. When the
last one goes the fiber is unwound. -/
theorem release_parked {table : HandleTable} {work : List Debris} {x : HandleRef}
    {cell : HandleCell} {fiber : Fiber} {owner : Owner} (hcell : table.get? x = some cell)
    (hslot : cell.slot = .parked fiber owner) (hsuspended : fiber.isSuspended = true) :
    (∃ after, (table.release work).1.get? x = some after ∧ after.slot = .parked fiber owner) ∨
      (table.release work).1.Dead x ∧ fiber.relics.Sublist (table.release work).2 := by
  fun_induction release table work generalizing cell with
  | case1 => exact .inl ⟨cell, hcell, hslot⟩
  | case2 _ _ _ _ _ heq ih | case3 _ _ _ _ _ _ _ heq ih | case4 _ _ _ _ _ _ heq ih =>
    rw [heq] at ih
    exact (ih hcell hslot).imp_right fun hgone =>
      ⟨hgone.1, hgone.2.trans (List.sublist_cons_self ..)⟩
  | case5 _ _ _ _ ih => exact ih hcell hslot
  | case6 table y rest other hother hlast ih =>
    by_cases hxy : x = y
    · subst hxy
      obtain rfl : cell = other := Option.some.inj (hcell.symm.trans hother)
      have hemptied :=
        (get?_put hother { cell with clones := 0, slot := .spent } x).trans (if_pos rfl)
      refine .inr ⟨(release_sameOrGone _ _ x).dead ⟨_, hemptied, rfl⟩, ?_⟩
      have hsub := relics_sublist (table.put x { cell with clones := 0, slot := .spent })
        (cell.debris ++ rest)
      have hdebris : cell.debris = fiber.debris := by rw [HandleCell.debris, hslot]
      rw [List.filterMap_append, hdebris, Fiber.relics_debris hsuspended] at hsub
      rw [hdebris]
      exact (List.sublist_append_left _ _).trans hsub
    · exact ih (by rw [get?_put hother, if_neg hxy, hcell]) hslot
  | case7 table y rest other hother hmore ih =>
    by_cases hxy : x = y
    · subst hxy
      obtain rfl : cell = other := Option.some.inj (hcell.symm.trans hother)
      have hslot' : HandleCell.slot { cell with clones := cell.clones - 1 } =
        .parked fiber owner := hslot
      exact ih (by rw [get?_put hother, if_pos rfl]) hslot'
    · exact ih (by rw [get?_put hother, if_neg hxy, hcell]) hslot

end HandleTable

end Fibers
