import Fibers.Machine.Step

/-!
Runs as sequences of steps. Settling with enough fuel is the same as taking
steps until none is left, so statements about runs need not mention fuel.
-/

namespace Fibers.Machine

/-- The second machine comes after the first by some number of steps. -/
inductive Reaches : Machine → Machine → Prop
  | refl (m : Machine) : Reaches m m
  | step {m next last : Machine} (h : m.step? = some next) (rest : Reaches next last) :
      Reaches m last

/-- A machine that takes no further step. -/
def AtRest (m : Machine) : Prop := m.step? = none

theorem Reaches.trans {a b c : Machine} (first : Reaches a b) (second : Reaches b c) :
    Reaches a c := by
  induction first with
  | refl m => exact second
  | step h _ ih => exact .step h (ih second)

theorem settle_of_atRest {m : Machine} (h : m.AtRest) (fuel : Nat) : m.settle fuel = m := by
  cases fuel with
  | zero => rfl
  | succ fuel =>
    rw [settle]
    rw [show m.step? = none from h]

theorem settle_add (m : Machine) (a b : Nat) : (m.settle a).settle b = m.settle (a + b) := by
  induction a generalizing m with
  | zero => rw [settle, Nat.zero_add]
  | succ a ih =>
    cases h : m.step? with
    | none => rw [settle_of_atRest h, settle_of_atRest h, settle_of_atRest h]
    | some next =>
      rw [Nat.succ_add]
      simp only [settle, h]
      exact ih next

theorem reaches_settle (m : Machine) (fuel : Nat) : Reaches m (m.settle fuel) := by
  induction fuel generalizing m with
  | zero => exact .refl m
  | succ fuel ih =>
    cases h : m.step? with
    | none =>
      rw [settle_of_atRest h]
      exact .refl m
    | some next =>
      simp only [settle, h]
      exact .step h (ih next)

/-- Whatever a machine reaches, it settles there with the right fuel. -/
theorem exists_settle_eq {m last : Machine} (h : Reaches m last) :
    ∃ fuel, m.settle fuel = last := by
  induction h with
  | refl m => exact ⟨0, rfl⟩
  | step h _ ih =>
    obtain ⟨fuel, hfuel⟩ := ih
    exact ⟨fuel + 1, by simpa only [settle, h] using hfuel⟩

end Fibers.Machine
