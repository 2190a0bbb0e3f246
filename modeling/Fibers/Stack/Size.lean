/-!
The sizes of stacks. A stack takes whole pages, and one page more guards its
low end. Sizes are words of 64 bits; a size whose rounding or whose guard page
leaves that range is refused before anything is mapped.
-/

namespace Fibers

/-- Words are below this number. -/
def wordLimit : Nat := Nat.pow 2 64

/-- Addition of words, refused where it would wrap. -/
def addWords? (a b : Nat) : Option Nat :=
  if a + b < wordLimit then some (a + b) else none

/-- The multiple of `page` that is at least `n` and next to it, refused where
it is not a word. -/
def nextMultiple? (page n : Nat) : Option Nat :=
  if n % page = 0 then some n else addWords? n (page - n % page)

/-- The usable part of a stack and its length with the guard page. -/
structure StackExtent where
  usable : Nat
  length : Nat
deriving DecidableEq

/-- The extent of a stack of the requested size; a size of zero counts as one. -/
def StackExtent.plan? (page request : Nat) : Option StackExtent :=
  (nextMultiple? page (max request 1)).bind fun usable =>
    (addWords? usable page).map fun length => ⟨usable, length⟩

theorem nextMultiple?_eq_some_iff {page n m : Nat} :
    nextMultiple? page n = some m ↔
      (n % page = 0 ∧ m = n) ∨
        (n % page ≠ 0 ∧ m = n + (page - n % page) ∧ m < wordLimit) := by
  unfold nextMultiple? addWords?
  by_cases h : n % page = 0
  · simp [h, eq_comm]
  · by_cases hw : n + (page - n % page) < wordLimit
    · simp only [h, hw, if_false, if_true, Option.some.injEq, false_and, false_or,
        not_false_eq_true, true_and, ne_eq]
      constructor
      · rintro rfl
        exact ⟨rfl, hw⟩
      · exact fun hm => hm.1.symm
    · simp only [h, hw, if_false, false_and, false_or, not_false_eq_true, true_and, ne_eq,
        reduceCtorEq, false_iff, not_and]
      rintro rfl
      exact hw

theorem dvd_of_nextMultiple? {page n m : Nat} (hpage : 0 < page)
    (h : nextMultiple? page n = some m) : page ∣ m := by
  rcases nextMultiple?_eq_some_iff.1 h with ⟨h0, rfl⟩ | ⟨_, rfl, _⟩
  · exact Nat.dvd_of_mod_eq_zero h0
  · have hlt := Nat.mod_lt n hpage
    refine ⟨n / page + 1, ?_⟩
    have := Nat.div_add_mod n page
    rw [Nat.mul_add]
    omega

end Fibers
