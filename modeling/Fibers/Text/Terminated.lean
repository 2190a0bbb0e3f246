import Fibers.Text.Utf8
import Mathlib.Data.List.Forall2
import Mathlib.Data.List.TakeWhile

/-!
Texts that cross to the foreign side and back. They end at their first zero byte, so none of
their characters is zero, and a text that is to cross has a space for each zero character.
-/

namespace Fibers.Text

/-- What stands for a text where zero characters may not occur: as many characters, a space
for each zero character and the others as they are. -/
def Spaced (text shown : String) : Prop :=
  List.Forall₂ (fun c d => (c = Char.ofNat 0 → d = ' ') ∧ (c ≠ Char.ofNat 0 → d = c))
    text.toList shown.toList

theorem spaced_withoutNul (text : String) : Spaced text (withoutNul text) := by
  rw [Spaced, withoutNul, String.toList_map, List.forall₂_map_right_iff]
  exact List.forall₂_same.2 fun c _ => ⟨fun h => if_pos h, fun h => if_neg h⟩


theorem withoutNul_eq_self {text : String} (h : ∀ c ∈ text.toList, c ≠ Char.ofNat 0) :
    withoutNul text = text := by
  rw [withoutNul, ← String.toList_inj, String.toList_map]
  exact (List.map_congr_left fun c member => if_neg (h c member)).trans (List.map_id _)

/-- A text that ends at its first zero byte has no zero characters. -/
theorem withoutNul_ofTerminated (bytes : List UInt8) :
    withoutNul (ofTerminated bytes) = ofTerminated bytes :=
  withoutNul_eq_self ((reads_ofBytes _).ne_zero fun byte member => by
    simpa using List.mem_takeWhile_imp member)

end Fibers.Text
