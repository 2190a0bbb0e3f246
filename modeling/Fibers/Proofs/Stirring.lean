import Fibers.Proofs.Preservation

/-!
What the host does. Which of the calls in flight are ready, what the others wait for and
what the clock shows is up to the host: it may change between any two steps, as long as
every call keeps the handle of its fiber and its outcome.
-/

namespace Fibers

namespace World

/-- The host goes on with its work. Every call keeps the handle and the outcome it holds. -/
structure Stirs (w w' : World) : Prop where
  rest : w' = { w with agenda := w'.agenda }
  claims : w'.claims = w.claims
  promises : w'.promises = w.promises

namespace Stirs

variable {w w' : World}

theorem refl (w : World) : w.Stirs w := ⟨rfl, rfl, rfl⟩

theorem eq_or (h : w.Stirs w') : w' = w ∨ ∃ agenda agenda', w.agenda = some agenda ∧
    w' = { w with agenda := some agenda' } ∧
    agenda'.calls.map HostCall.claim = agenda.calls.map HostCall.claim ∧
      agenda'.calls.map HostCall.promise = agenda.calls.map HostCall.promise := by
  obtain ⟨hrest, hclaims, hpromises⟩ := h
  rw [World.claims, World.claims] at hclaims
  rw [World.promises, World.promises] at hpromises
  generalize w'.agenda = agenda' at hrest hclaims hpromises
  subst hrest
  cases hagenda : w.agenda with
  | none =>
    rw [hagenda, Option.map_none, Option.map_eq_none_iff] at hclaims
    subst hclaims
    exact .inl (by rw [← hagenda])
  | some agenda =>
    rw [hagenda] at hclaims hpromises
    obtain ⟨moved, rfl, hmoved⟩ := Option.map_eq_some_iff.1 hclaims
    exact .inr ⟨agenda, moved, rfl, rfl, hmoved, hpromises⟩

theorem shift (h : w.Stirs w') (out : List Asset) : w.Shift out w' out := by
  rcases h.eq_or with rfl | ⟨agenda, agenda', hagenda, rfl, hclaims, hpromises⟩
  · exact .refl _ _
  · exact shift_agenda hagenda hclaims hpromises out

theorem drift (h : w.Stirs w') : w.Drift w' := by
  obtain ⟨hrest, hclaims, hpromises⟩ := h
  generalize w'.agenda = agenda' at hrest
  subst hrest
  exact { Drift.refl w with claims := hclaims, promises := hpromises }

theorem isSome_agenda (h : w.Stirs w') : w'.agenda.isSome = w.agenda.isSome := by
  have hclaims := congrArg Option.isSome h.claims
  rwa [World.claims, World.claims, Option.isSome_map, Option.isSome_map] at hclaims

end Stirs

end World

namespace Machine

variable {byHand : Prop} {shown : HandleRef → Prop} {m : Machine} {w : World}

/-! ### What the host leaves as it is -/

theorem Secures.stirs (h : m.Secures byHand shown) (hstirs : m.world.Stirs w) :
    (m.withWorld w).Secures byHand shown where
  current := hstirs.drift.current.trans h.current
  nested := h.nested.mono hstirs.drift.keeps
  accepts := h.accepts.mono hstirs.drift.keeps
  kept := by
    have hkept : m.world.Sound shown ([] ++ m.assets) := h.kept
    exact hkept.shift (hstirs.shift [])

end Machine

end Fibers
