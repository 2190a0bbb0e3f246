import Fibers.Proofs.Lines

/-!
What holds of every state of a session, whatever the host does between two steps: it goes on
to hold in whichever order calls complete.
-/

namespace Fibers

namespace Machine

variable {allowed : Action → Prop} {m m' a : Machine} {w : World} {script : Script}

/-- What holds of every state of a session. -/
structure Ordinary (m : Machine) : Prop where
  sound : m.Sound True
  attended : m.world.Attended
  hosted : m.Hosted
  distinct : m.Distinct
  tallied : m.Tallied
  manned : m.Manned
  swept : m.Swept

theorem Visits.ordinary (h : Visits allowed script.start m) : m.Ordinary where
  sound := h.sound fun _ _ _ _ => trivial
  attended := Visits.attended (Visits.mono h fun _ _ => trivial)
  hosted := h.hosted
  distinct := h.distinct
  tallied := h.tallied
  manned := h.manned
  swept := h.swept

theorem Ordinary.step (h : m.Ordinary) (hstep : m.step? = some m') : m'.Ordinary := by
  have hm := h.sound
  have hmoves : Moves (fun _ => True) m m' := step_moves hstep hm fun _ _ => trivial
  have hworks := hm.works hmoves
  have hkeys := hm.kept.balanced.keys
  obtain ⟨entered, hlosesNone, -⟩ := hm.losesNone (.steps hstep)
  rw [World.callKeys_eq] at hkeys
  exact
    { sound := hm.step hstep
      attended := hlosesNone.attended h.attended
      hosted := h.hosted.works hm (hm.turns hmoves) hworks
      distinct := h.distinct.works hm h.hosted hworks
      tallied := h.tallied.works (by rwa [World.claims_eq, List.map_map]) hworks
      manned := h.manned.works hworks
      swept := h.swept.moves hm (hm.step hstep) hmoves }

theorem Ordinary.stirs (h : m.Ordinary) (hstirs : m.world.Stirs w) : (m.withWorld w).Ordinary := by
  have hlosesNone : m.world.Attended → w.Attended :=
    (World.KeepsClosed.of_same (congrArg World.schedulers hstirs.rest)).attended
  exact
    { sound := h.sound.stirs hstirs
      attended := hlosesNone h.attended
      hosted := h.hosted.stirs hstirs
      distinct := h.distinct.stirs hstirs
      tallied := h.tallied.stirs hstirs
      manned := h.manned.stirs hstirs
      swept := h.swept.stirs hstirs }

/-! ### Whole runs -/

/-- The states that follow on a state while the host goes on as it likes. -/
inductive Roams (m : Machine) : Machine → Prop
  | refl : Roams m m
  | steps {a b : Machine} (h : Roams m a) (hstep : a.step? = some b) : Roams m b
  | stirs {a : Machine} {w : World} (h : Roams m a) (hstirs : a.world.Stirs w) :
      Roams m (a.withWorld w)

theorem Roams.ordinary (h : Roams m a) (hm : m.Ordinary) : a.Ordinary := by
  induction h with
  | refl => exact hm
  | steps _ hstep ih => exact ih.step hstep
  | stirs _ hstirs ih => exact ih.stirs hstirs

end Machine

end Fibers
