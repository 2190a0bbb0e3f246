import Fibers.Proofs.Courses
import Fibers.Proofs.TwinSteps

/-!
Faults. A task that has the fault at its end in the second run takes one more step there,
and then both runs leave it.
-/

namespace Fibers

open List (Forall₂)

variable {B : Bond} {D : Backdrop} {κ κ' : Ties} {fault : Fault}

/-- What the fault tells the frames of its task. -/
def Fault.control : Fault → Control
  | .fails failure => .raise failure
  | .panics carried => .panicking carried

namespace Machine

variable {m m' : Machine} {n : Nat}

/-- Two machines of which the second one may have come to the fault of a task. -/
inductive Parallel (B : Bond) (D : Backdrop) (κ : Ties) : Machine → Machine → Prop
  | alike {m m' : Machine} (h : m.Alike B D κ m') : Parallel B D κ m m'
  /-- The second machine has raised the fault, and the task's guards are still there. -/
  | ending {w w' : World} {running running' : Running} {below below' : List Running}
      {root root' : List Frame} {guards : List Datum} {fault : Fault} (hworld : w.Twin B D κ w')
      (hlike : running.Like κ true running') (hbelow : Forall₂ (Running.Twin B κ) below below')
      (hroot : Forall₂ (Frame.Twin B κ) root root') (hfault : B.fault = some fault) :
      Parallel B D κ ⟨w, { running with frames := [.actions [] guards] } :: below, root, .advance⟩
        ⟨w', { running' with frames := [.actions [] guards] } :: below', root', fault.control⟩
  /-- The task is over. -/
  | ended {w w' : World} {running running' : Running} {below below' : List Running}
      {root root' : List Frame} {control control' : Control}
      {exit exit' : Exit} (hworld : w.Twin B D κ w') (hlike : running.Like κ true running')
      (hbelow : Forall₂ (Running.Twin B κ) below below')
      (hroot : Forall₂ (Frame.Twin B κ) root root') (hcontrol : exit? control = some exit)
      (hcontrol' : exit? control' = some exit')
      (hexit : Exit.Twin B κ running.home running.id exit exit') :
      Parallel B D κ ⟨w, { running with frames := [] } :: below, root, control⟩
        ⟨w', { running' with frames := [] } :: below', root', control'⟩

/-- Two machines that run in parallel once more handles and tasks have come up. -/
def InStep (B : Bond) (D : Backdrop) (κ : Ties) (m m' : Machine) : Prop :=
  ∃ κ', κ.Grows κ' ∧ m.Parallel B D κ' m'

theorem Parallel.inStep (h : m.Parallel B D κ m') : m.InStep B D κ m' := ⟨κ, .refl κ, h⟩

theorem Grown.inStep (h : m.Grown B D κ m') : m.InStep B D κ m' := by
  obtain ⟨κ', hgrows, halike⟩ := h
  exact ⟨κ', hgrows, .alike halike⟩

theorem InStep.mono (h : m.InStep B D κ' m') (hgrows : κ.Grows κ') : m.InStep B D κ m' := by
  obtain ⟨κ'', hmore, hparallel⟩ := h
  exact ⟨κ'', hgrows.trans hmore, hparallel⟩

theorem Parallel.world (h : m.Parallel B D κ m') : m.world.Twin B D κ m'.world := by
  cases h with
  | alike h => exact h.world
  | ending hworld | ended hworld => exact hworld

/-- A step of either machine is met by steps of the other one, of which the second one takes
no fewer than the first one. -/
structure Pursues (B : Bond) (D : Backdrop) (κ : Ties) (m m' : Machine) : Prop where
  second : ∃ j, 1 ≤ j ∧ (m.settle 1).InStep B D κ (m'.settle j)
  first : ∃ i, (m.settle i).InStep B D κ (m'.settle 1)

theorem Pursues.of_settle (h : (m.settle 1).InStep B D κ (m'.settle 1)) : m.Pursues B D κ m' :=
  ⟨⟨1, Nat.le_refl 1, h⟩, ⟨1, h⟩⟩

theorem Pursues.of_rests (h : m.Parallel B D κ m') (hrests : m.step? = none)
    (hrests' : m'.step? = none) : m.Pursues B D κ m' := by
  apply Pursues.of_settle
  rw [settle_one hrests, settle_one hrests']
  exact h.inStep

theorem Pursues.of_step {next next' : Machine} (hstep : m.step? = some next)
    (hstep' : m'.step? = some next') (h : next.InStep B D κ next') : m.Pursues B D κ m' := by
  apply Pursues.of_settle
  rw [settle_one_of_step hstep, settle_one_of_step hstep']
  exact h

theorem Pursues.of_move {next next' : Machine} (hm : m.Sound True) (hm' : m'.Sound True)
    (hmove : m.move? = some next) (hmove' : m'.move? = some next') (h : next.InStep B D κ next') :
    m.Pursues B D κ m' :=
  .of_step (hm.step?_eq.trans hmove) (hm'.step?_eq.trans hmove') h

/-- The second machine goes one step ahead. -/
theorem Pursues.of_ahead {next' : Machine} (hstep' : m'.step? = some next')
    (hparallel : m.Parallel B D κ next') (h : m.Pursues B D κ next') : m.Pursues B D κ m' := by
  obtain ⟨j, -, hinStep⟩ := h.second
  refine ⟨⟨1 + j, Nat.le_add_right_of_le (Nat.le_refl 1), ?_⟩, ⟨0, ?_⟩⟩
  · rw [← settle_add, settle_one_of_step hstep']
    exact hinStep
  · rw [settle_one_of_step hstep']
    exact hparallel.inStep

theorem exit?_control (fault : Fault) : exit? fault.control = some fault.exit := by
  cases fault <;> rfl

/-- Guards are given up by a list that is over. -/
theorem move_of_over {w : World} {running : Running} {below : List Running} {root : List Frame}
    {guards : List Datum} {control : Control}
    {exit : Exit} (hexit : exit? control = some exit) :
    move? ⟨w, { running with frames := [.actions [] guards] } :: below, root,
      control⟩ = some ⟨w.release (guards.map .guard), { running with frames := [] } :: below, root,
        control⟩ := by
  cases control with
  | advance | raise | panicking => rfl
  | resumed | back | answer => cases hexit

/-- The task comes to the end of its code. -/
theorem Pursues.of_over {w w' : World} {running running' : Running} {below below' : List Running}
    {root root' : List Frame} {guards : List Datum} {control control' : Control} {exit exit' : Exit}
    (hworld : w.Twin B D κ w') (hlike : running.Like κ true running')
    (hbelow : Forall₂ (Running.Twin B κ) below below') (hroot : Forall₂ (Frame.Twin B κ) root root')
    (hcontrol : exit? control = some exit) (hcontrol' : exit? control' = some exit')
    (hexit : Exit.Twin B κ running.home running.id exit exit')
    (hm : Sound True ⟨w, { running with frames := [.actions [] guards] } :: below, root, control⟩)
    (hm' : Sound True
      ⟨w', { running' with frames := [.actions [] guards] } :: below', root', control'⟩) :
    Pursues B D κ ⟨w, { running with frames := [.actions [] guards] } :: below, root, control⟩
      ⟨w', { running' with frames := [.actions [] guards] } :: below', root', control'⟩ :=
  .of_move hm hm' (move_of_over hcontrol) (move_of_over hcontrol')
    (Parallel.inStep
      (.ended (hworld.release_guards guards) hlike hbelow hroot hcontrol hcontrol' hexit))

/-- A task that has the fault at its end goes on, or comes to it. -/
theorem InsideFaulty.pursues (h : m.InsideFaulty B D κ m') (hreport : ¬B.mine .report)
    (hm : m.Sound True) (hm' : m'.Sound True) : m.Pursues B D κ m' := by
  have hwhole := h
  obtain ⟨hworld, hlike, hbelow, hroot, hcontrol, htodo, htail⟩ := h
  rename_i w w' running running' below below' root root' control control' todo todo' tail guards
  have halike : ∀ {todo todo' : List Action} {control control' : Control}, Code.Twin B todo todo' →
      control.Twin B κ control' →
      Machine.Alike B D κ
        ⟨w, { running with frames := [.actions todo guards] } :: below, root, control⟩
        ⟨w', { running' with frames := [.actions (todo' ++ tail) guards] } :: below',
          root', control'⟩ :=
    fun htodo hcontrol =>
      ⟨hworld, .cons ⟨{ hlike with }, .ailing htodo htail⟩ hbelow, hroot, hcontrol⟩
  have hleft : ∀ {control : Control} {exit : Exit}, exit? control = some exit → control ≠ .advance →
      control.Twin B κ control → Exit.Twin B κ running.home running.id exit exit →
      Sound True ⟨w, { running with frames := [.actions todo guards] } :: below, root, control⟩ →
      Sound True ⟨w', { running' with frames := [.actions (todo' ++ tail) guards] } :: below',
        root', control⟩ →
      Pursues B D κ ⟨w, { running with frames := [.actions todo guards] } :: below, root, control⟩
        ⟨w', { running' with frames := [.actions (todo' ++ tail) guards] } :: below', root',
          control⟩ := by
    intro control exit hcode hne hcontrol hexit hm hm'
    have hmove :
        ∀ {u : World} {occupant : Running} {levels : List Running} {frames : List
        Frame} {code : List Action},
          move? ⟨u, { occupant with frames := [.actions code guards] } :: levels, frames, control⟩ =
          some ⟨u.release (guards.map .guard), { occupant with frames := [] } :: levels, frames,
            control⟩ := by
      intro u occupant levels frames code
      rw [← move_of_over hcode]
      exact react?_actions_of_ne hne code guards
    exact .of_move hm hm' hmove hmove
      (Parallel.inStep (.ended (hworld.release_guards guards) hlike hbelow hroot hcode hcode hexit))
  cases hcontrol with
  | raise failure =>
    exact hleft rfl (fun heq => by cases heq) (.raise failure) (.failed failure) hm hm'
  | panicking panic =>
    exact hleft rfl (fun heq => by cases heq) (.panicking panic) (.panicked panic) hm hm'
  | resumed h =>
    refine .of_rests (.alike (halike htodo (.resumed h))) ?_ ?_
    · exact hm.step?_eq.trans (react?_actions_of_ne (fun heq => by cases heq) todo guards)
    · exact hm'.step?_eq.trans
        (react?_actions_of_ne (fun heq => by cases heq) (todo' ++ tail) guards)
  | back hfiber hexit =>
    refine .of_rests (.alike (halike htodo (.back hfiber hexit))) ?_ ?_
    · exact hm.step?_eq.trans (react?_actions_of_ne (fun heq => by cases heq) todo guards)
    · exact hm'.step?_eq.trans
        (react?_actions_of_ne (fun heq => by cases heq) (todo' ++ tail) guards)
  | answer result =>
    refine .of_rests (.alike (halike htodo (.answer result))) ?_ ?_
    · exact hm.step?_eq.trans (react?_actions_of_ne (fun heq => by cases heq) todo guards)
    · exact hm'.step?_eq.trans
        (react?_actions_of_ne (fun heq => by cases heq) (todo' ++ tail) guards)
  | advance =>
    cases htodo with
    | nil =>
      -- Nothing is left to do but the fault, so the second run has one step more to take.
      cases htail with
      | @fault fault hfault =>
        have hahead : step?
            ⟨w', { running' with frames := [.actions ([] ++ [fault.action]) guards] } :: below',
            root', .advance⟩ =
            some ⟨w', { running' with frames := [.actions [] guards] } :: below', root',
              fault.control⟩ := by
          rw [hm'.step?_eq]
          cases fault <;> rfl
        exact .of_ahead hahead (.ending hworld hlike hbelow hroot hfault)
          (.of_over hworld hlike hbelow hroot rfl (exit?_control fault)
            (.insideFaulty hfault hlike.told) hm (hm'.step hahead))
    | @cons action action' rest rest' haction hrest =>
      have hperformed := Alike.perform hreport haction (halike hrest .advance)
      cases haction with
      | plain hplain hnames =>
        cases action with
        | guard value =>
          refine .of_move hm hm' rfl rfl (Parallel.inStep (.alike ?_))
          exact ⟨hworld, .cons ⟨{ hlike with }, .ailing hrest htail⟩ hbelow, hroot, .advance⟩
        | _ => exact .of_move hm hm' rfl rfl hperformed.inStep
      | _ => exact .of_move hm hm' rfl rfl hperformed.inStep

/-- Two machines that run in parallel go on in parallel. -/
theorem Parallel.pursues (h : m.Parallel B D κ m') (hreport : ¬B.mine .report) (hm : m.Sound True)
    (hm' : m'.Sound True) : m.Pursues B D κ m' := by
  cases h with
  | alike h =>
    rcases h.step hreport hm hm' with hstep | hfaulty
    · cases hnext : m.step? with
      | none =>
        rw [hnext] at hstep
        have hnext' : m'.step? = none := by
          generalize m'.step? = next' at hstep
          cases hstep
          rfl
        exact .of_rests (.alike h) hnext hnext'
      | some next =>
        rw [hnext] at hstep
        obtain ⟨next', hnext', hgrown⟩ : ∃ next', m'.step? = some next' ∧
          next.Grown B D κ next' := by
          generalize m'.step? = after at hstep
          cases hstep with
          | some hgrown => exact ⟨_, rfl, hgrown⟩
        exact .of_step hnext hnext' hgrown.inStep
    · exact hfaulty.pursues hreport hm hm'
  | ending hworld hlike hbelow hroot hfault =>
    exact .of_over hworld hlike hbelow hroot rfl (exit?_control _)
      (.insideFaulty hfault hlike.told) hm hm'
  | ended hworld hlike hbelow hroot hcontrol hcontrol' hexit =>
    refine .of_move hm hm' ?_ ?_
      (Grown.inStep
        (Alike.grown (leave_alike hworld hroot hlike hm.current hm'.current hbelow hexit)))
    · exact congrArg (Option.map _) hcontrol
    · exact congrArg (Option.map _) hcontrol'

/-- Whenever the first machine has taken some steps, the second one has been in parallel with
it after at least as many. -/
theorem Parallel.settle (h : m.Parallel B D κ m') (hreport : ¬B.mine .report) (hm : m.Sound True)
    (hm' : m'.Sound True) (n : Nat) : ∃ k, n ≤ k ∧ (m.settle n).InStep B D κ (m'.settle k) := by
  induction n with
  | zero => exact ⟨0, Nat.le_refl 0, h.inStep⟩
  | succ n ih =>
    obtain ⟨k, hk, κ', hgrows, hparallel⟩ := ih
    obtain ⟨j, hj, hinStep⟩ := (hparallel.pursues hreport (hm.settle n) (hm'.settle k)).second
    refine ⟨k + j, by omega, ?_⟩
    rw [← settle_add, ← settle_add]
    exact hinStep.mono hgrows

/-- Whenever the second machine has taken some steps, the first one has been in parallel with
it. -/
theorem Parallel.settle_second (h : m.Parallel B D κ m') (hreport : ¬B.mine .report)
    (hm : m.Sound True) (hm' : m'.Sound True) (k : Nat) :
    ∃ n, (m.settle n).InStep B D κ (m'.settle k) := by
  induction k with
  | zero => exact ⟨0, h.inStep⟩
  | succ k ih =>
    obtain ⟨n, κ', hgrows, hparallel⟩ := ih
    obtain ⟨i, hinStep⟩ := (hparallel.pursues hreport (hm.settle n) (hm'.settle k)).first
    refine ⟨n + i, ?_⟩
    rw [← settle_add, ← settle_add]
    exact hinStep.mono hgrows

/-- Of two machines in parallel one is done only where they do the same. -/
theorem Parallel.done_iff (h : m.Parallel B D κ m') : (m.Done ↔ m'.Done) ∧
    (m.Done → m.Alike B D κ m') := by
  cases h with
  | alike h => exact ⟨h.done_iff, fun _ => h⟩
  | ending | ended =>
    exact ⟨⟨fun hdone => (by cases hdone.1), fun hdone => by cases hdone.1⟩,
      fun hdone => by cases hdone.1⟩

theorem Done.settle_add (h : (m.settle n).Done) (r : Nat) : m.settle (n + r) = m.settle n := by
  rw [← Machine.settle_add]
  exact settle_of_atRest h.atRest r

/-- Once both machines are done, they have done the same. -/
theorem Parallel.settled (h : m.Parallel B D κ m') (hreport : ¬B.mine .report) (hm : m.Sound True)
    (hm' : m'.Sound True) {n k : Nat} (hdone : (m.settle n).Done) (hdone' : (m'.settle k).Done) :
    (m.settle n).Grown B D κ (m'.settle k) := by
  obtain ⟨j, hj, κ', hgrows, hparallel⟩ := h.settle hreport hm hm' (n + k)
  -- So late both machines are where they were when they were done.
  obtain ⟨r, rfl⟩ := Nat.exists_eq_add_of_le (Nat.le_trans (Nat.le_add_left k n) hj)
  rw [hdone.settle_add, hdone'.settle_add] at hparallel
  exact ⟨κ', hgrows, hparallel.done_iff.2 hdone⟩

/-- One machine comes to its end if and only if the other one does. -/
theorem Parallel.ends_iff (h : m.Parallel B D κ m') (hreport : ¬B.mine .report) (hm : m.Sound True)
    (hm' : m'.Sound True) : (∃ n, (m.settle n).Done) ↔ ∃ k, (m'.settle k).Done := by
  constructor
  · rintro ⟨n, hdone⟩
    obtain ⟨k, -, κ', -, hparallel⟩ := h.settle hreport hm hm' n
    exact ⟨k, hparallel.done_iff.1.1 hdone⟩
  · rintro ⟨k, hdone⟩
    obtain ⟨n, κ', -, hparallel⟩ := h.settle_second hreport hm hm' k
    exact ⟨n, hparallel.done_iff.1.2 hdone⟩

end Machine

end Fibers
