import Fibers.Proofs.RunBounds

/-!
Courses. A machine takes its steps one after the other, and between them the host goes on
with its work as it likes. If the host completes every call that is waited for, the run of a
driver whose tasks are errands comes to its end.
-/

namespace Fibers.Machine

variable {course : Nat → Machine} {m m' : Machine} {p : Permit} {d : DriverId} {s : SchedulerId}
  {rest : List Frame}

/-- A driver's loop waits for the host. -/
def Waits (m : Machine) : Prop :=
  ∃ d phase frames, m.root = .driving d phase :: frames ∧ phase.Listens

/-- The call holds the handle of the fiber that waits for it, so it is yet to complete. -/
def Pending (m : Machine) (key : Nat) (d : DriverId) (x : HandleRef) : Prop :=
  ∃ claims, m.world.claims = some claims ∧ (key, d, some x) ∈ claims

/-- The states of a machine in the course of time. Between its steps the host may change the
world in some ways. -/
structure Flows (may : World → World → Prop) (course : Nat → Machine) : Prop where
  /-- The machine takes a step, or the host goes on with its work. -/
  next (n : Nat) : (course n).step? = some (course (n + 1)) ∨
    ∃ w, may (course n).world w ∧ course (n + 1) = (course n).withWorld w
  /-- A machine that can go on all the time does so at some time. -/
  goesOn (n : Nat) (h : ∀ k ≥ n, ∃ m', (course k).step? = some m') :
    ∃ k ≥ n, (course k).step? = some (course (k + 1))

theorem Flows.mono {may may' : World → World → Prop} (h : Flows may course)
    (hmono : ∀ {a b}, may a b → may' a b) :
    Flows may' course :=
  ⟨fun n => (h.next n).imp_right fun ⟨w, hw, heq⟩ => ⟨w, hmono hw, heq⟩, h.goesOn⟩

/-- The host does not let a driver's loop wait forever for a call. -/
def Serviced (course : Nat → Machine) (n : Nat) : Prop :=
  ∀ k ≥ n, ∀ {key : Nat} {d : DriverId} {x : HandleRef}, (course k).Pending key d x →
    ∃ j ≥ k, ¬(course j).Waits ∨ ¬(course j).Pending key d x

/-- The states of a machine while the host goes on with its work in whatever order, and
completes it. -/
structure Course (course : Nat → Machine) : Prop extends Flows World.Stirs course where
  serviced : Serviced course 0

theorem Done.atRest (h : m.Done) : m.AtRest := by
  rw [AtRest, step?, move?, h.1, h.2]
  rfl

/-- A machine on its own goes on, whatever the host may do. -/
theorem flows_settle {may : World → World → Prop} (hrefl : ∀ w, may w w) (m : Machine) :
    Flows may m.settle := by
  have hnext : ∀ n m', (m.settle n).step? = some m' → m.settle (n + 1) = m' := by
    intro n m' hstep
    rw [← settle_add, settle, hstep]
    rfl
  refine ⟨fun n => ?_, fun n h => ?_⟩
  · cases hstep : (m.settle n).step? with
    | some next => exact .inl (by rw [hnext n next hstep])
    | none => exact .inr ⟨_, hrefl _, by rw [← settle_add, settle_of_atRest hstep]; rfl⟩
  · obtain ⟨m', hstep⟩ := h n (Nat.le_refl n)
    exact ⟨n, Nat.le_refl n, by rw [hstep, hnext n m' hstep]⟩

/-- A machine on its own that comes to its end needs nothing else from the host. -/
theorem course_settle {fuel : Nat} (hdone : (m.settle fuel).Done) : Course m.settle where
  toFlows := flows_settle .refl m
  serviced k _ _ _ _ _ := by
    refine ⟨max k fuel, Nat.le_max_left .., .inl ?_⟩
    obtain ⟨more, hmore⟩ := Nat.exists_eq_add_of_le (Nat.le_max_right k fuel)
    rw [hmore, ← settle_add, settle_of_atRest hdone.atRest]
    rintro ⟨d, phase, frames, hroot, -⟩
    rw [hdone.2] at hroot
    cases hroot

/-- What does not grow from one moment to the next is smaller later. -/
theorem le_of_le_succ {f : Nat → Nat} {n j k : Nat} (hle : ∀ k ≥ n, f (k + 1) ≤ f k) (hk : k ≥ n)
    (hj : k ≤ j) : f j ≤ f k := by
  induction hj with
  | refl => exact Nat.le_refl _
  | step hj ih => exact Nat.le_trans (hle _ (Nat.le_trans hk hj)) ih

/-- What never grows does not fall again and again. -/
theorem not_falling {f : Nat → Nat} {n : Nat} (hle : ∀ k ≥ n, f (k + 1) ≤ f k)
    (hlt : ∀ k ≥ n, ∃ j ≥ k, f (j + 1) < f j) :
    False := by
  have hbound : ∀ bound k, k ≥ n → f k < bound → False := by
    intro bound
    induction bound with
    | zero => exact fun k _ hzero => Nat.not_lt_zero _ hzero
    | succ bound ih =>
      intro k hk hbound
      obtain ⟨j, hj, hfalls⟩ := hlt k hk
      have hless := le_of_le_succ hle hk hj
      exact ih (j + 1) (by omega) (by omega)
  exact hbound (f n + 1) n (Nat.le_refl _) (Nat.lt_succ_self _)

/-- The run of the driver goes on from some moment on. -/
structure Endless (course : Nat → Machine) (n : Nat) (p : Permit) (d : DriverId) (s : SchedulerId)
    (rest : List Frame) : Prop where
  runsErrands (k : Nat) (hk : k ≥ n) : (course k).RunsErrands p d s rest
  goes (k : Nat) (hk : k ≥ n) : ¬(course k).RunsOut d (course (k + 1))

/-- From some moment on the machine only waits for the host. -/
structure Stalled (course : Nat → Machine) (n : Nat) (p : Permit) (d : DriverId) (s : SchedulerId)
    (rest : List Frame) : Prop extends Endless course n p d s rest where
  noProgress (k : Nat) (hk : k ≥ n) (h : (course k).step? = some (course (k + 1))) :
    (course k).Idling d rest (course (k + 1))

/-- How many steps a loop that waits takes at most before it listens. -/
def turnsLeft (m : Machine) : Nat :=
  match m.root with
  | .driving _ (.poll turns) :: _ => turns + 1
  | _ => 0

section Stalled

variable {n k : Nat} (hflows : Flows World.Stirs course)
include hflows

/-- From one moment to the next the loop stays where it is, or idles. -/
theorem Stalled.next (h : Stalled course n p d s rest) (hk : k ≥ n) :
    (course (k + 1)).root = (course k).root ∧
        (course (k + 1)).world.claims = (course k).world.claims ∧
        ((course k).world.notified d = true → (course (k + 1)).world.notified d = true) ∨
      (course k).Idling d rest (course (k + 1)) := by
  rcases hflows.next k with hstep | ⟨w, hstirs, heq⟩
  · exact .inr (h.noProgress k hk hstep)
  · refine .inl ?_
    rw [heq]
    exact ⟨rfl, hstirs.claims, hstirs.sameHosts.alerts d⟩

/-- Where the machine only waits, a driver's loop does. -/
theorem Stalled.waits (h : Stalled course n p d s rest) (hk : k ≥ n) :
    ∃ phase, (course k).root = .driving d phase :: rest ∧ phase.Listens := by
  by_contra hnone
  have hstuck : ∀ j ≥ k, (course j).root = (course k).root := by
    intro j hj
    induction hj with
    | refl => rfl
    | @step j hj ih =>
      rcases h.next hflows (Nat.le_trans hk hj) with
        ⟨hroot, -⟩ | ⟨-, phase, phase', hroot, -, hlistens, -⟩
      · exact hroot.trans ih
      · exact absurd ⟨phase, ih ▸ hroot, hlistens⟩ hnone
  obtain ⟨j, hj, hstep⟩ := hflows.goesOn k fun j hj => by
    rcases (h.runsErrands j (Nat.le_trans hk hj)).progress with hgoes | ⟨hroot, -⟩
    · exact hgoes
    · exact absurd ⟨.listen, hstuck j hj ▸ hroot, trivial⟩ hnone
  obtain ⟨-, phase, -, hroot, -, hlistens, -⟩ := h.noProgress j (Nat.le_trans hk hj) hstep
  exact hnone ⟨phase, hstuck j hj ▸ hroot, hlistens⟩

/-- No call is left to complete then. -/
theorem Stalled.not_pending (h : Stalled course n p d s rest) (hserviced : Serviced course n)
    (hk : k ≥ n) {key : Nat} {e : DriverId} {x : HandleRef} : ¬(course k).Pending key e x := by
  intro hpending
  have hsame : ∀ j ≥ k, (course j).world.claims = (course k).world.claims := by
    intro j hj
    induction hj with
    | refl => rfl
    | @step j hj ih =>
      rcases h.next hflows (Nat.le_trans hk hj) with ⟨-, hclaims, -⟩ | hnoProgress
      · exact hclaims.trans ih
      · exact hnoProgress.hosts.claims.trans ih
  obtain ⟨claims, hclaims, hclaim⟩ := id hpending
  obtain ⟨j, hj, hnot | hnot⟩ := hserviced k hk hpending
  · obtain ⟨phase, hroot, hlistens⟩ := h.waits hflows (Nat.le_trans hk hj)
    exact hnot ⟨d, phase, rest, hroot, hlistens⟩
  · exact hnot ⟨claims, (hsame j hj).trans hclaims, hclaim⟩

/-- So the driver has been notified. -/
theorem Stalled.notified (h : Stalled course n p d s rest) (hserviced : Serviced course n)
    (hk : k ≥ n) : (course k).world.notified d = true := by
  obtain ⟨phase, hroot, hlistens⟩ := h.waits hflows hk
  have herrands := h.runsErrands k hk
  have htallied := herrands.ordinary.tallied
  obtain ⟨claims, hclaims⟩ :=
    Option.isSome_iff_exists.1 ((World.isSome_claims _).trans herrands.agenda)
  have hpassed : ∀ claim ∈ claims, World.passed? claim = some (claim.1, claim.2.1) := by
    rintro ⟨key, e, held⟩ member
    cases held with
    | none => rfl
    | some x => exact absurd ⟨claims, hclaims, member⟩ (h.not_pending hflows hserviced hk)
  have hhanding := htallied.handing
  have hidle : (course k).handing = [] := by
    rw [handing, hroot]
    exact herrands.plain.filterMap_completing?
  rw [hidle, hclaims, Option.getD_some, List.filterMap_eq_nil_iff] at hhanding
  have hnone : claims = [] := List.eq_nil_iff_forall_not_mem.2 fun claim member => by
    have hsome := hpassed claim member
    rw [hhanding claim member] at hsome
    cases hsome
  have hinFlight := htallied.inFlight d
  rw [hclaims, hnone] at hinFlight
  have hphase : (d, phase) ∈ (course k).phases := by
    rw [phases, hroot]
    exact List.mem_cons_self ..
  refine (htallied.alert hphase hlistens).resolve_right fun hpos => ?_
  rw [hinFlight] at hpos
  exact absurd hpos (Nat.lt_irrefl 0)

/-- Then it would hear of that, so the machine never only waits. -/
theorem not_stalled (hserviced : Serviced course n) : ¬Stalled course n p d s rest := by
  intro h
  have hfalls : ∀ k ≥ n, (course k).step? = some (course (k + 1)) →
      (course (k + 1)).turnsLeft < (course k).turnsLeft := by
    intro k hk hstep
    obtain ⟨-, phase, phase', hroot, hroot', hlistens, hphase⟩ := h.noProgress k hk hstep
    have hheard : phase ≠ .listen := by
      rintro rfl
      rw [(h.runsErrands k hk).step_of_notified hroot (h.notified hflows hserviced hk),
        Option.some.injEq] at hstep
      rw [← hstep, (goTo_running_eq_nil _ _ _ _ ((h.runsErrands k hk).listening hroot trivial).1).2]
        at hroot'
      cases hroot'
      cases hphase
    rw [turnsLeft, turnsLeft, hroot, hroot']
    cases hphase with
    | listens | settled | resumed => exact hlistens.elim
    | elapses | polls => exact absurd rfl hheard
    | turns turns => exact Nat.lt_succ_self _
    | polled turns => exact Nat.succ_pos _
  refine not_falling (f := fun k => (course k).turnsLeft) (n := n) (fun k hk => ?_) fun k hk => ?_
  · rcases hflows.next k with hstep | ⟨w, -, heq⟩
    · exact Nat.le_of_lt (hfalls k hk hstep)
    · rw [heq]
      exact Nat.le_refl _
  · obtain ⟨j, hj, hstep⟩ := hflows.goesOn k fun j hj => by
      refine (h.runsErrands j (Nat.le_trans hk hj)).progress.resolve_right fun hsilent => ?_
      rw [h.notified hflows hserviced (Nat.le_trans hk hj)] at hsilent
      cases hsilent.2.1
    exact ⟨j, hj, hfalls j (Nat.le_trans hk hj) hstep⟩

/-- The run of a driver whose tasks are errands does not go on forever. -/
theorem not_endless (hserviced : Serviced course n) : ¬Endless course n p d s rest := by
  intro h
  have hstep : ∀ k ≥ n, (course (k + 1)).effort d ≤ (course k).effort d := by
    intro k hk
    rcases hflows.next k with hstep | ⟨w, hstirs, heq⟩
    · exact ((h.runsErrands k hk).effort_step hstep (h.goes k hk)).elim Nat.le_of_lt And.left
    · exact Nat.le_of_eq (by rw [heq, effort_of_stirs hstirs])
  refine not_falling (f := fun k => (course k).effort d) hstep fun k hk => ?_
  by_contra hnone
  have hlater : Serviced course k := fun j hj => hserviced j (Nat.le_trans hk hj)
  have hendless : Endless course k p d s rest :=
    ⟨fun j hj => h.runsErrands j (Nat.le_trans hk hj), fun j hj => h.goes j (Nat.le_trans hk hj)⟩
  refine not_stalled hflows hlater ⟨hendless, fun j hj hstep => ?_⟩
  have herrands := h.runsErrands j (Nat.le_trans hk hj)
  rcases herrands.effort_step hstep (h.goes j (Nat.le_trans hk hj)) with hless | ⟨-, hnoProgress⟩
  · exact absurd ⟨j, hj, hless⟩ hnone
  · exact hnoProgress

omit hflows in
/-- So it is over at some time. Until then the driver has errands only, and whatever else
holds at first holds if it is kept from one moment to the next. -/
theorem exists_runsOut {may : World → World → Prop} (hflows : Flows may course)
    (hmay : ∀ {a b}, may a b → a.Stirs b) {P : Machine → Prop}
    (h : (course n).RunsErrands p d s rest) (hP : P (course n))
    (hkeeps : ∀ k ≥ n, (course k).RunsErrands p d s rest → P (course k) →
      ¬(course k).RunsOut d (course (k + 1)) → P (course (k + 1)))
    (hserviced :
      (∀ k ≥ n, (course k).RunsErrands p d s rest ∧ P (course k) ∧
      ¬(course k).RunsOut d (course (k + 1))) → Serviced course n) :
    ∃ k ≥ n, (course k).RunsOut d (course (k + 1)) ∧ (course k).RunsErrands p d s rest ∧
      P (course k) := by
  have hstep : ∀ k ≥ n, ¬(course k).RunsOut d (course (k + 1)) → (course k).RunsErrands p d s rest →
      (course (k + 1)).RunsErrands p d s rest := by
    intro k _ hgoes herrands
    rcases hflows.next k with hnext | ⟨w, hw, heq⟩
    · exact herrands.step hnext hgoes
    · exact heq ▸ herrands.stirs (hmay hw)
  by_contra hnone
  have hall : ∀ k ≥ n, (course k).RunsErrands p d s rest ∧ P (course k) := by
    intro k hk
    induction hk with
    | refl => exact ⟨h, hP⟩
    | @step k hk ih =>
      have hgoes : ¬(course k).RunsOut d (course (k + 1)) := fun hends => hnone ⟨k, hk, hends, ih⟩
      exact ⟨hstep k hk hgoes ih.1, hkeeps k hk ih.1 ih.2 hgoes⟩
  have hgoes : ∀ k ≥ n, ¬(course k).RunsOut d (course (k + 1)) :=
    fun k hk hends => hnone ⟨k, hk, hends, hall k hk⟩
  exact not_endless (hflows.mono hmay)
    (hserviced fun k hk => ⟨(hall k hk).1, (hall k hk).2, hgoes k hk⟩)
    ⟨fun k hk => (hall k hk).1, hgoes⟩

end Stalled

end Fibers.Machine
