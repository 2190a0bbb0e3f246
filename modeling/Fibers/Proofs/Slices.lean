import Mathlib.Algebra.GroupWithZero.Nat
import Fibers.Proofs.Conservation
import Fibers.Proofs.Locality

/-!
Runs in slices. A run of a scheduler consists of laps: each takes up the first entry of
the queue and comes back to the loop. What a lap does depends neither on the count of the
laps before it nor on the bound nor on who waits for the run, so a run that is cut into
bounded runs does the same as a single one.
-/

namespace Fibers

namespace Machine

variable {m a b : Machine} {s : SchedulerId} {w u v w' : World} {n c : Nat} {max : Option Nat}
  {root rest : List Frame}

/-! ### Laps of the run loop -/

/-- A machine at the root, with some frames to go on with. -/
def rooted (w : World) (root : List Frame) : Machine := ⟨w, [], root, .advance⟩

/-- What the run loop does with an entry. -/
def takeUp (m : Machine) (s : SchedulerId) : Runnable → Machine
  | .fresh id body => m.start s id body
  | .woken fiber resumption => m.dispatch s fiber resumption

/-- The run loop has taken an entry off the queue of `w`, which leaves `u`, and taken it up. -/
def begun (w u : World) (root : List Frame) (s : SchedulerId) (entry : Runnable) : Machine :=
  ((rooted u root).takeUp s entry).leaveUnwound w.history.size

/-- One lap of a scheduler's run loop: it takes up the first entry and is at its next
lap afterwards, whatever stands below it. -/
def Lap (s : SchedulerId) (w w' : World) : Prop :=
  ∃ entry u, w.next? s = some (entry, u) ∧ ∀ root, Runs root (begun w u root s entry)
    (rooted w' root)

/-- Laps, one after the other. -/
inductive Laps (s : SchedulerId) (w : World) : Nat → World → Prop
  | none : Laps s w 0 w
  | more {n : Nat} {u v : World} (h : Laps s w n u) (hlap : Lap s u v) : Laps s w (n + 1) v

theorem exists_leaveUnwound_rooted (w : World) (length : Nat) :
    ∃ w', ∀ root, (rooted w root).leaveUnwound length = rooted w' root := by
  have hroots : ∀ root, (rooted w root).leaveUnwound length =
      bif (w.unwoundSince length).any (w.current = some ·) then rooted
        { w with current := none } root
      else rooted w root := fun root => rfl
  cases hlost : (w.unwoundSince length).any (w.current = some ·) with
  | true => exact ⟨_, fun root => (hroots root).trans (by rw [hlost, cond_true])⟩
  | false => exact ⟨_, fun root => (hroots root).trans (by rw [hlost, cond_false])⟩

/-- Nothing was unwound since now. -/
theorem leaveUnwound_self (m : Machine) : m.leaveUnwound m.world.history.size = m := by
  have hnone : m.world.unwoundSince m.world.history.size = [] := by
    rw [World.unwoundSince, ← Array.length_toList, List.drop_length, List.filterMap_nil]
  rw [leaveUnwound, hnone, List.any_nil, cond_false]

theorem dispatch_reroot (w : World) (s : SchedulerId) (fiber : Fiber) (resumption : Resumption) :
    ∃ m : Machine, ∀ root,
      (rooted w root).dispatch s fiber resumption = m.reroot (.dispatching s :: root) :=
  ⟨(rooted w []).enter fiber resumption, fun root =>
    reroot_enter (rooted w []) (.dispatching s :: root) fiber resumption⟩

theorem takeUp_cases (s : SchedulerId) (w : World) (entry : Runnable) :
    (∃ w', ∀ root, (rooted w root).takeUp s entry = rooted w' root) ∨
      ∃ m : Machine, ∀ root,
        (rooted w root).takeUp s entry = m.reroot (.dispatching s :: root) := by
  cases entry with
  | woken fiber resumption => exact .inr (dispatch_reroot w s fiber resumption)
  | fresh id body =>
    simp only [takeUp, start, show ∀ root, (rooted w root).world = w from fun _ => rfl]
    split
    · exact .inr (dispatch_reroot _ s _ _)
    · exact .inl ⟨_, fun root => rfl⟩

/-- The run loop has taken up an entry at once, or waits for its fiber. -/
theorem begun_cases (s : SchedulerId) (w u : World) (entry : Runnable) :
    (∃ w', ∀ root, begun w u root s entry = rooted w' root) ∨
      ∃ m : Machine, ∀ root, begun w u root s entry = m.reroot (.dispatching s :: root) := by
  rcases takeUp_cases s u entry with ⟨v, htaken⟩ | ⟨m, htaken⟩
  · obtain ⟨w', hleft⟩ := exists_leaveUnwound_rooted v w.history.size
    exact .inl ⟨w', fun root => by rw [begun, htaken, hleft]⟩
  · exact .inr
      ⟨m.leaveUnwound w.history.size, fun root => by rw [begun, htaken, reroot_leaveUnwound]⟩

/-- While a fiber is in its lap, a step stays in the lap or ends it. -/
theorem step_of_dispatching (hroot : a.root = .dispatching s :: root) (hstep : a.step? = some b) :
    (b.root = .dispatching s :: root ∧ ∀ other,
        (a.reroot (.dispatching s :: other)).step? = some (b.reroot (.dispatching s :: other))) ∨
      ∃ w, b = rooted w root ∧ ∀ other,
        (a.reroot (.dispatching s :: other)).step? = some (rooted w other) := by
  by_cases hinside : a.IsInside
  · refine .inl ⟨?_, fun other => ?_⟩
    · have hsame : (a.reroot a.root).step? = _ := reroot_step? hinside
      rw [show a.reroot a.root = a from rfl, hstep, Option.map_some] at hsame
      rw [Option.some.inj hsame, ← hroot]
      rfl
    · rw [reroot_step? hinside, hstep, Option.map_some]
  · obtain ⟨world, running, floor, control⟩ := a
    have hrunning : running = [] := Decidable.not_not.1 hinside
    subst hrunning
    cases hroot
    cases control with
    | back fiber exit =>
      obtain ⟨w, hleft⟩ :=
        exists_leaveUnwound_rooted (world.receive s fiber exit) world.history.size
      have hback : ∀ other, Machine.step? ⟨world, [], .dispatching s :: other,
          .back fiber exit⟩ = some (rooted w other) :=
        fun other => congrArg some (hleft other)
      exact .inr ⟨w, Option.some.inj (hstep.symm.trans (hback root)), hback⟩
    | _ => cases hstep

/-- A lap goes on in the same way above any frames. -/
theorem Runs.reroot (hruns : Runs root a b) (hroot : a.root = .dispatching s :: root)
    (other : List Frame) : (b.root = .dispatching s :: root ∧
        Runs other (a.reroot (.dispatching s :: other)) (b.reroot (.dispatching s :: other))) ∨
      ∃ w, b = rooted w root ∧ Runs other (a.reroot (.dispatching s :: other))
        (rooted w other) := by
  have habove : ∀ m : Machine, (m.reroot (.dispatching s :: other)).root ≠ other := fun m h => by
    simpa [Machine.reroot] using congrArg List.length h
  induction hruns with
  | refl => exact .inl ⟨hroot, .refl⟩
  | @step b c hruns hbelow hstep ih =>
    rcases ih with ⟨hdispatching, hsame⟩ | ⟨w, rfl, -⟩
    · rcases step_of_dispatching hdispatching hstep with ⟨hc, hstep'⟩ | ⟨w, rfl, hstep'⟩
      · exact .inl ⟨hc, hsame.step (habove b) (hstep' other)⟩
      · exact .inr ⟨w, rfl, hsame.step (habove b) (hstep' other)⟩
    · exact absurd rfl hbelow

theorem ne_of_cons {frame : Frame} {frames : List Frame} : frame :: frames ≠ frames := fun h => by
  simpa using congrArg List.length h

/-- A lap above some frames is a lap above any. -/
theorem Lap.of_runs {entry : Runnable} (hnext : w.next? s = some (entry, u))
    (hruns : Runs root (begun w u root s entry) (rooted w' root)) : Lap s w w' := by
  refine ⟨entry, u, hnext, fun other => ?_⟩
  rcases begun_cases s w u entry with ⟨v, htaken⟩ | ⟨m, htaken⟩ <;> rw [htaken] at hruns ⊢
  · have hsame := hruns.eq_of_root rfl
    rw [show w' = v from congrArg world hsame]
    exact .refl
  · rcases hruns.reroot rfl other with ⟨hroot, -⟩ | ⟨v, hsame, hother⟩
    · exact absurd hroot ne_of_cons.symm
    · rwa [show w' = v from congrArg world hsame]

/-! ### Bounded runs -/

/-- A run loop that begins at the root, bounded by `max`, returns its count `c`. -/
def Loops (s : SchedulerId) (rest : List Frame) (max : Option Nat) (w : World) (c : Nat)
    (w' : World) : Prop :=
  Runs rest (rooted w (.draining s 0 max :: rest)) ⟨w', [], rest, .answer (.ok c)⟩

/-- A bound is reached, or nothing is left to do. -/
def Stops (s : SchedulerId) (max : Option Nat) (n : Nat) (w : World) : Prop :=
  max = some n ∨ w.queue s = []

/-- A count that a bound allows. -/
def Within (max : Option Nat) (n : Nat) : Prop := ∀ bound ∈ max, n ≤ bound

theorem any_le_eq (h : Within max n) : max.any (· ≤ n) = decide (max = some n) := by
  cases max with
  | none => rfl
  | some bound =>
    have := h bound rfl
    simp only [Option.any_some, Option.some.injEq, decide_eq_decide]
    omega

/-- How far a bounded run has come. -/
inductive Progress (s : SchedulerId) (rest : List Frame) (max : Option Nat) (w : World) :
    Machine → Prop
  | loops {n : Nat} {u : World} (h : Laps s w n u) (hwithin : Within max n) :
      Progress s rest max w (rooted u (.draining s n max :: rest))
  | lap {n : Nat} {u v : World} {entry : Runnable} {m : Machine} (h : Laps s w n u)
      (hwithin : Within max (n + 1)) (hnext : u.next? s = some (entry, v))
      (hroot : m.root = .dispatching s :: .draining s (n + 1) max :: rest)
      (hruns : Runs (.draining s (n + 1) max :: rest)
        (begun u v (.draining s (n + 1) max :: rest) s entry) m) : Progress s rest max w m
  | answers {n : Nat} {u : World} (h : Laps s w n u) (hwithin : Within max n)
      (hstops : Stops s max n u) : Progress s rest max w ⟨u, [], rest, .answer (.ok n)⟩

theorem next?_eq_none (h : u.next? s = none) : u.queue s = [] := by
  rw [World.next?] at h
  split at h
  next hqueue => exact hqueue
  next => cases h

/-- The step in which the run loop has its turn. -/
theorem step_of_draining (u : World) (s : SchedulerId) (n : Nat) (max : Option Nat)
    (rest : List Frame) : (rooted u (.draining s n max :: rest)).step? =
      some (((rooted u rest).drain s n max).leaveUnwound u.history.size) := rfl

theorem drain_of_next {entry : Runnable} (hwithin : Within max n) (hmore : max ≠ some n)
    (hnext : u.next? s = some (entry, v)) (rest : List Frame) :
    (rooted u (.draining s n max :: rest)).step? =
    some (begun u v (.draining s (n + 1) max :: rest) s entry) := by
  rw [step_of_draining, drain, any_le_eq hwithin, decide_eq_false hmore,
    show (rooted u rest).world.next? s = _ from hnext]
  cases entry <;> rfl

theorem drain_of_stops (hwithin : Within max n) (hstops : Stops s max n u) (rest : List Frame) :
    (rooted u (.draining s n max :: rest)).step? = some ⟨u, [], rest, .answer (.ok n)⟩ := by
  have hreturns : (rooted u rest).drain s n max = ⟨u, [], rest, .answer (.ok n)⟩ := by
    rw [drain, any_le_eq hwithin]
    rcases hstops with rfl | hqueue
    · rw [decide_eq_true rfl]
      rfl
    · have hnext : (rooted u rest).world.next? s = none := by
        rw [World.next?, show (rooted u rest).world.queue s = [] from hqueue]
      rw [hnext]
      split <;> rfl
  rw [step_of_draining, hreturns]
  exact congrArg some (leaveUnwound_self ⟨u, [], rest, .answer (.ok n)⟩)

/-- The run loop stops, or begins a lap. -/
theorem step_loops (hwithin : Within max n)
    (hstep : (rooted u (.draining s n max :: rest)).step? = some b) :
    (Stops s max n u ∧ b = ⟨u, [], rest, .answer (.ok n)⟩) ∨
      (Within max (n + 1) ∧ ∃ entry v, u.next? s = some (entry, v) ∧
        b = begun u v (.draining s (n + 1) max :: rest) s entry) := by
  by_cases hstops : max = some n
  · rw [drain_of_stops hwithin (.inl hstops)] at hstep
    exact .inl ⟨.inl hstops, (Option.some.inj hstep).symm⟩
  cases hnext : u.next? s with
  | none =>
    have hqueue := next?_eq_none hnext
    rw [drain_of_stops hwithin (.inr hqueue)] at hstep
    exact .inl ⟨.inr hqueue, (Option.some.inj hstep).symm⟩
  | some taken =>
    obtain ⟨entry, v⟩ := taken
    rw [drain_of_next hwithin hstops hnext] at hstep
    refine .inr ⟨fun bound hbound => ?_, entry, v, rfl, (Option.some.inj hstep).symm⟩
    have := hwithin bound hbound
    have : bound ≠ n := fun heq => hstops (heq ▸ hbound)
    omega

theorem Progress.step (h : Progress s rest max w a) (habove : a.root ≠ rest)
    (hstep : a.step? = some b) :
    Progress s rest max w b := by
  cases h with
  | @loops n u h hwithin =>
    rcases step_loops hwithin hstep with ⟨hstops, rfl⟩ | ⟨hmore, entry, v, hnext, rfl⟩
    · exact .answers h hwithin hstops
    · rcases begun_cases s u v entry with ⟨v', htaken⟩ | ⟨m, htaken⟩
      · refine htaken _ ▸ .loops (h.more ⟨entry, v, hnext, fun root => ?_⟩) hmore
        exact htaken root ▸ .refl
      · exact .lap h hmore hnext (by rw [htaken]; rfl) .refl
  | lap h hwithin hnext hroot hruns =>
    have hstepped := hruns.step (by rw [hroot]; exact ne_of_cons) hstep
    rcases step_of_dispatching hroot hstep with ⟨hroot', -⟩ | ⟨w', rfl, -⟩
    · exact .lap h hwithin hnext hroot' hstepped
    · exact .loops (h.more (.of_runs hnext hstepped)) hwithin
  | answers => exact absurd rfl habove

theorem Progress.runs (h : Progress s rest max w a) (hruns : Runs rest a b) :
    Progress s rest max w b := by
  induction hruns with
  | refl => exact h
  | step _ habove hstep ih => exact ih.step habove hstep

theorem ne_of_cons_cons {first second : Frame} {frames : List Frame} :
    first :: second :: frames ≠ frames := by
  intro h
  have := congrArg List.length h
  simp only [List.length_cons] at this
  omega

/-- Whoever waits for the whole run waits for its laps. -/
theorem Runs.above {frame : Frame} (hruns : Runs (frame :: rest) a b)
    (hroot : a.root = .dispatching s :: frame :: rest) :
    Runs rest a b := by
  induction hruns with
  | refl => exact .refl
  | step hruns hbelow hstep ih =>
    rcases hruns.reroot hroot [] with ⟨hdispatching, -⟩ | ⟨w, rfl, -⟩
    · exact ih.step (hdispatching ▸ ne_of_cons_cons) hstep
    · exact absurd rfl hbelow

/-- A run of that many laps, as long as the bound allows them. -/
theorem Laps.runs (h : Laps s w n u) (hwithin : Within max n) (rest : List Frame) :
    Runs rest (rooted w (.draining s 0 max :: rest)) (rooted u (.draining s n max :: rest)) := by
  induction h with
  | none => exact .refl
  | @more n u v _ hlap ih =>
    obtain ⟨entry, between, hnext, hruns⟩ := hlap
    have hbefore : Within max n := fun bound hbound => Nat.le_of_succ_le (hwithin bound hbound)
    have hmore : max ≠ some n := fun heq => absurd (hwithin n heq) (Nat.not_succ_le_self n)
    have hstepped := (ih hbefore).step ne_of_cons (drain_of_next hbefore hmore hnext rest)
    replace hruns := hruns (.draining s (n + 1) max :: rest)
    rcases begun_cases s u between entry with ⟨v', htaken⟩ | ⟨m, htaken⟩ <;>
      rw [htaken] at hruns hstepped
    · rwa [hruns.eq_of_root rfl]
    · exact hstepped.trans (hruns.above rfl)

/-- A bounded run returns after as many laps as it counts. -/
theorem loops_iff : Loops s rest max w c w' ↔ Laps s w c w' ∧ Within max c ∧ Stops s max c w' := by
  constructor
  · intro h
    have hprogress : Progress s rest max w _ :=
      (Progress.loops .none fun _ _ => Nat.zero_le _).runs h
    generalize hlast : (⟨w', [], rest, .answer (.ok c)⟩ : Machine) = last at hprogress
    cases hprogress with
    | loops => cases hlast
    | lap _ _ _ hroot =>
      subst hlast
      exact absurd hroot.symm ne_of_cons_cons
    | answers h hwithin hstops =>
      cases hlast
      exact ⟨h, hwithin, hstops⟩
  · rintro ⟨h, hwithin, hstops⟩
    exact (h.runs hwithin rest).step ne_of_cons (drain_of_stops hwithin hstops rest)

/-! ### Slices -/

theorem Laps.trans {k : Nat} (first : Laps s w n u) (second : Laps s u k v) :
    Laps s w (n + k) v := by
  induction second with
  | none => exact first
  | more _ hlap ih => exact ih.more hlap

theorem Laps.split {k : Nat} (h : Laps s w (n + k) v) : ∃ u, Laps s w n u ∧ Laps s u k v := by
  induction k generalizing v with
  | zero => exact ⟨v, h, .none⟩
  | succ k ih =>
    cases h with
    | more h hlap =>
      obtain ⟨u, hfirst, hsecond⟩ := ih h
      exact ⟨u, hfirst, hsecond.more hlap⟩

/-- Nothing is taken from an empty queue. -/
theorem Laps.of_empty (h : Laps s w n u) (hqueue : w.queue s = []) : n = 0 ∧ u = w := by
  induction h with
  | none => exact ⟨rfl, rfl⟩
  | more _ hlap ih =>
    obtain ⟨-, rfl⟩ := ih
    obtain ⟨entry, between, hnext, -⟩ := hlap
    rw [World.next?, hqueue] at hnext
    cases hnext

/-- A run cut in two. -/
theorem loops_add_iff (bound : Nat) : Loops s rest (max.map (bound + ·)) w c w' ↔
    ∃ c₁ c₂ u, Loops s rest (some bound) w c₁ u ∧ Loops s rest max u c₂ w' ∧ c = c₁ + c₂ := by
  simp only [loops_iff]
  constructor
  · rintro ⟨hlaps, hwithin, hstops⟩
    have hrest : ∀ b ∈ max, c ≤ bound + b := fun b hb => hwithin _ (Option.mem_map_of_mem _ hb)
    rcases Nat.le_total c bound with hfirst | hfirst
    · have hstopped : Stops s (some bound) c w' ∧ Stops s max 0 w' := by
        rcases hstops with hreached | hqueue
        · obtain ⟨b, rfl, hsum⟩ := Option.map_eq_some_iff.1 hreached
          obtain ⟨rfl, rfl⟩ : b = 0 ∧ bound = c := by omega
          exact ⟨.inl rfl, .inl rfl⟩
        · exact ⟨.inr hqueue, .inr hqueue⟩
      exact ⟨c, 0, w', ⟨hlaps, fun b hb => Option.some.inj hb ▸ hfirst, hstopped.1⟩,
        ⟨.none, fun _ _ => Nat.zero_le _, hstopped.2⟩, rfl⟩
    · obtain ⟨k, rfl⟩ := Nat.exists_eq_add_of_le hfirst
      obtain ⟨u, hbefore, hafter⟩ := hlaps.split
      refine ⟨bound, k, u, ⟨hbefore, fun b hb => Option.some.inj hb ▸ Nat.le_refl _, .inl rfl⟩,
        ⟨hafter, fun b hb => Nat.le_of_add_le_add_left (hrest b hb),
          hstops.imp_left fun hreached => ?_⟩, rfl⟩
      obtain ⟨b, rfl, hsum⟩ := Option.map_eq_some_iff.1 hreached
      exact congrArg some (Nat.add_left_cancel hsum)
  · rintro ⟨c₁, c₂, u, ⟨hfirst, hwithin₁, hstops₁⟩, ⟨hsecond, hwithin₂, hstops₂⟩, rfl⟩
    refine ⟨hfirst.trans hsecond, fun b hb => ?_, ?_⟩
    · obtain ⟨b', hb', rfl⟩ := Option.map_eq_some_iff.1 hb
      exact Nat.add_le_add (hwithin₁ bound rfl) (hwithin₂ b' hb')
    · rcases hstops₁ with hreached | hqueue
      · exact hstops₂.imp_left fun hmax => by rw [hmax, Option.some.inj hreached]; rfl
      · obtain ⟨rfl, rfl⟩ := hsecond.of_empty hqueue
        exact .inr hqueue

/-- A scheduler's run at the root, bounded by `max`, takes the world from `w` to `w'` and
returns its count `c`. -/
def RunAnswers (s : SchedulerId) (rest : List Frame) (max : Option Nat) (w : World) (c : Nat)
    (w' : World) : Prop :=
  Runs rest ((rooted w rest).run s max) ⟨w', [], rest, .answer (.ok c)⟩

/-- Bounded runs, one after the other, return counts that sum up to `c`. -/
def Slices (s : SchedulerId) (rest : List Frame) : List Nat → World → Nat → World → Prop
  | [], w, c, w' => c = 0 ∧ w' = w
  | bound :: bounds, w, c, w' =>
    ∃ c₁ c₂ u, RunAnswers s rest (some bound) w c₁ u ∧ Slices s rest bounds u c₂ w' ∧ c = c₁ + c₂

/-- As far as a bound goes, no lap leaves a fiber behind as the current one. -/
def Vacates (s : SchedulerId) (max : Option Nat) (w : World) : Prop :=
  ∀ n u, Laps s w n u → Within max n → u.current = none

theorem run_rooted (h : w.current = none) (s : SchedulerId) (max : Option Nat) (rest : List Frame) :
    (rooted w rest).run s max = rooted w (.draining s 0 max :: rest) := by
  rw [run, show (rooted w rest).world.currentId =
    none by rw [World.currentId, show (rooted w rest).world.current = none from h]; rfl]
  rfl

theorem runAnswers_iff : RunAnswers s rest max w c w' ↔ w.current = none ∧
    Loops s rest max w c w' := by
  cases hcurrent : w.current with
  | none => rw [RunAnswers, run_rooted hcurrent, Loops, and_iff_right rfl]
  | some current =>
    refine iff_of_false (fun h => ?_) nofun
    rw [RunAnswers, run, show (rooted w rest).world.currentId = some current.id by
      rw [World.currentId, show (rooted w rest).world.current = some current from hcurrent];
        rfl] at h
    cases congrArg Machine.control (h.eq_of_root rfl)

theorem Vacates.current (h : Vacates s max w) : w.current = none :=
  h 0 w .none fun _ _ => Nat.zero_le _

theorem Vacates.after {bound : Nat} (h : Vacates s (max.map (bound + ·)) w) (hlaps : Laps s w c u)
    (hle : c ≤ bound) :
    Vacates s max u :=
  fun n v hmore hwithin => h (c + n) v (hlaps.trans hmore) fun b hb => by
    obtain ⟨b', hb', rfl⟩ := Option.map_eq_some_iff.1 hb
    exact Nat.add_le_add hle (hwithin b' hb')

theorem Vacates.after_loops {bound : Nat} (h : Vacates s (max.map (bound + ·)) w)
    (hloops : Loops s rest (some bound) w c u) : Vacates s max u := by
  obtain ⟨hlaps, hwithin, -⟩ := loops_iff.1 hloops
  exact h.after hlaps (hwithin bound rfl)

/-- A run cut in two. -/
theorem Vacates.add_iff {bound : Nat} (h : Vacates s (max.map (bound + ·)) w) :
    RunAnswers s rest (max.map (bound + ·)) w c w' ↔
      ∃ c₁ c₂ u, RunAnswers s rest (some bound) w c₁ u ∧ RunAnswers s rest max u c₂ w' ∧
        c = c₁ + c₂ := by
  simp only [runAnswers_iff, loops_add_iff, h.current, true_and]
  refine exists_congr fun c₁ => exists_congr fun c₂ => exists_congr fun u =>
    and_congr_right fun hfirst => ?_
  rw [(h.after_loops hfirst).current, eq_self, true_and]

/-- A run cut in slices. -/
theorem Vacates.slices_iff {bounds : List Nat} (h : Vacates s (some bounds.sum) w) :
    Slices s rest bounds w c w' ↔ RunAnswers s rest (some bounds.sum) w c w' := by
  induction bounds generalizing w c with
  | nil =>
    rw [runAnswers_iff, loops_iff, Slices, List.sum_nil]
    constructor
    · rintro ⟨rfl, rfl⟩
      exact ⟨h.current, .none, fun _ _ => Nat.zero_le _, .inl rfl⟩
    · rintro ⟨-, hlaps, hwithin, -⟩
      cases Nat.le_zero.1 (hwithin 0 rfl)
      cases hlaps
      exact ⟨rfl, rfl⟩
  | cons bound bounds ih =>
    rw [List.sum_cons]
    have hmapped : Vacates s ((some bounds.sum).map (bound + ·)) w := h
    refine .trans ?_ hmapped.add_iff.symm
    refine exists_congr fun c₁ => exists_congr fun c₂ => exists_congr fun u =>
      and_congr_right fun hfirst =>
      and_congr_left fun _ => ih ?_
    exact hmapped.after_loops (runAnswers_iff.1 hfirst).2

/-- A drain in slices is one run without a bound. -/
theorem Vacates.drain_iff {bounds : List Nat} (h : Vacates s none w) :
    (Slices s rest bounds w c w' ∧ w'.queue s = []) ↔
    (RunAnswers s rest none w c w' ∧ c ≤ bounds.sum) := by
  have hbounded : Vacates s (some bounds.sum) w := fun n u hlaps _ => h n u hlaps nofun
  simp only [hbounded.slices_iff, runAnswers_iff, loops_iff]
  constructor
  · rintro ⟨⟨hcurrent, hlaps, hwithin, -⟩, hqueue⟩
    exact ⟨⟨hcurrent, hlaps, nofun, .inr hqueue⟩, hwithin _ rfl⟩
  · rintro ⟨⟨hcurrent, hlaps, -, hstops⟩, hle⟩
    have hqueue := hstops.resolve_left nofun
    exact ⟨⟨hcurrent, hlaps, fun _ hb => Option.some.inj hb ▸ hle, .inr hqueue⟩, hqueue⟩

/-! ### Counts -/

theorem Visits.runs {script : Script} (h : Visits (fun _ => True) script.start m)
    (hruns : Runs rest m a) : Visits (fun _ => True) script.start a := by
  induction hruns with
  | refl => exact h
  | step _ _ hstep ih => exact ih.leads (.steps .refl hstep fun _ _ => trivial)

/-- A run loop that begins in a session. -/
structure Begins (script : Script) (s : SchedulerId) (max : Option Nat) (rest : List Frame)
    (m : Machine) : Prop where
  visits : Visits (fun _ => True) script.start m
  rootLevel : m.running = []
  loop : m.root = .draining s 0 max :: rest

variable {script : Script}

theorem Begins.eq_rooted (h : Begins script s max rest m) :
    m = rooted m.world (.draining s 0 max :: rest) := by
  have hm : m.Sound True := h.visits.sound fun _ _ _ _ => trivial
  have hloop : m.Looping s 0 max rest := .inl h.loop
  obtain ⟨-, hrunning, hroot⟩ := h
  obtain ⟨world, running, root, control⟩ := m
  cases hrunning
  cases hroot
  rcases hloop.atRoot hm rfl with ⟨-, hcontrol⟩ | ⟨htop, -⟩
  · cases hcontrol
    rfl
  · cases htop

theorem Begins.vacates (h : Begins script s max rest m) : Vacates s max m.world := by
  intro n u hlaps hwithin
  have hruns := hlaps.runs hwithin rest
  rw [← h.eq_rooted] at hruns
  have hu : (rooted u (.draining s n max :: rest)).Sound True :=
    (h.visits.runs hruns).sound fun _ _ _ _ => trivial
  exact hu.current

/-- What a scheduler counted of its dispatches. -/
def transfers (w : World) (s : SchedulerId) : Option Nat :=
  (w.counted s).map fun counters => counters.completed + counters.failed + counters.panicked +
  counters.suspensions

theorem transfers_eq (h : Visits (fun _ => True) script.start m) (hrunning : m.running = [])
    (hcontrol : m.control.home? = none) (halive : 0 < m.world.owners s) :
    transfers m.world s = some (m.world.dispatched s).length := by
  obtain ⟨scheduler, hs⟩ := Option.isSome_iff_exists.1 (scheduler_of_owners halive)
  have hcounted : m.world.counted s = some scheduler.counters := by
    rw [World.counted, hs, Option.map_some]
  obtain ⟨-, -, hdispatched⟩ := h.agrees s scheduler.counters hcounted
  have hentered : m.entered s = 0 := by
    rw [entered, homes, within, hcontrol, hrunning]
    rfl
  rw [transfers, hcounted, Option.map_some]
  rw [hentered] at hdispatched
  exact congrArg some hdispatched

/-- A run counts its dispatches. -/
theorem Begins.transfers (h : Begins script s max rest m)
    (hanswers : RunAnswers s rest max m.world c w') :
    ∃ before, transfers m.world s = some before ∧ transfers w' s = some (before + c) := by
  have hm : m.Sound True := h.visits.sound fun _ _ _ _ => trivial
  have hloop : m.Looping s 0 max rest := .inl h.loop
  obtain ⟨-, hloops⟩ := runAnswers_iff.1 hanswers
  obtain ⟨hlaps, hwithin, -⟩ := loops_iff.1 hloops
  have hlast := hlaps.runs hwithin rest
  rw [← h.eq_rooted] at hlast
  have hvisits := h.visits.runs hlast
  have hbefore := transfers_eq h.visits h.rootLevel (by rw [h.eq_rooted]; rfl) (hloop.alive hm)
  have hafter := transfers_eq hvisits rfl rfl
    (Looping.alive (s := s) (.inl rfl) (hvisits.sound fun _ _ _ _ => trivial))
  refine ⟨_, hbefore, hafter.trans ?_⟩
  obtain ⟨served, arrived, hserved, -, hend⟩ := hloop.serviced hm (fun _ _ => Nat.zero_le _) hlast
  have hlength : served.length = c := by
    rcases hend with hlooping | ⟨hreturned, -⟩
    · rcases hlooping with hroot | hroot <;> injection hroot with hframe
      · injection hframe with _ hcount
        omega
      · cases hframe
    · exact absurd hreturned.root ne_of_cons
  rw [show (rooted w' (.draining s c max :: rest)).world = w' from rfl] at hserved ⊢
  rw [hserved.dispatched, List.length_append, hlength]

/-- A run cut into bounded runs is the same run: what happens, and where it ends, does not
depend on the cuts, and the counts sum up. A run that returns has made as many transfers as
it says, which are no more than its bound, and has emptied the queue unless it reached it. -/
theorem runs_can_be_sliced (h : Begins script s max rest m) :
    (rooted m.world rest).run s max = m ∧
    (∀ bound more, max = more.map (bound + ·) → ∀ c w', RunAnswers s rest max m.world c w' ↔
      ∃ c₁ c₂ u, RunAnswers s rest (some bound) m.world c₁ u ∧ RunAnswers s rest more u c₂ w' ∧
        c = c₁ + c₂) ∧
    (∀ bounds, max = some bounds.sum → ∀ c w',
      RunAnswers s rest max m.world c w' ↔ Slices s rest bounds m.world c w') ∧
    (max = none → ∀ bounds c w', Slices s rest bounds m.world c w' ∧ w'.queue s = [] ↔
      RunAnswers s rest max m.world c w' ∧ c ≤ bounds.sum) ∧
    ∀ c w', RunAnswers s rest max m.world c w' → (∀ bound ∈ max, c ≤ bound) ∧
      (max ≠ some c → w'.queue s = []) ∧
      ∃ before, transfers m.world s = some before ∧ transfers w' s = some (before + c) := by
  have hvacates := h.vacates
  refine ⟨(run_rooted hvacates.current s max rest).trans h.eq_rooted.symm, ?_, ?_, ?_,
    fun c w' hanswers => ?_⟩
  · rintro bound more rfl c w'
    exact hvacates.add_iff
  · rintro bounds rfl c w'
    exact hvacates.slices_iff.symm
  · rintro rfl bounds c w'
    exact hvacates.drain_iff
  · obtain ⟨-, hwithin, hstops⟩ := loops_iff.1 (runAnswers_iff.1 hanswers).2
    exact ⟨hwithin, fun hmore => hstops.resolve_left hmore, h.transfers hanswers⟩

theorem runs_settle (m : Machine) (rest : List Frame) (steps : Nat)
    (h : ∀ i < steps, rest.length < (m.settle i).root.length) : Runs rest m (m.settle steps) := by
  induction steps with
  | zero => exact .refl
  | succ steps ih =>
    have hbefore := ih fun i hi => h i (Nat.lt_succ_of_lt hi)
    have habove : (m.settle steps).root ≠ rest := fun heq =>
      Nat.lt_irrefl _ (heq ▸ h steps (Nat.lt_succ_self steps))
    rw [← settle_add]
    cases hstep : (m.settle steps).step? with
    | none => simpa only [settle, hstep] using hbefore
    | some next => simpa only [settle, hstep] using hbefore.step habove hstep

/-- Two tasks are queued, and run. -/
def twoTasks : Action :=
  .scope [.enqueue 0 [.log .null], .enqueue 0 [.log .null], .run 0 (some 2) false] false

/-- The run of both of them. -/
def runOfTwo : Machine := (Script.begin Script.single.start twoTasks).settle 4

/-- Whoever asked for that run. -/
def waitingForTwo : List Frame := [.answering ⟨0⟩ (.run false), .actions [] [], .actions [] []]

/-- It is the same as two runs of one. -/
theorem run_of_two_can_be_sliced : ∃ w', Begins Script.single ⟨0⟩ (some 2) waitingForTwo runOfTwo ∧
    Slices ⟨0⟩ waitingForTwo [1, 1] runOfTwo.world 2 w' ∧ transfers w' ⟨0⟩ = some 2 := by
  have hbegins : Begins Script.single ⟨0⟩ (some 2) waitingForTwo runOfTwo :=
    ⟨visits_settle Script.single.start twoTasks
      4, by with_unfolding_all rfl, by with_unfolding_all rfl⟩
  have hruns : Runs waitingForTwo runOfTwo (runOfTwo.settle 11) :=
    runs_settle _ _ _ (by decide +kernel)
  have hreturns : runOfTwo.settle 11 =
      ⟨(runOfTwo.settle 11).world, [], waitingForTwo, .answer (.ok 2)⟩ := by
    with_unfolding_all rfl
  obtain ⟨hsame, -, hslices, -, hcounts⟩ := runs_can_be_sliced hbegins
  have hanswers : RunAnswers ⟨0⟩ waitingForTwo (some 2) runOfTwo.world 2
      (runOfTwo.settle 11).world := by
    rw [RunAnswers, hsame, ← hreturns]
    exact hruns
  obtain ⟨-, -, before, hbefore, hafter⟩ := hcounts _ _ hanswers
  cases hbefore.symm.trans (show transfers runOfTwo.world ⟨0⟩ = some 0 by with_unfolding_all rfl)
  exact ⟨_, hbegins, (hslices [1, 1] rfl _ _).1 hanswers, hafter⟩

end Machine

end Fibers
