import Fibers.Proofs.Rounds

/-!
How control nests. A step stays on the innermost level, goes from there into a
fiber, or comes back from there to the level below. So whatever happens above a
level leaves it as it was, and when control comes back to it, the same fiber is
current as before. Fibers that are unwound are none of those that control is in,
so nothing is to be restored for them.
-/

namespace Fibers

/-- What stays the same about a level while code on it goes on: its fiber, and what
was current when the fiber was entered. -/
def Running.seat (running : Running) : Current × Option Current := (running.current, running.outer)

namespace Machine

variable {byHand : Prop} {allowed : Action → Prop} {m m' a b : Machine} {running : Running}
  {below : List Running} {x : HandleRef} {fiber : Fiber}

/-- The handle that a fiber suspends on: the one that its await made, or the one
in the slot that the program names. -/
def SuspendsOn (m : Machine) (fiber : Fiber) (x : HandleRef) : Prop :=
  (∃ plan frames first, fiber.state = .suspended (.awaiting x plan :: frames) first) ∨
    ∃ slot keep raises, m.nextAction?.map Action.core = some (.suspend slot keep raises) ∧
      m.world.slots.get? slot = some x

/-- What a step does to the nest that control is in. -/
inductive Nests (m : Machine) : Machine → Prop
  | stays (frames : List Frame) (w : World) (control : Control) : Nests m (m.goTo frames w control)
  | enters (frames : List Frame) (w : World) (told : Control) (fiber : Fiber) (first : Payload)
      (inner : List Frame) (control : Control) :
      Nests m ((m.goTo frames w told).occupy fiber first inner control)
  | returns {running : Running} {below : List Running} (hrunning : m.running = running :: below)
      (w : World) (state : FiberState) (exit : Exit)
      (hexit : ∀ x, exit = .suspended x → m.SuspendsOn (running.leave state) x)
      (hstate : (∃ frames first, state = .suspended frames first) ∨
        Happening.mark (.ended (running.leave state) exit) ∈ w.history.toList) :
      Nests m ⟨w, below, m.root, .back (running.leave state) exit⟩

namespace Nests

/-- Control goes into a fiber, unless that has finished. -/
theorem enter (m : Machine) (frames : List Frame) (w : World) (told : Control) (fiber : Fiber)
    (resumption : Resumption) : m.Nests ((m.goTo frames w told).enter fiber resumption) := by
  rw [enter.eq_def]
  split
  · split <;> exact .enters ..
  · exact .enters ..
  · simp only [withWorld_eq, goTo_withControl, goTo_goTo, goTo_top]
    exact .stays ..

/-- A fiber that suspends goes back to where it was entered. -/
theorem suspend (frames : List Frame) (w : World) (told : Control)
    (h : ∀ running below, m.running = running :: below →
      m.SuspendsOn (running.leave (.suspended frames running.first)) x) :
    m.Nests ((m.goTo frames w told).suspend x) := by
  obtain ⟨world, levels, root, control⟩ := m
  cases levels with
  | nil => exact .stays frames w told
  | cons running below =>
    have hreturns : Nests ⟨world, running :: below, root, control⟩
        ⟨{ w with current := running.outer }, below, root,
        .back (running.leave (.suspended frames running.first)) (.suspended x)⟩ := by
      refine .returns rfl _ _ _ (fun y hy => ?_) (.inl ⟨_, _, rfl⟩)
      cases hy
      exact h running below rfl
    exact hreturns

theorem suspendAwait (m : Machine) (frames : List Frame) (w : World) (told : Control)
    (x : HandleRef) (plan : AwaitPlan) : m.Nests ((m.goTo frames w told).suspendAwait x plan) := by
  rw [Machine.suspendAwait, goTo_push]
  exact suspend _ _ _ fun running below _ => .inl ⟨plan, frames, running.first, rfl⟩

theorem run (m : Machine) (frames : List Frame) (w : World) (told : Control) (s : SchedulerId)
    (max : Option Nat) : m.Nests ((m.goTo frames w told).run s max) := by
  obtain ⟨frames', control, heq, -⟩ := run_eq (m.goTo frames w told) s max
  rw [heq, goTo_goTo]
  exact .stays ..

theorem deliver (m : Machine) (frames : List Frame) (w : World) (told : Control) (s : SchedulerId)
    (x : HandleRef) (resumption : Resumption) :
    m.Nests ((m.goTo frames w told).deliver s x resumption) := by
  rw [Machine.deliver]
  simp only
  split
  · exact .stays ..
  · exact .stays ..
  · split
    · exact .stays ..
    · rw [dispatch, goTo_withWorld, goTo_push, goTo_push]
      exact enter ..

theorem drain (m : Machine) (frames : List Frame) (w : World) (told : Control)
    (s : SchedulerId) (ran : Nat) (max : Option Nat) :
    m.Nests ((m.goTo frames w told).drain s ran max) := by
  have hdrains := (m.goTo frames w told).drains s ran max
  generalize (m.goTo frames w told).drain s ran max = m' at hdrains
  cases hdrains with
  | stops | fails =>
    rw [goTo_goTo]
    exact .stays ..
  | starts | wakes =>
    rw [goTo_goTo]
    exact enter ..

end Nests

/-- An action stays on its level, enters a fiber, or suspends the one it is in. -/
theorem Does.nests {frames : List Frame} {w : World} {told : Control}
    (hdoes : Does (fun action => m.nextAction?.map Action.core = some action)
      (m.goTo frames w told) m')
    (hslots : w.slots = m.world.slots) : m.Nests m' := by
  cases hdoes with
  | idle | enqueues | awaits | strands | drives | drivers | makes =>
    rw [goTo_goTo]
    exact .stays ..
  | asks =>
    rw [goTo_goTo]
    exact .run ..
  | delivers =>
    rw [goTo_goTo]
    exact .deliver ..
  | issues | waits =>
    rw [goTo_goTo]
    exact .suspendAwait ..
  | @suspends w' x slot keep raises hallowed hshift hcurrent hslot =>
    rw [goTo_goTo]
    rw [goTo_world, hslots] at hslot
    exact .suspend _ _ _ fun running below _ => .inr ⟨slot, keep, raises, hallowed, hslot⟩
  | @parks w x fiber slot keep name owner =>
    generalize w.park x fiber (.caller owner) = result
    obtain ⟨_ | ⟨other, resumption⟩, w'⟩ := result <;>
      simp only [parkedByHand, handOut, goTo_goTo, goTo_withWorld, goTo_emit, goTo_world] <;>
        exact .stays ..
  | @wakes w x resumption slot keep name owner =>
    generalize w.wake x (.caller owner) resumption = result
    obtain ⟨_ | _ | ⟨fiber, told⟩, w'⟩ := result <;>
      simp only [wokenByHand, handOut, goTo_goTo, goTo_withWorld, goTo_emit, goTo_world] <;>
        exact .stays ..
  | transfers =>
    rw [goTo_goTo]
    exact .enter ..

/-- What any step does to the nest. -/
theorem Sound.nests (h : m.Sound byHand) (hstep : m.step? = some m') : m.Nests m' := by
  have hmoves : Moves (fun action => m.nextAction?.map Action.core = some action) m m' :=
    step_moves hstep h fun action haction => congrArg (Option.map Action.core) haction
  cases hmoves with
  | acts htop hcontrol hdoes => exact hdoes.nests rfl
  | idle | receives | goesOn | hears | settles | ends | breaks => exact .stays ..
  | registered => exact .suspendAwait ..
  | @concludes x plan frames resumption htop hcontrol =>
    obtain ⟨w, control, heq, -⟩ :=
      concludeAwait_eq (m.goTo frames m.world m.control) x plan resumption
    rw [heq, goTo_goTo]
    exact .stays ..
  | @transferred name slot fiber exit frames htop hcontrol =>
    obtain ⟨w, heq, -⟩ :=
      transferred_noProgress (m.goTo frames m.world m.control) name slot fiber exit
    rw [heq, goTo_goTo]
    exact .stays ..
  | @completed d key fiber result frames htop hcontrol =>
    obtain ⟨w, heq, -⟩ := completed_eq (m.goTo frames m.world m.control) d key fiber result
    rw [heq, goTo_goTo]
    exact .stays ..
  | drains => exact .drain ..
  | asksAgain => exact .run ..
  | resumes | completes => exact .deliver ..
  | @leaves running below exit hrunning htop hexit =>
    refine .returns hrunning _ .finished exit (fun x hx => ?_) (.inr ?_)
    · rw [hx] at hexit
      cases hcontrol : m.control <;> rw [hcontrol] at hexit <;> cases hexit
    · simp [World.mark]

/-! ### Levels and what happens above them -/

/-- Steps that never go below a number of levels, and what the host does between them. -/
inductive Above (depth : Nat) (m : Machine) : Machine → Prop
  | refl : Above depth m m
  | step {a b : Machine} (h : Above depth m a) (hstep : a.step? = some b)
      (hdeep : depth ≤ b.running.length) : Above depth m b
  | stirs {a : Machine} {w : World} (h : Above depth m a) (hstirs : a.world.Stirs w) :
      Above depth m (a.withWorld w)

theorem Above.sound {depth : Nat} (h : m.Above depth m') (hm : m.Sound True) : m'.Sound True := by
  induction h with
  | refl => exact hm
  | step _ hstep _ ih => exact ih.step hstep
  | stirs _ hstirs ih => exact ih.stirs hstirs

theorem map_seat_goTo (m : Machine) (frames : List Frame) (w : World) (control : Control) :
    (m.goTo frames w control).running.map Running.seat = m.running.map Running.seat := by
  obtain ⟨world, levels, root, told⟩ := m
  cases levels <;> rfl

theorem map_current_eq {levels levels' : List Running}
    (h : levels.map Running.seat = levels'.map Running.seat) :
    levels.head?.map Running.current = levels'.head?.map Running.current := by
  have hheads : (levels.map Running.seat).head?.map Prod.fst = (levels'.map Running.seat).head?.map
      Prod.fst := by
    rw [h]
  rw [List.head?_map, List.head?_map, Option.map_map, Option.map_map] at hheads
  exact hheads

/-- The levels that a nest began with stay at its bottom. -/
theorem Nests.suffix {seats : List (Current × Option Current)} (h : a.Nests b)
    (hbottom : seats <:+ a.running.map Running.seat) (hdeep : seats.length ≤ b.running.length) :
    seats <:+ b.running.map Running.seat := by
  cases h with
  | stays => rwa [map_seat_goTo]
  | enters frames w told fiber first inner control =>
    rw [occupy, List.map_cons, map_seat_goTo]
    exact hbottom.trans (List.suffix_cons ..)
  | returns hrunning w state exit =>
    rw [hrunning, List.map_cons, List.suffix_cons_iff] at hbottom
    refine hbottom.resolve_left fun heq => ?_
    rw [heq, List.length_cons, List.length_map] at hdeep
    exact absurd hdeep (Nat.not_succ_le_self _)

theorem Above.suffix (h : m.Above m.running.length m') (hm : m.Sound True) :
    m.running.map Running.seat <:+ m'.running.map Running.seat := by
  induction h with
  | refl => exact List.suffix_refl _
  | step habove hstep hdeep ih =>
    exact ((habove.sound hm).nests hstep).suffix ih (by rwa [List.length_map])
  | stirs _ _ ih => exact ih

/-- The fiber that was entered over some levels still has them below it, just as they were. -/
structure Covers (running : Running) (below : List Running) (root : List Frame) (m : Machine) :
    Prop where
  levels : ∃ (upper : List Running) (inner : Running), m.running = upper ++ inner :: below ∧
    inner.serial = running.serial ∧ inner.id = running.id
  root : m.root = root

theorem Covers.goTo {root : List Frame} (h : Covers running below root m)
    (frames : List Frame) (w : World) (control : Control) :
    Covers running below root (m.goTo frames w control) := by
  obtain ⟨⟨upper, inner, hrunning, hserial, hid⟩, hroot⟩ := h
  obtain ⟨world, levels, rest, told⟩ := m
  cases hrunning
  cases upper with
  | nil => exact ⟨⟨[], { inner with frames }, rfl, hserial, hid⟩, hroot⟩
  | cons first upper => exact ⟨⟨{ first with frames } :: upper, inner, rfl, hserial, hid⟩, hroot⟩

theorem Covers.nests {root : List Frame} (h : Covers running below root a) (hnests : a.Nests b)
    (hdeep : below.length < b.running.length) : Covers running below root b := by
  cases hnests with
  | stays => exact h.goTo ..
  | enters frames w told fiber first stack control =>
    obtain ⟨⟨upper, inner, hrunning, hseat⟩, hroot⟩ := h.goTo frames w told
    obtain ⟨entered, hentered⟩ : ∃ entered,
      ((a.goTo frames w told).occupy fiber first stack control).running =
      entered :: (a.goTo frames w told).running := ⟨_, rfl⟩
    exact ⟨⟨entered :: upper, inner, by rw [hentered, hrunning]; rfl, hseat⟩, hroot⟩
  | returns hrunning w state exit =>
    obtain ⟨⟨upper, inner, hlevels, hseat⟩, hroot⟩ := h
    rw [hrunning] at hlevels
    cases upper with
    | nil =>
      cases hlevels
      exact absurd hdeep (Nat.lt_irrefl _)
    | cons first upper =>
      cases hlevels
      exact ⟨⟨upper, inner, rfl, hseat⟩, hroot⟩

theorem Above.covers {root : List Frame} (h : m.Above (below.length + 1) m') (hm : m.Sound True)
    (hcovers : Covers running below root m) : Covers running below root m' := by
  induction h with
  | refl => exact hcovers
  | step habove hstep hdeep ih => exact ih.nests ((habove.sound hm).nests hstep) hdeep
  | stirs _ _ ih => exact ⟨ih.levels, ih.root⟩

/-- Control comes back from a fiber to where it was entered last: `m` is the state
before the transfer, `e` the one after it, `a` the one before control comes back. -/
structure ComesBack (m e a m' : Machine) (fiber : Fiber) (exit : Exit) : Prop where
  entered : e.world.current = some ⟨fiber.serial, fiber.id⟩
  control : m'.control = .back fiber exit
  levels : m'.running = e.running.tail
  root : m'.root = e.root
  current : m'.world.current = m.world.current
  /-- A fiber that suspends brings the handle that it suspended on. -/
  handle : ∀ x, exit = .suspended x → a.SuspendsOn fiber x

theorem comes_back {e : Machine} (hm : m.Sound True) (henter : m.step? = some e)
    (hdeeper : m.running.length < e.running.length) (habove : e.Above (m.running.length + 1) a)
    (hstep : a.step? = some m') (hback : m'.running.length = m.running.length) :
    ∃ fiber exit, m.ComesBack e a m' fiber exit := by
  have he := hm.step henter
  have ha := habove.sound he
  have hm' := ha.step hstep
  have hentered : ∃ entered below, e.running = entered :: below ∧
      below.map Running.seat = m.running.map Running.seat := by
    cases hm.nests henter with
    | stays frames w control =>
      have hlength := congrArg List.length (m.map_seat_goTo frames w control)
      simp only [List.length_map] at hlength
      omega
    | enters frames w told fiber first inner control => exact ⟨_, _, rfl, m.map_seat_goTo ..⟩
    | returns hrunning =>
      rw [hrunning, List.length_cons] at hdeeper
      exact absurd hdeeper (Nat.not_lt.2 (Nat.le_succ _))
  obtain ⟨entered, below, hlevels, hseats⟩ := hentered
  have hlength : below.length = m.running.length := by
    simpa only [List.length_map] using congrArg List.length hseats
  have hcurrent : e.world.current = some entered.current := by rw [he.current, hlevels]; rfl
  rw [← hlength] at habove
  have hcovers : Covers entered below e.root e := ⟨⟨[], entered, hlevels, rfl, rfl⟩, rfl⟩
  obtain ⟨⟨upper, inner, hrunning, hserial, hid⟩, hroot⟩ := habove.covers he hcovers
  have hhead := map_current_eq hseats
  have hdepth := congrArg List.length hrunning
  rw [List.length_append, List.length_cons] at hdepth
  cases ha.nests hstep with
  | stays frames w control =>
    have hstays := congrArg List.length (a.map_seat_goTo frames w control)
    simp only [List.length_map] at hstays
    omega
  | enters frames w told fiber first inner control =>
    have hstays := congrArg List.length (a.map_seat_goTo frames w told)
    simp only [List.length_map, occupy, List.length_cons] at hstays hback
    omega
  | @returns left under hleft w state exit hexit hstate =>
    rw [hrunning] at hleft
    have hnone : upper = [] := by
      refine List.length_eq_zero_iff.1 ?_
      have := congrArg List.length hleft
      rw [List.length_append, List.length_cons, List.length_cons] at this
      have : under.length = m.running.length := hback
      omega
    subst hnone
    cases hleft
    exact ⟨inner.leave state, exit, hcurrent.trans (by rw [Running.leave, hserial, hid]; rfl), rfl,
      by rw [hlevels]; rfl, hroot, by rw [hm'.current, hhead, hm.current], hexit⟩

/-! ### Fibers that are unwound -/

/-- No fiber that was unwound by the end of a step is one that control was in before it. -/
theorem serial_ne_of_discarded (hm : m.Sound True) (hstep : m.step? = some m') {serial : Nat}
    {id : FiberId} {home : Option SchedulerId}
    (hmark : .mark (.discarded serial id home) ∈ m'.world.history.toList)
    (member : running ∈ m.running) : running.serial ≠ serial := by
  have hm' := hm.step hstep
  have hone : Mark.terminates serial (.discarded serial id home) = 1 := if_pos rfl
  have hburied := le_tally hmark (Mark.terminates serial)
  rw [hone] at hburied
  have hseats : ∀ levels : List Running, levels.map Running.seat = m.running.map Running.seat →
      levels ⊆ m'.running → running.serial ≠ serial := by
    intro levels heq hsub
    obtain ⟨inner, hinner, hseat⟩ :=
      List.mem_map.1 (heq ▸ List.mem_map_of_mem member : running.seat ∈ _)
    have hserial : inner.serial = running.serial := congrArg (fun seat => seat.1.serial) hseat
    exact hserial ▸ hm'.serial_ne hburied (hsub hinner)
  cases hm.nests hstep with
  | stays frames w control => exact hseats _ (m.map_seat_goTo frames w control) (List.Subset.refl _)
  | enters frames w told fiber first stack control =>
    exact hseats _ (m.map_seat_goTo frames w told) (List.subset_cons_self ..)
  | @returns left below hleft w state exit hexit hstate =>
    rw [hleft] at member
    rcases List.mem_cons.1 member with rfl | hbelow
    · rintro rfl
      have hbodies := hm'.kept.balanced.bodies running.serial
      change 1 ≤ w.tally (Mark.terminates running.serial) at hburied
      change w.worth _ + _ + w.tally (Mark.terminates running.serial) ≤ _ at hbodies
      rcases hstate with ⟨frames, first, rfl⟩ | hended
      · have hheld : 0 < weigh (Asset.serialOf running.serial)
          (Fiber.assets (running.leave (.suspended frames first))) := by
          simp only [Running.leave, Fiber.assets, FiberState.assets, fiberAssets, weigh_cons,
            Asset.serialOf, Asset.begunOf, if_true]
          omega
        simp only [assets, Control.assets, weigh_append] at hbodies
        split at hbodies <;> omega
      · have hboth :=
          add_le_weigh_of_mem (Happening.weight (Mark.terminates running.serial)) hended
          hmark (by simp)
        have hleave : Happening.weight (Mark.terminates running.serial)
            (.mark (.ended (running.leave state) exit)) = 1 :=
          if_pos rfl
        rw [hleave] at hboth
        rw [show Happening.weight (Mark.terminates running.serial)
          (.mark (.discarded running.serial id home)) = 1 from hone] at hboth
        rw [World.tally] at hbodies
        split at hbodies <;> omega
    · exact hm'.serial_ne hburied hbelow

theorem discarded_of_unwound {w : World} {length : Nat} {fiber : Current}
    (h : fiber ∈ w.unwoundSince length) :
    ∃ home, .mark (.discarded fiber.serial fiber.id home) ∈ w.history.toList := by
  obtain ⟨happening, hnews, hfiber⟩ := List.mem_filterMap.1 h
  split at hfiber <;> cases hfiber
  exact ⟨_, List.mem_of_mem_drop hnews⟩

theorem restore_of_ne {w : World} {fiber : Current} (h : w.current ≠ some fiber) :
    w.restore fiber none = w := by
  rw [World.restore, if_neg h]

/-- The suspended fibers that a move unwinds are not the current one, neither before it nor
after it, so nothing is restored when their code is left. -/
theorem restore_of_unwound (hm : m.Sound True) {next : Machine} (hmove : m.move? = some next)
    {fiber : Current} (hunwound : fiber ∈ next.world.unwoundSince m.world.history.size) :
    m.world.restore fiber none = m.world ∧ next.world.restore fiber none = next.world := by
  have hstep := hm.step?_eq.trans hmove
  obtain ⟨home, hmark⟩ := discarded_of_unwound hunwound
  refine ⟨restore_of_ne fun hcurrent => ?_, restore_of_ne ((hm.step hstep).current_ne hmark)⟩
  rw [hm.current, Option.map_eq_some_iff] at hcurrent
  obtain ⟨running, hhead, hsame⟩ := hcurrent
  exact serial_ne_of_discarded hm hstep hmark (List.mem_of_head? hhead)
    (congrArg Current.serial hsame)

/-! ### Sessions -/

theorem Nests.length_le (h : a.Nests b) : b.running.length ≤ a.running.length + 1 := by
  have hseats := fun frames w control => congrArg List.length (a.map_seat_goTo frames w control)
  simp only [List.length_map] at hseats
  cases h with
  | stays frames w control => exact Nat.le_succ_of_le (Nat.le_of_eq (hseats frames w control))
  | enters frames w told => exact Nat.succ_le_succ (Nat.le_of_eq (hseats frames w told))
  | returns hrunning =>
    rw [hrunning, List.length_cons]
    exact Nat.le_succ_of_le (Nat.le_succ _)

/-- Control is inside of no fiber that it did not go into and has not left since. -/
theorem Visits.entered {script : Script} (h : Visits (fun _ => True) script.start m) {depth : Nat}
    (hdepth : depth < m.running.length) :
    ∃ before after, Visits (fun _ => True) script.start before ∧ before.step? = some after ∧
      before.running.length = depth ∧ depth < after.running.length ∧ after.Above (depth + 1) m := by
  obtain ⟨action, hleads⟩ := h
  have hbegun : Visits (fun _ => True) script.start (Script.begin script.start action) :=
    ⟨action, .refl⟩
  induction hleads with
  | refl => cases hdepth
  | @steps a b hleads hstep hallowed ih =>
    have ha : Visits (fun _ => True) script.start a := hbegun.leads hleads
    have hnests := (ha.sound fun _ _ _ _ => trivial : a.Sound True).nests hstep
    by_cases hlower : depth < a.running.length
    · obtain ⟨before, after, hbefore, henter, hlength, hdeeper, habove⟩ := ih hlower
      exact ⟨before, after, hbefore, henter, hlength, hdeeper, .step habove hstep hdepth⟩
    · have := hnests.length_le
      exact ⟨a, b, ha, hstep, by omega, hdepth, .refl⟩
  | stirs hleads hstirs ih =>
    obtain ⟨before, after, hbefore, henter, hlength, hdeeper, habove⟩ := ih hdepth
    exact ⟨before, after, hbefore, henter, hlength, hdeeper, .stirs habove hstirs⟩
  | goesOn | closes => cases hdepth

/-- The current fiber is the innermost one that control is in; at the root there is
none. Whatever is done above a level, the same fiber is current when control comes
back to it, and control comes back to where the fiber it leaves was entered last. The code of
a suspended fiber is left for good where the fiber is unwound, and what was current outside
of it is restored if it is the current one; it never is, as control is in none of the fibers
that were unwound. -/
theorem current_fiber_is_innermost {script : Script} (h : Visits (fun _ => True) script.start m) :
    m.world.current = m.running.head?.map Running.current ∧
      (m.Done → m.world.current = none) ∧
      (∀ m', m.Above m.running.length m' → m'.running.length = m.running.length →
        m'.world.current = m.world.current) ∧
      (∀ depth, depth < m.running.length →
        ∃ before after, Visits (fun _ => True) script.start before ∧
          before.step? = some after ∧ before.running.length = depth ∧
          depth < after.running.length ∧ after.Above (depth + 1) m) ∧
      (∀ e a m', m.step? = some e → m.running.length < e.running.length →
        e.Above (m.running.length + 1) a → a.step? = some m' →
        m'.running.length = m.running.length → ∃ fiber exit, m.ComesBack e a m' fiber exit) ∧
      (∀ next, m.move? = some next → m.step? = some next ∧
        ∀ fiber ∈ next.world.unwoundSince m.world.history.size,
          m.world.restore fiber none = m.world ∧ next.world.restore fiber none = next.world) ∧
      ∀ m' serial id home, m.step? = some m' →
        .mark (.discarded serial id home) ∈ m'.world.history.toList →
          ∀ running, running ∈ m.running ∨ running ∈ m'.running → running.serial ≠ serial := by
  have hm : m.Sound True := h.sound fun _ _ _ _ => trivial
  refine ⟨hm.current, fun hdone => ?_, fun m' habove hlength => ?_,
    fun depth hdepth => h.entered hdepth, fun e a m' henter hdeeper habove hstep hback =>
      comes_back hm henter hdeeper habove hstep hback,
    fun next hmove =>
      ⟨hm.step?_eq.trans hmove, fun fiber hunwound => restore_of_unwound hm hmove hunwound⟩,
    fun m' serial id home hstep hmark running member => ?_⟩
  · rw [hm.current, hdone.1]
    rfl
  · have hseats :=
      (habove.suffix hm).eq_of_length (by rw [List.length_map, List.length_map, hlength])
    rw [(habove.sound hm).current, hm.current, map_current_eq hseats]
  · have hburied := le_tally hmark (Mark.terminates serial)
    simp only [Mark.terminates, if_true] at hburied
    rcases member with member | member
    · exact serial_ne_of_discarded hm hstep hmark member
    · exact (hm.step hstep).serial_ne hburied member

/-- A coroutine goes into another one, which suspends and is then unwound. -/
def nestedTransfers : Action :=
  .scope [.newCoroutine "outer" ⟨10⟩ 65536 [
      .newCoroutine "inner" ⟨11⟩ 65536 [.newHandle "h" ⟨11⟩, .suspend "h" false true],
      .transfer "inner" .unit none, .dropCoroutine "inner"],
    .transfer "outer" .unit none] false

/-- The state of that program after some steps. -/
def nesting (steps : Nat) : Machine :=
  (Script.begin Script.single.start nestedTransfers).settle steps

theorem nesting_current_fiber_is_innermost :
    (nesting 4).world.currentId = some ⟨10⟩ ∧ (nesting 6).world.currentId = some ⟨11⟩ ∧
      (∃ fiber exit, (nesting 4).ComesBack (nesting 5) (nesting 6) (nesting 7) fiber exit) ∧
      (nesting 7).world.currentId = some ⟨10⟩ ∧ (nesting 8).step? = some (nesting 9) ∧
      ((nesting 9).world.unwoundSince (nesting 8).world.history.size).map Current.id = [⟨11⟩] ∧
      (nesting 9).world.currentId = some ⟨10⟩ := by
  have hback :=
    (current_fiber_is_innermost (visits_settle Script.single.start nestedTransfers 4)).2.2.2.2.1
    (nesting 5) (nesting 6) (nesting 7) (by with_unfolding_all rfl) (by decide +kernel)
    (.step .refl (by with_unfolding_all rfl) (by decide +kernel)) (by with_unfolding_all rfl)
    (by decide +kernel)
  have hunwinds :=
    ((current_fiber_is_innermost (visits_settle Script.single.start nestedTransfers 8)).2.2.2.2.2.1
    (nesting 9) (by with_unfolding_all rfl)).1
  exact ⟨by with_unfolding_all rfl, by with_unfolding_all rfl,
    hback, by with_unfolding_all rfl, hunwinds, by with_unfolding_all rfl, by
      with_unfolding_all rfl⟩

end Machine

end Fibers
