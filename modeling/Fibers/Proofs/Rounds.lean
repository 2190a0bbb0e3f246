import Fibers.Proofs.Service

/-!
Whole runs of a scheduler. While a run loop is under way its frame stands at the
root, and every step is one of four: the queue rests, gains an entry at its back,
gives its first entry, or the run returns. Over a run of any length the entries
that were run are therefore the first ones of the queue, followed by what came
to it in the meantime.
-/

namespace Fibers

/-- The entries `served` were run and the entries `arrived` came, in this order
behind the ones that were queued. -/
structure World.Serviced (s : SchedulerId) (queued : List Runnable) (a b : World)
    (served arrived : List Runnable) : Prop where
  dispatched : b.dispatched s = a.dispatched s ++ served
  appended : b.appended s = a.appended s ++ arrived
  order : queued ++ arrived = served ++ b.queue s

namespace Machine

variable {byHand : Prop} {allowed : Action → Prop} {m m' : Machine}
  {frames : List Frame} {w : World} {control : Control} {s : SchedulerId} {x : HandleRef}
  {ran : Nat} {max : Option Nat} {rest : List Frame}

/-! ### Steps inside fibers -/

section Inside

variable (h : m.running ≠ [])

include h

theorem goTo_inside (frames : List Frame) (w : World) (control : Control) :
    (m.goTo frames w control).running ≠ [] ∧ (m.goTo frames w control).root = m.root := by
  obtain ⟨world, running, root, told⟩ := m
  cases running with
  | nil => exact absurd rfl h
  | cons running below => exact ⟨by simp [goTo, withTop], rfl⟩

omit h in
theorem suspend_root (m : Machine) (x : HandleRef) : (m.suspend x).root = m.root := by
  rw [suspend]
  split <;> rfl

omit h in
theorem enter_root (m : Machine) (fiber : Fiber) (resumption : Resumption) :
    (m.enter fiber resumption).root = m.root := by
  rw [enter.eq_def]
  split
  · split <;> rfl
  · rfl
  · rfl

theorem suspendAwait_root (plan : AwaitPlan) : (m.suspendAwait x plan).root = m.root := by
  rw [suspendAwait, push_eq, suspend_root, (goTo_inside h _ _ _).2]

theorem run_root (s : SchedulerId) (max : Option Nat) : (m.run s max).root = m.root := by
  obtain ⟨frames, control, heq, -⟩ := run_eq m s max
  rw [heq, (goTo_inside h _ _ _).2]

theorem deliver_root (s : SchedulerId) (x : HandleRef) (resumption : Resumption) :
    (m.deliver s x resumption).root = m.root := by
  rw [deliver]
  simp only
  split
  · rfl
  · rfl
  · split
    · rfl
    · rw [dispatch, enter_root, withWorld_eq, goTo_push, goTo_push, (goTo_inside h _ _ _).2]

/-- An action inside a fiber leaves the root alone. -/
theorem Does.root (hdoes : Does allowed m m') : m'.root = m.root := by
  cases hdoes with
  | idle | enqueues | awaits | strands | drives | drivers | makes => exact (goTo_inside h _ _ _).2
  | asks =>
    obtain ⟨hinside, hroot⟩ := goTo_inside h _ _ _
    rw [run_root hinside, hroot]
  | delivers =>
    obtain ⟨hinside, hroot⟩ := goTo_inside h _ _ _
    rw [deliver_root hinside, hroot]
  | issues | waits =>
    obtain ⟨hinside, hroot⟩ := goTo_inside h _ _ _
    rw [suspendAwait_root hinside, hroot]
  | suspends => rw [suspend_root, (goTo_inside h _ _ _).2]
  | @parks w x fiber slot keep name owner =>
    generalize w.park x fiber (.caller owner) = result
    obtain ⟨_ | ⟨other, resumption⟩, w'⟩ := result <;> exact (goTo_inside h _ _ _).2
  | @wakes w x resumption slot keep name owner =>
    generalize w.wake x (.caller owner) resumption = result
    obtain ⟨_ | _ | ⟨fiber, told⟩, w'⟩ := result <;> exact (goTo_inside h _ _ _).2
  | transfers => rw [enter_root, (goTo_inside h _ _ _).2]

/-- A step inside a fiber leaves the root alone. -/
theorem Moves.root (hmoves : Moves allowed m m') : m'.root = m.root := by
  cases hmoves with
  | acts htop hcontrol hdoes =>
    obtain ⟨hinside, hroot⟩ := goTo_inside h _ _ _
    rw [hdoes.root hinside, hroot]
  | idle | receives | goesOn | hears | settles | ends | breaks => exact (goTo_inside h _ _ _).2
  | registered =>
    obtain ⟨hinside, hroot⟩ := goTo_inside h _ _ _
    rw [suspendAwait_root hinside, hroot]
  | @concludes x plan frames resumption htop hcontrol =>
    obtain ⟨w, control, heq, -⟩ :=
      concludeAwait_eq (m.goTo frames m.world m.control) x plan resumption
    rw [heq, goTo_goTo, (goTo_inside h _ _ _).2]
  | @transferred name slot fiber exit frames htop hcontrol =>
    obtain ⟨w, heq, -⟩ :=
      transferred_noProgress (m.goTo frames m.world m.control) name slot fiber exit
    rw [heq, goTo_goTo, (goTo_inside h _ _ _).2]
  | @drains s ran max frames htop hcontrol =>
    obtain ⟨hinside, hroot⟩ := goTo_inside h frames m.world .advance
    have hdrains := (m.goTo frames m.world .advance).drains s ran max
    generalize (m.goTo frames m.world .advance).drain s ran max = m' at hdrains
    cases hdrains with
    | stops | fails => rw [(goTo_inside hinside _ _ _).2, hroot]
    | starts | wakes => rw [enter_root, (goTo_inside hinside _ _ _).2, hroot]
  | asksAgain =>
    obtain ⟨hinside, hroot⟩ := goTo_inside h _ _ _
    rw [run_root hinside, hroot]
  | resumes | completes =>
    obtain ⟨hinside, hroot⟩ := goTo_inside h _ _ _
    rw [deliver_root hinside, hroot]
  | @completed d key fiber result frames htop hcontrol =>
    obtain ⟨w, heq, -⟩ := completed_eq (m.goTo frames m.world m.control) d key fiber result
    rw [heq, goTo_goTo, (goTo_inside h _ _ _).2]
  | leaves => rfl

end Inside

/-! ### Steps of a run -/

/-- A run of the scheduler is under way above the frames `rest`, and has started
`ran` entries. -/
def Looping (m : Machine) (s : SchedulerId) (ran : Nat) (max : Option Nat) (rest : List Frame) :
    Prop :=
  m.root = .draining s ran max :: rest ∨ m.root = .dispatching s :: .draining s ran max :: rest

theorem Nested.root {root : List Frame} {levels : List Running} (h : Nested byHand w root levels)
    (hlevels : levels ≠ []) :
    ∃ running ∈ levels, w.Entered byHand false running.home root := by
  induction levels with
  | nil => exact absurd rfl hlevels
  | cons running below ih =>
    obtain ⟨-, hentered, hnested⟩ := h
    cases below with
    | nil => exact ⟨running, List.mem_cons_self .., hentered⟩
    | cons other below =>
      obtain ⟨found, member, hfound⟩ := ih hnested (by simp)
      exact ⟨found, List.mem_cons_of_mem _ member, hfound⟩

/-- At the root a run is at its next turn, or takes a fiber back. -/
theorem Looping.atRoot (hloop : m.Looping s ran max rest) (h : m.Sound byHand)
    (hrunning : m.running = []) : (m.top = .draining s ran max :: rest ∧ m.control = .advance) ∨
      (m.top = .dispatching s :: .draining s ran max :: rest ∧ ∃ fiber exit,
        m.control = .back fiber exit) := by
  have haccepts := h.accepts
  have htop : m.top = m.root := by rw [top, hrunning, stackUnder]
  rw [htop] at haccepts ⊢
  rcases hloop with hroot | hroot <;> rw [hroot] at haccepts ⊢ <;>
    generalize m.control = control at haccepts ⊢
  · refine .inl ⟨rfl, ?_⟩
    cases control with
    | advance => rfl
    | raise | panicking => simp [World.Accepts, Frame.isPlain] at haccepts
    | resumed => exact haccepts.2.elim
    | back => exact haccepts.1.elim
    | answer => exact haccepts.2.1.choose_spec.elim
  · refine .inr ⟨rfl, ?_⟩
    cases control with
    | advance | raise | panicking => simp [World.Accepts, Frame.isPlain] at haccepts
    | resumed => exact haccepts.2.elim
    | back fiber exit => exact ⟨fiber, exit, rfl⟩
    | answer => exact haccepts.2.1.choose_spec.elim

/-- Whoever asked for the run still waits for it. -/
theorem Looping.asks (hloop : m.Looping s ran max rest) (h : m.Sound byHand) :
    m.world.Asks s max rest := by
  have hentered : ∀ {inFiber home}, m.world.Entered byHand inFiber home
      (.dispatching s :: .draining s ran max :: rest) → m.world.Asks s max rest := by
    intro inFiber home hentered
    obtain ⟨ran', max', rest', heq, -, -, hasks⟩ := hentered.of_dispatching
    cases heq
    exact hasks
  by_cases hrunning : m.running = []
  · have haccepts := h.accepts
    rcases hloop.atRoot h hrunning with ⟨htop, hcontrol⟩ | ⟨htop, fiber, exit, hcontrol⟩ <;>
      rw [htop, hcontrol] at haccepts
    · exact haccepts.2
    · exact hentered haccepts.1
  · obtain ⟨_, -, hfound⟩ := h.nested.root hrunning
    rcases hloop with hroot | hroot <;> rw [hroot] at hfound
    · exact hfound.elim
    · exact hentered hfound

/-- As long as a run is under way its scheduler is alive. -/
theorem Looping.alive (hloop : m.Looping s ran max rest) (h : m.Sound byHand) :
    0 < m.world.owners s := by
  have hroot : ∀ f, weigh f (framesAssets m.root) = weigh f (framesAssets rest) := by
    intro f
    rcases hloop with hroot | hroot <;> rw [hroot] <;> rfl
  have hbalanced : m.world.Balanced (framesAssets rest ++
      (m.control.assets ++ m.running.flatMap Running.assets)) := by
    refine h.kept.balanced.recount fun f _ => ?_
    have := m.weigh_levels f
    have := hroot f
    simp only [assets, weigh_append] at *
    omega
  obtain ⟨scheduler, hs, halive⟩ := (hloop.asks h).alive hbalanced
  rwa [World.owners, hs]

/-- What a step of a run does. -/
inductive LoopStep (s : SchedulerId) (ran : Nat) (max : Option Nat) (rest : List Frame)
    (m m' : Machine) : Prop
  | rests (hloop : m'.Looping s ran max rest) (h : World.Passes s m.world m'.world)
      (hqueue : m'.world.queue s = m.world.queue s)
  | appends {entry : Runnable} (hloop : m'.Looping s ran max rest) (hway : m.Appends s m' entry)
      (h : World.Gains s entry m.world m'.world)
  | takes {entry : Runnable} (hloop : m'.Looping s (ran + 1) max rest)
      (h : m.Takes s ran max rest entry m') (hgives : World.Gives s entry m.world m'.world)
  | returns (hrunning : m'.running = []) (hroot : m'.root = rest)
      (hcontrol : m'.control = .answer (.ok ran)) (hworld : m'.world = m.world)
      (hdone : max.any (· ≤ ran) = true ∨ m.world.queue s = [])

/-- Around an append nothing is lost from the queue of a scheduler that is alive. -/
theorem gains_of_alive {a u v b : World} {entry : Runnable} (hbefore : World.Passes s a u)
    (h : World.Gains s entry u v) (howners : v.owners s = u.owners s) (hafter : World.Passes s v b)
    (halive : 0 < b.owners s) : World.Gains s entry a b := by
  obtain ⟨hv, hqueue⟩ := hafter.alive halive
  obtain ⟨ha, hqueue'⟩ := hbefore.alive (howners ▸ hv)
  exact ⟨by rw [hqueue, h.queue, hqueue'], by rw [hafter.appended, h.appended, hbefore.appended],
    by rw [hafter.dispatched, h.dispatched, hbefore.dispatched]⟩

theorem Takes.gives_of_alive {entry : Runnable} (h : m.Takes s ran max rest entry m')
    (halive : 0 < m'.world.owners s) : World.Gives s entry m.world m'.world := by
  obtain ⟨u, hgives, howners, hafter⟩ := h.gives
  obtain ⟨hu, hqueue⟩ := hafter.alive halive
  exact ⟨by rw [hgives.queue, hqueue], by rw [hafter.appended, hgives.appended],
    by rw [hafter.dispatched, hgives.dispatched]⟩

/-- A step that leaves the loop where it is lets the queue rest, or appends to it. -/
theorem LoopStep.of_serves (h : m'.Sound byHand) (hloop : m'.Looping s ran max rest)
    (hserves : m.Serves s m')
    (hback : m.running = [] →
      m.root = .dispatching s :: .draining s ran max :: rest ∧
        m'.root = .draining s ran max :: rest) :
    LoopStep s ran max rest m m' := by
  have halive := hloop.alive h
  cases hserves with
  | passes hpasses => exact .rests hloop hpasses (hpasses.alive halive).2
  | appends hway hbefore hgains howners hafter =>
    exact .appends hloop hway (gains_of_alive hbefore hgains howners hafter halive)
  | takes htakes =>
    have hroot := htakes.root
    rw [(hback htakes.running).1] at hroot
    cases hroot
  | jumps hrunning hcell hslot hbefore hafter hstarts =>
    cases hstarts with
    | resumed hlevels hfloor =>
      rw [(hback hrunning).2] at hfloor
      cases hfloor

/-- Every step of a run rests, appends an entry, takes the first one, or returns. -/
theorem Looping.step (hloop : m.Looping s ran max rest) (h : m.Sound byHand) (h' : m'.Sound byHand)
    (hstep : m.step? = some m') : LoopStep s ran max rest m m' := by
  have hserves := h.serves hstep s
  by_cases hrunning : m.running = []
  · rcases hloop.atRoot h hrunning with ⟨htop, hcontrol⟩ | ⟨htop, fiber, exit, hcontrol⟩
    · rw [h.step?_of_top htop, hcontrol] at hstep
      simp only [react?, goTo_control, Option.some.injEq] at hstep
      have hdrains := (m.goTo rest m.world .advance).drains s ran max
      rw [hstep] at hdrains
      rcases hdrains.takes h htop hcontrol with ⟨rfl, hdone⟩ | ⟨entry, htakes⟩
      · obtain ⟨hlevels, hfloor⟩ := goTo_running_eq_nil m rest m.world (.answer (.ok ran)) hrunning
        exact .returns hlevels hfloor rfl rfl hdone
      · have hloop' : m'.Looping s (ran + 1) max rest := by
          cases htakes.starts with
          | unstarted hlevels hfloor => exact .inl hfloor
          | started hlevels hfloor => exact .inr hfloor
          | resumed hlevels hfloor => exact .inr hfloor
        exact .takes hloop' htakes (htakes.gives_of_alive (hloop'.alive h'))
    · rw [h.step?_of_top htop, hcontrol] at hstep
      simp only [react?, goTo_control, goTo_withWorld, goTo_advance, Option.some.injEq] at hstep
      have hfloor := (goTo_running_eq_nil m (.draining s ran max :: rest)
        (m.world.receive s fiber exit) .advance hrunning).2
      have hroot : m.root = .dispatching s :: .draining s ran max :: rest := by
        rw [← htop, top, hrunning, stackUnder]
      rw [goTo_world] at hstep
      rw [hstep] at hfloor
      exact .of_serves h' (.inl hfloor) hserves fun _ => ⟨hroot, hfloor⟩
  · have hmoves : Moves (fun _ => True) m m' := step_moves hstep h fun _ _ => trivial
    have hroot := hmoves.root hrunning
    exact .of_serves h' (by rwa [Looping, hroot]) hserves fun hnil => absurd hnil hrunning

/-! ### Whole runs -/

/-- The second machine comes after the first by steps that are taken above the
frames `rest` of the root. -/
inductive Runs (rest : List Frame) (m : Machine) : Machine → Prop
  | refl : Runs rest m m
  | step {a b : Machine} (h : Runs rest m a) (habove : a.root ≠ rest) (hstep : a.step? = some b) :
      Runs rest m b

/-- The run is over: whoever asked for it gets the number of entries. -/
structure Returned (m : Machine) (ran : Nat) (rest : List Frame) : Prop where
  running : m.running = []
  root : m.root = rest
  control : m.control = .answer (.ok ran)

theorem Sound.step (h : m.Sound True) (hstep : m.step? = some m') : m'.Sound True := by
  have hmoves : Moves (fun _ => True) m m' := step_moves hstep h fun _ _ => trivial
  exact h.moves (fun _ _ _ _ => trivial) hmoves

theorem Runs.sound (h : m.Sound True) (hruns : Runs rest m m') : m'.Sound True := by
  induction hruns with
  | refl => exact h
  | step _ _ hstep ih => exact ih.step hstep

theorem Runs.trans {a b : Machine} (first : Runs rest m a) (second : Runs rest a b) :
    Runs rest m b := by
  induction second with
  | refl => exact first
  | step _ habove hstep ih => exact ih.step habove hstep

theorem Runs.eq_of_root {a : Machine} (hruns : Runs rest m a) (hroot : m.root = rest) : a = m := by
  induction hruns with
  | refl => rfl
  | step _ habove _ ih => exact absurd (ih ▸ hroot) habove

theorem Looping.root_ne (hloop : m.Looping s ran max rest) : m.root ≠ rest := by
  intro hroot
  have hlength := congrArg List.length hroot
  rcases hloop with h | h <;> (simp only [h, List.length_cons] at hlength; omega)

/-- A run in progress, or one that has returned, has run the first entries. -/
theorem Looping.serviced (hloop : m.Looping s ran max rest) (h : m.Sound True)
    (hmax : ∀ bound, max = some bound → ran ≤ bound) (hruns : Runs rest m m') :
    ∃ served arrived, World.Serviced s (m.world.queue s) m.world m'.world served arrived ∧
      (∀ bound, max = some bound → ran + served.length ≤ bound) ∧
      (m'.Looping s (ran + served.length) max rest ∨
        m'.Returned (ran + served.length) rest ∧
          (max.any (· ≤ ran + served.length) = true ∨ m'.world.queue s = [])) := by
  induction hruns with
  | refl => exact ⟨[], [], ⟨by simp, by simp, by simp⟩, hmax, .inl hloop⟩
  | @step a b hruns habove hstep ih =>
    obtain ⟨served, arrived, hserved, hbound, hlooping | ⟨hreturned, -⟩⟩ := ih
    · have hsound := hruns.sound h
      cases hlooping.step hsound (hsound.step hstep) hstep with
      | rests hloop' hpasses hqueue =>
        refine ⟨served, arrived, ⟨?_, ?_, ?_⟩, hbound, .inl hloop'⟩
        · rw [hpasses.dispatched, hserved.dispatched]
        · rw [hpasses.appended, hserved.appended]
        · rw [hqueue, hserved.order]
      | @appends entry hloop' hway hgains =>
        refine ⟨served, arrived ++ [entry], ⟨?_, ?_, ?_⟩, hbound, .inl hloop'⟩
        · rw [hgains.dispatched, hserved.dispatched]
        · rw [hgains.appended, hserved.appended, List.append_assoc]
        · rw [hgains.queue, ← List.append_assoc, hserved.order, List.append_assoc]
      | @takes entry hloop' htakes hgives =>
        have hlength : ran + (served ++ [entry]).length = ran + served.length + 1 := by
          rw [List.length_append, List.length_singleton, Nat.add_assoc]
        refine ⟨served ++ [entry], arrived, ⟨?_, ?_, ?_⟩, fun bound hmax' => ?_,
          .inl (by rwa [hlength])⟩
        · rw [hgives.dispatched, hserved.dispatched, List.append_assoc]
        · rw [hgives.appended, hserved.appended]
        · rw [hserved.order, hgives.queue, List.append_assoc, List.singleton_append]
        · have hmore := htakes.more
          simp only [hmax', Option.any_some, decide_eq_false_iff_not] at hmore
          omega
      | returns hrunning hroot hcontrol hworld hdone =>
        exact ⟨served, arrived, by rwa [hworld], hbound,
          .inr ⟨⟨hrunning, hroot, hcontrol⟩, by rwa [hworld]⟩⟩
    · exact absurd hreturned.root habove

/-- From here on a scheduler serves its queue in order, up to a bound: the entries
`queued` come first, and the machine is about to start them or has started the
first `ahead` of them. -/
structure ServesInOrder (s : SchedulerId) (max : Option Nat) (rest : List Frame)
    (queued : List Runnable) (ahead : Nat) (before : World) (m : Machine) : Prop where
  /-- Every step rests, appends an entry in one of four ways, starts the first
  entry, or returns. -/
  steps : ∀ a b, Runs rest m a → a.root ≠ rest → a.step? = some b →
    ∃ ran, LoopStep s ran max rest a b
  /-- What was run is a prefix of what was queued and what came, and the rest of
  that is the queue. -/
  order : ∀ m', Runs rest m m' → ∃ arrived n,
    m'.world.appended s = before.appended s ++ arrived ∧
    m'.world.dispatched s = before.dispatched s ++ (queued ++ arrived).take n ∧
    m'.world.queue s = (queued ++ arrived).drop n ∧ n ≤ (queued ++ arrived).length ∧
    (m'.root = rest → ∃ ran, m'.Returned ran rest ∧ n = ran + ahead ∧
      (∀ bound, max = some bound → ran ≤ bound) ∧
      (m'.world.queue s ≠ [] → max = some ran))

theorem Looping.servesInOrder (hloop : m.Looping s ran max rest) (h : m.Sound True)
    (hmax : ∀ bound, max = some bound → ran ≤ bound) {queued begun : List Runnable} {ahead : Nat}
    {before : World} (hbegun : World.Serviced s queued before m.world begun [])
    (hahead : begun.length = ran + ahead) : ServesInOrder s max rest queued ahead before m := by
  constructor
  case steps =>
    intro a b hruns habove hstep
    have hsound := hruns.sound h
    obtain ⟨served, arrived, -, -, hlooping | ⟨hreturned, -⟩⟩ := hloop.serviced h hmax hruns
    · exact ⟨_, hlooping.step hsound (hsound.step hstep) hstep⟩
    · exact absurd hreturned.root habove
  case order =>
    intro m' hruns
    obtain ⟨served, arrived, hserved, hbound, hend⟩ := hloop.serviced h hmax hruns
    have horder : queued ++ arrived = (begun ++ served) ++ m'.world.queue s := by
      have := hbegun.order
      rw [List.append_nil] at this
      rw [this, List.append_assoc, List.append_assoc, hserved.order]
    refine ⟨arrived, (begun ++ served).length, ?_, ?_, ?_, ?_, fun hroot => ?_⟩
    · rw [hserved.appended, hbegun.appended, List.append_nil]
    · rw [horder, List.take_left, hserved.dispatched, hbegun.dispatched, List.append_assoc]
    · rw [horder, List.drop_left]
    · rw [horder]
      simp only [List.length_append]
      omega
    · rcases hend with hlooping | ⟨hreturned, hdone⟩
      · exact absurd hroot hlooping.root_ne
      · refine ⟨_, hreturned, by rw [List.length_append, hahead]; omega, hbound, fun hqueue => ?_⟩
        rcases hdone with hdone | hdone
        · obtain ⟨bound, hbound', hle⟩ := Option.any_eq_true _ _ |>.1 hdone
          have := hbound bound hbound'
          have := of_decide_eq_true hle
          rw [hbound']
          congr 1
          omega
        · exact absurd hdone hqueue

/-! ### Resumptions at the root -/

theorem scheduler_of_owners (halive : 0 < w.owners s) : (w.scheduler? s).isSome := by
  rw [World.owners] at halive
  cases hs : w.scheduler? s with
  | none =>
    rw [hs] at halive
    cases halive
  | some scheduler => rfl

theorem World.passes_accepted (w : World) (x : HandleRef) (resumption : Resumption) :
    World.Passes s w (w.mark (.accepted x resumption)) := .mark _ rfl rfl

/-- A resumption delivered at the root starts its fiber and a run behind it. -/
theorem deliver_begins {n : Machine} {cell : HandleCell} {fiber : Fiber} {resumption : Resumption}
    (h : (n.deliver s x resumption).Sound True) (hrunning : n.running = [])
    (hcurrent : n.world.current = none) (hcell : n.world.handles.get? x = some cell)
    (hslot : cell.slot = .parked fiber (.scheduler s)) :
    (n.world.scheduler? s).isSome ∧ (n.deliver s x resumption).Looping s 0 none n.root ∧
      World.Serviced s (.woken fiber resumption :: n.world.queue s) n.world
        (n.deliver s x resumption).world [.woken fiber resumption] [] := by
  have htop : n.top = n.root := by rw [top, hrunning, stackUnder]
  have hdelivers := n.delivers s hcell resumption
  generalize n.deliver s x resumption = m at hdelivers h
  cases hdelivers with
  | stored event hpending => rw [hpending] at hslot; cases hslot
  | queued _ event _ hinside => rw [hcurrent] at hinside; cases hinside
  | refused fault event _ hother => exact absurd hslot (hother fiber)
  | dispatched other event hparked hcurrent hquiet =>
    rw [hslot] at hparked
    cases hparked
    have hlaid : World.Passes s n.world (n.world.setSlot x .spent) := .of_same rfl rfl
    have hbefore := ((hlaid.trans (World.passes_accepted _ x resumption)).trans
      (World.passes_release _ [.handle x] s)).trans (.tell _ event)
    generalize (((n.world.setSlot x .spent).mark (.accepted x resumption)).release [.handle x]).tell
      event = u at hbefore h
    rw [htop] at h ⊢
    have hafter := enter_spares (s := s) (n.goTo (.dispatching s :: .draining s 0 none :: n.root)
      (u.mark (.dispatched s (.woken fiber resumption))) n.control) fiber resumption
    have hloop : ((n.goTo (.dispatching s :: .draining s 0 none :: n.root)
        (u.mark (.dispatched s (.woken fiber resumption))) n.control).enter fiber
          resumption).Looping s 0 none n.root :=
      .inr ((enter_root ..).trans (goTo_running_eq_nil n _ _ _ hrunning).2)
    obtain ⟨hspent, hqueue⟩ := hafter.alive (hloop.alive h)
    refine ⟨?_, hloop, ?_, ?_, ?_⟩
    · rw [← hbefore.isSome]
      exact scheduler_of_owners hspent
    · rw [hafter.dispatched, goTo_world, World.dispatched, World.told_mark,
        Mark.dispatched?, if_pos rfl]
      exact congrArg (· ++ _) hbefore.dispatched
    · rw [hafter.appended, goTo_world, World.appended, World.told_mark]
      exact congrArg (· ++ []) hbefore.appended
    · rw [hqueue, List.append_nil, List.singleton_append]
      exact congrArg _ (hbefore.alive hspent).2.symm

/-- The world with an entry ahead of a queue. -/
def putAhead (w : World) (s : SchedulerId) (entry : Runnable) : World :=
  w.updateScheduler s fun scheduler => { scheduler with queue := entry :: scheduler.queue }

theorem next?_putAhead {scheduler : Scheduler} (hs : w.scheduler? s = some scheduler)
    (entry : Runnable) :
    (putAhead w s entry).next? s = some (entry, w.mark (.dispatched s entry)) := by
  have hqueue : (putAhead w s entry).queue s = entry :: scheduler.queue := by
    rw [putAhead, World.queue_updateScheduler, if_pos rfl, hs, Option.elim_some]
  have hback : (putAhead w s entry).updateScheduler s
      (fun other => { other with queue := scheduler.queue }) = w := by
    have hschedulers : ((w.schedulers.modify s.index fun other =>
        { other with queue := entry :: other.queue }).modify s.index fun other =>
          { other with queue := scheduler.queue }) = w.schedulers := by
      rw [List.modify_modify_eq]
      refine List.ext_getElem? fun i => ?_
      rw [List.getElem?_modify]
      split
      next heq =>
        rw [← heq, show w.schedulers[s.index]? = some scheduler from hs]
        rfl
      next => exact id_map _
    exact congrArg (fun schedulers => { w with schedulers }) hschedulers
  rw [World.next?, hqueue]
  simp only [hback]

/-- A resumption at the root goes on like a run whose first turn was the fiber's. The
run counts that turn; the resumption does not. -/
structure JoinsRun (n : Machine) (s : SchedulerId) (x : HandleRef) (fiber : Fiber)
    (resumption : Resumption) (w : World) : Prop where
  delivers : n.deliver s x resumption =
    ((n.withWorld (w.mark (.dispatched s (.woken fiber resumption)))).push
      (.draining s 0 none)).dispatch s fiber resumption
  drains : (n.withWorld (putAhead w s (.woken fiber resumption))).drain s 0 none =
    ((n.withWorld (w.mark (.dispatched s (.woken fiber resumption)))).push
      (.draining s 1 none)).dispatch s fiber resumption

theorem joinsRun {n : Machine} {cell : HandleCell} {fiber : Fiber} {resumption : Resumption}
    (hcurrent : n.world.current = none) (hcell : n.world.handles.get? x = some cell)
    (hslot : cell.slot = .parked fiber (.scheduler s)) (hs : (n.world.scheduler? s).isSome) :
    JoinsRun n s x fiber resumption
      ((n.world.wake x (.scheduler s) resumption).2.tell (.resuming (n.world.handleId x))) := by
  have hwakes := World.wakes hcell (.scheduler s) resumption
  have hdeliver := deliver.eq_def n s x resumption
  simp only at hdeliver
  generalize n.world.wake x (.scheduler s) resumption = result at hwakes hdeliver ⊢
  cases hwakes with
  | stored hpending => rw [hpending] at hslot; cases hslot
  | refused fault _ hother => exact absurd hslot (hother fiber)
  | met other hparked =>
    rw [hslot] at hparked
    cases hparked
    have hlaid : World.Passes s n.world (n.world.setSlot x .spent) := .of_same rfl rfl
    have hpasses := (hlaid.trans (World.passes_accepted _ x resumption)).trans
      (World.passes_release _ [.handle x] s)
    have hsteady :=
      World.steady_release ((n.world.setSlot x .spent).mark (.accepted x resumption)) [.handle x]
    have hidle :
        (((n.world.setSlot x .spent).mark (.accepted x resumption)).release
        [.handle x]).current.isSome =
        false := by
      rw [hsteady.current]
      exact (congrArg Option.isSome hcurrent).trans rfl
    have hfound := hpasses.isSome
    generalize ((n.world.setSlot x .spent).mark (.accepted x resumption)).release
      [.handle x] = w at *
    obtain ⟨scheduler, hw⟩ := Option.isSome_iff_exists.1 (hfound.trans hs)
    simp only [hidle, Bool.false_eq_true, if_false] at hdeliver
    refine ⟨hdeliver, ?_⟩
    have hscheduler : (w.tell (.resuming (n.world.handleId x))).scheduler? s = some scheduler := hw
    rw [drain]
    simp only [Option.any_none, Bool.false_eq_true, if_false, withWorld_world, withWorld_withWorld,
      next?_putAhead hscheduler, Nat.zero_add]

/-- First in, first out, over whole runs. A run that begins at the root serves
what is queued and what comes, in this order, up to its bound. A resumption at the
root for a fiber that the scheduler parked goes on like a run without a bound that
finds that fiber ahead of the queue, and serves in the same order. -/
theorem runs_serve_in_order {script : Script} {m : Machine}
    (h : Visits (fun _ => True) script.start m) (s : SchedulerId) :
    (∀ max rest, m.running = [] → m.root = .draining s 0 max :: rest →
      ServesInOrder s max rest (m.world.queue s) 0 m.world m) ∧
    ∀ (n : Machine) (x : HandleRef) (cell : HandleCell) (fiber : Fiber) (resumption : Resumption),
      n.deliver s x resumption = m → n.running = [] → n.world.current = none →
      n.world.handles.get? x = some cell → cell.slot = .parked fiber (.scheduler s) →
      JoinsRun n s x fiber resumption
          ((n.world.wake x (.scheduler s) resumption).2.tell (.resuming (n.world.handleId x))) ∧
        ServesInOrder s none n.root (.woken fiber resumption :: n.world.queue s) 1 n.world m := by
  have hsound : m.Sound True := h.sound fun _ _ _ _ => trivial
  constructor
  · intro max rest hrunning hroot
    have hloop : m.Looping s 0 max rest := .inl hroot
    have hnone : World.Serviced s (m.world.queue s) m.world m.world [] [] :=
      ⟨by simp, by simp, by simp⟩
    exact hloop.servesInOrder hsound (fun _ _ => Nat.zero_le _) hnone rfl
  · rintro n x cell fiber resumption rfl hrunning hcurrent hcell hslot
    obtain ⟨hs, hloop, hbegun⟩ := deliver_begins hsound hrunning hcurrent hcell hslot
    exact ⟨joinsRun hcurrent hcell hslot hs, hloop.servesInOrder hsound
      (fun _ _ => Nat.zero_le _) hbegun rfl⟩

/-- A task waits, another one is enqueued, and the first one is resumed at the root. -/
def waitAndResume : Action :=
  .scope [.enqueue 0 [.await .unit (some "h") [] .raise none], .run 0 none false,
    .enqueue 0 [.log .null], .resume 0 "h" false (.value (.scalar .unit)) false] false

/-- The state of that program after some steps, with one scheduler. -/
def waiting (steps : Nat) : Machine := (Script.begin Script.single.start waitAndResume).settle steps

/-- The state in which the resumption is delivered. -/
def resuming : Machine :=
  ((waiting 11).goTo [.answering ⟨0⟩ (.resume false), .actions [] [], .actions [] []]
    { (waiting 11).world.own ⟨0⟩ with slots := .empty } .advance)

theorem waiting_runs_serve_in_order :
    ServesInOrder ⟨0⟩ none [.answering ⟨0⟩ (.run false),
      .actions [.enqueue 0 [.log .null], .resume 0 "h" false (.value (.scalar .unit)) false] [],
        .actions [] []] ((waiting 3).world.queue ⟨0⟩) 0 (waiting 3).world (waiting 3) ∧
      ∃ fiber, ServesInOrder ⟨0⟩ none resuming.root
        (.woken fiber .unit :: resuming.world.queue ⟨0⟩) 1 resuming.world (waiting 12) :=
  ⟨(runs_serve_in_order (visits_settle _ _ 3) ⟨0⟩).1 none _ rfl rfl,
    _, ((runs_serve_in_order (visits_settle _ _ 12) ⟨0⟩).2 resuming ⟨0⟩ _ _ .unit
      (by with_unfolding_all rfl) (by with_unfolding_all rfl) (by with_unfolding_all rfl)
        (by with_unfolding_all rfl) (by with_unfolding_all rfl)).2⟩

end Machine

end Fibers
