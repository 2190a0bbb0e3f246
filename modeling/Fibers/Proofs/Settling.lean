import Fibers.Proofs.Drivers
import Fibers.Proofs.Resumptions

/-!
Settling. A driver whose calls are all over, and whose scheduler has nothing left
to run, resumes those who wait for all calls, one after the other. Nobody else can
resume them. Each of them runs before the next one is resumed, and the calls that it
issues are not waited for: whoever comes later in the round finds them in flight.
-/

namespace Fibers

/-- The phases in which a driver resumes those who wait for all its calls. -/
def DriverPhase.IsRound : DriverPhase → Prop
  | .settle _ | .resuming .. => True
  | _ => False

/-- Those whose turn is yet to come. -/
def DriverPhase.waiters : DriverPhase → List HandleRef
  | .settle waiters | .resuming _ waiters => waiters
  | _ => []

namespace World

variable {w w' : World} {s : SchedulerId} {x : HandleRef} {d : DriverId}

/-- The handle was made by a fiber that waits for all calls of the driver. -/
def WaitsForAll (w : World) (x : HandleRef) (d : DriverId) : Prop := ∃ plan, w.opened x = [plan] ∧
    plan.kind = .all d

/-- The handle was made by a fiber that waits for a call of the driver. -/
def WaitsForCall (w : World) (x : HandleRef) (d : DriverId) : Prop :=
  ∃ plan, w.opened x = [plan] ∧ plan.kind.caller? = some d

theorem hosts_pos {plan : AwaitPlan} (hopened : w.opened x = [plan])
    (hplan : plan.kind.isHosted = true) : 0 < w.tally (Mark.hosts x) := by
  have hcount : ∀ happenings : List Happening, plan ∈ happenings.filterMap
      (Happening.read (Mark.opened? x)) →
      0 < weigh (Happening.weight (Mark.hosts x)) happenings := by
    intro happenings member
    obtain ⟨happening, hhappening, hread⟩ := List.mem_filterMap.1 member
    refine Nat.lt_of_lt_of_le ?_ (le_weigh_of_mem (Happening.weight (Mark.hosts x)) hhappening)
    cases happening with
    | entry | event => cases hread
    | mark told =>
      cases told with
      | opened y plan' =>
        simp only [Happening.read, Mark.opened?] at hread
        split at hread
        next heq =>
          cases hread
          simp [Happening.weight, Mark.hosts, heq, hplan]
        next => cases hread
      | _ => cases hread
  refine hcount _ ?_
  rw [← World.told, ← World.opened, hopened]
  exact List.mem_singleton.2 rfl

theorem drivers_start (script : Script) :
    script.start.drivers = [] ∧ script.start.agenda = none := by
  obtain ⟨_, _, hstart⟩ := script.exists_start
  rw [hstart]
  exact ⟨rfl, rfl⟩

theorem sameHosts_close (w : World) : w.SameHosts w.close := by
  have hslots : w.SameHosts { w with slots := .empty } := .of_same rfl rfl rfl rfl
  have hcoroutines : ∀ u : World, u.SameHosts { u with coroutines := .empty } :=
    fun _ => .of_same rfl rfl rfl rfl
  exact ((hslots.trans (sameHosts_release _ _)).trans (hcoroutines _)).trans (sameHosts_release _ _)

/-- A queue that is empty stays so, unless something is put into it. -/
theorem queue_eq_nil_of_sameOrGone (h : Scheduler.SameOrGone (w.scheduler? s) (w'.scheduler? s))
    (hqueue : w.queue s = []) : w'.queue s = [] := by
  rcases queue_of_sameOrGone h with hsame | hnil
  · exact hsame.trans hqueue
  · exact hnil

theorem NoArrivals.queue_eq_nil (h : w.NoArrivals w') (hqueue : w.queue s = []) : w'.queue s = [] :=
  queue_eq_nil_of_sameOrGone (h.schedulers s) hqueue

end World

namespace Machine

open Asset (cloneOf)

variable {allowed : Action → Prop} {byHand : Prop} {m m' : Machine} {script : Script}
  {x : HandleRef} {s : SchedulerId} {d : DriverId} {frames : List Frame} {w : World}
  {plan : AwaitPlan} {phase : DriverPhase} {resumption : Resumption}

theorem Between.sameHosts (h : m.Between w) : m.world.SameHosts w := by
  have hshown : m.world.SameHosts (Script.showOutcome m) := by
    rw [Script.showOutcome]
    split
    · exact .emit ..
    · exact .emit ..
    · exact .refl _
  cases h with
  | shows => exact hshown
  | closes => exact hshown.trans (World.sameHosts_close _)

/-! ### Rounds -/

/-- Drivers hold what fibers gave them: a call is held by a fiber that waits for
this call, and in the list of a driver are fibers that wait for all its calls. While
a driver resumes these, no call of its own ends. -/
structure Hosted (m : Machine) : Prop where
  claims : ∀ {claims key d x}, m.world.claims = some claims → (key, d, some x) ∈ claims →
    m.world.WaitsForCall x d
  waiters : ∀ {d x}, x ∈ m.world.waiters d → m.world.WaitsForAll x d
  settling : ∀ {d phase x}, (d, phase) ∈ m.phases → x ∈ phase.waiters → m.world.WaitsForAll x d
  claimed : m.phases ≠ [] → m.world.claims.isSome
  calls : ∀ {d phase}, (d, phase) ∈ m.phases → phase.IsRound →
    m.world.inFlight d = m.world.callsSince d

theorem Hosted.same (h : m.Hosted) (hhosts : m.world.SameTallies m'.world)
    (hphases : ∀ p ∈ m'.phases, p ∈ m.phases)
    (hopened : ∀ {x plan}, m.world.opened x = [plan] → m'.world.opened x = [plan]) : m'.Hosted where
  claims hclaims member := (h.claims (hhosts.claims ▸ hclaims) member).imp fun _ =>
    .imp_left hopened
  waiters member := (h.waiters (hhosts.waiters _ ▸ member)).imp fun _ => .imp_left hopened
  settling hphase member := (h.settling (hphases _ hphase) member).imp fun _ => .imp_left hopened
  claimed hsome := by
    obtain ⟨p, member⟩ := List.exists_mem_of_ne_nil _ hsome
    exact hhosts.claims ▸ h.claimed (List.ne_nil_of_mem (hphases p member))
  calls hphase hround := by
    rw [hhosts.inFlight, hhosts.calls]
    exact h.calls (hphases _ hphase) hround

/-- A driver goes on, and has in its hands nobody whom it did not have before. -/
theorem Hosted.moved {phase phase' : DriverPhase} (h : m.Hosted)
    (hhosts : m.world.SameTallies m'.world)
    (hopened : ∀ {x plan}, m.world.opened x = [plan] → m'.world.opened x = [plan])
    (hbefore : m.phases = [(d, phase)]) (hafter : m'.phases = [(d, phase')])
    (hwaiters : ∀ x ∈ phase'.waiters, x ∈ phase.waiters) (hround : phase'.IsRound → phase.IsRound) :
    m'.Hosted where
  claims hclaims member := (h.claims (hhosts.claims ▸ hclaims) member).imp fun _ =>
    .imp_left hopened
  waiters member := (h.waiters (hhosts.waiters _ ▸ member)).imp fun _ => .imp_left hopened
  settling hphase member := by
    rw [hafter] at hphase
    cases List.mem_singleton.1 hphase
    exact (h.settling (hbefore ▸ List.mem_singleton.2 rfl) (hwaiters _ member)).imp fun _ =>
      .imp_left hopened
  claimed _ := hhosts.claims ▸ h.claimed (by simp [hbefore])
  calls hphase hlater := by
    rw [hafter] at hphase
    cases List.mem_singleton.1 hphase
    rw [hhosts.inFlight, hhosts.calls]
    exact h.calls (hbefore ▸ List.mem_singleton.2 rfl) (hround hlater)

/-- While ready calls work, calls only give handles up. -/
theorem Hosted.polls {turns : Nat} (h : m.Hosted)
    (hopened : ∀ {x plan}, m.world.opened x = [plan] → m'.world.opened x = [plan])
    (hwaiters : ∀ e, m'.world.waiters e = m.world.waiters e)
    (hclaims : ∀ claims', m'.world.claims = some claims' → ∃ claims, m.world.claims = some claims ∧
      ∀ claim ∈ claims', ∀ x, claim.2.2 = some x → claim ∈ claims)
    (hsome : m'.world.claims.isSome) (hafter : m'.phases = [(d, .poll turns)]) : m'.Hosted where
  claims heq member := by
    obtain ⟨claims, hbefore, hkept⟩ := hclaims _ heq
    exact (h.claims hbefore (hkept _ member _ rfl)).imp fun _ => .imp_left hopened
  waiters member := (h.waiters (hwaiters _ ▸ member)).imp fun _ => .imp_left hopened
  settling hphase member := by
    rw [hafter] at hphase
    cases List.mem_singleton.1 hphase
    cases member
  claimed _ := hsome
  calls hphase hround := by
    rw [hafter] at hphase
    cases List.mem_singleton.1 hphase
    exact hround.elim

theorem Hosted.works (h : m.Hosted) (hm : m.Sound byHand) (hturns : Turns allowed m m')
    (hworks : Works m m') : m'.Hosted := by
  have hopened : ∀ {x plan}, m.world.opened x = [plan] → m'.world.opened x = [plan] :=
    hturns.opened hm
  have hcall : ∀ {x d}, m.world.WaitsForCall x d → m'.world.WaitsForCall x d :=
    fun hx => hx.imp fun _ => .imp_left hopened
  have hall : ∀ {x d}, m.world.WaitsForAll x d → m'.world.WaitsForAll x d :=
    fun hx => hx.imp fun _ => .imp_left hopened
  cases hworks with
  | same hloops =>
    exact h.same hloops.hosts.toSameTallies (fun p member => hloops.phases ▸ member) hopened
  | @issues x plan w d key hopens hhistory hplan hinFlight hwaiters hclaims hcalls hphases =>
    have hown : m'.world.opened x = [plan] := opened_of_opens hm hopens hhistory
    refine ⟨fun {claims key' d' x'} heq member => ?_, fun member => ?_, fun hphase member => ?_,
      fun hsome => ?_, fun {e phase} hphase hround => ?_⟩
    · rw [hclaims, Option.map_eq_some_iff] at heq
      obtain ⟨old, hold, rfl⟩ := heq
      rcases List.mem_append.1 member with member | member
      · exact hcall (h.claims hold member)
      · cases List.mem_singleton.1 member
        exact ⟨plan, hown, hplan⟩
    · rw [hwaiters] at member
      exact hall (h.waiters member)
    · exact hall (h.settling (hphases ▸ hphase) member)
    · rw [hclaims, Option.isSome_map]
      exact h.claimed (hphases ▸ hsome)
    · rw [hinFlight, hcalls, h.calls (hphases ▸ hphase) hround]
  | strands hwaiters hnone hclaims hphases =>
    -- Without an agenda no driver runs.
    have hidle : m.phases = [] := by
      by_contra hsome
      have hclaimed := h.claimed hsome
      rw [hnone] at hclaimed
      cases hclaimed
    have hidle' : m'.phases = [] := hphases.trans hidle
    refine ⟨fun heq => ?_, fun member => ?_, fun hphase => ?_, fun hsome => absurd hidle' hsome,
      fun hphase => ?_⟩
    · rw [hclaims] at heq
      cases heq
    · rw [hwaiters] at member
      exact hall (h.waiters member)
    · rw [hidle'] at hphase
      cases hphase
    · rw [hidle'] at hphase
      cases hphase
  | @waits x plan w d hopens hhistory hplan hinFlight hwaiters hclaims hcalls hphases =>
    have hown : m'.world.opened x = [plan] := opened_of_opens hm hopens hhistory
    refine ⟨fun heq member => hcall (h.claims (hclaims ▸ heq) member), fun {e y} member => ?_,
      fun hphase member => hall (h.settling (hphases ▸ hphase) member), fun hsome =>
        hclaims ▸ h.claimed (hphases ▸ hsome),
      fun hphase hround => ?_⟩
    · rw [hwaiters] at member
      split at member
      next heq =>
        rcases List.mem_append.1 member with member | member
        · exact hall (h.waiters member)
        · cases List.mem_singleton.1 member
          exact ⟨plan, hown, heq ▸ hplan⟩
      next => exact hall (h.waiters member)
    · rw [hinFlight, hcalls, h.calls (hphases ▸ hphase) hround]
  | drives d hwaiters hclaims hbefore hafter =>
    refine ⟨fun heq member => ?_, fun member => ?_, fun hphase member => ?_,
      fun _ => by rw [hclaims]; rfl, fun hphase hround => ?_⟩
    · rw [hclaims] at heq
      cases heq
      cases member
    · rw [hwaiters] at member
      exact hall (h.waiters member)
    · rw [hafter] at hphase
      cases List.mem_singleton.1 hphase
      cases member
    · rw [hafter] at hphase
      cases List.mem_singleton.1 hphase
      exact hround.elim
  | goesOn hhosts hphase hbefore hafter =>
    refine h.moved hhosts.toSameTallies hopened hbefore hafter (fun x member => ?_) fun hround => ?_
    · cases hphase with
      | resumed => exact member
      | listens | elapses | polls | turns | polled | settled => cases member
    · cases hphase with
      | resumed => trivial
      | listens | elapses | polls | turns | polled | settled => exact hround.elim
  | hears htallies hbefore hafter =>
    exact h.moved htallies hopened hbefore hafter (fun x member => by cases member)
      fun hround => hround.elim
  | resumes hhosts hbefore hafter =>
    exact h.moved hhosts.toSameTallies hopened hbefore hafter
      (fun x member => List.mem_cons_of_mem _ member) fun _ => trivial
  | @settles d hnone hwaiters hclaims hcalls hbefore hafter =>
    refine ⟨fun heq member => hcall (h.claims (hclaims ▸ heq) member), fun {e y} member => ?_,
      fun hphase member => ?_, fun _ => hclaims ▸ h.claimed (by simp [hbefore]),
        fun hphase hround => ?_⟩
    · rw [hwaiters] at member
      split at member
      · cases member
      · exact hall (h.waiters member)
    · rw [hafter] at hphase
      cases List.mem_singleton.1 hphase
      exact hall (h.waiters member)
    · rw [hafter] at hphase
      cases List.mem_singleton.1 hphase
      rw [hnone, hcalls]
  | ends hwaiters hclaims hbefore hafter =>
    have hidle : ∀ {p}, p ∉ m'.phases := fun member => by
      rw [hafter] at member
      cases member
    refine ⟨fun heq => ?_, fun member => ?_, fun hphase => absurd hphase hidle,
      fun hsome => absurd hafter hsome, fun hphase => absurd hphase hidle⟩
    · rw [hclaims] at heq
      cases heq
    · rw [hwaiters] at member
      exact hall (h.waiters member)
  | completes hwaiters hclaims hclaim hgiven hbefore hafter =>
    refine h.polls hopened hwaiters (fun claims' heq => ⟨_, hclaims, ?_⟩)
      (by rw [hgiven]; rfl) hafter
    rw [hgiven, Option.some.injEq] at heq
    exact heq ▸ mem_of_givenUp
  | completed key hwaiters hclaims hbefore hafter =>
    refine h.polls hopened hwaiters (fun claims' heq => ?_) ?_ hafter
    · rw [hclaims, Option.map_eq_some_iff] at heq
      obtain ⟨claims, hold, rfl⟩ := heq
      exact ⟨claims, hold, fun claim member _ _ => (List.mem_filter.1 member).1⟩
    · rw [hclaims, Option.isSome_map]
      exact h.claimed (by simp [hbefore])

/-! ### The queue of a driver -/

/-- Once the run loop that a driver asked for has come to its end, nothing is left
in the queue, until a fiber runs again. -/
def Swept (m : Machine) : Prop :=
  ∀ d phase frames s, m.top = .driving d phase :: frames → m.world.fedBy d = some s →
    ((∃ result, m.control = .answer result) ∨ ∃ waiters, phase = .settle waiters) →
    m.world.queue s = []

/-- Where a driver's frame is on top, control is plain, and no code runs. -/
theorem Sound.control_of_driving (hm : m.Sound byHand) (htop : m.top = .driving d phase :: frames) :
    m.control = .advance ∨ ∃ result, m.control = .answer result := by
  have haccepts := hm.accepts
  rw [htop] at haccepts
  generalize m.control = control at haccepts
  cases control with
  | advance => exact .inl rfl
  | answer result => exact .inr ⟨result, rfl⟩
  | raise | panicking => simp [World.Accepts, Frame.isPlain] at haccepts
  | resumed => exact haccepts.2.elim
  | back => exact haccepts.1.elim

/-- The root of a fiber that just begins or goes on is out of reach. -/
theorem enter_not_driving {fiber : Fiber} (hm : (m.enter fiber resumption).Sound byHand) :
    (m.enter fiber resumption).top ≠ .driving d phase :: frames := by
  intro htop
  have hcontrol := hm.control_of_driving htop
  rw [enter.eq_def] at htop hcontrol
  split at htop
  · split at htop <;> cases htop
  next hstate =>
    rw [hstate] at hcontrol
    simp [occupy] at hcontrol
  next hstate =>
    rw [hstate] at hcontrol
    simp [withControl] at hcontrol

theorem suspendAwait_not_driving (hm : (m.suspendAwait x plan).Sound byHand) :
    (m.suspendAwait x plan).top ≠ .driving d phase :: frames := by
  intro htop
  have hcontrol := hm.control_of_driving htop
  rw [suspendAwait, push_eq, suspend] at htop hcontrol
  split at htop
  next =>
    rw [goTo_top] at htop
    cases htop
  next running below hrunning =>
    rw [hrunning] at hcontrol
    simp at hcontrol

theorem enter_keeps (m : Machine) (fiber : Fiber) (resumption : Resumption) :
    m.world.Keeps (m.enter fiber resumption).world := by
  rw [enter.eq_def]
  split
  · split <;> exact World.keeps_current ..
  · exact World.keeps_current ..
  · exact (World.steady_release _ _).toKeeps

/-- A delivery that leaves a driver on top is answered at once. -/
theorem deliver_of_driving (hm' : (m.deliver s x resumption).Sound byHand)
    (htop : (m.deliver s x resumption).top = .driving d phase :: frames) :
    m.top = .driving d phase :: frames := by
  simp only [deliver] at hm' htop
  split at htop
  next hwake =>
    rwa [withWorld_eq, goTo_withControl, goTo_top] at htop
  next hwake =>
    rwa [withWorld_eq, goTo_withControl, goTo_top] at htop
  next hwake =>
    simp only [hwake] at hm'
    split at htop
    next => rwa [withWorld_eq, goTo_withControl, goTo_top] at htop
    next hcurrent =>
      rw [if_neg hcurrent] at hm'
      exact absurd htop (enter_not_driving hm')

/-- Nor does it bring anything into a queue, outside of fibers. -/
theorem Delivers.queue_eq_nil {cell : HandleCell} (h : Delivers m s x cell resumption m')
    (hcell : m.world.handles.get? x = some cell) (hroot : m.world.current = none) {t : SchedulerId}
    (hqueue : m.world.queue t = []) : m'.world.queue t = [] := by
  have hlaid : ∀ slot (event : Event), event.IsQuiet →
      ((((m.world.setSlot x slot).mark (.accepted x resumption)).release [.handle x]).tell
        event).queue t = [] := by
    intro slot event hquiet
    obtain ⟨-, v, -, hschedulers, -, hnoArrivals⟩ :=
      setsSlot_release hcell slot resumption event hquiet
    refine hnoArrivals.queue_eq_nil ?_
    rwa [World.queue, World.scheduler?, hschedulers]
  cases h with
  | stored event hslot hquiet => exact hlaid _ _ hquiet
  | refused fault event hslot hother hquiet =>
    exact ((World.noArrivals_release _ _).trans (.tell _ hquiet.1)).queue_eq_nil hqueue
  | queued fiber event hslot hcurrent hquiet =>
    rw [hroot] at hcurrent
    cases hcurrent
  | dispatched fiber event hslot hcurrent hquiet =>
    exact World.queue_eq_nil_of_sameOrGone (enter_spares _ fiber resumption).scheduler
      (hlaid _ event hquiet)

/-- What frames rely on outlasts a delivery. -/
theorem Delivers.keeps {cell : HandleCell} (h : Delivers m s x cell resumption m') :
    m.world.Keeps m'.world := by
  cases h with
  | stored event hslot hquiet =>
    have hwakes : m.world.Wakes x cell (.scheduler s) resumption _ := .stored hslot
    exact (hwakes.steady.trans (World.steady_tell _ event)).toKeeps
  | refused fault event hslot hother hquiet =>
    have hwakes : m.world.Wakes x cell (.scheduler s) resumption _ := .refused fault hslot hother
    exact (hwakes.steady.trans (World.steady_tell _ event)).toKeeps
  | queued fiber event hslot hcurrent hquiet =>
    have hwakes : m.world.Wakes x cell (.scheduler s) resumption _ := .met fiber hslot
    exact ((hwakes.steady.trans (World.steady_tell _ event)).trans
        (World.steady_append _ _ _)).toKeeps
  | dispatched fiber event hslot hcurrent hquiet =>
    have hwakes : m.world.Wakes x cell (.scheduler s) resumption _ := .met fiber hslot
    refine .trans ?_ (enter_keeps _ fiber resumption)
    exact ((hwakes.steady.trans (World.steady_tell _ event)).trans (World.steady_mark _ _)).toKeeps

theorem handOut_top (m : Machine) (action name : String) (fiber : Fiber) (resumption : Resumption) :
    (m.handOut action name fiber resumption).top = m.top := by
  rw [handOut, emit, withWorld_withWorld, withWorld_eq, goTo_top]

theorem parkedByHand_top (m : Machine) (name : String)
    (result : Option (Fiber × Resumption) × World) : (m.parkedByHand name result).top = m.top := by
  obtain ⟨_ | ⟨fiber, resumption⟩, w⟩ := result
  · rw [parkedByHand, withWorld_eq, goTo_emit, goTo_top]
  · rw [parkedByHand, handOut_top, withWorld_eq, goTo_top]

theorem wokenByHand_top (m : Machine) (name : String)
    (result : Except SchedulerFault (Option (Fiber × Resumption)) × World) :
    (m.wokenByHand name result).top = m.top := by
  obtain ⟨_ | _ | ⟨fiber, resumption⟩, w⟩ := result
  · rw [wokenByHand, withWorld_eq, goTo_emit, goTo_top]
  · rw [wokenByHand, withWorld_eq, goTo_emit, goTo_top]
  · rw [wokenByHand, handOut_top, withWorld_eq, goTo_top]

/-- Code that acts leaves no driver on top, unless it starts one. -/
theorem Does.of_driving {todo : List Action} {guards : List Datum} {rest : List Frame}
    (hm' : m'.Sound byHand) (h : Does allowed m m') (hstands : m.top = .actions todo guards :: rest)
    (htop : m'.top = .driving d phase :: frames) : phase = .drain ∧ m'.control = .advance := by
  cases h with
  | idle pushed w control hpushed hcode hshift =>
    rw [goTo_top] at htop
    cases pushed with
    | nil =>
      rw [List.nil_append, hstands] at htop
      cases htop
    | cons frame pushed =>
      cases htop
      exact (hpushed _ (List.mem_cons_self ..)).elim
  | enqueues hallowed hs shown | strands panic hplan hshift hcurrent hagenda hafter | drivers hs =>
    rw [goTo_top, hstands] at htop
    cases htop
  | asks max reply hshift =>
    rw [run] at htop
    split at htop
    · rw [goTo_withControl, goTo_top] at htop
      cases htop
    · rw [goTo_push, goTo_advance, goTo_top] at htop
      cases htop
  | delivers reply hshift =>
    have hbelow := deliver_of_driving hm' htop
    rw [goTo_top] at hbelow
    cases hbelow
  | awaits clones register hplan hcurrent hshift =>
    rw [goTo_top] at htop
    cases htop
  | issues | waits => exact absurd htop (suspendAwait_not_driving hm')
  | drives d hd hcurrent hagenda =>
    rw [goTo_top] at htop
    cases htop
    exact ⟨rfl, rfl⟩
  | @suspends w x slot keep raises hallowed hshift hcurrent hslot =>
    have hcontrol := hm'.control_of_driving htop
    rw [suspend] at htop hcontrol
    split at htop
    next => rw [goTo_top] at htop; cases htop
    next running below hrunning =>
      rw [hrunning] at hcontrol
      simp at hcontrol
  | makes hallowed hshift =>
    rw [goTo_top, hstands] at htop
    cases htop
  | @parks w x fiber slot keep name owner hallowed hrests hshift =>
    rw [parkedByHand_top, goTo_top, hstands] at htop
    cases htop
  | @wakes w x resumption slot keep name owner delivery hallowed hshift =>
    rw [wokenByHand_top, goTo_top, hstands] at htop
    cases htop
  | transfers => exact absurd htop (enter_not_driving hm')

theorem Swept.moves (h : m.Swept) (hm : m.Sound byHand) (hm' : m'.Sound byHand)
    (hmoves : Moves allowed m m') : m'.Swept := by
  intro d phase frames s htop hfed hwhen
  have haccepts := hm.accepts
  -- A driver asks the scheduler that it feeds, before and afterwards.
  have hsame : ∀ {t}, m.world.fedBy d = some t → m.world.Keeps m'.world → t = s := fun ht hkeeps =>
    Option.some.inj ((hkeeps.fed ht).symm.trans hfed)
  have hplain : ∀ {inFiber : Bool} {frames' : List Frame}, PlainStack inFiber frames' →
      frames' ≠ .driving d phase :: frames := by
    rintro inFiber frames' hplain rfl
    cases (plainStack_cons.1 hplain).1
  cases hmoves with
  | @acts action todo guards rest _ hstands hcontrol hdoes =>
    obtain ⟨rfl, hcontrol'⟩ := hdoes.of_driving hm' (goTo_top ..) htop
    simp [hcontrol'] at hwhen
  | @idle frame rest pushed w control hstands hlight hpushed hcode hshift =>
    rw [hstands] at haccepts
    rw [goTo_top] at htop
    cases pushed with
    | nil => exact absurd htop (hplain (haccepts.of_light hlight))
    | cons frame pushed =>
      cases htop
      exact (hpushed _ (List.mem_cons_self ..)).elim
  | registered hstands hcontrol hshift => exact absurd htop (suspendAwait_not_driving hm')
  | @concludes x plan rest resumption hstands hcontrol =>
    obtain ⟨w, control, heq, -⟩ :=
      concludeAwait_eq (m.goTo rest m.world m.control) x plan resumption
    rw [heq, goTo_goTo, goTo_top, goTo_top] at htop
    rw [hstands, hcontrol] at haccepts
    exact absurd htop (hplain haccepts.2)
  | @transferred name slot fiber exit rest hstands hcontrol =>
    rw [hstands, hcontrol] at haccepts
    obtain ⟨w, heq, -⟩ :=
      transferred_noProgress (m.goTo rest m.world m.control) name slot fiber exit
    rw [heq, goTo_goTo, goTo_top, goTo_top] at htop
    exact absurd htop (hplain haccepts.1.2.2)
  | receives hstands hcontrol =>
    rw [hstands, hcontrol] at haccepts
    obtain ⟨ran, max, rest, rfl, -⟩ := haccepts.1.of_dispatching
    rw [goTo_top] at htop
    cases htop
  | @drains t ran max rest hstands hcontrol =>
    rw [hstands, hcontrol] at haccepts
    have hdrains := Machine.drains (m.goTo rest m.world .advance) t ran max
    generalize (m.goTo rest m.world .advance).drain t ran max = m' at hdrains hm' htop hfed hsame
    cases hdrains with
    | stops hstops =>
      rw [goTo_goTo, goTo_top, goTo_top] at htop
      subst htop
      obtain ⟨hmax, hasked⟩ : max = none ∧ m.world.fedBy d = some t := by
        cases phase <;> first | exact ⟨haccepts.2.1, haccepts.2.2.1⟩ | exact haccepts.2.elim
      obtain rfl := hsame hasked (.refl _)
      exact hstops.resolve_left (by simp [hmax])
    | fails =>
      rw [goTo_top] at htop
      cases htop
    | starts | wakes => exact absurd htop (enter_not_driving hm')
  | asksAgain hstands hcontrol hd =>
    rw [run] at htop
    split at htop
    next current hcurrent =>
      rw [hstands] at haccepts
      rw [World.currentId, goTo_world, Option.map_eq_some_iff] at hcurrent
      obtain ⟨running, hrunning, -⟩ := hcurrent
      have hinside := hm.current_isSome
      rw [hrunning, haccepts.of_driving.1] at hinside
      cases hinside
    next =>
      rw [goTo_push, goTo_advance, goTo_top] at htop
      cases htop
  | @goesOn e phase₀ phase' rest w hstands hphase hshift =>
    have hdrift := (hm.kept_of_top hstands).drift hshift
    rw [goTo_top] at htop
    cases htop
    obtain ⟨waiters, rfl⟩ := hwhen.resolve_left (by simp)
    cases hphase with
    | resumed fiber waiters =>
      rw [hstands] at haccepts
      -- The fiber that was resumed before has come back, and with it the run loop.
      rcases hm.control_of_driving hstands with hadvance | ⟨result, hanswer⟩
      · rw [hadvance] at haccepts
        exact absurd rfl (haccepts.2.1 fiber waiters)
      · rw [hanswer] at haccepts
        obtain ⟨t, -, hasked, -⟩ := haccepts.2.1
        obtain rfl := hsame hasked hdrift.steady.toKeeps
        exact hdrift.noArrivals.queue_eq_nil
          (h d _ frames t hstands hasked (.inl ⟨result, hanswer⟩))
  | hears hstands =>
    rw [goTo_top] at htop
    cases htop
    simp at hwhen
  | @settles e driver n rest hstands hcontrol hd hnone hwaiting =>
    have hfed₀ : m.world.fedBy e = some driver.scheduler := by rw [World.fedBy, hd]; rfl
    rw [goTo_top] at htop
    cases htop
    obtain rfl := hsame hfed₀ (((World.steady_updateDriver _ d
      (g := fun driver => { driver with waiting := [] }) fun _ =>
      rfl).trans (World.steady_tell _ _)).toKeeps)
    exact h d _ frames _ hstands hfed₀ (.inl ⟨_, hcontrol⟩)
  | ends hstands hcontrol hd =>
    rw [hstands] at haccepts
    rw [goTo_top] at htop
    exact absurd htop (hplain haccepts.of_driving.2)
  | @resumes e driver x waiters rest hstands hcontrol hd =>
    have hfed₀ : m.world.fedBy e = some driver.scheduler := by rw [World.fedBy, hd]; rfl
    have hheld := hm.kept_of_top hstands
    rw [hstands] at haccepts
    obtain ⟨cell, hcell, -⟩ := hheld.balanced.clones_pos (x := x) (by
      simp only [Frame.assets, List.map_cons, weigh_append, weigh_cons, cloneOf, if_true]
      omega)
    have hroot : m.world.current = none := by
      have hinside := hm.current_isSome
      rw [haccepts.of_driving.1] at hinside
      exact Option.not_isSome_iff_eq_none.1 (by simp [hinside])
    have hdelivers := (m.goTo (.driving e (.resuming (m.world.handleId x) waiters) :: rest) m.world
      .advance).delivers driver.scheduler hcell .unit
    have hbelow := deliver_of_driving hm' htop
    rw [goTo_top] at hbelow
    cases hbelow
    obtain rfl := hsame hfed₀ hdelivers.keeps
    exact hdelivers.queue_eq_nil hcell hroot (h d _ frames _ hstands hfed₀ (.inr ⟨_, rfl⟩))
  | completes hstands hcontrol hshift hagenda hcall hstate hd =>
    have hbelow := deliver_of_driving hm' htop
    rw [goTo_top] at hbelow
    cases hbelow
  | breaks =>
    rw [goTo_top] at htop
    cases htop
  | @completed e key fiber result rest hstands hcontrol =>
    rw [hstands, hcontrol] at haccepts
    obtain ⟨-, ⟨t, hasks⟩, -⟩ := haccepts
    obtain ⟨e', turns, below, rfl, -⟩ := hasks.of_completing
    obtain ⟨w, heq, -⟩ :=
      completed_eq (m.goTo (.driving e' (.poll turns) :: below) m.world m.control) e
      key fiber result
    rw [heq] at htop hwhen
    rw [goTo_goTo, goTo_top, goTo_top] at htop
    cases htop
    simp at hwhen
  | leaves hrunning hstands hcontrol =>
    have hback := hm'.control_of_driving htop
    rw [leave] at hback
    simp at hback

end Machine

/-! ### Where awaits wait -/

/-- A stack that waits for a resumption has at most one await, on top of it. -/
theorem WaitingStack.awaiting {frames : List Frame} {x : HandleRef} {plan : AwaitPlan}
    (h : WaitingStack frames) (member : .awaiting x plan ∈ frames) :
    ∃ rest, frames = .awaiting x plan :: rest := by
  have hplain : ∀ {rest : List Frame}, PlainStack true rest →
      .awaiting x plan ∉ rest := fun hplain member => by
    cases hplain _ member
  cases frames with
  | nil => cases member
  | cons frame rest =>
    rcases List.mem_cons.1 member with rfl | member
    · exact ⟨rest, rfl⟩
    · have hrest : PlainStack true rest := by cases frame <;> first | exact h | exact h.elim
      exact absurd member (hplain hrest)

theorem Fiber.AtRest.awaiting {fiber : Fiber} {x : HandleRef} {plan : AwaitPlan} (h : fiber.AtRest)
    (member : .awaiting x plan ∈ fiber.frames) :
    ∃ rest, fiber.frames = .awaiting x plan :: rest := by
  obtain ⟨serial, id, home, stack, state⟩ := fiber
  cases state with
  | suspended frames first => exact (h frames first rfl).awaiting member
  | unstarted | finished => cases member

/-- Without transfers by hand, an await is on a stack that control is in only when its
fiber is resumed. -/
theorem World.Accepts.awaiting {w : World} {inFiber : Bool} {control : Control}
    {frames : List Frame} {x : HandleRef} {plan : AwaitPlan}
    (h : w.Accepts False inFiber control frames) (member : .awaiting x plan ∈ frames) :
    ∃ resumption rest, control = .resumed resumption ∧ frames = .awaiting x plan :: rest := by
  have hplain : ∀ {inFiber : Bool} {rest : List Frame}, PlainStack inFiber rest →
      .awaiting x plan ∉ rest :=
    fun hplain member => by cases hplain _ member
  cases control with
  | resumed resumption =>
    obtain ⟨rest, hrest⟩ := h.2.awaiting member
    exact ⟨resumption, rest, rfl, hrest⟩
  | raise | panicking => exact absurd member (hplain h)
  | back fiber exit => exact (h.1.not_isAwait _ member trivial).elim
  | answer result =>
    cases frames with
    | nil => cases member
    | cons frame rest =>
      rcases List.mem_cons.1 member with rfl | below
      · exact h.2.1.choose_spec.elim
      · cases frame <;> first
          | exact absurd below (hplain h)
          | exact (h.2.1.choose_spec.not_isAwait _ member trivial).elim
  | advance =>
    cases frames with
    | nil => cases member
    | cons frame rest =>
      rcases List.mem_cons.1 member with rfl | below
      · exact absurd member (hplain h)
      · cases frame <;> first
          | exact absurd member (hplain h)
          | exact (h.2.not_isAwait _ below trivial).elim
          | exact absurd below (hplain h.2.2)

namespace Machine

variable {allowed : Action → Prop} {m m' : Machine} {script : Script} {x : HandleRef}
  {s : SchedulerId} {d : DriverId} {frames : List Frame} {w : World} {plan : AwaitPlan}
  {phase : DriverPhase} {resumption : Resumption}

/-- An await is being resumed, or its fiber just suspends, or is parked in the handle
of the await, or queued with what was accepted for it. -/
theorem Faithful.awaiting (hf : m.Faithful) (hm : m.Sound False)
    (hheld : m.Holds (.awaiting x plan)) :
    (∃ resumption frames, m.control = .resumed resumption ∧ m.top = .awaiting x plan :: frames) ∨
      (∃ fiber, m.control = .back fiber (.suspended x)) ∨
      ∃ fiber frames, fiber.frames = .awaiting x plan :: frames ∧
        ((∃ cell owner, m.world.handles.get? x = some cell ∧ cell.slot = .parked fiber owner) ∨
          ∃ s resumption, .woken fiber resumption ∈ m.world.queue s ∧
            m.world.accepted x = [resumption]) := by
  have hown : ∀ {fiber : Fiber} {rest y}, fiber.frames = .awaiting x plan :: rest →
      fiber.AwaitsOn y → y = x :=
    fun hframes hy => hy.eq ⟨plan, _, hframes⟩
  obtain ⟨stack, hstacked, member⟩ := hheld
  cases hstacked with
  | top =>
    obtain ⟨resumption, rest, hcontrol, htop⟩ := hm.accepts.awaiting member
    exact .inl ⟨resumption, rest, hcontrol, htop⟩
  | @back fiber exit hcontrol =>
    have haccepts := hm.accepts
    rw [hcontrol] at haccepts
    obtain ⟨rest, hframes⟩ := haccepts.2.1.awaiting member
    have hsuspended : fiber.isSuspended = true := by
      obtain ⟨plan', frames, first, hstate⟩ := Fiber.AwaitsOn.state_eq ⟨plan, rest, hframes⟩
      rw [Fiber.isSuspended, Fiber.isStarted, Fiber.isFinished, hstate]
      rfl
    obtain ⟨y, rfl⟩ := haccepts.2.2.1 hsuspended
    obtain rfl := hown hframes (hf.back fiber y hcontrol).1
    exact .inr (.inl ⟨fiber, hcontrol⟩)
  | @kept fiber hkeeps =>
    cases hkeeps with
    | @parked y cell owner hcell hslot =>
      obtain ⟨rest, hframes⟩ := (hm.kept.orderly.rests_of_met hcell hslot).atRest.awaiting member
      obtain rfl := hown hframes (hf.tended.parked hcell hslot).2
      exact .inr (.inr ⟨fiber, rest, hframes, .inl ⟨cell, owner, hcell, hslot⟩⟩)
    | @queued t resumption hqueued =>
      obtain ⟨rest, hframes⟩ := (hm.kept.orderly.queued _ _ _ hqueued).atRest.awaiting member
      obtain ⟨y, hawaits, -, howes⟩ := hf.tended.queued hqueued
      obtain rfl := hown hframes hawaits
      exact .inr (.inr ⟨fiber, rest, hframes, .inr ⟨t, resumption, hqueued, howes.accepted⟩⟩)

/-! ### Who resumes those who wait for all calls -/

/-- The fiber that waits for all calls of the driver is being resumed by the driver,
and nothing is left in the queue that the driver feeds. -/
structure SettledBy (m : Machine) (x : HandleRef) (d : DriverId) : Prop where
  resumed : m.control = .resumed .unit
  awaiting : ∃ plan frames, m.top = .awaiting x plan :: frames
  swept : ∃ s, m.world.fedBy d = some s ∧ m.world.queue s = []
  round : ∃ fiber waiters, (d, .resuming fiber waiters) ∈ m.phases

/-- No register function is shown a handle that drivers hold, and nothing is accepted
for those who wait for all calls of a driver, but what resumes them at once. -/
structure Secluded (m : Machine) : Prop where
  registers : ∀ {x plan}, m.Holds (.registering x plan) → plan.kind.isHosted = false
  settles : ∀ {x plan d}, m.Holds (.awaiting x plan) → plan.kind = .all d →
    m.world.accepted x = [] ∨ m.SettledBy x d

/-- Once it has come to what it was resumed with, an await is gone. -/
theorem not_awaiting_of_concludes (hf' : m'.Faithful) (hm : m.Sound False) (hm' : m'.Sound False)
    (hmoves : Moves allowed m m') {r : Resumption} (hcontrol : m.control = .resumed r)
    (htop : m.top = .awaiting x plan :: frames) {plan' : AwaitPlan} :
    ¬m'.Holds (.awaiting x plan') := by
  intro hheld
  have hwhere := hf'.awaiting hm' hheld
  cases hmoves with
  | @concludes y plan₀ rest resumption hstands hresumed =>
    rw [htop] at hstands
    cases hstands
    have hkept := hm.kept_of_top htop
    rw [hresumed] at hkept
    obtain ⟨w, control, heq, hcode, hshift⟩ :=
      concludeAwait_eq (m.goTo frames m.world m.control) x plan resumption
    have hnoArrivals := (World.Sound.awaited hkept resumption).noArrivals hshift
    rw [heq, goTo_goTo, goTo_top] at hwhere
    simp only [goTo_control, goTo_world] at hwhere
    rcases hwhere with ⟨other, rest, hother, -⟩ | ⟨fiber, hback⟩ | ⟨fiber, rest, hframes, hkeeps⟩
    · rw [hother] at hcode
      exact hcode.elim
    · rw [hback] at hcode
      exact hcode.elim
    · have hrests : w.KeepsFiber fiber := by
        rcases hkeeps with ⟨cell, owner, hcell, hslot⟩ | ⟨s, resumption, hqueued, -⟩
        · exact .parked hcell hslot
        · exact .queued hqueued
      exact hm.not_awaits_of_top htop (World.keepsFiber_of_mark (hnoArrivals.keepsFiber hrests))
        ⟨plan', rest, hframes⟩
  | acts hstands hadvance =>
    rw [hcontrol] at hadvance
    cases hadvance
  | idle pushed w control hstands hlight =>
    rw [htop] at hstands
    cases hstands
    exact hlight.elim
  | registered hstands | transferred hstands | receives hstands | drains hstands | asksAgain hstands
  | goesOn hstands | hears hstands | settles hstands | ends hstands | resumes hstands
  | completes hstands
  | breaks hstands | completed hstands =>
    rw [htop] at hstands
    cases hstands
  | leaves hrunning hstands =>
    rw [htop] at hstands
    cases hstands

/-- Outside of fibers a driver's delivery resumes the fiber that is parked. -/
theorem settledBy_of_delivers {cell : HandleCell} {fiber : Fiber} {owner : Owner}
    {waiters : List HandleRef} {below rest : List Frame} {f : FiberId} (hm : m.Sound False)
    (hswept : m.Swept) (htop : m.top = .driving d (.settle (x :: waiters)) :: below)
    (hfed : m.world.fedBy d = some s) (hcell : m.world.handles.get? x = some cell)
    (hslot : cell.slot = .parked fiber owner) (hframes : fiber.frames = .awaiting x plan :: rest)
    (hdelivers : Delivers (m.goTo (.driving d (.resuming f waiters) :: below) m.world .advance) s x
      cell .unit m')
    (haccepted : ∀ fault, m'.control ≠ .answer (.error fault)) : m'.SettledBy x d := by
  have haccepts := hm.accepts
  rw [htop] at haccepts
  obtain ⟨hroot, hplain⟩ := haccepts.of_driving
  have hcurrent : m.world.current = none := by
    have hinside := hm.current_isSome
    rw [hroot] at hinside
    exact Option.not_isSome_iff_eq_none.1 (by simp [hinside])
  have hentered : m'.control = .resumed .unit ∧ ∃ plan frames,
      m'.top = .awaiting x plan :: frames := by
    cases hdelivers with
    | dispatched fiber' event hslot' =>
      rw [hslot] at hslot'
      cases hslot'
      obtain ⟨plan', frames, first, hstate⟩ := Fiber.AwaitsOn.state_eq ⟨plan, rest, hframes⟩
      rw [enter_suspended hstate]
      exact ⟨rfl, plan', frames, rfl⟩
    | stored event hslot' => simp [hslot] at hslot'
    | queued fiber' event hslot' hcurrent' => simp [hcurrent] at hcurrent'
    | refused fault event => exact absurd rfl (haccepted fault)
  refine ⟨hentered.1, hentered.2, ⟨s, hdelivers.keeps.fed hfed, ?_⟩, f, waiters, ?_⟩
  · exact hdelivers.queue_eq_nil hcell hcurrent (hswept d _ below s htop hfed (.inr ⟨_, rfl⟩))
  · rw [(SameLoops.deliver hdelivers).phases, phases_goTo_of_root hroot]
    exact List.mem_cons_self ..

theorem Secluded.settles_of_held (h : m.Secluded) (hm : m.Sound False) (hm' : m'.Sound False)
    (hf : m.Faithful) (hf' : m'.Faithful) (htitled : m.Titled) (hhosted : m.Hosted)
    (hswept : m.Swept) (hmoves : Moves Action.IsPublic m m') (hbefore : m.Holds (.awaiting x plan))
    (hkind : plan.kind = .all d) (hheld : m'.Holds (.awaiting x plan)) : m'.world.accepted x = [] ∨
    m'.SettledBy x d := by
  have hopened := htitled x plan (.inr hbefore)
  rcases h.settles hbefore hkind with hnone | hsettled
  · rcases (hm.turns hmoves).told hm (minds_accepted? x)
      (fun _ hpublic hhand _ => absurd hpublic hhand) with
      hsame | ⟨y, plan', w, hopens, -, htold⟩ |
        ⟨frames, w, s, y, cell, resumption, hnoArrivals, hcell, hfrom, hdelivers, haccepted, htold⟩
    · exact .inl (hsame.trans hnone)
    · exact .inl ((htold.trans (List.append_nil _)).trans hnone)
    · by_cases hyx : y = x
      · subst hyx
        cases hfrom with
        | code hshown =>
          exact absurd hshown (hm.kept.hidden y id (World.hosts_pos hopened (by rw [hkind]; rfl)))
        | call hclaims hclaim =>
          obtain ⟨plan', hopened', hcaller⟩ := hhosted.claims hclaims hclaim
          rw [hopened] at hopened'
          cases hopened'
          rw [hkind] at hcaller
          cases hcaller
        | @driver e waiters below htop hfed hframes hworld hunit =>
          subst hframes hworld hunit
          have haccepts := hm.accepts
          rw [htop] at haccepts
          have hphase : (e, .settle (y :: waiters)) ∈ m.phases := by
            rw [phases_of_root haccepts.of_driving.1, htop]
            exact List.mem_cons_self ..
          obtain ⟨plan', hopened', hall⟩ := hhosted.settling hphase (List.mem_cons_self ..)
          rw [hopened] at hopened'
          cases hopened'
          rw [hkind] at hall
          cases hall
          rcases hf.awaiting hm hbefore with ⟨r, -, hcontrol, -⟩ | ⟨fiber, hcontrol⟩ |
            ⟨fiber, rest, hfiber, ⟨old, owner, hold, hslot⟩ | ⟨t, r, -, hqueued⟩⟩
          · rcases hm.control_of_driving htop with heq | ⟨result, heq⟩ <;> simp [hcontrol] at heq
          · rcases hm.control_of_driving htop with heq | ⟨result, heq⟩ <;> simp [hcontrol] at heq
          · rw [hcell] at hold
            cases hold
            exact .inr (settledBy_of_delivers hm hswept htop hfed hcell hslot hfiber
                hdelivers haccepted)
          · rw [hnone] at hqueued
            cases hqueued
      · left
        rw [World.accepted, htold, ← World.accepted, hnone, Mark.accepted?, if_neg hyx]
        rfl
  · obtain ⟨plan', frames, htop⟩ := hsettled.awaiting
    exact absurd hheld (not_awaiting_of_concludes hf' hm hm' hmoves hsettled.resumed htop)

theorem Secluded.moves (h : m.Secluded) (hm : m.Sound False) (hm' : m'.Sound False)
    (hf : m.Faithful) (hf' : m'.Faithful) (htitled : m.Titled) (hhosted : m.Hosted)
    (hswept : m.Swept) (hmoves : Moves Action.IsPublic m m') :
    m'.Secluded := by
  have hturns := hm.turns hmoves
  refine ⟨fun {x plan} hheld => ?_, fun {x plan d} hheld hkind => ?_⟩
  · rcases hturns.holds hm hm' (by trivial) hheld with
      hbefore | ⟨y, plan', w, hopens, -, hhistory, ⟨heq, hplan⟩ | ⟨heq, -⟩⟩ | ⟨y, plan', heq, -⟩
    · exact h.registers hbefore
    · cases heq
      exact hplan
    · cases heq
    · cases heq
  · rcases hturns.holds hm hm' (by trivial) hheld with
      hbefore | ⟨y, plan', w, hopens, -, hhistory, ⟨heq, -⟩ | ⟨heq, -⟩⟩ | ⟨y, plan', heq,
        hregisters, -⟩
    · exact h.settles_of_held hm hm' hf hf' htitled hhosted hswept hmoves hbefore hkind hheld
    · cases heq
    · cases heq
      left
      rw [World.accepted, World.told, ← hhistory, ← World.told,
        told_opens hopens (Mark.heeds_accepted? x), ← World.accepted,
          (hf.tended.unmade hopens.unmade).accepted]
      rfl
    · cases heq
      have hplan := h.registers hregisters
      rw [hkind] at hplan
      cases hplan

/-! ### Whole sessions -/

theorem Hosted.stirs (h : m.Hosted) (hstirs : m.world.Stirs w) : (m.withWorld w).Hosted :=
  h.same hstirs.sameHosts.toSameTallies (fun _ => id) fun hopened =>
    (hstirs.noProgress.told (Mark.heeds_opened? _)).trans hopened

theorem Visits.hosted (h : Visits allowed script.start m) : m.Hosted := by
  have hsound : ∀ {a}, Visits allowed script.start a → a.Sound True :=
    fun ha => ha.sound fun _ _ _ _ => trivial
  refine h.induct (fun action => ?_) (fun a b ha hb _ hmoves ih =>
    ih.works (hsound ha) ((hsound ha).turns hmoves) ((hsound ha).works hmoves))
      (fun _ _ _ _ hstirs ih => ih.stirs hstirs)
    fun a w root ha ih _ hbetween hroot hm' => ?_
  · obtain ⟨hdrivers, hagenda⟩ := World.drivers_start script
    have hphases : (Script.begin script.start action).phases = [] := rfl
    refine ⟨fun hclaims => ?_, fun {d x} member => ?_, fun hphase => ?_,
      fun hsome => absurd hphases hsome, fun hphase => ?_⟩
    · rw [Script.begin, World.claims, hagenda] at hclaims
      cases hclaims
    · rw [Script.begin, World.waiters, World.driver?, hdrivers] at member
      cases member
    · rw [hphases] at hphase
      cases hphase
    · rw [hphases] at hphase
      cases hphase
  · have hphases : phases ⟨w, [], root, .advance⟩ = [] :=
      (PlainStack.of_code false hroot).filterMap_driving?
    refine ih.same hbetween.sameHosts.toSameTallies (fun p member => ?_) fun hopened => ?_
    · rw [hphases] at member
      cases member
    · exact (hbetween.noArrivals.told (Mark.heeds_opened? _)).trans hopened

/-- No driver is on top where only code is. -/
theorem swept_of_code {root : List Frame} (hroot : ∀ frame ∈ root, frame.IsCode) :
    Swept ⟨w, [], root, .advance⟩ := by
  intro d phase frames s htop
  have hcons : root = .driving d phase :: frames := htop
  exact (hroot (.driving d phase) (hcons ▸ List.mem_cons_self ..)).elim

theorem Swept.stirs (h : m.Swept) (hstirs : m.world.Stirs w) : (m.withWorld w).Swept := by
  intro d phase frames s htop hfed
  rw [withWorld_world, hstirs.rest] at hfed ⊢
  exact h d phase frames s htop hfed

theorem Visits.swept (h : Visits allowed script.start m) : m.Swept :=
  have hsound : ∀ {a}, Visits allowed script.start a → a.Sound True :=
    fun ha => ha.sound fun _ _ _ _ => trivial
  h.induct (fun _ => swept_of_code fun _ member => List.mem_singleton.1 member ▸ trivial)
    (fun _ _ ha hb _ hmoves ih => ih.moves (hsound ha) (hsound hb) hmoves)
    (fun _ _ _ _ hstirs ih => ih.stirs hstirs)
    fun _ _ _ _ _ _ _ hroot _ => swept_of_code hroot

theorem Secluded.stirs (h : m.Secluded) (hstirs : m.world.Stirs w) : (m.withWorld w).Secluded where
  registers hheld := h.registers (hheld.of_stirs hstirs)
  settles {x plan d} hheld hkind := by
    refine (h.settles (hheld.of_stirs hstirs) hkind).imp (hstirs.noProgress.accepted x).trans
      fun hsettled => ?_
    obtain ⟨s, hfed, hqueue⟩ := hsettled.swept
    refine ⟨hsettled.resumed, hsettled.awaiting, ⟨s, ?_⟩, hsettled.round⟩
    rw [withWorld_world, hstirs.rest]
    exact ⟨hfed, hqueue⟩

theorem Visits.secluded (h : Visits Action.IsPublic script.start m) : m.Secluded := by
  refine h.induct (fun action => ?_) (fun a b ha hb _ hmoves ih =>
    ih.moves ha.public hb.public ha.faithful hb.faithful ha.titled ha.hosted ha.swept hmoves)
    (fun _ _ _ _ hstirs ih => ih.stirs hstirs)
    fun a w root ha ih hdone hbetween hroot hm' => ?_
  · have hnone : ∀ frame : Frame, frame.IsAwait → ¬Holds (Script.begin script.start action) frame :=
      fun frame hframe hheld => by
        obtain ⟨fiber, hkeeps, -⟩ :=
          kept_of_holds hframe (fun frame member => List.mem_singleton.1 member ▸ id) hheld
        exact World.not_keepsFiber_start script fiber hkeeps
    exact ⟨fun hheld => absurd hheld (hnone _ trivial), fun hheld => absurd hheld (hnone _ trivial)⟩
  · have hbefore : ∀ {frame : Frame}, frame.IsAwait → Holds ⟨w, [], root, .advance⟩ frame →
      a.Holds frame :=
      fun hframe hheld => by
        obtain ⟨fiber, hkeeps, member⟩ :=
          kept_of_holds hframe (fun frame member => (hroot frame member).not_isAwait) hheld
        exact ⟨_, .kept (hbetween.noArrivals.keepsFiber hkeeps), member⟩
    refine ⟨fun hheld => ih.registers (hbefore (by trivial) hheld),
      fun {x plan d} hheld hkind => .inl ?_⟩
    refine (hbetween.noArrivals.accepted x).trans ?_
    -- A fiber that is resumed has frames, while this machine is done.
    refine (ih.settles (hbefore (by trivial) hheld) hkind).resolve_right fun hsettled => ?_
    obtain ⟨plan', frames, htop⟩ := hsettled.awaiting
    obtain ⟨world, running, levels, control⟩ := a
    obtain ⟨rfl, rfl⟩ := hdone
    cases htop

/-- Where a fiber comes back from waiting for all calls of a driver, it comes back
with success, nothing is left in the queue that the driver feeds, and the calls of the
driver that are in flight are those that were issued since the driver settled last: every
call that was issued before is over. -/
theorem await_all_returns_settled (h : Visits Action.IsPublic script.start m)
    (hresumed : m.control = .resumed resumption) (htop : m.top = .awaiting x plan :: frames)
    (hplan : plan.kind = .all d) :
    resumption = .unit ∧ (∃ s, m.world.fedBy d = some s ∧ m.world.queue s = []) ∧
      m.world.inFlight d = m.world.callsSince d := by
  have hheld : m.Holds (.awaiting x plan) := ⟨_, .top, htop ▸ List.mem_cons_self ..⟩
  obtain ⟨y, plan', rest, htop', -, howes⟩ := h.faithful.resumed resumption hresumed
  rw [htop] at htop'
  cases htop'
  have hsettled := (h.secluded.settles hheld hplan).resolve_left (by simp [howes.accepted])
  have hunit := hsettled.resumed
  rw [hresumed] at hunit
  obtain ⟨fiber, waiters, hphase⟩ := hsettled.round
  exact ⟨Control.resumed.inj hunit, hsettled.swept, h.hosted.calls hphase trivial⟩

/-- Two fibers wait for all calls, and the one that is resumed first issues a call. -/
def waitTogether : Action :=
  .scope [.newDriver 0, .enqueue 0 [.awaitAll 0 .raise, .sleep 0 5 .raise],
    .enqueue 0 [.awaitAll 0 .raise], .drive 0] false

/-- The state of that program after some steps, with one scheduler. -/
def settling (steps : Nat) : Machine := (Script.begin Script.single.start waitTogether).settle steps

theorem visits_settling (steps : Nat)
    (h : ∀ i < steps, ∀ action ∈ (settling i).nextAction?, action.core.IsPublic) :
    Visits Action.IsPublic Script.single.start (settling steps) :=
  ⟨waitTogether, Leads.settle _ steps h⟩

theorem second_waiter_returns_settled :
    (∀ i < 21, ∀ action ∈ (settling i).nextAction?, action.core.IsPublic) ∧
      ∃ x plan frames, (settling 21).control = .resumed .unit ∧
        (settling 21).top = .awaiting x plan :: frames ∧
        plan.kind = .all ⟨0⟩ ∧
        (settling 21).world.inFlight ⟨0⟩ = (settling 21).world.callsSince ⟨0⟩ ∧
        (settling 21).world.callsSince ⟨0⟩ = 1 := by
  have hpublic : ∀ i < 21, ∀ action ∈ (settling i).nextAction?, action.core.IsPublic := by
    decide +kernel
  have hresumed : (settling 21).control = .resumed .unit := by with_unfolding_all rfl
  have htop : (settling 21).top =
      [.awaiting ⟨1⟩ ⟨.all ⟨0⟩, .unit, .raise, none⟩, .actions [] []] := by
    with_unfolding_all rfl
  obtain ⟨-, -, hcalls⟩ := await_all_returns_settled (visits_settling 21 hpublic) hresumed htop rfl
  exact ⟨hpublic, _, _, _, hresumed, htop, rfl, hcalls, by decide +kernel⟩

/-- So a call that another fiber of the same round issues is not waited for. -/
theorem await_all_returns_with_call_in_flight :
    ¬∀ (m : Machine) (x : HandleRef) (plan : AwaitPlan) (frames : List Frame)
      (resumption : Resumption) (d : DriverId), Visits Action.IsPublic Script.single.start m →
        m.control = .resumed resumption →
        m.top = .awaiting x plan :: frames → plan.kind = .all d → m.world.inFlight d = 0 := by
  intro h
  have hpublic : ∀ i < 21, ∀ action ∈ (settling i).nextAction?, action.core.IsPublic := by
    decide +kernel
  have hnone := h (settling 21) ⟨1⟩ ⟨.all ⟨0⟩, .unit, .raise, none⟩ [.actions [] []] .unit ⟨0⟩
    (visits_settling 21 hpublic) (by with_unfolding_all rfl) (by with_unfolding_all rfl) rfl
  revert hnone
  decide +kernel

end Machine

end Fibers
