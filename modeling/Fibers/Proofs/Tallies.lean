import Fibers.Proofs.Attending

/-!
What drivers count. The counter of a driver is raised where a call is issued and
lowered where the call is over, on every path by which it can be over. So at every
moment it says how many of the driver's calls are alive, and a driver that waits to
be notified has been notified already or has a call that will do it. A call is over
where its outcome has been handed over, where its future panics, and where it is dropped
with the others at the end of a run.
-/

namespace Fibers

/-- The actions that issue host calls. -/
def Action.IsHostCall : Action → Prop
  | .sleep .. | .call .. | .blocking .. => True
  | _ => False

/-- A driver in this phase waits for a notification. -/
def DriverPhase.Listens : DriverPhase → Prop
  | .listen | .poll _ => True
  | _ => False

/-- The call and its driver, if its outcome is being handed over. -/
def HostCall.handing? (call : HostCall) : Option (Nat × DriverId) :=
  match call.state with
  | .holding .. => none
  | .handing => some (call.key, call.driver)

namespace World

/-- The calls that are alive, in the order in which they were issued. -/
def calls (w : World) : List HostCall := w.agenda.elim [] Agenda.calls

/-- How many calls that were issued through a driver are alive. -/
def alive (w : World) (d : DriverId) : Nat := w.calls.countP fun call => call.driver = d

/-- How many calls of a driver have not handed their outcomes over. -/
def outstanding (w : World) (d : DriverId) : Nat :=
  w.calls.countP fun call => call.driver = d ∧ call.handing? = none

/-- The call and its driver, if the handle is gone. -/
def passed? (claim : Nat × DriverId × Option HandleRef) : Option (Nat × DriverId) :=
  if claim.2.2 = none then some (claim.1, claim.2.1) else none

variable {w : World} {d : DriverId} {key : Nat} {x : HandleRef}
  {claims : List (Nat × DriverId × Option HandleRef)}

theorem claims_eq (w : World) : w.claims.getD [] = w.calls.map HostCall.claim := by
  rw [claims, calls]
  cases w.agenda <;> rfl

theorem callKeys_eq (w : World) : w.callKeys = w.calls.map HostCall.key := by
  rw [callKeys, calls]
  cases w.agenda <;> rfl

theorem alive_eq (w : World) (d : DriverId) :
    w.alive d = (w.claims.getD []).countP fun claim => claim.2.1 = d := by
  rw [claims_eq, List.countP_map, alive]
  rfl

theorem handing?_eq (call : HostCall) : call.handing? = passed? call.claim := by
  rw [HostCall.handing?, passed?, HostCall.claim]
  cases call.state <;> rfl

theorem filterMap_handing? (w : World) :
    w.calls.filterMap HostCall.handing? = (w.claims.getD []).filterMap passed? := by
  rw [claims_eq, List.filterMap_map]
  exact congrArg (w.calls.filterMap ·) (funext handing?_eq)

/-- A call that is alive has handed its outcome over, or has not. -/
theorem alive_split (w : World) (d : DriverId) :
    w.alive d = w.outstanding d + (w.calls.filterMap HostCall.handing?).countP fun call =>
      call.2 = d := by
  rw [alive, outstanding]
  induction w.calls with
  | nil => rfl
  | cons call rest ih =>
    rw [List.countP_cons, List.countP_cons, ih, List.filterMap_cons]
    cases hstate : call.state with
    | holding x work =>
      have hnone : call.handing? = none := by rw [HostCall.handing?, hstate]
      simp only [hnone, and_true]
      omega
    | handing =>
      have hsome : call.handing? = some (call.key, call.driver) := by rw [HostCall.handing?, hstate]
      simp only [hsome, List.countP_cons, reduceCtorEq, and_false, decide_false,
        Bool.false_eq_true, if_false]
      omega

/-- A call that is over is not alive any more. -/
theorem key_ne_of_over (w : World) (d : DriverId) (key : Nat) :
    ∀ call ∈ ((w.updateAgenda fun agenda => agenda.remove key).callOver d).calls,
      call.key ≠ key := by
  intro call hcall
  change call ∈ ((w.agenda.map fun agenda => agenda.remove key).elim [] Agenda.calls) at hcall
  cases hagenda : w.agenda with
  | none => rw [hagenda] at hcall; cases hcall
  | some agenda =>
    rw [hagenda] at hcall
    exact of_decide_eq_true (List.mem_filter.1 hcall).2

/-! ### Claims -/

theorem countP_givenUp (claims : List (Nat × DriverId × Option HandleRef)) (key : Nat)
    (d : DriverId) : (claims.map (Machine.givenUp key)).countP (fun claim => claim.2.1 = d) =
      claims.countP fun claim => claim.2.1 = d := by
  rw [List.countP_map]
  refine List.countP_congr fun claim _ => ?_
  rw [Function.comp_apply, Machine.givenUp]
  split <;> rfl

/-- Calls have different keys, so one call only gives its handle up. -/
theorem filterMap_givenUp (hkeys : (claims.map Prod.fst).Pairwise (· < ·))
    (hclaim : (key, d, some x) ∈ claims) (hnone : claims.filterMap passed? = []) :
    (claims.map (Machine.givenUp key)).filterMap passed? = [(key, d)] := by
  induction claims with
  | nil => cases hclaim
  | cons first rest ih =>
    rw [List.map_cons, List.pairwise_cons] at hkeys
    have hhead : passed? first = none := List.filterMap_eq_nil_iff.1 hnone _ (List.mem_cons_self ..)
    have hrest : rest.filterMap passed? = [] :=
      List.filterMap_eq_nil_iff.2 fun other member => List.filterMap_eq_nil_iff.1 hnone other
        (List.mem_cons_of_mem _ member)
    rw [List.map_cons, List.filterMap_cons]
    by_cases hkey : first.1 = key
    · have hfirst : first = (key, d, some x) := by
        rcases List.mem_cons.1 hclaim with heq | member
        · exact heq.symm
        · exact absurd hkey (Nat.ne_of_lt (hkeys.1 _ (List.mem_map_of_mem member)))
      have hothers : rest.map (Machine.givenUp key) = rest := by
        refine (List.map_congr_left fun other member => if_neg fun heq => ?_).trans
          (List.map_id rest)
        exact absurd (hkey.trans heq.symm) (Nat.ne_of_lt (hkeys.1 _ (List.mem_map_of_mem member)))
      have hgiven : Machine.givenUp key first = (key, d, none) := by
        rw [hfirst, Machine.givenUp, if_pos rfl]
      rw [hgiven, hothers, hrest]
      rfl
    · have hother : Machine.givenUp key first = first := if_neg hkey
      rw [hother, hhead]
      refine ih hkeys.2 ((List.mem_cons.1 hclaim).resolve_left fun heq => hkey ?_) hrest
      rw [← heq]

/-- With the call that is over its driver has one call less. -/
theorem countP_remove (hkeys : (claims.map Prod.fst).Pairwise (· < ·))
    (hclaim : (key, d, none) ∈ claims) (e : DriverId) :
    (claims.filter fun claim => claim.1 ≠ key).countP (fun claim => claim.2.1 = e) +
        (if d = e then 1 else 0) = claims.countP fun claim => claim.2.1 = e := by
  induction claims with
  | nil => cases hclaim
  | cons first rest ih =>
    rw [List.map_cons, List.pairwise_cons] at hkeys
    rcases List.mem_cons.1 hclaim with rfl | member
    · have hothers : (rest.filter fun claim => claim.1 ≠ key) = rest := by
        refine List.filter_eq_self.2 fun other hother => ?_
        have hlater := hkeys.1 _ (List.mem_map_of_mem (f := Prod.fst) hother)
        exact decide_eq_true (Nat.ne_of_gt hlater)
      rw [List.filter_cons_of_neg (by simp), hothers, List.countP_cons]
      simp only [decide_eq_true_eq]
    · have hkey : first.1 ≠ key := Nat.ne_of_lt (hkeys.1 _ (List.mem_map_of_mem member))
      rw [List.filter_cons_of_pos (by simp [hkey]), List.countP_cons, List.countP_cons,
        ← ih hkeys.2 member]
      omega

theorem filterMap_remove (claims : List (Nat × DriverId × Option HandleRef)) (key : Nat) :
    (claims.filter fun claim => claim.1 ≠ key).filterMap passed? =
      (claims.filterMap passed?).filter fun call => call.1 ≠ key := by
  induction claims with
  | nil => rfl
  | cons first rest ih =>
    obtain ⟨other, d, x⟩ := first
    by_cases hkey : other = key <;> cases x <;> simp_all [passed?]

theorem mem_of_filterMap_passed {call : Nat × DriverId} (h : call ∈ claims.filterMap passed?) :
    (call.1, call.2, none) ∈ claims := by
  obtain ⟨⟨other, e, y⟩, member, heq⟩ := List.mem_filterMap.1 h
  rw [passed?] at heq
  split at heq <;> cases heq
  next hnone => exact hnone ▸ member

end World

namespace Machine

variable {byHand : Prop} {allowed : Action → Prop} {m m' : Machine} {script : Script} {d : DriverId}
  {phase : DriverPhase}

/-! ### Counters -/

/-- Drivers count the calls that are alive. The ones that have handed their outcomes
over are those whose completion is under way, and a driver that listens has been
notified or has a call in flight. -/
structure Tallied (m : Machine) : Prop where
  inFlight : ∀ d, m.world.inFlight d = (m.world.claims.getD []).countP fun claim => claim.2.1 = d
  handing : (m.world.claims.getD []).filterMap World.passed? = m.handing
  /-- One call at a time hands its outcome over. -/
  single : m.handing.length ≤ 1
  claimed : m.phases ≠ [] → m.world.claims.isSome
  alert : ∀ {d phase}, (d, phase) ∈ m.phases → phase.Listens → m.world.notified d = true ∨
    0 < m.world.inFlight d

theorem Tallied.same (h : m.Tallied) (hhosts : m.world.SameHosts m'.world)
    (hphases : m'.phases = m.phases) (hhanding : m'.handing = m.handing) : m'.Tallied where
  inFlight e := by rw [hhosts.inFlight, hhosts.claims, h.inFlight]
  handing := by rw [hhosts.claims, hhanding, h.handing]
  single := hhanding ▸ h.single
  claimed hsome := by rw [hhosts.claims]; exact h.claimed (hphases ▸ hsome)
  alert hphase hlistens := by
    rw [hhosts.inFlight]
    exact (h.alert (hphases ▸ hphase) hlistens).imp_left (hhosts.alerts _)

/-- A driver goes on while its calls stay as they are. -/
theorem Tallied.moved (h : m.Tallied) (hclaims : m'.world.claims = m.world.claims)
    (hinFlight : ∀ e, m'.world.inFlight e = m.world.inFlight e) (hbefore : m.phases ≠ [])
    (hafter : m'.phases = [(d, phase)]) (hidle : m.handing = []) (hhanding : m'.handing = [])
    (halert : phase.Listens → m'.world.notified d = true ∨ 0 < m.world.inFlight d) :
    m'.Tallied where
  inFlight e := by rw [hinFlight, hclaims, h.inFlight]
  handing := by rw [hclaims, hhanding, h.handing, hidle]
  single := by simp [hhanding]
  claimed _ := hclaims ▸ h.claimed hbefore
  alert hphase hlistens := by
    rw [hafter] at hphase
    cases List.mem_singleton.1 hphase
    rw [hinFlight]
    exact halert hlistens

theorem Tallied.works (h : m.Tallied)
    (hkeys : ((m.world.claims.getD []).map Prod.fst).Pairwise (· < ·)) (hworks : Works m m') :
    m'.Tallied := by
  cases hworks with
  | same hloops => exact h.same hloops.hosts hloops.phases hloops.handing
  | @issues x plan w e key hopens hhistory hplan hinFlight hwaiters hclaims hcalls hphases hhanding
    hsome halerts =>
    obtain ⟨claims, hold⟩ := Option.isSome_iff_exists.1 hsome
    have hnew : m'.world.claims = some (claims ++ [(key, e, some x)]) := by rw [hclaims, hold]; rfl
    have hcount := h.inFlight
    have hpassed := h.handing
    rw [hold, Option.getD_some] at hcount hpassed
    refine ⟨fun f => ?_, ?_, hhanding ▸ h.single, fun _ => by rw [hnew]; rfl,
      fun {f phase} hphase hlistens => ?_⟩
    · rw [hinFlight, hnew, Option.getD_some, List.countP_append, hcount, List.countP_singleton]
      simp only [decide_eq_true_eq]
      split <;> rfl
    · rw [hnew, Option.getD_some, List.filterMap_append, hpassed, hhanding]
      exact List.append_nil _
    · rw [hinFlight]
      refine (h.alert (hphases ▸ hphase) hlistens).imp (halerts f) fun hpos => ?_
      split
      · exact Nat.succ_pos _
      · exact hpos
  | strands hwaiters hnone hclaims hphases hinFlight hhanding =>
    -- Without an agenda no driver runs.
    have hidle : m'.phases = [] := by
      by_contra hsome
      have hclaimed := h.claimed (hphases ▸ hsome)
      rw [hnone] at hclaimed
      cases hclaimed
    refine ⟨fun e => ?_, ?_, hhanding ▸ h.single, fun hsome => absurd hidle hsome, fun hphase => ?_⟩
    · rw [hinFlight, hclaims, h.inFlight, hnone]
    · rw [hclaims, hhanding, ← h.handing, hnone]
    · rw [hidle] at hphase
      cases hphase
  | waits hopens hhistory hplan hinFlight hwaiters hclaims hcalls hphases hhanding halerts =>
    refine ⟨fun e => by rw [hinFlight, hclaims, h.inFlight], by rw [hclaims, hhanding, h.handing],
      hhanding ▸ h.single, fun hsome => hclaims ▸ h.claimed (hphases ▸ hsome),
        fun hphase hlistens => ?_⟩
    rw [hinFlight]
    exact (h.alert (hphases ▸ hphase) hlistens).imp_left (halerts _)
  | drives d hwaiters hclaims hbefore hafter hnone hinFlight hhanding =>
    refine ⟨fun e => ?_, by rw [hclaims, hhanding]; rfl, by simp [hhanding],
      fun _ => by rw [hclaims]; rfl, fun hphase hlistens => ?_⟩
    · rw [hinFlight, h.inFlight, hnone, hclaims]
      rfl
    · rw [hafter] at hphase
      cases List.mem_singleton.1 hphase
      exact hlistens.elim
  | @goesOn d phase phase' hhosts hphase hbefore hafter hbusy hidle hhanding =>
    refine h.moved hhosts.claims hhosts.inFlight (by simp [hbefore]) hafter hidle hhanding
      fun hlistens => ?_
    have hheard : phase.Listens → m'.world.notified d = true ∨
        0 < m.world.inFlight d := fun hlistened =>
      (h.alert (hbefore ▸ List.mem_singleton.2 rfl) hlistened).imp_left (hhosts.alerts d)
    cases hphase with
    | listens => exact .inr (hbusy rfl)
    | elapses | polls | turns | polled => exact hheard trivial
    | settled | resumed => exact hlistens.elim
  | hears htallies hbefore hafter hidle hhanding =>
    exact h.moved htallies.claims htallies.inFlight (by simp [hbefore]) hafter hidle
      hhanding fun hlistens =>
      hlistens.elim
  | settles hnone hwaiters hclaims hcalls hbefore hafter hinFlight hidle hhanding =>
    exact h.moved hclaims hinFlight (by simp [hbefore]) hafter hidle hhanding
      fun hlistens => hlistens.elim
  | resumes hhosts hbefore hafter hidle hhanding =>
    exact h.moved hhosts.claims hhosts.inFlight (by simp [hbefore]) hafter hidle
      hhanding fun hlistens =>
      hlistens.elim
  | ends hwaiters hclaims hbefore hafter hnone hempty hinFlight hhanding =>
    refine ⟨fun e => ?_, by rw [hclaims, hhanding]; rfl, by simp [hhanding],
      fun hsome => absurd hafter hsome, fun hphase => ?_⟩
    · rw [hinFlight, ← h.inFlight, Nat.sub_self, hclaims]
      rfl
    · rw [hafter] at hphase
      cases hphase
  | @completes d e turns key x claims hwaiters hclaims hclaim hgiven hbefore hafter hinFlight hidle
    hhanding halerts =>
    have hcount := h.inFlight
    have hpassed := h.handing
    rw [hclaims, Option.getD_some] at hcount hpassed hkeys
    refine ⟨fun f => ?_, ?_, by simp [hhanding], fun _ => by rw [hgiven]; rfl, fun hphase _ => ?_⟩
    · rw [hinFlight, hcount, hgiven, Option.getD_some, World.countP_givenUp]
    · rw [hgiven, Option.getD_some, World.filterMap_givenUp hkeys hclaim
        (hpassed.trans hidle), hhanding]
    · rw [hafter] at hphase
      cases List.mem_singleton.1 hphase
      rw [hinFlight]
      have hlistens : (DriverPhase.poll (turns + 1)).Listens := trivial
      exact (h.alert (hbefore ▸ List.mem_singleton.2 rfl) hlistens).imp_left (halerts _)
  | @completed d e turns key hwaiters hclaims hbefore hafter hinFlight hone hhanding halerts =>
    obtain ⟨claims, hold⟩ := Option.isSome_iff_exists.1 (h.claimed (by simp [hbefore]))
    have hnew : m'.world.claims = some (claims.filter fun claim => claim.1 ≠ key) := by
      rw [hclaims, hold]; rfl
    have hcount := h.inFlight
    have hpassed := h.handing
    rw [hold, Option.getD_some] at hcount hpassed hkeys
    have hmember : (key, e) ∈ claims.filterMap World.passed? := by
      rw [hpassed, hone]; exact List.mem_singleton.2 rfl
    have hclaim : (key, e, none) ∈ claims := World.mem_of_filterMap_passed hmember
    refine ⟨fun f => ?_, ?_, by simp [hhanding], fun _ => by rw [hnew]; rfl,
      fun {f phase} hphase _ => ?_⟩
    · have := World.countP_remove hkeys hclaim f
      rw [hinFlight, hcount, hnew, Option.getD_some]
      split <;> simp_all
      omega
    · rw [hnew, Option.getD_some, World.filterMap_remove, hpassed, hone, hhanding]
      simp
    · rw [hafter] at hphase
      cases List.mem_singleton.1 hphase
      have hlistens : (DriverPhase.poll turns).Listens := trivial
      rw [hinFlight]
      rcases h.alert (hbefore ▸ List.mem_singleton.2 rfl) hlistens with hnotified | hpos
      · exact .inl (halerts _ (.inl hnotified))
      · by_cases hown : e = d
        · exact .inl (halerts _ (.inr ⟨hown, hpos⟩))
        · exact .inr (by rwa [if_neg hown])

theorem Tallied.stirs (h : m.Tallied) (hstirs : m.world.Stirs w) : (m.withWorld w).Tallied :=
  h.same hstirs.sameHosts rfl rfl

theorem Visits.tallied (h : Visits allowed script.start m) : m.Tallied := by
  have hsound : ∀ {a}, Visits allowed script.start a → a.Sound True :=
    fun ha => ha.sound fun _ _ _ _ => trivial
  refine h.induct (fun action => ?_) (fun a b ha hb _ hmoves ih => ?_)
    (fun _ _ _ _ hstirs ih => ih.stirs hstirs) fun a w root ha ih hdone hbetween hroot hm' => ?_
  · obtain ⟨hdrivers, hagenda⟩ := World.drivers_start script
    have hnone : (Script.begin script.start action).world.claims = none :=
      congrArg (Option.map _) hagenda
    refine ⟨fun d => ?_, by rw [hnone]; rfl, Nat.zero_le 1, fun hsome => absurd rfl hsome,
      fun {d phase} hphase => ?_⟩
    · rw [hnone, Script.begin, World.inFlight, World.driver?, hdrivers]
      rfl
    · have hphases : (Script.begin script.start action).phases = [] := rfl
      rw [hphases] at hphase
      cases hphase
  · refine ih.works ?_ ((hsound ha).works hmoves)
    have hkeys := (hsound ha).kept.balanced.keys
    rw [World.callKeys_eq] at hkeys
    rwa [World.claims_eq, List.map_map]
  · have hcode : PlainStack false root := .of_code false hroot
    obtain ⟨world, running, frames, control⟩ := a
    obtain ⟨rfl, rfl⟩ := hdone
    exact ih.same hbetween.sameHosts hcode.filterMap_driving? hcode.filterMap_completing?

/-! ### Calls that cannot be issued -/

theorem sameHosts_foreignFailed (w : World) (name : String) (failure : Failure) :
    w.SameHosts (w.foreignFailed name failure) :=
  ⟨⟨fun _ => rfl, fun _ => rfl, rfl, rfl, rfl, fun _ => World.callsSince_mark ..⟩, fun _ => id, id⟩

theorem sameHosts_failAwait (m : Machine) (plan : AwaitPlan) (failure : Failure) :
    m.world.SameHosts (m.failAwait plan failure).world := by
  rw [failAwait.eq_def]
  split
  · exact (sameHosts_foreignFailed ..).trans (.emit ..)
  · exact .refl _
  · exact .emit ..
  · exact .refl _

/-- A call that is refused outside of fibers, or that no driver is there to run, is not
counted. -/
theorem inFlight_issue_of_refused {work : Work} {plan : AwaitPlan}
    (h : m.world.current = none ∨ m.world.agenda = none) (e : DriverId) :
    (m.issue d work plan).world.inFlight e = m.world.inFlight e := by
  rw [issue]
  simp only
  split
  next =>
    exact ((World.sameHosts_release m.world work.ending.debris).trans
        (sameHosts_failAwait (m.withWorld _) plan _)).inFlight e
  next current hcurrent hagenda =>
    exact ((World.sameHosts_release _ _).inFlight e).trans
      (World.inFlight_updateDriver _ d e fun _ => rfl)
  next current agenda hcurrent hagenda =>
    rw [World.currentId, Option.map_eq_some_iff] at hcurrent
    obtain ⟨running, hrunning, -⟩ := hcurrent
    simp [hrunning, hagenda] at h

theorem inFlight_withDriver {name : String} {position : Nat} {use : DriverId → Machine}
    {e : DriverId} (huse : ∀ f, (use f).world.inFlight e = m.world.inFlight e) :
    (m.withDriver name position use).world.inFlight e = m.world.inFlight e := by
  rw [withDriver]
  split
  next => rfl
  next f _ => exact huse f

/-- Where no call can be issued, none is counted. -/
theorem inFlight_perform_of_refused (h : m.world.current = none ∨ m.world.agenda = none)
    (e : DriverId) :
    (action : Action) → action.core.IsHostCall → (m.perform action).world.inFlight e =
    m.world.inFlight e
  | .foreign position action, hcall => by
    rw [perform]
    split
    · rfl
    · exact inFlight_perform_of_refused h e action hcall
  | .sleep .., _ => inFlight_withDriver fun _ => inFlight_issue_of_refused h e
  | .blocking .., _ => inFlight_withDriver fun _ => inFlight_issue_of_refused h e
  | .call _ _ .panicked .., _ => inFlight_withDriver fun _ => inFlight_issue_of_refused h e
  | .call _ _ (.done _) .., _ => inFlight_withDriver fun _ => by
    rw [withEnding, withResumption]
    split
    next => exact ((World.SameHosts.emit m.world _ _).trans (World.sameHosts_release ..)).inFlight e
    next resumption w htake =>
      obtain ⟨-, hdrivers, hcurrent, hagenda⟩ := World.resumption_elsewhere htake
      refine (inFlight_issue_of_refused (m := m.withWorld w)
          (by rwa [withWorld_world, hcurrent, hagenda]) e).trans ?_
      rw [withWorld_world, World.inFlight, World.driver?, hdrivers, World.inFlight, World.driver?]

/-! ### Moments of a session -/

/-- A call whose outcome is being handed over is still counted. -/
theorem Tallied.counted (h : m.Tallied) {key : Nat} (hcall : (key, d) ∈ m.handing) :
    0 < m.world.inFlight d := by
  rw [← h.handing] at hcall
  rw [h.inFlight, List.countP_pos_iff]
  exact ⟨_, World.mem_of_filterMap_passed hcall, decide_eq_true rfl⟩

theorem Tallied.alive (h : m.Tallied) (d : DriverId) : m.world.inFlight d = m.world.alive d := by
  rw [h.inFlight, World.alive_eq]

/-- The future of a call panics in its turn. Its handle is dropped and nobody is resumed. In
the next step the call is over: its driver counts one less and is notified, and the loop goes
on. -/
structure Breaks (m : Machine) (d : DriverId) (key : Nat) (x : HandleRef) (loop : List Frame)
    (m' m'' : Machine) : Prop where
  step : m.step? = some m'
  next : m'.step? = some m''
  outside : m'.running = []
  dropped : m'.world.handles = (m.world.release [.handle x]).handles
  unanswered : ∀ y, m'.world.accepted y = m.world.accepted y
  counts : ∀ e, m'.world.inFlight e = m.world.inFlight e
  lowered : m''.world.inFlight d + 1 = m.world.inFlight d
  others : ∀ e, d ≠ e → m''.world.inFlight e = m.world.inFlight e
  gone : ∀ call ∈ m''.world.calls, call.key ≠ key
  notified : m''.world.notified d = true
  goesOn : m''.top = loop ∧ m''.control = .advance

/-- What the counters of drivers say at a moment of a session. -/
structure Accounted (m : Machine) : Prop where
  /-- A driver counts its calls that are alive. -/
  counts : ∀ d, m.world.inFlight d = m.world.alive d
  /-- A call that is over was counted, and its driver counts one less. -/
  answered : ∀ {d key fiber frames result m'}, m.top = .completing d key fiber :: frames →
    m.control = .answer result → m.step? = some m' → m'.world.inFlight d + 1 = m.world.inFlight d
  /-- A call whose future panics in its turn is over after that. -/
  broken : ∀ {d e turns key rest frames agenda x work},
    m.top = .driving e (.poll (turns + 1)) :: frames →
    m.control = .advance → m.world.agenda = some agenda → agenda.ready = key :: rest →
      agenda.find? key = some ⟨key, d, .holding x work⟩ → work.isOver m.world = true →
        work.ending = .panicked →
        ∃ m' m'', m.Breaks d key x (.driving e (.poll turns) :: frames) m' m''
  /-- So was each of the calls that are dropped one after the other where a run ends. -/
  dropped : ∀ before call after, m.world.calls = before ++ call :: after →
    ((before ++ [call]).foldl World.dropCall (m.world.tell .driverIdle)).inFlight call.driver + 1 =
      (before.foldl World.dropCall (m.world.tell .driverIdle)).inFlight call.driver
  /-- A call that cannot be issued leaves all counters as they are. -/
  refused : ∀ {action m'}, m.nextAction? = some action → action.core.IsHostCall →
    (m.world.current = none ∨ m.world.agenda = none) → m.step? = some m' →
      ∀ d, m'.world.inFlight d = m.world.inFlight d
  /-- A driver that waits for a notification has been notified, or has a call that is alive. -/
  heard : ∀ {d phase}, (d, phase) ∈ m.phases → phase.Listens →
    m.world.notified d = true ∨ ∃ call ∈ m.world.calls, call.driver = d

theorem Tallied.dropped (h : m.Tallied) (before : List HostCall) (call : HostCall)
    (after : List HostCall) (hcalls : m.world.calls = before ++ call :: after) :
    ((before ++ [call]).foldl World.dropCall (m.world.tell .driverIdle)).inFlight call.driver + 1 =
      (before.foldl World.dropCall (m.world.tell .driverIdle)).inFlight call.driver := by
  have hcount : (m.world.tell .driverIdle).inFlight call.driver =
      (before ++ call :: after).countP fun other => other.driver = call.driver := by
    rw [← hcalls]
    exact h.alive call.driver
  rw [World.inFlight_dropCalls, World.inFlight_dropCalls, hcount, List.countP_append,
    List.countP_append, List.countP_cons, List.countP_singleton]
  simp only [decide_true, if_true]
  omega

theorem Tallied.answered (h : m.Tallied) (hm : m.Sound byHand) {key : Nat} {fiber : FiberId}
    {frames : List Frame} {result : Except SchedulerFault Nat}
    (htop : m.top = .completing d key fiber :: frames) (hcontrol : m.control = .answer result)
    (hstep : m.step? = some m') :
    m'.world.inFlight d + 1 = m.world.inFlight d := by
  have haccepts := hm.accepts
  rw [htop, hcontrol] at haccepts
  have hhanding : (key, d) ∈ m.handing := by
    rw [handing_of_root haccepts.1, htop]
    exact List.mem_cons_self ..
  have hpos : 0 < m.world.inFlight d := h.counted hhanding
  rw [hm.step?_of_top htop, hcontrol] at hstep
  cases hstep
  obtain ⟨w, heq, hshift⟩ :=
    completed_eq (m.goTo frames m.world (.answer result)) d key fiber result
  have hsame : w.inFlight d = m.world.inFlight d :=
    (hshift _ _ hm.kept.balanced).drift.sameHosts.inFlight d
  change (completed ..).world.inFlight d + 1 = _
  rw [heq, goTo_world, World.inFlight_callOver, if_pos rfl]
  change w.inFlight d - 1 + 1 = _
  omega

/-- The driver of a call that is alive is there. -/
theorem Tallied.driver_of_call (h : m.Tallied) {agenda : Agenda} {call : HostCall}
    (hagenda : m.world.agenda = some agenda) (hcall : call ∈ agenda.calls) :
    ∃ driver, m.world.driver? call.driver = some driver := by
  have hcounted : 0 < m.world.inFlight call.driver := by
    rw [h.alive, World.alive, World.calls, hagenda, List.countP_pos_iff]
    exact ⟨call, hcall, decide_eq_true rfl⟩
  rw [World.inFlight] at hcounted
  cases hd : m.world.driver? call.driver with
  | none => rw [hd] at hcounted; cases hcounted
  | some driver => exact ⟨driver, rfl⟩

theorem Visits.breaks (h : Visits (fun _ => True) script.start m) {e : DriverId} {turns key : Nat}
    {rest : List Nat} {frames : List Frame} {agenda : Agenda} {x : HandleRef} {work : Work}
    (htop : m.top = .driving e (.poll (turns + 1)) :: frames) (hcontrol : m.control = .advance)
    (hagenda : m.world.agenda = some agenda) (hready : agenda.ready = key :: rest)
    (hfind : agenda.find? key = some ⟨key, d, .holding x work⟩) (hover : work.isOver m.world = true)
    (hending : work.ending = .panicked) :
    ∃ m' m'', m.Breaks d key x (.driving e (.poll turns) :: frames) m' m'' := by
  have hm : m.Sound True := h.sound fun _ _ _ _ => trivial
  obtain ⟨server, hserver⟩ := h.tallied.driver_of_call hagenda (List.mem_of_find?_eq_some hfind)
  obtain ⟨w, hturn, hshift, hsame, hdrivers, hhandles⟩ :=
    move_of_turn htop hcontrol (h.driver_of_driving htop) hagenda hready hfind rfl hover
  have hd : w.driver? d = some server := by
    rw [World.driver?, hdrivers]
    exact hserver
  let handed : World :=
    { w with agenda := some (Agenda.setState { agenda with ready := rest } key .handing) }
  let m' := m.goTo (.completing d key (w.handleId x) :: .driving e (.poll turns) :: frames)
    (handed.release [.handle x]) (.answer (.ok 0))
  have hstep : m.step? = some m' := by
    rw [hm.step?_eq, hturn, Machine.complete]
    simp only [goTo_world, hd, World.updateAgenda, hsame, Option.map_some, goTo_withWorld,
      goTo_push, hending, endFuture, goTo_withControl]
    rfl
  have hnext : m'.step? = some (m'.goTo (.driving e (.poll turns) :: frames)
      ((m'.world.updateAgenda fun agenda => agenda.remove key).callOver d) .advance) := by
    rw [(hm.step hstep).step?_of_top (goTo_top ..)]
    simp only [react?, goTo_control, completed, goTo_world, goTo_withWorld, goTo_advance, m']
  have hdrift := (hshift _ hm.kept.balanced).drift
  have hcounts : ∀ f, m'.world.inFlight f = m.world.inFlight f := fun f => by
    rw [goTo_world, (World.sameHosts_release handed _).inFlight]
    exact hdrift.sameHosts.inFlight f
  have hvisits' : Visits (fun _ => True) script.start m' := h.leads (Follows.steps hstep).leads
  have hover' := hvisits'.tallied.answered (hvisits'.sound fun _ _ _ _ => trivial : m'.Sound True)
    (goTo_top ..) rfl hnext
  refine ⟨m', _, hstep, hnext, ?_, ?_, fun y => ?_, hcounts, hover'.trans (hcounts d),
    fun f hne => ?_, fun call hcall => ?_, ?_, goTo_top .., rfl⟩
  · have houtside := Sound.running_of_driving hm htop
    exact (goTo_running_eq_nil _ _ _ _ houtside).1
  · rw [goTo_world, World.release_eq, World.release_eq]
    exact congrArg (fun handles => (HandleTable.release handles [.handle x]).1) hhandles
  · exact ((World.noArrivals_release handed _).accepted y).trans (hdrift.noArrivals.accepted y)
  · rw [goTo_world, World.inFlight_callOver, if_neg hne]
    exact hcounts f
  · rw [goTo_world] at hcall
    exact World.key_ne_of_over _ d key call hcall
  · refine World.notified_callOver _ d d (.inr ⟨rfl, ?_⟩)
    change 0 < m'.world.inFlight d
    rw [hcounts, ← hcounts]
    omega

theorem inFlight_of_refused (hm : m.Sound True) {action : Action}
    (haction : m.nextAction? = some action) (hcall : action.core.IsHostCall)
    (hnone : m.world.current = none ∨ m.world.agenda = none) (hstep : m.step? = some m')
    (e : DriverId) :
    m'.world.inFlight e = m.world.inFlight e := by
  obtain ⟨frames, hperforms⟩ := hm.step?_of_action haction fun value heq => by
    subst heq
    exact hcall
  rw [hperforms, Option.some.injEq] at hstep
  rw [← hstep, inFlight_perform_of_refused (by rwa [goTo_world]) e action hcall, goTo_world]

/-- Drivers account for all their calls, whatever programs do. -/
theorem drivers_account_for_calls (h : Visits (fun _ => True) script.start m) : m.Accounted where
  counts := h.tallied.alive
  answered htop hcontrol hstep :=
    h.tallied.answered (h.sound fun _ _ _ _ => trivial : m.Sound True) htop hcontrol hstep
  broken := h.breaks
  dropped := h.tallied.dropped
  refused haction hcall hnone hstep :=
    inFlight_of_refused (h.sound fun _ _ _ _ => trivial) haction hcall hnone hstep
  heard hphase hlistens := by
    refine (h.tallied.alert hphase hlistens).imp_right fun hpos => ?_
    rw [h.tallied.alive, World.alive, List.countP_pos_iff] at hpos
    exact hpos.imp fun call => .imp_right of_decide_eq_true

/-- A fiber sleeps, and looks at the counter of its driver as soon as it is back. -/
def countOnReturn : Action :=
  .scope [.newDriver 0, .enqueue 0 [.sleep 0 5 .raise, .inFlight 0], .drive 0] false

/-- The state of that program after some steps, with one scheduler. -/
def returning (steps : Nat) : Machine :=
  (Script.begin Script.single.start countOnReturn).settle steps

theorem visits_returning (steps : Nat) :
    Visits (fun _ => True) Script.single.start (returning steps) :=
  ⟨countOnReturn, Leads.settle _ steps fun _ _ _ _ => trivial⟩

/-- A fiber makes a call whose future panics. -/
def breakOnce : Action :=
  .scope [.newDriver 0, .enqueue 0 [.call 0 .unit .panicked none .raise none], .drive 0] false

/-- The state of that program after some steps, with one scheduler. -/
def breaking (steps : Nat) : Machine := (Script.begin Script.single.start breakOnce).settle steps

theorem visits_breaking (steps : Nat) :
    Visits (fun _ => True) Script.single.start (breaking steps) :=
  ⟨breakOnce, Leads.settle _ steps fun _ _ _ _ => trivial⟩

/-- While the fiber sleeps its driver listens and is sure to be notified; and a call whose
future panics is over after its turn. -/
theorem listening_driver_has_call :
    (Visits (fun _ => True) Script.single.start (returning 13) ∧
      (returning 13).phases = [(⟨0⟩, .listen)] ∧ (returning 13).world.notified ⟨0⟩ = false ∧
      ∃ call ∈ (returning 13).world.calls, call.driver = ⟨0⟩) ∧
    ∃ frames m' m'', (breaking 11).top = .driving ⟨0⟩ (.poll 61) :: frames ∧
      (breaking 11).Breaks ⟨0⟩ 0 ⟨0⟩ (.driving ⟨0⟩ (.poll 60) :: frames) m' m'' := by
  constructor
  · have hphases : (returning 13).phases = [(⟨0⟩, .listen)] := by with_unfolding_all rfl
    have hmuted : (returning 13).world.notified ⟨0⟩ = false := by with_unfolding_all rfl
    have hlistens : DriverPhase.listen.Listens := trivial
    have hheard :=
      (drivers_account_for_calls (visits_returning 13)).heard
        (hphases ▸ List.mem_singleton.2 rfl) hlistens
    exact ⟨visits_returning 13, hphases, hmuted, hheard.resolve_left (by simp [hmuted])⟩
  · obtain ⟨frames, htop⟩ : ∃ frames, (breaking 11).top = .driving ⟨0⟩ (.poll 61) :: frames :=
      ⟨_, by with_unfolding_all rfl⟩
    obtain ⟨agenda, hagenda, hready, hfind⟩ : ∃ agenda, (breaking 11).world.agenda = some agenda ∧
        agenda.ready = [0] ∧
        agenda.find? 0 = some ⟨0, ⟨0⟩, .holding ⟨0⟩ (.answer none .panicked)⟩ :=
      ⟨_, by with_unfolding_all rfl, by with_unfolding_all rfl, by with_unfolding_all rfl⟩
    obtain ⟨m', m'', hbreaks⟩ :=
      (drivers_account_for_calls (visits_breaking 11)).broken htop (by with_unfolding_all rfl)
      hagenda hready hfind rfl rfl
    exact ⟨frames, m', m'', htop, hbreaks⟩

/-! ### What a fiber reads -/

/-- Whoever asks how many calls are in flight is told how many have not handed their
outcomes over, and one more while such a handing over is under way: until the fiber that
was resumed and the run loop after it are done, its call still counts. -/
theorem in_flight_counts_the_call_that_completes (h : Visits (fun _ => True) script.start m)
    {position : Nat} (haction : m.nextAction? = some (.inFlight position))
    (hd : m.world.driverAt position = some d) :
    m.handing.length ≤ 1 ∧ ∃ m', m.step? = some m' ∧ m'.world = m.world.emit "in_flight"
      (.nat (m.world.outstanding d + m.handing.countP fun call => call.2 = d)) := by
  have hm : m.Sound True := h.sound fun _ _ _ _ => trivial
  obtain ⟨frames, hstep⟩ := hm.step?_of_action haction (by simp)
  refine ⟨h.tallied.single, _, hstep, ?_⟩
  rw [← h.tallied.handing, ← World.filterMap_handing?, ← World.alive_split, ← h.tallied.alive]
  rw [perform, withDriver, goTo_world, hd]
  rfl

theorem returned_call_is_counted :
    (returning 17).nextAction? = some (.inFlight 0) ∧ (returning 17).world.driverAt 0 = some ⟨0⟩ ∧
      (returning 17).world.outstanding ⟨0⟩ = 0 ∧
        ∃ m', (returning 17).step? = some m' ∧ m'.world = (returning 17).world.emit "in_flight"
          (.nat 1) := by
  have haction : (returning 17).nextAction? = some (.inFlight 0) := by with_unfolding_all rfl
  have hd : (returning 17).world.driverAt 0 = some ⟨0⟩ := by with_unfolding_all rfl
  have hnone : (returning 17).world.outstanding ⟨0⟩ = 0 := by decide +kernel
  have hone : ((returning 17).handing.countP fun call => call.2 = ⟨0⟩) = 1 := by decide +kernel
  obtain ⟨-, m', hstep, hworld⟩ :=
    in_flight_counts_the_call_that_completes (visits_returning 17) haction hd
  rw [hnone, hone] at hworld
  exact ⟨haction, hd, hnone, m', hstep, hworld⟩

/-- So what a fiber of the driver's scheduler is told is not always the number of calls
whose outcomes have not been handed over. -/
theorem in_flight_differs_from_outstanding :
    ¬∀ (m m' : Machine) (position : Nat) (d : DriverId) (shown : Nat),
      Visits (fun _ => True) Script.single.start m → m.nextAction? = some (.inFlight position) →
        m.world.driverAt position = some d → m.running.head?.bind Running.home = m.world.fedBy d →
          m.step? = some m' → m'.world = m.world.emit "in_flight" (.nat shown) →
            shown = m.world.outstanding d := by
  intro h
  have hshown :=
    h (returning 17) (returning 18) 0 ⟨0⟩ 1 (visits_returning 17) (by with_unfolding_all rfl)
    (by with_unfolding_all rfl) (by with_unfolding_all rfl) (by with_unfolding_all rfl)
    (by with_unfolding_all rfl)
  revert hshown
  decide +kernel

end Machine

end Fibers
