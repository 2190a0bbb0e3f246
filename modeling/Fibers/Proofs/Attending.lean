import Mathlib.Data.List.Pairwise
import Fibers.Proofs.Fates
import Fibers.Proofs.Settling

/-!
Handles that drivers attend to. A driver has a handle in its hands from the moment at
which a fiber starts to wait for it until the driver delivers to the handle. All this
time nobody else comes by the handle, and the fiber waits where its scheduler parked
it.
-/

namespace Fibers

open Asset (cloneOf looseOf postOf)

theorem DriverPhase.GoesOn.waiters_eq {phase phase' : DriverPhase} (h : phase.GoesOn phase') :
    phase'.waiters = phase.waiters := by
  cases h <;> rfl

theorem AwaitKind.driver?_of_caller? {kind : AwaitKind} {d : DriverId} (h : kind.caller? = some d) :
    kind.driver? = some d := by
  cases kind <;> first | exact h | cases h

namespace World

variable {w : World} {x : HandleRef} {d : DriverId} {key : Nat}
  {claims : List (Nat × DriverId × Option HandleRef)}

/-- A call that holds a handle owns a clone of it. -/
theorem worth_of_claim (hclaims : w.claims = some claims) (hclaim : (key, d, some x) ∈ claims) :
    0 < w.worth (cloneOf x) := by
  rw [World.claims, Option.map_eq_some_iff] at hclaims
  obtain ⟨agenda, hagenda, rfl⟩ := hclaims
  obtain ⟨call, hcall, heq⟩ := List.mem_map.1 hclaim
  have hone : 0 < weigh (cloneOf x) call.assets := by
    cases hstate : call.state with
    | holding y work =>
      simp only [HostCall.claim, hstate, Prod.mk.injEq, Option.some.injEq] at heq
      simp only [HostCall.assets, hstate, weigh_cons, cloneOf, heq.2.2, if_true]
      omega
    | handing => simp [HostCall.claim, hstate] at heq
  have hle := le_weigh_of_mem (fun call => weigh (cloneOf x) (HostCall.assets call)) hcall
  rw [← weigh_flatMap] at hle
  rw [worth, hagenda, agendaAssets]
  omega

/-- A driver owns a clone of every handle in its list. -/
theorem worth_of_waiters (member : x ∈ w.waiters d) : 0 < w.worth (cloneOf x) := by
  rw [waiters] at member
  cases hd : w.driver? d with
  | none => simp [hd] at member
  | some driver =>
    rw [hd] at member
    have hkept : .kept x ∈ driver.assets := List.mem_cons_of_mem _ (List.mem_map_of_mem member)
    have hone := le_weigh_of_mem (cloneOf x) hkept
    have hle := le_weigh_of_mem (fun driver => weigh (cloneOf x) (Driver.assets driver))
      (List.mem_of_getElem? hd)
    simp only [cloneOf, if_true] at hone
    rw [worth]
    omega

end World

namespace Machine

variable {allowed : Action → Prop} {byHand : Prop} {m m' : Machine} {script : Script}
  {x y : HandleRef} {s : SchedulerId} {d e : DriverId} {frames : List Frame} {w : World}
  {plan : AwaitPlan} {phase : DriverPhase} {fiber : Fiber} {resumption : Resumption}

/-! ### What a driver has in its hands -/

/-- Those whose turn is yet to come in a round of the driver. -/
def due (m : Machine) (d : DriverId) : List HandleRef :=
  m.phases.flatMap fun p => if p.1 = d then p.2.waiters else []

/-- Those who wait for all calls of the driver, in the order in which it resumes them. -/
def line (m : Machine) (d : DriverId) : List HandleRef := m.due d ++ m.world.waiters d

/-- A call of the driver holds the handle, or the handle stands in the driver's line. -/
inductive InHand (m : Machine) (d : DriverId) (x : HandleRef) : Prop
  | call {claims : List (Nat × DriverId × Option HandleRef)} {key : Nat}
      (hclaims : m.world.claims = some claims) (hclaim : (key, d, some x) ∈ claims)
  | lined (member : x ∈ m.line d)

theorem mem_due : x ∈ m.due d ↔ ∃ phase, (d, phase) ∈ m.phases ∧ x ∈ phase.waiters := by
  rw [due, List.mem_flatMap]
  constructor
  · rintro ⟨⟨e, phase⟩, member, hx⟩
    split at hx
    next heq => exact ⟨phase, heq ▸ member, hx⟩
    next => cases hx
  · rintro ⟨phase, member, hx⟩
    exact ⟨_, member, by rwa [if_pos rfl]⟩

theorem due_of_phases (hphases : m.phases = [(e, phase)]) (d : DriverId) :
    m.due d = if e = d then phase.waiters else [] := by
  rw [due, hphases, List.flatMap_singleton]

theorem due_of_idle (hphases : m.phases = []) (d : DriverId) : m.due d = [] := by
  rw [due, hphases, List.flatMap_nil]

/-- What is in the hands of a driver is alive. -/
theorem Sound.clones_of_inHand (h : m.Sound byHand) (hx : m.InHand d x) :
    0 < m.world.handles.clones x := by
  rw [h.kept.balanced.clones x]
  cases hx with
  | call hclaims hclaim => exact Nat.add_pos_left (World.worth_of_claim hclaims hclaim) _
  | lined member =>
    rcases List.mem_append.1 member with member | member
    · obtain ⟨phase, hphase, hx⟩ := mem_due.1 member
      obtain ⟨frame, hframe, hdriving⟩ := List.mem_filterMap.1 hphase
      have hone : 0 < weigh (cloneOf x) frame.assets := by
        have hkept : ∀ waiters : List HandleRef, x ∈ waiters →
            0 < weigh (cloneOf x) (waiters.map Asset.kept) :=
          fun waiters hmem => by
            have hle := le_weigh_of_mem (cloneOf x) (List.mem_map_of_mem (f := Asset.kept) hmem)
            simp only [cloneOf, if_true] at hle
            omega
        cases frame with
        | driving other phase' =>
          cases hdriving
          cases phase with
          | settle waiters | resuming fiber waiters => exact hkept _ hx
          | drain | listen | poll => cases hx
        | _ => cases hdriving
      have hle := Frame.assets_le_of_mem hframe (cloneOf x)
      have hlevels := m.weigh_levels (cloneOf x)
      simp only [assets, weigh_append]
      omega
    · exact Nat.add_pos_left (World.worth_of_waiters member) _

/-- What a step does to the line of a driver: nothing, or a fiber comes to stand at its
end, or the first one goes. -/
theorem Works.line (h : Works m m') (d : DriverId) :
    m'.line d = m.line d ∨
      (∃ x plan w, m.world.Opens x plan w ∧ w.history = m'.world.history ∧ plan.kind = .all d ∧
        m'.line d = m.line d ++ [x]) ∨
      ∃ x waiters,
        (m.control = .advance ∧ ∃ frames, m.top = .driving d (.settle (x :: waiters)) :: frames) ∧
        m.line d = x :: m'.line d := by
  have hsame : ∀ {e : DriverId} {phase phase' : DriverPhase}, m.phases = [(e, phase)] →
      m'.phases = [(e, phase')] →
      phase'.waiters = phase.waiters → m'.world.waiters d = m.world.waiters d →
        m'.line d = m.line d := by
    intro e phase phase' hbefore hafter hwaiters hlisted
    rw [Machine.line, Machine.line, due_of_phases hbefore, due_of_phases hafter, hwaiters, hlisted]
  have hidle : ∀ {phases}, m.phases = phases → m'.phases = phases →
      m'.world.waiters d = m.world.waiters d → m'.line d = m.line d := by
    intro phases hbefore hafter hlisted
    rw [Machine.line, Machine.line, due, hafter, ← hbefore, due, hlisted]
  cases h with
  | same hloops => exact .inl (hidle rfl hloops.phases (hloops.hosts.waiters d))
  | issues key hopens hhistory hplan hinFlight hwaiters hclaims hcalls hphases =>
    exact .inl (hidle rfl hphases (hwaiters d))
  | strands hwaiters hnone hclaims hphases => exact .inl (hidle rfl hphases (hwaiters d))
  | @waits x plan w e hopens hhistory hplan hinFlight hwaiters hclaims hcalls hphases =>
    by_cases heq : e = d
    · subst heq
      refine .inr (.inl ⟨x, plan, w, hopens, hhistory, hplan, ?_⟩)
      rw [Machine.line, Machine.line, due, hphases, due, hwaiters, if_pos rfl, List.append_assoc]
    · exact .inl (hidle rfl hphases ((hwaiters d).trans (if_neg heq)))
  | drives e hwaiters hclaims hbefore hafter =>
    left
    rw [Machine.line, Machine.line, due_of_idle hbefore, due_of_phases hafter, hwaiters]
    split <;> rfl
  | goesOn hhosts hphase hbefore hafter =>
    exact .inl (hsame hbefore hafter hphase.waiters_eq (hhosts.waiters d))
  | hears htallies hbefore hafter => exact .inl (hsame hbefore hafter rfl (htallies.waiters d))
  | @settles e hnone hwaiters hclaims hcalls hbefore hafter =>
    left
    rw [Machine.line, Machine.line, due_of_phases hbefore, due_of_phases hafter, hwaiters]
    split
    next heq =>
      subst heq
      exact List.append_nil _
    next => rfl
  | ends hwaiters hclaims hbefore hafter =>
    left
    rw [Machine.line, Machine.line, due_of_phases hbefore, due_of_idle hafter, hwaiters]
    split <;> rfl
  | @resumes e x waiters fiber hhosts hbefore hafter hidle hhanding hadvance htop =>
    by_cases heq : e = d
    · subst heq
      refine .inr (.inr ⟨x, waiters, ⟨hadvance, htop⟩, ?_⟩)
      rw [Machine.line, Machine.line, due_of_phases hbefore, due_of_phases hafter, hhosts.waiters,
        if_pos rfl, if_pos rfl]
      rfl
    · left
      rw [Machine.line, Machine.line, due_of_phases hbefore, due_of_phases hafter, hhosts.waiters,
        if_neg heq, if_neg heq]
  | completes hwaiters hclaims hclaim hgiven hbefore hafter =>
    exact .inl (hsame hbefore hafter rfl (hwaiters d))
  | completed key hwaiters hclaims hbefore hafter =>
    exact .inl (hsame hbefore hafter rfl (hwaiters d))

/-- What a step does to the calls that are alive. -/
inductive Claims (m m' : Machine) (claims claims' : List (Nat × DriverId × Option HandleRef)) : Prop
  | same (h : claims' = claims)
  | issued {x : HandleRef} {plan : AwaitPlan} {w : World} {d : DriverId} (key : Nat)
      (hopens : m.world.Opens x plan w) (hhistory : w.history = m'.world.history)
      (hplan : plan.kind.caller? = some d) (h : claims' = claims ++ [(key, d, some x)])
  | givenUp (key : Nat) (h : claims' = claims.map (givenUp key))
  | removed (key : Nat) (h : claims' = claims.filter fun claim => claim.1 ≠ key)

theorem Works.claims {claims' : List (Nat × DriverId × Option HandleRef)} (h : Works m m')
    (hclaims' : m'.world.claims = some claims') :
    claims' = [] ∨ ∃ claims, m.world.claims = some claims ∧ Claims m m' claims claims' := by
  have hsame : m'.world.claims = m.world.claims → ∃ claims, m.world.claims = some claims ∧
      Claims m m' claims claims' :=
    fun heq => ⟨claims', heq ▸ hclaims', .same rfl⟩
  cases h with
  | same hloops => exact .inr (hsame hloops.hosts.claims)
  | issues key hopens hhistory hplan hinFlight hwaiters hclaims =>
    rw [hclaims, Option.map_eq_some_iff] at hclaims'
    obtain ⟨claims, hold, rfl⟩ := hclaims'
    exact .inr ⟨claims, hold, .issued key hopens hhistory hplan rfl⟩
  | strands hwaiters hnone hclaims =>
    rw [hclaims] at hclaims'
    cases hclaims'
  | waits hopens hhistory hplan hinFlight hwaiters hclaims => exact .inr (hsame hclaims)
  | drives d hwaiters hclaims =>
    rw [hclaims] at hclaims'
    exact .inl (Option.some.inj hclaims').symm
  | goesOn hhosts => exact .inr (hsame hhosts.claims)
  | hears htallies => exact .inr (hsame htallies.claims)
  | settles hnone hwaiters hclaims => exact .inr (hsame hclaims)
  | ends hwaiters hclaims =>
    rw [hclaims] at hclaims'
    cases hclaims'
  | resumes hhosts => exact .inr (hsame hhosts.claims)
  | @completes d e turns key x claims hwaiters hclaims hclaim hgiven =>
    rw [hgiven] at hclaims'
    exact .inr ⟨claims, hclaims, .givenUp key (Option.some.inj hclaims').symm⟩
  | completed key hwaiters hclaims =>
    rw [hclaims, Option.map_eq_some_iff] at hclaims'
    obtain ⟨claims, hold, rfl⟩ := hclaims'
    exact .inr ⟨claims, hold, .removed key rfl⟩

/-- A driver gets a handle in its hands where a fiber starts to wait for it. -/
theorem Works.inHand (h : Works m m') (hx : m'.InHand d x) :
    m.InHand d x ∨ ∃ plan w, m.world.Opens x plan w ∧ w.history = m'.world.history ∧
      plan.kind.driver? = some d := by
  cases hx with
  | call hclaims hclaim =>
    rcases h.claims hclaims with rfl | ⟨claims, hbefore, hchange⟩
    · cases hclaim
    · cases hchange with
      | same heq =>
        subst heq
        exact .inl (.call hbefore hclaim)
      | issued key' hopens hhistory hplan heq =>
        subst heq
        rcases List.mem_append.1 hclaim with hclaim | hclaim
        · exact .inl (.call hbefore hclaim)
        · cases List.mem_singleton.1 hclaim
          exact .inr ⟨_, _, hopens, hhistory, AwaitKind.driver?_of_caller? hplan⟩
      | givenUp key' heq =>
        subst heq
        exact .inl (.call hbefore (mem_of_givenUp _ hclaim x rfl))
      | removed key' heq =>
        subst heq
        exact .inl (.call hbefore (List.mem_filter.1 hclaim).1)
  | lined member =>
    rcases h.line d with heq | ⟨y, plan, w, hopens, hhistory, hplan, heq⟩ | ⟨y, waiters, -, heq⟩
    · exact .inl (.lined (heq ▸ member))
    · rw [heq] at member
      rcases List.mem_append.1 member with member | member
      · exact .inl (.lined member)
      · cases List.mem_singleton.1 member
        exact .inr ⟨plan, w, hopens, hhistory, by rw [hplan]; rfl⟩
    · exact .inl (.lined (heq ▸ List.mem_cons_of_mem _ member))

/-! ### No handle is in two hands -/

/-- No two calls hold one handle, and no handle stands in a line twice. -/
structure Distinct (m : Machine) : Prop where
  claims : ∀ {claims}, m.world.claims = some claims → claims.Pairwise fun a b =>
    ∀ x, a.2.2 = some x → b.2.2 ≠ some x
  line : ∀ d, (m.line d).Nodup

/-- A handle that a driver has in its hands was made for it. -/
theorem Hosted.opened (h : m.Hosted) (hx : m.InHand d x) :
    ∃ plan, m.world.opened x = [plan] ∧ plan.kind.driver? = some d := by
  cases hx with
  | call hclaims hclaim =>
    obtain ⟨plan, hopened, hcaller⟩ := h.claims hclaims hclaim
    exact ⟨plan, hopened, AwaitKind.driver?_of_caller? hcaller⟩
  | lined member =>
    have hall : m.world.WaitsForAll x d := by
      rcases List.mem_append.1 member with member | member
      · obtain ⟨phase, hphase, hx⟩ := mem_due.1 member
        exact h.settling hphase hx
      · exact h.waiters member
    obtain ⟨plan, hopened, hkind⟩ := hall
    exact ⟨plan, hopened, by rw [hkind]; rfl⟩

/-- A handle that is being made is in nobody's hands yet. -/
theorem Hosted.not_inHand (h : m.Hosted) (hm : m.Sound byHand) (hopens : m.world.Opens x plan w) :
    ¬m.InHand d x := by
  intro hx
  obtain ⟨plan', hopened, -⟩ := h.opened hx
  rw [opened_nil hm hopens.unmade] at hopened
  cases hopened

theorem Distinct.works (h : m.Distinct) (hm : m.Sound byHand) (hhosted : m.Hosted)
    (hworks : Works m m') : m'.Distinct := by
  constructor
  · intro claims' hclaims'
    rcases hworks.claims hclaims' with rfl | ⟨claims, hclaims, hchange⟩
    · exact List.Pairwise.nil
    · have hbefore := h.claims hclaims
      cases hchange with
      | same heq => exact heq ▸ hbefore
      | @issued x plan w d key hopens hhistory hplan heq =>
        subst heq
        refine List.pairwise_append.2 ⟨hbefore, List.pairwise_singleton .., ?_⟩
        intro claim member other hother y hy hsame
        cases List.mem_singleton.1 hother
        cases hsame
        obtain ⟨key', e, handle⟩ := claim
        cases hy
        exact hhosted.not_inHand hm hopens (.call hclaims member)
      | givenUp key heq =>
        subst heq
        refine List.pairwise_map.2 (hbefore.imp fun {a b} hab y ha hb => ?_)
        rw [Machine.givenUp] at ha hb
        split at ha
        · cases ha
        · split at hb
          · cases hb
          · exact hab y ha hb
      | removed key heq => exact heq ▸ hbefore.filter _
  · intro d
    rcases hworks.line d with
      heq | ⟨x, plan, w, hopens, hhistory, hplan, heq⟩ | ⟨x, waiters, -, heq⟩
    · exact heq ▸ h.line d
    · rw [heq, List.nodup_append]
      refine ⟨h.line d, List.nodup_singleton _, fun y hy z hz hyz => ?_⟩
      cases List.mem_singleton.1 hz
      exact hhosted.not_inHand hm hopens (.lined (hyz ▸ hy))
    · have hnodup := h.line d
      rw [heq] at hnodup
      exact (List.nodup_cons.1 hnodup).2

theorem Distinct.stirs (h : m.Distinct) (hstirs : m.world.Stirs w) : (m.withWorld w).Distinct where
  claims hclaims := h.claims (hstirs.claims ▸ hclaims)
  line d := by
    rw [Machine.line, withWorld_world, hstirs.sameHosts.waiters]
    exact h.line d

theorem Visits.distinct (h : Visits allowed script.start m) : m.Distinct := by
  have hsound : ∀ {a}, Visits allowed script.start a → a.Sound True :=
    fun ha => ha.sound fun _ _ _ _ => trivial
  refine h.induct (fun action => ?_) (fun a b ha hb _ hmoves ih =>
    ih.works (hsound ha) ha.hosted ((hsound ha).works hmoves))
      (fun _ _ _ _ hstirs ih => ih.stirs hstirs)
    fun a w root ha ih _ hbetween hroot hm' => ?_
  · obtain ⟨hdrivers, hagenda⟩ := World.drivers_start script
    constructor
    · intro claims hclaims
      rw [Script.begin, World.claims, hagenda] at hclaims
      cases hclaims
    · intro d
      rw [line, due_of_idle rfl, Script.begin, World.waiters, World.driver?, hdrivers]
      exact List.nodup_nil
  · have hphases : phases ⟨w, [], root, .advance⟩ = [] :=
      (PlainStack.of_code false hroot).filterMap_driving?
    have hhosts := hbetween.sameHosts
    constructor
    · intro claims hclaims
      exact ih.claims (hhosts.claims ▸ hclaims)
    · intro d
      have hsub := (List.nodup_append.1 (ih.line d)).2.1
      rw [line, due_of_idle hphases, hhosts.waiters]
      exact hsub

/-- The drivers whose loops are under way are there. -/
def Manned (m : Machine) : Prop := ∀ d phase, (d, phase) ∈ m.phases → (m.world.driver? d).isSome

theorem isSome_fedBy (w : World) (d : DriverId) : (w.fedBy d).isSome = (w.driver? d).isSome := by
  rw [World.fedBy, Option.isSome_map]

theorem Manned.works (h : m.Manned) (hworks : Works m m') : m'.Manned := by
  intro d phase hphase
  have hstays : (m.world.driver? d).isSome → (m'.world.driver? d).isSome := fun hthere => by
    rw [← isSome_fedBy, Option.isSome_iff_exists] at hthere ⊢
    exact hthere.imp fun _ => hworks.fed
  have hone : ∀ {e : DriverId} {before after : DriverPhase}, m.phases = [(e, before)] →
      m'.phases = [(e, after)] → (m.world.driver? d).isSome := by
    intro e before after hbefore hafter
    rw [hafter] at hphase
    cases List.mem_singleton.1 hphase
    exact h _ _ (hbefore ▸ List.mem_singleton.2 rfl)
  apply hstays
  cases hworks with
  | same hloops => exact h _ _ (hloops.phases ▸ hphase)
  | issues _ _ _ _ _ _ _ _ hphases | strands _ _ _ hphases | waits _ _ _ _ _ _ _ hphases =>
    exact h _ _ (hphases ▸ hphase)
  | drives e _ _ _ hafter _ _ _ hthere =>
    rw [hafter] at hphase
    cases List.mem_singleton.1 hphase
    exact hthere
  | ends _ _ _ hafter =>
    rw [hafter] at hphase
    cases hphase
  | goesOn _ _ hbefore hafter | hears _ hbefore hafter | settles _ _ _ _ hbefore hafter
  | resumes _ hbefore hafter
    | completes _ _ _ _ hbefore hafter | completed _ _ _ hbefore hafter => exact hone hbefore hafter

theorem Manned.stirs (h : m.Manned) (hstirs : m.world.Stirs w) : (m.withWorld w).Manned := by
  intro d phase hphase
  rw [withWorld_world, hstirs.rest]
  exact h d phase hphase

theorem Visits.manned (h : Visits allowed script.start m) : m.Manned := by
  have hsound : ∀ {a}, Visits allowed script.start a → a.Sound True :=
    fun ha => ha.sound fun _ _ _ _ => trivial
  refine h.induct (fun action d phase hphase => by cases hphase)
    (fun a b ha hb _ hmoves ih => ih.works ((hsound ha).works hmoves))
    (fun _ _ _ _ hstirs ih => ih.stirs hstirs)
    fun a w root ha ih _ _ hroot _ d phase hphase => ?_
  have hphases : phases ⟨w, [], root, .advance⟩ = [] :=
    (PlainStack.of_code false hroot).filterMap_driving?
  rw [hphases] at hphase
  cases hphase

/-- The driver whose loop has the turn is there. -/
theorem Visits.driver_of_driving (h : Visits allowed script.start m) {phase : DriverPhase}
    {frames : List Frame} (htop : m.top = .driving d phase :: frames) :
    ∃ driver, m.world.driver? d = some driver := by
  have houtside := Sound.running_of_driving (h.sound fun _ _ _ _ => trivial : m.Sound True) htop
  refine Option.isSome_iff_exists.1 (h.manned d phase ?_)
  rw [phases_of_root (by rw [inFiber, houtside]; rfl), htop]
  exact List.mem_cons_self ..

/-- A call and a line do not hold one handle, and neither do two drivers. -/
theorem Hosted.apart (h : m.Hosted) {claims : List (Nat × DriverId × Option HandleRef)} {key : Nat}
    (hclaims : m.world.claims = some claims) (hclaim : (key, d, some x) ∈ claims) :
    x ∉ m.line e := by
  intro member
  obtain ⟨plan, hopened, hcaller⟩ := h.claims hclaims hclaim
  have hall : m.world.WaitsForAll x e := by
    rcases List.mem_append.1 member with member | member
    · obtain ⟨phase, hphase, hx⟩ := mem_due.1 member
      exact h.settling hphase hx
    · exact h.waiters member
  obtain ⟨plan', hopened', hkind⟩ := hall
  rw [hopened] at hopened'
  cases hopened'
  rw [hkind] at hcaller
  cases hcaller

theorem Hosted.driver_eq (h : m.Hosted) (hd : m.InHand d x) (he : m.InHand e x) : d = e := by
  obtain ⟨plan, hopened, hdriver⟩ := h.opened hd
  obtain ⟨plan', hopened', hdriver'⟩ := h.opened he
  rw [hopened] at hopened'
  cases hopened'
  rw [hdriver] at hdriver'
  exact Option.some.inj hdriver'

/-- Only one call holds the handle. -/
theorem Distinct.key_eq (h : m.Distinct) {claims : List (Nat × DriverId × Option HandleRef)}
    {key key' : Nat} (hclaims : m.world.claims = some claims) (hclaim : (key, d, some x) ∈ claims)
    (hclaim' : (key', e, some x) ∈ claims) : key = key' := by
  by_contra hne
  have hsymm : Std.Symm fun a b : Nat × DriverId × Option HandleRef => ∀ x, a.2.2 = some x →
      b.2.2 ≠ some x :=
    ⟨fun a b hab y hb ha => hab y ha hb⟩
  have hapart := (h.claims hclaims).forall hclaim hclaim' fun heq => hne (congrArg Prod.fst heq)
  exact hapart x rfl rfl

/-- Whoever delivers to a handle has come by it, or the drivers do not have it in their
hands any more. -/
theorem DeliversTo.shows_or (h : DeliversTo m frames w s x resumption) {cell : HandleCell}
    (hdelivers : Delivers (m.goTo frames w .advance) s x cell resumption m') (hm : m.Sound byHand)
    (hhosted : m.Hosted) (hdistinct : m.Distinct) (hworks : Works m m') (d : DriverId) :
    m.world.Shows m.assets x ∨ ¬m'.InHand d x := by
  have hloops := SameLoops.deliver hdelivers
  cases h with
  | code hshown => exact .inl hshown
  | @driver e waiters below htop hfed hframes hworld hunit =>
    right
    intro hx
    have haccepts := hm.accepts
    rw [htop] at haccepts
    obtain ⟨hroot, hplain⟩ := haccepts.of_driving
    have hbefore : m.phases = [(e, .settle (x :: waiters))] := by
      rw [phases_of_root hroot, htop, List.filterMap_cons, hplain.filterMap_driving?]
      rfl
    have hafter : m'.phases = [(e, .resuming (m.world.handleId x) waiters)] := by
      rw [hloops.phases, phases_goTo_of_root hroot, hframes, List.filterMap_cons,
        hplain.filterMap_driving?]
      rfl
    have hlisted : m'.world.waiters e = m.world.waiters e := by
      rw [hloops.hosts.waiters, goTo_world, hworld]
    have hline : m.line e = x :: m'.line e := by
      rw [line, line, due_of_phases hbefore, due_of_phases hafter, if_pos rfl, if_pos rfl, hlisted]
      rfl
    have hheld : m.InHand e x := .lined (hline ▸ List.mem_cons_self ..)
    rcases hworks.inHand hx with hd | ⟨plan, w', hopens, -⟩
    · obtain rfl := hhosted.driver_eq hd hheld
      cases hx with
      | call hclaims hclaim =>
        rw [hloops.hosts.claims, goTo_world, hworld] at hclaims
        exact hhosted.apart hclaims hclaim (hline ▸ List.mem_cons_self ..)
      | lined member =>
        have hnodup := hdistinct.line d
        rw [hline] at hnodup
        exact (List.nodup_cons.1 hnodup).1 member
    · exact hhosted.not_inHand hm hopens hheld
  | @call key e claims hclaims hclaim hgiven hfed =>
    right
    intro hx
    have hheld : m.InHand e x := .call hclaims hclaim
    cases hx with
    | @call claims' key' hclaims' hclaim' =>
      have hafter : m'.world.claims = some (claims.map (givenUp key)) :=
        hloops.hosts.claims.trans hgiven
      rw [hafter] at hclaims'
      cases hclaims'
      have hkey := hdistinct.key_eq hclaims hclaim (mem_of_givenUp _ hclaim' x rfl)
      obtain ⟨old, hold, heq⟩ := List.mem_map.1 hclaim'
      rw [givenUp] at heq
      split at heq
      next => cases heq
      next hother =>
        cases heq
        exact hother hkey.symm
    | lined member =>
      rcases hworks.line d with heq | ⟨y, plan, w', hopens, -, -, heq⟩ | ⟨y, waiters, -, heq⟩
      · exact hhosted.apart hclaims hclaim (heq ▸ member)
      · rw [heq] at member
        rcases List.mem_append.1 member with member | member
        · exact hhosted.apart hclaims hclaim member
        · cases List.mem_singleton.1 member
          exact hhosted.not_inHand hm hopens hheld
      · exact hhosted.apart hclaims hclaim (heq ▸ List.mem_cons_of_mem _ member)

end Machine

end Fibers
