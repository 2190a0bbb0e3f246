import Fibers.Proofs.Attending
import Fibers.Proofs.Suspensions

/-!
Those who wait for drivers. As long as only tasks use a driver, and no coroutines that
are driven by hand, whoever waits for something that the driver has in its hands is
parked on behalf of its own scheduler, or is just about to be. Nobody else comes by the
handle.
-/

namespace Fibers

open Asset (looseOf postOf)

namespace Machine

variable {allowed : Action → Prop} {byHand : Prop} {P Q : Machine → Prop} {start : World}
  {m m' : Machine} {script : Script} {x y : HandleRef} {s : SchedulerId} {d : DriverId}
  {frames : List Frame} {w : World} {plan : AwaitPlan} {fiber : Fiber}
  {kin : World → SchedulerId → Prop} {about : AwaitKind → Bool}

/-! ### Sessions through states of a kind -/

/-- The states that a session comes by if every state that it goes on from is of a kind. -/
inductive VisitsThrough (P : Machine → Prop) (start : World) : Machine → Prop
  | begins (action : Action) : VisitsThrough P start (Script.begin start action)
  | follows {a b : Machine} (h : VisitsThrough P start a) (hkind : P a) (hnext : a.Follows b) :
      VisitsThrough P start b

theorem VisitsThrough.visits (h : VisitsThrough P start m) : Visits (fun _ => True) start m := by
  induction h with
  | begins action => exact ⟨action, .refl⟩
  | follows _ _ hnext ih => exact ih.leads hnext.leads

theorem VisitsThrough.imp (h : VisitsThrough P start m) (hPQ : ∀ m, P m → Q m) :
    VisitsThrough Q start m := by
  induction h with
  | begins action => exact .begins action
  | follows _ hkind hnext ih => exact ih.follows (hPQ _ hkind) hnext

theorem VisitsThrough.settle (h : VisitsThrough P start m) (fuel : Nat)
    (hkind : ∀ i < fuel, P (m.settle i)) : VisitsThrough P start (m.settle fuel) := by
  induction fuel with
  | zero => exact h
  | succ fuel ih =>
    have hbefore := ih fun i hi => hkind i (Nat.lt_succ_of_lt hi)
    rw [← settle_add]
    cases hstep : (m.settle fuel).step? with
    | none => rwa [settle_of_atRest hstep]
    | some next =>
      have hnext : (m.settle fuel).settle 1 = next := by simp only [Machine.settle, hstep]
      rw [hnext]
      exact hbefore.follows (hkind fuel (Nat.lt_succ_self _)) (.steps hstep)

/-! ### Who uses a driver -/

/-- The fiber in which the next action uses the driver: it sleeps, makes a call, or waits
for all calls. -/
def user? (m : Machine) (d : DriverId) : Option Running :=
  match m.nextAction?.bind fun action => action.core.host? d with
  | none => none
  | some (position, _) => if m.world.driverAt position = some d then m.running.head? else none

/-- The fiber in which the next action uses the driver for an await of such a kind. -/
def asker? (about : AwaitKind → Bool) (m : Machine) (d : DriverId) : Option Running :=
  match m.nextAction?.bind fun action => action.core.host? d with
  | none => none
  | some (position, kind) => if m.world.driverAt position = some d ∧
    about kind then m.running.head? else none

theorem asker?_of_any (m : Machine) (d : DriverId) : m.asker? (fun _ => true) d = m.user? d := by
  simp only [asker?, user?, and_true]

/-- Whoever uses the driver for awaits of such kinds is a task of such a scheduler. -/
def UsedBy (kin : World → SchedulerId → Prop) (about : AwaitKind → Bool) (d : DriverId)
    (m : Machine) : Prop :=
  ∀ running ∈ m.asker? about d, ∃ s, running.home = some s ∧ kin m.world s

/-- The driver has the handle of an await of such a kind in its hands. -/
def Held (about : AwaitKind → Bool) (m : Machine) (d : DriverId) (x : HandleRef) : Prop :=
  m.InHand d x ∧ ∃ plan, m.world.opened x = [plan] ∧ about plan.kind = true

theorem Hosted.held (h : m.Hosted) (hx : m.InHand d x) : m.Held (fun _ => true) d x :=
  ⟨hx, (h.opened hx).imp fun _ hplan => ⟨hplan.1, rfl⟩⟩

/-- A fiber that waits for the handle is parked on behalf of its scheduler, or comes out of
control to be parked there. -/
inductive Expects (kin : World → SchedulerId → Prop) (m : Machine) (x : HandleRef) : Prop
  | parked {cell : HandleCell} {s : SchedulerId} {fiber : Fiber}
      (hcell : m.world.handles.get? x = some cell)
      (hslot : cell.slot = .parked fiber (.scheduler s)) (hawaits : fiber.AwaitsOn x)
      (hhome : fiber.home = some s) (hkin : kin m.world s)
      (hback : ∀ other, m.control ≠ .back other (.suspended x))
  | comes {cell : HandleCell} {s : SchedulerId} {fiber : Fiber}
      (hcell : m.world.handles.get? x = some cell) (hslot : cell.slot = .pending)
      (hcontrol : m.control = .back fiber (.suspended x)) (hawaits : fiber.AwaitsOn x)
      (hhome : fiber.home = some s) (hkin : kin m.world s)

/-- For everything of such a kind that the driver has in its hands a fiber waits, and
programs come by none of it. -/
structure Attends (kin : World → SchedulerId → Prop) (about : AwaitKind → Bool) (d : DriverId)
    (m : Machine) : Prop where
  expects : ∀ {x}, m.Held about d x → m.Expects kin x
  secret : ∀ {x}, m.Held about d x → m.Secures True fun y => y ≠ x

/-- A relation between worlds and schedulers that outlasts whatever drivers outlast. -/
def Lasting (kin : World → SchedulerId → Prop) : Prop :=
  ∀ {a b : World} {s : SchedulerId}, (∀ {e t}, a.fedBy e = some t → b.fedBy e = some t) →
    kin a s → kin b s

theorem isHosted_of_driver? {kind : AwaitKind} (h : kind.driver? = some d) :
    kind.isHosted = true := by
  cases kind <;> first | rfl | cases h

theorem Attends.not_shows (h : m.Attends kin about d) (hhosted : m.Hosted) (hx : m.Held about d x) :
    ¬m.world.Shows m.assets x := by
  obtain ⟨plan, hopened, hdriver⟩ := hhosted.opened hx.1
  exact (h.secret hx).kept.hidden x (fun hne => hne rfl)
    (World.hosts_pos hopened (isHosted_of_driver? hdriver))

/-- Programs come by no handle that is yet to be made. -/
theorem Sound.secures_of_unmade (h : m.Sound True) (hx : m.world.handles.get? x = none) :
    m.Secures True fun y => y ≠ x where
  toShaped := h.toShaped
  kept :=
    { balanced := h.kept.balanced
      orderly := h.kept.orderly
      hidden := fun y hshown hhosts => by
        obtain rfl := Classical.not_not.1 hshown
        have hnone := h.kept.balanced.opened y
        rw [if_neg (by simpa [HandleTable.get?] using hx)] at hnone
        have hle : m.world.tally (Mark.hosts y) ≤ m.world.tally (Mark.opens y) :=
          weigh_le (fun happening => by
            cases happening with
            | entry | event => exact Nat.le_refl _
            | mark told =>
              cases told <;> simp only [Happening.weight, Mark.hosts, Mark.opens, Nat.le_refl]
              split <;> split <;> simp_all) _
        omega }

/-- What a suspended fiber of a scheduler comes back to is the run loop of the scheduler. -/
theorem Sound.top_of_back {exit : Exit} (h : m.Sound True) (hcontrol : m.control = .back fiber exit)
    (hhome : fiber.home = some s) : ∃ rest, m.top = .dispatching s :: rest := by
  have haccepts := h.accepts
  rw [hcontrol] at haccepts
  obtain ⟨hentered, -⟩ := haccepts
  unfold World.Entered at hentered
  split at hentered
  · rw [hhome] at hentered
    cases hentered.2.1
  · next heq =>
    obtain ⟨-, hsame, -⟩ := hentered
    rw [hhome] at hsame
    cases hsame
    exact ⟨_, heq⟩
  · exact hentered.elim

/-- A fiber comes back suspended on a handle that its await just made, that its await
registered, or that its program came by. -/
theorem Turns.suspended (h : Turns allowed m m') (hback : m'.control = .back fiber (.suspended x)) :
    m.world.handles.get? x = none ∨ (∃ plan frames, m.top = .registering x plan :: frames) ∨
      m.world.Shows m.assets x := by
  cases h with
  | noArrivals hframes hcontrol hnoArrivals =>
    rw [goTo_control] at hback
    rw [hback] at hcontrol
    exact hcontrol.elim
  | enqueues | registers | strands | receives =>
    rw [goTo_control] at hback
    cases hback
  | @issues e y plan w frames huses hdriver hplan hlisted hcurrent hopens hframes =>
    rw [suspendAwait, push_eq] at hback
    have heq : y = x := suspend_back (by rw [goTo_control, goTo_control]; trivial) hback
    exact .inl (heq ▸ hopens.unmade)
  | @registered y plan frames w htop hcontrol hnoArrivals =>
    rw [suspendAwait, push_eq] at hback
    have heq : y = x := suspend_back (by rw [goTo_control, goTo_control]; exact hcontrol) hback
    exact .inr (.inl ⟨plan, frames, heq ▸ htop⟩)
  | delivers hframes hnoArrivals hcell hs hfrom hdelivers =>
    cases hdelivers with
    | stored | queued | refused => cases hback
    | dispatched => exact absurd hback enter_back
  | concludes htop hresumed hcontrol hnoArrivals =>
    rw [goTo_control] at hback
    rw [hback] at hcontrol
    exact hcontrol.elim
  | drains htop hcontrol hdrains =>
    cases hdrains with
    | stops | fails => cases hback
    | starts | wakes => exact absurd hback enter_back
  | @leaves running below exit hrunning htop hcontrol =>
    cases hback
    cases hbefore : m.control with
    | advance | raise | panicking | resumed | back | answer =>
      rw [hbefore] at hcontrol
      cases hcontrol
  | hand hallowed hhand hspares hhomes hended hkept hshown =>
    exact .inr (.inr (hshown fiber x hback))

/-! ### What a step does to those who wait -/

/-- As long as a driver has a handle in its hands, nothing is delivered to it. -/
theorem Attends.accepted (h : m.Attends kin about d) (hm : m.Sound True) (hhosted : m.Hosted)
    (hdistinct : m.Distinct) (hturns : Turns allowed m m') (hworks : Works m m')
    (hx : m.Held about d x) (hx' : m'.InHand d x) :
    m'.world.accepted x = m.world.accepted x := by
  have hnot := h.not_shows hhosted hx
  rcases hturns.told hm (minds_accepted? x) (fun _ _ _ havoids => (havoids x hnot).accepted) with
    hsame | ⟨y, plan, w, -, -, htold⟩ | ⟨frames, w, s, y, cell, resumption, -, -, hfrom,
      hdelivers, -, htold⟩
  · exact hsame
  · exact htold.trans (List.append_nil _)
  · refine htold.trans ?_
    rw [Mark.accepted?, if_neg, Option.toList_none, List.append_nil]
    · rfl
    rintro rfl
    exact (hfrom.shows_or hdelivers hm hhosted hdistinct hworks d).elim hnot fun hgone => hgone hx'

/-- No transfer by hand brings a fiber back that waits for a driver. -/
theorem Expects.not_by_hand {name : String} {slot : Option String} (h : m.Expects kin x)
    (hm : m.Sound True) (htop : m.top = .transferring name slot :: frames) :
    m.control ≠ .back fiber (.suspended x) := by
  intro hback
  cases h with
  | parked hcell hslot hawaits hhome hkin hnot => exact hnot fiber hback
  | comes hcell hslot hcontrol hawaits hhome hkin =>
    obtain ⟨rest, hloop⟩ := hm.top_of_back hcontrol hhome
    rw [htop] at hloop
    cases hloop

/-- A parked fiber stays where it is as long as the driver has the handle in its hands. -/
theorem Sound.stays {cell : HandleCell} (hm : m.Sound True) (hm' : m'.Sound True)
    (hfates : m.Fates m') (hx' : m'.InHand d x) (hcell : m.world.handles.get? x = some cell)
    (hslot : cell.slot = .parked fiber (.scheduler s))
    (hsame : m'.world.accepted x = m.world.accepted x) :
    ∃ after, m'.world.handles.get? x = some after ∧ after.slot = .parked fiber (.scheduler s) := by
  have hrests := (hm.kept.orderly.parked x cell fiber _ hcell hslot).1
  obtain ⟨-, -, hstays⟩ := hfates.parked hcell hslot (hrests.suspended rfl) hsame
  exact hstays (hm'.holders_eq x ▸ hm'.clones_of_inHand hx')

/-- A fiber that comes out of control is parked. -/
theorem Sound.parks (hm : m.Sound True) (hm' : m'.Sound True) (hstep : m.step? = some m')
    (hkin : kin m'.world s) {cell : HandleCell} (hcell : m.world.handles.get? x = some cell)
    (hslot : cell.slot = .pending) (hcontrol : m.control = .back fiber (.suspended x))
    (hawaits : fiber.AwaitsOn x) (hhome : fiber.home = some s) (hx' : m'.InHand d x) :
    m'.Expects kin x := by
  obtain ⟨rest, htop⟩ := hm.top_of_back hcontrol hhome
  obtain ⟨cell', after, hcell', hafter, -, -, hadvance, hsuspends⟩ := hm.suspends htop hcontrol
  rw [hstep] at hafter
  cases hafter
  rw [hcell] at hcell'
  cases hcell'
  have hheld := hm'.clones_of_inHand hx'
  cases hsuspends with
  | parked _ htakes =>
    have hlaid :=
      (HandleTable.get?_put hcell { cell with slot := .parked fiber (.scheduler s) } x).trans
      (if_pos rfl)
    rw [htakes.handles] at hheld
    obtain ⟨last, hlast, hsame⟩ :=
      (HandleTable.release_sameOrGone _ [.handle x] x).slot_eq hlaid hheld
    rw [← htakes.handles] at hlast
    exact .parked hlast hsame hawaits hhome hkin fun other hback => by
      rw [hadvance] at hback; cases hback
  | answered resumption hwoken => simp [hslot] at hwoken
  | refused hused => simp [hslot] at hused

/-- What a step does to a handle that a driver keeps in its hands. -/
theorem Attends.kept (h : m.Attends kin about d) (hm : m.Sound True) (hm' : m'.Sound True)
    (hattended : m.world.Attended) (hhosted : m.Hosted) (hdistinct : m.Distinct)
    (hkin : Lasting kin) (hmoves : Moves allowed m m') (hstep : m.step? = some m')
    (hx : m.Held about d x) (hx' : m'.InHand d x) : m'.Expects kin x := by
  have hturns := hm.turns hmoves
  have hworks := hm.works hmoves
  have hlater : ∀ {s}, kin m.world s → kin m'.world s := hkin hworks.fed
  cases h.expects hx with
  | parked hcell hslot hawaits hhome hkin hnot =>
    have hsame := h.accepted hm hhosted hdistinct hturns hworks hx hx'
    obtain ⟨after, hafter, hstays⟩ :=
      Sound.stays hm hm' (hm.fates hattended (.steps hstep)) hx' hcell hslot hsame
    refine .parked hafter hstays hawaits hhome (hlater hkin) fun other hback => ?_
    rcases hturns.suspended hback with hnone | ⟨plan, frames, htop⟩ | hshown
    · rw [hcell] at hnone
      cases hnone
    · exact hm.not_registering_of_kept (.parked hcell hslot) hawaits htop
    · exact h.not_shows hhosted hx hshown
  | comes hcell hslot hcontrol hawaits hhome hkin =>
    exact Sound.parks hm hm' hstep (hlater hkin) hcell hslot hcontrol hawaits hhome hx'

/-- The action that is about to be performed, without what wraps it. -/
def Performs (m : Machine) (action : Action) : Prop := ∃ wrapped, m.nextAction? = some wrapped ∧
    wrapped.core = action

theorem asker?_of_uses {running : Running} {below : List Running} {kind : AwaitKind}
    (h : m.Uses m.Performs d kind) (habout : about kind = true)
    (hrunning : m.running = running :: below) : m.asker? about d = some running := by
  obtain ⟨action, position, ⟨wrapped, hnext, rfl⟩, hhost, hdriver⟩ := h
  simp [asker?, hnext, hhost, hdriver, habout, hrunning]

/-- A call that strands its fiber comes into the hands of no driver. -/
theorem Works.not_stranded (h : Works m m') (hm : m.Sound byHand) (hhosted : m.Hosted)
    (hopens : m.world.Opens x plan w) (hopened : m'.world.opened x = [plan])
    (hcaller : plan.kind.caller?.isSome) (hnone : m.world.claims = none) :
    ¬m'.InHand d x := by
  have hnot : ∀ {e}, ¬m.InHand e x := hhosted.not_inHand hm hopens
  intro hx
  cases hx with
  | call hclaims hclaim =>
    rcases h.claims hclaims with rfl | ⟨claims, hbefore, -⟩
    · cases hclaim
    · rw [hnone] at hbefore
      cases hbefore
  | lined member =>
    rcases h.line d with heq | ⟨y, other, w', hopens', hhistory, hall, heq⟩ | ⟨y, waiters, -, heq⟩
    · exact hnot (.lined (heq ▸ member))
    · rw [heq] at member
      rcases List.mem_append.1 member with member | member
      · exact hnot (.lined member)
      · cases List.mem_singleton.1 member
        have hown := opened_of_opens hm hopens' hhistory
        rw [hopened] at hown
        cases hown
        rw [hall] at hcaller
        cases hcaller
    · exact hnot (.lined (heq ▸ List.mem_cons_of_mem _ member))

/-- A step that opens an await is the step of that await. -/
theorem Sound.opening_of_opens (hm : m.Sound True) (hmoves : Moves allowed m m')
    (hopens : m.world.Opens x plan w) (hhistory : w.history = m'.world.history) :
    ∃ w', m.world.Opens x plan w' ∧ Opening allowed m m' x plan w' := by
  have hnone := opened_nil hm hopens.unmade
  have hopened := opened_of_opens hm hopens hhistory
  rcases (hm.turns hmoves).told hm (minds_opened? x) fun _ _ _ havoids =>
      (havoids _ hm.kept.balanced.not_shows_next).opened x with
    hsame | ⟨y, plan', w', hopens', hopening, htold⟩ | ⟨-, -, -, y, -,
      resumption, -, -, -, -, -, htold⟩
  · replace hsame : m'.world.opened x = m.world.opened x := hsame
    rw [hopened, hnone] at hsame
    cases hsame
  · replace htold : m'.world.opened x =
      m.world.opened x ++ (Mark.opened? x (.opened y plan')).toList := htold
    rw [hopened, hnone, Mark.opened?] at htold
    split at htold
    next hyx =>
      subst hyx
      cases htold
      exact ⟨w', hopens', hopening⟩
    next => cases htold
  · replace htold : m'.world.opened x = m.world.opened x ++ [] := htold
    rw [hopened, hnone] at htold
    cases htold

/-- Where a driver gets a handle in its hands, its fiber comes out of control. -/
theorem Sound.expects_of_opens (hm : m.Sound True) (hm' : m'.Sound True) (hhosted : m.Hosted)
    (hused : m.UsedBy kin about d) (hkin : Lasting kin) (hmoves : Moves m.Performs m m')
    (hx' : m'.InHand d x) (hopens : m.world.Opens x plan w)
    (hhistory : w.history = m'.world.history) (hdriver : plan.kind.driver? = some d)
    (habout : about plan.kind = true) :
    m'.Expects kin x := by
  have hworks := hm.works hmoves
  obtain ⟨w', hopens', hopening⟩ := hm.opening_of_opens hmoves hopens hhistory
  cases hopening with
  | plain hplain => rw [isHosted_of_driver? hdriver] at hplain; cases hplain
  | stranded hcaller hunclaimed =>
    have hopened := opened_of_opens hm hopens hhistory
    exact absurd hx' (hworks.not_stranded hm hhosted hopens hopened hcaller hunclaimed)
  | hosted huses hdriver' hlisted hrunning hhandles hcontrol =>
    rw [hdriver] at hdriver'
    cases hdriver'
    obtain ⟨s, hhome, hs⟩ := hused _ (asker?_of_uses huses habout hrunning)
    obtain ⟨cell, hcell, hslot⟩ := hopens'.pending (hhandles ▸ hm'.clones_of_inHand hx')
    exact .comes (hhandles ▸ hcell) hslot hcontrol ⟨plan, _, rfl⟩ hhome (hkin hworks.fed hs)

/-- What a driver comes to hold is what it held before, or a handle that is made in this
step. -/
theorem Sound.held (hm : m.Sound True) (hhosted : m.Hosted) (hmoves : Moves allowed m m')
    (hx' : m'.Held about d x) :
    m.Held about d x ∨ ∃ plan w, m.world.Opens x plan w ∧ w.history = m'.world.history ∧
      plan.kind.driver? = some d ∧ about plan.kind = true := by
  obtain ⟨hhand, plan', hopened', habout⟩ := hx'
  rcases (hm.works hmoves).inHand hhand with hx | ⟨plan, w, hopens, hhistory, hdriver⟩
  · obtain ⟨plan, hopened, -⟩ := hhosted.opened hx
    have hsame := (hm.turns hmoves).opened hm hopened
    rw [hopened'] at hsame
    cases hsame
    exact .inl ⟨hx, plan', hopened, habout⟩
  · have hsame := opened_of_opens hm hopens hhistory
    rw [hopened'] at hsame
    cases hsame
    exact .inr ⟨plan', w, hopens, hhistory, hdriver, habout⟩

theorem Attends.moves (h : m.Attends kin about d) (hm : m.Sound True) (hm' : m'.Sound True)
    (hattended : m.world.Attended) (hhosted : m.Hosted) (hdistinct : m.Distinct)
    (hused : m.UsedBy kin about d) (hkin : Lasting kin) (hstep : m.step? = some m') :
    m'.Attends kin about d := by
  have hmoves : Moves m.Performs m m' :=
    step_moves hstep hm fun action haction => ⟨action, haction, rfl⟩
  refine ⟨fun {x} hx' => ?_, fun {x} hx' => ?_⟩
  · rcases hm.held hhosted hmoves hx' with hx | ⟨plan, w, hopens, hhistory, hdriver, habout⟩
    · exact h.kept hm hm' hattended hhosted hdistinct hkin hmoves hstep hx hx'.1
    · exact hm.expects_of_opens hm' hhosted hused hkin hmoves hx'.1 hopens hhistory hdriver habout
  · rcases hm.held hhosted hmoves hx' with hx | ⟨plan, w, hopens, hhistory, hdriver, habout⟩
    · refine (h.secret hx).moves (fun _ _ _ _ => trivial)
        (fun _ name slot frames fiber y htop hback heq => ?_) hmoves
      exact (h.expects hx).not_by_hand hm htop (heq ▸ hback)
    · refine (hm.secures_of_unmade hopens.unmade).moves (fun _ _ _ _ => trivial)
        (fun _ name slot frames fiber y htop hback heq => ?_) hmoves
      obtain ⟨cell, hcell⟩ := World.exists_cell (hm.clones_of_suspended (heq ▸ hback))
      rw [hopens.unmade] at hcell
      cases hcell

theorem InHand.between (h : m.Between w) {root : List Frame} (hroot : ∀ frame ∈ root, frame.IsCode)
    (hx : InHand ⟨w, [], root, .advance⟩ d x) : m.InHand d x := by
  have hphases : phases ⟨w, [], root, .advance⟩ = [] :=
    (PlainStack.of_code false hroot).filterMap_driving?
  cases hx with
  | call hclaims hclaim => exact .call (h.sameHosts.claims ▸ hclaims) hclaim
  | lined member =>
    rw [line, due_of_idle hphases] at member
    exact .lined (List.mem_append_right _ (h.sameHosts.waiters d ▸ member))

theorem Held.between (h : m.Between w) {root : List Frame} (hroot : ∀ frame ∈ root, frame.IsCode)
    (hx : Held about ⟨w, [], root, .advance⟩ d x) : m.Held about d x :=
  ⟨InHand.between h hroot hx.1,
    hx.2.imp fun _ hplan =>
      ⟨(h.noArrivals.told (Mark.heeds_opened? x)).symm.trans hplan.1, hplan.2⟩⟩

theorem Attends.between (h : m.Attends kin about d) (hm : m.Sound True)
    (hattended : m.world.Attended) (hdone : m.Done) (hkin : Lasting kin) (hbetween : m.Between w)
    {root : List Frame} (hroot : ∀ frame ∈ root, frame.IsCode)
    (hfollows : m.Follows ⟨w, [], root, .advance⟩)
    (hsecures : ∀ x, m.Held about d x → Secures True (fun y => y ≠ x) ⟨w, [], root, .advance⟩) :
    Attends kin about d ⟨w, [], root, .advance⟩ := by
  refine ⟨fun {x} hx' => ?_, fun {x} hx' => hsecures x (Held.between hbetween hroot hx')⟩
  have hx := Held.between hbetween hroot hx'
  cases h.expects hx with
  | parked hcell hslot hawaits hhome hs =>
    obtain ⟨after, hafter, hstays⟩ :=
      hm.stays (hm.follows hfollows) (hm.fates hattended hfollows) hx'.1 hcell hslot
      (hbetween.noArrivals.accepted x)
    exact .parked hafter hstays hawaits hhome (hkin hbetween.sameHosts.fed hs)
      fun other hback => by cases hback
  | comes hcell hslot hcontrol =>
    have hcode := (hm.done hdone).2.2
    rw [hcontrol] at hcode
    exact hcode.elim

/-- The host takes nothing out of the hands of a driver and gives it nothing. -/
theorem inHand_of_stirs (hstirs : m.world.Stirs w) : (m.withWorld w).InHand d x ↔ m.InHand d x := by
  have hwaiters := hstirs.sameHosts.waiters d
  constructor
  · rintro (⟨hclaims, hclaim⟩ | member)
    · exact .call (hstirs.claims ▸ hclaims) hclaim
    · refine .lined ?_
      rwa [Machine.line, withWorld_world, hwaiters] at member
  · rintro (⟨hclaims, hclaim⟩ | member)
    · exact .call (hstirs.claims.trans hclaims) hclaim
    · refine .lined ?_
      rwa [Machine.line, withWorld_world, hwaiters]

theorem Held.of_stirs (hx : (m.withWorld w).Held about d x) (hstirs : m.world.Stirs w) :
    m.Held about d x :=
  ⟨(inHand_of_stirs hstirs).1 hx.1,
    hx.2.imp fun _ hplan =>
      ⟨(hstirs.noProgress.told (Mark.heeds_opened? x)).symm.trans hplan.1, hplan.2⟩⟩

theorem Attends.stirs (h : m.Attends kin about d) (hkin : Lasting kin) (hstirs : m.world.Stirs w) :
    (m.withWorld w).Attends kin about d := by
  have hcells : ∀ {x cell}, m.world.handles.get? x = some cell →
      w.handles.get? x = some cell := fun hcell => by
    rwa [hstirs.rest]
  refine ⟨fun {x} hx => ?_, fun hx => (h.secret (hx.of_stirs hstirs)).stirs hstirs⟩
  cases h.expects (hx.of_stirs hstirs) with
  | parked hcell hslot hawaits hhome hs hback =>
    exact .parked (hcells hcell) hslot hawaits hhome (hkin hstirs.sameHosts.fed hs) hback
  | comes hcell hslot hcontrol hawaits hhome hs =>
    exact .comes (hcells hcell) hslot hcontrol hawaits hhome (hkin hstirs.sameHosts.fed hs)

theorem VisitsThrough.attends (h : VisitsThrough (UsedBy kin about d) script.start m)
    (hkin : Lasting kin) : m.Attends kin about d := by
  induction h with
  | begins action =>
    obtain ⟨hdrivers, hagenda⟩ := World.drivers_start script
    have hnone : ∀ x, ¬InHand (Script.begin script.start action) d x := by
      intro x hx
      cases hx with
      | call hclaims =>
        rw [Script.begin, World.claims, hagenda] at hclaims
        cases hclaims
      | lined member =>
        rw [line, due_of_idle rfl, Script.begin, World.waiters, World.driver?, hdrivers] at member
        cases member
    exact ⟨fun hx => absurd hx.1 (hnone _), fun hx => absurd hx.1 (hnone _)⟩
  | @follows a b ha hused hnext ih =>
    have hvisits := ha.visits
    have hsound : a.Sound True := hvisits.sound fun _ _ _ _ => trivial
    cases hnext with
    | steps hstep =>
      exact ih.moves hsound (hsound.follows (.steps hstep)) hvisits.attended hvisits.hosted
        hvisits.distinct hused hkin hstep
    | stirs hstirs => exact ih.stirs hkin hstirs
    | goesOn hdone action =>
      refine ih.between hsound hvisits.attended hdone hkin .shows
        (fun frame member => List.mem_singleton.1 member ▸ trivial) (.goesOn hdone action)
        fun x hx => ?_
      obtain ⟨hworld, hnone⟩ := (ih.secret hx).showOutcome hdone
      exact .begin hworld hnone action
    | closes hdone =>
      exact ih.between hsound hvisits.attended hdone hkin .closes (fun _ member => by cases member)
        (.closes hdone) fun x hx => (ih.secret hx).close hdone

end Machine

end Fibers
