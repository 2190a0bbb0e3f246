import Fibers.Proofs.Tallies
import Fibers.Proofs.Waiting

/-!
Where outcomes come from. What a call keeps for its fiber is what the future of the
action ends with that issued the call, from then on until the call hands it over.
-/

namespace Fibers

/-- How the future of a host call ends that the action issues. A sleep ends with nothing, a
call with the value or the error that it names unless its future panics, and a closure on
another thread with the number or the error that it returns, or with an error about its
panic. -/
inductive Action.EndsWith (w : World) : Action → Ending → Prop
  | slept (position milliseconds : Nat) (onError : OnError) :
      EndsWith w (.sleep position milliseconds onError) (.done (.value (.scalar .unit)))
  | value (position : Nat) (type : PayloadType) (value : Scalar) (wait : Option String)
      (onError : OnError) (keepIn : Option String) :
      EndsWith w (.call position type (.done (.value (.scalar value))) wait onError keepIn)
        (.done (.value (.scalar value)))
  | handle (position : Nat) (type : PayloadType) {name : String} (keep : Bool)
      (wait : Option String) (onError : OnError) (keepIn : Option String) {x : HandleRef}
      (hx : w.slots.get? name = some x) :
      EndsWith w (.call position type (.done (.value (.slot name keep))) wait onError keepIn)
        (.done (.value (.handle x)))
  | failed (position : Nat) (type : PayloadType) (failure : Failure) (wait : Option String)
      (onError : OnError) (keepIn : Option String) :
      EndsWith w (.call position type (.done (.error failure)) wait onError keepIn)
        (.done (.error failure))
  | broken (position : Nat) (type : PayloadType) (wait : Option String) (onError : OnError)
      (keepIn : Option String) :
      EndsWith w (.call position type .panicked wait onError keepIn) .panicked
  | done (position : Nat) (value : Int) (onError : OnError) :
      EndsWith w (.blocking position (.done value) onError)
        (.done (.value (.scalar (.number .i64 value))))
  | refused (position : Nat) (failure : Failure) (onError : OnError) :
      EndsWith w (.blocking position (.failed failure) onError) (.done (.error failure))
  | panicked (position : Nat) (onError : OnError) :
      EndsWith w (.blocking position .panicked onError) (.done (.error ⟨.join, []⟩))

theorem Action.endsWith_call {w u : World} {delivery : Delivery} {outcome : Resumption}
    (h : w.resumption? delivery = some (outcome, u)) (position : Nat) (type : PayloadType)
    (wait : Option String) (onError : OnError) (keepIn : Option String) :
    Action.EndsWith w (.call position type (.done delivery) wait onError keepIn)
      (.done outcome) := by
  cases delivery with
  | error failure =>
    cases h
    exact .failed ..
  | value source =>
    cases source with
    | scalar value =>
      cases h
      exact .value ..
    | slot name keep =>
      cases hx : w.slots.get? name with
      | none => simp [World.resumption?, World.payload?, World.takeHandle?, hx] at h
      | some x =>
        cases keep <;>
          simp only [World.resumption?, World.payload?, World.takeHandle?, hx, Option.map_some,
            if_true, Bool.false_eq_true, if_false, Option.some.injEq, Prod.mk.injEq] at h <;>
          exact h.1 ▸ .handle position type _ wait onError keepIn hx

theorem Action.endsWith_blocking (w : World) (position : Nat) (outcome : BlockingOutcome)
    (onError : OnError) :
    Action.EndsWith w (.blocking position outcome onError)
      (.done (Machine.blockingOutcome outcome)) := by
  cases outcome with
  | done value => exact .done ..
  | failed failure => exact .refused ..
  | panicked => exact .panicked ..

theorem Action.isHostCall_of_host? {action : Action} {d : DriverId} {position : Nat}
    {kind : AwaitKind} (h : action.host? d = some (position, kind))
    (hcaller : kind.caller?.isSome) : action.IsHostCall := by
  cases action with
  | sleep | call | blocking => trivial
  | awaitAll =>
    cases h
    cases hcaller
  | _ => cases h

/-- Entries of one number are the same if numbers go up. -/
theorem eq_of_numbered {α : Type} {entries : List (Nat × α)} {key : Nat} {a b : α}
    (h : (entries.map Prod.fst).Pairwise (· < ·)) (ha : (key, a) ∈ entries)
    (hb : (key, b) ∈ entries) : a = b := by
  have hnodup : (entries.map Prod.fst).Nodup := h.imp Nat.ne_of_lt
  exact congrArg Prod.snd (List.inj_on_of_nodup_map hnodup ha hb rfl)

namespace World

variable {w w' : World}

theorem callKeys_of_claims {claims : List (Nat × DriverId × Option HandleRef)}
    (h : w.claims = some claims) : claims.map Prod.fst = w.callKeys := by
  rw [World.claims, Option.map_eq_some_iff] at h
  obtain ⟨agenda, hagenda, rfl⟩ := h
  rw [callKeys, hagenda, List.map_map]
  rfl

theorem callKeys_of_promises : w.promises.map Prod.fst = w.callKeys := by
  rw [promises, callKeys]
  cases w.agenda with
  | none => rfl
  | some agenda =>
    rw [Option.elim_some, List.map_map]
    rfl

/-- A call that keeps something for its fiber holds the handle of the fiber. -/
theorem claim_of_promise {key : Nat} {x : HandleRef} {ending : Ending}
    (h : (key, some (x, ending)) ∈ w.promises) :
    ∃ claims d, w.claims = some claims ∧ (key, d, some x) ∈ claims := by
  rw [promises] at h
  rw [World.claims]
  cases hagenda : w.agenda with
  | none =>
    rw [hagenda] at h
    cases h
  | some agenda =>
    rw [hagenda, Option.elim_some] at h
    obtain ⟨call, hcall, heq⟩ := List.mem_map.1 h
    refine ⟨_, call.driver, rfl, List.mem_map.2 ⟨call, hcall, ?_⟩⟩
    rw [HostCall.promise] at heq
    rw [HostCall.claim]
    cases hstate : call.state with
    | holding y work =>
      rw [hstate] at heq
      cases heq
      rfl
    | handing =>
      rw [hstate] at heq
      cases heq

theorem promises_of_agenda (h : w'.agenda = w.agenda) : w'.promises = w.promises := by
  rw [promises, h, promises]

end World

namespace Machine

variable {m m' : Machine} {script : Script} {x : HandleRef} {d : DriverId} {w : World}
  {plan : AwaitPlan} {key : Nat} {ending : Ending} {kept : HandleRef × Ending}

/-- In the first state a fiber issues a host call, for which the handle is made, and the
future of the call ends so. -/
structure Issues (a b : Machine) (x : HandleRef) (ending : Ending) : Prop where
  step : a.step? = some b
  future : ∃ action, a.Performs action ∧ action.EndsWith a.world ending
  unmade : a.world.handles.get? x = none
  opened : ∃ plan, b.world.opened x = [plan] ∧ plan.kind.caller?.isSome

theorem failAwait_agenda (m : Machine) (plan : AwaitPlan) (failure : Failure) :
    (m.failAwait plan failure).world.agenda = m.world.agenda := by
  rw [failAwait.eq_def]
  split <;> rfl

theorem issue_promises {work : Work} (h : (key, some kept) ∈ (m.issue d work plan).world.promises) :
    (key, some kept) ∈ m.world.promises ∨ kept.2 = work.ending := by
  rw [issue] at h
  split at h
  next =>
    rw [World.promises_of_agenda (failAwait_agenda ..), withWorld_world,
      (World.sameHosts_release _ _).promises] at h
    exact .inl h
  next current hcurrent hagenda =>
    change (key, some kept) ∈ (World.release _ _).promises at h
    rw [(World.sameHosts_release _ _).promises] at h
    exact .inl h
  next current agenda hcurrent hagenda =>
    simp only at h
    rw [(SameLoops.suspendAwait _ _ _).hosts.promises, withWorld_world] at h
    simp only [World.promises, World.updateAgenda, World.updateDriver, openAwait, World.makeHandle,
      World.mark, hagenda, Option.map_some, Option.elim_some, Agenda.spawn, List.map_append,
        List.mem_append, List.map_cons, List.map_nil] at h ⊢
    refine h.imp_right fun member => ?_
    cases List.mem_singleton.1 member
    rfl

/-- What an action adds to what calls keep is what the future of its call ends with. -/
theorem perform_promises : (action : Action) → action.core.IsHostCall →
    (key, some kept) ∈ (m.perform action).world.promises →
      (key, some kept) ∈ m.world.promises ∨ action.core.EndsWith m.world kept.2
  | .sleep position milliseconds onError, _, h => by
    rw [perform, withDriver] at h
    split at h
    · exact .inl h
    · rcases issue_promises h with member | heq
      · exact .inl member
      · exact .inr (heq ▸ Action.EndsWith.slept position milliseconds onError)
  | .blocking position outcome onError, _, h => by
    rw [perform, withDriver] at h
    split at h
    · exact .inl h
    · rcases issue_promises h with member | heq
      · exact .inl member
      · exact .inr (heq ▸ Action.endsWith_blocking m.world position outcome onError)
  | .call position type .panicked wait onError keepIn, _, h => by
    rw [perform, withDriver] at h
    split at h
    · exact .inl h
    · rcases issue_promises h with member | heq
      · exact .inl member
      · exact .inr (heq ▸ Action.EndsWith.broken position type wait onError keepIn)
  | .call position type (.done delivery) wait onError keepIn, _, h => by
    rw [perform, withDriver] at h
    split at h
    · exact .inl h
    · rw [withEnding, withResumption] at h
      cases hresumption : m.world.resumption? delivery with
      | none =>
        rw [hresumption] at h
        simp only [lose, withWorld_world] at h
        rw [(World.sameHosts_release _ _).promises] at h
        exact .inl h
      | some result =>
        rw [hresumption] at h
        rcases issue_promises h with member | heq
        · left
          rwa [withWorld_world, World.promises_of_agenda
            (World.resumption_elsewhere hresumption).2.2.2] at member
        · exact .inr (heq ▸ Action.endsWith_call hresumption ..)
  | .foreign position action, hcall, h => by
    rw [perform] at h
    split at h
    · exact .inl h
    · exact perform_promises action hcall h

/-- The number of a call tells all that it keeps. -/
theorem Sound.claim_eq (hm : m.Sound True) {claims : List (Nat × DriverId × Option HandleRef)}
    {a b : DriverId × Option HandleRef} (hclaims : m.world.claims = some claims)
    (ha : (key, a) ∈ claims) (hb : (key, b) ∈ claims) : a = b :=
  eq_of_numbered (World.callKeys_of_claims hclaims ▸ hm.kept.balanced.keys) ha hb

theorem Sound.promise_eq (hm : m.Sound True) {a b : Option (HandleRef × Ending)}
    (ha : (key, a) ∈ m.world.promises) (hb : (key, b) ∈ m.world.promises) : a = b :=
  eq_of_numbered (World.callKeys_of_promises ▸ hm.kept.balanced.keys) ha hb

/-- What a call keeps after a step it kept before, or the step issued the call. -/
theorem Sound.issues (hm : m.Sound True) (hstep : m.step? = some m')
    (hkept : (key, some (x, ending)) ∈ m'.world.promises) :
    (key, some (x, ending)) ∈ m.world.promises ∨ m.Issues m' x ending := by
  have hmoves : Moves m.Performs m m' :=
    step_moves hstep hm fun action haction => ⟨action, haction, rfl⟩
  have hworks := hm.works hmoves
  refine (hworks.keepsPromises.promises hkept).imp_right fun hnew => ?_
  have hold : ∀ {e : DriverId} {handle : Option HandleRef} {claims}, m.world.claims = some claims →
      (key, e, handle) ∉ claims := by
    intro e handle claims hclaims member
    have hkey : key ∈ m.world.callKeys :=
      World.callKeys_of_claims hclaims ▸ List.mem_map_of_mem (f := Prod.fst) member
    exact absurd (hm.kept.balanced.issued key hkey) (Nat.not_lt.2 hnew)
  obtain ⟨claims', e, hclaims', hclaim⟩ := World.claim_of_promise hkept
  rcases hworks.claims hclaims' with rfl | ⟨claims, hclaims, hchange⟩
  · cases hclaim
  cases hchange with
  | same heq => exact absurd (heq ▸ hclaim) (hold hclaims)
  | removed other heq =>
    rw [heq] at hclaim
    exact absurd (List.mem_filter.1 hclaim).1 (hold hclaims)
  | givenUp other heq =>
    rw [heq] at hclaim
    exact absurd (mem_of_givenUp _ hclaim x rfl) (hold hclaims)
  | @issued y plan w d other hopens hhistory hplan heq =>
    rw [heq] at hclaim
    rcases List.mem_append.1 hclaim with member | member
    · exact absurd member (hold hclaims)
    cases List.mem_singleton.1 member
    obtain ⟨w', hopens', hopening⟩ := hm.opening_of_opens hmoves hopens hhistory
    have hcaller : plan.kind.caller?.isSome := by rw [hplan]; rfl
    cases hopening with
    | plain hplain =>
      rw [isHosted_of_driver? (AwaitKind.driver?_of_caller? hplan)] at hplain
      cases hplain
    | stranded hcaller' hnone =>
      rw [hclaims] at hnone
      cases hnone
    | hosted huses =>
      obtain ⟨action, position, ⟨wrapped, hnext, rfl⟩, hhost, hdriver⟩ := huses
      have hcall := Action.isHostCall_of_host? hhost hcaller
      refine ⟨hstep, ⟨_, ⟨wrapped, hnext, rfl⟩, ?_⟩, hopens.unmade, _,
        opened_of_opens hm hopens hhistory, hcaller⟩
      obtain ⟨frames, hperform⟩ := hm.step?_of_action hnext fun value heq => by
        subst heq
        exact hcall
      rw [hperform, Option.some.injEq] at hstep
      rw [← hstep] at hkept
      refine (perform_promises wrapped hcall hkept).resolve_left fun member => ?_
      obtain ⟨claims₁, f, hclaims₁, hclaim₁⟩ := World.claim_of_promise member
      exact hold hclaims₁ hclaim₁

/-- What a call keeps for its fiber is what the future ended with that it was issued for. -/
theorem Visits.issued (h : Visits (fun _ => True) script.start m)
    (hkept : (key, some (x, ending)) ∈ m.world.promises) :
    ∃ a b, Visits (fun _ => True) script.start a ∧ a.Issues b x ending ∧
      Leads (fun _ => True) b m := by
  suffices hboth : Visits (fun _ => True) script.start m ∧
      ∀ {key x ending}, (key, some (x, ending)) ∈ m.world.promises →
      ∃ a b, Visits (fun _ => True) script.start a ∧ a.Issues b x ending ∧
        Leads (fun _ => True) b m from hboth.2 hkept
  refine h.follow (P := fun m => Visits (fun _ => True) script.start m ∧
    ∀ {key x ending}, (key, some (x, ending)) ∈ m.world.promises →
      ∃ a b, Visits (fun _ => True) script.start a ∧ a.Issues b x ending ∧
        Leads (fun _ => True) b m)
    (fun action => ⟨⟨action, .refl⟩, fun member => ?_⟩) fun a b ha hfollows ⟨hvisits, hissued⟩ =>
      ⟨hvisits.leads hfollows.leads, fun {key x ending} member => ?_⟩
  · rw [Script.begin, World.promises, (World.drivers_start script).2] at member
    cases member
  · have hearlier : (key, some (x, ending)) ∈ a.world.promises →
        ∃ a' b', Visits (fun _ => True) script.start a' ∧
        a'.Issues b' x ending ∧ Leads (fun _ => True) b' b := fun hbefore => by
      obtain ⟨a', b', ha', hissues, hleads⟩ := hissued hbefore
      exact ⟨a', b', ha', hissues, hleads.trans hfollows.leads⟩
    cases hfollows with
    | steps hstep =>
      rcases ha.issues hstep member with hbefore | hissues
      · exact hearlier hbefore
      · exact ⟨a, b, hvisits, hissues, .refl⟩
    | stirs hstirs => exact hearlier (hstirs.promises ▸ member)
    | goesOn hdone action => exact hearlier ((Between.shows (m := a)).sameHosts.promises ▸ member)
    | closes hdone => exact hearlier ((Between.closes (m := a)).sameHosts.promises ▸ member)

end Machine

end Fibers
