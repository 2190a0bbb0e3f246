import Fibers.Proofs.Delivery
import Fibers.Proofs.Whereabouts
import Fibers.Text.Terminated

/-!
Resumptions over whole sessions. Every state of a session whose programs touch
fibers only through schedulers, handles and drivers keeps faith with its awaits,
so each await comes back with exactly what was accepted for its handle, and
once a scheduler is done nothing that was accepted waits for a fiber of its own.
-/

namespace Fibers

open Mark (opens)

namespace Action

/-- The actions that touch no fiber and no slot directly, as a test. -/
def isPublic : Action → Bool
  | .suspend .. | .newHandle .. | .park .. | .wake .. | .newCoroutine .. | .transfer ..
  | .coroutineInfo _ | .takeStack _ | .dropCoroutine _ => false
  | .foreign _ action => action.isPublic
  | _ => true

theorem isPublic_iff (action : Action) : action.isPublic = true ↔ action.IsPublic := by
  cases action
  case foreign position action => exact isPublic_iff action
  all_goals simp [isPublic, IsPublic]

instance (action : Action) : Decidable action.IsPublic := decidable_of_iff _ action.isPublic_iff

end Action

/-! ### Sessions begin with nothing awaited -/

/-- A scheduler that nothing was done with. -/
structure Scheduler.Unused (scheduler : Scheduler) : Prop where
  queue : scheduler.queue = []
  lastId : scheduler.lastId = 0
  counters : scheduler.counters = .zero

namespace World

theorem addPositions_unused (choices : List SchedulerChoice) (w : World)
    (shared : Option SchedulerId) (h : ∀ scheduler ∈ w.schedulers, scheduler.Unused) :
    ∀ scheduler ∈ (w.addPositions shared choices).schedulers, scheduler.Unused := by
  induction choices generalizing w shared with
  | nil => exact h
  | cons choice rest ih =>
    have hmade : ∀ config owners, ∀ scheduler ∈ w.schedulers ++ [Scheduler.new config owners],
        scheduler.Unused := by
      intro config owners scheduler member
      rcases List.mem_append.1 member with member | member
      · exact h scheduler member
      · exact List.mem_singleton.1 member ▸ ⟨rfl, rfl, rfl⟩
    rw [World.addPositions]
    cases choice with
    | own => exact ih _ _ (hmade _ _)
    | shared =>
      cases shared with
      | none => exact ih _ _ (hmade _ _)
      | some s =>
        refine ih _ _ fun scheduler member => ?_
        obtain ⟨i, hi⟩ := List.mem_iff_getElem?.1 member
        change (w.schedulers.modify s.index _)[i]? = some scheduler at hi
        rw [List.getElem?_modify] at hi
        cases hold : w.schedulers[i]? with
        | none => simp [hold] at hi
        | some old =>
          obtain ⟨hqueue, hlast, hcounters⟩ := h old (List.mem_of_getElem? hold)
          simp only [hold, Option.map_eq_map, Option.map_some, Option.some.injEq] at hi
          subst hi
          split <;> exact ⟨hqueue, hlast, hcounters⟩

theorem unused_start {script : Script} {s : SchedulerId} {scheduler : Scheduler}
    (hs : script.start.scheduler? s = some scheduler) : scheduler.Unused :=
  addPositions_unused script.schedulers
    (initial script.tasks script.counters script.hoarded script.mappings) none
    (fun _ member => by cases member) scheduler (List.mem_of_getElem? hs)

theorem queue_start (script : Script) (s : SchedulerId) : script.start.queue s = [] := by
  rw [queue_eq]
  cases hs : script.start.scheduler? s with
  | none => rfl
  | some scheduler => exact (unused_start hs).queue

theorem history_start (script : Script) : script.start.history = #[] := by
  obtain ⟨_, _, hstart⟩ := script.exists_start
  rw [hstart]
  rfl

theorem told_start {α : Type} (script : Script) (read : Mark → Option α) :
    script.start.told read = [] := by
  rw [told, history_start]
  rfl

theorem handles_start (script : Script) : script.start.handles = .empty := by
  obtain ⟨_, _, hstart⟩ := script.exists_start
  rw [hstart]
  rfl

theorem not_keepsFiber_start (script : Script) (fiber : Fiber) :
    ¬script.start.KeepsFiber fiber := by
  intro h
  cases h with
  | @parked x cell owner hcell hslot =>
    rw [handles_start] at hcell
    cases hcell
  | @queued s resumption member =>
    rw [queue_start] at member
    cases member

theorem tended_start (script : Script) : script.start.Tended := by
  have htold : ∀ {α : Type} (read : Mark → Option α), script.start.told read = [] := fun read => by
    rw [told, history_start]
    rfl
  have hnone : ∀ x, script.start.handles.get? x = none := fun x => by rw [handles_start]; rfl
  have hmade : ∀ {x cell}, script.start.handles.get? x ≠ some cell := fun {x cell} h => by
    rw [hnone] at h
    cases h
  constructor
  case once => intro x; rw [accepted, awaited, htold, htold]; exact ⟨Nat.zero_le _, List.prefix_rfl⟩
  case unmade => intro x hx; exact ⟨htold _, htold _⟩
  case pending => intro x cell hx; exact absurd hx hmade
  case woken => intro x cell resumption hx; exact absurd hx hmade
  case parked => intro x cell fiber owner hx; exact absurd hx hmade
  case queued => intro s fiber resumption member; rw [queue_start] at member; cases member

theorem length_opened (w : World) (x : HandleRef) : (w.opened x).length = w.tally (opens x) := by
  rw [opened, told, tally]
  induction w.history.toList with
  | nil => rfl
  | cons happening rest ih =>
    rw [List.filterMap_cons, weigh_cons, ← ih]
    cases happening with
    | entry | event => simp [Happening.read, Happening.weight]
    | mark told =>
      cases told <;> simp [Happening.read, Happening.weight, Mark.opened?, opens]
      split <;> simp_all [Nat.add_comm]

theorem noProgress_close (w : World) : w.NoProgress w.close := by
  have hslots : w.NoProgress { w with slots := .empty } := .of_same rfl rfl rfl rfl
  have hcoroutines : ∀ u : World, u.NoProgress { u with coroutines := .empty } :=
    fun _ => .of_same rfl rfl rfl rfl
  exact (hslots.trans (noProgress_release _ _)).trans
    ((hcoroutines _).trans (noProgress_release _ _))

end World

namespace Machine

variable {allowed : Action → Prop} {byHand : Prop} {m m' : Machine} {script : Script}
  {x : HandleRef} {s : SchedulerId}

/-- The world after a root action, or after the last one. -/
inductive Between (m : Machine) : World → Prop
  | shows : Between m (Script.showOutcome m)
  | closes : Between m (Script.showOutcome m).close

theorem Between.noProgress {w : World} (h : m.Between w) : m.world.NoProgress w := by
  have hshown : m.world.NoProgress (Script.showOutcome m) := by
    rw [Script.showOutcome]
    split
    · exact .emit ..
    · exact .emit ..
    · exact .refl _
  cases h with
  | shows => exact hshown
  | closes => exact hshown.trans (World.noProgress_close _)

theorem Between.noArrivals {w : World} (h : m.Between w) : m.world.NoArrivals w :=
  h.noProgress.toNoArrivals

/-- A root action begins in a world where no await is under way. -/
theorem faithful_of_world {w : World} {root : List Frame} (htended : w.Tended)
    (hunused : ¬w.Misused) (hroot : ∀ frame ∈ root, ¬frame.IsAwait)
    (hfibers : ∀ fiber y plan, w.KeepsFiber fiber →
      .registering y plan ∈ fiber.frames → w.IsOpen y) :
    Faithful ⟨w, [], root, .advance⟩ where
  tended := htended
  unused := hunused
  resumed r heq := by cases heq
  back fiber y heq := by cases heq
  registers y plan hy := by
    obtain ⟨stack, hstacked, member⟩ := hy
    cases hstacked with
    | top => exact (hroot _ member trivial).elim
    | back hback => cases hback
    | kept hkeeps => exact hfibers _ y plan hkeeps member

/-- What is left after a root action. -/
theorem Faithful.world {w : World} {root : List Frame} (h : m.Faithful)
    (hnoArrivals : m.world.NoArrivals w) (hroot : ∀ frame ∈ root, ¬frame.IsAwait)
    (hm' : Sound False ⟨w, [], root, .advance⟩) : Faithful ⟨w, [], root, .advance⟩ := by
  refine faithful_of_world (hnoArrivals.tended h.tended) (mt hnoArrivals.misused.1 h.unused) hroot
    fun fiber y plan hkeeps member =>
      hnoArrivals.isOpen (h.registers y plan ⟨_, .kept (hnoArrivals.keepsFiber hkeeps), member⟩) ?_
  exact hm'.clones_of_registering ⟨_, .kept hkeeps, member⟩

/-- What holds where root actions begin and is kept by every step, by what the host does, and
by what comes between root actions, holds throughout a session. -/
theorem Visits.induct {P : Machine → Prop} (h : Visits allowed script.start m)
    (hbegin : ∀ action, P (Script.begin script.start action))
    (hmoves : ∀ a b, Visits allowed script.start a → Visits allowed script.start b →
      a.step? = some b → Moves allowed a b → P a → P b)
    (hstirs : ∀ a w, Visits allowed script.start a → Visits allowed script.start (a.withWorld w) →
      a.world.Stirs w → P a → P (a.withWorld w))
    (hbetween : ∀ a w root, Visits allowed script.start a → P a → a.Done → a.Between w →
      (∀ frame ∈ root, frame.IsCode) → Visits allowed script.start ⟨w, [], root, .advance⟩ →
      P ⟨w, [], root, .advance⟩) : P m := by
  obtain ⟨action, hleads⟩ := h
  have hbefore : Visits allowed script.start (Script.begin script.start action) := ⟨action, .refl⟩
  induction hleads with
  | refl => exact hbegin action
  | @steps a b hleads hstep hallowed ih =>
    have ha := hbefore.leads hleads
    have hsound : a.Sound True := ha.sound fun _ _ _ _ => trivial
    exact hmoves a b ha (hbefore.leads (hleads.steps hstep hallowed)) hstep
      (step_moves hstep hsound hallowed) ih
  | stirs hleads hhost ih =>
    exact hstirs _ _ (hbefore.leads hleads) (hbefore.leads (hleads.stirs hhost)) hhost ih
  | @goesOn a hleads hdone action ih =>
    exact hbetween a _ _ (hbefore.leads hleads) ih hdone .shows
      (fun frame member => List.mem_singleton.1 member ▸ trivial)
      (hbefore.leads (hleads.goesOn hdone action))
  | @closes a hleads hdone ih =>
    exact hbetween a _ _ (hbefore.leads hleads) ih hdone .closes (fun _ member => by cases member)
      (hbefore.leads (hleads.closes hdone))

/-- The host changes no stack of frames. -/
theorem Holds.of_stirs {w : World} {frame : Frame} (h : (m.withWorld w).Holds frame)
    (hstirs : m.world.Stirs w) : m.Holds frame := by
  obtain ⟨frames, hstacked, member⟩ := h
  refine ⟨frames, ?_, member⟩
  cases hstacked with
  | top => exact .top
  | back hback => exact .back hback
  | kept hkeeps => exact .kept (hstirs.noProgress.keepsFiber hkeeps)

theorem Faithful.stirs {w : World} (h : m.Faithful) (hstirs : m.world.Stirs w) :
    (m.withWorld w).Faithful := by
  have hnoArrivals := hstirs.noProgress.toNoArrivals
  have hopen : ∀ x, m.world.IsOpen x → w.IsOpen x := fun x hx => by
    rw [hstirs.rest]
    exact hx
  refine ⟨⟨hnoArrivals.tended h.tended, mt hnoArrivals.misused.1 h.unused,
    fun resumption hresumed => ?_, fun fiber x hback => ?_⟩, fun x plan hheld =>
      hopen x (h.registers x plan (hheld.of_stirs hstirs))⟩
  · obtain ⟨x, plan, frames, htop, hspent, howes⟩ := h.resumed resumption hresumed
    exact ⟨x, plan, frames, htop, hnoArrivals.isSpent hspent, hnoArrivals.owes howes⟩
  · exact (h.back fiber x hback).imp_right (hopen x)

/-- Programs that touch fibers only through schedulers, handles and drivers make no
transfers by hand. -/
theorem Visits.public (h : Visits Action.IsPublic script.start m) : m.Sound False :=
  h.sound fun _ _ _ => id

/-- A session of such programs keeps faith. -/
theorem Visits.faithful (h : Visits Action.IsPublic script.start m) : m.Faithful := by
  refine h.induct (fun action => ?_)
    (fun a b ha hb _ hmoves ih => ih.turns ha.public hb.public (ha.public.turns hmoves))
    (fun a w _ _ hstirs ih => ih.stirs hstirs) fun a w root _ ih _ hbetween hroot hm' =>
      ih.world hbetween.noArrivals (fun frame member => (hroot frame member).not_isAwait) hm'.public
  refine faithful_of_world (World.tended_start script) ?_
    (fun frame member => List.mem_singleton.1 member ▸ id)
    fun fiber y plan hkeeps => absurd hkeeps (World.not_keepsFiber_start script fiber)
  rintro ⟨id, member⟩
  rw [World.history_start] at member
  cases member

/-- Steps that perform only actions of a kind. -/
theorem Leads.settle (m : Machine) (fuel : Nat)
    (h : ∀ i < fuel, ∀ action ∈ (m.settle i).nextAction?, allowed action.core) :
    Leads allowed m (m.settle fuel) := by
  induction fuel with
  | zero => exact .refl
  | succ fuel ih =>
    have hbefore := ih fun i hi => h i (Nat.lt_succ_of_lt hi)
    rw [← settle_add]
    cases hstep : (m.settle fuel).step? with
    | none => rwa [settle_of_atRest hstep]
    | some next =>
      have hnext : (m.settle fuel).settle 1 = next := by simp only [Machine.settle, hstep]
      rw [hnext]
      exact hbefore.steps hstep fun action haction => h fuel (Nat.lt_succ_self _) action haction

/-! ### What a step tells -/

/-- A reading of marks that sees only which awaits open, what is accepted, and which awaits
come to their resumptions. -/
structure Notes {α : Type} (read : Mark → Option α) : Prop where
  heeds : Mark.Heeds read
  appended : ∀ s entry, read (.appended s entry) = none
  dispatched : ∀ s entry, read (.dispatched s entry) = none

/-- A reading of marks that sees only which awaits open and what is accepted. -/
structure Minds {α : Type} (read : Mark → Option α) : Prop extends Notes read where
  awaited : ∀ x resumption, read (.awaited x resumption) = none

theorem minds_accepted? (x : HandleRef) : Minds (Mark.accepted? x) :=
  ⟨⟨Mark.heeds_accepted? x, fun _ _ => rfl, fun _ _ => rfl⟩, fun _ _ => rfl⟩

theorem minds_opened? (x : HandleRef) : Minds (Mark.opened? x) :=
  ⟨⟨Mark.heeds_opened? x, fun _ _ => rfl, fun _ _ => rfl⟩, fun _ _ => rfl⟩

section Told

variable {α : Type} {read : Mark → Option α}

theorem told_suspendAwait (m : Machine) (x : HandleRef) (plan : AwaitPlan)
    (read : Mark → Option α) : (m.suspendAwait x plan).world.told read = m.world.told read := by
  rw [suspendAwait, push_eq, suspend]
  split <;> rfl

theorem told_enter (m : Machine) (fiber : Fiber) (resumption : Resumption)
    (hread : Mark.Heeds read) : (m.enter fiber resumption).world.told read = m.world.told read := by
  rw [enter.eq_def]
  split
  · split <;> rfl
  · rfl
  · exact World.told_release _ _ hread

theorem enter_control (m : Machine) (fiber : Fiber) (resumption : Resumption)
    (result : Except SchedulerFault Nat) : (m.enter fiber resumption).control ≠ .answer result := by
  rw [enter.eq_def]
  split
  · split <;> simp [occupy]
  · simp [occupy]
  · simp [withControl]

theorem told_opens {w w' : World} {plan : AwaitPlan} (h : w.Opens x plan w')
    (hread : Mark.Heeds read) : w'.told read = w.told read ++ (read (.opened x plan)).toList := by
  obtain ⟨current, clones, hbefore, rfl, hafter⟩ := h
  rename_i u
  have hmade : (openAwait u current plan clones).2.told read =
      u.told read ++ (read (.opened u.handles.next plan)).toList := World.told_mark ..
  rw [hafter.told hread, hmade, hbefore.told hread]

theorem told_parks {w : World} {cell : HandleCell} {fiber : Fiber} {owner : Owner}
    {result : Option (Fiber × Resumption) × World} (h : w.Parks x cell fiber owner result)
    (hread : Mark.Heeds read) : result.2.told read = w.told read := by
  cases h with
  | absorbed hslot u hu =>
    rw [World.told_release _ _ hread, World.told_setSlot]
    rcases hu with rfl | rfl
    · rfl
    · exact World.told_tell ..
  | met resumption hslot => rw [World.told_release _ _ hread, World.told_setSlot]
  | refused hslot => rw [World.told_release _ _ hread, World.told_tell]

theorem told_next {w w' : World} {entry : Runnable} (h : w.next? s = some (entry, w'))
    (hread : read (.dispatched s entry) = none) : w'.told read = w.told read := by
  obtain ⟨queue, hqueue, rfl⟩ := World.next?_eq h
  rw [World.told_mark, hread]
  exact List.append_nil _

/-- A delivery accepts its resumption, or answers that it is refused. -/
theorem Delivers.told {cell : HandleCell} {resumption : Resumption}
    (h : Delivers m s x cell resumption m') (hread : Notes read) :
    ((∃ fault, m'.control = .answer (.error fault)) ∧ m'.world.told read = m.world.told read) ∨
      (∀ fault, m'.control ≠ .answer (.error fault)) ∧
        m'.world.told read = m.world.told read ++ (read (.accepted x resumption)).toList := by
  have hmet : ∀ slot,
      (((m.world.setSlot x slot).mark (.accepted x resumption)).release [.handle x]).told read =
      m.world.told read ++ (read (.accepted x resumption)).toList := fun slot => by
    rw [World.told_release _ _ hread.heeds, World.told_mark, World.told_setSlot]
  cases h with
  | stored event hslot hquiet =>
    refine .inr ⟨by simp, ?_⟩
    rw [goTo_world, World.told_tell, hmet]
  | queued fiber event hslot hcurrent hquiet =>
    refine .inr ⟨by simp, ?_⟩
    rw [goTo_world, World.told_append _ _ _ (hread.appended _ _), World.told_tell, hmet]
  | dispatched fiber event hslot hcurrent hquiet =>
    refine .inr ⟨fun fault => enter_control _ _ _ _, ?_⟩
    rw [told_enter _ _ _ hread.heeds, goTo_world, World.told_mark, World.told_tell, hmet,
      hread.dispatched]
    exact List.append_nil _
  | refused fault event hslot hother hquiet =>
    refine .inl ⟨⟨fault, rfl⟩, ?_⟩
    rw [goTo_world, World.told_tell, World.told_release _ _ hread.heeds]

/-- Who makes a handle: an await that registers, a call that strands its fiber, or a
fiber that waits for a driver and suspends at once. -/
inductive Opening (allowed : Action → Prop) (m m' : Machine) (x : HandleRef) (plan : AwaitPlan)
    (w : World) : Prop
  | plain (hplan : plan.kind.isHosted = false)
  | stranded (hcaller : plan.kind.caller?.isSome) (hnone : m.world.claims = none)
  | hosted {d : DriverId} {running : Running} {below : List Running} {frames : List Frame}
      (huses : m.Uses allowed d plan.kind) (hdriver : plan.kind.driver? = some d)
      (hlisted : plan.kind = .all d → m'.world.waiters d = m.world.waiters d ++ [x])
      (hrunning : m.running = running :: below) (hhandles : m'.world.handles = w.handles)
      (hcontrol : m'.control =
        .back (running.leave (.suspended (.awaiting x plan :: frames) running.first))
          (.suspended x))

/-- A step opens an await, or accepts a resumption, or brings an await to its resumption, or
does nothing of that, as long as what is done by hand does nothing of that. -/
theorem Turns.tells (h : Turns allowed m m') (hm : m.Sound byHand) (hread : Notes read)
    (hhands : ∀ action, allowed action → ¬action.IsPublic →
      (∀ x, ¬m.world.Shows m.assets x → World.Avoids x m.world m'.world) →
        m'.world.told read = m.world.told read) :
    m'.world.told read = m.world.told read ∨
      (∃ x plan w, m.world.Opens x plan w ∧ Opening allowed m m' x plan w ∧
        m'.world.told read = m.world.told read ++ (read (.opened x plan)).toList) ∨
      (∃ frames w s x cell resumption, m.world.NoArrivals w ∧ w.handles.get? x = some cell ∧
        DeliversTo m frames w s x resumption ∧
          Delivers (m.goTo frames w .advance) s x cell resumption m' ∧
        (∀ fault, m'.control ≠ .answer (.error fault)) ∧
        m'.world.told read = m.world.told read ++ (read (.accepted x resumption)).toList) ∨
      ∃ x plan frames resumption, m.top = .awaiting x plan :: frames ∧
        m.control = .resumed resumption ∧
        m'.control.IsCode ∧
          m'.world.told read = m.world.told read ++ (read (.awaited x resumption)).toList := by
  cases h with
  | noArrivals hframes hcontrol hnoArrivals => exact .inl (hnoArrivals.told hread.heeds)
  | enqueues hallowed hposition hs shown hframes =>
    refine .inl ?_
    rw [goTo_world, World.told_emit, World.told_enqueue hs _ (hread.appended _ _)]
  | registers register hplan hopens hframes =>
    exact .inr (.inl ⟨_, _, _, hopens, .plain hplan, told_opens hopens hread.heeds⟩)
  | strands panic hcaller hnone hopens hframes =>
    exact .inr (.inl ⟨_, _, _, hopens, .stranded hcaller hnone, told_opens hopens hread.heeds⟩)
  | @issues d x plan w frames huses hdriver hplan hlisted hcurrent hopens hframes =>
    obtain ⟨running, below, hrunning⟩ := hm.inside hcurrent
    refine .inr (.inl
        ⟨x, plan, w, hopens, ?_, (told_suspendAwait ..).trans (told_opens hopens hread.heeds)⟩)
    rw [suspendAwait_eq hrunning]
    exact .hosted huses hdriver hlisted hrunning rfl rfl
  | registered htop hcontrol hnoArrivals =>
    exact .inl ((told_suspendAwait ..).trans (hnoArrivals.told hread.heeds))
  | @delivers frames w s x cell resumption _ hframes hnoArrivals hcell hs hfrom hdelivers =>
    rw [← hnoArrivals.told hread.heeds]
    exact (hdelivers.told hread).imp And.right fun haccepted =>
      .inr (.inl ⟨frames, w, s, x, cell, resumption, hnoArrivals.toNoArrivals, hcell, hfrom,
          hdelivers, haccepted⟩)
  | concludes htop hresumed hcontrol hnoArrivals =>
    refine .inr (.inr (.inr ⟨_, _, _, _, htop, hresumed, by rwa [goTo_control], ?_⟩))
    rw [goTo_world, hnoArrivals.told hread.heeds, World.told_mark]
  | @receives s fiber exit frames w htop hcontrol hs hreceives =>
    have hkept : ∀ {u : World} {g : Counters → Counters}, m.world.Reckons s g [] u →
        m.world.NoArrivals u :=
      fun hreckons => hreckons.noArrivals hm.kept
    refine .inl ?_
    cases hreceives with
    | ended hexit hreckons =>
      exact (hreckons.noArrivals (hm.kept_of_back hcontrol)).told hread.heeds
    | parked hcell hbefore hsame hparks =>
      exact (told_parks hparks hread.heeds).trans ((hkept hbefore).told hread.heeds)
    | handedBack hcell hbefore hsame hparks =>
      rw [goTo_world, World.told_append _ _ _ (hread.appended _ _)]
      exact (told_parks hparks hread.heeds).trans ((hkept hbefore).told hread.heeds)
  | @drains s ran max frames _ htop hcontrol hdrains =>
    have hheld := hm.kept_of_top htop
    refine .inl ?_
    cases hdrains with
    | stops hstops => rfl
    | @fails id body w w₁ w₂ hmore hnext hbefore hafter =>
      have hbegun := ((hheld.next hnext).drift_gain hbefore).noArrivals
      have hunstarted := World.Sound.unstarted ((hheld.next hnext).gain hbefore)
      have hfailed := hafter.noArrivals hunstarted
      rw [goTo_world, hfailed.told hread.heeds, World.told_mark, hbegun.told hread.heeds,
        hread.heeds (.unstarted s id) trivial]
      exact (List.append_nil _).trans (told_next hnext (hread.dispatched _ _))
    | starts hmore hnext hbefore hid hhome hstate =>
      have hbegun := ((hheld.next hnext).drift_gain hbefore).noArrivals
      rw [told_enter _ _ _ hread.heeds]
      exact (hbegun.told hread.heeds).trans (told_next hnext (hread.dispatched _ _))
    | wakes hmore hnext =>
      rw [told_enter _ _ _ hread.heeds]
      exact told_next hnext (hread.dispatched _ _)
  | @leaves running below exit hrunning htop hcontrol =>
    refine .inl ?_
    rw [leave, World.told_mark, World.told_release _ _ hread.heeds,
      hread.heeds (.ended _ _) trivial]
    exact List.append_nil _
  | hand hallowed hhand hspares hhomes hended hkept => exact .inl (hhands _ hallowed hhand hkept)

/-- A step opens an await, or accepts a resumption, or does neither, as long as what
is done by hand does neither. -/
theorem Turns.told (h : Turns allowed m m') (hm : m.Sound byHand) (hread : Minds read)
    (hhands : ∀ action, allowed action → ¬action.IsPublic →
      (∀ x, ¬m.world.Shows m.assets x → World.Avoids x m.world m'.world) →
        m'.world.told read = m.world.told read) :
    m'.world.told read = m.world.told read ∨
      (∃ x plan w, m.world.Opens x plan w ∧ Opening allowed m m' x plan w ∧
        m'.world.told read = m.world.told read ++ (read (.opened x plan)).toList) ∨
      ∃ frames w s x cell resumption, m.world.NoArrivals w ∧ w.handles.get? x = some cell ∧
        DeliversTo m frames w s x resumption ∧
          Delivers (m.goTo frames w .advance) s x cell resumption m' ∧
        (∀ fault, m'.control ≠ .answer (.error fault)) ∧
        m'.world.told read = m.world.told read ++ (read (.accepted x resumption)).toList := by
  rcases h.tells hm hread.toNotes hhands with
    hsame | hopens | haccepts | ⟨x, plan, frames, resumption, -, -, -, htold⟩
  · exact .inl hsame
  · exact .inr (.inl hopens)
  · exact .inr (.inr haccepts)
  · rw [hread.awaited] at htold
    exact .inl (htold.trans (List.append_nil _))

end Told

/-- A step accepts a resumption only where it does not answer that it was refused. -/
theorem Turns.accepts (h : Turns Action.IsPublic m m') (hm : m.Sound False) (y : HandleRef) :
    m'.world.accepted y = m.world.accepted y ∨
      ∃ resumption, m'.world.accepted y = m.world.accepted y ++ [resumption] ∧
        ∀ fault, m'.control ≠ .answer (.error fault) := by
  rcases h.told hm (minds_accepted? y) (fun _ hpublic hhand _ => absurd hpublic hhand) with
    hsame | ⟨x, plan, w, -, -, hopened⟩ | ⟨-, -, -, x, -, resumption, -, -, -, -,
      hcontrol, haccepted⟩
  · exact .inl hsame
  · exact .inl (hopened.trans (List.append_nil _))
  · rw [Mark.accepted?] at haccepted
    split at haccepted
    · exact .inr ⟨resumption, haccepted, hcontrol⟩
    · exact .inl (haccepted.trans (List.append_nil _))

/-! ### Awaits and their handles -/

variable {frames : List Frame} {w : World} {plan : AwaitPlan}

/-- Every await stands on the handle that it made. -/
def Titled (m : Machine) : Prop :=
  ∀ x plan, m.Holds (.registering x plan) ∨ m.Holds (.awaiting x plan) → m.world.opened x = [plan]

theorem opened_nil (hm : m.Sound byHand) (hx : m.world.handles.get? x = none) :
    m.world.opened x = [] := by
  refine List.length_eq_zero_iff.1 ?_
  have hopened := hm.kept.balanced.opened x
  rw [if_neg (by simpa [HandleTable.get?] using hx)] at hopened
  rw [World.length_opened]
  omega

/-- A handle is opened by one await. -/
theorem Turns.opened (h : Turns allowed m m') (hm : m.Sound byHand)
    (hx : m.world.opened x = [plan]) : m'.world.opened x = [plan] := by
  rcases h.told hm (minds_opened? x) fun _ _ _ havoids =>
      (havoids _ hm.kept.balanced.not_shows_next).opened x with
    hsame | ⟨y, plan', w, hopens, -, hopened⟩ | ⟨-, -, -, y, -, resumption, -, -, -, -, -, hopened⟩
  · exact hsame.trans hx
  · have hyx : y ≠ x := by
      rintro rfl
      rw [opened_nil hm hopens.unmade] at hx
      cases hx
    refine hopened.trans ?_
    rw [Mark.opened?, if_neg hyx]
    exact (List.append_nil _).trans hx
  · exact (hopened.trans (List.append_nil _)).trans hx

/-- An await that just opens is the first one of its handle. -/
theorem opened_of_opens (hm : m.Sound byHand) (hopens : m.world.Opens x plan w)
    (hhistory : w.history = m'.world.history) : m'.world.opened x = [plan] := by
  rw [World.opened, World.told, ← hhistory, ← World.told,
    told_opens hopens (Mark.heeds_opened? x), Mark.opened?,
    if_pos rfl, ← World.opened, opened_nil hm hopens.unmade]
  rfl

theorem Titled.turns (h : m.Titled) (hm : m.Sound False) (hm' : m'.Sound False)
    (hturns : Turns Action.IsPublic m m') : m'.Titled := by
  rintro x plan (hheld | hheld)
  · rcases hturns.holds hm hm' (by trivial) hheld with
      hbefore | ⟨y, plan', w, hopens, -, hhistory, ⟨heq, -⟩ | ⟨heq, -⟩⟩ | ⟨y, plan', heq, -⟩
    · exact hturns.opened hm (h x plan (.inl hbefore))
    · cases heq
      exact opened_of_opens hm hopens hhistory
    · cases heq
    · cases heq
  · rcases hturns.holds hm hm' (by trivial) hheld with
      hbefore | ⟨y, plan', w, hopens, -, hhistory, ⟨heq, -⟩ | ⟨heq, -⟩⟩ | ⟨y, plan',
        heq, hbefore, -⟩
    · exact hturns.opened hm (h x plan (.inr hbefore))
    · cases heq
    · cases heq
      exact opened_of_opens hm hopens hhistory
    · cases heq
      exact hturns.opened hm (h x plan (.inl hbefore))

end Machine

/-- What an await fails with, and what it gives up before: the error that was delivered, or
one that names the wanted type if the value was of another one. -/
inductive AwaitPlan.FailsWith (plan : AwaitPlan) : Resumption → Failure → List Debris → Prop
  | error (failure : Failure) : FailsWith plan (.error failure) failure []
  | mistyped {payload : Payload} (htype : payload.type ≠ plan.expects) :
      FailsWith plan (.value payload) ⟨.scheduler (.unexpectedValue plan.expects.name), []⟩
        payload.debris

/-- What an await returns to the code below it, and what is shown of that. A value that only
says that something is over is shown as such, and a handle as it is before it is kept or
released. To the foreign side an await returns a pointer, or null and the last error. -/
inductive AwaitPlan.Returns (plan : AwaitPlan) (w : World) : Resumption → World → Control → Prop
  | value {value : Scalar} (htype : value.type = plan.expects)
      (hsleep : ∀ d milliseconds, plan.kind ≠ .sleep d milliseconds)
      (hall : ∀ d, plan.kind ≠ .all d)
      (hword : plan.kind = .foreign → ∀ word, value ≠ .pointer word) :
      Returns plan w (.value (.scalar value)) (w.emit "got" value.datum) .advance
  | slept {value : Scalar} {d : DriverId} {milliseconds : Nat} (htype : value.type = plan.expects)
      (hkind : plan.kind = .sleep d milliseconds) :
      Returns plan w (.value (.scalar value)) (w.emit "got" (.text "slept")) .advance
  | settled {value : Scalar} {d : DriverId} (htype : value.type = plan.expects)
      (hkind : plan.kind = .all d) :
      Returns plan w (.value (.scalar value)) (w.emit "got" (.text "settled")) .advance
  | kept {x : HandleRef} {name : String} {u : World} (htype : .handle = plan.expects)
      (hkeep : plan.keepIn = some name) (hstored : u.slots.get? name = some x)
      (hnoArrivals : World.NoArrivals { w with slots := w.slots.insert name x } u) :
      Returns plan w (.value (.handle x)) (u.emit "got" (.text (w.describe x))) .advance
  | released {x : HandleRef} (htype : .handle = plan.expects) (hkeep : plan.keepIn = none) :
      Returns plan w (.value (.handle x))
        ((w.release [.handle x]).emit "got" (.text (w.describe x))) .advance
  | pointer {word : Nat} (htype : .pointer = plan.expects) (hkind : plan.kind = .foreign)
      (hword : word ≠ 0) : Returns plan w (.value (.scalar (.pointer word)))
        ((w.mark (.returned "await" none)).emit "got" (.record [("value", .nat word)])) .advance
  | null (htype : .pointer = plan.expects) (hkind : plan.kind = .foreign) :
      Returns plan w (.value (.scalar (.pointer 0))) ((w.mark (.returned "await" none)).emit "got"
        (.record [("value", .int 0), ("last_error", .ofOption .text w.lastError)])) .advance
  | failed {resumption : Resumption} {failure : Failure} {lost : List Debris} {text : String}
      (hfails : plan.FailsWith resumption failure lost) (hkind : plan.kind = .foreign)
      (htext : Text.Spaced failure.oneLine text) :
      Returns plan w resumption
        (({ w.release lost with lastError := some text }.mark
          (.returned "await" (some failure))).emit "got"
          (.record [("value", .int 0), ("last_error", .text text)])) .advance
  | raised {resumption : Resumption} {failure : Failure} {lost : List Debris}
      (hfails : plan.FailsWith resumption failure lost) (hkind : plan.kind ≠ .foreign)
      (herror : plan.onError = .raise) :
      Returns plan w resumption (w.release lost) (.raise failure)
  | caught {resumption : Resumption} {failure : Failure} {lost : List Debris}
      (hfails : plan.FailsWith resumption failure lost) (hkind : plan.kind ≠ .foreign)
      (herror : plan.onError = .catches) :
      Returns plan w resumption ((w.release lost).emit "caught" failure.datum) .advance
  | explained {resumption : Resumption} {failure : Failure} {lost : List Debris} {context : String}
      (hfails : plan.FailsWith resumption failure lost) (hkind : plan.kind ≠ .foreign)
      (herror : plan.onError = .explain context) :
      Returns plan w resumption (w.release lost)
        (.raise ⟨failure.cause, context :: failure.contexts⟩)

theorem World.release_nil (w : World) : w.release [] = w := by
  rw [World.release, HandleTable.release]
  rfl

theorem World.slots_release (w : World) (work : List Debris) :
    (w.release work).slots = w.slots := by
  rw [World.release_eq]

/-- What an await returns is no news to other awaits. -/
theorem AwaitPlan.Returns.awaited {plan : AwaitPlan} {w w' : World} {resumption : Resumption}
    {control : Control} (h : plan.Returns w resumption w' control) (x : HandleRef) :
    w'.awaited x = w.awaited x := by
  have hreleased : ∀ lost, (w.release lost).awaited x = w.awaited x :=
    fun lost => (World.noArrivals_release w lost).awaited x
  have hmarked : ∀ (u : World) failure, (u.mark (.returned "await" failure)).awaited x =
      u.awaited x := fun u failure =>
    (World.awaited_mark ..).trans (List.append_nil _)
  cases h with
  | value | slept | settled => exact World.told_emit ..
  | kept htype hkeep hstored hnoArrivals => exact (World.told_emit ..).trans (hnoArrivals.awaited x)
  | released | caught => exact (World.told_emit ..).trans (hreleased _)
  | pointer | null => exact (World.told_emit ..).trans (hmarked ..)
  | failed => exact (World.told_emit ..).trans ((hmarked ..).trans (hreleased _))
  | raised | explained => exact hreleased _

namespace Machine

variable {allowed : Action → Prop} {m m' : Machine} {script : Script} {x : HandleRef}
  {s : SchedulerId}

/-- An await that fails returns so, once what it gives up is released. -/
theorem returns_failAwait (m : Machine) {plan : AwaitPlan} {resumption : Resumption}
    {failure : Failure} {lost : List Debris} (hfails : plan.FailsWith resumption failure lost) :
    ∃ w control, plan.Returns m.world resumption w control ∧
      (m.withWorld (m.world.release lost)).failAwait plan failure = m.goTo m.top w control := by
  by_cases hkind : plan.kind = .foreign
  · refine ⟨_, _, .failed hfails hkind (Text.spaced_withoutNul failure.oneLine), ?_⟩
    simp only [failAwait, hkind, withWorld_eq, goTo_world, goTo_top, goTo_goTo,
      goTo_emit, goTo_advance]
    rfl
  · rw [failAwait]
    split
    next heq => exact absurd heq hkind
    next herror _ =>
      exact ⟨_, _, .raised hfails hkind herror, by rw [withWorld_eq, goTo_withControl]⟩
    next herror _ =>
      exact ⟨_, _, .caught hfails hkind herror, by rw [withWorld_eq, goTo_emit, goTo_advance]⟩
    next context herror _ =>
      exact ⟨_, _, .explained hfails hkind herror, by rw [withWorld_eq, goTo_withControl]; rfl⟩

/-- A value of the wanted type is shown. -/
theorem returns_scalar (m : Machine) {plan : AwaitPlan} {value : Scalar}
    (htype : value.type = plan.expects) :
    ∃ w, plan.Returns m.world (.value (.scalar value)) w .advance ∧
      m.yieldAwait plan (.scalar value) = m.goTo m.top w .advance := by
  have hshown : ∀ shown, (m.emit "got" shown).advance = m.goTo m.top (m.world.emit "got" shown)
      .advance := fun shown => by
    rw [← goTo_advance, ← goTo_emit, goTo_self]
  rw [yieldAwait.eq_def]
  simp only
  split
  next word hkind =>
    by_cases hword : word = 0
    · subst hword
      exact ⟨_, .null htype
        hkind, by simp only [yieldPointer, withWorld_eq, goTo_emit, goTo_advance]; rfl⟩
    · exact ⟨_, .pointer htype hkind hword, by
        simp only [yieldPointer, withWorld_eq, goTo_emit, goTo_advance, if_neg hword]; rfl⟩
  next hkind => exact ⟨_, .slept htype hkind, hshown _⟩
  next hkind => exact ⟨_, .settled htype hkind, hshown _⟩
  next hsleep hall hword =>
    exact ⟨_, .value htype hsleep hall fun hkind word heq => hword word hkind heq, hshown _⟩

/-- A handle that an await returns is kept or released. -/
theorem returns_handle (w : World) {plan : AwaitPlan} (htype : .handle = plan.expects)
    (x : HandleRef) :
    plan.Returns w (.value (.handle x))
      ((w.storeOrRelease plan.keepIn x).emit "got" (.text (w.describe x))) .advance := by
  cases hkeep : plan.keepIn with
  | none => exact .released htype hkeep
  | some name =>
    have hinserted : (w.slots.insert name x).get? name = some x := Names.get?_insert_self ..
    simp only [World.storeOrRelease, World.store]
    split
    · exact .kept htype hkeep hinserted (.refl _)
    · exact .kept htype hkeep (by rwa [World.slots_release]) (World.noArrivals_release _ _)

/-- An await comes back with what its plan says of the resumption. -/
theorem returns_concludeAwait (m : Machine) (x : HandleRef) (plan : AwaitPlan)
    (resumption : Resumption) :
    ∃ w control, plan.Returns (m.world.mark (.awaited x resumption)) resumption w control ∧
      m.concludeAwait x plan resumption = m.goTo m.top w control := by
  have hfailed : ∀ {failure lost}, plan.FailsWith resumption failure lost → ∃ w control,
      plan.Returns (m.world.mark (.awaited x resumption)) resumption w control ∧
        (m.withWorld ((m.world.mark (.awaited x resumption)).release lost)).failAwait plan failure =
        m.goTo m.top w control :=
    fun hfails => by
      obtain ⟨w, control, hreturns, heq⟩ :=
        returns_failAwait (m.withWorld (m.world.mark (.awaited x resumption))) hfails
      refine ⟨w, control, hreturns, heq.trans ?_⟩
      rw [withWorld_eq, goTo_goTo, goTo_top]
  cases resumption with
  | error failure =>
    have hfails := hfailed (.error failure)
    rwa [World.release_nil] at hfails
  | value payload =>
    simp only [concludeAwait, withWorld_withWorld, withWorld_world]
    split
    next htype =>
      cases payload with
      | handle y =>
        exact ⟨_, _,
          returns_handle _ htype y, by
          simp only [yieldAwait, withWorld_eq, goTo_world, goTo_goTo, goTo_top, goTo_emit,
            goTo_advance]⟩
      | scalar value =>
        obtain ⟨w, hreturns, heq⟩ :=
          returns_scalar (m.withWorld (m.world.mark (.awaited x (.value (.scalar value))))) htype
        exact ⟨w, .advance, hreturns, heq.trans (by rw [withWorld_eq, goTo_goTo, goTo_top])⟩
    next htype => exact hfailed (.mistyped htype)

/-! ### Where suspended tasks wait -/

/-- Control is outside of every fiber, and none comes back. -/
def AtRoot (m : Machine) : Prop := m.running = [] ∧ ∀ fiber exit, m.control ≠ .back fiber exit

/-- What a place says about the machine in which a task is seen there. -/
def Keeps (m : Machine) (task : TaskId) : Place → Prop
  | .fresh s | .woken s => m.world.queue s ≠ []
  | .entered => ¬m.AtRoot
  | .parked x owner => ∃ cell fiber, m.world.handles.get? x = some cell ∧
      cell.slot = .parked fiber owner ∧ fiber.home = some task.scheduler ∧ fiber.id = task.id
  | .named | .finished | .discarded => True

theorem keeps_of_places {task : TaskId} {place : Place} (member : place ∈ m.places task) :
    m.Keeps task place := by
  have hseen := mem_places.1 member
  simp only [sightings, World.sightings, List.mem_append, mem_seenIn, List.mem_flatMap] at hseen
  rcases hseen with (((((⟨i, scheduler, hi, hseen⟩ | ⟨i, cell, hi, hseen⟩) | ⟨fiber, -, hseen⟩) |
    ⟨happening, -, hseen⟩) | ⟨running, hrunning, hseen⟩) | hseen)
  · obtain ⟨entry, hentry, hseen⟩ := List.mem_flatMap.1 hseen
    rw [Nat.zero_add] at hseen
    have hqueue : m.world.queue ⟨i⟩ ≠ [] := by
      rw [World.queue, World.scheduler?, hi]
      exact List.ne_nil_of_mem hentry
    cases entry with
    | fresh id body =>
      cases List.mem_singleton.1 hseen
      exact hqueue
    | woken fiber resumption =>
      obtain ⟨-, -, rfl⟩ := mem_sight.1 hseen
      exact hqueue
  · rw [HandleCell.sightings] at hseen
    split at hseen
    next fiber holder hparked =>
      obtain ⟨hhome, hid, rfl⟩ := mem_sight.1 hseen
      rw [Nat.zero_add]
      exact ⟨cell, fiber, hi, hparked, hhome, hid⟩
    next => cases hseen
  · obtain ⟨-, -, rfl⟩ := mem_sight.1 hseen
    trivial
  · cases happening with
    | entry | event => cases hseen
    | mark told =>
      cases told with
      | ended | discarded =>
        obtain ⟨-, -, rfl⟩ := mem_sight.1 hseen
        trivial
      | unstarted | vanished =>
        cases List.mem_singleton.1 hseen
        trivial
      | _ => cases hseen
  · obtain ⟨-, -, rfl⟩ := mem_sight.1 hseen
    exact fun hroot => List.ne_nil_of_mem hrunning hroot.1
  · rw [Control.sightings.eq_def] at hseen
    split at hseen
    next fiber x hback =>
      obtain ⟨-, -, rfl⟩ := mem_sight.1 hseen
      exact fun hroot => hroot.2 _ _ hback
    next => cases hseen

/-- Outside of every fiber, a task whose queue is empty is parked on behalf of its
scheduler, or has come to its end. -/
theorem Sound.places_at_root (h : m.Sound byHand) (hroot : m.AtRoot) {task : TaskId}
    (hqueue : m.world.queue task.scheduler = []) (henqueued : m.Enqueued task) :
    m.places task = [.finished] ∨ m.places task = [.discarded] ∨
      ∃ x, m.places task = [.parked x (.scheduler task.scheduler)] := by
  obtain ⟨place, member⟩ : ∃ place, place ∈ m.places task := by
    refine List.exists_mem_of_length_pos ?_
    rw [h.length_places]
    exact (m.enqueued_iff task).1 henqueued
  have hplaces := h.places_eq_of_mem member
  have hbefits := h.befits member
  have hkeeps := keeps_of_places member
  cases place with
  | fresh | woken =>
    cases hbefits
    exact absurd hqueue hkeeps
  | entered => exact absurd hroot hkeeps
  | parked x owner =>
    cases hbefits
    exact .inr (.inr ⟨x, hplaces⟩)
  | named => exact hbefits.elim
  | finished => exact .inl hplaces
  | discarded => exact .inr (.inl hplaces)

/-! ### Deliveries -/

/-- A delivery accepts its resumption, or answers with an error and accepts nothing. -/
theorem deliver_accepts (m : Machine) (s : SchedulerId) {cell : HandleCell}
    (hcell : m.world.handles.get? x = some cell) (resumption : Resumption) :
    ((∃ fault, (m.deliver s x resumption).control = .answer (.error fault)) ∧
        ∀ y, (m.deliver s x resumption).world.accepted y = m.world.accepted y) ∨
      (∀ fault, (m.deliver s x resumption).control ≠ .answer (.error fault)) ∧
        ∀ y, (m.deliver s x resumption).world.accepted y =
          m.world.accepted y ++ if x = y then [resumption] else [] := by
  have hdelivers := delivers m s hcell resumption
  generalize m.deliver s x resumption = m' at hdelivers
  have htold := fun y => hdelivers.told (minds_accepted? y).toNotes
  by_cases hrefused : ∃ fault, m'.control = .answer (.error fault)
  · obtain ⟨fault, hfault⟩ := hrefused
    exact .inl ⟨⟨fault, hfault⟩,
      fun y => ((htold y).resolve_right fun haccepted => haccepted.1 fault hfault).2⟩
  · refine .inr ⟨fun fault hfault => hrefused ⟨fault, hfault⟩, fun y => ?_⟩
    refine ((htold y).resolve_left fun hnot => hrefused hnot.1).2.trans ?_
    rw [Mark.accepted?]
    split <;> rfl

/-! ### Whole sessions -/

/-- Outside of every await, only fibers that rest have frames of awaits. -/
theorem kept_of_holds {w : World} {root : List Frame} {frame : Frame} (hframe : frame.IsAwait)
    (hroot : ∀ frame ∈ root, ¬frame.IsAwait) (h : Holds ⟨w, [], root, .advance⟩ frame) :
    ∃ fiber, w.KeepsFiber fiber ∧ frame ∈ fiber.frames := by
  obtain ⟨stack, hstacked, member⟩ := h
  cases hstacked with
  | top => exact absurd hframe (hroot _ member)
  | back hback => cases hback
  | kept hkeeps => exact ⟨_, hkeeps, member⟩

theorem Visits.titled (h : Visits Action.IsPublic script.start m) : m.Titled := by
  refine h.induct (P := Titled) (fun action => ?_)
    (fun a b ha hb _ hmoves ih => ih.turns ha.public hb.public (ha.public.turns hmoves))
    (fun a w _ _ hstirs ih x plan hheld => ?_) fun a w root _ ih _ hbetween hroot _ => ?_
  · have hnone : ∀ frame : Frame, frame.IsAwait → ¬Holds (Script.begin script.start action) frame :=
      fun frame hframe hheld => by
        obtain ⟨fiber, hkeeps, -⟩ :=
          kept_of_holds hframe (fun frame member => List.mem_singleton.1 member ▸ id) hheld
        exact World.not_keepsFiber_start script fiber hkeeps
    rintro x plan (hheld | hheld)
    · exact absurd hheld (hnone _ trivial)
    · exact absurd hheld (hnone _ trivial)
  · exact (hstirs.noProgress.told (Mark.heeds_opened? x)).trans
      (ih x plan (hheld.imp (Holds.of_stirs · hstirs) (Holds.of_stirs · hstirs)))
  · intro x plan hheld
    refine (hbetween.noArrivals.told (Mark.heeds_opened? x)).trans
      (ih x plan (hheld.imp (fun hheld => ?_) fun hheld => ?_))
    all_goals
      obtain ⟨fiber, hkeeps, member⟩ :=
        kept_of_holds (by trivial) (fun frame member => (hroot frame member).not_isAwait) hheld
      exact ⟨_, .kept (hbetween.noArrivals.keepsFiber hkeeps), member⟩

/-- What steps an await that is resumed. -/
theorem step_of_resumed (hm : m.Sound byHand) {plan : AwaitPlan} {frames : List Frame}
    {resumption : Resumption} (htop : m.top = .awaiting x plan :: frames)
    (hresumed : m.control = .resumed resumption) (hnone : m.world.awaited x = []) :
    ∃ w control, m.step? = some (m.goTo frames w control) ∧
      plan.Returns (m.world.mark (.awaited x resumption)) resumption w control ∧
        w.awaited x = [resumption] := by
  obtain ⟨w, control, hreturns, heq⟩ :=
    returns_concludeAwait (m.goTo frames m.world m.control) x plan resumption
  refine ⟨w, control, ?_, hreturns, ?_⟩
  · rw [hm.step?_of_top htop, hresumed]
    rw [hresumed, goTo_goTo, goTo_top] at heq
    exact congrArg some heq
  · rw [hreturns.awaited, World.awaited_mark, Mark.awaited?, if_pos rfl]
    exact congrArg (· ++ [resumption]) hnone

/-- In a session whose programs touch fibers only through schedulers, handles and
drivers, no fiber suspends on a used handle, and what is accepted for a handle is at
most one resumption, which the await that made the handle comes to at most once. A
fiber that is resumed is in such an await, no other one waits for the same handle, and
the await returns what it makes of that one resumption. Once the queue of a scheduler is empty, no
task of it waits for a handle with a resumption that was accepted. -/
theorem awaits_return_what_was_accepted (h : Visits Action.IsPublic script.start m) :
    ¬m.world.Misused ∧
      (∀ x, (m.world.accepted x).length ≤ 1 ∧ m.world.awaited x <+: m.world.accepted x) ∧
      (∀ (n : Machine) s x cell resumption, n.world.handles.get? x = some cell →
        n.deliver s x resumption = m →
        ((∃ fault, m.control = .answer (.error fault)) ∧
            ∀ y, m.world.accepted y = n.world.accepted y) ∨
          (∀ fault, m.control ≠ .answer (.error fault)) ∧
            ∀ y, m.world.accepted y = n.world.accepted y ++ if x = y then [resumption] else []) ∧
      (∀ m' x, m.step? = some m' → (∀ action, m.nextAction? = some action → action.core.IsPublic) →
        m'.world.accepted x = m.world.accepted x ∨
          ∃ resumption, m'.world.accepted x = m.world.accepted x ++ [resumption] ∧
            ∀ fault, m'.control ≠ .answer (.error fault)) ∧
      (∀ resumption, m.control = .resumed resumption →
        ∃ x plan frames w control, m.top = .awaiting x plan :: frames ∧ m.world.opened x = [plan] ∧
          (∀ fiber, m.world.KeepsFiber fiber → ¬fiber.AwaitsOn x) ∧
          m.world.accepted x = [resumption] ∧ m.world.awaited x = [] ∧
          m.step? = some (m.goTo frames w control) ∧ w.awaited x = [resumption] ∧
          plan.Returns (m.world.mark (.awaited x resumption)) resumption w control) ∧
      ∀ s id, m.AtRoot → m.world.queue s = [] → m.Enqueued ⟨s, id⟩ →
        m.places ⟨s, id⟩ = [.finished] ∨ m.places ⟨s, id⟩ = [.discarded] ∨
          ∃ x cell fiber, m.places ⟨s, id⟩ = [.parked x (.scheduler s)] ∧
            m.world.handles.get? x = some cell ∧
            cell.slot = .parked fiber (.scheduler s) ∧ fiber.AwaitsOn x ∧
              m.world.accepted x = [] := by
  have hfaithful := h.faithful
  have hsound := h.public
  refine ⟨hfaithful.unused, hfaithful.tended.once, ?_, fun m' x hstep hallowed => ?_,
    fun resumption hresumed => ?_, fun s id hroot hqueue henqueued => ?_⟩
  · rintro n s x cell resumption hcell rfl
    exact deliver_accepts n s hcell resumption
  · have hturns := hsound.turns (step_moves hstep hsound hallowed)
    exact hturns.accepts hsound x
  · obtain ⟨x, plan, frames, htop, -, howes⟩ := hfaithful.resumed resumption hresumed
    obtain ⟨w, control, hstep, hreturns, hawaited⟩ :=
      step_of_resumed hsound htop hresumed howes.awaited
    have hopened := h.titled x plan (.inr ⟨_, .top, htop ▸ List.mem_cons_self ..⟩)
    exact ⟨x, plan, frames, w, control, htop, hopened, fun fiber hkeeps => hsound.not_awaits_of_top
      htop hkeeps, howes.accepted, howes.awaited, hstep, hawaited, hreturns⟩
  · refine (hsound.places_at_root hroot hqueue henqueued).imp_right (Or.imp_right ?_)
    rintro ⟨x, hplaces⟩
    obtain ⟨cell, fiber, hcell, hslot, -⟩ := keeps_of_places (hplaces ▸ List.mem_singleton.2 rfl)
    obtain ⟨hunmet, hawaits⟩ := hfaithful.tended.parked hcell hslot
    exact ⟨x, cell, fiber, hplaces, hcell, hslot, hawaits, hunmet.accepted⟩

theorem visits_waiting (steps : Nat)
    (h : ∀ i < steps, ∀ action ∈ (waiting i).nextAction?, action.core.IsPublic) :
    Visits Action.IsPublic Script.single.start (waiting steps) :=
  ⟨waitAndResume, Leads.settle _ steps h⟩

theorem waiting_await_returns_what_was_accepted :
    (∀ i < 12, ∀ action ∈ (waiting i).nextAction?, action.core.IsPublic) ∧
      (waiting 12).control = .resumed .unit ∧
      ∃ x plan frames w control, (waiting 12).top = .awaiting x plan :: frames ∧
        (waiting 12).world.accepted x = [.unit] ∧
        (waiting 12).step? = some ((waiting 12).goTo frames w control) ∧
          plan.Returns ((waiting 12).world.mark (.awaited x .unit)) .unit w control := by
  have hpublic : ∀ i < 12, ∀ action ∈ (waiting i).nextAction?, action.core.IsPublic := by
    decide +kernel
  have hresumed : (waiting 12).control = .resumed .unit := by with_unfolding_all rfl
  obtain ⟨-, -, -, -, hreturns, -⟩ := awaits_return_what_was_accepted (visits_waiting 12 hpublic)
  obtain ⟨x, plan, frames, w, control, htop, -, -, haccepted, -, hstep, -, hreturned⟩ :=
    hreturns .unit hresumed
  exact ⟨hpublic, hresumed, x, plan, frames, w, control, htop, haccepted, hstep, hreturned⟩

end Machine

end Fibers
