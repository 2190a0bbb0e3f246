import Fibers.Proofs.Assets
import Fibers.Proofs.Fates
import Fibers.Proofs.Resumptions
import Fibers.Proofs.Settling
import Fibers.Proofs.TwinSteps

/-!
Twin scripts: how a pair of runs starts, and what it is like between root actions.
-/

namespace Fibers

open List (Forall₂)

variable {B : Bond} {D : Backdrop} {κ : Ties} {w : World}

/-! ### Code that both runs share -/

mutual

/-- An action is its own twin where all that it names is shared. -/
theorem Action.Twin.refl : ∀ {action : Action}, B.All action.resources → Action.Twin B action action
  | .enqueue position body, h => by
    have hbody := Code.Twin.refl h.right
    have htwin := Action.Twin.enqueue h.left.head hbody .none
    rwa [List.append_nil] at htwin
  | .await type slot register onError keepIn, h =>
    have hnames : B.All (Resource.slots slot ++ Resource.slots keepIn) := h.left
    .await hnames.left hnames.right (Code.Twin.refl h.right)
  | .again times body, h => .again (Code.Twin.refl h.right)
  | .countdown counter body, h => .countdown h.left.head (Code.Twin.refl h.right)
  | .scope body catches, h => .scope (Code.Twin.refl h.right)
  | .newCoroutine coroutine id stackSize body, h =>
    .newCoroutine h.left.head (Code.Twin.refl h.right)
  | .foreign position action, h => .foreign h.left.head (Action.Twin.refl h.right)
  | .foreignAwait slot register, h =>
    .foreignAwait h.left.head h.left.tail.head h.left.tail.tail.head (Code.Twin.refl h.right)
  | .log _, h | .guard _, h | .enqueueNamed .., h | .run .., h | .resume .., h | .handle _, h
  | .clone .., h | .drop _, h
  | .state, h | .dropScheduler _, h | .fail _, h | .panic _, h | .suspend .., h | .newHandle .., h
  | .park .., h | .wake .., h
  | .transfer .., h | .coroutineInfo _, h | .takeStack _, h | .dropCoroutine _, h | .newDriver _, h
  | .drive _, h
  | .driverState _, h | .inFlight _, h | .sleep .., h | .call .., h | .blocking .., h
  | .awaitAll .., h | .signal .., h
  | .unknown _, h | .foreignRun .., h | .pending _, h | .foreignResume .., h | .foreignError .., h
  | .directResume .., h
  | .handleText _, h | .destroyHandle .., h | .destroyScheduler _, h | .lastError, h => .plain rfl h

theorem Code.Twin.refl : ∀ {code : List Action}, B.All (Action.codeResources code) →
    Code.Twin B code code
  | [], _ => .nil
  | _ :: _, h => .cons (Action.Twin.refl h.left) (Code.Twin.refl h.right)

end

/-! ### Between root actions -/

/-- A world between two root actions. -/
structure World.Rests (w : World) : Prop where
  sound : w.Sound (fun _ => True) []
  current : w.current = none

theorem World.Rests.sound_begin (h : w.Rests) (action : Action) :
    (Script.begin w action).Sound True :=
  .begin h.sound h.current action

/-- A root action that comes to its end leaves the world at rest. -/
theorem World.Rests.runStep (h : w.Rests) {fuel : Nat} {action : Action}
    (hdone : ((Script.begin w action).settle fuel).Done) :
    (Script.runStep fuel w action).Rests := by
  have hsound :=
    (h.sound_begin action).leads (Machine.Leads.of_reaches (Machine.reaches_settle _ fuel))
      fun _ _ _ _ => trivial
  obtain ⟨hworld, hcurrent⟩ := hsound.showOutcome hdone
  exact ⟨hworld, hcurrent⟩

theorem World.Rests.currentId (h : w.Rests) : w.currentId = none := by
  rw [World.currentId, h.current]; rfl

theorem Machine.Alike.showOutcome {m m' : Machine} (h : m.Alike B D κ m') :
    (Script.showOutcome m).Twin B D κ (Script.showOutcome m') := by
  have hcontrol := h.control
  rw [Script.showOutcome, Script.showOutcome]
  generalize m.control = control at hcontrol
  generalize m'.control = control' at hcontrol
  cases hcontrol with
  | raise | panicking => exact h.world.emit ..
  | advance | resumed | back | answer => exact h.world

/-! ### Names that are given up -/

namespace Names

variable {α β : Type} {R : α → β → Prop}

/-- Two ordered lists of entries with the same names list related values. The induction is on
the first one; the least name of either list is the least one of the other. -/
theorem rel_entries {entries : List (String × α)} {entries' : List (String × β)}
    (hordered : entries.Pairwise fun first second => first.1 < second.1)
    (hordered' : entries'.Pairwise fun first second => first.1 < second.1)
    (h : ∀ name, Option.Rel R (lookup name entries) (lookup name entries')) :
    Forall₂ R (entries.map Prod.snd) (entries'.map Prod.snd) := by
  induction entries generalizing entries' with
  | nil =>
    cases entries' with
    | nil => exact .nil
    | cons entry rest =>
      have hfound := h entry.1
      rw [lookup, lookup, if_pos rfl] at hfound
      cases hfound
  | cons entry rest ih =>
    obtain ⟨key, value⟩ := entry
    obtain ⟨hfirst, hrest⟩ := List.pairwise_cons.1 hordered
    have hfound := h key
    rw [lookup, if_pos rfl] at hfound
    cases entries' with
    | nil => cases hfound
    | cons entry' rest' =>
      obtain ⟨key', value'⟩ := entry'
      obtain ⟨hfirst', hrest'⟩ := List.pairwise_cons.1 hordered'
      -- A name below all others of one list would be missing there.
      have hnotlt : ¬key < key' := fun hlt => by
        have hnone : lookup key ((key', value') :: rest') = none :=
          lookup_eq_none fun entry member => by
          rcases List.mem_cons.1 member with rfl | member
          · exact hlt
          · exact String.lt_trans hlt (hfirst' entry member)
        rw [hnone] at hfound
        cases hfound
      have hnotgt : ¬key' < key := fun hgt => by
        have hfound' := h key'
        have hnone : lookup key' ((key, value) :: rest) = none :=
          lookup_eq_none fun entry member => by
          rcases List.mem_cons.1 member with rfl | member
          · exact hgt
          · exact String.lt_trans hgt (hfirst entry member)
        rw [hnone, lookup, if_pos rfl] at hfound'
        cases hfound'
      obtain rfl : key = key' :=
        String.le_antisymm (String.not_lt.1 hnotgt) (String.not_lt.1 hnotlt)
      rw [lookup, if_pos rfl] at hfound
      refine .cons ?_ (ih hrest hrest' fun name => ?_)
      · cases hfound with
        | some hvalue => exact hvalue
      · by_cases heq : key = name
        · subst heq
          rw [lookup_eq_none hfirst, lookup_eq_none hfirst']
          exact .none
        · have hother := h name
          rwa [lookup, lookup, if_neg heq, if_neg heq] at hother

theorem rel_values {names : Names α} {names' : Names β}
    (h : ∀ name, Option.Rel R (names.get? name) (names'.get? name)) :
    Forall₂ R names.values names'.values := rel_entries names.ordered names'.ordered h

end Names

/-- The names give up what they own in both runs. -/
theorem World.Twin.close {w' : World} (h : w.Twin B D κ w') (hslots : ∀ name, B.mine (.slot name))
    (hcoroutines : ∀ name, B.mine (.coroutine name)) : w.close.Twin B D κ w'.close := by
  have hhandles := forall₂_handles (Names.rel_values fun name => h.like.slots (hslots name))
  have hslotless : World.Twin B D κ { w with slots := .empty } { w' with slots := .empty } :=
    { h with
      like := { h.like with slots := fun _ => .none }
      spares := { h.spares with
        slots := fun name hname => absurd hname (h.apart.slots (hslots name)) } }
  have hreleased := hslotless.release hhandles
  have hfibers :=
    List.rel_flatMap (Names.rel_values fun name => hreleased.like.coroutines (hcoroutines name))
    fun {_ _} hfiber => hfiber.debris
  have hnameless : World.Twin B D κ
      { World.release { w with slots := .empty } (w.slots.values.map .handle) with
        coroutines := .empty }
      { World.release { w' with slots := .empty } (w'.slots.values.map .handle) with
        coroutines := .empty } :=
    { hreleased with
      like := { hreleased.like with coroutines := fun _ => .none }
      spares := { hreleased.spares with
        coroutines := fun name hname => absurd hname (h.apart.coroutines (hcoroutines name)) } }
  exact hnameless.release hfibers

/-! ### Starts -/

namespace Script

variable {script script' : Script}

/-- Every root action comes to its end. -/
def Ends (fuel : Nat) (w : World) : List Action → Prop
  | [] => True
  | action :: rest => ((begin w action).settle fuel).Done ∧ Ends fuel (runStep fuel w action) rest

/-- Nothing is named at the start but tasks and counters. -/
theorem start_names (script : Script) :
    script.start.slots = .empty ∧ script.start.tasks = script.tasks := by
  obtain ⟨_, _, hstart⟩ := script.exists_start
  rw [hstart]
  exact ⟨rfl, rfl⟩

/-- Whether so many bytes can be mapped does not depend on when they are asked for. -/
def SizesDecide (script : Script) : Prop := ∀ n n', script.mappings n = script.mappings n'

theorem start_mappings (script : Script) : script.start.mappings = script.mappings := by
  obtain ⟨_, _, hstart⟩ := script.exists_start
  rw [hstart]
  rfl

/-- The schedulers do not depend on the tasks. -/
theorem start_retask (hschedulers : script'.schedulers = script.schedulers)
    (hcounters : script'.counters = script.counters) (hhoarded : script'.hoarded = script.hoarded)
    (hmappings : script'.mappings = script.mappings) :
    script'.start = { script.start with tasks := script'.tasks } := by
  have hkept :
      ∀ (choices : List SchedulerChoice) (w : World) (shared : Option SchedulerId) (tasks : Names
      (List Action)), World.addPositions { w with tasks } shared choices =
      { w.addPositions shared choices with tasks } := by
    intro choices
    induction choices with
    | nil => exact fun _ _ _ => rfl
    | cons choice rest ih =>
      intro w shared tasks
      have hone : World.addPosition { w with tasks } shared choice =
          ((w.addPosition shared choice).1, { (w.addPosition shared choice).2 with tasks }) := by
        cases choice with
        | own => rfl
        | shared => cases shared <;> rfl
      rw [World.addPositions, World.addPositions, hone]
      exact ih (w.addPosition shared choice).2 (w.addPosition shared choice).1 tasks
  rw [Script.start, Script.start, hschedulers, hcounters, hhoarded, hmappings]
  exact hkept script.schedulers
    (World.initial script.tasks script.counters script.hoarded script.mappings) none script'.tasks

/-- Two runs start alike where they have the same schedulers and twins of tasks. -/
theorem start_like (hschedulers : script'.schedulers = script.schedulers)
    (hcounters : script'.counters = script.counters) (hhoarded : script'.hoarded = script.hoarded)
    (hmappings : script'.mappings = script.mappings) (hsizes : script.SizesDecide)
    (howned : ∀ {n s}, B.mine (.position n) → script.start.schedulerAt n = some s → B.own s)
    (htasks : ∀ {name}, B.mine (.task name) →
      ∃ insideFaulty, Body.Twin B insideFaulty ((script.tasks.get? name).getD [])
        ((script'.tasks.get? name).getD [])) :
    script.start.Like B ⟨[], [], []⟩ script'.start := by
  rw [start_retask hschedulers hcounters hhoarded hmappings]
  exact {
    handles := {
      length := by rw [World.handles_start]; rfl
      nodup := List.nodup_nil
      cells := fun hx => by cases hx
      alone := fun _ => ⟨rfl, fun _ hx => by cases hx⟩ }
    slots := fun _ => by
      rw [script.start_names.1]
      exact .none
    coroutines := fun _ => by
      rw [World.coroutines_start]
      exact .none
    counters := fun _ => rfl
    hoarded := rfl
    mapping := fun n n' => by
      change script.start.mappings n = script.start.mappings n'
      rw [script.start_mappings]
      exact hsizes n n'
    tasks := fun hname => by
      rw [script.start_names.2]
      exact htasks hname
    positions := fun _ => rfl
    owned := howned
    schedulers := fun {s} _ => by
      change Option.Rel _ (script.start.scheduler? s) (script.start.scheduler? s)
      cases hs : script.start.scheduler? s with
      | none => exact .none
      | some scheduler =>
        obtain ⟨hqueue, -, hcounters⟩ := World.unused_start hs
        refine .some ⟨?_, rfl, rfl, rfl, fun _ => rfl, ?_⟩
        · rw [hqueue]
          exact .nil
        · rw [hcounters]
          exact .zero
    drivers := fun _ => by
      rw [(World.drivers_start script).1]
      exact .nil
    driverAt := fun _ _ => rfl
    semaphores := fun _ => rfl
    agenda := fun _ => by
      rw [(World.drivers_start script).2]
      exact .none
    callsMade := fun _ => rfl
    lastError := fun _ => rfl
    current := rfl }

theorem rests_start (script : Script) : script.start.Rests :=
  ⟨World.sound_start script _, script.start_current⟩

end Script

end Fibers
