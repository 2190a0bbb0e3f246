import Fibers.Machine.Reach
import Fibers.Proofs.Stirring

/-!
Sessions. A script runs its root actions one after the other, each to its end,
and then gives up its names. Between any two steps the host may make other calls
ready, let some wait, or move its clock. What holds at the start of every script and
is kept by every step and by the host holds whenever a script is looked at.
-/

namespace Fibers

open Asset (cloneOf looseOf shareOf postOf taskOf fiberOf unsuitedOf)
open Mark (enqueues starts finishes discards vanishes opens hosts awaits)

namespace Machine

/-- Nothing is left to do. -/
def Done (m : Machine) : Prop := m.running = [] ∧ m.root = []

/-- The first state leads to the second one in the course of a session, in which the host may
go on with its work between any two steps. -/
inductive Leads (allowed : Action → Prop) (m : Machine) : Machine → Prop
  | refl : Leads allowed m m
  | steps {a b : Machine} (h : Leads allowed m a) (hstep : a.step? = some b)
      (hallowed : ∀ action, a.nextAction? = some action → allowed action.core) :
      Leads allowed m b
  | stirs {a : Machine} {w : World} (h : Leads allowed m a) (hstirs : a.world.Stirs w) :
      Leads allowed m (a.withWorld w)
  | goesOn {a : Machine} (h : Leads allowed m a) (hdone : a.Done) (action : Action) :
      Leads allowed m (Script.begin (Script.showOutcome a) action)
  | closes {a : Machine} (h : Leads allowed m a) (hdone : a.Done) :
      Leads allowed m ⟨(Script.showOutcome a).close, [], [], .advance⟩

/-- The states that a session comes by that starts in some world. -/
def Visits (allowed : Action → Prop) (start : World) (m : Machine) : Prop :=
  ∃ action, Leads allowed (Script.begin start action) m

theorem Leads.trans {allowed : Action → Prop} {a b c : Machine} (first : Leads allowed a b)
    (second : Leads allowed b c) : Leads allowed a c := by
  induction second with
  | refl => exact first
  | steps _ hstep hallowed ih => exact ih.steps hstep hallowed
  | stirs _ hstirs ih => exact ih.stirs hstirs
  | goesOn _ hdone action ih => exact ih.goesOn hdone action
  | closes _ hdone ih => exact ih.closes hdone

/-- Whatever leads on under some restriction leads on under a weaker one. -/
theorem Leads.mono {allowed allowed' : Action → Prop} {m m' : Machine} (h : Leads allowed m m')
    (hmono : ∀ action, allowed action → allowed' action) : Leads allowed' m m' := by
  induction h with
  | refl => exact .refl
  | steps _ hstep hallowed ih =>
    exact ih.steps hstep fun action haction => hmono _ (hallowed action haction)
  | stirs _ hstirs ih => exact ih.stirs hstirs
  | goesOn _ hdone action ih => exact ih.goesOn hdone action
  | closes _ hdone ih => exact ih.closes hdone

theorem Visits.mono {allowed allowed' : Action → Prop} {start : World} {m : Machine}
    (h : Visits allowed start m) (hmono : ∀ action, allowed action → allowed' action) :
    Visits allowed' start m :=
  h.imp fun _ hleads => hleads.mono hmono

theorem Leads.of_reaches {m m' : Machine} (h : Reaches m m') : Leads (fun _ => True) m m' := by
  induction h with
  | refl m => exact .refl
  | step hstep _ ih => exact (Leads.refl.steps hstep fun _ _ => trivial).trans ih

/-- A script comes by whatever its actions settle to. -/
theorem visits_settle (start : World) (action : Action) (fuel : Nat) :
    Visits (fun _ => True) start ((Script.begin start action).settle fuel) :=
  ⟨action, .of_reaches (reaches_settle _ fuel)⟩

theorem Visits.leads {allowed : Action → Prop} {start : World} {m m' : Machine}
    (h : Visits allowed start m) (hleads : Leads allowed m m') : Visits allowed start m' :=
  h.imp fun _ hbefore => hbefore.trans hleads

end Machine

/-- One scheduler, and no tasks by name. -/
def Script.single : Script :=
  { schedulers := [.own .standard], tasks := .empty, counters := .empty, steps := [] }

/-- Two schedulers with standard pools. -/
def Script.pair : Script :=
  { schedulers := [.own .standard, .own .standard], tasks := .empty, counters := .empty
    steps := [] }

namespace World

variable {shown : HandleRef → Prop} {w : World} {out : List Asset}

/-! ### Beginnings -/

theorem worth_initial (tasks : Names (List Action)) (counters : Names Nat) (hoarded : Nat)
    (mappings : Nat → Mapping) (f : Asset → Nat) :
    (initial tasks counters hoarded mappings).worth f = 0 := rfl

theorem Sound.initial (shown : HandleRef → Prop) (tasks : Names (List Action))
    (counters : Names Nat) (hoarded : Nat) (mappings : Nat → Mapping) :
    (initial tasks counters hoarded mappings).Sound shown [] where
  balanced :=
    { clones := fun x => by
        rw [worth_initial]
        simp [World.initial, HandleTable.clones, HandleTable.get?, HandleTable.empty]
      shares := fun s => Nat.zero_le _
      tasks := fun s id => rfl
      fibers := fun s id => rfl
      posts := fun x => Nat.zero_le _
      opened := fun x => Nat.zero_le _
      numbered := fun s id => by
        have hlast : (World.initial tasks counters hoarded mappings).lastId s = 0 := rfl
        rw [hlast, if_neg (by omega)]
        rfl
      bodies := fun n => Nat.zero_le _
      stacked := fun label => Nat.zero_le _
      suited := rfl
      bounded := fun s config hconfig => by cases hconfig
      keys := List.Pairwise.nil
      issued := fun key hkey => by cases hkey }
  orderly :=
    { queued := fun s fiber resumption member => by cases member
      parked := fun x cell fiber owner hcell => by cases hcell
      named := fun fiber member => by cases member
      driven := fun position d hd => by cases hd }
  hidden := fun x hshown hhosts => by cases hhosts

theorem schedulersAssets_append (n : Nat) (first second : List Scheduler) :
    schedulersAssets n (first ++ second) =
      schedulersAssets n first ++ schedulersAssets (n + first.length) second := by
  induction first generalizing n with
  | nil => rfl
  | cons scheduler rest ih =>
    have hlength : n + 1 + rest.length = n + (rest.length + 1) := by omega
    simp only [List.cons_append, schedulersAssets, ih, List.length_cons, hlength, List.append_assoc]

/-- A scheduler is made for a position of its own. -/
def addScheduler (w : World) (config : PoolConfig) (owners : Nat) : World :=
  { w with
    schedulers := w.schedulers ++ [.new config owners]
    positions := w.positions ++ [⟨some ⟨w.schedulers.length⟩, none⟩] }

theorem scheduler?_addScheduler (w : World) (config : PoolConfig) (owners : Nat) (s : SchedulerId) :
    (w.addScheduler config owners).scheduler? s =
      if s = ⟨w.schedulers.length⟩ then some (.new config owners) else w.scheduler? s := by
  obtain ⟨i⟩ := s
  simp only [scheduler?, addScheduler, List.getElem?_append, SchedulerId.mk.injEq]
  split
  next hlt => rw [if_neg (by omega)]
  next hge =>
    split
    next heq => simp [heq]
    next hne => rw [List.getElem?_eq_none (by simp; omega), List.getElem?_eq_none (by omega)]

theorem scheduler?_length (w : World) : w.scheduler? ⟨w.schedulers.length⟩ = none :=
  List.getElem?_eq_none (Nat.le_refl _)

theorem worth_addScheduler (w : World) (config : PoolConfig) (owners : Nat) (f : Asset → Nat) :
    (w.addScheduler config owners).worth f = w.worth f + f (.share ⟨w.schedulers.length⟩) := by
  simp only [addScheduler, worth, schedulersAssets_append, schedulersAssets, Scheduler.new,
    Scheduler.assets, StackPool.empty, List.flatMap_nil, weigh_append, weigh_cons, weigh_nil,
      Position.assets,
    Option.toList_some, List.map_cons, List.map_nil]
  omega

theorem poolConfig_addScheduler {s : SchedulerId} {old : PoolConfig} (h : w.poolConfig s = some old)
    (config : PoolConfig) (owners : Nat) : (w.addScheduler config owners).poolConfig s =
    some old := by
  rw [poolConfig, scheduler?_addScheduler, if_neg, ← poolConfig, h]
  rintro rfl
  rw [poolConfig, scheduler?_length] at h
  cases h

/-- What suits the pools there are goes on to suit them. -/
theorem unsuitedOf_le (mappings : Nat → Mapping)
    {configs configs' : SchedulerId → Option PoolConfig}
    (h : ∀ s config, configs s = some config → configs' s = some config) (a : Asset) :
    unsuitedOf (Stack.suits mappings configs') a ≤ unsuitedOf (Stack.suits mappings configs) a := by
  cases a with
  | holds stack holder =>
    simp only [unsuitedOf]
    cases hsuits : stack.suits mappings configs holder with
    | false => split <;> simp
    | true =>
      have hsuits' : stack.suits mappings configs' holder = true := by
        cases holder with
        | none => exact hsuits
        | some s =>
          obtain ⟨hsource, config, hconfig, hyields⟩ := Stack.suits_some.1 hsuits
          exact Stack.suits_some.2 ⟨hsource, config, h s config hconfig, hyields⟩
      simp [hsuits']
  | loose | kept | share | post | claim | unstarted => exact Nat.le_refl _

theorem Balanced.addScheduler (h : w.Balanced out) (config : PoolConfig) (n : Nat) :
    (w.addScheduler config (n + 1)).Balanced out := by
  have hworth := w.worth_addScheduler config (n + 1)
  refine h.alter (fun x => ?_) (fun s => ?_) (fun f hf => ?_) (Nat.le_refl _)
    (funext fun s => ?_) (fun m => ?_) (fun label => ?_) ?_ (fun s other hpool hmax => ?_)
    h.keys h.issued rfl
  · rw [hworth]
    exact h.clones x
  · have := h.shares s
    rw [hworth]
    simp only [owners, scheduler?_addScheduler, shareOf] at this ⊢
    split
    next heq =>
      subst heq
      rw [scheduler?_length] at this
      simp only [Option.elim_none, Option.elim_some, Scheduler.new, if_true] at this ⊢
      omega
    next hne =>
      rw [if_neg (Ne.symm hne)]
      exact this
  · rw [hworth, hf.shares, Nat.add_zero]
  · simp only [lastId, scheduler?_addScheduler]
    split
    next heq =>
      subst heq
      rw [scheduler?_length]
      rfl
    next => rfl
  · rw [hworth]
    exact h.bodies m
  · rw [hworth]
    exact h.stacked label
  · have hconfigs : ∀ s old, w.poolConfig s = some old →
        (w.addScheduler config (n + 1)).poolConfig s = some old :=
      fun s old hold => poolConfig_addScheduler hold config (n + 1)
    have hle := unsuitedOf_le w.mappings hconfigs
    have := w.worth_le hle
    have := weigh_le hle out
    have := h.suited
    rw [hworth]
    change w.worth (unsuitedOf (Stack.suits w.mappings _)) + 0 + weigh
      (unsuitedOf (Stack.suits w.mappings _)) out = 0
    omega
  · rw [idleStacks, scheduler?_addScheduler]
    split
    next => exact Nat.zero_le _
    next hne =>
      rw [poolConfig, scheduler?_addScheduler, if_neg hne] at hpool
      exact h.bounded s other hpool hmax

/-- A scheduler that is made has no tasks, and the position it is made for owns it. -/
theorem Sound.addScheduler (h : w.Sound shown out) (config : PoolConfig) (n : Nat) :
    (w.addScheduler config (n + 1)).Sound shown out := by
  refine ⟨h.balanced.addScheduler config n, ⟨fun s fiber resumption member => ?_, h.orderly.parked,
    h.orderly.named, fun position d hd => ?_⟩, fun x hshown hhosts hshows => ?_⟩
  · have hold := h.orderly.queued s fiber resumption
    rw [queue_eq, scheduler?_addScheduler] at member
    split at member
    next => cases member
    next => exact hold (by rwa [queue_eq])
  · have hold := h.orderly.driven position d
    simp only [World.addScheduler, driverAt, List.getElem?_append] at hd hold
    split at hd
    next => exact hold hd
    next =>
      cases hplace : position - w.positions.length with
      | zero => simp [hplace] at hd
      | succ => simp [hplace] at hd
  · refine h.hidden x hshown hhosts ?_
    simpa only [Shows, worth_addScheduler, looseOf, Nat.add_zero] using hshows

/-- The scheduler of the thread gets a position more. -/
theorem Sound.share (h : w.Sound shown out) {position : Nat} {s : SchedulerId}
    (hs : w.schedulerAt position = some s) :
    World.Sound shown { w.own s with positions := w.positions ++ [⟨some s, none⟩] } out := by
  have howned : (w.own s).Sound shown ([.share s] ++ out) := h.gain (shift_own w hs)
  refine howned.transfer rfl (fun f _ => ?_) ⟨howned.orderly.queued, howned.orderly.parked,
    howned.orderly.named, fun other d hd => ?_⟩
  · simp only [worth, World.own, World.updateScheduler, weigh_append, weigh_cons, weigh_nil,
      Position.assets, Option.toList_some, List.map_cons, List.map_nil]
    omega
  · have hold := h.orderly.driven other d
    simp only [driverAt, List.getElem?_append] at hd hold
    split at hd
    next => exact hold hd
    next =>
      cases hplace : other - w.positions.length with
      | zero => simp [hplace] at hd
      | succ => simp [hplace] at hd

theorem schedulerAt_append {position : Nat} {s : SchedulerId} (h : w.schedulerAt position = some s)
    (place : Position) :
    ((w.positions ++ [place])[position]?).bind Position.scheduler = some s := by
  rw [schedulerAt, Option.bind_eq_some_iff] at h
  obtain ⟨old, hold, hs⟩ := h
  rw [List.getElem?_append_left (List.getElem?_eq_some_iff.1 hold).1, hold]
  exact hs

/-- Positions get their schedulers one after the other. -/
theorem Sound.addPositions (choices : List SchedulerChoice) {w : World}
    {shared : Option SchedulerId} (h : w.Sound shown [])
    (hshared : ∀ s, shared = some s → ∃ position, w.schedulerAt position = some s) :
    (w.addPositions shared choices).Sound shown [] := by
  induction choices generalizing w shared with
  | nil => exact h
  | cons choice rest ih =>
    have hlast : ∀ place : Position, (w.positions ++ [place])[w.positions.length]? = some place :=
      fun place => List.getElem?_concat_length ..
    rw [World.addPositions]
    cases choice with
    | own config =>
      refine ih (h.addScheduler config 0) fun s hs => ?_
      obtain ⟨position, hposition⟩ := hshared s hs
      exact ⟨position, schedulerAt_append hposition _⟩
    | shared =>
      cases shared with
      | some s =>
        obtain ⟨position, hposition⟩ := hshared s rfl
        refine ih (h.share hposition) fun t ht => ?_
        cases ht
        exact ⟨position, schedulerAt_append hposition _⟩
      | none =>
        refine ih (h.addScheduler .standard 1) fun t ht => ?_
        cases ht
        refine ⟨w.positions.length, ?_⟩
        simp only [schedulerAt, hlast, Option.bind_some]

/-- A script begins soundly. -/
theorem sound_start (script : Script) (shown : HandleRef → Prop) : script.start.Sound shown [] :=
  Sound.addPositions script.schedulers
    (Sound.initial shown script.tasks script.counters script.hoarded script.mappings)
    fun _ hs => by cases hs

/-- Positions bring schedulers, and nothing else. -/
theorem exists_addPositions (choices : List SchedulerChoice) (w : World)
    (shared : Option SchedulerId) : ∃ schedulers positions,
      w.addPositions shared choices = { w with schedulers, positions } := by
  induction choices generalizing w shared with
  | nil => exact ⟨w.schedulers, w.positions, rfl⟩
  | cons choice rest ih =>
    rw [World.addPositions]
    cases choice with
    | own => exact ih ..
    | shared => cases shared <;> exact ih ..

/-! ### Ends -/

/-- What a place gives up is held outside. -/
theorem Shift.giveUp {w w' : World} {out out' : List Asset} (hdrift : w.Drift w')
    (hfigures : w'.figures = w.figures)
    (hworth : ∀ f, w'.worth f + weigh f out' = w.worth f + weigh f out) : w.Shift out w' out' := by
  intro rest h
  refine ⟨h.transfer hfigures fun f _ => ?_, hdrift, fun x hx => ?_⟩
  · simp only [weigh_append]
    have := hworth f
    omega
  · simp only [Shows, weigh_append] at hx ⊢
    have := hworth (looseOf x)
    omega

/-- The names give up what they own. -/
theorem shift_close (w : World) : w.Shift [] w.close [] := by
  have hslots : w.Shift [] { w with slots := .empty } (loosen (w.slots.values.map .handle)) := by
    refine .giveUp (.of_same rfl rfl rfl rfl rfl rfl rfl rfl rfl) rfl fun f => ?_
    simp only [worth, Names.values, Names.empty, loosen, weigh_map, List.map_nil, weigh_nil]
    omega
  have hcoroutines : ∀ u : World, u.Shift [] { u with coroutines := .empty }
      (u.coroutines.values.flatMap Fiber.assets) := by
    intro u
    refine .giveUp { Drift.refl u with coroutines := fun fiber member => by cases member }
      rfl fun f => ?_
    simp only [worth, Names.values, Names.empty, weigh_flatMap, List.map_nil, weigh_nil]
    omega
  refine ((hslots.trans (shift_release _ _)).trans (hcoroutines _)).trans
    (shift_release_of _ (fun f hf => ?_) fun f => Nat.zero_le _)
  rw [loosen, weigh_map, weigh_flatMap, weigh_flatMap, weigh_nil, Nat.add_zero]
  refine weigh_congr _ fun fiber _ => ?_
  rw [fiber.weigh_assets hf, loosen, weigh_map]

end World

/-- A session starts with schedulers and their positions, and with nothing else. -/
theorem Script.exists_start (script : Script) : ∃ schedulers positions,
    script.start =
      { World.initial script.tasks script.counters script.hoarded script.mappings with
        schedulers, positions } :=
  World.exists_addPositions ..

theorem Script.start_current (script : Script) : script.start.current = none := by
  obtain ⟨_, _, hstart⟩ := script.exists_start
  rw [hstart]
  rfl

namespace Machine

variable {byHand : Prop} {shown : HandleRef → Prop} {allowed : Action → Prop} {m : Machine}

theorem Secures.begin {w : World} (h : w.Sound shown []) (hcurrent : w.current = none)
    (action : Action) : (Script.begin w action).Secures byHand shown where
  current := hcurrent
  nested := trivial
  accepts := by simp [Script.begin, World.Accepts, top, stackUnder, inFiber, Frame.isPlain]
  kept := h.recount fun f _ => rfl

/-- What is left after a root action is the world alone. -/
theorem Secures.done (h : m.Secures byHand shown) (hdone : m.Done) :
    m.world.Sound shown [] ∧ m.world.current = none ∧ m.control.IsCode := by
  obtain ⟨world, running, root, control⟩ := m
  obtain ⟨rfl, rfl⟩ := hdone
  have haccepts := h.accepts
  have hcode : control.IsCode := by
    cases control with
    | advance | raise | panicking => trivial
    | resumed => exact haccepts.2.elim
    | back => exact haccepts.1.elim
    | answer => exact haccepts.2.1.choose_spec.elim
  refine ⟨h.kept.recount fun f _ => ?_, h.current, hcode⟩
  simp only [assets, hcode.assets_eq]
  rfl

theorem Secures.showOutcome (h : m.Secures byHand shown) (hdone : m.Done) :
    (Script.showOutcome m).Sound shown [] ∧ (Script.showOutcome m).current = none := by
  obtain ⟨hworld, hcurrent, -⟩ := h.done hdone
  rw [Script.showOutcome]
  split
  next => exact ⟨hworld.gain (World.shift_emit _ _ _ []), hcurrent⟩
  next => exact ⟨hworld.gain (World.shift_emit _ _ _ []), hcurrent⟩
  next => exact ⟨hworld, hcurrent⟩

/-- The end of a session gives up its names. -/
theorem Secures.close (h : m.Secures byHand shown) (hdone : m.Done) :
    Secures byHand shown ⟨(Script.showOutcome m).close, [], [], .advance⟩ := by
  obtain ⟨hworld, hnone⟩ := h.showOutcome hdone
  have hclosed := World.shift_close (Script.showOutcome m) [] hworld.balanced
  exact
    { current := hclosed.drift.current.trans hnone
      nested := trivial
      accepts := by simp [World.Accepts, top, stackUnder, inFiber]
      kept := hworld.gain (World.shift_close _) }

/-- A session that is in order stays in order. -/
theorem Sound.leads {m m' : Machine} (h : m.Sound byHand) (hleads : Leads allowed m m')
    (hhand : ∀ name delivery slot, allowed (.transfer name delivery slot) → byHand) :
    m'.Sound byHand := by
  induction hleads with
  | refl => exact h
  | steps _ hstep hallowed ih => exact ih.moves hhand (step_moves hstep ih hallowed)
  | stirs _ hstirs ih => exact ih.stirs hstirs
  | goesOn _ hdone action ih =>
    obtain ⟨hworld, hnone⟩ := ih.showOutcome hdone
    exact .begin hworld hnone action
  | closes _ hdone ih => exact ih.close hdone

/-- Whatever a script comes by is sound. -/
theorem Visits.sound {script : Script} (h : Visits allowed script.start m)
    (hhand : ∀ name delivery slot, allowed (.transfer name delivery slot) → byHand) :
    m.Sound byHand := by
  obtain ⟨action, hleads⟩ := h
  have hbegun : (Script.begin script.start action).Sound byHand :=
    .begin (World.sound_start script _) script.start_current action
  exact hbegun.leads hleads hhand

end Machine

end Fibers
