import Fibers.Proofs.Surroundings

/-!
Programs of the foreign side. Their tasks await, resume and enqueue by code and cannot
fail, so each step does one of a few things, which are listed here with the frames that it
leaves and with the handles that the foreign side keeps.
-/

namespace Fibers

open Asset (cloneOf shareOf)

mutual

/-- The actions of the foreign side that pass handles on and never give one up; code that
they bring is foreign as well. -/
def Action.isForeign : Action → Bool
  | .log _ | .foreignRun .. | .pending _ | .foreignResume .. | .foreignError .. | .handleText _
  | .destroyScheduler _ | .lastError | .unknown _ => true
  | .enqueue _ body | .again _ body | .foreignAwait _ body => isForeignCode body
  | .foreign _ action => action.isForeign
  | _ => false

def Action.isForeignCode : List Action → Bool
  | [] => true
  | action :: rest => action.isForeign && isForeignCode rest

end

namespace Action

abbrev IsForeign (action : Action) : Prop := action.isForeign = true

theorem isForeign_core : (action : Action) → action.core.isForeign = action.isForeign
  | .foreign _ action => by rw [core, isForeign, isForeign_core action]
  | .log _ | .guard _ | .enqueue .. | .enqueueNamed .. | .run .. | .await .. | .resume ..
  | .handle _ | .clone ..
  | .drop _ | .state | .dropScheduler _ | .fail _ | .panic _ | .again .. | .countdown .. | .scope ..
  | .suspend ..
  | .newHandle .. | .park .. | .wake .. | .newCoroutine .. | .transfer .. | .coroutineInfo _
  | .takeStack _
  | .dropCoroutine _ | .newDriver _ | .drive _ | .driverState _ | .inFlight _ | .sleep .. | .call ..
  | .blocking .. | .awaitAll .. | .signal .. | .unknown _ | .foreignRun .. | .pending _
  | .foreignAwait ..
  | .foreignResume .. | .foreignError .. | .directResume .. | .handleText _ | .destroyHandle ..
  | .destroyScheduler _ | .lastError => rfl

theorem IsForeign.isPublic {action : Action} (h : action.IsForeign) : action.IsPublic := by
  cases action
  case foreign position action => exact @IsForeign.isPublic action h
  all_goals trivial

end Action

/-- The second action is performed where the first one is, for the schedulers that it is
wrapped for exist. -/
inductive Action.ComesTo (w : World) : Action → Action → Prop
  | refl (action : Action) : ComesTo w action action
  | wrapped {position : Nat} {s : SchedulerId} {action inner : Action}
      (hs : w.schedulerAt position = some s) (h : ComesTo w action inner) :
      ComesTo w (.foreign position action) inner

namespace Action.ComesTo

variable {w : World} {action inner : Action} {position : Nat} {s : SchedulerId}

theorem core (h : action.ComesTo w inner) : inner.core = action.core := by
  induction h with
  | refl => rfl
  | wrapped _ _ ih => exact ih

/-- What is wrapped for a scheduler that exists is performed as well. -/
theorem unwrap (h : action.ComesTo w (.foreign position inner))
    (hs : w.schedulerAt position = some s) : action.ComesTo w inner := by
  generalize houter : Action.foreign position inner = outer at h
  induction h with
  | refl => exact houter ▸ .wrapped hs (.refl inner)
  | wrapped hs' _ ih => exact .wrapped hs' (ih houter)

theorem isForeign (h : action.ComesTo w inner) (hinner : inner.IsForeign) :
    action.core.IsForeign := by
  rw [← h.core, Action.IsForeign, isForeign_core]
  exact hinner

end Action.ComesTo

/-- What the foreign side passes: a pointer, or the error that a message stands for. -/
inductive Resumption.IsForeign : Resumption → Prop
  | pointer (value : Nat) : IsForeign (.value (.scalar (.pointer value)))
  | message (message : Option (List UInt8)) : IsForeign (.error (Machine.foreignError message))

namespace Frame

/-- Frames of the foreign side. -/
def IsForeign : Frame → Prop
  | .actions todo _ => Action.isForeignCode todo = true
  | .again _ body => Action.isForeignCode body = true
  | .registering _ plan | .awaiting _ plan => plan = .foreign
  | .dispatching _ | .draining .. => True
  | .answering _ reply => reply = .foreignRun ∨ ∃ name, reply = .foreignResume name
  | _ => False

/-- What is left in place of a frame that goes on, when no fiber, queue or handle is
concerned. -/
inductive LeavesBehind : Frame → List Frame → Prop
  | finished (guards : List Datum) : LeavesBehind (.actions [] guards) []
  | acts (action : Action) (todo : List Action) (guards : List Datum) :
      LeavesBehind (.actions (action :: todo) guards) [.actions todo guards]
  | repeats {action : Action} {times : Nat} {body : List Action}
      (haction : action.core = .again times body) (todo : List Action) (guards : List Datum) :
      LeavesBehind (.actions (action :: todo) guards) [.again times body, .actions todo guards]
  | done (body : List Action) : LeavesBehind (.again 0 body) []
  | again (times : Nat) (body : List Action) :
      LeavesBehind (.again (times + 1) body) [.actions body [], .again times body]
  | answered (s : SchedulerId) (reply : Reply) : LeavesBehind (.answering s reply) []

end Frame

namespace World

variable {w w' : World} {name : String} {x y : HandleRef}

/-! ### Handles that the foreign side has -/

/-- The foreign side gets a handle, and loses none. -/
theorem mem_boxes_entrust (h : y = x ∨ y ∈ w.boxes) (name : String) :
    y ∈ (w.entrust name x).boxes := by
  have hslot : ∀ {z}, (w.entrust name x).slots.get? name = some z →
      z ∈ (w.entrust name x).boxes := fun hz =>
    List.mem_append_left _ (Names.mem_values_of_get? hz)
  rcases h with rfl | h
  · exact hslot (Names.get?_insert_self ..)
  · rcases List.mem_append.1 h with member | member
    · rcases Names.eq_or_mem_values_insert member x with heq | member
      · refine List.mem_append_right _ (List.mem_append_left _ (List.mem_append_left _ ?_))
        exact heq ▸ List.mem_singleton_self y
      · exact List.mem_append_left _ member
    · exact List.mem_append_right _ (List.mem_append_right _ member)

/-- A handle is taken, or a clone of it, and no other one is lost. -/
theorem mem_boxes_takeHandle {keep : Bool} (htake : w.takeHandle? name keep = some (x, w'))
    (h : y ∈ w.boxes) : y = x ∨ y ∈ w'.boxes := by
  rw [takeHandle?, Option.map_eq_some_iff] at htake
  obtain ⟨handle, hname, htake⟩ := htake
  split at htake <;> cases htake
  · exact .inr h
  · rcases List.mem_append.1 h with member | member
    · exact (Names.eq_or_mem_values_erase member).imp
        (fun heq => Option.some.inj (heq.symm.trans hname)) (List.mem_append_left _)
    · exact .inr (List.mem_append_right _ member)

end World

namespace Machine

variable {byHand : Prop} {allowed : Action → Prop} {m m' : Machine} {frames : List Frame}
  {x : HandleRef} {s : SchedulerId} {w : World} {action : Action} {todo : List Action}
  {guards : List Datum}

/-! ### Steps -/

/-- Control is about to pass something to a handle through a scheduler, by the call of the
given name: a pointer, or an error with a message. -/
inductive Passes (m : Machine) (s : SchedulerId) (x : HandleRef) : String → Resumption → Prop
  | pointer {action : Action} {position : Nat} {slot : String} (keep : Bool) (value : Nat)
      (hnext : m.nextAction? = some action)
      (haction : action.ComesTo m.world (.foreignResume position (some slot) keep value))
      (hs : m.world.schedulerAt position = some s) (hx : m.world.slots.get? slot = some x) :
      Passes m s x "resume" (.value (.scalar (.pointer value)))
  | message {action : Action} {position : Nat} {slot : String} (keep : Bool)
      (message : Option (List UInt8)) (hnext : m.nextAction? = some action)
      (haction : action.ComesTo m.world (.foreignError position (some slot) keep message))
      (hs : m.world.schedulerAt position = some s) (hx : m.world.slots.get? slot = some x) :
      Passes m s x "resume_error" (.error (foreignError message))

theorem Passes.isForeign {name : String} {resumption : Resumption}
    (h : m.Passes s x name resumption) :
    resumption.IsForeign ∧ ∀ action, m.nextAction? = some action → action.core.IsForeign := by
  cases h with
  | pointer keep value hnext haction =>
    exact ⟨.pointer value, fun action heq => by
      cases hnext.symm.trans heq
      exact haction.isForeign rfl⟩
  | message keep message hnext haction =>
    exact ⟨.message message, fun action heq => by
      cases hnext.symm.trans heq
      exact haction.isForeign rfl⟩

/-- What a step of a foreign program does, with the frames that it leaves and with the
handles that the foreign side has afterwards. -/
inductive Fares (m : Machine) : Machine → Prop
  | goesOn {frame : Frame} {pushed frames : List Frame} {w : World} (htop : m.top = frame :: frames)
      (hcontrol : m.control = .advance ∨ ∃ result, m.control = .answer result)
      (hleft : frame.LeavesBehind pushed) (h : m.world.NoProgress w)
      (hboxes : w.boxes = m.world.boxes) :
      Fares m (m.goTo (pushed ++ frames) w .advance)
  | enqueues {action : Action} {todo : List Action} {guards : List Datum} {frames : List Frame}
      {position : Nat} {body : List Action} {s : SchedulerId} {scheduler : Scheduler}
      (shown : Datum) (htop : m.top = .actions (action :: todo) guards :: frames)
      (hcontrol : m.control = .advance) (haction : action.core = .enqueue position body)
      (hs : m.world.scheduler? s = some scheduler) :
      Fares m (m.goTo (.actions todo guards :: frames)
          ((m.world.enqueue s body).2.emit "enqueue" shown) .advance)
  | asks {action : Action} {todo : List Action} {guards : List Datum}
      {frames : List Frame} {w : World} (s : SchedulerId) (max : Option Nat)
      (htop : m.top = .actions (action :: todo) guards :: frames) (hcontrol : m.control = .advance)
      (h : m.world.NoProgress w) (hboxes : w.boxes = m.world.boxes) :
      Fares m ((m.goTo (.answering s .foreignRun :: .actions todo guards :: frames) w .advance).run
          s max)
  | passes {action : Action} {todo : List Action} {guards : List Datum}
      {frames : List Frame} {w : World} {s : SchedulerId} {x : HandleRef} {cell : HandleCell}
      {resumption : Resumption} {m' : Machine} {name : String}
      (htop : m.top = .actions (action :: todo) guards :: frames) (hcontrol : m.control = .advance)
      (hpasses : m.Passes s x name resumption) (h : m.world.NoProgress w)
      (hboxes : ∀ y ∈ m.world.boxes, y = x ∨ y ∈ w.boxes) (hcell : w.handles.get? x = some cell)
      (hclones : 0 < cell.clones) (hs : (w.scheduler? s).isSome)
      (hdelivers : Delivers
        (m.goTo (.answering s (.foreignResume name) :: .actions todo guards :: frames) w .advance)
        s x cell resumption m') : Fares m m'
  | opens {action : Action} {todo register : List Action} {guards : List Datum}
      {frames : List Frame} {slot : String} {x : HandleRef} {w : World}
      (htop : m.top = .actions (action :: todo) guards :: frames) (hcontrol : m.control = .advance)
      (haction : action.core = .foreignAwait slot register) (hinside : m.running ≠ [])
      (h : m.world.Opens x .foreign w) (hboxes : ∀ y, y = x ∨ y ∈ m.world.boxes → y ∈ w.boxes) :
      Fares m (m.goTo
          (.actions register [] :: .registering x .foreign :: .actions todo guards :: frames) w
        .advance)
  | suspends {x : HandleRef} {frames : List Frame}
      (htop : m.top = .registering x .foreign :: frames) (hcontrol : m.control = .advance) :
      Fares m ((m.goTo frames m.world .advance).suspendAwait x .foreign)
  | concludes {x : HandleRef} {frames : List Frame} {resumption : Resumption} {w : World}
      (htop : m.top = .awaiting x .foreign :: frames) (hcontrol : m.control = .resumed resumption)
      (h : (m.world.mark (.awaited x resumption)).NoProgress w) (hboxes : w.boxes = m.world.boxes) :
      Fares m (m.goTo frames w .advance)
  | receives {s : SchedulerId} {fiber : Fiber} {exit : Exit} {frames : List Frame} {w : World}
      (htop : m.top = .dispatching s :: frames) (hcontrol : m.control = .back fiber exit)
      (h : m.world.Receives s fiber exit w) (hboxes : w.boxes = m.world.boxes) :
      Fares m (m.goTo frames w .advance)
  | drains {s : SchedulerId} {ran : Nat} {max : Option Nat} {frames : List Frame} {m' : Machine}
      (htop : m.top = .draining s ran max :: frames) (hcontrol : m.control = .advance)
      (h : Drains (m.goTo frames m.world .advance) s ran max m')
      (hboxes : m'.world.boxes = m.world.boxes) :
      Fares m m'
  | leaves {running : Running} {below : List Running} (hrunning : m.running = running :: below)
      (htop : m.top = []) (hcontrol : m.control = .advance) :
      Fares m (m.leave running below .completed)

section Performs

variable (hm : m.Sound byHand) (htop : m.top = .actions (action :: todo) guards :: frames)
  (hcontrol : m.control = .advance)

include hm in
theorem Sound.noProgress_of_shift {out : List Asset} (hshift : m.world.Shift [] w out) :
    m.world.NoProgress w :=
  (hshift _ hm.kept.balanced).drift.noProgress

include htop hcontrol in
theorem nextAction?_of_top : m.nextAction? = some action := by rw [nextAction?, hcontrol, htop]

include hm htop hcontrol hcontrol

/-- An action writes something down. -/
theorem fares_write (hshift : m.world.Shift [] w []) (hboxes : w.boxes = m.world.boxes) :
    m.Fares ((m.goTo (.actions todo guards :: frames) m.world .advance).withWorld w) := by
  rw [goTo_withWorld]
  exact .goesOn htop (.inl hcontrol) (.acts action todo guards)
    (hm.noProgress_of_shift hshift) hboxes

theorem fares_emit (name : String) (payload : Datum) :
    m.Fares ((m.goTo (.actions todo guards :: frames) m.world .advance).emit name payload) :=
  fares_write hm htop hcontrol (m.world.shift_emit name payload []) rfl

theorem fares_withScheduler {name : String} {position : Nat} {use : SchedulerId → Machine}
    (huse : ∀ s, m.world.schedulerAt position = some s → m.Fares (use s)) :
    m.Fares ((m.goTo (.actions todo guards :: frames) m.world .advance).withScheduler name
        position use) := by
  rw [withScheduler, goTo_world]
  split
  next => exact fares_emit hm htop hcontrol name _
  next s hs => exact huse s hs

theorem fares_enqueue {position : Nat} {body : List Action}
    (haction : action.core = .enqueue position body) :
    m.Fares ((m.goTo (.actions todo guards :: frames) m.world .advance).enqueue position body) := by
  refine fares_withScheduler hm htop hcontrol fun s hs => ?_
  obtain ⟨scheduler, hscheduler, -⟩ := hm.kept.balanced.schedulerAt_alive hs
  exact .enqueues _ htop hcontrol haction hscheduler

theorem fares_runLoop (position : Nat) (max : Option Nat) :
    m.Fares ((m.goTo (.actions todo guards :: frames) m.world .advance).runLoop position max
        .foreignRun) := by
  refine fares_withScheduler hm htop hcontrol fun s hs => ?_
  rw [goTo_withWorld, goTo_push, goTo_world]
  exact .asks s max htop hcontrol (hm.noProgress_of_shift (m.world.shift_own hs)) rfl

theorem fares_foreignResume {position : Nat} {slot : Option String} {resumption : Resumption}
    {name : String} (hs : m.world.schedulerAt position = some s) (keep : Bool)
    (hpasses : ∀ name' x, slot = some name' → m.world.slots.get? name' = some x →
      m.Passes s x name resumption) :
    m.Fares ((m.goTo (.actions todo guards :: frames) m.world .advance).foreignResume name s slot
        keep resumption) := by
  rw [foreignResume, goTo_world]
  split
  next =>
    exact fares_write hm htop hcontrol
      ((World.shift_foreignFailed _ name _ []).trans (World.shift_emit _ name _ [])) rfl
  next x u hhandle =>
    obtain ⟨hshift, hpositions⟩ := shift_foreignHandle hhandle
    have hown : u.Shift [] (u.own s) [.share s] :=
      u.shift_own (by rw [← hs, World.schedulerAt, World.schedulerAt, hpositions])
    have hboth := hshift.trans (hown.gain [.loose (.handle x)])
    have hheld := hm.kept.gain hboth
    obtain ⟨cell, hcell, hclones⟩ := hheld.balanced.clones_pos (x := x)
      (by simp only [List.cons_append, List.nil_append, weigh_cons, cloneOf, if_true]; omega)
    obtain ⟨scheduler, hscheduler, -⟩ := hheld.balanced.owners_pos (s := s)
      (by simp only [List.cons_append, weigh_cons, shareOf, if_true]; omega)
    rw [goTo_withWorld, goTo_push]
    rw [foreignHandle?, Option.bind_eq_some_iff] at hhandle
    obtain ⟨slot', hslot, htake⟩ := hhandle
    have hx : m.world.slots.get? slot' = some x := by
      rw [World.takeHandle?, Option.map_eq_some_iff] at htake
      obtain ⟨handle, hname, htake⟩ := htake
      split at htake <;> cases htake <;> exact hname
    exact .passes htop hcontrol (hpasses slot' x hslot hx) (hm.noProgress_of_shift hboth)
      (fun y hy => (World.mem_boxes_takeHandle htake hy : y = x ∨ y ∈ u.boxes)) hcell hclones
      (by rw [hscheduler]; rfl) (Machine.delivers _ s hcell resumption)

theorem fares_foreignAwait {slot : String} {register : List Action}
    (haction : action.core = .foreignAwait slot register) :
    m.Fares ((m.goTo (.actions todo guards :: frames) m.world .advance).foreignAwait slot
        register) := by
  rw [foreignAwait, goTo_world]
  split
  next =>
    simp only [failAwait, AwaitPlan.foreign, goTo_world, goTo_withWorld, goTo_emit, goTo_advance]
    exact .goesOn htop (.inl hcontrol) (.acts action todo guards)
      (hm.noProgress_of_shift
        ((World.shift_foreignFailed _ _ _ []).trans (World.shift_emit _ _ _ [])))
      rfl
  next current hcurrent =>
    have hinside : m.running ≠ [] := fun hrunning => by
      have hnone := hm.current_isSome
      rw [inFiber, hrunning] at hnone
      rw [World.currentId, Option.map_eq_some_iff] at hcurrent
      obtain ⟨running, hrunning, -⟩ := hcurrent
      rw [hrunning] at hnone
      cases hnone
    simp only [goTo_withWorld, goTo_push, goTo_advance]
    exact .opens htop hcontrol haction hinside
      (.intro current (m.world.hoarded + 2) (.refl _) rfl (.of_same rfl rfl rfl rfl))
      fun y hy => World.mem_boxes_entrust
        (w := (openAwait m.world current .foreign (m.world.hoarded + 2)).2) hy slot

/-- Whatever the foreign side does, its step is one of these. -/
theorem fares_perform (hforeign : action.IsForeign) :
    (inner : Action) → action.ComesTo m.world inner →
      m.Fares ((m.goTo (.actions todo guards :: frames) m.world .advance).perform inner)
  | .foreign position inner, hcomes => by
    rw [perform, goTo_world]
    split
    next => exact fares_emit hm htop hcontrol _ _
    next hs => exact fares_perform hforeign inner (hcomes.unwrap hs)
  | .log value, _ => fares_emit hm htop hcontrol _ _
  | .pending position, _ => fares_withScheduler hm htop hcontrol fun s hs =>
    fares_emit hm htop hcontrol _ _
  | .handleText slot, _ => fares_emit hm htop hcontrol _ _
  | .lastError, _ => fares_emit hm htop hcontrol _ _
  | .unknown name, _ => fares_emit hm htop hcontrol _ _
  | .enqueue position body, hcomes => fares_enqueue hm htop hcontrol hcomes.core.symm
  | .again times body, hcomes => by
    rw [perform, goTo_push]
    exact .goesOn htop (.inl hcontrol) (.repeats hcomes.core.symm todo guards) (.refl _) rfl
  | .foreignRun position max, _ => fares_runLoop hm htop hcontrol position max
  | .foreignAwait slot register, hcomes => fares_foreignAwait hm htop hcontrol hcomes.core.symm
  | .foreignResume position slot keep value, hcomes =>
    fares_withScheduler hm htop hcontrol fun s hs =>
    fares_foreignResume hm htop hcontrol hs keep fun name x hslot hx =>
      .pointer keep value (nextAction?_of_top htop hcontrol) (hslot ▸ hcomes) hs hx
  | .foreignError position slot keep message, hcomes =>
    fares_withScheduler hm htop hcontrol fun s hs =>
    fares_foreignResume hm htop hcontrol hs keep fun name x hslot hx =>
      .message keep message (nextAction?_of_top htop hcontrol) (hslot ▸ hcomes) hs hx
  | .destroyScheduler position, _ => fares_withScheduler hm htop hcontrol fun s hs => by
    refine fares_write hm htop hcontrol
      (((World.shift_abandon _ hs).trans (World.shift_disown _ s)).trans
      (World.shift_emit _ "sched_destroy" .null [])) ?_
    exact (World.boxes_of_surroundings
        (World.surroundings_disown (m.world.setScheduler position none) s) :)
  | .guard _, hcomes | .enqueueNamed .., hcomes | .run .., hcomes | .await .., hcomes
  | .resume .., hcomes
  | .handle _, hcomes | .clone .., hcomes | .drop _, hcomes | .state, hcomes
  | .dropScheduler _, hcomes | .fail _, hcomes
  | .panic _, hcomes | .countdown .., hcomes | .scope .., hcomes | .suspend .., hcomes
  | .newHandle .., hcomes
  | .park .., hcomes | .wake .., hcomes | .newCoroutine .., hcomes | .transfer .., hcomes
  | .coroutineInfo _, hcomes
  | .takeStack _, hcomes | .dropCoroutine _, hcomes | .newDriver _, hcomes | .drive _, hcomes
  | .driverState _, hcomes
  | .inFlight _, hcomes | .sleep .., hcomes | .call .., hcomes | .blocking .., hcomes
  | .awaitAll .., hcomes
  | .signal .., hcomes | .directResume .., hcomes | .destroyHandle .., hcomes => by
    rw [Action.IsForeign, ← Action.isForeign_core, ← hcomes.core] at hforeign
    cases hforeign

end Performs

end Machine

end Fibers
