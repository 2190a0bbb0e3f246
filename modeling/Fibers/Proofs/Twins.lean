import Mathlib.Data.List.Forall2
import Mathlib.Data.Option.Defs
import Fibers.World
import Fibers.Proofs.Resources

/-!
Twins. Two runs are compared that do the same as far as some schedulers and names go. A
handle of the first run stands for one of the second run, which may have more of them, and
some tasks of the second run may have one more action at their end, which fails or panics.
Data of the two runs are twins if they are the same but for this. Fibers, stacks and host
calls of one run may bear other numbers than those of the other; nothing shows them.
-/

namespace Fibers

open List (Forall₂)

/-- An action that ends its task. -/
inductive Fault
  | fails (failure : Failure)
  | panics (carried : Panic)

namespace Fault

def action : Fault → Action
  | .fails failure => .fail failure
  | .panics carried => .panic carried

def exit : Fault → Exit
  | .fails failure => .failed failure
  | .panics carried => .panicked carried

/-- What is told of a task that the fault ends. -/
def event (id : FiberId) : Fault → Event
  | .fails failure => .failed id failure.oneLine
  | .panics carried => .panicked id carried.message

def isPanic : Fault → Bool
  | .fails _ => false
  | .panics _ => true

end Fault

/-- What two runs have in common. -/
structure Bond where
  /-- What some tasks have at their end in the second run only. -/
  fault : Option Fault
  /-- The names that the runs share. -/
  mine : Resource → Prop
  /-- The schedulers that the runs share. -/
  own : SchedulerId → Prop
  /-- The second run makes no handles but those of the first one. -/
  alone : Prop

namespace Bond

/-- What a task has at its end in the second run only. -/
inductive Tail (B : Bond) : Bool → List Action → Prop
  | none : Tail B false []
  | fault {fault : Fault} (h : B.fault = some fault) : Tail B true [fault.action]

def Panics (B : Bond) : Prop := ∃ fault, B.fault = some fault ∧ fault.isPanic = true

/-- The counters of a scheduler to which some tasks came back that had reached the fault: these
count as failed or panicked in the second run, and as completed in the first one. -/
def Off (B : Bond) (fallen : Nat) (counters counters' : Counters) : Prop :=
  match B.fault with
  | none => counters = counters'
  | some (.fails _) => counters.completed = counters'.completed + fallen ∧
    counters' = { counters with
      completed := counters'.completed, failed := counters.failed + fallen }
  | some (.panics _) => counters.completed = counters'.completed + fallen ∧
    counters' = { counters with
      completed := counters'.completed, panicked := counters.panicked + fallen }

/-- The runs share all of these. -/
def All (B : Bond) (names : List Resource) : Prop := ∀ name ∈ names, B.mine name

section All

variable {B : Bond} {name : Resource} {names names' : List Resource}

theorem All.head (h : B.All (name :: names)) : B.mine name := h name (List.mem_cons_self ..)

theorem All.tail (h : B.All (name :: names)) : B.All names :=
  fun other hother => h other (List.mem_cons_of_mem name hother)

theorem All.left (h : B.All (names ++ names')) : B.All names :=
  fun name hname => h name (List.mem_append_left names' hname)

theorem All.right (h : B.All (names ++ names')) : B.All names' :=
  fun name hname => h name (List.mem_append_right names hname)

theorem all_nil : B.All [] := fun _ hname => by cases hname

theorem All.cons (hname : B.mine name) (h : B.All names) : B.All (name :: names) :=
  List.forall_mem_cons.2 ⟨hname, h⟩

end All

end Bond

/-- A task by its scheduler and number, and whether it has the fault at its end. -/
abbrev Task := SchedulerId × FiberId × Bool

/-- What has come up in the two runs so far. -/
structure Ties where
  /-- The handles of the second run for those of the first one, in their order. -/
  links : List HandleRef
  /-- The tasks that were enqueued, in order. -/
  tasks : List Task
  /-- The schedulers to which tasks came back that had reached the fault, in order. -/
  struck : List SchedulerId

namespace Ties

def Linked (κ : Ties) (x x' : HandleRef) : Prop := κ.links[x.index]? = some x'

/-- A fiber belongs to a task that has the fault at its end, or does not; fibers made by hand
have none. -/
def Told (κ : Ties) (home : Option SchedulerId) (id : FiberId) (insideFaulty : Bool) : Prop :=
  match home with
  | none => insideFaulty = false
  | some s => (s, id, insideFaulty) ∈ κ.tasks

/-- More has come up. -/
structure Grows (κ κ' : Ties) : Prop where
  links : κ.links <+: κ'.links
  tasks : κ.tasks ⊆ κ'.tasks

variable {κ κ' κ'' : Ties}

theorem Grows.refl (κ : Ties) : κ.Grows κ := ⟨List.prefix_refl _, List.Subset.refl _⟩

theorem Grows.trans (first : κ.Grows κ') (second : κ'.Grows κ'') : κ.Grows κ'' :=
  ⟨first.links.trans second.links, List.Subset.trans first.tasks second.tasks⟩

theorem Linked.mono {x x' : HandleRef} (h : κ.Linked x x') (hgrows : κ.Grows κ') :
    κ'.Linked x x' := by
  obtain ⟨more, hmore⟩ := hgrows.links
  have hlt : x.index < κ.links.length := (List.getElem?_eq_some_iff.1 h).1
  rw [Linked, ← hmore, List.getElem?_append_left hlt]
  exact h

theorem Told.mono {home : Option SchedulerId} {id : FiberId} {insideFaulty : Bool}
    (h : κ.Told home id insideFaulty) (hgrows : κ.Grows κ') : κ'.Told home id insideFaulty := by
  cases home with
  | none => exact h
  | some s => exact hgrows.tasks h

end Ties

/-! ### Counters -/

namespace Bond.Off

variable {B : Bond} {fallen : Nat} {scheduler scheduler' : Scheduler}

theorem zero : B.Off 0 .zero .zero := by
  unfold Bond.Off
  split <;> simp

theorem spawn (h : B.Off fallen scheduler.counters scheduler'.counters) :
    B.Off fallen { scheduler.counters with spawned := scheduler.counters.spawned + 1 }
      { scheduler'.counters with spawned := scheduler'.counters.spawned + 1 } := by
  unfold Bond.Off at h ⊢
  split at h
  · rw [h]
  · exact ⟨h.1, by rw [h.2]⟩
  · exact ⟨h.1, by rw [h.2]⟩

theorem suspension (h : B.Off fallen scheduler.counters scheduler'.counters) :
    B.Off fallen scheduler.countSuspension.counters scheduler'.countSuspension.counters := by
  unfold Bond.Off at h ⊢
  split at h
  · rw [Scheduler.countSuspension, Scheduler.countSuspension, h]
  · exact ⟨h.1, by rw [Scheduler.countSuspension, Scheduler.countSuspension, h.2]⟩
  · exact ⟨h.1, by rw [Scheduler.countSuspension, Scheduler.countSuspension, h.2]⟩

theorem completed (h : B.Off fallen scheduler.counters scheduler'.counters) :
    B.Off fallen scheduler.countCompleted.counters scheduler'.countCompleted.counters := by
  unfold Bond.Off at h ⊢
  simp only [Scheduler.countCompleted]
  split at h
  · rw [h]
  · exact ⟨by omega, by rw [h.2]⟩
  · exact ⟨by omega, by rw [h.2]⟩

theorem failed (h : B.Off fallen scheduler.counters scheduler'.counters) :
    B.Off fallen scheduler.countFailed.counters scheduler'.countFailed.counters := by
  unfold Bond.Off at h ⊢
  simp only [Scheduler.countFailed]
  split at h
  · rw [h]
  · refine ⟨h.1, ?_⟩
    rw [h.2, Nat.add_right_comm]
  · exact ⟨h.1, by rw [h.2]⟩

theorem panicked (h : B.Off fallen scheduler.counters scheduler'.counters) :
    B.Off fallen scheduler.countPanicked.counters scheduler'.countPanicked.counters := by
  unfold Bond.Off at h ⊢
  simp only [Scheduler.countPanicked]
  split at h
  · rw [h]
  · exact ⟨h.1, by rw [h.2]⟩
  · refine ⟨h.1, ?_⟩
    rw [h.2, Nat.add_right_comm]

/-- A task comes back that had reached a failure. -/
theorem fails (h : B.Off fallen scheduler.counters scheduler'.counters) {failure : Failure}
    (hfault : B.fault = some (.fails failure)) :
    B.Off (fallen + 1) scheduler.countCompleted.counters scheduler'.countFailed.counters := by
  unfold Bond.Off at h ⊢
  rw [hfault] at h ⊢
  refine ⟨?_, ?_⟩
  · simp only [Scheduler.countCompleted, Scheduler.countFailed]
    omega
  · simp only [Scheduler.countCompleted, Scheduler.countFailed]
    rw [h.2, Nat.add_assoc]

/-- A task comes back that had reached a panic. -/
theorem panics (h : B.Off fallen scheduler.counters scheduler'.counters) {carried : Panic}
    (hfault : B.fault = some (.panics carried)) :
    B.Off (fallen + 1) scheduler.countCompleted.counters scheduler'.countPanicked.counters := by
  unfold Bond.Off at h ⊢
  rw [hfault] at h ⊢
  refine ⟨?_, ?_⟩
  · simp only [Scheduler.countCompleted, Scheduler.countPanicked]
    omega
  · simp only [Scheduler.countCompleted, Scheduler.countPanicked]
    rw [h.2, Nat.add_assoc]

end Bond.Off

variable {B : Bond} {κ κ' : Ties}

/-! ### Programs -/

/-- Two actions that share what they name. Tasks that the second one enqueues may have the
fault at their end. -/
inductive Action.Twin (B : Bond) : Action → Action → Prop
  | plain {action : Action} (hplain : action.isPlain = true) (hnames : B.All action.names) :
      Twin B action action
  | enqueue {position : Nat} {body body' tail : List Action} {insideFaulty : Bool}
      (hposition : B.mine (.position position)) (hbody : Forall₂ (Twin B) body body')
      (htail : B.Tail insideFaulty tail) :
      Twin B (.enqueue position body) (.enqueue position (body' ++ tail))
  | await {type : PayloadType} {slot : Option String} {register register' : List Action}
      {onError : OnError} {keepIn : Option String} (hslot : B.All (Resource.slots slot))
      (hkeep : B.All (Resource.slots keepIn)) (hregister : Forall₂ (Twin B) register register') :
      Twin B (.await type slot register onError keepIn) (.await type slot register' onError keepIn)
  | again {times : Nat} {body body' : List Action} (hbody : Forall₂ (Twin B) body body') :
      Twin B (.again times body) (.again times body')
  | countdown {counter : String} {body body' : List Action} (hcounter : B.mine (.counter counter))
      (hbody : Forall₂ (Twin B) body body') :
      Twin B (.countdown counter body) (.countdown counter body')
  | scope {body body' : List Action} {catches : Bool} (hbody : Forall₂ (Twin B) body body') :
      Twin B (.scope body catches) (.scope body' catches)
  | newCoroutine {coroutine : String} {id : FiberId} {stackSize : Nat} {body body' : List Action}
      (hcoroutine : B.mine (.coroutine coroutine)) (hbody : Forall₂ (Twin B) body body') :
      Twin B (.newCoroutine coroutine id stackSize body)
        (.newCoroutine coroutine id stackSize body')
  | foreign {position : Nat} {action action' : Action} (hposition : B.mine (.position position))
      (haction : Twin B action action') :
      Twin B (.foreign position action) (.foreign position action')
  | foreignAwait {slot : String} {register register' : List Action} (hslot : B.mine (.slot slot))
      (hfailing : B.mine .failing) (hlast : B.mine .lastError)
      (hregister : Forall₂ (Twin B) register register') :
      Twin B (.foreignAwait slot register) (.foreignAwait slot register')

/-- Two pieces of code. -/
abbrev Code.Twin (B : Bond) (code code' : List Action) : Prop := Forall₂ (Action.Twin B) code code'

/-- Two bodies of tasks. -/
inductive Body.Twin (B : Bond) : Bool → List Action → List Action → Prop
  | mk {body body' tail : List Action} {insideFaulty : Bool} (hbody : Code.Twin B body body')
      (htail : B.Tail insideFaulty tail) : Twin B insideFaulty body (body' ++ tail)

theorem Action.Twin.name_eq {action action' : Action} : Action.Twin B action action' →
    action.name = action'.name
  | .plain .. | .enqueue .. | .await .. | .again .. | .countdown .. | .scope .. | .newCoroutine ..
  | .foreignAwait .. => rfl
  | .foreign _ h => h.name_eq

/-! ### What is passed around -/

inductive Payload.Twin (κ : Ties) : Payload → Payload → Prop
  | scalar (value : Scalar) : Twin κ (.scalar value) (.scalar value)
  | handle {x x' : HandleRef} (hx : κ.Linked x x') : Twin κ (.handle x) (.handle x')

inductive Resumption.Twin (κ : Ties) : Resumption → Resumption → Prop
  | value {payload payload' : Payload} (h : Payload.Twin κ payload payload') :
      Twin κ (.value payload) (.value payload')
  | error (failure : Failure) : Twin κ (.error failure) (.error failure)

theorem Payload.Twin.mono {payload payload' : Payload} (h : payload.Twin κ payload')
    (hgrows : κ.Grows κ') : payload.Twin κ' payload' := by
  cases h with
  | scalar value => exact .scalar value
  | handle hx => exact .handle (hx.mono hgrows)

theorem Payload.Twin.type_eq {payload payload' : Payload} (h : payload.Twin κ payload') :
    payload.type = payload'.type := by
  cases h <;> rfl

theorem Resumption.Twin.mono {resumption resumption' : Resumption}
    (h : resumption.Twin κ resumption') (hgrows : κ.Grows κ') : resumption.Twin κ' resumption' := by
  cases h with
  | value h => exact .value (h.mono hgrows)
  | error failure => exact .error failure

theorem Resumption.Twin.describe_eq {resumption resumption' : Resumption}
    (h : resumption.Twin κ resumption') : resumption.describe = resumption'.describe := by
  cases h <;> rfl

theorem Resumption.Twin.unit (κ : Ties) : Resumption.Twin κ .unit .unit := .value (.scalar .unit)

/-! ### Fibers -/

inductive DriverPhase.Twin (κ : Ties) : DriverPhase → DriverPhase → Prop
  | drain : Twin κ .drain .drain
  | listen : Twin κ .listen .listen
  | poll (turns : Nat) : Twin κ (.poll turns) (.poll turns)
  | settle {waiters waiters' : List HandleRef} (hwaiters : Forall₂ κ.Linked waiters waiters') :
      Twin κ (.settle waiters) (.settle waiters')
  | resuming {fiber : FiberId} {waiters waiters' : List HandleRef}
      (hwaiters : Forall₂ κ.Linked waiters waiters') :
      Twin κ (.resuming fiber waiters) (.resuming fiber waiters')

theorem DriverPhase.Twin.mono {phase phase' : DriverPhase} (h : phase.Twin κ phase')
    (hgrows : κ.Grows κ') : phase.Twin κ' phase' := by
  cases h with
  | drain => exact .drain
  | listen => exact .listen
  | poll turns => exact .poll turns
  | settle hwaiters => exact .settle (hwaiters.imp fun _ _ h => h.mono hgrows)
  | resuming hwaiters => exact .resuming (hwaiters.imp fun _ _ h => h.mono hgrows)

inductive Frame.Twin (B : Bond) (κ : Ties) : Frame → Frame → Prop
  | actions {todo todo' : List Action} {guards : List Datum} (htodo : Code.Twin B todo todo') :
      Twin B κ (.actions todo guards) (.actions todo' guards)
  | again {times : Nat} {body body' : List Action} (hbody : Code.Twin B body body') :
      Twin B κ (.again times body) (.again times body')
  | catching : Twin B κ .catching .catching
  | registering {x x' : HandleRef} {plan : AwaitPlan} (hx : κ.Linked x x')
      (hplan : B.All plan.names) : Twin B κ (.registering x plan) (.registering x' plan)
  | awaiting {x x' : HandleRef} {plan : AwaitPlan} (hx : κ.Linked x x') (hplan : B.All plan.names) :
      Twin B κ (.awaiting x plan) (.awaiting x' plan)
  | suspending (raises : Bool) : Twin B κ (.suspending raises) (.suspending raises)
  | transferring {coroutine : String} {slot : Option String}
      (hcoroutine : B.mine (.coroutine coroutine)) (hslot : B.All (Resource.slots slot)) :
      Twin B κ (.transferring coroutine slot) (.transferring coroutine slot)
  | dispatching {s : SchedulerId} (hs : B.own s) : Twin B κ (.dispatching s) (.dispatching s)
  | draining {s : SchedulerId} {ran : Nat} {max : Option Nat} (hs : B.own s) :
      Twin B κ (.draining s ran max) (.draining s ran max)
  | answering {s : SchedulerId} {reply : Reply} (hs : B.own s) (hreply : B.All reply.names) :
      Twin B κ (.answering s reply) (.answering s reply)
  | driving {d : DriverId} {phase phase' : DriverPhase} (hhost : B.mine .host)
      (hphase : phase.Twin κ phase') : Twin B κ (.driving d phase) (.driving d phase')
  | completing {d : DriverId} {call : Nat} {fiber : FiberId} (hhost : B.mine .host) :
      Twin B κ (.completing d call fiber) (.completing d call fiber)

theorem Frame.Twin.mono {frame frame' : Frame} (h : frame.Twin B κ frame') (hgrows : κ.Grows κ') :
    frame.Twin B κ' frame' := by
  cases h with
  | actions htodo => exact .actions htodo
  | again hbody => exact .again hbody
  | catching => exact .catching
  | registering hx hplan => exact .registering (hx.mono hgrows) hplan
  | awaiting hx hplan => exact .awaiting (hx.mono hgrows) hplan
  | suspending raises => exact .suspending raises
  | transferring hcoroutine hslot => exact .transferring hcoroutine hslot
  | dispatching hs => exact .dispatching hs
  | draining hs => exact .draining hs
  | answering hs hreply => exact .answering hs hreply
  | driving hhost hphase => exact .driving hhost (hphase.mono hgrows)
  | completing hhost => exact .completing hhost

/-- The frames of two fibers. The last one of a task's is its body, and where it ails it has
the fault at its end in the second run. -/
inductive Frames.Twin (B : Bond) (κ : Ties) : Bool → List Frame → List Frame → Prop
  | nil : Twin B κ false [] []
  | cons {insideFaulty : Bool} {frame frame' : Frame} {frames frames' : List Frame}
      (hframe : frame.Twin B κ frame') (hframes : Twin B κ insideFaulty frames frames') :
      Twin B κ insideFaulty (frame :: frames) (frame' :: frames')
  | ailing {todo todo' tail : List Action} {guards : List Datum} (htodo : Code.Twin B todo todo')
      (htail : B.Tail true tail) :
      Twin B κ true [.actions todo guards] [.actions (todo' ++ tail) guards]

theorem Frames.Twin.mono {insideFaulty : Bool} {frames frames' : List Frame}
    (h : Frames.Twin B κ insideFaulty frames frames') (hgrows : κ.Grows κ') :
    Frames.Twin B κ' insideFaulty frames frames' := by
  induction h with
  | nil => exact .nil
  | cons hframe _ ih => exact .cons (hframe.mono hgrows) ih
  | ailing htodo htail => exact .ailing htodo htail

/-- A task goes on with its body. -/
theorem Frames.Twin.of_body {insideFaulty : Bool} {body body' : List Action}
    (h : Body.Twin B insideFaulty body body') :
    Frames.Twin B κ insideFaulty [.actions body []] [.actions body' []] := by
  obtain ⟨hbody, htail⟩ := h
  cases htail with
  | none =>
    rw [List.append_nil]
    exact .cons (.actions hbody) .nil
  | fault h => exact .ailing hbody (.fault h)

/-- Fibers that rest before they start are made by hand. -/
inductive FiberState.Twin (B : Bond) (κ : Ties) : Bool → FiberState → FiberState → Prop
  | unstarted {body body' : List Action} (hbody : Code.Twin B body body') :
      Twin B κ false (.unstarted body) (.unstarted body')
  | suspended {frames frames' : List Frame} {first first' : Payload} {insideFaulty : Bool}
      (hframes : Frames.Twin B κ insideFaulty frames frames') (hfirst : first.Twin κ first') :
      Twin B κ insideFaulty (.suspended frames first) (.suspended frames' first')
  | finished {insideFaulty : Bool} : Twin B κ insideFaulty .finished .finished

structure Fiber.Twin (B : Bond) (κ : Ties) (fiber fiber' : Fiber) : Prop where
  id : fiber.id = fiber'.id
  home : fiber.home = fiber'.home
  size : fiber.stack.size = fiber'.stack.size
  state : ∃ insideFaulty, κ.Told fiber.home fiber.id insideFaulty ∧
    FiberState.Twin B κ insideFaulty fiber.state fiber'.state

theorem FiberState.Twin.mono {insideFaulty : Bool} {state state' : FiberState}
    (h : FiberState.Twin B κ insideFaulty state state') (hgrows : κ.Grows κ') :
    FiberState.Twin B κ' insideFaulty state state' := by
  cases h with
  | unstarted hbody => exact .unstarted hbody
  | suspended hframes hfirst => exact .suspended (hframes.mono hgrows) (hfirst.mono hgrows)
  | finished => exact .finished

theorem Fiber.Twin.mono {fiber fiber' : Fiber} (h : fiber.Twin B κ fiber') (hgrows : κ.Grows κ') :
    fiber.Twin B κ' fiber' := by
  obtain ⟨insideFaulty, htold, hstate⟩ := h.state
  exact { h with state := ⟨insideFaulty, htold.mono hgrows, hstate.mono hgrows⟩ }

theorem Fiber.Twin.isFinished_eq {fiber fiber' : Fiber} (h : fiber.Twin B κ fiber') :
    fiber.isFinished = fiber'.isFinished := by
  obtain ⟨insideFaulty, -, hstate⟩ := h.state
  cases fiber
  cases fiber'
  cases hstate <;> rfl

theorem Fiber.Twin.isStarted_eq {fiber fiber' : Fiber} (h : fiber.Twin B κ fiber') :
    fiber.isStarted = fiber'.isStarted := by
  obtain ⟨insideFaulty, -, hstate⟩ := h.state
  cases fiber
  cases fiber'
  cases hstate <;> rfl

theorem Fiber.Twin.describe_eq {fiber fiber' : Fiber} (h : fiber.Twin B κ fiber') :
    fiber.describe = fiber'.describe := by
  have hstarted := h.isStarted_eq
  have hfinished := h.isFinished_eq
  obtain ⟨hid, -⟩ := h
  unfold Fiber.describe
  rw [hid, hstarted, hfinished]

/-- How two transfers into a fiber come back. -/
inductive Exit.Twin (B : Bond) (κ : Ties) (home : Option SchedulerId) (id : FiberId) :
    Exit → Exit → Prop
  | suspended {x x' : HandleRef} (hx : κ.Linked x x') :
      Twin B κ home id (.suspended x) (.suspended x')
  | completed (htold : κ.Told home id false) : Twin B κ home id .completed .completed
  | insideFaulty {fault : Fault} (hfault : B.fault = some fault) (htold : κ.Told home id true) :
      Twin B κ home id .completed fault.exit
  | failed (failure : Failure) : Twin B κ home id (.failed failure) (.failed failure)
  | panicked (panic : Panic) : Twin B κ home id (.panicked panic) (.panicked panic)

theorem Exit.Twin.mono {home : Option SchedulerId} {id : FiberId} {exit exit' : Exit}
    (h : Exit.Twin B κ home id exit exit') (hgrows : κ.Grows κ') :
    Exit.Twin B κ' home id exit exit' := by
  cases h with
  | suspended hx => exact .suspended (hx.mono hgrows)
  | completed htold => exact .completed (htold.mono hgrows)
  | insideFaulty hfault htold => exact .insideFaulty hfault (htold.mono hgrows)
  | failed failure => exact .failed failure
  | panicked panic => exact .panicked panic

/-! ### Handles -/

inductive Slot.Twin (B : Bond) (κ : Ties) : Slot Fiber Owner Resumption →
    Slot Fiber Owner Resumption → Prop
  | pending : Twin B κ .pending .pending
  | woken {resumption resumption' : Resumption} (h : resumption.Twin κ resumption') :
      Twin B κ (.woken resumption) (.woken resumption')
  | parked {fiber fiber' : Fiber} {owner : Owner} (hfiber : fiber.Twin B κ fiber') :
      Twin B κ (.parked fiber owner) (.parked fiber' owner)
  | spent : Twin B κ .spent .spent

structure HandleCell.Twin (B : Bond) (κ : Ties) (cell cell' : HandleCell) : Prop where
  id : cell.id = cell'.id
  clones : cell.clones = cell'.clones
  slot : Slot.Twin B κ cell.slot cell'.slot

theorem Slot.Twin.mono {slot slot' : Slot Fiber Owner Resumption} (h : Slot.Twin B κ slot slot')
    (hgrows : κ.Grows κ') : Slot.Twin B κ' slot slot' := by
  cases h with
  | pending => exact .pending
  | woken h => exact .woken (h.mono hgrows)
  | parked hfiber => exact .parked (hfiber.mono hgrows)
  | spent => exact .spent

theorem Slot.Twin.name_eq {slot slot' : Slot Fiber Owner Resumption}
    (h : Slot.Twin B κ slot slot') : slot.name = slot'.name := by
  cases h <;> rfl

theorem Slot.Twin.isParked_eq {slot slot' : Slot Fiber Owner Resumption}
    (h : Slot.Twin B κ slot slot') : slot.isParked = slot'.isParked := by
  cases h <;> rfl

theorem HandleCell.Twin.mono {cell cell' : HandleCell} (h : cell.Twin B κ cell')
    (hgrows : κ.Grows κ') : cell.Twin B κ' cell' :=
  { h with slot := h.slot.mono hgrows }

/-- Things that are let go in two runs. -/
inductive Debris.Twin (κ : Ties) : Debris → Debris → Prop
  | guard (value : Datum) : Twin κ (.guard value) (.guard value)
  | handle {x x' : HandleRef} (hx : κ.Linked x x') : Twin κ (.handle x) (.handle x')
  | fiber (serial serial' : Nat) (id : FiberId) (home : Option SchedulerId) :
      Twin κ (.fiber serial id home) (.fiber serial' id home)
  | task (s : SchedulerId) (id : FiberId) : Twin κ (.task s id) (.task s id)

/-- What releasing shows in two runs. -/
inductive Relic.Twin : Relic → Relic → Prop
  | dropped (value : Datum) : Twin (.dropped value) (.dropped value)
  | discarded (serial serial' : Nat) (id : FiberId) (home : Option SchedulerId) :
      Twin (.discarded serial id home) (.discarded serial' id home)
  | vanished (s : SchedulerId) (id : FiberId) : Twin (.vanished s id) (.vanished s id)

theorem forall₂_guards (κ : Ties) (guards : List Datum) :
    Forall₂ (Debris.Twin κ) (guards.map .guard) (guards.map .guard) := by
  induction guards with
  | nil => exact .nil
  | cons value rest ih => exact .cons (.guard value) ih

theorem forall₂_handles {handles handles' : List HandleRef}
    (h : Forall₂ κ.Linked handles handles') :
    Forall₂ (Debris.Twin κ) (handles.map .handle) (handles'.map .handle) := by
  induction h with
  | nil => exact .nil
  | cons hx _ ih => exact .cons (.handle hx) ih

theorem Payload.Twin.debris {payload payload' : Payload} (h : payload.Twin κ payload') :
    Forall₂ (Debris.Twin κ) payload.debris payload'.debris := by
  cases h with
  | scalar value => exact .nil
  | handle hx => exact .cons (.handle hx) .nil

theorem Resumption.Twin.debris {resumption resumption' : Resumption}
    (h : resumption.Twin κ resumption') :
    Forall₂ (Debris.Twin κ) resumption.debris resumption'.debris := by
  cases h with
  | value h => exact h.debris
  | error failure => exact .nil

theorem Frame.Twin.debris {frame frame' : Frame} (h : frame.Twin B κ frame') :
    Forall₂ (Debris.Twin κ) frame.debris frame'.debris := by
  cases h with
  | actions => exact forall₂_guards κ _
  | registering hx => exact .cons (.handle hx) .nil
  | driving _ hphase =>
    cases hphase with
    | settle hwaiters | resuming hwaiters => exact forall₂_handles hwaiters
    | _ => exact .nil
  | _ => exact .nil

theorem Frames.Twin.debris {insideFaulty : Bool} {frames frames' : List Frame}
    (h : Frames.Twin B κ insideFaulty frames frames') :
    Forall₂ (Debris.Twin κ) (frames.flatMap Frame.debris) (frames'.flatMap Frame.debris) := by
  induction h with
  | nil => exact .nil
  | cons hframe _ ih =>
    rw [List.flatMap_cons, List.flatMap_cons]
    exact List.rel_append hframe.debris ih
  | ailing =>
    rw [List.flatMap_singleton, List.flatMap_singleton]
    exact forall₂_guards κ _

theorem Fiber.Twin.debris {fiber fiber' : Fiber} (h : fiber.Twin B κ fiber') :
    Forall₂ (Debris.Twin κ) fiber.debris fiber'.debris := by
  obtain ⟨hid, hhome, -, insideFaulty, -, hstate⟩ := h
  cases fiber
  cases fiber'
  cases hid
  cases hhome
  cases hstate with
  | unstarted | finished => exact .nil
  | suspended hframes hfirst =>
    exact .cons (.fiber ..) (List.rel_append hframes.debris hfirst.debris)

theorem HandleCell.Twin.debris {cell cell' : HandleCell} (h : cell.Twin B κ cell') :
    Forall₂ (Debris.Twin κ) cell.debris cell'.debris := by
  obtain ⟨-, -, hslot⟩ := h
  cases cell
  cases cell'
  cases hslot with
  | pending | spent => exact .nil
  | woken h => exact h.debris
  | parked hfiber => exact hfiber.debris

/-! ### Schedulers -/

inductive Runnable.Twin (B : Bond) (κ : Ties) (s : SchedulerId) : Runnable → Runnable → Prop
  | fresh {id : FiberId} {body body' : List Action} {insideFaulty : Bool}
      (htold : (s, id, insideFaulty) ∈ κ.tasks) (hbody : Body.Twin B insideFaulty body body') :
      Twin B κ s (.fresh id body) (.fresh id body')
  | woken {fiber fiber' : Fiber} {resumption resumption' : Resumption}
      (hfiber : fiber.Twin B κ fiber') (hresumption : resumption.Twin κ resumption') :
      Twin B κ s (.woken fiber resumption) (.woken fiber' resumption')

/-- Tasks that the fault ends count as failed or panicked where they counted as completed. -/
structure Scheduler.Twin (B : Bond) (κ : Ties) (s : SchedulerId)
    (scheduler scheduler' : Scheduler) : Prop where
  queue : Forall₂ (Runnable.Twin B κ s) scheduler.queue scheduler'.queue
  lastId : scheduler.lastId = scheduler'.lastId
  owners : scheduler.owners = scheduler'.owners
  config : scheduler.pool.config = scheduler'.pool.config
  idle : ¬B.Panics → scheduler.pool.idle.length = scheduler'.pool.idle.length
  counters : B.Off (κ.struck.count s) scheduler.counters scheduler'.counters

theorem Runnable.Twin.mono {s : SchedulerId} {entry entry' : Runnable}
    (h : Runnable.Twin B κ s entry entry') (hgrows : κ.Grows κ') :
    Runnable.Twin B κ' s entry entry' := by
  cases h with
  | fresh htold hbody => exact .fresh (hgrows.tasks htold) hbody
  | woken hfiber hresumption => exact .woken (hfiber.mono hgrows) (hresumption.mono hgrows)

theorem Runnable.Twin.debris {s : SchedulerId} {entry entry' : Runnable}
    (h : Runnable.Twin B κ s entry entry') :
    Forall₂ (Debris.Twin κ) (entry.debris s) (entry'.debris s) := by
  cases h with
  | fresh => exact .cons (.task ..) .nil
  | woken hfiber hresumption => exact List.rel_append hfiber.debris hresumption.debris

theorem Scheduler.Twin.mono {s : SchedulerId} {scheduler scheduler' : Scheduler}
    (h : Scheduler.Twin B κ s scheduler scheduler') (hgrows : κ.Grows κ')
    (hstruck : κ'.struck.count s = κ.struck.count s) : Scheduler.Twin B κ' s scheduler scheduler' :=
  { h with
    queue := h.queue.imp fun _ _ h => h.mono hgrows
    counters := hstruck ▸ h.counters }

/-! ### Host work -/

inductive Ending.Twin (κ : Ties) : Ending → Ending → Prop
  | done {outcome outcome' : Resumption} (h : outcome.Twin κ outcome') :
      Twin κ (.done outcome) (.done outcome')
  | panicked : Twin κ .panicked .panicked

inductive Work.Twin (κ : Ties) : Work → Work → Prop
  | sleep (milliseconds : Nat) : Twin κ (.sleep milliseconds) (.sleep milliseconds)
  | asleep : Twin κ .asleep .asleep
  | answer (wait : Option String) {ending ending' : Ending} (h : ending.Twin κ ending') :
      Twin κ (.answer wait ending) (.answer wait ending')
  | queued (semaphore : String) {ending ending' : Ending} (h : ending.Twin κ ending') :
      Twin κ (.queued semaphore ending) (.queued semaphore ending')
  | granted (semaphore : String) {ending ending' : Ending} (h : ending.Twin κ ending') :
      Twin κ (.granted semaphore ending) (.granted semaphore ending')

inductive CallState.Twin (κ : Ties) : CallState → CallState → Prop
  | holding {x x' : HandleRef} {work work' : Work} (hx : κ.Linked x x')
      (hwork : work.Twin κ work') : Twin κ (.holding x work) (.holding x' work')
  | handing : Twin κ .handing .handing

structure HostCall.Twin (κ : Ties) (call call' : HostCall) : Prop where
  key : call.key = call'.key
  driver : call.driver = call'.driver
  state : CallState.Twin κ call.state call'.state

structure Agenda.Twin (κ : Ties) (agenda agenda' : Agenda) : Prop where
  now : agenda.now = agenda'.now
  calls : Forall₂ (HostCall.Twin κ) agenda.calls agenda'.calls
  ready : agenda.ready = agenda'.ready
  timers : agenda.timers = agenda'.timers

structure Driver.Twin (B : Bond) (κ : Ties) (driver driver' : Driver) : Prop where
  scheduler : driver.scheduler = driver'.scheduler
  own : B.own driver.scheduler
  inFlight : driver.inFlight = driver'.inFlight
  waiting : Forall₂ κ.Linked driver.waiting driver'.waiting
  notified : driver.notified = driver'.notified

theorem Ending.Twin.mono {ending ending' : Ending} (h : ending.Twin κ ending')
    (hgrows : κ.Grows κ') : ending.Twin κ' ending' := by
  cases h with
  | done h => exact .done (h.mono hgrows)
  | panicked => exact .panicked

theorem Ending.Twin.debris {ending ending' : Ending} (h : ending.Twin κ ending') :
    Forall₂ (Debris.Twin κ) ending.debris ending'.debris := by
  cases h with
  | done h => exact h.debris
  | panicked => exact .nil

theorem Work.Twin.mono {work work' : Work} (h : work.Twin κ work') (hgrows : κ.Grows κ') :
    work.Twin κ' work' := by
  cases h with
  | sleep milliseconds => exact .sleep milliseconds
  | asleep => exact .asleep
  | answer wait h => exact .answer wait (h.mono hgrows)
  | queued semaphore h => exact .queued semaphore (h.mono hgrows)
  | granted semaphore h => exact .granted semaphore (h.mono hgrows)

theorem Work.Twin.ending {work work' : Work} (h : work.Twin κ work') :
    work.ending.Twin κ work'.ending := by
  cases h with
  | sleep | asleep => exact .done (.unit κ)
  | answer _ h | queued _ h | granted _ h => exact h

theorem CallState.Twin.mono {state state' : CallState} (h : state.Twin κ state')
    (hgrows : κ.Grows κ') : state.Twin κ' state' := by
  cases h with
  | holding hx hwork => exact .holding (hx.mono hgrows) (hwork.mono hgrows)
  | handing => exact .handing

theorem HostCall.Twin.mono {call call' : HostCall} (h : call.Twin κ call') (hgrows : κ.Grows κ') :
    call.Twin κ' call' :=
  { h with state := h.state.mono hgrows }

theorem HostCall.Twin.debris {call call' : HostCall} (h : call.Twin κ call') :
    Forall₂ (Debris.Twin κ) call.debris call'.debris := by
  obtain ⟨-, -, hstate⟩ := h
  cases call
  cases call'
  cases hstate with
  | holding hx hwork => exact .cons (.handle hx) hwork.ending.debris
  | handing => exact .nil

theorem Agenda.Twin.mono {agenda agenda' : Agenda} (h : agenda.Twin κ agenda')
    (hgrows : κ.Grows κ') : agenda.Twin κ' agenda' :=
  { h with calls := h.calls.imp fun _ _ h => h.mono hgrows }

theorem Driver.Twin.mono {driver driver' : Driver} (h : driver.Twin B κ driver')
    (hgrows : κ.Grows κ') : driver.Twin B κ' driver' :=
  { h with waiting := h.waiting.imp fun _ _ h => h.mono hgrows }

end Fibers
