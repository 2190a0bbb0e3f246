import Fibers.Proofs.Preservation

/-!
What all programs do to a world. Whatever an action or a frame does comes down to a
few operations on handles, schedulers, names and the history, and to changes of the
rest. Between two of them a fiber may be in hand: it was taken out of its place and is
about to be put into another one, entered, or released. A relation that admits these
operations relates the worlds before and after every step that neither takes a task
from a queue nor gets a fiber back for a scheduler.
-/

namespace Fibers

/-- A fiber that control is inside of, as it would be if it suspended now. -/
def Running.fiber (running : Running) : Fiber :=
  running.leave (.suspended running.frames running.first)

/-- The fiber that control brings. -/
def Control.fiber? : Control → Option Fiber
  | .back fiber _ => some fiber
  | _ => none

/-- The fiber that waking hands out. -/
def wokenFiber : Except SchedulerFault (Option (Fiber × Resumption)) → Option Fiber
  | .ok met => met.map Prod.fst
  | .error _ => none

namespace World

theorem schedulers_takeHandle {w w' : World} {name : String} {keep : Bool} {x : HandleRef}
    (h : w.takeHandle? name keep = some (x, w')) : w'.schedulers = w.schedulers := by
  rw [takeHandle?, Option.map_eq_some_iff] at h
  obtain ⟨handle, -, heq⟩ := h
  split at heq <;> cases heq <;> rfl

theorem schedulers_foreignHandle {w w' : World} {slot : Option String} {keep : Bool} {x : HandleRef}
    (h : Machine.foreignHandle? w slot keep = some (x, w')) : w'.schedulers = w.schedulers := by
  rw [Machine.foreignHandle?, Option.bind_eq_some_iff] at h
  obtain ⟨name, -, htake⟩ := h
  exact schedulers_takeHandle htake

theorem owners_wake (w : World) (x : HandleRef) (owner : Owner) (resumption : Resumption)
    (s : SchedulerId) : (w.wake x owner resumption).2.owners s = w.owners s := by
  rw [wake]
  split
  · rfl
  · split <;> rw [owners, scheduler?, release_schedulers] <;> rfl

theorem owners_own_pos {w : World} {s t : SchedulerId} (h : 0 < w.owners t) :
    0 < (w.own s).owners t := by
  rw [own, owners_updateScheduler]
  split
  · rw [owners] at h
    cases hs : w.scheduler? t with
    | none => simp [hs] at h
    | some scheduler => exact Nat.succ_pos _
  · exact h

end World

/-- What names, positions and drivers refer to is there. -/
structure World.Linked (w : World) : Prop where
  slots {name : String} {x : HandleRef} (h : w.slots.get? name = some x) : 0 < w.handles.clones x
  positions {position : Nat} {s : SchedulerId} (h : w.schedulerAt position = some s) :
    0 < w.owners s
  drivers {d : DriverId} {driver : Driver} (h : w.driver? d = some driver) :
    0 < w.owners driver.scheduler

/-- In a world whose books are right everything that is referred to is there. -/
theorem World.Balanced.linked {w : World} {out : List Asset} (h : w.Balanced out) : w.Linked where
  slots {name x} hslot := by
    have hclone := le_worth_of_slot hslot (Asset.cloneOf x)
    rw [h.clones]
    simp only [Asset.cloneOf, if_true] at hclone
    omega
  positions hs := by
    obtain ⟨scheduler, hscheduler, halive⟩ := h.schedulerAt_alive hs
    rwa [owners, hscheduler]
  drivers {d driver} hd := by
    obtain ⟨scheduler, hscheduler, halive⟩ :=
      h.fedBy_alive (s := driver.scheduler) (by rw [fedBy, hd]; rfl)
    rwa [owners, hscheduler]

namespace World.Linked

variable {w w' : World} {name : String} {keep : Bool} {x : HandleRef}

theorem alive (h : w.Linked) (htake : w.takeHandle? name keep = some (x, w')) :
    0 < w.handles.clones x :=
  h.slots (slot_of_takeHandle htake)

theorem clones_retain (w : World) (x y : HandleRef) :
    w.handles.clones y ≤ (w.retain x).handles.clones y := by
  rw [retain, HandleTable.retain]
  cases hcell : w.handles.get? x with
  | none => exact Nat.le_refl _
  | some cell =>
    rw [HandleTable.clones_put hcell]
    split
    next heq =>
      rw [heq, HandleTable.clones, hcell]
      exact Nat.le_succ _
    next => exact Nat.le_refl _

/-- A handle that was taken out of its slot, or cloned, is held. -/
theorem takeHandle (h : w.Linked) (htake : w.takeHandle? name keep = some (x, w')) :
    w'.Linked ∧ 0 < w'.handles.clones x := by
  have halive := h.alive htake
  rw [takeHandle?, Option.map_eq_some_iff] at htake
  obtain ⟨handle, -, heq⟩ := htake
  split at heq <;> cases heq
  · have hmore := clones_retain w x
    exact ⟨⟨fun hslot => Nat.lt_of_lt_of_le (h.slots hslot) (hmore _), h.positions, h.drivers⟩,
      Nat.lt_of_lt_of_le halive (hmore x)⟩
  · refine ⟨⟨fun {other y} hslot => ?_, h.positions, h.drivers⟩, halive⟩
    by_cases hname : other = name
    · rw [hname, Names.get?_erase_self] at hslot
      cases hslot
    · rw [Names.get?_erase_of_ne _ hname] at hslot
      exact h.slots hslot

theorem resumption {delivery : Delivery} {resumption : Resumption} (h : w.Linked)
    (htake : w.resumption? delivery = some (resumption, w')) : w'.schedulers = w.schedulers ∧
    w'.Linked := by
  unfold resumption? payload? at htake
  split at htake
  · rw [Option.map_eq_some_iff] at htake
    obtain ⟨⟨payload, after⟩, hpayload, heq⟩ := htake
    cases heq
    split at hpayload
    · cases hpayload
      exact ⟨rfl, h⟩
    · rw [Option.map_eq_some_iff] at hpayload
      obtain ⟨⟨x, taken⟩, htaken, heq⟩ := hpayload
      cases heq
      exact ⟨schedulers_takeHandle htaken, (h.takeHandle htaken).1⟩
  · cases htake
    exact ⟨rfl, h⟩

theorem takeCoroutine {fiber : Fiber} (h : w.Linked)
    (htake : w.takeCoroutine? name = some (fiber, w')) : w'.Linked := by
  rw [takeCoroutine?, Option.map_eq_some_iff] at htake
  obtain ⟨found, -, heq⟩ := htake
  cases heq
  exact ⟨h.slots, h.positions, h.drivers⟩

end World.Linked

/-- A driver warns that it could not resume a fiber. -/
def Event.isLoss (event : Event) : Bool :=
  event.level = .warn &&
    ("host call finished but its fiber could not be resumed: ".toList.isPrefixOf
      event.message.toList || "could not resume waiter: ".toList.isPrefixOf event.message.toList)

namespace Event

theorem isLoss_callLost (fiber : FiberId) (reason : String) :
    (callLost fiber reason).isLoss = true := by
  simp [isLoss, callLost, about]

theorem isLoss_waiterLost (fiber : FiberId) (reason : String) :
    (waiterLost fiber reason).isLoss = true := by
  simp [isLoss, waiterLost, about]

theorem isLoss_rejected (fiber : FiberId) (reason : String) :
    (rejected fiber reason).isLoss = false := by
  simp [isLoss, rejected, about, List.isPrefixOf]

theorem isLoss_failed (fiber : FiberId) (reason : String) :
    (failed fiber reason).isLoss = false := by
  simp [isLoss, failed, about, List.isPrefixOf]

theorem isLoss_destroyed (fiber : FiberId) : (destroyed fiber).isLoss = false := by
  simp [isLoss, destroyed, about, List.isPrefixOf]

theorem isLoss_unheld (fiber : FiberId) : (unheld fiber).isLoss = false := by
  simp [isLoss, unheld, about, List.isPrefixOf]

theorem isLoss_usedHandle (fiber : FiberId) : (usedHandle fiber).isLoss = false := by
  simp [isLoss, usedHandle, about, List.isPrefixOf]

end Event

/-- The frame is that of a driver whose delivery was refused. -/
def Frame.Loses (frame : Frame) (control : Control) (fault : SchedulerFault) : Prop :=
  control = .answer (.error fault) ∧
    match frame with
    | .completing .. | .driving _ (.resuming ..) => True
    | _ => False

def Happening.isLoss : Happening → Bool
  | .event told => told.isLoss
  | _ => false

/-- A foreign call came back. -/
def Happening.isReturn : Happening → Bool
  | .mark (.returned ..) => true
  | _ => false

/-- A foreign call comes back, with its failure if it failed, and shows what it returns. -/
inductive World.ComesBack (w : World) : String → Option Failure → World → Prop
  | code (name : String) (code : Nat) :
      ComesBack w name none ((w.foreignReturned name).emit name (.record [("code", .nat code)]))
  | pointer (value : Nat) :
      ComesBack w "await" none ((w.foreignReturned "await").emit "got"
        (if value = 0 then Machine.foreignNull (w.foreignReturned "await") else .record
          [("value", .nat value)]))
  | refused (name : String) (failure : Failure) :
      ComesBack w name (some failure) ((w.foreignFailed name failure).emit name
        (.record [("code", .int (-1)),
          ("last_error", (w.foreignFailed name failure).lastErrorDatum)]))
  | null (failure : Failure) :
      ComesBack w "await" (some failure) ((w.foreignFailed "await" failure).emit "got"
        (Machine.foreignNull (w.foreignFailed "await" failure)))

/-- A relation between worlds, and the fibers that are in hand beside them, that goes
along with all operations of programs, but for the warnings of drivers and the returns of
foreign calls. -/
structure World.AdmitsWork (R : World → Option Fiber → World → Option Fiber → Prop) : Prop where
  trans {a b c : World} {first second third : Option Fiber} (before : R a first b second)
    (after : R b second c third) : R a first c third
  rest {a b : World} {hand : Option Fiber} (handles : b.handles = a.handles)
    (schedulers : b.schedulers = a.schedulers) (coroutines : b.coroutines = a.coroutines)
    (history : b.history = a.history) (lastError : b.lastError = a.lastError) :
    R a hand b hand
  write (w : World) (happening : Happening) (hloss : happening.isLoss = false)
    (hreturn : happening.isReturn = false) {hand : Option Fiber} :
    R w hand { w with history := w.history.push happening } hand
  release (w : World) (work : List Debris) {hand : Option Fiber} : R w hand (w.release work) hand
  retain (w : World) {x : HandleRef} (h : 0 < w.handles.clones x) {hand : Option Fiber} :
    R w hand (w.retain x) hand
  makeHandle (w : World) (id : FiberId) (clones : Nat) {hand : Option Fiber} :
    R w hand (w.makeHandle id clones).2 hand
  own (w : World) {s : SchedulerId} (h : 0 < w.owners s) {hand : Option Fiber} :
    R w hand (w.own s) hand
  disown (w : World) (s : SchedulerId) {hand : Option Fiber} : R w hand (w.disown s) hand
  enqueue (w : World) {s : SchedulerId} (h : 0 < w.owners s) (body : List Action)
    {hand : Option Fiber} : R w hand (w.enqueue s body).2 hand
  /-- A fiber that control was never in, or will not be in again, appears. -/
  pick (w : World) {fiber : Fiber} (h : ¬fiber.isSuspended = true) : R w none w (some fiber)
  take {w w' : World} {name : String} {fiber : Fiber}
    (h : w.takeCoroutine? name = some (fiber, w')) : R w none w' (some fiber)
  bind (w : World) (name : String) (fiber : Fiber) : R w (some fiber) (w.bind name fiber) none
  unwind (w : World) (fiber : Fiber) : R w (some fiber) (w.release fiber.debris) none
  park (w : World) {x : HandleRef} (h : 0 < w.handles.clones x) (fiber : Fiber) (owner : Owner) :
    R w (some fiber) (w.park x fiber owner).2 ((w.park x fiber owner).1.map Prod.fst)
  wake (w : World) (x : HandleRef) (owner : Owner) (resumption : Resumption) :
    R w none (w.wake x owner resumption).2 (wokenFiber (w.wake x owner resumption).1)
  append (w : World) {s : SchedulerId} (h : 0 < w.owners s) (fiber : Fiber)
    (resumption : Resumption) : R w (some fiber) (w.append s (.woken fiber resumption)) none

/-- Foreign calls may come back besides. -/
structure World.Admits (R : World → Option Fiber → World → Option Fiber → Prop) :
    Prop extends AdmitsWork R where
  comesBack {w w' : World} {name : String} {failure : Option Failure} {hand : Option Fiber}
    (h : w.ComesBack name failure w') : R w hand w' hand

namespace World.AdmitsWork

variable {R : World → Option Fiber → World → Option Fiber → Prop} (h : AdmitsWork R) {w w' : World}
  {hand : Option Fiber}

include h

theorem refl (w : World) : R w hand w hand := h.rest rfl rfl rfl rfl rfl

/-- A change of the rest comes before an operation. -/
theorem resting {a b c : World} {hand' : Option Fiber} (second : R b hand c hand')
    (handles : b.handles = a.handles) (schedulers : b.schedulers = a.schedulers)
    (coroutines : b.coroutines = a.coroutines) (history : b.history = a.history)
    (lastError : b.lastError = a.lastError) : R a hand c hand' :=
  h.trans (h.rest handles schedulers coroutines history lastError) second

/-- A fiber that is not suspended leaves nothing. -/
theorem forget (w : World) {fiber : Fiber} (hnot : ¬fiber.isSuspended = true) :
    R w (some fiber) w none := by
  have hnone : w.release fiber.debris = w := by
    have hdebris : fiber.debris = [] := by
      cases hstate : fiber.state with
      | suspended => simp [Fiber.isSuspended, Fiber.isStarted, Fiber.isFinished, hstate] at hnot
      | unstarted | finished => simp [Fiber.debris, hstate]
    simp [hdebris, World.release, HandleTable.release]
  have hunwind := h.unwind w fiber
  rwa [hnone] at hunwind

theorem emit (w : World) (name : String) (payload : Datum) : R w hand (w.emit name payload) hand :=
  h.write w _ rfl rfl

theorem tell (w : World) {event : Event} (hevent : event.isLoss = false) :
    R w hand (w.tell event) hand :=
  h.write w (.event event) hevent rfl

theorem mark (w : World) {told : Mark} (htold : (Happening.mark told).isReturn = false) :
    R w hand (w.mark told) hand :=
  h.write w (.mark told) rfl htold

theorem store (w : World) (name : String) (x : HandleRef) : R w hand (w.store name x) hand := by
  have hlaid : R w hand { w with slots := w.slots.insert name x } hand := h.rest rfl rfl rfl rfl rfl
  rw [World.store]
  split
  · exact hlaid
  · exact h.trans hlaid (h.release _ _)

theorem storeOrRelease (w : World) (name : Option String) (x : HandleRef) :
    R w hand (w.storeOrRelease name x) hand := by
  cases name with
  | none => exact h.release w _
  | some name => exact h.store w name x

theorem takeHandle (hw : w.Linked) {name : String} {keep : Bool} {x : HandleRef}
    (htake : w.takeHandle? name keep = some (x, w')) : R w hand w' hand := by
  have halive := hw.alive htake
  rw [takeHandle?, Option.map_eq_some_iff] at htake
  obtain ⟨handle, -, heq⟩ := htake
  split at heq <;> cases heq
  · exact h.retain w halive
  · exact h.rest rfl rfl rfl rfl rfl

theorem foreignHandle (hw : w.Linked) {slot : Option String} {keep : Bool} {x : HandleRef}
    (htake : Machine.foreignHandle? w slot keep = some (x, w')) : R w hand w' hand := by
  rw [Machine.foreignHandle?, Option.bind_eq_some_iff] at htake
  obtain ⟨name, -, htake⟩ := htake
  exact h.takeHandle hw htake

theorem resumption (hw : w.Linked) {delivery : Delivery} {resumption : Resumption}
    (htake : w.resumption? delivery = some (resumption, w')) : R w hand w' hand := by
  unfold resumption? payload? at htake
  split at htake
  · rw [Option.map_eq_some_iff] at htake
    obtain ⟨⟨payload, after⟩, hpayload, heq⟩ := htake
    cases heq
    split at hpayload
    · cases hpayload
      exact h.refl w
    · rw [Option.map_eq_some_iff] at hpayload
      obtain ⟨⟨x, taken⟩, htaken, heq⟩ := hpayload
      cases heq
      exact h.takeHandle hw htaken
  · cases htake
    exact h.refl w

theorem foldl {α : Type} {f : World → α → World} (hf : ∀ w a, R w hand (f w a) hand)
    (items : List α) (w : World) : R w hand (items.foldl f w) hand := by
  induction items generalizing w with
  | nil => exact h.refl w
  | cons a rest ih => exact h.trans (hf w a) (ih _)

theorem signal (w : World) (name : String) (permits : Nat) :
    R w hand (w.signal name permits) hand :=
  h.resting (h.foldl (fun u key => (h.rest rfl rfl rfl rfl rfl : R u hand (u.grant name key) hand))
      _ _) rfl rfl rfl rfl rfl

theorem dropCall (w : World) (call : HostCall) : R w hand (w.dropCall call) hand := by
  have hover : ∀ u : World, R u hand ((u.release call.debris).callOver call.driver) hand := fun u =>
    h.trans (h.release u _) (h.rest rfl rfl rfl rfl rfl)
  rw [World.dropCall]
  split
  · exact h.resting (hover _) rfl rfl rfl rfl rfl
  · exact h.trans (h.signal w _ 1) (hover _)
  · exact hover w

theorem closeAgenda (w : World) : R w hand w.closeAgenda hand := by
  rw [World.closeAgenda]
  split
  · exact h.refl w
  · exact h.trans (h.foldl h.dropCall _ w) (h.rest rfl rfl rfl rfl rfl)

theorem openAwait (w : World) (current : FiberId) (plan : AwaitPlan) (clones : Nat) :
    R w hand (Machine.openAwait w current plan clones).2 hand :=
  h.trans (h.makeHandle w current clones) (h.mark _ rfl)

end World.AdmitsWork

namespace Machine

@[simp]
theorem push_world (m : Machine) (frame : Frame) : (m.push frame).world = m.world := by
  rw [push]
  split <;> rfl

@[simp]
theorem advance_world (m : Machine) : m.advance.world = m.world := rfl

/-- Control has gone into the fiber that was in hand. -/
def HasEntered (m : Machine) (hand : Option Fiber) : Prop :=
  ∀ fiber, hand = some fiber → fiber.isSuspended = true →
    ∃ running below, m.running = running :: below ∧ running.fiber = fiber

theorem hasEntered_none (m : Machine) : m.HasEntered none := nofun

/-- A fiber is entered as it suspended. -/
theorem hasEntered_enter (m : Machine) (fiber : Fiber) (resumption : Resumption) :
    (m.enter fiber resumption).HasEntered (some fiber) := by
  rintro other heq hsuspended
  cases heq
  obtain ⟨serial, id, home, stack, state⟩ := fiber
  cases state with
  | suspended frames first => exact ⟨_, _, rfl, rfl⟩
  | unstarted | finished => cases hsuspended

end Machine

namespace World.AdmitsWork

open Machine

variable {R : World → Option Fiber → World → Option Fiber → Prop} (h : AdmitsWork R)
  {m m' n : Machine} {hand hand' : Option Fiber}

include h

/-! ### Transfers and runs -/

theorem suspend (m : Machine) (x : HandleRef) : R m.world hand (m.suspend x).world hand := by
  rw [Machine.suspend]
  split
  · exact h.refl _
  · exact h.rest rfl rfl rfl rfl rfl

theorem enter (m : Machine) (fiber : Fiber) (resumption : Resumption) :
    R m.world hand (m.enter fiber resumption).world hand := by
  rw [enter.eq_def]
  split
  · split <;> exact h.rest rfl rfl rfl rfl rfl
  · exact h.rest rfl rfl rfl rfl rfl
  · exact h.release _ _

theorem leave (m : Machine) (running : Running) (below : List Running) (exit : Exit) :
    R m.world hand (m.leave running below exit).world hand := by
  rw [Machine.leave]
  refine h.trans ?_ (h.trans (h.release _ running.first.debris) (h.mark _ rfl))
  exact h.rest rfl rfl rfl rfl rfl

theorem suspendAwait (m : Machine) (x : HandleRef) (plan : AwaitPlan) :
    R m.world hand (m.suspendAwait x plan).world hand := by
  have hsuspend : R _ hand _ hand := h.suspend (m.push (.awaiting x plan)) x
  rwa [push_world] at hsuspend

theorem run (m : Machine) (s : SchedulerId) (max : Option Nat) :
    R m.world hand (m.run s max).world hand := by
  rw [Machine.run]
  split
  · exact h.refl _
  · rw [advance_world, push_world]
    exact h.refl _

theorem dispatch (m : Machine) (s : SchedulerId) (fiber : Fiber) (resumption : Resumption) :
    R m.world hand (m.dispatch s fiber resumption).world hand := by
  have henter : R _ hand _ hand := h.enter (m.push (.dispatching s)) fiber resumption
  rwa [push_world] at henter

end World.AdmitsWork

namespace World.Admits

open Machine

variable {R : World → Option Fiber → World → Option Fiber → Prop} (h : Admits R) {m m' n : Machine}
  {hand hand' : Option Fiber}

include h

/-! ### Awaits -/

theorem failAwait (m : Machine) (plan : AwaitPlan) (failure : Failure) :
    R m.world hand (m.failAwait plan failure).world hand := by
  rw [Machine.failAwait]
  split
  · exact h.comesBack (.null failure)
  · exact h.refl _
  · exact h.emit _ _ _
  · exact h.refl _

theorem yieldAwait (m : Machine) (plan : AwaitPlan) (payload : Payload) :
    R m.world hand (m.yieldAwait plan payload).world hand := by
  rw [yieldAwait.eq_def]
  split
  · exact h.trans (h.storeOrRelease _ _ _) (h.emit _ _ _)
  · split
    · exact h.comesBack (.pointer _)
    all_goals exact h.emit _ _ _

theorem concludeAwait (m : Machine) (x : HandleRef) (plan : AwaitPlan) (resumption : Resumption) :
    R m.world hand (m.concludeAwait x plan resumption).world hand := by
  have hmarked : R m.world hand (m.world.mark (.awaited x resumption)) hand := h.mark m.world rfl
  refine h.trans hmarked ?_
  rw [concludeAwait.eq_def]
  generalize hmarked : m.withWorld (m.world.mark (.awaited x resumption)) = n
  rw [show m.world.mark (.awaited x resumption) = n.world from hmarked ▸ rfl]
  cases resumption with
  | error failure => exact h.failAwait n plan failure
  | value payload =>
    simp only
    split
    · exact h.yieldAwait n plan payload
    · exact h.trans (h.release _ payload.debris) (h.failAwait (n.withWorld _) plan _)

theorem concludeSuspend (m : Machine) (raises : Bool) (resumption : Resumption) :
    R m.world hand (m.concludeSuspend raises resumption).world hand := by
  rw [concludeSuspend.eq_def]
  cases resumption with
  | value payload => exact h.trans (h.emit _ _ _) (h.release _ payload.debris)
  | error failure => exact h.emit _ _ _

theorem registered {x : HandleRef} {plan : AwaitPlan} (hreact : m.registered x plan = some m') :
    R m.world hand m'.world hand := by
  rw [registered.eq_def] at hreact
  split at hreact <;> cases hreact
  · exact h.suspendAwait m x plan
  · exact h.trans (h.emit _ _ _) (h.suspendAwait (m.emit _ _) x plan)
  · exact h.release _ _

theorem await (m : Machine) (plan : AwaitPlan) (slot : Option String) (register : List Action) :
    R m.world hand (m.await plan slot register).world hand := by
  rw [Machine.await]
  split
  · exact h.failAwait m plan _
  · simp only [advance_world, push_world, withWorld_world]
    exact h.trans (h.openAwait _ _ plan 2) (h.trans (h.emit _ _ _) (h.storeOrRelease _ slot _))

theorem foreignAwait (m : Machine) (slot : String) (register : List Action) :
    R m.world hand (m.foreignAwait slot register).world hand := by
  rw [Machine.foreignAwait]
  split
  · exact h.failAwait m .foreign _
  · simp only [advance_world, push_world, withWorld_world]
    exact h.trans (h.openAwait _ _ .foreign _) (h.rest rfl rfl rfl rfl rfl)

theorem suspendOnSlot (hw : m.world.Linked) (slot : String) (keep raises : Bool) :
    R m.world hand (m.suspendOnSlot slot keep raises).world hand := by
  rw [Machine.suspendOnSlot]
  split
  · exact h.emit _ _ _
  next x w htake =>
    refine h.trans (h.takeHandle hw htake) ?_
    rw [suspendOn]
    split
    · have hsuspend : R _ hand _ hand := h.suspend ((m.withWorld w).push (.suspending raises)) x
      rwa [push_world] at hsuspend
    · exact h.trans (h.release w _) (h.emit _ _ _)

theorem transferred (m : Machine) (name : String) (slot : Option String) (fiber : Fiber)
    (exit : Exit) : R m.world (some fiber) (m.transferred name slot fiber exit).world none := by
  have hbound := h.bind m.world name fiber
  cases exit with
  | suspended x => exact h.trans hbound (h.trans (h.emit _ _ _) (h.storeOrRelease _ slot x))
  | completed | failed | panicked => exact h.trans hbound (h.emit _ _ _)

theorem issue (m : Machine) (d : DriverId) (work : Work) (plan : AwaitPlan) :
    R m.world hand (m.issue d work plan).world hand := by
  rw [Machine.issue]
  split
  · exact h.trans (h.release _ work.ending.debris) (h.failAwait (Machine.withWorld _ _) plan _)
  next current hcurrent hagenda =>
    have hopened : R _ hand _ hand := h.openAwait m.world current plan 2
    exact h.trans hopened (h.resting (h.release _ _) rfl rfl rfl rfl rfl)
  next current agenda hcurrent hagenda =>
    have hopened : R _ hand _ hand := h.openAwait m.world current plan 2
    exact h.trans hopened
      (h.resting (h.suspendAwait (Machine.withWorld _ _) _ plan) rfl rfl rfl rfl rfl)

theorem awaitAll (m : Machine) (d : DriverId) (plan : AwaitPlan) :
    R m.world hand (m.awaitAll d plan).world hand := by
  rw [Machine.awaitAll]
  split
  · exact h.failAwait m plan _
  next current hcurrent =>
    have hopened : R _ hand _ hand := h.openAwait m.world current plan 2
    exact h.trans hopened
      (h.resting (h.suspendAwait (Machine.withWorld _ _) _ plan) rfl rfl rfl rfl rfl)

/-! ### Fibers by hand -/

theorem handOut (m : Machine) (action name : String) (fiber : Fiber) (resumption : Resumption) :
    R m.world (some fiber) (m.handOut action name fiber resumption).world none :=
  h.trans (h.emit _ _ _) (h.trans (h.bind _ name fiber) (h.release _ resumption.debris))

theorem parkCoroutine (hw : m.world.Linked) (slot : String) (keep : Bool) (name : String)
    (owner : Nat) : R m.world none (m.park slot keep name owner).world none := by
  rw [Machine.park]
  split
  · exact h.emit _ _ _
  next fiber w htaken =>
    have hlinked := hw.takeCoroutine htaken
    refine h.trans (h.take htaken) ?_
    split
    · exact h.trans (h.emit _ _ _) (h.unwind _ fiber)
    next x w' hhandle =>
      have hpark := h.trans (h.takeHandle hlinked hhandle)
        (h.park w' (hlinked.takeHandle hhandle).2 fiber (.caller owner))
      generalize w'.park x fiber (.caller owner) = result at hpark
      obtain ⟨_ | ⟨other, resumption⟩, u⟩ := result
      · exact h.trans hpark (h.emit _ _ _)
      · exact h.trans hpark (h.handOut (m.withWorld u) "park" name other resumption)

theorem newCoroutine (m : Machine) (name : String) (id : FiberId) (stackSize : Nat)
    (body : List Action) : R m.world none (m.newCoroutine name id stackSize body).world none := by
  rw [Machine.newCoroutine]
  split
  · exact h.emit _ _ _
  next stack hmake =>
    have hmade : R m.world none
      (World.makeFiber { m.world with stacksMapped := m.world.stacksMapped + 1 } id none
      stack body).2 none := h.rest rfl rfl rfl rfl rfl
    exact h.trans hmade
      (h.trans (h.emit _ _ _) (h.trans (h.pick _ (fun hnot => by cases hnot)) (h.bind _ _ _)))

theorem takeStack (m : Machine) (name : String) : R m.world none (m.takeStack name).world none := by
  rw [Machine.takeStack]
  split
  · exact h.emit _ _ _
  next fiber w htaken =>
    refine h.trans (h.take htaken) ?_
    split
    · exact h.trans (h.unwind w fiber) (h.emit _ _ _)
    next hstate =>
      exact h.trans (h.forget w (by simp [Fiber.isSuspended, Fiber.isFinished, hstate]))
        (h.emit w _ _)
    next hstate => exact h.forget w (by simp [Fiber.isSuspended, Fiber.isStarted, hstate])

theorem dropCoroutine (m : Machine) (name : String) :
    R m.world none (m.dropCoroutine name).world none := by
  rw [Machine.dropCoroutine]
  split
  · exact h.emit _ _ _
  next htaken => exact h.trans (h.take htaken) (h.trans (h.unwind _ _) (h.emit _ _ _))

/-! ### Handles, schedulers and drivers -/

theorem cloneHandle (hw : m.world.Linked) (slot target : String) :
    R m.world hand (m.cloneHandle slot target).world hand := by
  rw [Machine.cloneHandle]
  split
  · exact h.emit _ _ _
  next htake => exact h.trans (h.takeHandle hw htake) (h.store _ _ _)

theorem dropHandle (hw : m.world.Linked) (slot : String) :
    R m.world hand (m.dropHandle slot).world hand := by
  rw [Machine.dropHandle]
  split
  · exact h.emit _ _ _
  next htake => exact h.trans (h.takeHandle hw htake) (h.trans (h.release _ _) (h.emit _ _ _))

theorem destroyHandle (hw : m.world.Linked) (slot : Option String) (keep : Bool) :
    R m.world hand (m.destroyHandle slot keep).world hand := by
  rw [Machine.destroyHandle]
  refine h.trans ?_ (h.emit _ _ _)
  split
  · exact h.refl _
  next htake =>
    exact h.trans (h.foreignHandle hw htake)
      (h.trans (h.tell _ (Event.isLoss_destroyed _)) (h.release _ _))

theorem foreignCallFailed (m : Machine) (name : String) (failure : Failure) :
    R m.world hand (m.foreignFailed name failure).world hand :=
  h.comesBack (.refused name failure)

theorem drive (m : Machine) (d : DriverId) : R m.world hand (m.drive d).world hand := by
  rw [Machine.drive]
  split
  · exact h.refl _
  · split
    · exact h.emit _ _ _
    · simp only [advance_world, push_world, withWorld_world]
      exact h.rest rfl rfl rfl rfl rfl

theorem newDriver (hw : m.world.Linked) (position : Nat) :
    R m.world hand (m.newDriver position).world hand := by
  rw [Machine.newDriver]
  split
  · exact h.emit _ _ _
  next s hs => exact h.trans (h.own _ (hw.positions hs)) (h.rest rfl rfl rfl rfl rfl)

theorem countdown (m : Machine) (counter : String) (body : List Action) :
    R m.world hand (m.countdown counter body).world hand := by
  rw [Machine.countdown]
  split
  · exact h.refl _
  · exact h.refl _
  · rw [push_world]
    exact h.rest rfl rfl rfl rfl rfl

theorem drained (m : Machine) (d : DriverId) (driver : Driver) :
    R m.world hand (m.drained d driver).world hand := by
  rw [Machine.drained]
  split
  · rw [advance_world, push_world]
    exact h.refl _
  · split
    · exact h.trans (h.trans (h.tell _ rfl) (h.closeAgenda _)) (h.emit _ _ _)
    · simp only [advance_world, push_world, withWorld_world]
      exact h.resting (h.tell _ rfl) rfl rfl rfl rfl rfl

theorem listen {d : DriverId} {driver : Driver} {agenda : Agenda}
    (hstep : m.listen? d driver agenda = some m') : R m.world hand m'.world hand := by
  rw [listen?] at hstep
  split at hstep
  · cases hstep
    simp only [advance_world, push_world, withWorld_world]
    exact h.rest rfl rfl rfl rfl rfl
  · split at hstep
    · obtain ⟨after, -, rfl⟩ := Option.map_eq_some_iff.1 hstep
      simp only [advance_world, push_world, withWorld_world]
      exact h.rest rfl rfl rfl rfl rfl
    · cases hstep
      rw [advance_world, push_world]
      exact h.refl _

theorem completed (m : Machine) (d : DriverId) (key : Nat) (fiber : FiberId)
    {result : Except SchedulerFault Nat}
    (hlost : ∀ fault event, result = .error fault → R m.world hand (m.world.tell event) hand) :
    R m.world hand (m.completed d key fiber result).world hand := by
  cases result with
  | ok => exact h.rest rfl rfl rfl rfl rfl
  | error fault => exact h.trans (hlost fault _ rfl) (h.rest rfl rfl rfl rfl rfl)

theorem reportCall (m : Machine) (s : SchedulerId) (reply : Reply)
    (result : Except SchedulerFault Nat) :
    R m.world hand (m.reportCall s reply result).world hand := by
  rw [reportCall.eq_def]
  refine h.trans ?_ (h.disown _ s)
  have hok : ∀ name code, R m.world hand (m.advance.foreignOk name code).world
      hand := fun name code =>
    h.comesBack (.code name code)
  have hanswer : ∀ name, R m.world hand (m.advance.foreignAnswer name result).world
      hand := fun name => by
    cases result with
    | ok code => exact hok name code
    | error fault => exact h.foreignCallFailed m.advance name _
  split <;> first | exact hanswer _ | exact hok _ _ | exact h.emit _ _ _ | exact h.refl _

end World.Admits

/-- The second machine comes out of the first one, which has a fiber in hand; the one
that was in hand last is entered. -/
def Machine.Carries (R : World → Option Fiber → World → Option Fiber → Prop) (hand : Option Fiber)
    (m m' : Machine) : Prop :=
  ∃ entered, R m.world hand m'.world entered ∧ m'.HasEntered entered

namespace World.AdmitsWork

open Machine

variable {R : World → Option Fiber → World → Option Fiber → Prop} (h : AdmitsWork R)
  {m m' n : Machine} {hand hand' : Option Fiber}

/-- Nothing is in hand in the end. -/
theorem carries (hrel : R m.world hand m'.world none) : m.Carries R hand m' :=
  ⟨none, hrel, m'.hasEntered_none⟩

include h

theorem carries_of (hrel : R m.world hand n.world hand') (hcarries : n.Carries R hand' m') :
    m.Carries R hand m' := by
  obtain ⟨entered, hafter, hinto⟩ := hcarries
  exact ⟨entered, h.trans hrel hafter, hinto⟩

theorem dispatches (m : Machine) (s : SchedulerId) (fiber : Fiber) (resumption : Resumption) :
    m.Carries R (some fiber) (m.dispatch s fiber resumption) :=
  ⟨some fiber, h.dispatch m s fiber resumption, hasEntered_enter _ _ _⟩

end World.AdmitsWork

namespace World.Admits

open Machine
open AdmitsWork (carries)

variable {R : World → Option Fiber → World → Option Fiber → Prop} (h : Admits R) {m m' n : Machine}
  {hand hand' : Option Fiber}

include h

/-! ### Deliveries -/

theorem deliver (m : Machine) {s : SchedulerId} (hs : 0 < m.world.owners s) (x : HandleRef)
    (resumption : Resumption) : m.Carries R none (m.deliver s x resumption) := by
  have hwake := h.wake m.world x (.scheduler s) resumption
  rw [← World.owners_wake m.world x (.scheduler s) resumption] at hs
  rw [Machine.deliver]
  generalize m.world.wake x (.scheduler s) resumption = result at hwake hs
  obtain ⟨fault | _ | ⟨fiber, told⟩, w⟩ := result
  · exact carries (h.trans hwake (h.tell w (Event.isLoss_rejected _ _)))
  · exact carries (h.trans hwake (h.tell w rfl))
  · simp only
    split
    · exact carries (h.trans hwake (h.trans (h.tell w rfl) (h.append (w.tell _) hs fiber told)))
    · let n := (m.withWorld ((w.tell (.resuming (m.world.handleId x))).mark
        (.dispatched s (.woken fiber told)))).push (.draining s 0 none)
      have hrel : R m.world none n.world (some fiber) := by
        rw [push_world]
        exact h.trans hwake (h.trans (h.tell w rfl) (h.mark _ rfl))
      exact h.carries_of hrel (h.dispatches n s fiber told)

/-- A delivery comes after something that stays. -/
theorem delivers (hrel : R m.world none n.world none) {s : SchedulerId} (hs : 0 < n.world.owners s)
    (x : HandleRef) (resumption : Resumption) : m.Carries R none (n.deliver s x resumption) :=
  h.carries_of hrel (h.deliver n hs x resumption)

/-! ### What actions need -/

theorem withScheduler (hw : m.world.Linked) (name : String) (position : Nat)
    {use : SchedulerId → Machine} (huse : ∀ s, 0 < m.world.owners s → m.Carries R none (use s)) :
    m.Carries R none (m.withScheduler name position use) := by
  rw [Machine.withScheduler]
  split
  · exact carries (h.emit _ _ _)
  next s hs => exact huse s (hw.positions hs)

theorem withDriver (m : Machine) (name : String) (position : Nat) {use : DriverId → Machine}
    (huse : ∀ d, m.Carries R none (use d)) : m.Carries R none (m.withDriver name position use) := by
  rw [Machine.withDriver]
  split
  · exact carries (h.emit _ _ _)
  · exact huse _

/-- Where the resumption is lacking, what was taken is released; a fiber may be in hand
that is part of it. -/
theorem withResumption (hw : m.world.Linked) (name : String) (delivery : Delivery)
    {taken : List Debris} {use : Machine → Resumption → Machine}
    (hlose : ∀ w : World, R w hand (w.release taken) none)
    (huse : ∀ (n : Machine) (resumption : Resumption), n.world.schedulers = m.world.schedulers →
      n.world.Linked →
      n.Carries R hand (use n resumption)) : m.Carries R hand
        (m.withResumption name delivery taken use) := by
  rw [Machine.withResumption]
  split
  · exact carries (h.trans (h.emit _ _ _) (hlose _))
  next htake =>
    obtain ⟨hschedulers, hlinked⟩ := hw.resumption htake
    exact h.carries_of (n := m.withWorld _) (h.resumption hw htake)
      (huse (m.withWorld _) _ hschedulers hlinked)

theorem withEnding (hw : m.world.Linked) (name : String) (outcome : CallOutcome)
    {use : Machine → Ending → Machine}
    (huse : ∀ (n : Machine) (ending : Ending), n.Carries R none (use n ending)) :
    m.Carries R none (m.withEnding name outcome use) := by
  cases outcome with
  | done delivery =>
    exact h.withResumption hw name delivery (fun w => h.release w []) fun n outcome _ _ =>
      huse n (.done outcome)
  | panicked => exact huse m .panicked

/-- A scheduler is owned while it is called. -/
theorem answering (m : Machine) {s : SchedulerId} (hs : 0 < m.world.owners s) (reply : Reply)
    (x : HandleRef) (resumption : Resumption) :
    m.Carries R none
      (((m.withWorld (m.world.own s)).push (.answering s reply)).deliver s x resumption) := by
  refine h.delivers ?_ ?_ x resumption
  · rw [push_world]
    exact h.own _ hs
  · rw [push_world]
    exact World.owners_own_pos hs

theorem resume (hw : m.world.Linked) (position : Nat) (slot : String) (keep : Bool)
    (delivery : Delivery) (raises : Bool) :
    m.Carries R none (m.resume position slot keep delivery raises) := by
  refine h.withScheduler hw _ _ fun s hs => ?_
  split
  · exact carries (h.emit _ _ _)
  next x w htake =>
    refine h.carries_of (n := m.withWorld w) (h.takeHandle hw htake)
      (h.withResumption (hw.takeHandle htake).1 _ _
      (fun w => h.release w _) fun n resumption hschedulers _ => h.answering n ?_ _ _ resumption)
    rwa [World.owners, World.scheduler?, hschedulers, withWorld_world,
      World.schedulers_takeHandle htake]

theorem runLoop (hw : m.world.Linked) (position : Nat) (max : Option Nat) (reply : Reply) :
    m.Carries R none (m.runLoop position max reply) := by
  refine h.withScheduler hw _ _ fun s hs => carries ?_
  have hrun : R _ none _ none :=
    h.run ((m.withWorld (m.world.own s)).push (.answering s reply)) s max
  rw [push_world] at hrun
  exact h.trans (h.own _ hs) hrun

theorem foreignResume (hw : m.world.Linked) {s : SchedulerId} (hs : 0 < m.world.owners s)
    (name : String) (slot : Option String) (keep : Bool) (resumption : Resumption) :
    m.Carries R none (m.foreignResume name s slot keep resumption) := by
  rw [Machine.foreignResume]
  split
  · exact carries (h.foreignCallFailed m name _)
  next x w htake =>
    refine h.carries_of (n := m.withWorld w) (h.foreignHandle hw htake)
      (h.answering (m.withWorld w) ?_ _ _ resumption)
    rwa [World.owners, World.scheduler?, withWorld_world, World.schedulers_foreignHandle htake]

theorem directResume (hw : m.world.Linked) {s : SchedulerId} (hs : 0 < m.world.owners s)
    (slot : Option String) (keep : Bool) (resumption : Resumption) :
    m.Carries R none (m.directResume s slot keep resumption) := by
  rw [Machine.directResume]
  split
  · exact carries (h.trans (h.emit _ _ _) (h.release _ _))
  next x w htake =>
    refine h.carries_of (n := m.withWorld w) (h.foreignHandle hw htake)
      (h.answering (m.withWorld w) ?_ _ _ resumption)
    rwa [World.owners, World.scheduler?, withWorld_world, World.schedulers_foreignHandle htake]

theorem wakeCoroutine (hw : m.world.Linked) (slot : String) (keep : Bool)
    (name : String) (owner : Nat) (delivery : Delivery) :
    m.Carries R none (m.wake slot keep name owner delivery) := by
  rw [Machine.wake]
  split
  · exact carries (h.emit _ _ _)
  next x w htaken =>
    refine h.carries_of (n := m.withWorld w) (h.takeHandle hw htaken)
      (h.withResumption (hw.takeHandle htaken).1 _ _
      (fun w => h.release w _) fun n resumption _ _ => carries ?_)
    have hwake := h.wake n.world x (.caller owner) resumption
    generalize n.world.wake x (.caller owner) resumption = result at hwake
    obtain ⟨_ | _ | ⟨fiber, told⟩, u⟩ := result
    · exact h.trans hwake (h.emit _ _ _)
    · exact h.trans hwake (h.emit _ _ _)
    · exact h.trans hwake (h.handOut (n.withWorld u) "wake" name fiber told)

theorem transfer (hw : m.world.Linked) (name : String) (delivery : Delivery)
    (slot : Option String) : m.Carries R none (m.transfer name delivery slot) := by
  rw [Machine.transfer]
  split
  · exact carries (h.emit _ _ _)
  next fiber w htaken =>
    refine h.carries_of (n := m.withWorld w) (h.take htaken)
      (h.withResumption (hw.takeCoroutine htaken) _ _
      (fun w => h.unwind w fiber) fun n resumption _ _ => ⟨some fiber, ?_, hasEntered_enter _ _ _⟩)
    have henter : R _ (some fiber) _ (some fiber) :=
      h.enter (n.push (.transferring name slot)) fiber resumption
    rwa [push_world] at henter

theorem giveUpScheduler (hw : m.world.Linked) (name : String) (position : Nat) (shown : Datum) :
    m.Carries R none (m.withScheduler name position fun s =>
      (m.withWorld ((m.world.setScheduler position none).disown s)).emit name shown) :=
  h.withScheduler hw _ _ fun s _ => carries
    (h.resting (h.trans (h.disown (m.world.setScheduler position none) s) (h.emit _ _ _)) rfl
      rfl rfl rfl rfl)

/-- Whatever an action does, the relation goes along with it. -/
theorem perform (hw : m.world.Linked) (action : Action) : m.Carries R none (m.perform action) := by
  have hpushed : ∀ (n : Machine) (frame : Frame), R n.world none (n.push frame).world
      none := fun n frame => by
    rw [push_world]
    exact h.refl _
  cases action
  case foreign position action =>
    rw [Machine.perform]
    split
    · exact carries (h.emit _ _ _)
    · exact perform hw action
  case scope body catches =>
    cases catches with
    | true => exact carries (h.trans (hpushed m .catching) (hpushed _ _))
    | false => exact carries (hpushed m _)
  case again => exact carries (hpushed m _)
  case guard | fail | panic => exact carries (h.refl _)
  case enqueue | enqueueNamed =>
    exact h.withScheduler hw _ _ fun s hs => carries (h.trans (h.enqueue _ hs _) (h.emit _ _ _))
  case run | foreignRun => exact h.runLoop hw _ _ _
  case resume => exact h.resume hw _ _ _ _ _
  case suspend => exact carries (h.suspendOnSlot hw _ _ _)
  case await => exact carries (h.await m _ _ _)
  case foreignAwait => exact carries (h.foreignAwait m _ _)
  case park => exact carries (h.parkCoroutine hw _ _ _ _)
  case wake => exact h.wakeCoroutine hw _ _ _ _ _
  case newCoroutine => exact carries (h.newCoroutine m _ _ _ _)
  case transfer => exact h.transfer hw _ _ _
  case takeStack => exact carries (h.takeStack m _)
  case dropCoroutine => exact carries (h.dropCoroutine m _)
  case newDriver => exact carries (h.newDriver hw _)
  case newHandle => exact carries (h.trans (h.makeHandle _ _ 1) (h.store _ _ _))
  case countdown => exact carries (h.countdown m _ _)
  case clone => exact carries (h.cloneHandle hw _ _)
  case drop => exact carries (h.dropHandle hw _)
  case destroyHandle => exact carries (h.destroyHandle hw _ _)
  case dropScheduler | destroyScheduler => exact h.giveUpScheduler hw _ _ _
  case signal => exact carries (h.signal _ _ _)
  case drive => exact h.withDriver m _ _ fun d => carries (h.drive m d)
  case driverState | inFlight => exact h.withDriver m _ _ fun d => carries (h.emit _ _ _)
  case pending => exact h.withScheduler hw _ _ fun s _ => carries (h.emit _ _ _)
  case sleep | blocking => exact h.withDriver m _ _ fun d => carries (h.issue m d _ _)
  case awaitAll => exact h.withDriver m _ _ fun d => carries (h.awaitAll m d _)
  case call =>
    exact h.withDriver m _ _ fun d => h.withEnding hw _ _ fun n ending => carries (h.issue n d _ _)
  case directResume =>
    exact h.withScheduler hw _ _ fun s hs => h.withResumption hw _ _ (fun w => h.release w _)
      fun n resumption hschedulers hlinked =>
        h.directResume hlinked (by rwa [World.owners, World.scheduler?, hschedulers]) _ _ resumption
  case foreignResume | foreignError =>
    exact h.withScheduler hw _ _ fun s hs => h.foreignResume hw hs _ _ _ _
  case handle | coroutineInfo =>
    refine carries ?_
    simp only [Machine.perform, showHandle, coroutineInfo]
    split <;> exact h.emit _ _ _
  case log | state | unknown | handleText | lastError => exact carries (h.emit _ _ _)

/-! ### Drivers and frames -/

theorem complete (hw : m.world.Linked) (call : HostCall) (x : HandleRef) (ending : Ending) :
    m.Carries R none (m.complete call x ending) := by
  rw [Machine.complete]
  split
  · exact carries (h.refl _)
  next driver hd =>
    have hs : 0 < m.world.owners driver.scheduler := hw.drivers hd
    cases ending with
    | done outcome =>
      refine h.delivers ?_ ?_ x outcome <;> rw [push_world]
      · exact h.rest rfl rfl rfl rfl rfl
      · exact hs
    | panicked =>
      refine carries (h.trans ?_ (h.release _ _))
      rw [push_world]
      exact h.rest rfl rfl rfl rfl rfl

theorem turn (hw : m.world.Linked) (call : HostCall) : m.Carries R none (m.turn call) := by
  rw [Machine.turn]
  split
  · exact carries (h.refl _)
  · split
    · split
      · exact h.complete hw call _ _
      · exact carries (h.rest rfl rfl rfl rfl rfl)
    · exact h.complete hw call _ _
    · exact h.complete hw call _ _
    · simp only
      split
      · refine h.carries_of ?_ (h.complete ?_ call _ _)
        · exact h.rest rfl rfl rfl rfl rfl
        · exact ⟨hw.slots, hw.positions, hw.drivers⟩
      · exact carries (h.rest rfl rfl rfl rfl rfl)
    · exact carries (h.refl _)
    · exact h.complete hw call _ _

theorem poll (hw : m.world.Linked) (d : DriverId) (turns : Nat) (agenda : Agenda) :
    m.Carries R none (m.poll d turns agenda) := by
  rw [poll.eq_def]
  split
  next turns key rest hready =>
    have hset : R m.world none
        (((m.withWorld { m.world with agenda := some { agenda with ready := rest } }).push
        (.driving d (.poll turns))).advance).world none := by
      simp only [advance_world, push_world, withWorld_world]
      exact h.rest rfl rfl rfl rfl rfl
    simp only
    split
    · exact carries hset
    · refine h.carries_of hset (h.turn ?_ _)
      rw [advance_world, push_world]
      exact ⟨hw.slots, hw.positions, hw.drivers⟩
  · refine carries ?_
    rw [advance_world, push_world]
    exact h.refl _

theorem stepDriver (hw : m.world.Linked) {d : DriverId} {phase : DriverPhase}
    (hlost : ∀ fault event, (Frame.driving d phase).Loses m.control fault →
      R m.world none (m.world.tell event) none)
    (hstep : m.stepDriver? d phase = some m') : m.Carries R none m' := by
  have hpushed : ∀ frame, R m.world none (m.push frame).world none := fun frame => by
    rw [push_world]
    exact h.refl _
  rw [stepDriver?.eq_def] at hstep
  split at hstep
  next driver agenda hd hagenda =>
    split at hstep
    · cases hstep
      exact carries (h.trans (hpushed _) (h.run _ _ _))
    · cases hstep
      exact carries (h.drained m d _)
    · exact carries (h.listen hstep)
    · cases hstep
      exact h.poll hw d _ _
    · cases hstep
      exact carries (hpushed _)
    · cases hstep
      refine h.delivers (hpushed _) ?_ _ _
      rw [push_world]
      exact hw.drivers hd
    next result hcontrol =>
      cases hstep
      refine carries ?_
      rw [advance_world, push_world]
      cases result with
      | ok => exact h.refl _
      | error fault => exact hlost fault _ ⟨hcontrol, trivial⟩
    · cases hstep
  · cases hstep

/-- The relation goes along with every frame that takes no task from a queue and gets
no fiber back for a scheduler, and where a driver warns of a loss if it goes along with that. -/
theorem react (hw : m.world.Linked) {frame : Frame}
    (hdrain : ∀ s ran max, frame = .draining s ran max → m.control ≠ .advance)
    (hback : ∀ s fiber exit, frame = .dispatching s → m.control ≠ .back fiber exit)
    (hlost : ∀ fault event, frame.Loses m.control fault → R m.world none (m.world.tell event) none)
    (hreact : m.react? frame = some m') : m.Carries R m.control.fiber? m' := by
  have hpushed : ∀ (n : Machine) (frame : Frame), R n.world none (n.push frame).world
      none := fun n frame => by
    rw [push_world]
    exact h.refl _
  have hregistered : ∀ {x plan}, m.registered x plan = some m' →
      m.Carries R m.control.fiber? m' := by
    intro x plan hreact
    have hcode : m.control.fiber? = none := by
      rw [registered.eq_def] at hreact
      split at hreact <;> simp_all [Control.fiber?]
    rw [hcode]
    exact carries (h.registered hreact)
  have hdriven : ∀ {d phase}, (∀ fault event, (Frame.driving d phase).Loses m.control fault →
      R m.world none (m.world.tell event) none) → m.stepDriver? d phase = some m' →
        m.Carries R m.control.fiber? m' := by
    intro d phase hlost hreact
    have hplain : m.control.fiber? = none := by
      rw [stepDriver?.eq_def] at hreact
      split at hreact
      · split at hreact <;> simp_all [Control.fiber?]
      · cases hreact
    rw [hplain]
    exact h.stepDriver hw hlost hreact
  rw [react?.eq_def] at hreact
  split at hreact
  all_goals first
    | exact hregistered hreact
    | exact hdriven hlost hreact
    | cases hreact
  all_goals first
    | exact absurd ‹m.control = _› (hback _ _ _ rfl)
    | exact absurd ‹m.control = _› (hdrain _ _ _ rfl)
    | rw [‹m.control = _›]
  all_goals first
    | exact carries (h.concludeAwait m _ _ _)
    | exact carries (h.concludeSuspend m _ _)
    | exact carries (h.transferred m _ _ _ _)
    | exact carries (h.reportCall m _ _ _)
    | exact carries
        (h.completed m _ _ _ fun fault event heq => hlost fault event
          ⟨heq ▸ ‹m.control = _›, trivial⟩)
    | exact h.carries_of (hpushed m _) (h.perform (by rwa [push_world]) _)
    | exact carries (h.trans (hpushed m _) (hpushed _ _))
    | exact carries (hpushed m _)
    | exact carries (h.release _ _)
    | exact carries (h.emit _ _ _)
    | exact carries (h.refl _)

/-- The relation goes along with every move but those. -/
theorem move (hw : m.world.Linked) (hmove : m.move? = some m')
    (hdrain : ∀ s ran max frames, m.top = .draining s ran max :: frames → m.control ≠ .advance)
    (hback : ∀ s frames fiber exit, m.top = .dispatching s :: frames → m.control ≠ .back fiber exit)
    (hlost : ∀ frame frames fault event, m.top = frame :: frames → frame.Loses m.control fault →
      R m.world none (m.world.tell event) none) : m.Carries R m.control.fiber? m' := by
  cases htop : m.top with
  | cons frame frames =>
    rw [move?_of_top m htop] at hmove
    exact h.react (m := m.goTo frames m.world m.control) hw
      (fun s ran max heq => hdrain s ran max frames (heq ▸ htop))
      (fun s fiber exit heq => hback s frames fiber exit (heq ▸ htop))
      (fun fault event => hlost frame frames fault event htop) hmove
  | nil =>
    obtain ⟨world, levels, root, control⟩ := m
    cases levels with
    | nil =>
      have hroot : root = [] := htop
      subst hroot
      cases hmove
    | cons running below =>
      have hframes : running.frames = [] := htop
      rw [move?.eq_def] at hmove
      simp only [hframes] at hmove
      obtain ⟨exit, hexit, rfl⟩ := Option.map_eq_some_iff.1 hmove
      have hcode : control.fiber? = none := by
        cases control <;> first | rfl | cases hexit
      rw [hcode]
      exact carries (h.leave _ running below exit)

end World.Admits

end Fibers
