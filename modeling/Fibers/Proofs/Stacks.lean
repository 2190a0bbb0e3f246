import Fibers.Script

/-!
The shapes of stacks. What a program writes down are plain frames; above them a
stack has at most a few frames that say what it waits for. A scheduler's run
loop stands only at the root, on the frame of whoever asked for it, and a fiber
is only entered from a loop or from a transfer by hand. The predicates here are
stated once for every level: the root and each of the fibers control is in.
-/

namespace Fibers

/-- Frames of the lists of actions that a program consists of. The await of a
register function belongs to a fiber. -/
def Frame.isPlain (inFiber : Bool) : Frame → Bool
  | .actions .. | .again .. | .catching => true
  | .registering .. => inFiber
  | _ => false

def PlainStack (inFiber : Bool) (frames : List Frame) : Prop :=
  ∀ frame ∈ frames, frame.isPlain inFiber = true

/-- The stack of a suspended fiber: it waits for a resumption. -/
def WaitingStack : List Frame → Prop
  | .awaiting .. :: frames => PlainStack true frames
  | .suspending _ :: frames => PlainStack true frames
  | _ => False

@[simp]
theorem plainStack_nil (inFiber : Bool) : PlainStack inFiber [] := by
  simp [PlainStack]

@[simp]
theorem plainStack_cons {inFiber : Bool} {frame : Frame} {frames : List Frame} :
    PlainStack inFiber (frame :: frames) ↔ frame.isPlain inFiber = true ∧
      PlainStack inFiber frames := by
  simp [PlainStack]

/-- Wherever a fiber rests, its frames can take a resumption. -/
def Fiber.AtRest (fiber : Fiber) : Prop :=
  ∀ frames first, fiber.state = .suspended frames first → WaitingStack frames

/-- A fiber rests in a place that belongs to a scheduler, or to nobody. Of the
fibers that a scheduler made only suspended ones rest. -/
structure Fiber.Rests (fiber : Fiber) (home : Option SchedulerId) : Prop where
  home_eq : fiber.home = home
  atRest : fiber.AtRest
  suspended : home.isSome → fiber.isSuspended = true

def Owner.home : Owner → Option SchedulerId
  | .scheduler s => some s
  | .caller _ => none

namespace World

/-- The scheduler that a driver feeds. -/
def fedBy (w : World) (d : DriverId) : Option SchedulerId := (w.driver? d).map Driver.scheduler

/-- The call of that number, if it is still there, has given up what it held. -/
def Handing (w : World) (key : Nat) : Prop :=
  key < w.callsMade ∧ ∀ agenda, w.agenda = some agenda →
    ∀ call ∈ agenda.calls, call.key = key → call.state = .handing

/-- What frames below rely on: drivers feed the scheduler they were made for,
and a call that has handed over its outcome holds nothing again. -/
structure Keeps (w w' : World) : Prop where
  fed : ∀ {d s}, w.fedBy d = some s → w'.fedBy d = some s
  handing : ∀ {key}, w.Handing key → w'.Handing key

theorem Keeps.refl (w : World) : w.Keeps w := ⟨id, id⟩

theorem Keeps.trans {a b c : World} (first : a.Keeps b) (second : b.Keeps c) : a.Keeps c :=
  ⟨second.fed ∘ first.fed, second.handing ∘ first.handing⟩

/-- A stack that asked scheduler `s` for a run, bounded by `max`, and waits for
the number of transfers. Drivers ask for unbounded runs. -/
def Asks (w : World) (s : SchedulerId) (max : Option Nat) : List Frame → Prop
  | .answering other _ :: frames => other = s ∧ PlainStack false frames
  | .driving d .drain :: frames => max = none ∧ w.fedBy d = some s ∧ PlainStack false frames
  | .driving d (.resuming ..) :: frames =>
    max = none ∧ w.fedBy d = some s ∧ PlainStack false frames
  | .completing d key _ :: .driving _ (.poll _) :: frames =>
    max = none ∧ w.fedBy d = some s ∧ w.Handing key ∧ PlainStack false frames
  | _ => False

/-- A stack from which a fiber of the given home was entered. Transfers by hand
are possible only in programs that make them. -/
def Entered (byHand : Prop) (w : World) (inFiber : Bool) (home : Option SchedulerId) :
    List Frame → Prop
  | .transferring .. :: frames => byHand ∧ home = none ∧ PlainStack inFiber frames
  | .dispatching s :: .draining other _ max :: frames =>
    inFiber = false ∧ home = some s ∧ other = s ∧ w.Asks s max frames
  | _ => False

/-- The stack of the innermost level fits what it is told. -/
def Accepts (byHand : Prop) (w : World) (inFiber : Bool) (control : Control)
    (frames : List Frame) : Prop :=
  match control with
  | .advance =>
    match frames with
    | .draining s _ max :: frames => inFiber = false ∧ w.Asks s max frames
    | .driving _ phase :: frames =>
      inFiber = false ∧ (∀ fiber waiters, phase ≠ .resuming fiber waiters) ∧
        PlainStack false frames
    | frames => PlainStack inFiber frames
  | .raise _ => PlainStack inFiber frames
  | .panicking _ => PlainStack inFiber frames
  | .resumed _ => inFiber = true ∧ WaitingStack frames
  | .back fiber exit =>
    w.Entered byHand inFiber fiber.home frames ∧ fiber.AtRest ∧
      (fiber.isSuspended = true ↔ ∃ handle, exit = .suspended handle)
  | .answer result =>
    match frames with
    | .answering _ _ :: frames => PlainStack inFiber frames
    | frames => inFiber = false ∧ (∃ s, w.Asks s none frames) ∧
        (∀ d rest, frames = .driving d .drain :: rest → ∃ n, result = .ok n)

theorem Asks.mono {w w' : World} {s : SchedulerId} {max : Option Nat} {frames : List Frame}
    (h : w.Asks s max frames) (hw : w.Keeps w') : w'.Asks s max frames := by
  unfold Asks at h ⊢
  split at h
  · exact h
  · exact ⟨h.1, hw.fed h.2.1, h.2.2⟩
  · exact ⟨h.1, hw.fed h.2.1, h.2.2⟩
  · exact ⟨h.1, hw.fed h.2.1, hw.handing h.2.2.1, h.2.2.2⟩
  · exact h.elim

theorem Entered.mono {byHand : Prop} {w w' : World} {inFiber : Bool} {home : Option SchedulerId}
    {frames : List Frame} (h : w.Entered byHand inFiber home frames) (hw : w.Keeps w') :
    w'.Entered byHand inFiber home frames := by
  unfold Entered at h ⊢
  split at h
  · exact h
  · exact ⟨h.1, h.2.1, h.2.2.1, h.2.2.2.mono hw⟩
  · exact h.elim

theorem Entered.allow {byHand byHand' : Prop} {w : World} {inFiber : Bool}
    {home : Option SchedulerId} {frames : List Frame} (h : w.Entered byHand inFiber home frames)
    (hby : byHand → byHand') :
    w.Entered byHand' inFiber home frames := by
  unfold Entered at h ⊢
  split at h
  · exact ⟨hby h.1, h.2⟩
  · exact h
  · exact h.elim

theorem Accepts.allow {byHand byHand' : Prop} {w : World} {inFiber : Bool} {control : Control}
    {frames : List Frame} (h : w.Accepts byHand inFiber control frames) (hby : byHand → byHand') :
    w.Accepts byHand' inFiber control frames := by
  cases control with
  | back fiber exit => exact ⟨h.1.allow hby, h.2⟩
  | advance | raise | panicking | resumed | answer => exact h

end World

namespace Machine

/-- The stack of the level that lies under the given fibers. -/
def stackUnder (root : List Frame) : List Running → List Frame
  | [] => root
  | running :: _ => running.frames

/-- The stack of the innermost level. -/
def top (m : Machine) : List Frame := stackUnder m.root m.running

def inFiber (m : Machine) : Bool := !m.running.isEmpty

/-- Each fiber was entered from the level below it and remembers what was
current there. -/
def Nested (byHand : Prop) (w : World) (root : List Frame) : List Running → Prop
  | [] => True
  | running :: below =>
    running.outer = below.head?.map Running.current ∧
      w.Entered byHand (!below.isEmpty) running.home (stackUnder root below) ∧
      Nested byHand w root below

theorem Nested.mono {byHand : Prop} {w w' : World} {root : List Frame} {levels : List Running}
    (h : Nested byHand w root levels) (hw : w.Keeps w') : Nested byHand w' root levels := by
  induction levels with
  | nil => trivial
  | cons running below ih => exact ⟨h.1, h.2.1.mono hw, ih h.2.2⟩

theorem Nested.allow {byHand byHand' : Prop} {w : World} {root : List Frame} {levels : List Running}
    (h : Nested byHand w root levels) (hby : byHand → byHand') : Nested byHand' w root levels := by
  induction levels with
  | nil => trivial
  | cons running below ih => exact ⟨h.1, h.2.1.allow hby, ih h.2.2⟩

/-- The levels below the innermost one are in order, and its fiber is the
current one. -/
structure Grounded (byHand : Prop) (m : Machine) : Prop where
  current : m.world.current = m.running.head?.map Running.current
  nested : Nested byHand m.world m.root m.running

/-- The machine is in order. -/
structure Shaped (byHand : Prop) (m : Machine) : Prop extends Grounded byHand m where
  accepts : m.world.Accepts byHand m.inFiber m.control m.top

end Machine

end Fibers
