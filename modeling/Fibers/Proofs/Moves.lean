import Fibers.Proofs.Holdings
import Fibers.Proofs.HostWork

/-!
What a step can do. Most actions and most frames only write something down, give
something away, or push further code; such steps are all of one kind here. What
is left are the few operations by which fibers come to rest, are woken, entered
and left, and by which drivers go from one phase to the next. Whatever holds of
each of these kinds holds of every step of every program.
-/

namespace Fibers

/-- Frames that code consists of. -/
def Frame.IsCode : Frame → Prop
  | .actions .. | .again .. | .catching => True
  | _ => False

/-- The guards that a frame holds, the last one first. -/
def Frame.guards : Frame → List Datum
  | .actions _ guards => guards
  | _ => []

/-- Frames that go without further ado once their turn comes. -/
def Frame.IsLight : Frame → Prop
  | .actions .. | .again .. | .catching | .registering .. | .suspending _ | .answering .. => True
  | _ => False

/-- What code is told. -/
def Control.IsCode : Control → Prop
  | .advance | .raise _ | .panicking _ => True
  | _ => False

/-- The driver through which an await issues a host call. -/
def AwaitKind.caller? : AwaitKind → Option DriverId
  | .sleep d _ | .call d | .blocking d => some d
  | _ => none

/-- The driver whose calls an await waits for, one of them or all. -/
def AwaitKind.driver? : AwaitKind → Option DriverId
  | .sleep d _ | .call d | .blocking d | .all d => some d
  | _ => none

/-- What an action waits for if the driver at its position is the given one. -/
def Action.host? (d : DriverId) : Action → Option (Nat × AwaitKind)
  | .sleep position milliseconds _ => some (position, .sleep d milliseconds)
  | .call position .. => some (position, .call d)
  | .blocking position .. => some (position, .blocking d)
  | .awaitAll position _ => some (position, .all d)
  | _ => none

/-- The action proper of a foreign one. -/
def Action.core : Action → Action
  | .foreign _ action => action.core
  | action => action

/-- Phases of a driver's loop that follow one another while nothing is resumed. -/
inductive DriverPhase.GoesOn : DriverPhase → DriverPhase → Prop
  | listens : GoesOn .drain .listen
  | elapses : GoesOn .listen .listen
  | polls (turns : Nat) : GoesOn .listen (.poll turns)
  | turns (turns : Nat) : GoesOn (.poll (turns + 1)) (.poll turns)
  | polled (turns : Nat) : GoesOn (.poll turns) .listen
  | settled : GoesOn (.settle []) .drain
  | resumed (fiber : FiberId) (waiters : List HandleRef) :
      GoesOn (.resuming fiber waiters) (.settle waiters)

namespace Machine

/-- An action that is allowed waits for something at a driver. -/
def Uses (allowed : Action → Prop) (m : Machine) (d : DriverId) (kind : AwaitKind) : Prop :=
  ∃ action position, allowed action ∧ action.host? d = some (position, kind) ∧
    m.world.driverAt position = some d

/-- What an action does, when control has come to the code it stands in. -/
inductive Does (allowed : Action → Prop) (m : Machine) : Machine → Prop
  | idle (pushed : List Frame) (w : World) (control : Control)
      (hpushed : ∀ frame ∈ pushed, frame.IsCode) (hcontrol : control.IsCode)
      (h : m.world.Shift [] w (framesAssets pushed))
      (hfresh : ∀ frame ∈ pushed, frame.guards = []) :
      Does allowed m (m.goTo (pushed ++ m.top) w control)
  | enqueues {position : Nat} {s : SchedulerId} {body : List Action}
      (hallowed : allowed (.enqueue position body) ∨
        ∃ task, m.taskBody task = body ∧ allowed (.enqueueNamed position task))
      (hs : m.world.schedulerAt position = some s) (shown : Datum) :
      Does allowed m (m.goTo m.top ((m.world.enqueue s body).2.emit "enqueue" shown) .advance)
  | asks {w : World} {s : SchedulerId} (max : Option Nat) (reply : Reply)
      (h : m.world.Shift [] w [.share s]) :
      Does allowed m ((m.goTo (.answering s reply :: m.top) w .advance).run s max)
  | delivers {w : World} {s : SchedulerId} {x : HandleRef} {resumption : Resumption} (reply : Reply)
      (h : m.world.Shift [] w (.share s :: .loose (.handle x) :: resumption.assets)) :
      Does allowed m ((m.goTo (.answering s reply :: m.top) w .advance).deliver s x resumption)
  | awaits {plan : AwaitPlan} {current : FiberId} {w : World} (clones : Nat)
      (register : List Action) (hplan : plan.kind.isHosted = false)
      (hcurrent : m.world.currentId = some current)
      (h : (openAwait m.world current plan (clones + 1)).2.Shift
        (.replicate clones (.loose (.handle m.world.handles.next))) w []) :
      Does allowed m (m.goTo (.actions register [] ::
        .registering m.world.handles.next plan :: m.top) w .advance)
  | issues {d : DriverId} {w : World} {work : Work} {plan : AwaitPlan} {current : FiberId}
      {agenda : Agenda} (huses : m.Uses allowed d plan.kind) (hplan : plan.kind.caller? = some d)
      (hd : (w.driver? d).isSome) (h : m.world.Shift [] w work.ending.assets)
      (hcurrent : w.currentId = some current) (hagenda : w.agenda = some agenda) :
      Does allowed m ((m.goTo m.top (w.issued agenda current d work plan) .advance).suspendAwait
        w.handles.next plan)
  | strands {d : DriverId} {w w' : World} {work : Work} {plan : AwaitPlan} {current : FiberId}
      (panic : Panic) (hplan : plan.kind.caller? = some d)
      (h : m.world.Shift [] w work.ending.assets) (hcurrent : w.currentId = some current)
      (hagenda : w.agenda = none) (hafter : (openAwait w current plan 2).2.Shift
        (.post w.handles.next :: .kept w.handles.next :: .kept w.handles.next :: work.ending.assets)
        w' []) :
      Does allowed m (m.goTo m.top w' (.panicking panic))
  | waits {d : DriverId} {plan : AwaitPlan} {current : FiberId} (huses : m.Uses allowed d plan.kind)
      (hplan : plan.kind = .all d) (hd : (m.world.driver? d).isSome)
      (hcurrent : m.world.currentId = some current) :
      Does allowed m ((m.goTo m.top (m.world.listed current d plan) .advance).suspendAwait
        m.world.handles.next plan)
  | drives (d : DriverId) (hd : (m.world.driver? d).isSome) (hcurrent : m.world.current = none)
      (hagenda : m.world.agenda = none) :
      Does allowed m (m.goTo (.driving d .drain :: m.top) { m.world with agenda := some .empty }
        .advance)
  | drivers {position : Nat} {s : SchedulerId} (hs : m.world.schedulerAt position = some s) :
      Does allowed m (m.goTo m.top (m.world.staffed position s) .advance)
  | suspends {w : World} {x : HandleRef} {slot : String} {keep raises : Bool}
      (hallowed : allowed (.suspend slot keep raises)) (h : m.world.Shift [] w [.loose (.handle x)])
      (hcurrent : m.world.current.isSome) (hslot : m.world.slots.get? slot = some x) :
      Does allowed m ((m.goTo (.suspending raises :: m.top) w .advance).suspend x)
  | makes {slot : String} {id : FiberId} {w : World} (hallowed : allowed (.newHandle slot id))
      (h : (m.world.makeHandle id 1).2.Shift [.loose (.handle m.world.handles.next)] w []) :
      Does allowed m (m.goTo m.top w .advance)
  | parks {w : World} {x : HandleRef} {fiber : Fiber} {slot : String} {keep : Bool} {name : String}
      {owner : Nat} (hallowed : allowed (.park slot keep name owner)) (hrests : fiber.Rests none)
      (h : m.world.Shift [] w (.loose (.handle x) :: fiber.assets)) :
      Does allowed m ((m.goTo m.top w .advance).parkedByHand name (w.park x fiber (.caller owner)))
  | wakes {w : World} {x : HandleRef} {resumption : Resumption} {slot : String} {keep : Bool}
      {name : String} {owner : Nat} {delivery : Delivery}
      (hallowed : allowed (.wake slot keep name owner delivery))
      (h : m.world.Shift [] w (.loose (.handle x) :: resumption.assets)) :
      Does allowed m
        ((m.goTo m.top w .advance).wokenByHand name (w.wake x (.caller owner) resumption))
  | transfers {w : World} {fiber : Fiber} {resumption : Resumption} {name : String}
      {slot : Option String} {delivery : Delivery}
      (hallowed : allowed (.transfer name delivery slot)) (hrests : fiber.Rests none)
      (h : m.world.Shift [] w (fiber.assets ++ resumption.assets))
      (hname : m.world.coroutines.get? name = some fiber) :
      Does allowed m ((m.goTo (.transferring name slot :: m.top) w .advance).enter fiber resumption)

/-- What a step does. -/
inductive Moves (allowed : Action → Prop) (m : Machine) : Machine → Prop
  | acts {action : Action} {todo : List Action} {guards : List Datum} {frames : List Frame}
      {m' : Machine} (htop : m.top = .actions (action :: todo) guards :: frames)
      (hcontrol : m.control = .advance)
      (h : Does allowed (m.goTo (.actions todo guards :: frames) m.world .advance) m') :
      Moves allowed m m'
  | idle {frame : Frame} {frames : List Frame} (pushed : List Frame) (w : World) (control : Control)
      (htop : m.top = frame :: frames) (hlight : frame.IsLight)
      (hpushed : ∀ frame ∈ pushed, frame.IsCode) (hcontrol : control.IsCode)
      (h : m.world.Shift (frame.assets ++ m.control.assets) w (framesAssets pushed))
      (hfresh : (∃ todo guards, frame = .actions todo guards) ∨
        ∀ frame ∈ pushed, frame.guards = []) :
      Moves allowed m (m.goTo (pushed ++ frames) w control)
  | registered {own : HandleRef} {plan : AwaitPlan} {frames : List Frame} {w : World}
      (htop : m.top = .registering own plan :: frames) (hcontrol : m.control.IsCode)
      (h : m.world.Shift [] w []) :
      Moves allowed m ((m.goTo frames w m.control).suspendAwait own plan)
  | concludes {x : HandleRef} {plan : AwaitPlan} {frames : List Frame} {resumption : Resumption}
      (htop : m.top = .awaiting x plan :: frames) (hcontrol : m.control = .resumed resumption) :
      Moves allowed m ((m.goTo frames m.world m.control).concludeAwait x plan resumption)
  | transferred {name : String} {slot : Option String} {fiber : Fiber} {exit : Exit}
      {frames : List Frame} (htop : m.top = .transferring name slot :: frames)
      (hcontrol : m.control = .back fiber exit) :
      Moves allowed m ((m.goTo frames m.world m.control).transferred name slot fiber exit)
  | receives {s : SchedulerId} {fiber : Fiber} {exit : Exit} {frames : List Frame}
      (htop : m.top = .dispatching s :: frames) (hcontrol : m.control = .back fiber exit) :
      Moves allowed m (m.goTo frames (m.world.receive s fiber exit) .advance)
  | drains {s : SchedulerId} {ran : Nat} {max : Option Nat} {frames : List Frame}
      (htop : m.top = .draining s ran max :: frames) (hcontrol : m.control = .advance) :
      Moves allowed m ((m.goTo frames m.world .advance).drain s ran max)
  | asksAgain {d : DriverId} {driver : Driver} {frames : List Frame}
      (htop : m.top = .driving d .drain :: frames) (hcontrol : m.control = .advance)
      (hd : m.world.driver? d = some driver) :
      Moves allowed m
        ((m.goTo (.driving d .drain :: frames) m.world .advance).run driver.scheduler none)
  | goesOn {d : DriverId} {phase phase' : DriverPhase} {frames : List Frame} {w : World}
      (htop : m.top = .driving d phase :: frames) (hphase : phase.GoesOn phase')
      (h : m.world.Shift ((Frame.driving d phase).assets ++ m.control.assets) w
        (Frame.driving d phase').assets) (hbusy : phase = .drain → 0 < m.world.inFlight d) :
      Moves allowed m (m.goTo (.driving d phase' :: frames) w .advance)
  | hears {d : DriverId} {frames : List Frame} (htop : m.top = .driving d .listen :: frames)
      (hcontrol : m.control = .advance) :
      Moves allowed m (m.goTo (.driving d .drain :: frames) (m.world.heard d) .advance)
  | settles {d : DriverId} {driver : Driver} {n : Nat} {frames : List Frame}
      (htop : m.top = .driving d .drain :: frames) (hcontrol : m.control = .answer (.ok n))
      (hd : m.world.driver? d = some driver) (hnone : driver.inFlight = 0)
      (hwaiting : driver.waiting ≠ []) :
      Moves allowed m (m.goTo (.driving d (.settle driver.waiting) :: frames)
        ((m.world.updateDriver d fun driver => { driver with waiting := [] }).tell
          (.settled driver.waiting.length)) .advance)
  | ends {d : DriverId} {driver : Driver} {n : Nat} {frames : List Frame}
      (htop : m.top = .driving d .drain :: frames) (hcontrol : m.control = .answer (.ok n))
      (hd : m.world.driver? d = some driver) (hnone : driver.inFlight = 0)
      (hwaiting : driver.waiting = []) :
      Moves allowed m (m.goTo frames
        (((m.world.tell .driverIdle).closeAgenda).emit "host_run" (.text "ok")) .advance)
  | resumes {d : DriverId} {driver : Driver} {x : HandleRef} {rest : List HandleRef}
      {frames : List Frame} (htop : m.top = .driving d (.settle (x :: rest)) :: frames)
      (hcontrol : m.control = .advance) (hd : m.world.driver? d = some driver) :
      Moves allowed m ((m.goTo (.driving d (.resuming (m.world.handleId x) rest) :: frames)
        m.world .advance).deliver driver.scheduler x .unit)
  | completes {d : DriverId} {driver : Driver} {turns : Nat} {call : HostCall} {x : HandleRef}
      {work : Work} {outcome : Resumption} {agenda : Agenda} {frames : List Frame} {w : World}
      (htop : m.top = .driving d (.poll (turns + 1)) :: frames) (hcontrol : m.control = .advance)
      (h : m.world.Shift [] w []) (hagenda : w.agenda = some agenda) (hcall : call ∈ agenda.calls)
      (hstate : call.state = .holding x work) (hending : work.ending = .done outcome)
      (hd : w.driver? call.driver = some driver) :
      Moves allowed m ((m.goTo (.completing call.driver call.key (w.handleId x) ::
        .driving d (.poll turns) :: frames)
          { w with agenda := some (agenda.setState call.key .handing) } .advance).deliver
            driver.scheduler x outcome)
  /-- The future of a call panics. -/
  | breaks {d : DriverId} {turns : Nat} {call : HostCall} {x : HandleRef} {work : Work}
      {agenda : Agenda} {frames : List Frame} {w : World}
      (htop : m.top = .driving d (.poll (turns + 1)) :: frames) (hcontrol : m.control = .advance)
      (h : m.world.Shift [] w []) (hagenda : w.agenda = some agenda) (hcall : call ∈ agenda.calls)
      (hstate : call.state = .holding x work) (hending : work.ending = .panicked)
      (hd : (w.driver? call.driver).isSome) :
      Moves allowed m
        (m.goTo (.completing call.driver call.key (w.handleId x) :: .driving d
        (.poll turns) :: frames)
        (World.release { w with agenda := some (agenda.setState call.key .handing) } [.handle x])
        (.answer (.ok 0)))
  | completed {d : DriverId} {key : Nat} {fiber : FiberId} {result : Except SchedulerFault Nat}
      {frames : List Frame} (htop : m.top = .completing d key fiber :: frames)
      (hcontrol : m.control = .answer result) :
      Moves allowed m ((m.goTo frames m.world m.control).completed d key fiber result)
  | leaves {running : Running} {below : List Running} {exit : Exit}
      (hrunning : m.running = running :: below) (htop : m.top = [])
      (hcontrol : exit? m.control = some exit) :
      Moves allowed m (m.leave running below exit)

end Machine

end Fibers
