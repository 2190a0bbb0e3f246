import Fibers.Proofs.Labor
import Fibers.Proofs.Ordinary

/-!
Errands. The tasks of a driver's scheduler that only call the host through that driver,
wait for all its calls, enqueue more of their kind, and otherwise compute, fail or panic.
While the driver runs, control is in such a task, in a run loop of the scheduler or in the
driver's own loop, and each step does one of a few things.
-/

namespace Fibers

/-- What errands may do. -/
structure Permit where
  /-- The position of the driver that they use. -/
  position : Nat
  /-- They may do more than sleep: make other calls, wait for all calls, and enqueue errands. -/
  free : Bool

mutual

/-- Actions that call the host through the driver at the position, with a future that does
not panic, wait for all its calls, enqueue errands there, or do none of this; code that they
bring is an errand as well. -/
def Action.isErrand (p : Permit) : Action → Bool
  | .log _ | .guard _ | .fail _ | .panic _ | .state | .inFlight _ | .driverState
    _ | .unknown _ => true
  | .enqueue position body => p.free && (position = p.position && isErrandCode p body)
  | .again _ body | .scope body _ => isErrandCode p body
  | .sleep position .. => position = p.position
  | .call position _ (.done _) .. | .blocking position .. | .awaitAll position _ =>
    p.free && position = p.position
  | _ => false

def Action.isErrandCode (p : Permit) : List Action → Bool
  | [] => true
  | action :: rest => action.isErrand p && isErrandCode p rest

end

/-- Frames that an errand has. -/
def Frame.IsErrand (p : Permit) : Frame → Prop
  | .actions todo _ => Action.isErrandCode p todo = true
  | .again _ body => Action.isErrandCode p body = true
  | .catching | .awaiting .. => True
  | _ => False

/-- What is left of an errand after an action is an errand. -/
theorem Frame.IsErrand.next {p : Permit} {action : Action} {todo : List Action}
    {guards guards' : List Datum} (h : Frame.IsErrand p (.actions (action :: todo) guards)) :
    Frame.IsErrand p (.actions todo guards') :=
  (Bool.and_eq_true_iff.1 h).2

/-- Whatever the fiber goes on with once it is resumed is an errand. -/
def Fiber.IsErrand (p : Permit) (fiber : Fiber) : Prop := ∀ frame ∈ fiber.frames, frame.IsErrand p

/-- A task that is an errand, whether it has begun or not. -/
def Runnable.IsErrand (p : Permit) : Runnable → Prop
  | .fresh _ body => Action.isErrandCode p body = true
  | .woken fiber _ => fiber.IsErrand p

namespace World

/-- A fiber comes to wait for the driver: for a call that is issued, or for all calls. -/
inductive Takes (w : World) (d : DriverId) : HandleRef → AwaitPlan → World → Prop
  | call {u : World} {plan : AwaitPlan} {agenda : Agenda} (current : FiberId) (work : Work)
      (hbefore : w.NoProgress u) (haside : u.aside = w.aside) (hagenda : u.agenda = some agenda)
      (hplan : plan.kind.caller? = some d) :
      Takes w d u.handles.next plan (u.issued agenda current d work plan)
  | line {plan : AwaitPlan} (current : FiberId) (hplan : plan.kind = .all d) :
      Takes w d w.handles.next plan (w.listed current d plan)

/-- A fiber comes to wait for a sleep. -/
inductive TakesSleep (w : World) (d : DriverId) : HandleRef → AwaitPlan → World → Prop
  | sleeps {plan : AwaitPlan} {agenda : Agenda} {current : FiberId} {milliseconds : Nat}
      (hagenda : w.agenda = some agenda) (hcurrent : w.currentId = some current)
      (hplan : plan.kind = .sleep d milliseconds) :
      TakesSleep w d w.handles.next plan (w.issued agenda current d (.sleep milliseconds) plan)

theorem Takes.opens {w w' : World} {d : DriverId} {x : HandleRef} {plan : AwaitPlan}
    (h : w.Takes d x plan w') : w.Opens x plan w' := by
  cases h with
  | call current work hbefore => exact .intro current 2 hbefore rfl (.of_same rfl rfl rfl rfl)
  | line current => exact .intro current 2 (.refl _) rfl (.of_same rfl rfl rfl rfl)

/-- The driver has one handle more in its hands: a call holds it, or it stands at the end of
the list. -/
structure Gets (w : World) (d : DriverId) (x : HandleRef) (w' : World) : Prop where
  positions : w'.positions = w.positions
  notified : w'.notified d = w.notified d
  hands : (∃ key, w'.claims = w.claims.map (· ++ [(key, d, some x)]) ∧ w'.waiters d = w.waiters d) ∨
    w'.claims = w.claims ∧ w'.waiters d = w.waiters d ++ [x]

theorem Takes.gets {w w' : World} {d : DriverId} {x : HandleRef} {plan : AwaitPlan}
    (h : w.Takes d x plan w') (hd : (w.driver? d).isSome) : w.Gets d x w' := by
  cases h with
  | @call u _ agenda current work hbefore haside hagenda hplan =>
    have hdriver : u.driver? d = w.driver? d := driver?_of_aside haside d
    refine ⟨congrArg Aside.positions haside, ?_, .inl ⟨u.callsMade, ?_, ?_⟩⟩
    · rw [notified_issued, notified, hdriver, notified]
    · have hbefore : w.claims = some (agenda.calls.map HostCall.claim) := by
        rw [claims, ← agenda_of_aside haside, hagenda]
        rfl
      rw [hbefore]
      exact congrArg some (List.map_append ..)
    · rw [waiters, waiters, issued, driver?_updateDriver, if_pos rfl]
      change ((u.driver? d).map _).elim _ _ = _
      rw [hdriver]
      cases w.driver? d <;> rfl
  | line current hplan =>
    exact ⟨rfl, notified_listed .., .inr ⟨rfl, by rw [waiters_listed hd, if_pos rfl]⟩⟩

end World

namespace Machine

variable {byHand : Prop} {m m' : Machine} {frames : List Frame} {w : World} {p : Permit}
  {d : DriverId} {action : Action} {todo : List Action} {guards : List Datum} {x : HandleRef}
  {plan : AwaitPlan}

/-! ### Code -/

/-- What a step inside of an errand does. -/
inductive ErrandMove (p : Permit) (d : DriverId) (m : Machine) : Machine → Prop
  | goesOn {frame : Frame} (pushed : List Frame) {frames : List Frame} {w : World}
      {control : Control} (htop : m.top = frame :: frames) (hcontrol : m.control.IsCode)
      (hpushed : ∀ left ∈ pushed, left.IsCode ∧ left.IsErrand p)
      (hless : weigh Frame.labor pushed < frame.labor) (hcode : control.IsCode)
      (h : m.world.NoProgress w) (haside : w.aside = m.world.aside) :
      ErrandMove p d m (m.goTo (pushed ++ frames) w control)
  | enqueues {action : Action} {todo : List Action} {guards : List Datum} {frames : List Frame}
      {body : List Action} {s : SchedulerId} {scheduler : Scheduler} (shown : Datum)
      (htop : m.top = .actions (action :: todo) guards :: frames) (hcontrol : m.control = .advance)
      (hlabor : action.labor = 5 + Action.codeLabor body)
      (hbody : Action.isErrandCode p body = true)
      (hposition : m.world.schedulerAt p.position = some s)
      (hs : m.world.scheduler? s = some scheduler) (hfree : p.free = true) :
      ErrandMove p d m
        (m.goTo (.actions todo guards :: frames)
          ((m.world.enqueue s body).2.emit "enqueue" shown) .advance)
  | calls {action : Action} {todo : List Action} {guards : List Datum} {frames : List Frame}
      {x : HandleRef} {plan : AwaitPlan} {w : World}
      (htop : m.top = .actions (action :: todo) guards :: frames) (hcontrol : m.control = .advance)
      (hlabor : action.labor = 10) (htakes : m.world.Takes d x plan w)
      (hrests : p.free = false → m.world.TakesSleep d x plan w) :
      ErrandMove p d m ((m.goTo (.actions todo guards :: frames) w .advance).suspendAwait x plan)
  | concludes {x : HandleRef} {plan : AwaitPlan} {frames : List Frame}
      {resumption : Resumption} {w : World} {control : Control}
      (htop : m.top = .awaiting x plan :: frames) (hcontrol : m.control = .resumed resumption)
      (hcode : control.IsCode) (h : (m.world.mark (.awaited x resumption)).NoProgress w)
      (haside : w.aside = m.world.aside) : ErrandMove p d m (m.goTo frames w control)
  | leaves {running : Running} {below : List Running} {exit : Exit}
      (hrunning : m.running = running :: below) (htop : m.top = []) (hcontrol : m.control.IsCode)
      (hexit : ∀ x, exit ≠ .suspended x) :
      ErrandMove p d m (m.leave running below exit)

section Performs

variable (hm : m.Sound byHand) (htop : m.top = .actions (action :: todo) guards :: frames)
  (hcontrol : m.control = .advance) (htodo : Action.isErrandCode p todo = true)

include htop hcontrol htodo

/-- An action writes something down, and raises something or does not. -/
theorem errandMove_write {control : Control} (hcode : control.IsCode) (h : m.world.NoProgress w)
    (haside : w.aside = m.world.aside) :
    m.ErrandMove p d (m.goTo (.actions todo guards :: frames) w control) := by
  refine .goesOn [.actions todo guards] htop (hcontrol ▸ trivial) (fun left member => ?_) ?_
    hcode h haside
  · cases List.mem_singleton.1 member
    exact ⟨trivial, htodo⟩
  · have := action.four_le_labor
    simp only [weigh_cons, weigh_nil, Frame.labor, Action.codeLabor]
    omega

theorem errandMove_emit (name : String) (payload : Datum) :
    m.ErrandMove p d
      ((m.goTo (.actions todo guards :: frames) m.world .advance).emit name payload) := by
  rw [goTo_emit]
  exact errandMove_write htop hcontrol htodo trivial (.emit ..) rfl

theorem errandMove_withDriver {name : String} {position : Nat} {use : DriverId → Machine}
    (huse : ∀ e, m.world.driverAt position = some e → m.ErrandMove p d (use e)) :
    m.ErrandMove p d
      ((m.goTo (.actions todo guards :: frames) m.world .advance).withDriver name
        position use) := by
  rw [withDriver, goTo_world]
  split
  next => exact errandMove_emit htop hcontrol htodo name _
  next e he => exact huse e he

include hm in
theorem errandMove_enqueue {body : List Action} (hlabor : action.labor = 5 + Action.codeLabor body)
    (hbody : Action.isErrandCode p body = true) (hfree : p.free = true) :
    m.ErrandMove p d
      ((m.goTo (.actions todo guards :: frames) m.world .advance).enqueue p.position body) := by
  rw [enqueue, withScheduler, goTo_world]
  split
  next => exact errandMove_emit htop hcontrol htodo _ _
  next s hs =>
    obtain ⟨scheduler, hscheduler, -⟩ := hm.kept.balanced.schedulerAt_alive hs
    simp only [goTo_withWorld, goTo_emit]
    exact .enqueues _ htop hcontrol hlabor hbody hs hscheduler hfree

theorem errandMove_scope {body : List Action} {catches : Bool}
    (hlabor : action.labor = 4 + Action.codeLabor body)
    (hbody : Action.isErrandCode p body = true) :
    m.ErrandMove p d
      ((m.goTo (.actions todo guards :: frames) m.world .advance).perform
        (.scope body catches)) := by
  cases catches with
  | true =>
    rw [perform, goTo_push, goTo_push]
    refine .goesOn [.actions body [], .catching, .actions todo guards] htop (hcontrol ▸ trivial)
      (fun left member => ?_) ?_ trivial (.refl _) rfl
    · rcases List.mem_cons.1 member with rfl | member
      · exact ⟨trivial, hbody⟩
      · rcases List.mem_cons.1 member with rfl | member
        · exact ⟨trivial, trivial⟩
        · cases List.mem_singleton.1 member
          exact ⟨trivial, htodo⟩
    · simp only [weigh_cons, weigh_nil, Frame.labor, Action.codeLabor, hlabor]
      omega
  | false =>
    rw [perform, goTo_push]
    refine .goesOn [.actions body [], .actions todo guards] htop (hcontrol ▸ trivial)
      (fun left member => ?_) ?_ trivial (.refl _) rfl
    · rcases List.mem_cons.1 member with rfl | member
      · exact ⟨trivial, hbody⟩
      · cases List.mem_singleton.1 member
        exact ⟨trivial, htodo⟩
    · simp only [weigh_cons, weigh_nil, Frame.labor, Action.codeLabor, hlabor]
      omega

omit htodo in
/-- A call that is issued in a fiber while a driver runs suspends the fiber. -/
theorem errandMove_issue {agenda : Agenda} {current : FiberId} {work : Work}
    (hlabor : action.labor = 10) (hplan : plan.kind.caller? = some d) (h : m.world.NoProgress w)
    (haside : w.aside = m.world.aside) (hagenda : m.world.agenda = some agenda)
    (hcurrent : m.world.currentId = some current)
    (hrests : p.free = false → w = m.world ∧ ∃ milliseconds, work = .sleep milliseconds ∧
      plan.kind = .sleep d milliseconds) :
    m.ErrandMove p d ((m.goTo (.actions todo guards :: frames) w .advance).issue d work plan) := by
  have hagenda' : w.agenda = some agenda := (World.agenda_of_aside haside).trans hagenda
  have hcurrent' : w.currentId = some current := by
    rw [World.currentId, h.current, ← World.currentId, hcurrent]
  have hissued : (World.updateAgenda (World.updateDriver
      { (openAwait w current plan 2).2 with callsMade := w.callsMade + 1 } d
        fun driver => { driver with inFlight := driver.inFlight + 1 })
      fun agenda => agenda.spawn ⟨w.callsMade, d,
        .holding w.handles.next work⟩) = w.issued agenda current d work plan := by
    simp only [World.updateAgenda, World.updateDriver, World.issued, openAwait, World.makeHandle,
      World.mark, hagenda', Option.map_some]
  have hcalls : m.ErrandMove p d
      ((m.goTo (.actions todo guards :: frames) (w.issued agenda current d work plan)
      .advance).suspendAwait w.handles.next plan) :=
    .calls htop hcontrol hlabor (.call current work h haside hagenda' hplan) fun hfree => by
      obtain ⟨rfl, milliseconds, rfl, hkind⟩ := hrests hfree
      exact .sleeps hagenda' hcurrent' hkind
  rw [Machine.issue, goTo_world, hcurrent', hagenda']
  rw [← hissued, ← goTo_withWorld] at hcalls
  exact hcalls

omit htodo in
theorem errandMove_awaitAll {current : FiberId} (hlabor : action.labor = 10)
    (hplan : plan.kind = .all d) (hcurrent : m.world.currentId = some current)
    (hfree : p.free = true) :
    m.ErrandMove p d
      ((m.goTo (.actions todo guards :: frames) m.world .advance).awaitAll d plan) := by
  rw [Machine.awaitAll, goTo_world, hcurrent]
  simp only [goTo_withWorld]
  exact .calls htop hcontrol hlabor (.line current hplan) fun hsleeps =>
    absurd (hfree.symm.trans hsleeps) Bool.noConfusion

include hm in
/-- A call whose outcome stands for an empty slot is not made. -/
theorem errandMove_call {agenda : Agenda} {current : FiberId} {outcome : Delivery}
    {wait : Option String} (hlabor : action.labor = 10) (hplan : plan.kind.caller? = some d)
    (hagenda : m.world.agenda = some agenda) (hcurrent : m.world.currentId = some current)
    (hfree : p.free = true) (name : String) :
    m.ErrandMove p d
      ((m.goTo (.actions todo guards :: frames) m.world .advance).withResumption name outcome []
      fun m outcome => m.issue d (.answer wait (.done outcome)) plan) := by
  rw [withResumption, goTo_world]
  split
  next =>
    rw [lose, lacking, goTo_emit, goTo_withWorld]
    refine errandMove_write htop hcontrol htodo trivial
      ((World.NoProgress.emit ..).trans (World.noProgress_release ..)) ?_
    rw [goTo_world]
    exact World.aside_of_surroundings
      ((World.surroundings_release ..).trans (World.surroundings_emit ..))
  next resumption w hresumption =>
    rw [goTo_withWorld]
    exact errandMove_issue htop hcontrol hlabor hplan
      (hm.noProgress_of_shift (World.shift_resumption hresumption))
      (World.aside_resumption _ hresumption) hagenda hcurrent fun hsleeps =>
      absurd (hfree.symm.trans hsleeps) Bool.noConfusion

include hm in
/-- Whatever an errand performs, it is one of these. -/
theorem errandMove_perform {agenda : Agenda} {current : FiberId}
    (hd : m.world.driverAt p.position = some d) (hagenda : m.world.agenda = some agenda)
    (hcurrent : m.world.currentId = some current) (herrand : action.isErrand p = true) :
    m.ErrandMove p d
      ((m.goTo (.actions todo guards :: frames) m.world .advance).perform action) := by
  have hdriver : ∀ {name position} {use : DriverId → Machine}, position = p.position →
      m.ErrandMove p d (use d) →
      m.ErrandMove p d
        ((m.goTo (.actions todo guards :: frames) m.world .advance).withDriver name
          position use) := by
    rintro name position use rfl huse
    refine errandMove_withDriver htop hcontrol htodo fun e he => ?_
    rw [hd] at he
    cases he
    exact huse
  cases action with
  | log | state | unknown => exact errandMove_emit htop hcontrol htodo _ _
  | guard => exact errandMove_write htop hcontrol htodo trivial (.refl _) rfl
  | fail failure =>
    rw [perform, goTo_withControl]
    exact errandMove_write htop hcontrol htodo trivial (.refl _) rfl
  | panic panic =>
    rw [perform, goTo_withControl]
    exact errandMove_write htop hcontrol htodo trivial (.refl _) rfl
  | inFlight position =>
    exact errandMove_withDriver htop hcontrol htodo fun e _ =>
      errandMove_emit htop hcontrol htodo _ _
  | driverState position =>
    exact errandMove_withDriver htop hcontrol htodo fun e _ =>
      errandMove_emit htop hcontrol htodo _ _
  | enqueue position body =>
    obtain ⟨hfree, hrest⟩ := Bool.and_eq_true_iff.1 herrand
    obtain ⟨hposition, hbody⟩ := Bool.and_eq_true_iff.1 hrest
    obtain rfl := of_decide_eq_true hposition
    exact errandMove_enqueue hm htop hcontrol htodo rfl hbody hfree
  | again times body =>
    rw [perform, goTo_push]
    refine .goesOn [.again times body, .actions todo guards] htop (hcontrol ▸ trivial)
      (fun left member => ?_) ?_ trivial (.refl _) rfl
    · rcases List.mem_cons.1 member with rfl | member
      · exact ⟨trivial, herrand⟩
      · cases List.mem_singleton.1 member
        exact ⟨trivial, htodo⟩
    · simp only [weigh_cons, weigh_nil, Frame.labor, Action.codeLabor, Action.labor]
      omega
  | scope body catches => exact errandMove_scope htop hcontrol htodo rfl herrand
  | sleep position milliseconds onError =>
    exact hdriver (of_decide_eq_true herrand)
      (errandMove_issue htop hcontrol rfl rfl (.refl _) rfl hagenda hcurrent fun _ =>
        ⟨rfl, milliseconds, rfl, rfl⟩)
  | call position type outcome wait onError keepIn =>
    cases outcome with
    | panicked => cases herrand
    | done delivery =>
      obtain ⟨hfree, hposition⟩ := Bool.and_eq_true_iff.1 herrand
      exact hdriver (of_decide_eq_true hposition)
        (errandMove_call hm htop hcontrol htodo rfl rfl hagenda hcurrent hfree _)
  | blocking position outcome onError =>
    obtain ⟨hfree, hposition⟩ := Bool.and_eq_true_iff.1 herrand
    exact hdriver (of_decide_eq_true hposition)
      (errandMove_issue htop hcontrol rfl rfl (.refl _) rfl hagenda hcurrent
      fun hsleeps => absurd (hfree.symm.trans hsleeps) Bool.noConfusion)
  | awaitAll position onError =>
    obtain ⟨hfree, hposition⟩ := Bool.and_eq_true_iff.1 herrand
    exact hdriver (of_decide_eq_true hposition)
      (errandMove_awaitAll htop hcontrol rfl rfl hcurrent hfree)
  | _ => cases herrand

end Performs

/-- Code of an errand that is left leaves nothing to do behind. -/
theorem errandMove_leave {frame : Frame} {control : Control} (htop : m.top = frame :: frames)
    (hcontrol : m.control.IsCode) (hcode : control.IsCode) (h : m.world.NoProgress w)
    (haside : w.aside = m.world.aside) (hlabor : 0 < frame.labor) :
    m.ErrandMove p d (m.goTo frames w control) :=
  .goesOn [] htop hcontrol (fun _ member => by cases member) (by rwa [weigh_nil]) hcode h haside

theorem Sound.errandMove_actions {agenda : Agenda} {current : FiberId} (hm : m.Sound byHand)
    (htop : m.top = .actions todo guards :: frames) (hd : m.world.driverAt p.position = some d)
    (hagenda : m.world.agenda = some agenda) (hcurrent : m.world.currentId = some current)
    (herrand : Action.isErrandCode p todo = true)
    (h : (m.goTo frames m.world m.control).react? (.actions todo guards) = some m') :
    m.ErrandMove p d m' := by
  have hpos : 0 < Frame.labor (.actions todo guards) := by rw [Frame.labor]; omega
  have hends : m.control.IsCode →
      m.ErrandMove p d
        (m.goTo frames (m.world.release (guards.map .guard)) m.control) := fun hcode =>
    errandMove_leave htop hcode hcode (World.noProgress_release ..)
      (World.aside_of_surroundings (World.surroundings_release ..)) hpos
  cases hcontrol : m.control with
  | advance =>
    rw [hcontrol] at h hends
    cases todo with
    | nil =>
      simp only [react?, goTo_control, goTo_world, goTo_withWorld, Option.some.injEq] at h
      exact h ▸ hends trivial
    | cons action todo =>
      obtain ⟨haction, htodo⟩ := Bool.and_eq_true_iff.1 herrand
      have hperformed := errandMove_perform hm htop hcontrol htodo hd hagenda hcurrent haction
      have hguard : ∀ value,
          m.ErrandMove p d
          (m.goTo (.actions todo (value :: guards) :: frames) m.world .advance) := by
        intro value
        refine .goesOn [.actions todo (value :: guards)] htop (hcontrol ▸ trivial)
          (fun left member => ?_) ?_
          trivial (.refl _) rfl
        · cases List.mem_singleton.1 member
          exact ⟨trivial, htodo⟩
        · have := action.four_le_labor
          simp only [weigh_cons, weigh_nil, Frame.labor, Action.codeLabor]
          omega
      cases action <;>
        simp only [react?, goTo_control, goTo_push, Option.some.injEq] at h <;> subst h <;> first
        | exact hguard _
        | exact hperformed
  | raise | panicking =>
    rw [hcontrol] at h hends
    simp only [react?, goTo_control, goTo_world, goTo_withWorld, Option.some.injEq] at h
    exact h ▸ hends trivial
  | resumed | back | answer => simp [react?, hcontrol] at h

theorem errandMove_again {times : Nat} {body : List Action}
    (htop : m.top = .again times body :: frames) (herrand : Action.isErrandCode p body = true)
    (h : (m.goTo frames m.world m.control).react? (.again times body) = some m') :
    m.ErrandMove p d m' := by
  have hpos : 0 < Frame.labor (.again times body) := by rw [Frame.labor]; omega
  cases hcontrol : m.control with
  | advance =>
    rw [hcontrol] at h
    cases times with
    | zero =>
      simp only [react?, goTo_control, Option.some.injEq] at h
      exact h ▸ errandMove_leave htop (hcontrol ▸ trivial) trivial (.refl _) rfl hpos
    | succ times =>
      simp only [react?, goTo_control, goTo_push, Option.some.injEq] at h
      subst h
      refine .goesOn [.actions body [], .again times body] htop (hcontrol ▸ trivial)
        (fun left member => ?_) ?_
        trivial (.refl _) rfl
      · rcases List.mem_cons.1 member with rfl | member
        · exact ⟨trivial, herrand⟩
        · cases List.mem_singleton.1 member
          exact ⟨trivial, herrand⟩
      · simp only [weigh_cons, weigh_nil, Frame.labor, Nat.succ_mul]
        omega
  | raise | panicking =>
    simp only [react?, hcontrol, goTo_control, Option.some.injEq] at h
    exact h ▸ errandMove_leave htop (hcontrol ▸ trivial) trivial (.refl _) rfl hpos
  | resumed | back | answer => simp [react?, hcontrol] at h

theorem errandMove_catching (htop : m.top = .catching :: frames)
    (h : (m.goTo frames m.world m.control).react? .catching = some m') : m.ErrandMove p d m' := by
  cases hcontrol : m.control with
  | advance | panicking =>
    simp only [react?, hcontrol, goTo_control, Option.some.injEq] at h
    exact h ▸ errandMove_leave htop (hcontrol ▸ trivial) trivial (.refl _) rfl Nat.zero_lt_one
  | raise failure =>
    simp only [react?, hcontrol, goTo_control, goTo_emit, goTo_advance, Option.some.injEq] at h
    exact h ▸ errandMove_leave htop (hcontrol ▸ trivial) trivial (.emit ..) rfl Nat.zero_lt_one
  | resumed | back | answer => simp [react?, hcontrol] at h

theorem Sound.errandMove_awaiting (hm : m.Sound byHand) (htop : m.top = .awaiting x plan :: frames)
    (h : (m.goTo frames m.world m.control).react? (.awaiting x plan) = some m') :
    m.ErrandMove p d m' := by
  cases hcontrol : m.control with
  | resumed resumption =>
    simp only [react?, hcontrol, goTo_control, Option.some.injEq] at h
    subst h
    have haside :=
      (m.goTo frames m.world (.resumed resumption)).aside_concludeAwait x plan resumption
    obtain ⟨w, control, heq, hcode, hshift⟩ :=
      (m.goTo frames m.world (.resumed resumption)).concludeAwait_eq x plan resumption
    rw [heq, goTo_world, goTo_world] at haside
    rw [heq, goTo_top, goTo_goTo]
    have hheld := hm.kept_of_top htop
    rw [hcontrol] at hheld
    exact .concludes htop hcontrol hcode
      ((World.Sound.awaited hheld resumption).noProgress hshift) haside
  | advance | raise | panicking | back | answer => simp [react?, hcontrol] at h

/-- What an errand does in a step is one of these. -/
theorem Sound.errandMove {running : Running} {below : List Running} (hm : m.Sound byHand)
    (hrunning : m.running = running :: below) (hd : m.world.driverAt p.position = some d)
    (hagenda : m.world.agenda.isSome) (herrand : ∀ frame ∈ m.top, frame.IsErrand p)
    (hstep : m.step? = some m') : m.ErrandMove p d m' := by
  obtain ⟨agenda, hagenda⟩ := Option.isSome_iff_exists.1 hagenda
  have hcurrent : m.world.currentId = some running.id := by
    rw [World.currentId, hm.current, hrunning]; rfl
  cases htop : m.top with
  | nil =>
    have hframes : running.frames = [] := by rwa [top, hrunning] at htop
    rw [hm.step?_eq] at hstep
    simp only [move?, hrunning, hframes, Option.map_eq_some_iff] at hstep
    obtain ⟨exit, hexit, rfl⟩ := hstep
    refine .leaves hrunning htop ?_ ?_
    · cases hcontrol : m.control <;> rw [hcontrol] at hexit <;> trivial
    · rintro x rfl
      cases hcontrol : m.control <;> rw [hcontrol] at hexit <;> cases hexit
  | cons frame frames =>
    rw [hm.step?_of_top htop] at hstep
    rw [htop] at herrand
    have hframe := herrand frame (List.mem_cons_self ..)
    cases frame with
    | actions todo guards => exact hm.errandMove_actions htop hd hagenda hcurrent hframe hstep
    | again times body => exact errandMove_again htop hframe hstep
    | catching => exact errandMove_catching htop hstep
    | awaiting x plan => exact hm.errandMove_awaiting htop hstep
    | _ => exact hframe.elim

end Machine

end Fibers
