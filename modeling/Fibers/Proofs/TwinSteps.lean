import Fibers.Machine.Reach
import Fibers.Proofs.Confinement
import Fibers.Proofs.TwinHosts
import Fibers.Proofs.Visits

/-!
Twin machines step by step: an action, the reaction of a frame and a whole step.
-/

namespace Fibers

open List (Forall₂)

variable {B : Bond} {D : Backdrop} {κ κ' : Ties}

namespace Machine

variable {m m' : Machine} {w w' : World} {x x' : HandleRef} {s : SchedulerId}

/-- A list that is left early does not look at what it had still to do. -/
theorem react?_actions_of_ne (h : m.control ≠ .advance) (todo : List Action) (guards : List Datum) :
    m.react? (.actions todo guards) = m.react? (.actions [] guards) := by
  obtain ⟨w, running, root, control⟩ := m
  cases todo with
  | nil => rfl
  | cons action todo =>
    cases control with
    | advance => exact absurd rfl h
    | _ => cases action <;> rfl

namespace Alike

theorem reportCall (h : m.Alike B D κ m') (hs : B.own s) {reply : Reply}
    (hreply : B.All reply.names) (result : Except SchedulerFault Nat) :
    (m.reportCall s reply result).Alike B D κ (m'.reportCall s reply result) := by
  have hon := h.advance
  have hdone : ∀ {n n' : Machine}, n.Alike B D κ n' → (n.withWorld (n.world.disown s)).Alike B D κ
      (n'.withWorld (n'.world.disown s)) :=
    fun hn => hn.withWorld (hn.world.disown hs)
  cases reply with
  | run raises =>
    cases raises <;> cases result <;>
      exact hdone (by first | exact hon.emit .. | exact hon.withControl (.raise _) | exact hon)
  | resume raises =>
    cases raises <;> cases result <;>
      exact hdone (by first | exact hon.emit .. | exact hon.withControl (.raise _) | exact hon)
  | foreignRun => exact hdone (hon.foreignAnswer hreply.head "run" result)
  | foreignResume name =>
    cases result with
    | ok code => exact hdone (hon.foreignOk name 0)
    | error fault => exact hdone (hon.foreignAnswer hreply.head name (.error fault))
  | directResume => cases result <;> exact hdone (hon.emit ..)

/-- The scheduler at a shared position is the same one. -/
theorem withScheduler (h : m.Alike B D κ m') (name : String) {position : Nat}
    (hposition : B.mine (.position position)) {use use' : SchedulerId → Machine}
    (huse : ∀ {s}, B.own s → (use s).Grown B D κ (use' s)) :
    (m.withScheduler name position use).Grown B D κ (m'.withScheduler name position use') := by
  rw [Machine.withScheduler, Machine.withScheduler, ← h.world.like.positions hposition]
  cases hat : m.world.schedulerAt position with
  | none => exact (h.lacking _).grown
  | some s => exact huse (h.world.like.owned hposition hat)

theorem enqueue (h : m.Alike B D κ m') {position : Nat} (hposition : B.mine (.position position))
    {body body' : List Action} {insideFaulty : Bool} (hbody : Body.Twin B insideFaulty body body') :
    (m.enqueue position body).Grown B D κ (m'.enqueue position body') := by
  refine h.withScheduler _ hposition fun {s} hs => ?_
  obtain ⟨κ', hgrows, hid, hworld⟩ := h.world.enqueue hs hbody
  dsimp only
  rw [← hid]
  exact ⟨κ', hgrows, (h.grow hgrows hworld).emit ..⟩

theorem runLoop (h : m.Alike B D κ m') {position : Nat} (hposition : B.mine (.position position))
    (max : Option Nat) {reply : Reply} (hreply : B.All reply.names) :
    (m.runLoop position max reply).Grown B D κ (m'.runLoop position max reply) :=
  h.withScheduler _ hposition fun hs =>
    (((h.withWorld (h.world.own hs)).push (.answering hs hreply)).run hs max).grown

theorem resume (h : m.Alike B D κ m') {position : Nat} (hposition : B.mine (.position position))
    {slot : String} (hslot : B.mine (.slot slot)) (keep : Bool) {delivery : Delivery}
    (hdelivery : B.All delivery.names) (raises : Bool) :
    (m.resume position slot keep delivery raises).Grown B D κ
    (m'.resume position slot keep delivery raises) := by
  refine h.withScheduler _ hposition fun {s} hs => ?_
  have htaken := h.world.takeHandle? hslot keep
  generalize m.world.takeHandle? slot keep = taken at htaken
  generalize m'.world.takeHandle? slot keep = taken' at htaken
  cases htaken with
  | none => exact (h.lacking _).grown
  | some hhandle =>
    refine (h.withWorld hhandle.2).withResumption _ hdelivery (.cons (.handle hhandle.1) .nil)
      fun hn hresumption => ?_
    have hreply : B.All (Reply.resume raises).names := Bond.all_nil
    exact (((hn.withWorld (hn.world.own hs)).push (.answering hs hreply)).deliver hs hhandle.1
        hresumption).grown

theorem showHandle (h : m.Alike B D κ m') {slot : String} (hslot : B.mine (.slot slot)) :
    (m.showHandle slot).Alike B D κ (m'.showHandle slot) := by
  have hfound := h.world.like.slots hslot
  rw [Machine.showHandle, Machine.showHandle]
  generalize m.world.slots.get? slot = found at hfound
  generalize m'.world.slots.get? slot = found' at hfound
  cases hfound with
  | none => exact h.lacking _
  | some hx =>
    obtain ⟨cell, cell', hcell, hcell', htwin⟩ := h.world.like.handles.cell hx
    dsimp only
    rw [h.world.handleId_eq hx, h.world.describe_eq hx, hcell, hcell']
    dsimp only [Option.elim]
    rw [htwin.slot.isParked_eq]
    exact h.emit ..

theorem cloneHandle (h : m.Alike B D κ m') {slot target : String} (hslot : B.mine (.slot slot))
    (htarget : B.mine (.slot target)) :
    (m.cloneHandle slot target).Alike B D κ (m'.cloneHandle slot target) := by
  have htaken := h.world.takeHandle? hslot true
  rw [Machine.cloneHandle, Machine.cloneHandle]
  generalize m.world.takeHandle? slot true = taken at htaken
  generalize m'.world.takeHandle? slot true = taken' at htaken
  cases htaken with
  | none => exact h.lacking _
  | some hhandle => exact h.withWorld (hhandle.2.store htarget hhandle.1)

theorem dropHandle (h : m.Alike B D κ m') {slot : String} (hslot : B.mine (.slot slot)) :
    (m.dropHandle slot).Alike B D κ (m'.dropHandle slot) := by
  have htaken := h.world.takeHandle? hslot false
  rw [Machine.dropHandle, Machine.dropHandle]
  generalize m.world.takeHandle? slot false = taken at htaken
  generalize m'.world.takeHandle? slot false = taken' at htaken
  cases htaken with
  | none => exact h.lacking _
  | some hhandle => exact (h.withWorld (hhandle.2.release_handle hhandle.1)).emit ..

theorem giveUpScheduler (h : m.Alike B D κ m') {position : Nat}
    (hposition : B.mine (.position position)) (name : String) (payload : Datum) :
    (m.withScheduler name position fun s =>
      (m.withWorld ((m.world.setScheduler position none).disown s)).emit name payload).Grown B D κ
        (m'.withScheduler name position fun s =>
          (m'.withWorld ((m'.world.setScheduler position none).disown s)).emit name payload) :=
  h.withScheduler _ hposition fun hs =>
    ((h.withWorld ((h.world.setScheduler_none hposition).disown hs)).emit ..).grown

theorem countdown (h : m.Alike B D κ m') {counter : String} (hcounter : B.mine (.counter counter))
    {body body' : List Action} (hbody : Code.Twin B body body') :
    (m.countdown counter body).Alike B D κ (m'.countdown counter body') := by
  rw [Machine.countdown, Machine.countdown, ← h.world.like.counters hcounter]
  split
  next => exact h
  next => exact h
  next n _ => exact (h.withWorld (h.world.insertCounter hcounter n)).push (.actions hbody)

theorem suspendOnSlot (h : m.Alike B D κ m') {slot : String} (hslot : B.mine (.slot slot))
    (keep raises : Bool) :
    (m.suspendOnSlot slot keep raises).Alike B D κ (m'.suspendOnSlot slot keep raises) := by
  have htaken := h.world.takeHandle? hslot keep
  rw [Machine.suspendOnSlot, Machine.suspendOnSlot]
  generalize m.world.takeHandle? slot keep = taken at htaken
  generalize m'.world.takeHandle? slot keep = taken' at htaken
  cases htaken with
  | none => exact h.lacking _
  | some hhandle => exact (h.withWorld hhandle.2).suspendOn hhandle.1 raises

theorem newHandle (h : m.Alike B D κ m') {slot : String} (hslot : B.mine (.slot slot))
    (id : FiberId) : (m.newHandle slot id).Grown B D κ (m'.newHandle slot id) := by
  obtain ⟨hlinked, hworld⟩ := h.world.makeHandle id 1
  exact ⟨_, κ.grows_link _, h.grow (κ.grows_link _) (hworld.store hslot hlinked)⟩

theorem taskBody (h : m.Alike B D κ m') {task : String} (htask : B.mine (.task task)) :
    ∃ insideFaulty, Body.Twin B insideFaulty (m.taskBody task) (m'.taskBody task) :=
      h.world.like.tasks htask

theorem pending (h : m.Alike B D κ m') {position : Nat} (hposition : B.mine (.position position)) :
    (m.withScheduler "pending" position fun s => m.emit "pending"
      (.nat (m.world.queue s).length)).Grown B D κ
      (m'.withScheduler "pending" position fun s => m'.emit "pending"
        (.nat (m'.world.queue s).length)) := by
  refine h.withScheduler _ hposition fun {s} hs => ?_
  rw [(h.world.queue hs).length_eq]
  exact (h.emit ..).grown

/-- Actions that bring no code. Reports show what the runs do not share. -/
theorem perform_plain (h : m.Alike B D κ m') (hreport : ¬B.mine .report) {action : Action}
    (hplain : action.isPlain = true) (hnames : B.All action.names) :
    (m.perform action).Grown B D κ (m'.perform action) := by
  have hosted : ∀ {plan : AwaitPlan}, B.mine .host → plan.names = [.host] →
      B.All plan.names := fun hhost hplan => by
    rw [hplan]
    exact .cons hhost Bond.all_nil
  cases action with
  | enqueue | await | again | countdown | scope | newCoroutine | foreign | foreignAwait =>
    cases hplain
  | log value => exact (h.emit ..).grown
  | guard => exact h.grown
  | enqueueNamed position task =>
    obtain ⟨insideFaulty, hbody⟩ := h.taskBody hnames.tail.head
    exact h.enqueue hnames.head hbody
  | run position max raises => exact h.runLoop hnames.head max Bond.all_nil
  | resume position slot keep delivery raises =>
    exact h.resume hnames.head hnames.tail.head keep hnames.tail.tail raises
  | handle slot => exact (h.showHandle hnames.head).grown
  | clone slot target => exact (h.cloneHandle hnames.head hnames.tail.head).grown
  | drop slot => exact (h.dropHandle hnames.head).grown
  | state => exact absurd hnames.head hreport
  | dropScheduler position => exact h.giveUpScheduler hnames.head _ _
  | fail failure => exact (h.withControl (.raise failure)).grown
  | panic panic => exact (h.withControl (.panicking panic)).grown
  | suspend slot keep raises => exact (h.suspendOnSlot hnames.head keep raises).grown
  | newHandle slot id => exact h.newHandle hnames.head id
  | park slot keep coroutine owner => exact (h.park hnames.head keep hnames.tail.head owner).grown
  | wake slot keep coroutine owner delivery =>
    exact h.wake hnames.head keep hnames.tail.head owner hnames.tail.tail
  | transfer coroutine delivery slot =>
    exact h.transfer hnames.head hnames.tail.left hnames.tail.right
  | coroutineInfo coroutine => exact (h.coroutineInfo hnames.head).grown
  | takeStack coroutine => exact (h.takeStack hnames.head).grown
  | dropCoroutine coroutine => exact (h.dropCoroutine hnames.head).grown
  | driverState => exact absurd hnames.tail.tail.head hreport
  | newDriver position => exact (h.newDriver hnames.head hnames.tail.head).grown
  | drive position =>
    exact h.withDriver hnames.tail.head _ position fun d => (h.drive hnames.tail.head d).grown
  | inFlight position =>
    refine h.withDriver hnames.tail.head _ position fun d => ?_
    rw [h.world.inFlight_eq hnames.tail.head d]
    exact (h.emit ..).grown
  | sleep position milliseconds onError =>
    have hhost : B.mine .host := hnames.tail.head
    exact h.withDriver hhost _ position fun d => h.issue hhost d (.sleep milliseconds)
      (hosted hhost rfl)
  | call position type outcome wait onError keepIn =>
    have hhost : B.mine .host := hnames.tail.head
    have hrest : B.All (outcome.names ++ Resource.slots keepIn) := hnames.tail.tail
    refine h.withDriver hhost _ position fun d => ?_
    refine h.withEnding _ hrest.left fun hn hending => ?_
    have hplan : B.All (AwaitPlan.names ⟨.call d, type, onError, keepIn⟩) := .cons hhost hrest.right
    exact hn.issue hhost d (.answer wait hending) hplan
  | blocking position outcome onError =>
    have hhost : B.mine .host := hnames.tail.head
    refine h.withDriver hhost _ position fun d => h.issue hhost d (.answer none (.done ?_))
      (hosted hhost rfl)
    cases outcome with
    | done value => exact .value (.scalar _)
    | failed failure => exact .error _
    | panicked => exact .error _
  | awaitAll position onError =>
    have hhost : B.mine .host := hnames.tail.head
    exact h.withDriver hhost _ position fun d => h.awaitAll d (hosted hhost rfl)
  | signal semaphore permits =>
    exact (h.withWorld (h.world.signal hnames.head semaphore permits)).grown
  | unknown name => exact (h.emit ..).grown
  | foreignRun position max => exact h.runLoop hnames.head max hnames.tail
  | pending position => exact h.pending hnames.head
  | foreignResume position slot keep value =>
    exact h.withScheduler _ hnames.head fun hs =>
      (h.foreignResume hnames.tail.head _ hs hnames.tail.tail keep (.value (.scalar _))).grown
  | foreignError position slot keep message =>
    exact h.withScheduler _ hnames.head fun hs =>
      (h.foreignResume hnames.tail.head _ hs hnames.tail.tail keep (.error _)).grown
  | directResume position slot keep delivery =>
    have hrest : B.All (delivery.names ++ Resource.slots slot) := hnames.tail
    refine h.withScheduler _ hnames.head fun hs => ?_
    refine h.withResumption _ hrest.left .nil fun hn hresumption => ?_
    exact (hn.directResume hs hrest.right keep hresumption).grown
  | handleText slot => exact (h.handleText hnames.head).grown
  | destroyHandle slot keep => exact (h.destroyHandle hnames keep).grown
  | destroyScheduler position => exact h.giveUpScheduler hnames.head _ _
  | lastError =>
    have hlast := h.world.like.lastError hnames.head
    rw [Machine.perform, Machine.perform, World.lastErrorDatum, World.lastErrorDatum, hlast]
    exact (h.emit ..).grown

/-- One action, by its code. -/
theorem perform (hreport : ¬B.mine .report) {action action' : Action}
    (haction : action.Twin B action') :
    m.Alike B D κ m' → (m.perform action).Grown B D κ (m'.perform action') := by
  intro h
  cases haction with
  | plain hplain hnames => exact h.perform_plain hreport hplain hnames
  | enqueue hposition hbody htail => exact h.enqueue hposition ⟨hbody, htail⟩
  | @await type slot register register' onError keepIn hslot hkeep hregister =>
    have hplan : B.All (AwaitPlan.names ⟨.plain, type, onError, keepIn⟩) := hkeep
    exact h.await hplan hslot hregister
  | again hbody => exact (h.push (.again hbody)).grown
  | countdown hcounter hbody => exact (h.countdown hcounter hbody).grown
  | @scope body body' catches hbody =>
    cases catches with
    | true => exact ((h.push .catching).push (.actions hbody)).grown
    | false => exact (h.push (.actions hbody)).grown
  | newCoroutine hcoroutine hbody => exact (h.newCoroutine hcoroutine _ _ hbody).grown
  | foreign hposition hinner =>
    have hinto := perform hreport hinner h
    rw [Machine.perform, Machine.perform, ← h.world.like.positions hposition, ← hinner.name_eq]
    split
    next => exact (h.emit ..).grown
    next => exact hinto
  | foreignAwait hslot hfailing hlast hregister =>
    exact h.foreignAwait hslot hfailing hlast hregister

/-! ### Frames -/

/-- What a task does next. -/
theorem react_actions (h : m.Alike B D κ m') (hreport : ¬B.mine .report) {todo todo' : List Action}
    (htodo : Code.Twin B todo todo') (guards : List Datum) :
    Option.Rel (Machine.Grown B D κ) (m.react? (.actions todo guards))
      (m'.react? (.actions todo' guards)) := by
  have hover := (h.withWorld (h.world.release_guards guards)).grown
  by_cases hadvance : m.control = .advance
  case neg =>
    -- The frame is left as it is, so what it still has to do does not matter.
    have hadvance' : m'.control ≠ .advance := fun heq => by
      have hcontrol := h.control
      rw [heq] at hcontrol
      generalize m.control = control at hcontrol hadvance
      cases hcontrol
      exact hadvance rfl
    rw [react?_actions_of_ne hadvance, react?_actions_of_ne hadvance']
    obtain ⟨w, running, root, control⟩ := m
    obtain ⟨w', running', root', control'⟩ := m'
    cases h.control with
    | raise | panicking | advance => exact .some hover
    | resumed | back | answer => exact .none
  obtain ⟨w, running, root, control⟩ := m
  obtain ⟨w', running', root', control'⟩ := m'
  cases h.control with
  | raise | panicking | resumed | back | answer => cases hadvance
  | advance =>
    cases htodo with
    | nil => exact .some hover
    | @cons action action' todo todo' haction hrest =>
      have hframe : Frame.Twin B κ (.actions todo guards) (.actions todo' guards) := .actions hrest
      have hperformed := perform hreport haction (h.push hframe)
      -- The frame itself takes up a guard; all other actions are performed above it.
      cases haction with
      | plain hplain hnames =>
        cases action with
        | guard value => exact .some (h.push (.actions hrest)).grown
        | _ => exact .some hperformed
      | _ => exact .some hperformed

/-- A frame reacts in both runs, or in neither. -/
theorem react (h : m.Alike B D κ m') (hreport : ¬B.mine .report) (hstocked : m.world.Stocked)
    (hstocked' : m'.world.Stocked) {frame frame' : Frame} (hframe : frame.Twin B κ frame')
    (hhand : ∀ {coroutine slot fiber exit}, frame = .transferring coroutine slot →
      m.control = .back fiber exit → fiber.home = none)
    (hhome : ∀ {s fiber exit}, frame = .dispatching s → m.control = .back fiber exit →
      fiber.home = some s) :
    Option.Rel (Machine.Grown B D κ) (m.react? frame) (m'.react? frame') := by
  obtain ⟨w, running, root, control⟩ := m
  obtain ⟨w', running', root', control'⟩ := m'
  cases hframe with
  | actions htodo => exact h.react_actions hreport htodo _
  | registering hx hplan => exact rel_mono Alike.grown (h.registered hplan hx)
  | driving hhost hphase => exact rel_mono Alike.grown (h.stepDriver? hhost _ hphase)
  | @completing d key fiber hhost =>
    cases h.control with
    | answer result => exact .some (h.completed d key fiber result).grown
    | advance | raise | panicking | resumed | back => exact .none
  | @again times body body' hbody =>
    cases h.control with
    | raise | panicking => cases times <;> exact .some h.grown
    | resumed | back | answer => cases times <;> exact .none
    | advance =>
      cases times with
      | zero => exact .some h.grown
      | succ times => exact .some ((h.push (.again hbody)).push (.actions hbody)).grown
  | catching =>
    cases h.control with
    | advance | panicking => exact .some h.grown
    | raise failure => exact .some (h.emit ..).advance.grown
    | resumed | back | answer => exact .none
  | @awaiting x x' plan hx hplan =>
    cases h.control with
    | resumed hresumption => exact .some (h.concludeAwait hplan x x' hresumption).grown
    | advance | raise | panicking | back | answer => exact .none
  | suspending raises =>
    cases h.control with
    | resumed hresumption => exact .some (h.concludeSuspend raises hresumption).grown
    | advance | raise | panicking | back | answer => exact .none
  | transferring hcoroutine hslot =>
    cases h.control with
    | back hfiber hexit =>
      exact .some (h.transferred hcoroutine hslot hfiber (hhand rfl rfl) hexit).grown
    | advance | raise | panicking | resumed | answer => exact .none
  | dispatching hs =>
    cases h.control with
    | back hfiber hexit =>
      obtain ⟨κ', hgrows, hworld⟩ := h.world.receive hs hfiber (hhome rfl rfl) hexit
      exact .some ⟨κ', hgrows, (h.grow hgrows hworld).advance⟩
    | advance | raise | panicking | resumed | answer => exact .none
  | @draining s ran max hs =>
    cases h.control with
    | advance => exact .some (h.drain hs hstocked hstocked' ran max).grown
    | raise | panicking | resumed | back | answer => exact .none
  | answering hs hreply =>
    cases h.control with
    | answer result => exact .some (h.reportCall hs hreply result).grown
    | advance | raise | panicking | resumed | back => exact .none

end Alike

/-! ### Steps -/

theorem Sound.stocked (h : m.Sound True) : m.world.Stocked :=
  ⟨fun hscheduler _ hidle => (h.idle_mapped hscheduler hidle).2⟩

theorem Sound.home_of_transferring (h : m.Sound True) {coroutine : String} {slot : Option String}
    {frames : List Frame} (htop : m.top = .transferring coroutine slot :: frames)
    {fiber : Fiber} {exit : Exit} (hcontrol : m.control = .back fiber exit) :
    fiber.home = none := by
  have haccepts := h.accepts
  rw [htop, hcontrol] at haccepts
  exact haccepts.1.2.1

theorem Sound.home_of_dispatching (h : m.Sound True) {frames : List Frame}
    (htop : m.top = .dispatching s :: frames) {fiber : Fiber} {exit : Exit}
    (hcontrol : m.control = .back fiber exit) : fiber.home = some s := by
  have haccepts := h.accepts
  rw [htop, hcontrol] at haccepts
  have hentered := haccepts.1
  unfold World.Entered at hentered
  split at hentered
  next heq => cases heq
  next heq =>
    cases heq
    exact hentered.2.1
  next => exact hentered.elim

/-- A fiber without frames ends in both runs, or in neither. -/
theorem exit_twin {home : Option SchedulerId} {id : FiberId} (htold : κ.Told home id false)
    {control control' : Control} (h : control.Twin B κ control') :
    Option.Rel (Exit.Twin B κ home id) (exit? control) (exit? control') := by
  cases h with
  | advance => exact .some (.completed htold)
  | raise failure => exact .some (.failed failure)
  | panicking panic => exact .some (.panicked panic)
  | resumed | back | answer => exact .none

/-- Two machines inside a task that has the fault at its end in the second run. -/
inductive InsideFaulty (B : Bond) (D : Backdrop) (κ : Ties) : Machine → Machine → Prop
  | mk {w w' : World} {running running' : Running} {below below' : List Running}
      {root root' : List Frame} {control control' : Control}
      {todo todo' tail : List Action} {guards : List Datum} (hworld : w.Twin B D κ w')
      (hlike : running.Like κ true running') (hbelow : Forall₂ (Running.Twin B κ) below below')
      (hroot : Forall₂ (Frame.Twin B κ) root root') (hcontrol : control.Twin B κ control')
      (htodo : Code.Twin B todo todo') (htail : B.Tail true tail) :
      InsideFaulty B D κ
        ⟨w, { running with frames := [.actions todo guards] } :: below, root, control⟩
        ⟨w', { running' with frames := [.actions (todo' ++ tail) guards] } :: below',
          root', control'⟩

/-- Two machines that do the same take a step together, or rest both, unless they are about to
come to the fault. -/
theorem Alike.step (h : m.Alike B D κ m') (hreport : ¬B.mine .report) (hm : m.Sound True)
    (hm' : m'.Sound True) :
    Option.Rel (Machine.Grown B D κ) m.step? m'.step? ∨ m.InsideFaulty B D κ m' := by
  have hhand : ∀ {coroutine slot frames fiber exit}, m.top = .transferring coroutine slot ::
      frames → m.control = .back fiber exit →
      fiber.home = none := fun htop hcontrol => hm.home_of_transferring htop hcontrol
  have hhome : ∀ {s frames fiber exit}, m.top = .dispatching s :: frames →
      m.control = .back fiber exit → fiber.home = some s :=
    fun htop hcontrol => hm.home_of_dispatching htop hcontrol
  have hstocked := hm.stocked
  have hstocked' := hm'.stocked
  have hcurrent := hm.current
  have hcurrent' := hm'.current
  rw [hm.step?_eq, hm'.step?_eq]
  obtain ⟨w, running, root, control⟩ := m
  obtain ⟨w', running', root', control'⟩ := m'
  obtain ⟨hworld, hrunning, hroot, hcontrol⟩ := h
  cases hrunning with
  | nil =>
    refine .inl ?_
    cases hroot with
    | nil => exact .none
    | @cons frame frame' frames frames' hframe hframes =>
      have hbelow : Machine.Alike B D κ ⟨w, [], frames, control⟩ ⟨w', [], frames', control'⟩ :=
        ⟨hworld, .nil, hframes, hcontrol⟩
      exact hbelow.react hreport hstocked hstocked' hframe
        (fun heq => hhand (congrArg (· :: frames) heq))
        fun heq => hhome (congrArg (· :: frames) heq)
  | @cons running running' below below' htop hbelow =>
    obtain ⟨hlike, hframes⟩ := htop
    obtain ⟨serial, id, home, stack, outer, first, frames⟩ := running
    obtain ⟨serial', id', home', stack', outer', first', frames'⟩ := running'
    cases hframes with
    | nil =>
      refine .inl ?_
      have hexit := exit_twin hlike.told hcontrol
      rw [Machine.move?, Machine.move?]
      dsimp only
      generalize exit? control = exit at hexit
      generalize exit? control' = exit' at hexit
      cases hexit with
      | none => exact .none
      | some hexit =>
        exact .some (leave_alike hworld hroot hlike hcurrent hcurrent' hbelow hexit).grown
    | @cons _ frame frame' frames frames' hframe hframes =>
      have hinside : Machine.Alike B D κ
          ⟨w, ⟨serial, id, home, stack, outer, first, frames⟩ :: below, root, control⟩
          ⟨w', ⟨serial', id', home', stack', outer', first', frames'⟩ :: below', root', control'⟩ :=
        ⟨hworld, .cons ⟨{ hlike with }, hframes⟩ hbelow, hroot, hcontrol⟩
      exact .inl (hinside.react hreport hstocked hstocked' hframe
        (fun heq => hhand (congrArg (· :: frames) heq))
        fun heq => hhome (congrArg (· :: frames) heq))
    | ailing htodo htail => exact .inr (.mk hworld hlike hbelow hroot hcontrol htodo htail)

/-- Two machines that do the same are done at once. -/
theorem Alike.done_iff (h : m.Alike B D κ m') : m.Done ↔ m'.Done := by
  have hlevels := h.running.length_eq
  have hframes := h.root.length_eq
  constructor
  · rintro ⟨hrunning, hroot⟩
    rw [hrunning] at hlevels
    rw [hroot] at hframes
    exact ⟨List.eq_nil_of_length_eq_zero hlevels.symm, List.eq_nil_of_length_eq_zero hframes.symm⟩
  · rintro ⟨hrunning, hroot⟩
    rw [hrunning] at hlevels
    rw [hroot] at hframes
    exact ⟨List.eq_nil_of_length_eq_zero hlevels, List.eq_nil_of_length_eq_zero hframes⟩

theorem Sound.settle (h : m.Sound True) (fuel : Nat) : (m.settle fuel).Sound True :=
  h.leads (Leads.of_reaches (reaches_settle m fuel)) fun _ _ _ _ => trivial

theorem settle_one (h : m.step? = none) : m.settle 1 = m := by
  rw [Machine.settle, h]

theorem settle_one_of_step {next : Machine} (h : m.step? = some next) : m.settle 1 = next := by
  rw [Machine.settle, h]
  rfl

/-- Without a fault two machines that do the same go on to do the same. -/
theorem Alike.settle (h : m.Alike B D κ m') (hfault : B.fault = none) (hreport : ¬B.mine .report)
    (hm : m.Sound True) (hm' : m'.Sound True) (fuel : Nat) :
    (m.settle fuel).Grown B D κ (m'.settle fuel) := by
  induction fuel with
  | zero => exact h.grown
  | succ fuel ih =>
    obtain ⟨κ', hgrows, halike⟩ := ih
    rw [← settle_add, ← settle_add]
    refine Grown.mono ?_ hgrows
    have hstep := halike.step hreport (hm.settle fuel) (hm'.settle fuel)
    generalize m.settle fuel = a at halike hstep
    generalize m'.settle fuel = a' at halike hstep
    rcases hstep with hstep | hfaulty
    · cases hnext : a.step? with
      | none =>
        rw [hnext] at hstep
        have hnext' : a'.step? = none := by
          generalize a'.step? = next' at hstep
          cases hstep
          rfl
        rw [settle_one hnext, settle_one hnext']
        exact halike.grown
      | some next =>
        rw [hnext] at hstep
        obtain ⟨next', hnext', hgrown⟩ : ∃ next', a'.step? = some next' ∧
          next.Grown B D κ' next' := by
          generalize a'.step? = after at hstep
          cases hstep with
          | some hgrown => exact ⟨_, rfl, hgrown⟩
        rw [settle_one_of_step hnext, settle_one_of_step hnext']
        exact hgrown
    · obtain ⟨-, -, -, -, -, -, htail⟩ := hfaulty
      obtain ⟨fault⟩ := htail
      next hfound => rw [hfault] at hfound; cases hfound

end Machine

end Fibers
