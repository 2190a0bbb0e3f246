import Fibers.Machine.Coroutine
import Fibers.Machine.Foreign
import Fibers.Proofs.Passing
import Fibers.Proofs.TwinOps

/-!
Twin machines: the two machines of a pair of runs while they do the same. Each function of
the machine, on twins, gives twins again.
-/

namespace Fibers

open List (Forall₂)

variable {B : Bond} {D : Backdrop} {κ κ' : Ties}

/-- Two fibers that control is inside of, but for their frames. -/
structure Running.Like (κ : Ties) (insideFaulty : Bool) (running running' : Running) : Prop where
  id : running.id = running'.id
  home : running.home = running'.home
  size : running.stack.size = running'.stack.size
  outer : running.outer.map Current.id = running'.outer.map Current.id
  first : running.first.Twin κ running'.first
  told : κ.Told running.home running.id insideFaulty

inductive Running.Twin (B : Bond) (κ : Ties) (running running' : Running) : Prop
  | mk {insideFaulty : Bool} (hlike : running.Like κ insideFaulty running')
      (hframes : Frames.Twin B κ insideFaulty running.frames running'.frames)

theorem Running.Like.mono {insideFaulty : Bool} {running running' : Running}
    (h : running.Like κ insideFaulty running') (hgrows : κ.Grows κ') :
    running.Like κ' insideFaulty running' :=
  { h with
    first := h.first.mono hgrows
    told := h.told.mono hgrows }

theorem Running.Twin.mono {running running' : Running} (h : running.Twin B κ running')
    (hgrows : κ.Grows κ') : running.Twin B κ' running' := by
  obtain ⟨hlike, hframes⟩ := h
  exact ⟨hlike.mono hgrows, hframes.mono hgrows⟩

inductive Control.Twin (B : Bond) (κ : Ties) : Control → Control → Prop
  | advance : Twin B κ .advance .advance
  | raise (failure : Failure) : Twin B κ (.raise failure) (.raise failure)
  | panicking (panic : Panic) : Twin B κ (.panicking panic) (.panicking panic)
  | resumed {resumption resumption' : Resumption} (h : resumption.Twin κ resumption') :
      Twin B κ (.resumed resumption) (.resumed resumption')
  | back {fiber fiber' : Fiber} {exit exit' : Exit} (hfiber : fiber.Twin B κ fiber')
      (hexit : Exit.Twin B κ fiber.home fiber.id exit exit') :
      Twin B κ (.back fiber exit) (.back fiber' exit')
  | answer (result : Except SchedulerFault Nat) : Twin B κ (.answer result) (.answer result)

theorem Control.Twin.mono {control control' : Control} (h : control.Twin B κ control')
    (hgrows : κ.Grows κ') : control.Twin B κ' control' := by
  cases h with
  | advance => exact .advance
  | raise failure => exact .raise failure
  | panicking panic => exact .panicking panic
  | resumed h => exact .resumed (h.mono hgrows)
  | back hfiber hexit => exact .back (hfiber.mono hgrows) (hexit.mono hgrows)
  | answer result => exact .answer result

/-- Two machines that do the same next. -/
structure Machine.Alike (B : Bond) (D : Backdrop) (κ : Ties) (m m' : Machine) : Prop where
  world : m.world.Twin B D κ m'.world
  running : Forall₂ (Running.Twin B κ) m.running m'.running
  root : Forall₂ (Frame.Twin B κ) m.root m'.root
  control : m.control.Twin B κ m'.control

/-- Two machines that do the same next, once more handles and tasks have come up. -/
def Machine.Grown (B : Bond) (D : Backdrop) (κ : Ties) (m m' : Machine) : Prop :=
  ∃ κ', κ.Grows κ' ∧ m.Alike B D κ' m'

namespace Machine

variable {m m' : Machine} {w w' : World} {x x' : HandleRef} {s : SchedulerId}

theorem Alike.grown (h : m.Alike B D κ m') : m.Grown B D κ m' := ⟨κ, .refl κ, h⟩

theorem Grown.mono (h : m.Grown B D κ' m') (hgrows : κ.Grows κ') : m.Grown B D κ m' := by
  obtain ⟨κ'', hmore, halike⟩ := h
  exact ⟨κ'', hgrows.trans hmore, halike⟩

/-- Control leaves a fiber that has no frames left. -/
theorem leave_alike (hworld : m.world.Twin B D κ m'.world)
    (hroot : Forall₂ (Frame.Twin B κ) m.root m'.root) {running running' : Running}
    {insideFaulty : Bool} (hlike : running.Like κ insideFaulty running')
    (hcurrent : m.world.current = some running.current)
    (hcurrent' : m'.world.current = some running'.current) {below below' : List Running}
    (hbelow : Forall₂ (Running.Twin B κ) below below') {exit exit' : Exit}
    (hexit : Exit.Twin B κ running.home running.id exit exit') :
    (m.leave running below exit).Alike B D κ (m'.leave running' below' exit') := by
  have hleft := (hworld.setCurrent hlike.outer).release hlike.first.debris
  rw [Machine.leave, Machine.leave, World.restore_of_current hcurrent,
    World.restore_of_current hcurrent']
  refine ⟨hleft.write (.ended hlike.id hlike.home hexit), hbelow, hroot, .back ?_ hexit⟩
  exact ⟨hlike.id, hlike.home, hlike.size, insideFaulty, hlike.told, .finished⟩

namespace Alike

theorem withWorld (h : m.Alike B D κ m') (hworld : w.Twin B D κ w') :
    (m.withWorld w).Alike B D κ (m'.withWorld w') :=
  { h with world := hworld }

/-- The worlds go on, and more handles and tasks come up. -/
theorem grow (h : m.Alike B D κ m') (hgrows : κ.Grows κ') (hworld : w.Twin B D κ' w') :
    (m.withWorld w).Alike B D κ' (m'.withWorld w') where
  world := hworld
  running := h.running.imp fun _ _ hrunning => hrunning.mono hgrows
  root := h.root.imp fun _ _ hframe => hframe.mono hgrows
  control := h.control.mono hgrows

theorem withControl (h : m.Alike B D κ m') {control control' : Control}
    (hcontrol : control.Twin B κ control') :
    (m.withControl control).Alike B D κ (m'.withControl control') :=
  { h with control := hcontrol }

theorem advance (h : m.Alike B D κ m') : m.advance.Alike B D κ m'.advance := h.withControl .advance

theorem emit (h : m.Alike B D κ m') (name : String) (payload : Datum) :
    (m.emit name payload).Alike B D κ (m'.emit name payload) :=
  h.withWorld (h.world.emit name payload)

theorem lacking (h : m.Alike B D κ m') (name : String) :
    (m.lacking name).Alike B D κ (m'.lacking name) := h.emit ..

theorem push (h : m.Alike B D κ m') {frame frame' : Frame} (hframe : frame.Twin B κ frame') :
    (m.push frame).Alike B D κ (m'.push frame') := by
  obtain ⟨w, running, root, control⟩ := m
  obtain ⟨w', running', root', control'⟩ := m'
  obtain ⟨hworld, hrunning, hroot, hcontrol⟩ := h
  cases hrunning with
  | nil => exact ⟨hworld, .nil, .cons hframe hroot, hcontrol⟩
  | cons htop hbelow =>
    obtain ⟨hlike, hframes⟩ := htop
    exact ⟨hworld, .cons ⟨{ hlike with }, .cons hframe hframes⟩ hbelow, hroot, hcontrol⟩

/-! ### Transfers -/

/-- Control enters a fiber with some frames. -/
theorem occupy (h : m.Alike B D κ m') {fiber fiber' : Fiber} (hid : fiber.id = fiber'.id)
    (hhome : fiber.home = fiber'.home) (hsize : fiber.stack.size = fiber'.stack.size)
    {insideFaulty : Bool} (htold : κ.Told fiber.home fiber.id insideFaulty) {first first' : Payload}
    (hfirst : first.Twin κ first') {frames frames' : List Frame}
    (hframes : Frames.Twin B κ insideFaulty frames frames') {control control' : Control}
    (hcontrol : control.Twin B κ control') :
    (m.occupy fiber first frames control).Alike B D κ
    (m'.occupy fiber' first' frames' control') where
  world := h.world.setCurrent (congrArg some hid)
  running := .cons ⟨⟨hid, hhome, hsize, h.world.like.current, hfirst, htold⟩, hframes⟩ h.running
  root := h.root
  control := hcontrol

/-- A task starts. -/
theorem begin (h : m.Alike B D κ m') (home : Option SchedulerId) (id : FiberId)
    {stack stack' : Stack} (hsize : stack.size = stack'.size)
    {insideFaulty : Bool} (htold : κ.Told home id insideFaulty) {body body' : List Action}
    (hbody : Body.Twin B insideFaulty body body') (n n' : Nat) :
    (m.enter ⟨n, id, home, stack, .unstarted body⟩ .unit).Alike B D κ
    (m'.enter ⟨n', id, home, stack', .unstarted body'⟩ .unit) where
  world := h.world.setCurrent rfl
  running := .cons
    ⟨⟨rfl, rfl, hsize, h.world.like.current, .scalar .unit, htold⟩, .of_body hbody⟩ h.running
  root := h.root
  control := .advance

theorem enter (h : m.Alike B D κ m') {fiber fiber' : Fiber} (hfiber : fiber.Twin B κ fiber')
    {resumption resumption' : Resumption} (hresumption : resumption.Twin κ resumption') :
    (m.enter fiber resumption).Alike B D κ (m'.enter fiber' resumption') := by
  have hwhole := hfiber
  obtain ⟨serial, id, home, stack, state⟩ := fiber
  obtain ⟨serial', id', home', stack', state'⟩ := fiber'
  obtain ⟨hid, hhome, hsize, insideFaulty, htold, hstate⟩ := hfiber
  cases hstate with
  | unstarted hbody =>
    cases hresumption with
    | value hfirst =>
      exact h.occupy hid hhome hsize htold hfirst (.cons (.actions hbody) .nil) .advance
    | error failure => exact h.occupy hid hhome hsize htold (.scalar .unit) .nil (.raise failure)
  | suspended hframes hfirst =>
    exact h.occupy hid hhome hsize htold hfirst hframes (.resumed hresumption)
  | finished =>
    exact (h.withWorld (h.world.release hresumption.debris)).withControl
      (.back hwhole (.panicked _))

theorem suspend (h : m.Alike B D κ m') (hx : κ.Linked x x') :
    (m.suspend x).Alike B D κ (m'.suspend x') := by
  obtain ⟨w, running, root, control⟩ := m
  obtain ⟨w', running', root', control'⟩ := m'
  obtain ⟨hworld, hrunning, hroot, hcontrol⟩ := h
  cases hrunning with
  | nil => exact ⟨hworld, .nil, hroot, hcontrol⟩
  | cons htop hbelow =>
    obtain ⟨hlike, hframes⟩ := htop
    refine ⟨hworld.setCurrent hlike.outer, hbelow, hroot, .back ?_ (.suspended hx)⟩
    exact ⟨hlike.id, hlike.home, hlike.size, _, hlike.told, .suspended hframes hlike.first⟩

/-! ### The run loop -/

theorem dispatch (h : m.Alike B D κ m') (hs : B.own s) {fiber fiber' : Fiber}
    (hfiber : fiber.Twin B κ fiber') {resumption resumption' : Resumption}
    (hresumption : resumption.Twin κ resumption') :
    (m.dispatch s fiber resumption).Alike B D κ (m'.dispatch s fiber' resumption') :=
  (h.push (.dispatching hs)).enter hfiber hresumption

/-- A task starts, or gets no stack in either run. -/
theorem start (h : m.Alike B D κ m') (hs : B.own s) (hstocked : m.world.Stocked)
    (hstocked' : m'.world.Stocked) {id : FiberId} {body body' : List Action} {insideFaulty : Bool}
    (htold : (s, id, insideFaulty) ∈ κ.tasks) (hbody : Body.Twin B insideFaulty body body') :
    (m.start s id body).Alike B D κ (m'.start s id body') := by
  obtain ⟨hsupplied, hworld⟩ := h.world.supplyStack hs hstocked hstocked'
  rw [Machine.start, Machine.start]
  generalize m.world.supplyStack s = supply at hsupplied hworld
  generalize m'.world.supplyStack s = supply' at hsupplied hworld
  obtain ⟨stack, w⟩ := supply
  obtain ⟨stack', w'⟩ := supply'
  cases hsupplied with
  | ok hsize =>
    have hpushed := (h.withWorld (hworld.renumber (w.fibersMade + 1) (w'.fibersMade + 1))).push
      (.dispatching hs)
    exact hpushed.begin (some s) id hsize htold hbody w.fibersMade w'.fibersMade
  | error fault =>
    have hmarked : (w.mark (.unstarted s id)).Twin B D κ (w'.mark (.unstarted s id)) :=
      hworld.mark rfl rfl
    have hlacks := hmarked.tell (.noStack id (SchedulerFault.stack fault).message)
    refine (h.withWorld (hlacks.updateScheduler hs fun htwin => ?_)).advance
    exact { htwin with counters := htwin.counters.failed }

theorem drain (h : m.Alike B D κ m') (hs : B.own s) (hstocked : m.world.Stocked)
    (hstocked' : m'.world.Stocked) (ran : Nat) (max : Option Nat) :
    (m.drain s ran max).Alike B D κ (m'.drain s ran max) := by
  have hnext := h.world.next? hs
  rw [Machine.drain, Machine.drain]
  split
  next => exact h.withControl (.answer _)
  next =>
    cases hentry : m.world.next? s with
    | none =>
      rw [hentry] at hnext
      generalize m'.world.next? s = next' at hnext
      cases hnext
      exact h.withControl (.answer _)
    | some taken =>
      cases hentry' : m'.world.next? s with
      | none =>
        rw [hentry, hentry'] at hnext
        cases hnext
      | some taken' =>
        obtain ⟨entry, w⟩ := taken
        obtain ⟨entry', w'⟩ := taken'
        rw [hentry, hentry'] at hnext
        obtain ⟨⟨hentries, hworld⟩⟩ := hnext
        have hdraining : Frame.Twin B κ (.draining s (ran + 1) max) (.draining s (ran + 1) max) :=
          .draining hs
        have hpushed := (h.withWorld hworld).push hdraining
        have hstocks : ∀ {n : Machine} {u : World} {frame : Frame}, u.Stocked →
            ((n.withWorld u).push frame).world.Stocked := by
          intro n u frame hu
          rw [push_world]
          exact hu
        cases hentries with
        | fresh htold hbody =>
          exact hpushed.start hs (hstocks (hstocked.next hentry))
            (hstocks (hstocked'.next hentry')) htold hbody
        | woken hfiber hresumption => exact hpushed.dispatch hs hfiber hresumption

/-- Inside a fiber the run loop is refused in both runs. -/
theorem run (h : m.Alike B D κ m') (hs : B.own s) (max : Option Nat) :
    (m.run s max).Alike B D κ (m'.run s max) := by
  rw [Machine.run, Machine.run, h.world.like.current]
  split
  next => exact h.withControl (.answer _)
  next => exact (h.push (.draining hs)).advance

theorem deliver (h : m.Alike B D κ m') (hs : B.own s) (hx : κ.Linked x x')
    {resumption resumption' : Resumption} (hresumption : resumption.Twin κ resumption') :
    (m.deliver s x resumption).Alike B D κ (m'.deliver s x' resumption') := by
  obtain ⟨hwoken, hworld⟩ := h.world.wake hx hresumption (.scheduler s)
  rw [Machine.deliver, Machine.deliver, ← h.world.handleId_eq hx]
  generalize m.world.wake x _ _ = woken at hwoken hworld
  generalize m'.world.wake x' _ _ = woken' at hwoken hworld
  obtain ⟨result, w⟩ := woken
  obtain ⟨result', w'⟩ := woken'
  cases hwoken with
  | refused fault => exact (h.withWorld (hworld.tell _)).withControl (.answer _)
  | accepted hmet =>
    cases hmet with
    | nothing => exact (h.withWorld (hworld.tell _)).withControl (.answer _)
    | met hfiber hresumption =>
      have hinside : w.current.isSome = w'.current.isSome := by
        have hsame := congrArg Option.isSome hworld.like.current
        rwa [World.currentId, World.currentId, Option.isSome_map, Option.isSome_map] at hsame
      dsimp only
      rw [hinside]
      split
      next =>
        exact (h.withWorld ((hworld.tell _).append_woken hs hfiber hresumption)).withControl
          (.answer _)
      next =>
        have hresuming :=
          (hworld.tell (.resuming (m.world.handleId x))).write
            (.dispatched (s := s) (.woken hfiber hresumption))
        exact ((h.withWorld hresuming).push (.draining hs)).dispatch hs hfiber hresumption

/-! ### Awaits -/

theorem foreignNull_eq (hlast : w.lastError = w'.lastError) : foreignNull w = foreignNull w' := by
  rw [foreignNull, foreignNull, World.lastErrorDatum, World.lastErrorDatum, hlast]

theorem failAwait (h : m.Alike B D κ m') {plan : AwaitPlan} (hplan : B.All plan.names)
    (failure : Failure) : (m.failAwait plan failure).Alike B D κ (m'.failAwait plan failure) := by
  obtain ⟨kind, expects, onError, keepIn⟩ := plan
  have hcalm : (match onError with
      | .raise => m.withControl (.raise failure)
      | .catches => (m.emit "caught" failure.datum).advance
      | .explain context => m.withControl (.raise (failure.explain context))).Alike B D κ
        (match onError with
        | .raise => m'.withControl (.raise failure)
        | .catches => (m'.emit "caught" failure.datum).advance
        | .explain context => m'.withControl (.raise (failure.explain context))) := by
    cases onError with
    | raise => exact h.withControl (.raise _)
    | catches => exact (h.emit ..).advance
    | explain context => exact h.withControl (.raise _)
  cases kind with
  | foreign =>
    have hnames : B.All [.failing, .lastError] := Bond.All.left hplan
    exact ((h.withWorld (h.world.foreignFailed hnames.head "await" failure)).emit ..).advance
  | plain | sleep | call | blocking | all => cases onError <;> exact hcalm

theorem yieldPointer (h : m.Alike B D κ m') (hlast : B.mine .lastError) (value : Nat) :
    (m.yieldPointer value).Alike B D κ (m'.yieldPointer value) := by
  have hreturned := h.world.foreignReturned "await"
  have hsame := foreignNull_eq (hreturned.like.lastError hlast)
  rw [Machine.yieldPointer, Machine.yieldPointer, hsame]
  exact ((h.withWorld hreturned).emit ..).advance

theorem yieldAwait (h : m.Alike B D κ m') {plan : AwaitPlan} (hplan : B.All plan.names)
    {payload payload' : Payload} (hpayload : payload.Twin κ payload') :
    (m.yieldAwait plan payload).Alike B D κ (m'.yieldAwait plan payload') := by
  have hkeep : B.All (Resource.slots plan.keepIn) := Bond.All.right hplan
  cases hpayload with
  | handle hx =>
    rw [Machine.yieldAwait, Machine.yieldAwait, h.world.describe_eq hx]
    exact ((h.withWorld (h.world.storeOrRelease hkeep hx)).emit ..).advance
  | scalar value =>
    obtain ⟨kind, expects, onError, keepIn⟩ := plan
    cases kind with
    | foreign =>
      have hnames : B.All [.failing, .lastError] := Bond.All.left hplan
      cases value with
      | pointer value => exact h.yieldPointer hnames.tail.head value
      | _ => exact (h.emit ..).advance
    | plain | sleep | call | blocking | all => exact (h.emit ..).advance

theorem concludeAwait (h : m.Alike B D κ m') {plan : AwaitPlan} (hplan : B.All plan.names)
    (x x' : HandleRef) {resumption resumption' : Resumption}
    (hresumption : resumption.Twin κ resumption') :
    (m.concludeAwait x plan resumption).Alike B D κ (m'.concludeAwait x' plan resumption') := by
  have hworld : (m.world.mark (.awaited x resumption)).Twin B D κ
      (m'.world.mark (.awaited x' resumption')) := h.world.mark rfl rfl
  have hmarked := h.withWorld hworld
  cases hresumption with
  | error failure => exact hmarked.failAwait hplan failure
  | value hpayload =>
    simp only [Machine.concludeAwait, hpayload.type_eq]
    split
    next => exact hmarked.yieldAwait hplan hpayload
    next => exact (hmarked.withWorld (hmarked.world.release hpayload.debris)).failAwait hplan _

theorem suspendAwait (h : m.Alike B D κ m') {plan : AwaitPlan} (hplan : B.All plan.names)
    (hx : κ.Linked x x') : (m.suspendAwait x plan).Alike B D κ (m'.suspendAwait x' plan) :=
  (h.push (.awaiting hx hplan)).suspend hx

end Alike

/-- An await makes its handle in both runs. -/
theorem openAwait_twin (h : w.Twin B D κ w') (current : FiberId) (plan : AwaitPlan) (clones : Nat) :
    ∃ κ', κ.Grows κ' ∧ κ'.Linked (openAwait w current plan clones).1
      (openAwait w' current plan clones).1 ∧
      (openAwait w current plan clones).2.Twin B D κ' (openAwait w' current plan clones).2 := by
  obtain ⟨hlinked, hworld⟩ := h.makeHandle current clones
  exact ⟨_, κ.grows_link _, hlinked, hworld.mark rfl rfl⟩

namespace Alike

theorem await (h : m.Alike B D κ m') {plan : AwaitPlan} (hplan : B.All plan.names)
    {slot : Option String} (hslot : B.All (Resource.slots slot)) {register register' : List Action}
    (hregister : Code.Twin B register register') :
    (m.await plan slot register).Grown B D κ (m'.await plan slot register') := by
  rw [Machine.await, Machine.await, ← h.world.like.current]
  split
  next => exact (h.failAwait hplan _).grown
  next current hcurrent =>
    obtain ⟨κ', hgrows, hlinked, hworld⟩ := openAwait_twin h.world current plan 2
    generalize openAwait m.world current plan 2 = opened at hlinked hworld
    generalize openAwait m'.world current plan 2 = opened' at hlinked hworld
    obtain ⟨x, w⟩ := opened
    obtain ⟨x', w'⟩ := opened'
    dsimp only at hlinked hworld ⊢
    rw [← hworld.describe_eq hlinked]
    have hstored := (hworld.emit "register" (.text (w.describe x))).storeOrRelease hslot hlinked
    exact ⟨κ', hgrows,
      (((h.grow hgrows hstored).push (.registering hlinked hplan)).push
        (.actions hregister)).advance⟩

theorem foreignAwait (h : m.Alike B D κ m') {slot : String} (hslot : B.mine (.slot slot))
    (hfailing : B.mine .failing) (hlast : B.mine .lastError) {register register' : List Action}
    (hregister : Code.Twin B register register') :
    (m.foreignAwait slot register).Grown B D κ (m'.foreignAwait slot register') := by
  have hplan : B.All AwaitPlan.foreign.names := .cons hfailing (.cons hlast Bond.all_nil)
  rw [Machine.foreignAwait, Machine.foreignAwait, ← h.world.like.current]
  split
  next => exact (h.failAwait hplan _).grown
  next current hcurrent =>
    obtain ⟨κ', hgrows, hlinked, hworld⟩ :=
      openAwait_twin h.world current .foreign (m.world.hoarded + 2)
    rw [← h.world.like.hoarded]
    generalize openAwait m.world current .foreign (m.world.hoarded + 2) = opened at hlinked hworld
    generalize openAwait m'.world current .foreign (m.world.hoarded + 2) = opened' at hlinked hworld
    obtain ⟨x, w⟩ := opened
    obtain ⟨x', w'⟩ := opened'
    have hentrusted := hworld.entrust hslot hlinked
    exact ⟨κ', hgrows,
      (((h.grow hgrows hentrusted).push (.registering hlinked hplan)).push
        (.actions hregister)).advance⟩

theorem registered (h : m.Alike B D κ m') {plan : AwaitPlan} (hplan : B.All plan.names)
    (hx : κ.Linked x x') :
    Option.Rel (Alike B D κ) (m.registered x plan) (m'.registered x' plan) := by
  have hcontrol := h.control
  rw [Machine.registered, Machine.registered]
  generalize m.control = control at hcontrol
  generalize m'.control = control' at hcontrol
  cases hcontrol with
  | advance => exact .some (h.suspendAwait hplan hx)
  | raise failure => exact .some ((h.emit ..).suspendAwait hplan hx)
  | panicking panic => exact .some (h.withWorld (h.world.release_handle hx))
  | _ => exact .none

theorem current_isSome (h : m.Alike B D κ m') :
    m.world.current.isSome = m'.world.current.isSome := by
  have hsame := congrArg Option.isSome h.world.like.current
  rwa [World.currentId, World.currentId, Option.isSome_map, Option.isSome_map] at hsame

theorem suspendOn (h : m.Alike B D κ m') (hx : κ.Linked x x') (raises : Bool) :
    (m.suspendOn x raises).Alike B D κ (m'.suspendOn x' raises) := by
  rw [Machine.suspendOn, Machine.suspendOn, h.current_isSome]
  split
  next => exact (h.push (.suspending raises)).suspend hx
  next => exact ((h.withWorld (h.world.release_handle hx)).emit ..).advance

theorem concludeSuspend (h : m.Alike B D κ m') (raises : Bool) {resumption resumption' : Resumption}
    (hresumption : resumption.Twin κ resumption') :
    (m.concludeSuspend raises resumption).Alike B D κ
    (m'.concludeSuspend raises resumption') := by
  have hemitted := h.emit "resumed" (.text resumption.describe)
  cases hresumption with
  | value hpayload => exact (hemitted.withWorld (hemitted.world.release hpayload.debris)).advance
  | error failure =>
    cases raises with
    | true => exact hemitted.withControl (.raise failure)
    | false => exact hemitted.withControl .advance

/-! ### Coroutines -/

theorem newCoroutine (h : m.Alike B D κ m') {name : String} (hname : B.mine (.coroutine name))
    (id : FiberId) (stackSize : Nat) {body body' : List Action} (hbody : Code.Twin B body body') :
    (m.newCoroutine name id stackSize body).Alike B D κ
    (m'.newCoroutine name id stackSize body') := by
  have hsize : (Stack.make m.world.mapping pageSize m.world.stacksMapped .direct stackSize).map
      Stack.size =
      (Stack.make m'.world.mapping pageSize m'.world.stacksMapped .direct stackSize).map
      Stack.size := by
    rw [World.size_make, World.size_make, World.mapping, World.mapping,
      h.world.like.mapping _ m'.world.history.size]
  have hsupplied := World.Twin.Supplied.of_sizes hsize
  rw [Machine.newCoroutine, Machine.newCoroutine]
  generalize Stack.make m.world.mapping pageSize m.world.stacksMapped .direct stackSize =
    made at hsupplied
  generalize Stack.make m'.world.mapping pageSize m'.world.stacksMapped .direct stackSize =
    made' at hsupplied
  cases hsupplied with
  | error fault => exact h.emit ..
  | @ok stack stack' hsame =>
    have hfiber : Fiber.Twin B κ ⟨m.world.fibersMade, id, none, stack, .unstarted body⟩
        ⟨m'.world.fibersMade, id, none, stack', .unstarted body'⟩ :=
      ⟨rfl, rfl, hsame, false, rfl, .unstarted hbody⟩
    have hmade := (h.world.remap (m.world.stacksMapped + 1) (m'.world.stacksMapped + 1)).renumber
      (m.world.fibersMade + 1) (m'.world.fibersMade + 1)
    have hshown :=
      hmade.emit "co_new"
        (.text (Fiber.describe ⟨m.world.fibersMade, id, none, stack, .unstarted body⟩))
    have hbound := hshown.bind hname hfiber
    rw [hfiber.describe_eq] at hbound
    exact h.withWorld hbound

theorem lose (h : m.Alike B D κ m') (name : String) {taken taken' : List Debris}
    (htaken : Forall₂ (Debris.Twin κ) taken taken') :
    (m.lose name taken).Alike B D κ (m'.lose name taken') :=
  (h.lacking name).withWorld ((h.lacking name).world.release htaken)

theorem withResumption (h : m.Alike B D κ m') (name : String) {delivery : Delivery}
    (hdelivery : B.All delivery.names) {taken taken' : List Debris}
    (htaken : Forall₂ (Debris.Twin κ) taken taken') {use use' : Machine → Resumption → Machine}
    (huse : ∀ {n n' : Machine} {resumption resumption' : Resumption}, n.Alike B D κ n' →
      resumption.Twin κ resumption' → (use n resumption).Grown B D κ (use' n' resumption')) :
    (m.withResumption name delivery taken use).Grown B D κ
    (m'.withResumption name delivery taken' use') := by
  have hfound := h.world.resumption? hdelivery
  rw [Machine.withResumption, Machine.withResumption]
  generalize m.world.resumption? delivery = found at hfound
  generalize m'.world.resumption? delivery = found' at hfound
  cases hfound with
  | none => exact (h.lose name htaken).grown
  | some htwin => exact huse (h.withWorld htwin.2) htwin.1

theorem withEnding (h : m.Alike B D κ m') (name : String) {outcome : CallOutcome}
    (houtcome : B.All outcome.names) {use use' : Machine → Ending → Machine}
    (huse : ∀ {n n' : Machine} {ending ending' : Ending}, n.Alike B D κ n' → ending.Twin κ ending' →
      (use n ending).Grown B D κ (use' n' ending')) :
    (m.withEnding name outcome use).Grown B D κ (m'.withEnding name outcome use') := by
  cases outcome with
  | done delivery =>
    exact h.withResumption name houtcome .nil fun hn hresumption => huse hn (.done hresumption)
  | panicked => exact huse h .panicked

theorem transfer (h : m.Alike B D κ m') {name : String} (hname : B.mine (.coroutine name))
    {delivery : Delivery} (hdelivery : B.All delivery.names) {slot : Option String}
    (hslot : B.All (Resource.slots slot)) :
    (m.transfer name delivery slot).Grown B D κ (m'.transfer name delivery slot) := by
  have hfound := h.world.takeCoroutine? hname
  rw [Machine.transfer, Machine.transfer]
  generalize m.world.takeCoroutine? name = found at hfound
  generalize m'.world.takeCoroutine? name = found' at hfound
  cases hfound with
  | none => exact (h.lacking _).grown
  | some htwin =>
    refine (h.withWorld htwin.2).withResumption _ hdelivery htwin.1.debris fun hn hresumption => ?_
    exact ((hn.push (.transferring hname hslot)).enter htwin.1 hresumption).grown

/-- A fiber comes back to whoever transferred into it by hand; no task does. -/
theorem transferred (h : m.Alike B D κ m') {name : String} (hname : B.mine (.coroutine name))
    {slot : Option String} (hslot : B.All (Resource.slots slot)) {fiber fiber' : Fiber}
    (hfiber : fiber.Twin B κ fiber') (hhand : fiber.home = none) {exit exit' : Exit}
    (hexit : Exit.Twin B κ fiber.home fiber.id exit exit') :
    (m.transferred name slot fiber exit).Alike B D κ (m'.transferred name slot fiber' exit') := by
  have hbound := h.withWorld (h.world.bind hname hfiber)
  cases hexit with
  | @suspended x x' hx =>
    rw [Machine.transferred, Machine.transferred]
    dsimp only
    rw [← hbound.world.describe_eq hx]
    have hshown :=
      hbound.emit "co_transfer"
        (.list [.text "suspended",
        .text ((m.withWorld (m.world.bind name fiber)).world.describe x)])
    exact (hshown.withWorld (hshown.world.storeOrRelease hslot hx)).advance
  | completed | failed | panicked => exact (hbound.emit ..).advance
  | insideFaulty hfault htold =>
    rw [hhand] at htold
    cases htold

theorem coroutineInfo (h : m.Alike B D κ m') {name : String} (hname : B.mine (.coroutine name)) :
    (m.coroutineInfo name).Alike B D κ (m'.coroutineInfo name) := by
  have hfound := h.world.like.coroutines hname
  rw [Machine.coroutineInfo, Machine.coroutineInfo]
  generalize m.world.coroutines.get? name = found at hfound
  generalize m'.world.coroutines.get? name = found' at hfound
  cases hfound with
  | none => exact h.lacking _
  | some hfiber =>
    dsimp only
    rw [hfiber.id, hfiber.isFinished_eq, hfiber.describe_eq]
    exact h.emit ..

theorem takeStack (h : m.Alike B D κ m') {name : String} (hname : B.mine (.coroutine name)) :
    (m.takeStack name).Alike B D κ (m'.takeStack name) := by
  have hfound := h.world.takeCoroutine? hname
  rw [Machine.takeStack, Machine.takeStack]
  generalize m.world.takeCoroutine? name = found at hfound
  generalize m'.world.takeCoroutine? name = found' at hfound
  cases hfound with
  | none => exact h.lacking _
  | @some taken taken' htwin =>
    obtain ⟨⟨serial, id, home, stack, state⟩, w⟩ := taken
    obtain ⟨⟨serial', id', home', stack', state'⟩, w'⟩ := taken'
    obtain ⟨hfiber, hworld⟩ := htwin
    have hdebris := hfiber.debris
    obtain ⟨-, -, hsize, insideFaulty, -, hstate⟩ := hfiber
    cases hstate with
    | unstarted => exact (h.withWorld hworld).withControl (.panicking _)
    | suspended => exact (h.withWorld (hworld.release hdebris)).emit ..
    | finished =>
      have hshown := (h.withWorld hworld).emit "co_stack" (.nat stack.size)
      dsimp only at hsize ⊢
      rw [← hsize]
      exact hshown

theorem dropCoroutine (h : m.Alike B D κ m') {name : String} (hname : B.mine (.coroutine name)) :
    (m.dropCoroutine name).Alike B D κ (m'.dropCoroutine name) := by
  have hfound := h.world.takeCoroutine? hname
  rw [Machine.dropCoroutine, Machine.dropCoroutine]
  generalize m.world.takeCoroutine? name = found at hfound
  generalize m'.world.takeCoroutine? name = found' at hfound
  cases hfound with
  | none => exact h.lacking _
  | some htwin => exact (h.withWorld (htwin.2.release htwin.1.debris)).emit ..

theorem handOut (h : m.Alike B D κ m') (action : String) {name : String}
    (hname : B.mine (.coroutine name)) {fiber fiber' : Fiber} (hfiber : fiber.Twin B κ fiber')
    {resumption resumption' : Resumption} (hresumption : resumption.Twin κ resumption') :
    (m.handOut action name fiber resumption).Alike B D κ
    (m'.handOut action name fiber' resumption') := by
  have hshown := h.emit action (.list [.text fiber.describe, .text resumption.describe])
  rw [Machine.handOut, Machine.handOut, ← hfiber.describe_eq, ← hresumption.describe_eq]
  exact hshown.withWorld ((hshown.world.bind hname hfiber).release hresumption.debris)

theorem park (h : m.Alike B D κ m') {slot : String} (hslot : B.mine (.slot slot)) (keep : Bool)
    {name : String} (hname : B.mine (.coroutine name)) (owner : Nat) :
    (m.park slot keep name owner).Alike B D κ
    (m'.park slot keep name owner) := by
  have hfound := h.world.takeCoroutine? hname
  rw [Machine.park, Machine.park]
  generalize m.world.takeCoroutine? name = found at hfound
  generalize m'.world.takeCoroutine? name = found' at hfound
  cases hfound with
  | none => exact h.lacking _
  | some htwin =>
    have htaken := htwin.2.takeHandle? hslot keep
    dsimp only
    generalize World.takeHandle? _ slot keep = taken at htaken
    generalize World.takeHandle? _ slot keep = taken' at htaken
    cases htaken with
    | none => exact (h.withWorld htwin.2).lose _ htwin.1.debris
    | some hhandle =>
      obtain ⟨hmet, hworld⟩ := hhandle.2.park hhandle.1 htwin.1 (.caller owner)
      dsimp only
      generalize World.park _ _ _ _ = parked at hmet hworld
      generalize World.park _ _ _ _ = parked' at hmet hworld
      obtain ⟨met, u⟩ := parked
      obtain ⟨met', u'⟩ := parked'
      cases hmet with
      | nothing => exact (h.withWorld hworld).emit ..
      | met hfiber hresumption => exact (h.withWorld hworld).handOut _ hname hfiber hresumption

theorem wake (h : m.Alike B D κ m') {slot : String} (hslot : B.mine (.slot slot)) (keep : Bool)
    {name : String} (hname : B.mine (.coroutine name)) (owner : Nat) {delivery : Delivery}
    (hdelivery : B.All delivery.names) :
    (m.wake slot keep name owner delivery).Grown B D κ (m'.wake slot keep name owner delivery) := by
  have htaken := h.world.takeHandle? hslot keep
  rw [Machine.wake, Machine.wake]
  generalize m.world.takeHandle? slot keep = taken at htaken
  generalize m'.world.takeHandle? slot keep = taken' at htaken
  cases htaken with
  | none => exact (h.lacking _).grown
  | some hhandle =>
    refine (h.withWorld hhandle.2).withResumption _ hdelivery (.cons (.handle hhandle.1) .nil)
      fun hn hresumption => ?_
    obtain ⟨hwoken, hworld⟩ := hn.world.wake hhandle.1 hresumption (.caller owner)
    generalize World.wake _ _ _ _ = woken at hwoken hworld
    generalize World.wake _ _ _ _ = woken' at hwoken hworld
    obtain ⟨result, u⟩ := woken
    obtain ⟨result', u'⟩ := woken'
    cases hwoken with
    | refused fault => exact ((hn.withWorld hworld).emit ..).grown
    | accepted hmet =>
      cases hmet with
      | nothing => exact ((hn.withWorld hworld).emit ..).grown
      | met hfiber hresumption =>
        exact ((hn.withWorld hworld).handOut _ hname hfiber hresumption).grown

/-! ### The foreign side -/

theorem foreignOk (h : m.Alike B D κ m') (name : String) (code : Nat) :
    (m.foreignOk name code).Alike B D κ (m'.foreignOk name code) :=
  (h.withWorld (h.world.foreignReturned name)).emit ..

theorem foreignFailed (h : m.Alike B D κ m') (hfailing : B.mine .failing) (name : String)
    (failure : Failure) :
    (m.foreignFailed name failure).Alike B D κ (m'.foreignFailed name failure) :=
  (h.withWorld (h.world.foreignFailed hfailing name failure)).emit ..

theorem foreignAnswer (h : m.Alike B D κ m') (hfailing : B.mine .failing) (name : String)
    (result : Except SchedulerFault Nat) :
    (m.foreignAnswer name result).Alike B D κ (m'.foreignAnswer name result) := by
  cases result with
  | ok code => exact h.foreignOk name code
  | error fault => exact h.foreignFailed hfailing name _

theorem foreignHandle? (h : w.Twin B D κ w') {slot : Option String}
    (hslot : B.All (Resource.slots slot)) (keep : Bool) :
    Option.Rel (World.Twin.Taken Ties.Linked B D κ) (Machine.foreignHandle? w slot keep)
      (Machine.foreignHandle? w' slot keep) := by
  cases slot with
  | none => exact .none
  | some name => exact h.takeHandle? hslot.head keep

theorem foreignResume (h : m.Alike B D κ m') (hfailing : B.mine .failing) (name : String)
    (hs : B.own s) {slot : Option String} (hslot : B.All (Resource.slots slot)) (keep : Bool)
    {resumption resumption' : Resumption} (hresumption : resumption.Twin κ resumption') :
    (m.foreignResume name s slot keep resumption).Alike B D κ
    (m'.foreignResume name s slot keep resumption') := by
  have htaken := foreignHandle? h.world hslot keep
  rw [Machine.foreignResume, Machine.foreignResume]
  generalize Machine.foreignHandle? m.world slot keep = taken at htaken
  generalize Machine.foreignHandle? m'.world slot keep = taken' at htaken
  cases htaken with
  | none => exact h.foreignFailed hfailing name _
  | some hhandle =>
    have hreply : B.All (Reply.foreignResume name).names := .cons hfailing Bond.all_nil
    exact ((h.withWorld (hhandle.2.own hs)).push (.answering hs hreply)).deliver hs
      hhandle.1 hresumption

theorem directResume (h : m.Alike B D κ m') (hs : B.own s) {slot : Option String}
    (hslot : B.All (Resource.slots slot)) (keep : Bool) {resumption resumption' : Resumption}
    (hresumption : resumption.Twin κ resumption') :
    (m.directResume s slot keep resumption).Alike B D κ
    (m'.directResume s slot keep resumption') := by
  have htaken := foreignHandle? h.world hslot keep
  rw [Machine.directResume, Machine.directResume]
  generalize Machine.foreignHandle? m.world slot keep = taken at htaken
  generalize Machine.foreignHandle? m'.world slot keep = taken' at htaken
  cases htaken with
  | none =>
    exact (h.emit ..).withWorld
      ((h.emit "rust_resume" (.text "empty")).world.release hresumption.debris)
  | some hhandle =>
    have hreply : B.All Reply.directResume.names := Bond.all_nil
    exact ((h.withWorld (hhandle.2.own hs)).push (.answering hs hreply)).deliver hs
      hhandle.1 hresumption

theorem handleText (h : m.Alike B D κ m') {slot : String} (hslot : B.mine (.slot slot)) :
    (m.handleText slot).Alike B D κ (m'.handleText slot) := by
  have hfound := h.world.like.slots hslot
  have hsame : (m.world.slots.get? slot).elim "empty" m.world.describe =
      (m'.world.slots.get? slot).elim "empty" m'.world.describe := by
    generalize m.world.slots.get? slot = found at hfound
    generalize m'.world.slots.get? slot = found' at hfound
    cases hfound with
    | none => rfl
    | some hx => exact h.world.describe_eq hx
  rw [Machine.handleText, Machine.handleText, hsame]
  exact h.emit ..

theorem destroyHandle (h : m.Alike B D κ m') {slot : Option String}
    (hslot : B.All (Resource.slots slot)) (keep : Bool) :
    (m.destroyHandle slot keep).Alike B D κ (m'.destroyHandle slot keep) := by
  have htaken := foreignHandle? h.world hslot keep
  rw [Machine.destroyHandle, Machine.destroyHandle]
  generalize Machine.foreignHandle? m.world slot keep = taken at htaken
  generalize Machine.foreignHandle? m'.world slot keep = taken' at htaken
  cases htaken with
  | none => exact (h.withWorld h.world).emit ..
  | @some taken taken' hhandle =>
    obtain ⟨x, w⟩ := taken
    obtain ⟨x', w'⟩ := taken'
    have htold := hhandle.2.tell (.destroyed (w.handleId x))
    dsimp only
    rw [← hhandle.2.handleId_eq hhandle.1]
    exact (h.withWorld (htold.release_handle hhandle.1)).emit ..

end Alike

end Machine

end Fibers
