import Fibers.Proofs.Moves

/-!
Every action does one of the things that an action can do. Names that stand for
nothing, refusals and reports are idle; what takes handles and payloads out of
their places first passes them on to what it does with them.
-/

namespace Fibers

open Asset (cloneOf looseOf shareOf postOf taskOf fiberOf)

namespace World

/-- Handles come out of their slots and leave everything else alone. -/
theorem takeHandle_elsewhere {w w' : World} {name : String} {keep : Bool} {x : HandleRef}
    (h : w.takeHandle? name keep = some (x, w')) :
    w'.positions = w.positions ∧ w'.drivers = w.drivers ∧ w'.current = w.current ∧
      w'.agenda = w.agenda := by
  rw [takeHandle?, Option.map_eq_some_iff] at h
  obtain ⟨handle, -, h⟩ := h
  split at h <;> cases h <;> exact ⟨rfl, rfl, rfl, rfl⟩

theorem slot_of_takeHandle {w w' : World} {name : String} {keep : Bool} {x : HandleRef}
    (h : w.takeHandle? name keep = some (x, w')) : w.slots.get? name = some x := by
  rw [takeHandle?, Option.map_eq_some_iff] at h
  obtain ⟨handle, hslot, h⟩ := h
  rw [hslot]
  split at h <;> cases h <;> rfl

theorem coroutine_of_take {w w' : World} {name : String} {fiber : Fiber}
    (h : w.takeCoroutine? name = some (fiber, w')) : w.coroutines.get? name = some fiber := by
  rw [takeCoroutine?, Option.map_eq_some_iff] at h
  obtain ⟨found, hfound, h⟩ := h
  cases h
  exact hfound

theorem resumption_elsewhere {w w' : World} {delivery : Delivery} {resumption : Resumption}
    (h : w.resumption? delivery = some (resumption, w')) :
    w'.positions = w.positions ∧ w'.drivers = w.drivers ∧ w'.current = w.current ∧
      w'.agenda = w.agenda := by
  cases delivery with
  | error failure => cases h; exact ⟨rfl, rfl, rfl, rfl⟩
  | value source =>
    rw [resumption?, Option.map_eq_some_iff] at h
    obtain ⟨⟨payload, w₁⟩, hpayload, h⟩ := h
    cases h
    cases source with
    | scalar value => cases hpayload; exact ⟨rfl, rfl, rfl, rfl⟩
    | slot name keep =>
      rw [payload?, Option.map_eq_some_iff] at hpayload
      obtain ⟨⟨handle, w₂⟩, htake, hpayload⟩ := hpayload
      cases hpayload
      exact takeHandle_elsewhere htake

end World

namespace Machine

variable {allowed : Action → Prop} {m : Machine}

/-! ### Idle actions -/

section Idle

variable (hcontrol : m.control = .advance)

include hcontrol

theorem Does.write {w : World} (h : m.world.Shift [] w []) : Does allowed m (m.withWorld w) := by
  have hidle : Does allowed m (m.goTo ([] ++ m.top) w .advance) :=
    .idle [] w .advance (by simp) trivial h (by simp)
  rwa [List.nil_append, ← hcontrol, ← withWorld_eq] at hidle

theorem Does.stay : Does allowed m m := by
  have : Does allowed m (m.withWorld m.world) := .write hcontrol (.refl m.world [])
  rwa [withWorld_eq, goTo_self] at this

theorem Does.emit (name : String) (payload : Datum) : Does allowed m (m.emit name payload) :=
  .write hcontrol (m.world.shift_emit name payload [])

theorem Does.withScheduler {name : String} {position : Nat} {use : SchedulerId → Machine}
    (h : ∀ s, m.world.schedulerAt position = some s → Does allowed m (use s)) :
    Does allowed m (m.withScheduler name position use) := by
  rw [Machine.withScheduler]
  split
  next => exact .emit hcontrol _ _
  next s hs => exact h s hs

theorem Does.withDriver {name : String} {position : Nat} {use : DriverId → Machine}
    (horderly : m.world.Orderly)
    (h : ∀ d, m.world.driverAt position = some d → (m.world.driver? d).isSome →
      Does allowed m (use d)) :
    Does allowed m (m.withDriver name position use) := by
  rw [Machine.withDriver]
  split
  next => exact .emit hcontrol _ _
  next d hd => exact h d hd (horderly.driven position d hd)

/-- What was taken before a source turns out to be empty is released. -/
theorem Does.withResumption {name : String} {delivery : Delivery} {w : World} {out : List Asset}
    {taken : List Debris} {use : Machine → Resumption → Machine} (htaken : m.world.Shift [] w out)
    (hout : ∀ f, Asset.Bare f → weigh f out = weigh f (loosen taken))
    (h : ∀ resumption w', w.resumption? delivery = some (resumption, w') →
      m.world.Shift [] w' (resumption.assets ++ out) →
      Does allowed m (use (m.withWorld w') resumption)) :
    Does allowed m ((m.withWorld w).withResumption name delivery taken use) := by
  rw [Machine.withResumption]
  split
  next =>
    refine Does.write hcontrol
      ((htaken.trans (World.shift_emit w name (.text "none") out)).trans ?_)
    exact World.shift_release_of _ (fun f hf => by rw [hout f hf]; rfl) fun _ => Nat.zero_le _
  next resumption w' hsome =>
    exact h resumption w' hsome (htaken.trans ((World.shift_resumption hsome).beside out))

theorem Does.withEnding {name : String} {outcome : CallOutcome} {use : Machine → Ending → Machine}
    (h : ∀ ending w, m.world.Shift [] w ending.assets → w.drivers = m.world.drivers →
      Does allowed m (use (m.withWorld w) ending)) :
    Does allowed m (m.withEnding name outcome use) := by
  cases outcome with
  | panicked => exact h .panicked m.world (.refl m.world []) rfl
  | done delivery =>
    have hdone : Does allowed m ((m.withWorld m.world).withResumption name delivery []
        fun m resumption => use m (.done resumption)) := by
      refine .withResumption hcontrol (.refl m.world []) (fun _ _ => rfl)
        fun resumption w hresumption hshift => ?_
      rw [List.append_nil] at hshift
      exact h (.done resumption) w hshift (World.resumption_elsewhere hresumption).2.1
    exact hdone

end Idle

/-- Code that is pushed owns nothing. -/
theorem Does.push (hcontrol : m.control = .advance) {w : World} (h : m.world.Shift [] w [])
    {frame : Frame} (hframe : frame.IsCode) (hassets : frame.assets = [])
    (hguards : frame.guards = []) :
    Does allowed m ((m.withWorld w).push frame) := by
  rw [withWorld_eq, hcontrol, goTo_push]
  exact .idle [frame] w .advance (by simpa using hframe) trivial (by simpa [hassets] using h)
    (by simpa using hguards)

/-- An await that comes back with an error. -/
theorem failAwait_eq (m : Machine) (plan : AwaitPlan) (failure : Failure) :
    ∃ w control, m.failAwait plan failure = m.goTo m.top w control ∧ control.IsCode ∧
      ∀ out, m.world.Shift out w out := by
  unfold failAwait
  split
  next =>
    exact ⟨_, .advance, by simp only [withWorld_eq, goTo_emit, goTo_advance], trivial, fun out =>
      (World.shift_foreignFailed _ "await" failure out).trans
        (World.shift_emit _ "got" (foreignNull (m.world.foreignFailed "await" failure)) out)⟩
  next => exact ⟨_, _, withControl_eq .., trivial, fun out => .refl _ out⟩
  next =>
    exact ⟨_, .advance, by simp only [Machine.emit, withWorld_eq, goTo_advance], trivial, fun out =>
      World.shift_emit _ "caught" failure.datum out⟩
  next => exact ⟨_, _, withControl_eq .., trivial, fun out => .refl _ out⟩

theorem Does.failAwait (plan : AwaitPlan) (failure : Failure) :
    Does allowed m (m.failAwait plan failure) := by
  obtain ⟨w, control, heq, hcode, hshift⟩ := m.failAwait_eq plan failure
  have hidle : Does allowed m (m.goTo ([] ++ m.top) w control) :=
    .idle [] w control (by simp) hcode (hshift []) (by simp)
  rwa [List.nil_append, ← heq] at hidle

theorem shift_foreignHandle {w w' : World} {slot : Option String} {keep : Bool} {x : HandleRef}
    (h : foreignHandle? w slot keep = some (x, w')) :
    w.Shift [] w' [.loose (.handle x)] ∧ w'.positions = w.positions := by
  rw [foreignHandle?, Option.bind_eq_some_iff] at h
  obtain ⟨name, -, h⟩ := h
  exact ⟨World.shift_takeHandle h, (World.takeHandle_elsewhere h).1⟩

/-! ### What is not idle -/

section Busy

variable (hcontrol : m.control = .advance)

include hcontrol

theorem does_enqueue {position : Nat} {body : List Action}
    (hallowed : allowed (.enqueue position body) ∨
      ∃ task, m.taskBody task = body ∧ allowed (.enqueueNamed position task)) :
    Does allowed m (m.enqueue position body) := by
  refine .withScheduler hcontrol fun s hs => ?_
  simp only [withWorld_eq, hcontrol, goTo_emit]
  exact .enqueues hallowed hs _

theorem does_runLoop (position : Nat) (max : Option Nat) (reply : Reply) :
    Does allowed m (m.runLoop position max reply) := by
  refine .withScheduler hcontrol fun s hs => ?_
  rw [withWorld_eq, hcontrol, goTo_push]
  exact .asks max reply (m.world.shift_own hs)

/-- A handle and a resumption that were taken go to a scheduler. -/
theorem Does.deliver {position : Nat} {s : SchedulerId} {w : World} {x : HandleRef}
    {resumption : Resumption} (reply : Reply) (hs : m.world.schedulerAt position = some s)
    (hpositions : w.positions = m.world.positions)
    (h : m.world.Shift [] w (resumption.assets ++ [.loose (.handle x)])) :
    Does allowed m
      (((m.withWorld (w.own s)).push (.answering s reply)).deliver s x resumption) := by
  rw [withWorld_eq, hcontrol, goTo_push]
  have hown : w.Shift [] (w.own s) [.share s] :=
    w.shift_own (by rw [← hs, World.schedulerAt, World.schedulerAt, hpositions])
  refine .delivers reply ((h.trans (hown.gain _)).trans (.recount _ fun f _ => ?_))
  simp only [List.cons_append, List.nil_append, weigh_cons, weigh_append, weigh_nil]
  omega

theorem does_resume (position : Nat) (slot : String) (keep : Bool) (delivery : Delivery)
    (raises : Bool) : Does allowed m (m.resume position slot keep delivery raises) := by
  refine .withScheduler hcontrol fun s hs => ?_
  split
  next => exact .emit hcontrol _ _
  next x w htake =>
    refine .withResumption hcontrol (World.shift_takeHandle htake) (fun f _ => rfl)
      fun resumption w' hresumption hshift => ?_
    simp only [withWorld_withWorld, withWorld_world]
    exact .deliver hcontrol (.resume raises) hs
      ((World.resumption_elsewhere hresumption).1.trans (World.takeHandle_elsewhere htake).1) hshift

theorem does_await (plan : AwaitPlan) (slot : Option String) (register : List Action)
    (hplan : plan.kind.isHosted = false) : Does allowed m (m.await plan slot register) := by
  rw [await]
  split
  next => exact .failAwait plan _
  next current hcurrent =>
    simp only [withWorld_eq, hcontrol, goTo_push, goTo_advance]
    refine .awaits 1 register hplan hcurrent ?_
    exact (World.shift_emit _ "register" _ _).trans (World.shift_storeOrRelease _ slot _)

theorem does_foreignAwait (slot : String) (register : List Action) :
    Does allowed m (m.foreignAwait slot register) := by
  rw [foreignAwait]
  split
  next => exact .failAwait .foreign _
  next current hcurrent =>
    simp only [withWorld_eq, hcontrol, goTo_push, goTo_advance]
    exact .awaits (m.world.hoarded + 1) register rfl hcurrent (World.shift_entrust _ slot _)

/-! ### Foreign calls -/

theorem does_foreignFailed (name : String) (failure : Failure) :
    Does allowed m (m.foreignFailed name failure) := by
  rw [Machine.foreignFailed]
  exact .write hcontrol
    ((World.shift_foreignFailed _ name failure []).trans (World.shift_emit _ name _ []))

theorem does_foreignResume {position : Nat} {s : SchedulerId} (name : String) (slot : Option String)
    (keep : Bool) (resumption : Resumption) (hs : m.world.schedulerAt position = some s)
    (hassets : resumption.assets = []) :
    Does allowed m (m.foreignResume name s slot keep resumption) := by
  rw [Machine.foreignResume]
  split
  next => exact does_foreignFailed hcontrol name _
  next x w hhandle =>
    obtain ⟨hshift, hpositions⟩ := shift_foreignHandle hhandle
    exact .deliver hcontrol (.foreignResume name) hs hpositions (by rw [hassets]; exact hshift)

theorem does_directResume (position : Nat) (slot : Option String) (keep : Bool)
    (delivery : Delivery) : Does allowed m (m.withScheduler "rust_resume" position fun s =>
      m.withResumption "rust_resume" delivery [] fun m resumption =>
        m.directResume s slot keep resumption) := by
  refine .withScheduler hcontrol fun s hs => ?_
  have hnone : Does allowed m ((m.withWorld m.world).withResumption "rust_resume" delivery []
      fun m resumption => m.directResume s slot keep resumption) := by
    refine .withResumption hcontrol (.refl m.world []) (fun f _ => rfl)
      fun resumption w hresumption hshift => ?_
    rw [List.append_nil] at hshift
    rw [Machine.directResume]
    split
    next =>
      refine .write hcontrol
        ((hshift.trans (World.shift_emit _ "rust_resume" (.text "empty") _)).trans ?_)
      exact World.shift_release _ resumption.debris
    next x w' hhandle =>
      obtain ⟨htake, hpositions⟩ := shift_foreignHandle hhandle
      simp only [withWorld_withWorld, withWorld_world] at hpositions htake ⊢
      refine .deliver hcontrol .directResume hs
        (hpositions.trans (World.resumption_elsewhere hresumption).1) ?_
      refine hshift.trans ((htake.gain _).trans (.recount _ fun f _ => ?_))
      simp only [List.cons_append, List.nil_append, weigh_cons, weigh_append, weigh_nil]
      omega
  rwa [withWorld_eq, goTo_self] at hnone

theorem does_destroyHandle (slot : Option String) (keep : Bool) :
    Does allowed m (m.destroyHandle slot keep) := by
  rw [Machine.destroyHandle]
  refine .write hcontrol (World.Shift.trans ?_ (World.shift_emit _ "handle_destroy" .null []))
  split
  next => exact .refl _ _
  next x w hhandle =>
    refine ((shift_foreignHandle hhandle).1.trans (World.shift_tell _ ?_ _)).trans
      (World.shift_release _ [.handle x])
    exact Event.isQuiet_destroyed _

/-! ### Handles and coroutines -/

theorem does_dropScheduler {position : Nat} {s : SchedulerId} (name : String) (payload : Datum)
    (hs : m.world.schedulerAt position = some s) :
    Does allowed m
      ((m.withWorld ((m.world.setScheduler position none).disown s)).emit name payload) :=
  .write hcontrol (((World.shift_abandon _ hs).trans (World.shift_disown _ s)).trans
    (World.shift_emit _ name payload []))

theorem does_cloneHandle (slot other : String) : Does allowed m (m.cloneHandle slot other) := by
  rw [Machine.cloneHandle]
  split
  next => exact .emit hcontrol _ _
  next x w htake =>
    exact .write hcontrol ((World.shift_takeHandle htake).trans (World.shift_store _ other x))

theorem does_dropHandle (slot : String) : Does allowed m (m.dropHandle slot) := by
  rw [Machine.dropHandle]
  split
  next => exact .emit hcontrol _ _
  next x w htake =>
    exact .write hcontrol
      (((World.shift_takeHandle htake).trans (World.shift_release _ [.handle x])).trans
      (World.shift_emit _ "dropped" (.text slot) []))

theorem does_suspendOnSlot {slot : String} {keep raises : Bool}
    (hallowed : allowed (.suspend slot keep raises)) :
    Does allowed m (m.suspendOnSlot slot keep raises) := by
  rw [Machine.suspendOnSlot]
  split
  next => exact .emit hcontrol _ _
  next x w htake =>
    have htaken := World.shift_takeHandle htake
    rw [suspendOn]
    split
    next hcurrent =>
      rw [withWorld_eq, hcontrol, goTo_push]
      refine .suspends hallowed htaken ((World.takeHandle_elsewhere htake).2.2.1 ▸ hcurrent) ?_
      exact World.slot_of_takeHandle htake
    next =>
      simp only [withWorld_world, withWorld_withWorld]
      rw [withWorld_eq, goTo_emit, goTo_advance]
      exact .idle [] _ .advance (by simp) trivial
        ((htaken.trans (World.shift_release _ [.handle x])).trans
        (World.shift_emit _ "resumed" _ [])) (by simp)

theorem does_newHandle {slot : String} {id : FiberId} (hallowed : allowed (.newHandle slot id)) :
    Does allowed m (m.newHandle slot id) := by
  rw [Machine.newHandle]
  simp only [withWorld_eq, hcontrol]
  exact .makes hallowed (World.shift_store _ slot _)

theorem does_newCoroutine (name : String) (id : FiberId) (stackSize : Nat) (body : List Action) :
    Does allowed m (m.newCoroutine name id stackSize body) := by
  rw [Machine.newCoroutine]
  split
  next => exact .emit hcontrol _ _
  next stack hmake =>
    have hstack : stack.label = m.world.stacksMapped ∧ stack.source = .direct := by
      rw [Stack.make] at hmake
      cases hmap : mapStack m.world.mapping pageSize stackSize <;>
        rw [hmap] at hmake <;> cases hmake
      exact ⟨rfl, rfl⟩
    have hmapped : m.world.Shift [] { m.world with stacksMapped := m.world.stacksMapped + 1 }
        [.holds stack none] := World.shift_mapStack hstack.1 (by simp [Stack.suits, hstack.2])
    have hrests : Fiber.Rests ⟨m.world.fibersMade, id, none, stack, .unstarted body⟩ none :=
      ⟨rfl, fun _ _ h => (by cases h), fun h => (by cases h)⟩
    have hshown := (hmapped.trans (World.shift_makeFiber _ id none stack body)).trans
      (World.shift_emit _ "co_new" (.text (Fiber.describe
        ⟨m.world.fibersMade, id, none, stack, .unstarted body⟩)) _)
    exact .write hcontrol (hshown.trans (World.shift_bind _ name hrests))

omit hcontrol in
theorem rests_of_take (horderly : m.world.Orderly) {w : World} {name : String} {fiber : Fiber}
    (h : m.world.takeCoroutine? name = some (fiber, w)) : fiber.Rests none :=
  horderly.named fiber (World.shift_takeCoroutine h).2

theorem does_takeStack (name : String) : Does allowed m (m.takeStack name) := by
  rw [Machine.takeStack]
  split
  next => exact .emit hcontrol _ _
  next fiber w htake =>
    have hshift := (World.shift_takeCoroutine htake).1
    split
    next =>
      refine .write hcontrol ((hshift.trans ?_).trans (World.shift_emit _ "co_stack" .null []))
      exact World.shift_release_of _ (fun f hf => by rw [fiber.weigh_assets hf]; rfl)
        fun _ => Nat.zero_le _
    next hstate =>
      have hleft : w.Shift fiber.assets w [] :=
        w.shift_leave (by simp [Fiber.isSuspended, Fiber.isFinished, hstate])
      exact .write hcontrol ((hshift.trans hleft).trans (World.shift_emit _ "co_stack" _ []))
    next hstate =>
      have hleft : w.Shift fiber.assets w [] :=
        w.shift_leave (by simp [Fiber.isSuspended, Fiber.isStarted, hstate])
      rw [withWorld_eq, goTo_withControl]
      exact .idle [] w (.panicking _) (by simp) trivial (hshift.trans hleft) (by simp)

theorem does_dropCoroutine (name : String) : Does allowed m (m.dropCoroutine name) := by
  rw [Machine.dropCoroutine]
  split
  next => exact .emit hcontrol _ _
  next fiber w htake =>
    refine .write hcontrol (((World.shift_takeCoroutine htake).1.trans ?_).trans
      (World.shift_emit _ "co_drop" .null []))
    exact World.shift_release_of _ (fun f hf => by rw [fiber.weigh_assets hf]; rfl)
      fun _ => Nat.zero_le _

theorem does_park (horderly : m.world.Orderly) {slot : String} {keep : Bool}
    {name : String} {owner : Nat} (hallowed : allowed (.park slot keep name owner)) :
    Does allowed m (m.park slot keep name owner) := by
  rw [Machine.park]
  split
  next => exact .emit hcontrol _ _
  next fiber w htake =>
    have hshift := (World.shift_takeCoroutine htake).1
    split
    next =>
      refine .write hcontrol ((hshift.trans (World.shift_emit _ "park" (.text "none") _)).trans ?_)
      exact World.shift_release_of _ (fun f hf => by rw [fiber.weigh_assets hf]; rfl)
        fun _ => Nat.zero_le _
    next x w' hhandle =>
      rw [withWorld_eq, hcontrol]
      exact .parks hallowed (rests_of_take horderly htake)
        (hshift.trans ((World.shift_takeHandle hhandle).gain _))

theorem does_wake {slot : String} {keep : Bool} {name : String} {owner : Nat} {delivery : Delivery}
    (hallowed : allowed (.wake slot keep name owner delivery)) :
    Does allowed m (m.wake slot keep name owner delivery) := by
  rw [Machine.wake]
  split
  next => exact .emit hcontrol _ _
  next x w htake =>
    refine .withResumption hcontrol (World.shift_takeHandle htake) (fun f _ => rfl)
      fun resumption w' hresumption hshift => ?_
    rw [withWorld_eq, hcontrol]
    refine .wakes hallowed (hshift.trans (.recount _ fun f _ => ?_))
    simp only [weigh_cons, weigh_append, weigh_nil]
    omega

theorem does_transfer (horderly : m.world.Orderly) {name : String} {delivery : Delivery}
    {slot : Option String} (hallowed : allowed (.transfer name delivery slot)) :
    Does allowed m (m.transfer name delivery slot) := by
  rw [Machine.transfer]
  split
  next => exact .emit hcontrol _ _
  next fiber w htake =>
    refine .withResumption hcontrol (World.shift_takeCoroutine htake).1
      (fun f hf => fiber.weigh_assets hf) fun resumption w' hresumption hshift => ?_
    rw [withWorld_eq, hcontrol, goTo_push]
    refine .transfers hallowed (rests_of_take horderly htake)
      (hshift.trans (.recount _ fun f _ => ?_)) (World.coroutine_of_take htake)
    simp only [weigh_append]
    omega

/-! ### Drivers -/

theorem does_drive (d : DriverId) (hd : (m.world.driver? d).isSome) :
    Does allowed m (m.drive d) := by
  rw [Machine.drive]
  split
  next =>
    rw [withControl_eq]
    exact .idle [] m.world (.panicking _) (by simp) trivial (.refl m.world []) (by simp)
  next hagenda =>
    split
    next => exact .emit hcontrol _ _
    next hcurrent =>
      simp only [withWorld_eq, goTo_push, goTo_advance]
      exact .drives d hd (by simpa [World.currentId] using hcurrent) hagenda

theorem does_newDriver (position : Nat) : Does allowed m (m.newDriver position) := by
  rw [Machine.newDriver]
  split
  next => exact .emit hcontrol _ _
  next s hs =>
    rw [withWorld_eq, hcontrol]
    exact .drivers hs

theorem does_awaitAll {d : DriverId} {plan : AwaitPlan} (huses : m.Uses allowed d plan.kind)
    (hplan : plan.kind = .all d) (hd : (m.world.driver? d).isSome) :
    Does allowed m (m.awaitAll d plan) := by
  rw [Machine.awaitAll]
  split
  next => exact .failAwait plan _
  next current hcurrent =>
    simp only
    rw [withWorld_eq, hcontrol]
    exact .waits huses hplan hd hcurrent

theorem does_issue {d : DriverId} {w : World} {work : Work} {plan : AwaitPlan}
    (huses : m.Uses allowed d plan.kind) (hplan : plan.kind.caller? = some d)
    (hd : (m.world.driver? d).isSome) (h : m.world.Shift [] w work.ending.assets)
    (hdrivers : w.drivers = m.world.drivers) :
    Does allowed m ((m.withWorld w).issue d work plan) := by
  rw [Machine.issue]
  simp only [withWorld_world]
  split
  next =>
    have hreleased := h.trans (World.shift_release w work.ending.debris)
    obtain ⟨w', control, heq, hcode, hshift⟩ :=
      (m.withWorld (w.release work.ending.debris)).failAwait_eq plan (.ofFault .notInFiber)
    rw [withWorld_eq, goTo_top, goTo_goTo] at heq
    rw [withWorld_withWorld, withWorld_eq, heq]
    exact .idle [] w' control (by simp) hcode (hreleased.trans (hshift [])) (by simp)
  next current hcurrent hagenda =>
    simp only [withWorld_withWorld]
    rw [withWorld_eq, goTo_withControl]
    have hown : (openAwait w current plan 2).1 = w.handles.next := rfl
    rw [hown]
    refine .strands _ hplan h hcurrent hagenda ?_
    refine (World.shift_notify _ d (g := fun driver => { driver with notified := true })
      (fun _ => rfl) (fun _ => rfl) _).trans
      (World.shift_release_of _ (fun f hf => ?_) fun f => Nat.zero_le _)
    simp only [weigh_cons, loosen_cons, loosen_append, loosen_nil, weigh_append,
      weigh_nil, hf.posts, hf.kept, Ending.assets]
    omega
  next current agenda hcurrent hagenda =>
    have hissued : (World.updateAgenda (World.updateDriver
        { (openAwait w current plan 2).2 with callsMade := w.callsMade + 1 } d
          fun driver => { driver with inFlight := driver.inFlight + 1 })
        fun agenda => agenda.spawn ⟨w.callsMade, d,
          .holding w.handles.next work⟩) = w.issued agenda current d work plan := by
      simp only [World.updateAgenda, World.updateDriver, World.issued, openAwait, World.makeHandle,
        World.mark, hagenda, Option.map_some]
    have hdone : Does allowed m
        ((m.goTo m.top (w.issued agenda current d work plan) .advance).suspendAwait
        w.handles.next plan) :=
      .issues huses hplan (by rwa [World.driver?, hdrivers]) h hcurrent hagenda
    rw [← hissued, ← hcontrol, ← withWorld_eq] at hdone
    exact hdone

theorem does_issueEmpty {d : DriverId} {work : Work} {plan : AwaitPlan}
    (huses : m.Uses allowed d plan.kind) (hplan : plan.kind.caller? = some d)
    (hd : (m.world.driver? d).isSome) (hassets : work.ending.assets = []) :
    Does allowed m (m.issue d work plan) := by
  have hissue : Does allowed m ((m.withWorld m.world).issue d work plan) :=
    does_issue hcontrol huses hplan hd (by rw [hassets]; exact .refl m.world []) rfl
  rwa [withWorld_eq, goTo_self] at hissue

end Busy

theorem does_tell (control : Control) (hcode : control.IsCode) :
    Does allowed m (m.withControl control) := by
  rw [withControl_eq]
  exact .idle [] m.world control (by simp) hcode (.refl m.world []) (by simp)

theorem does_push (hcontrol : m.control = .advance) (frame : Frame) (hframe : frame.IsCode)
    (hassets : frame.assets = []) (hguards : frame.guards = []) :
    Does allowed m (m.push frame) := by
  have hpush : Does allowed m ((m.withWorld m.world).push frame) :=
    .push hcontrol (.refl m.world []) hframe hassets hguards
  rwa [withWorld_eq, goTo_self] at hpush

/-- Whatever action is performed, it does one of the things that actions do. -/
theorem perform_does (hcontrol : m.control = .advance) (horderly : m.world.Orderly) :
    (action : Action) → allowed action.core → Does allowed m (m.perform action)
  | .log _, _ => .emit hcontrol _ _
  | .guard _, _ => .stay hcontrol
  | .enqueue .., hallowed => does_enqueue hcontrol (.inl hallowed)
  | .enqueueNamed _ task, hallowed => does_enqueue hcontrol (.inr ⟨task, rfl, hallowed⟩)
  | .run position max raises, _ => does_runLoop hcontrol position max _
  | .await .., _ => does_await hcontrol _ _ _ rfl
  | .resume .., _ => does_resume hcontrol _ _ _ _ _
  | .handle slot, _ => by
    rw [perform, showHandle]
    split <;> exact .emit hcontrol _ _
  | .clone .., _ => does_cloneHandle hcontrol _ _
  | .drop _, _ => does_dropHandle hcontrol _
  | .state, _ => .emit hcontrol _ _
  | .dropScheduler _, _ => .withScheduler hcontrol fun _ hs => does_dropScheduler hcontrol _ _ hs
  | .fail failure, _ => does_tell (.raise failure) trivial
  | .panic panic, _ => does_tell (.panicking panic) trivial
  | .again times body, _ => does_push hcontrol (.again times body) trivial rfl rfl
  | .countdown counter body, _ => by
    rw [perform, countdown]
    split
    · exact .stay hcontrol
    · exact .stay hcontrol
    · refine .push hcontrol ?_ trivial rfl rfl
      exact World.shift_rest _ _ _ rfl rfl rfl rfl rfl rfl rfl rfl rfl rfl fun _ => rfl
  | .scope body true, _ => by
    rw [perform, push_eq m, goTo_push, hcontrol]
    exact .idle [.actions body [], .catching] m.world .advance (by simp [Frame.IsCode]) trivial
      (.refl m.world []) (by simp [Frame.guards])
  | .scope body false, _ => does_push hcontrol (.actions body []) trivial rfl rfl
  | .suspend .., hallowed => does_suspendOnSlot hcontrol hallowed
  | .newHandle .., hallowed => does_newHandle hcontrol hallowed
  | .park .., hallowed => does_park hcontrol horderly hallowed
  | .wake .., hallowed => does_wake hcontrol hallowed
  | .newCoroutine .., _ => does_newCoroutine hcontrol _ _ _ _
  | .transfer .., hallowed => does_transfer hcontrol horderly hallowed
  | .coroutineInfo name, _ => by
    rw [perform, coroutineInfo]
    split <;> exact .emit hcontrol _ _
  | .takeStack _, _ => does_takeStack hcontrol _
  | .dropCoroutine _, _ => does_dropCoroutine hcontrol _
  | .newDriver position, _ => does_newDriver hcontrol position
  | .drive _, _ => .withDriver hcontrol horderly fun d _ hd => does_drive hcontrol d hd
  | .driverState _, _ => .withDriver hcontrol horderly fun _ _ _ => .emit hcontrol _ _
  | .inFlight _, _ => .withDriver hcontrol horderly fun _ _ _ => .emit hcontrol _ _
  | .sleep .., hallowed => .withDriver hcontrol horderly fun _ hposition hd =>
    does_issueEmpty hcontrol ⟨_, _, hallowed, rfl, hposition⟩ rfl hd rfl
  | .call position type outcome wait onError keepIn, hallowed =>
    .withDriver hcontrol horderly fun d hposition hd => by
    refine .withEnding hcontrol fun ending w hshift hdrivers => ?_
    exact does_issue hcontrol ⟨_, _, hallowed, rfl, hposition⟩ rfl hd hshift hdrivers
  | .blocking _ outcome _, hallowed => .withDriver hcontrol horderly fun _ hposition hd =>
    does_issueEmpty hcontrol ⟨_, _, hallowed, rfl, hposition⟩ rfl hd (by cases outcome <;> rfl)
  | .awaitAll position onError, hallowed => .withDriver hcontrol horderly fun _ hposition hd =>
    does_awaitAll hcontrol ⟨_, _, hallowed, rfl, hposition⟩ rfl hd
  | .signal semaphore permits, _ => .write hcontrol (m.world.shift_signal semaphore permits [])
  | .unknown _, _ => .emit hcontrol _ _
  | .foreign position action, hallowed => by
    rw [perform]
    split
    · exact .emit hcontrol _ _
    · exact perform_does hcontrol horderly action hallowed
  | .foreignRun .., _ => does_runLoop hcontrol _ _ _
  | .pending _, _ => .withScheduler hcontrol fun _ _ => .emit hcontrol _ _
  | .foreignAwait .., _ => does_foreignAwait hcontrol _ _
  | .foreignResume .., _ => .withScheduler hcontrol fun _ hs =>
    does_foreignResume hcontrol _ _ _ _ hs rfl
  | .foreignError .., _ => .withScheduler hcontrol fun _ hs =>
    does_foreignResume hcontrol _ _ _ _ hs rfl
  | .directResume .., _ => does_directResume hcontrol _ _ _ _
  | .handleText _, _ => .emit hcontrol _ _
  | .destroyHandle .., _ => does_destroyHandle hcontrol _ _
  | .destroyScheduler _, _ => .withScheduler hcontrol fun _ hs => does_dropScheduler hcontrol _ _ hs
  | .lastError, _ => .emit hcontrol _ _

end Machine

end Fibers
