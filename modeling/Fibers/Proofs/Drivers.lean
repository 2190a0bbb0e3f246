import Fibers.Proofs.AwaitFrames

/-!
What a step means to drivers. Most steps leave drivers, their calls and their
loops alone. The others issue a call or complete one, put a fiber on the list of
those who wait for all calls, or take a driver from one phase of its loop to the
next. This is another coarse view of the steps, beside the one of those who wait.
-/

namespace Fibers

open Asset (cloneOf)

/-- The event that tells of host work that has settled. -/
def Event.isSettled : Event → Bool
  | ⟨.debug, message, [(field, .int (.ofNat _))]⟩ =>
    message = "host work settled; resuming waiters" && field = "fibers"
  | _ => false

theorem Event.exists_settled {event : Event} (h : event.isSettled = true) :
    ∃ fibers, event = .settled fibers := by
  unfold isSettled at h
  split at h
  next message field fibers =>
    simp only [Bool.and_eq_true, decide_eq_true_eq] at h
    obtain ⟨rfl, rfl⟩ := h
    exact ⟨fibers, rfl⟩
  next => cases h

/-- Counts the calls of a driver from one settling to the next. -/
def Happening.countCall (d : DriverId) (n : Nat) : Happening → Nat
  | .event told => if told.isSettled then 0 else n
  | .mark (.opened _ plan) => if plan.kind.caller? = some d then n + 1 else n
  | _ => n

/-- How many calls of a driver were issued since host work settled last. -/
def World.callsSince (w : World) (d : DriverId) : Nat :=
  w.history.toList.foldl (Happening.countCall d) 0

/-- The driver and the phase of its loop. -/
def Frame.driving? : Frame → Option (DriverId × DriverPhase)
  | .driving d phase => some (d, phase)
  | _ => none

/-- The key of the call that is being completed, and its driver. -/
def Frame.completing? : Frame → Option (Nat × DriverId)
  | .completing d key _ => some (key, d)
  | _ => none

/-- Frames of host work. -/
def Frame.isHosting : Frame → Bool
  | .driving .. | .completing .. => true
  | _ => false

/-- Who looks at frames of host work only does not see the others. -/
theorem Frame.filterMap_hosting {α : Type} {f : Frame → Option α}
    (hf : ∀ frame, frame.isHosting = false → f frame = none) (frames : List Frame) :
    (frames.filter Frame.isHosting).filterMap f = frames.filterMap f := by
  induction frames with
  | nil => rfl
  | cons frame frames ih =>
    cases hframe : frame.isHosting with
    | true => rw [List.filter_cons_of_pos hframe, List.filterMap_cons, List.filterMap_cons, ih]
    | false =>
      rw [List.filter_cons_of_neg (by simp [hframe]), List.filterMap_cons, hf frame hframe, ih]

theorem Frame.driving?_of_not_hosting {frame : Frame} (h : frame.isHosting = false) :
    frame.driving? = none := by
  cases frame <;> first | rfl | cases h

theorem Frame.completing?_of_not_hosting {frame : Frame} (h : frame.isHosting = false) :
    frame.completing? = none := by
  cases frame <;> first | rfl | cases h

theorem PlainStack.filter_isHosting {inFiber : Bool} {frames : List Frame}
    (h : PlainStack inFiber frames) : frames.filter Frame.isHosting = [] := by
  refine List.filter_eq_nil_iff.2 fun frame member => ?_
  have hplain := h frame member
  cases frame <;> simp_all [Frame.isPlain, Frame.isHosting]

theorem PlainStack.filterMap_driving? {inFiber : Bool} {frames : List Frame}
    (h : PlainStack inFiber frames) : frames.filterMap Frame.driving? = [] := by
  rw [← Frame.filterMap_hosting fun _ => Frame.driving?_of_not_hosting, h.filter_isHosting,
    List.filterMap_nil]

theorem PlainStack.filterMap_completing? {inFiber : Bool} {frames : List Frame}
    (h : PlainStack inFiber frames) : frames.filterMap Frame.completing? = [] := by
  rw [← Frame.filterMap_hosting fun _ => Frame.completing?_of_not_hosting, h.filter_isHosting,
    List.filterMap_nil]

/-- The loops of drivers that are under way. -/
def Machine.phases (m : Machine) : List (DriverId × DriverPhase) := m.root.filterMap Frame.driving?

/-- The calls whose outcomes are being handed over. -/
def Machine.handing (m : Machine) : List (Nat × DriverId) := m.root.filterMap Frame.completing?

namespace World

variable {a b c w : World} {d : DriverId}

theorem callsSince_mark (w : World) (told : Mark) (d : DriverId) :
    (w.mark told).callsSince d = Happening.countCall d (w.callsSince d) (.mark told) := by
  simp [callsSince, mark, List.foldl_append]

theorem callsSince_tell (w : World) (event : Event) (d : DriverId) :
    (w.tell event).callsSince d = if event.isSettled then 0 else w.callsSince d := by
  simp [callsSince, tell, List.foldl_append, Happening.countCall]

theorem countCall_of_quiet {happening : Happening} (h : happening.IsQuiet)
    (d : DriverId) (n : Nat) : happening.countCall d n = n := by
  cases happening with
  | entry => rfl
  | event told =>
    refine if_neg fun hsettled => ?_
    obtain ⟨fibers, heq⟩ := Event.exists_settled hsettled
    exact h.2 fibers heq
  | mark told => cases told <;> first | rfl | exact h.elim

/-- Drivers have what they had, and so have their calls. -/
structure SameTallies (a b : World) : Prop where
  inFlight : ∀ d, b.inFlight d = a.inFlight d
  waiters : ∀ d, b.waiters d = a.waiters d
  claims : b.claims = a.claims
  promises : b.promises = a.promises
  made : b.callsMade = a.callsMade
  calls : ∀ d, b.callsSince d = a.callsSince d

/-- Besides, no notification was taken back, and drivers feed what they fed. -/
structure SameHosts (a b : World) : Prop extends SameTallies a b where
  alerts : ∀ d, a.notified d = true → b.notified d = true
  fed : ∀ {d s}, a.fedBy d = some s → b.fedBy d = some s

/-- What calls keep for their fibers they kept before, but for calls that were issued since. -/
structure KeepsPromises (a b : World) : Prop where
  made : a.callsMade ≤ b.callsMade
  promises : ∀ {key kept}, (key, some kept) ∈ b.promises → (key, some kept) ∈ a.promises ∨
    a.callsMade ≤ key

namespace KeepsPromises

theorem trans (first : a.KeepsPromises b) (second : b.KeepsPromises c) : a.KeepsPromises c where
  made := Nat.le_trans first.made second.made
  promises member := by
    rcases second.promises member with member | hmade
    · exact first.promises member
    · exact .inr (Nat.le_trans first.made hmade)

theorem of_none (hmade : b.callsMade = a.callsMade) (hnone : b.promises = []) :
    a.KeepsPromises b where
  made := Nat.le_of_eq hmade.symm
  promises member := by
    rw [hnone] at member
    cases member

end KeepsPromises

theorem SameTallies.keepsPromises (h : a.SameTallies b) : a.KeepsPromises b where
  made := Nat.le_of_eq h.made.symm
  promises member := .inl (h.promises ▸ member)

namespace SameHosts

theorem refl (w : World) : w.SameHosts w :=
  ⟨⟨fun _ => rfl, fun _ => rfl, rfl, rfl, rfl, fun _ => rfl⟩, fun _ => id, id⟩

theorem trans (first : a.SameHosts b) (second : b.SameHosts c) : a.SameHosts c where
  inFlight d := (second.inFlight d).trans (first.inFlight d)
  waiters d := (second.waiters d).trans (first.waiters d)
  claims := second.claims.trans first.claims
  promises := second.promises.trans first.promises
  made := second.made.trans first.made
  calls d := (second.calls d).trans (first.calls d)
  alerts d := second.alerts d ∘ first.alerts d
  fed := second.fed ∘ first.fed

theorem of_same (hdrivers : b.drivers = a.drivers) (hagenda : b.agenda = a.agenda)
    (hmade : b.callsMade = a.callsMade) (hhistory : b.history = a.history) : a.SameHosts b where
  inFlight d := by rw [World.inFlight, driver?, hdrivers, World.inFlight, driver?]
  waiters d := by rw [World.waiters, driver?, hdrivers, World.waiters, driver?]
  claims := by rw [World.claims, hagenda, World.claims]
  promises := by rw [World.promises, hagenda, World.promises]
  made := hmade
  calls d := by rw [callsSince, hhistory, callsSince]
  alerts d := by rw [notified, driver?, ← hdrivers]; exact id
  fed hs := by rwa [fedBy, driver?, hdrivers, ← driver?, ← fedBy]

/-- What is written down does not touch drivers. -/
theorem write (w : World) (happening : Happening) (h : ∀ d n, happening.countCall d n = n) :
    w.SameHosts { w with history := w.history.push happening } :=
  { refl w with calls := fun d => by simp [callsSince, List.foldl_append, h] }

theorem mark (w : World) {told : Mark} (h : ∀ x plan, told ≠ .opened x plan) :
    w.SameHosts (w.mark told) := by
  refine write w _ fun d n => ?_
  cases told with
  | opened x plan => exact absurd rfl (h x plan)
  | _ => rfl

theorem tell (w : World) {event : Event} (h : ∀ fibers, event ≠ .settled fibers) :
    w.SameHosts (w.tell event) := by
  refine write w _ fun d n => if_neg fun hsettled => ?_
  obtain ⟨fibers, heq⟩ := Event.exists_settled hsettled
  exact h fibers heq

theorem emit (w : World) (name : String) (payload : Datum) : w.SameHosts (w.emit name payload) :=
  write w _ fun _ _ => rfl

end SameHosts

theorem foldl_countCall {news : List Happening} (h : ∀ happening ∈ news, happening.IsQuiet)
    (d : DriverId) (n : Nat) : news.foldl (Happening.countCall d) n = n := by
  induction news with
  | nil => rfl
  | cons first rest ih =>
    rw [List.foldl_cons, countCall_of_quiet (h first (List.mem_cons_self ..))]
    exact ih fun happening member => h happening (List.mem_cons_of_mem _ member)

theorem Drift.sameHosts (h : a.Drift b) : a.SameHosts b := by
  have hmuted : ∀ d, (b.driver? d).map Driver.muted = (a.driver? d).map Driver.muted := fun d => by
    rw [driver?, driver?, ← List.getElem?_map, ← List.getElem?_map, h.drivers]
  refine ⟨⟨fun d => ?_, fun d => ?_, h.claims, h.promises, h.callsMade, fun d => ?_⟩,
    h.alerts, h.keeps.fed⟩
  · have hsame := congrArg (fun driver => driver.elim 0 Driver.inFlight) (hmuted d)
    rw [Option.elim_map, Option.elim_map] at hsame
    exact hsame
  · have hsame := congrArg (fun driver => driver.elim [] Driver.waiting) (hmuted d)
    rw [Option.elim_map, Option.elim_map] at hsame
    exact hsame
  obtain ⟨news, hnews, hquiet⟩ := h.history
  rw [callsSince, hnews, List.foldl_append, foldl_countCall hquiet, callsSince]

theorem Stirs.sameHosts (h : a.Stirs b) : a.SameHosts b := h.drift.sameHosts

theorem sameHosts_release (w : World) (work : List Debris) : w.SameHosts (w.release work) :=
  (w.drift_release work).sameHosts

theorem sameHosts_setSlot (w : World) (x : HandleRef) (slot : Slot Fiber Owner Resumption) :
    w.SameHosts (w.setSlot x slot) := .of_same rfl rfl rfl rfl

theorem sameHosts_updateScheduler (w : World) (s : SchedulerId) (g : Scheduler → Scheduler) :
    w.SameHosts (w.updateScheduler s g) := .of_same rfl rfl rfl rfl

theorem sameHosts_bind (w : World) (name : String) (fiber : Fiber) :
    w.SameHosts (w.bind name fiber) := by
  have hlaid : w.SameHosts { w with coroutines := w.coroutines.insert name fiber } :=
    .of_same rfl rfl rfl rfl
  rw [bind]
  split
  · exact hlaid
  · exact hlaid.trans (sameHosts_release _ _)

theorem sameHosts_storeOrRelease (w : World) (name : Option String) (x : HandleRef) :
    w.SameHosts (w.storeOrRelease name x) := by
  cases name with
  | none => exact sameHosts_release _ _
  | some name =>
    have hlaid : w.SameHosts { w with slots := w.slots.insert name x } := .of_same rfl rfl rfl rfl
    rw [storeOrRelease, store]
    split
    · exact hlaid
    · exact hlaid.trans (sameHosts_release _ _)

theorem sameHosts_append (w : World) (s : SchedulerId) (entry : Runnable) :
    w.SameHosts (w.append s entry) :=
  (sameHosts_updateScheduler w s _).trans (.mark _ (by simp))

theorem sameHosts_enqueue (w : World) (s : SchedulerId) (body : List Action) :
    w.SameHosts (w.enqueue s body).2 := by
  rw [enqueue]
  split
  · exact .refl w
  · exact ((sameHosts_updateScheduler w s _).trans (.mark _ (by simp))).trans
      (.tell _ (Event.isQuiet_enqueued _ _).2)

theorem sameHosts_next {entry : Runnable} {s : SchedulerId} (h : w.next? s = some (entry, b)) :
    w.SameHosts b := by
  obtain ⟨queue, -, rfl⟩ := next?_eq h
  exact (sameHosts_updateScheduler w s _).trans (.mark _ (by simp))

theorem Parks.sameHosts {x : HandleRef} {cell : HandleCell} {fiber : Fiber} {owner : Owner}
    {result : Option (Fiber × Resumption) × World} (h : w.Parks x cell fiber owner result) :
    w.SameHosts result.2 := by
  cases h with
  | absorbed hslot w' hw =>
    refine SameHosts.trans ?_ (sameHosts_release _ _)
    rcases hw with rfl | rfl
    · exact sameHosts_setSlot ..
    · exact (SameHosts.tell _ (Event.isQuiet_unheld _).2).trans (sameHosts_setSlot ..)
  | met => exact (sameHosts_setSlot ..).trans (sameHosts_release _ _)
  | refused =>
    exact (SameHosts.tell _ (by simp [Event.usedHandle, Event.settled, Event.about])).trans
      (sameHosts_release _ _)

theorem Wakes.sameHosts {x : HandleRef} {cell : HandleCell} {owner : Owner}
    {resumption : Resumption} {result : Except SchedulerFault (Option (Fiber × Resumption)) × World}
    (h : w.Wakes x cell owner resumption result) : w.SameHosts result.2 := by
  cases h with
  | stored | met =>
    exact ((sameHosts_setSlot ..).trans (.mark _ (by simp))).trans (sameHosts_release _ _)
  | refused => exact sameHosts_release _ _

theorem Reckons.sameHosts {shown : HandleRef → Prop} {s : SchedulerId} {g : Counters → Counters}
    {given out : List Asset} (h : w.Reckons s g given b) (hsound : w.Sound shown (given ++ out)) :
    w.SameHosts b :=
  SameHosts.trans (b := w.count s g) (.of_same rfl rfl rfl rfl) (h.drift hsound).sameHosts

theorem Receives.sameHosts {shown : HandleRef → Prop} {s : SchedulerId} {fiber : Fiber}
    {exit : Exit} (h : w.Receives s fiber exit b) {out : List Asset}
    (hsound : w.Sound shown (fiber.assets ++ out)) : w.SameHosts b := by
  cases h with
  | parked hcell hbefore hsame hparks => exact (hbefore.sameHosts hsound).trans hparks.sameHosts
  | handedBack hcell hbefore hsame hparks =>
    exact ((hbefore.sameHosts hsound).trans hparks.sameHosts).trans (sameHosts_append ..)
  | ended hexit hreckons => exact hreckons.sameHosts hsound

/-! ### Changes to one driver -/

theorem inFlight_updateDriver (w : World) (d e : DriverId) {g : Driver → Driver}
    (hg : ∀ driver, (g driver).inFlight = driver.inFlight) :
    (w.updateDriver d g).inFlight e = w.inFlight e := by
  rw [inFlight, driver?_updateDriver, inFlight]
  split <;> cases w.driver? e <;> simp [hg]

theorem waiters_updateDriver (w : World) (d e : DriverId) {g : Driver → Driver}
    (hg : ∀ driver, (g driver).waiting = driver.waiting) :
    (w.updateDriver d g).waiters e = w.waiters e := by
  rw [waiters, driver?_updateDriver, waiters]
  split <;> cases w.driver? e <;> simp [hg]

theorem waiters_callOver (w : World) (d e : DriverId) : (w.callOver d).waiters e = w.waiters e :=
  waiters_updateDriver w d e
    (g := fun driver => { driver with inFlight := driver.inFlight - 1, notified := true })
    fun _ => rfl

theorem drivers_signal (w : World) (name : String) (permits : Nat) :
    (w.signal name permits).drivers = w.drivers := by
  have hgrants : ∀ (keys : List Nat) (w : World),
      (keys.foldl (fun w key => w.grant name key) w).drivers = w.drivers := by
    intro keys
    induction keys with
    | nil => exact fun _ => rfl
    | cons key rest ih => exact fun w => ih _
  exact hgrants _ _

theorem inFlight_callOver (w : World) (d e : DriverId) :
    (w.callOver d).inFlight e = if d = e then w.inFlight e - 1 else w.inFlight e := by
  rw [callOver, inFlight, driver?_updateDriver, inFlight]
  split <;> cases w.driver? e <;> rfl

/-- A driver with calls in flight notices that a call is over. -/
theorem notified_callOver (w : World) (d e : DriverId)
    (h : w.notified e = true ∨ (d = e ∧ 0 < w.inFlight e)) : (w.callOver d).notified e = true := by
  rw [callOver, notified, driver?_updateDriver]
  rw [notified, inFlight] at h
  cases hdriver : w.driver? e with
  | none => simp [hdriver] at h
  | some driver =>
    split
    next => rfl
    next hne => simpa [hdriver, hne] using h

/-- Dropping a call is one way of ending it. -/
theorem dropCall_eq (w : World) (call : HostCall) :
    ∃ u : World, w.dropCall call = (u.release call.debris).callOver call.driver ∧
      u.drivers = w.drivers := by
  simp only [World.dropCall]
  split
  · exact ⟨_, rfl, rfl⟩
  · exact ⟨_, rfl, drivers_signal ..⟩
  · exact ⟨_, rfl, rfl⟩

theorem waiters_dropCall (w : World) (call : HostCall) (d : DriverId) :
    (w.dropCall call).waiters d = w.waiters d := by
  obtain ⟨u, heq, hdrivers⟩ := w.dropCall_eq call
  rw [heq, waiters_callOver, (sameHosts_release u call.debris).waiters, waiters,
    driver?, hdrivers, waiters, driver?]

theorem inFlight_dropCall (w : World) (call : HostCall) (d : DriverId) :
    (w.dropCall call).inFlight d = if call.driver = d then w.inFlight d - 1 else w.inFlight d := by
  obtain ⟨u, heq, hdrivers⟩ := w.dropCall_eq call
  have hsame : (u.release call.debris).inFlight d = w.inFlight d := by
    rw [(sameHosts_release u call.debris).inFlight, inFlight, driver?, hdrivers, inFlight, driver?]
  rw [heq, inFlight_callOver, hsame]

theorem inFlight_dropCalls (calls : List HostCall) (w : World) (d : DriverId) :
    (calls.foldl dropCall w).inFlight d = w.inFlight d - calls.countP fun call =>
    call.driver = d := by
  induction calls generalizing w with
  | nil => rfl
  | cons call rest ih =>
    rw [List.foldl_cons, ih, inFlight_dropCall, List.countP_cons]
    by_cases hdriver : call.driver = d
    · simp only [hdriver, if_true, decide_true]
      omega
    · simp [hdriver]

/-- At the end of a run every call that is left is over. -/
theorem inFlight_closeAgenda (w : World) (d : DriverId) :
    w.closeAgenda.inFlight d = w.inFlight d - (w.claims.getD []).countP fun claim =>
      claim.2.1 = d := by
  rw [closeAgenda]
  split
  next hnone => rw [claims, hnone]; rfl
  next agenda hagenda =>
    refine (inFlight_dropCalls agenda.calls w d).trans ?_
    rw [claims, hagenda, Option.map_some, Option.getD_some, List.countP_map]
    rfl

/-- At the end of a run the fibers that wait go on waiting. -/
theorem waiters_closeAgenda (w : World) (d : DriverId) : w.closeAgenda.waiters d = w.waiters d := by
  have hfold : ∀ (calls : List HostCall) (w : World),
      (calls.foldl World.dropCall w).waiters d = w.waiters d := by
    intro calls
    induction calls with
    | nil => exact fun _ => rfl
    | cons call rest ih => exact fun w => (ih _).trans (waiters_dropCall w call d)
  rw [closeAgenda]
  split
  · rfl
  · exact hfold _ w

theorem claims_closeAgenda (w : World) : w.closeAgenda.claims = none := by
  rw [closeAgenda]
  split
  next hnone => rw [World.claims, hnone]; rfl
  next => rfl

/-- Dropping a call leaves the number of calls alone. -/
theorem callsMade_closeAgenda (w : World) : w.closeAgenda.callsMade = w.callsMade := by
  have hsignal : ∀ (w : World) (name : String) (permits : Nat),
      (w.signal name permits).callsMade = w.callsMade := by
    intro w name permits
    have hgrants : ∀ (keys : List Nat) (w : World),
        (keys.foldl (fun w key => w.grant name key) w).callsMade = w.callsMade := by
      intro keys
      induction keys with
      | nil => exact fun _ => rfl
      | cons key rest ih => exact fun w => ih _
    exact hgrants _ _
  have hdrop : ∀ (w : World) (call : HostCall), (w.dropCall call).callsMade = w.callsMade := by
    intro w call
    have hover : ∀ u : World,
        ((u.release call.debris).callOver call.driver).callsMade = u.callsMade := fun u => by
      rw [release_eq]
      rfl
    rw [dropCall]
    refine (hover _).trans ?_
    split
    · rfl
    · exact hsignal ..
    · rfl
  have hfold : ∀ (calls : List HostCall) (w : World),
      (calls.foldl World.dropCall w).callsMade = w.callsMade := by
    intro calls
    induction calls with
    | nil => exact fun _ => rfl
    | cons call rest ih => exact fun w => (ih _).trans (hdrop w call)
  rw [closeAgenda]
  split
  · rfl
  · exact hfold _ w

theorem promises_closeAgenda (w : World) : w.closeAgenda.promises = [] := by
  rw [closeAgenda]
  split
  next hnone => rw [promises, hnone]; rfl
  next => rfl

/-- A call that is issued has a number that no call had. -/
theorem keepsPromises_issued {agenda : Agenda} (hagenda : w.agenda = some agenda)
    (current : FiberId) (d : DriverId) (work : Work) (plan : AwaitPlan) :
    w.KeepsPromises (w.issued agenda current d work plan) := by
  refine ⟨Nat.le_succ _, fun {key kept} member => ?_⟩
  have hall : (w.issued agenda current d work plan).promises =
      w.promises ++ [(w.callsMade, some (w.handles.next, work.ending))] := by
    rw [promises, promises, hagenda]
    exact List.map_append ..
  rw [hall] at member
  rcases List.mem_append.1 member with member | member
  · exact .inl member
  · cases List.mem_singleton.1 member
    exact .inr (Nat.le_refl _)

/-- A call that hands over its outcome keeps nothing any more. -/
theorem keepsPromises_handOver {agenda : Agenda} (hagenda : w.agenda = some agenda) (key : Nat) :
    w.KeepsPromises { w with agenda := some (agenda.setState key .handing) } := by
  refine ⟨Nat.le_refl _, fun {other kept} member => .inl ?_⟩
  rw [promises, Option.elim_some, Agenda.setState, List.map_map] at member
  obtain ⟨call, hcall, heq⟩ := List.mem_map.1 member
  rw [promises, hagenda, Option.elim_some]
  rw [Function.comp_apply] at heq
  split at heq
  next => cases heq
  next => exact List.mem_map.2 ⟨call, hcall, heq⟩

theorem keepsPromises_remove (w : World) (key : Nat) :
    w.KeepsPromises (w.updateAgenda fun agenda => agenda.remove key) := by
  refine ⟨Nat.le_refl _, fun {other kept} member => .inl ?_⟩
  rw [promises, updateAgenda] at member
  rw [promises]
  cases hagenda : w.agenda with
  | none =>
    rw [hagenda] at member
    cases member
  | some agenda =>
    rw [hagenda] at member
    obtain ⟨call, hcall, heq⟩ := List.mem_map.1 member
    exact List.mem_map.2 ⟨call, (List.mem_filter.1 hcall).1, heq⟩

theorem inFlight_issued (hd : (w.driver? d).isSome) (agenda : Agenda)
    (current : FiberId) {work : Work} (plan : AwaitPlan) (e : DriverId) :
    (w.issued agenda current d work plan).inFlight e = if d =
    e then w.inFlight e + 1 else w.inFlight e := by
  rw [inFlight, issued, driver?_updateDriver]
  split
  next heq =>
    subst heq
    obtain ⟨driver, hdriver⟩ := Option.isSome_iff_exists.1 hd
    rw [inFlight, hdriver]
    change ((w.driver? d).map _).elim 0 _ = _
    rw [hdriver]
    rfl
  next => rfl

theorem notified_issued (w : World) (agenda : Agenda) (current : FiberId) (d : DriverId)
    (work : Work) (plan : AwaitPlan) (e : DriverId) :
    (w.issued agenda current d work plan).notified e = w.notified e := by
  rw [notified, issued, driver?_updateDriver, notified]
  split
  · change ((w.driver? e).map _).any _ = _
    cases w.driver? e <;> rfl
  · rfl

theorem notified_listed (w : World) (current : FiberId) (d : DriverId) (plan : AwaitPlan)
    (e : DriverId) : (w.listed current d plan).notified e = w.notified e := by
  rw [notified, listed, driver?_updateDriver, notified]
  split
  · change ((w.driver? e).map _).any _ = _
    cases w.driver? e <;> rfl
  · rfl

theorem waiters_settled (w : World) (d : DriverId) (fibers : Nat) (e : DriverId) :
    ((w.updateDriver d fun driver => { driver with waiting := [] }).tell (.settled fibers)).waiters
    e =
      if d = e then [] else w.waiters e := by
  change (w.updateDriver d fun driver => { driver with waiting := [] }).waiters e = _
  rw [waiters, driver?_updateDriver]
  split
  · cases w.driver? e <;> rfl
  · rfl

theorem sameHosts_staffed (w : World) (position : Nat) (s : SchedulerId) :
    w.SameHosts (w.staffed position s) := by
  have hdriver : ∀ e,
      (w.staffed position s).driver? e = if e.index = w.drivers.length then some (.new s)
      else w.driver? e := by
    intro e
    change (w.drivers ++ [Driver.new s])[e.index]? = _
    rw [List.getElem?_append, driver?]
    split
    · rw [if_neg (by omega)]
    · split
      next heq => simp [heq]
      next hne =>
        rw [List.getElem?_eq_none (by rw [List.length_singleton]; omega)]
        exact (List.getElem?_eq_none (by omega)).symm
  have hnone : ∀ e : DriverId, e.index = w.drivers.length → w.driver? e = none := fun e he =>
    List.getElem?_eq_none (by omega)
  refine ⟨⟨fun e => ?_, fun e => ?_, rfl, rfl, rfl, fun _ => rfl⟩, fun e he => ?_,
    (w.steady_staffed position s).fed⟩
  · rw [inFlight, hdriver, inFlight]
    split
    next heq => rw [hnone e heq]; rfl
    next => rfl
  · rw [waiters, hdriver, waiters]
    split
    next heq => rw [hnone e heq]; rfl
    next => rfl
  · rw [notified] at he
    rw [notified, hdriver]
    split
    next heq =>
      rw [hnone e heq] at he
      cases he
    next => exact he

end World

namespace Machine

variable {byHand : Prop} {shown : HandleRef → Prop} {allowed : Action → Prop} {m m' : Machine}
  {frames : List Frame} {w : World} {control : Control} {s : SchedulerId} {x : HandleRef}
  {d : DriverId} {fiber : Fiber} {resumption : Resumption} {plan : AwaitPlan}

/-! ### Loops -/

theorem phases_of_root (h : m.inFiber = false) : m.phases = m.top.filterMap Frame.driving? := by
  obtain ⟨world, running, root, control⟩ := m
  cases running with
  | nil => rfl
  | cons => cases h

theorem phases_goTo_of_root (h : m.inFiber = false) (frames : List Frame) (w : World)
    (control : Control) : (m.goTo frames w control).phases = frames.filterMap Frame.driving? := by
  rw [phases_of_root (by rwa [goTo_inFiber]), goTo_top]

theorem handing_of_root (h : m.inFiber = false) :
    m.handing = m.top.filterMap Frame.completing? := by
  obtain ⟨world, running, root, control⟩ := m
  cases running with
  | nil => rfl
  | cons => cases h

theorem handing_goTo_of_root (h : m.inFiber = false) (frames : List Frame) (w : World)
    (control : Control) :
    (m.goTo frames w control).handing = frames.filterMap Frame.completing? := by
  rw [handing_of_root (by rwa [goTo_inFiber]), goTo_top]

/-- Who looks at frames of host work only sees at the root what was there. -/
theorem filterMap_root_goTo {α : Type} {f : Frame → Option α}
    (hf : ∀ frame, frame.isHosting = false → f frame = none)
    (h : frames.filter Frame.isHosting = m.top.filter Frame.isHosting) :
    (m.goTo frames w control).root.filterMap f = m.root.filterMap f := by
  obtain ⟨world, running, root, told⟩ := m
  cases running with
  | nil =>
    change frames.filterMap f = root.filterMap f
    rw [← Frame.filterMap_hosting hf, h, Frame.filterMap_hosting hf]
    rfl
  | cons => rfl

theorem isHosting_of_isCode {frame : Frame} (h : frame.IsCode) : frame.isHosting = false := by
  cases frame <;> first | rfl | exact h.elim

theorem filter_isHosting_code {pushed : List Frame} (h : ∀ frame ∈ pushed, frame.IsCode) :
    pushed.filter Frame.isHosting = [] :=
  List.filter_eq_nil_iff.2 fun frame member => by
    rw [isHosting_of_isCode (h frame member)]; exact Bool.false_ne_true

theorem phases_goTo (h : frames.filter Frame.isHosting = m.top.filter Frame.isHosting) :
    (m.goTo frames w control).phases = m.phases :=
  filterMap_root_goTo (fun _ => Frame.driving?_of_not_hosting) h

theorem handing_goTo (h : frames.filter Frame.isHosting = m.top.filter Frame.isHosting) :
    (m.goTo frames w control).handing = m.handing :=
  filterMap_root_goTo (fun _ => Frame.completing?_of_not_hosting) h

/-- Drivers, their calls and their loops are as they were. -/
structure SameLoops (m m' : Machine) : Prop where
  hosts : m.world.SameHosts m'.world
  phases : m'.phases = m.phases
  handing : m'.handing = m.handing

namespace SameLoops

theorem trans {a b c : Machine} (first : a.SameLoops b) (second : b.SameLoops c) : a.SameLoops c :=
  ⟨first.hosts.trans second.hosts, second.phases.trans first.phases,
    second.handing.trans first.handing⟩

theorem goTo (h : m.world.SameHosts w)
    (hframes : frames.filter Frame.isHosting = m.top.filter Frame.isHosting) :
    m.SameLoops (m.goTo frames w control) :=
  ⟨h, phases_goTo hframes, handing_goTo hframes⟩

theorem suspend (m : Machine) (x : HandleRef) : m.SameLoops (m.suspend x) := by
  refine ⟨?_, by rw [Machine.phases, suspend_root, Machine.phases],
    by rw [Machine.handing, suspend_root, Machine.handing]⟩
  rw [Machine.suspend]
  split <;> exact .of_same rfl rfl rfl rfl

theorem suspendAwait (m : Machine) (x : HandleRef) (plan : AwaitPlan) :
    m.SameLoops (m.suspendAwait x plan) := by
  have hpushed : m.SameLoops (m.goTo (.awaiting x plan :: m.top) m.world m.control) :=
    goTo (.refl _) rfl
  rw [Machine.suspendAwait, push_eq]
  exact hpushed.trans (suspend _ _)

theorem enter (m : Machine) (fiber : Fiber) (resumption : Resumption) :
    m.SameLoops (m.enter fiber resumption) := by
  refine ⟨?_, by rw [Machine.phases, enter_root, Machine.phases],
    by rw [Machine.handing, enter_root, Machine.handing]⟩
  rw [enter.eq_def]
  split
  · split <;> exact .of_same rfl rfl rfl rfl
  · exact .of_same rfl rfl rfl rfl
  · exact World.sameHosts_release _ _

theorem goTo_enter (h : m.world.SameHosts w)
    (hframes : frames.filter Frame.isHosting = m.top.filter Frame.isHosting) :
    m.SameLoops ((m.goTo frames w control).enter fiber resumption) :=
  (goTo h hframes).trans (enter ..)

theorem run (m : Machine) (s : SchedulerId) (max : Option Nat) : m.SameLoops (m.run s max) := by
  rw [Machine.run]
  split
  · rw [withControl_eq]
    exact goTo (.refl _) rfl
  · rw [push_eq, goTo_advance]
    exact goTo (.refl _) rfl

theorem deliver {cell : HandleCell} (h : Delivers m s x cell resumption m') : m.SameLoops m' := by
  have hmet : ∀ slot (event : Event), event.IsQuiet → m.world.SameHosts
      ((((m.world.setSlot x slot).mark (.accepted x resumption)).release [.handle x]).tell event) :=
    fun slot event hquiet => (((World.sameHosts_setSlot ..).trans (.mark _ (by simp))).trans
      (World.sameHosts_release _ _)).trans (.tell _ hquiet.2)
  cases h with
  | stored event hslot hquiet => exact goTo (hmet _ event hquiet) rfl
  | queued fiber event hslot hcurrent hquiet =>
    exact goTo ((hmet _ event hquiet).trans (World.sameHosts_append ..)) rfl
  | dispatched fiber event hslot hcurrent hquiet =>
    exact goTo_enter ((hmet _ event hquiet).trans (.mark _ (by simp))) rfl
  | refused fault event hslot hother hquiet =>
    exact goTo ((World.sameHosts_release _ _).trans (.tell _ hquiet.2)) rfl

theorem drain {ran : Nat} {max : Option Nat} {out : List Asset}
    (hbalanced : m.world.Sound shown out) (h : Drains m s ran max m') : m.SameLoops m' := by
  cases h with
  | stops => exact goTo (.refl _) rfl
  | @fails id body w w₁ w₂ hmore hnext hbefore hafter =>
    have hunstarted := World.Sound.unstarted ((hbalanced.next hnext).gain hbefore)
    have hbegun := (World.sameHosts_next hnext).trans
      ((hbalanced.next hnext).drift_gain hbefore).sameHosts
    exact goTo ((hbegun.trans (.mark _ (by simp))).trans (hafter.sameHosts hunstarted)) rfl
  | starts hmore hnext hbefore =>
    exact goTo_enter ((World.sameHosts_next hnext).trans
      ((hbalanced.next hnext).drift_gain hbefore).sameHosts) rfl
  | wakes hmore hnext => exact goTo_enter (World.sameHosts_next hnext) rfl

theorem handOut (m : Machine) (action name : String) (fiber : Fiber) (resumption : Resumption) :
    m.SameLoops (m.handOut action name fiber resumption) := by
  rw [Machine.handOut, emit, withWorld_withWorld, withWorld_world, withWorld_eq]
  exact goTo (((World.SameHosts.emit m.world _ _).trans (World.sameHosts_bind ..)).trans
    (World.sameHosts_release _ _)) rfl

theorem transferred (m : Machine) (name : String) (slot : Option String) (fiber : Fiber)
    (exit : Exit) : m.SameLoops (m.transferred name slot fiber exit) := by
  have hshow : ∀ payload,
      m.world.SameHosts ((m.world.bind name fiber).emit "co_transfer" payload) :=
    fun payload => (World.sameHosts_bind ..).trans (.emit ..)
  rw [transferred.eq_def]
  cases exit with
  | suspended x =>
    simp only
    rw [withWorld_eq m, goTo_emit, goTo_withWorld, goTo_advance]
    exact goTo ((hshow _).trans (World.sameHosts_storeOrRelease ..)) rfl
  | completed | failed | panicked =>
    simp only
    rw [withWorld_eq m, goTo_emit, goTo_advance]
    exact goTo (hshow _) rfl

theorem parkedByHand {name : String} {result : Option (Fiber × Resumption) × World}
    (h : m.world.SameHosts result.2) : m.SameLoops (m.parkedByHand name result) := by
  obtain ⟨_ | ⟨fiber, resumption⟩, w⟩ := result
  · rw [Machine.parkedByHand, withWorld_eq, goTo_emit]
    exact goTo (h.trans (.emit ..)) rfl
  · rw [Machine.parkedByHand, withWorld_eq]
    exact (goTo h rfl).trans (handOut ..)

theorem wokenByHand {name : String}
    {result : Except SchedulerFault (Option (Fiber × Resumption)) × World}
    (h : m.world.SameHosts result.2) : m.SameLoops (m.wokenByHand name result) := by
  obtain ⟨_ | _ | ⟨fiber, resumption⟩, w⟩ := result
  · rw [Machine.wokenByHand, withWorld_eq, goTo_emit]
    exact goTo (h.trans (.emit ..)) rfl
  · rw [Machine.wokenByHand, withWorld_eq, goTo_emit]
    exact goTo (h.trans (.emit ..)) rfl
  · rw [Machine.wokenByHand, withWorld_eq]
    exact (goTo h rfl).trans (handOut ..)

theorem leave (m : Machine) (running : Running) (below : List Running) (exit : Exit) :
    m.SameLoops (m.leave running below exit) := by
  refine ⟨?_, rfl, rfl⟩
  rw [Machine.leave]
  have hleft : m.world.SameHosts (m.world.restore running.current running.outer) :=
    .of_same rfl rfl rfl rfl
  exact (hleft.trans (World.sameHosts_release _ _)).trans (.mark _ (by simp))

end SameLoops

/-! ### Steps -/

/-- What a step means to drivers. -/
inductive Works (m : Machine) (m' : Machine) : Prop
  | same (h : m.SameLoops m')
  | issues {x : HandleRef} {plan : AwaitPlan} {w : World} {d : DriverId} (key : Nat)
      (hopens : m.world.Opens x plan w) (hhistory : w.history = m'.world.history)
      (hplan : plan.kind.caller? = some d)
      (hinFlight : ∀ e, m'.world.inFlight e = if d = e then m.world.inFlight e +
        1 else m.world.inFlight e)
      (hwaiters : ∀ e, m'.world.waiters e = m.world.waiters e)
      (hclaims : m'.world.claims = m.world.claims.map (· ++ [(key, d, some x)]))
      (hcalls : ∀ e, m'.world.callsSince e = if d = e then m.world.callsSince e +
        1 else m.world.callsSince e)
      (hphases : m'.phases = m.phases) (hhanding : m'.handing = m.handing)
      (hsome : m.world.claims.isSome)
      (halerts : ∀ e, m.world.notified e = true → m'.world.notified e = true)
      (hfed : ∀ {f s}, m.world.fedBy f = some s → m'.world.fedBy f = some s)
      (hpromises : m.world.KeepsPromises m'.world)
  /-- Without a driver that runs, a call strands its fiber. -/
  | strands (hwaiters : ∀ e, m'.world.waiters e = m.world.waiters e)
      (hnone : m.world.claims = none) (hclaims : m'.world.claims = none)
      (hphases : m'.phases = m.phases) (hinFlight : ∀ e, m'.world.inFlight e = m.world.inFlight e)
      (hhanding : m'.handing = m.handing)
      (hfed : ∀ {f s}, m.world.fedBy f = some s → m'.world.fedBy f = some s)
      (hpromises : m.world.KeepsPromises m'.world)
  | waits {x : HandleRef} {plan : AwaitPlan} {w : World} {d : DriverId}
      (hopens : m.world.Opens x plan w) (hhistory : w.history = m'.world.history)
      (hplan : plan.kind = .all d) (hinFlight : ∀ e, m'.world.inFlight e = m.world.inFlight e)
      (hwaiters : ∀ e,
        m'.world.waiters e = if d = e then m.world.waiters e ++ [x] else m.world.waiters e)
      (hclaims : m'.world.claims = m.world.claims)
      (hcalls : ∀ e, m'.world.callsSince e = m.world.callsSince e) (hphases : m'.phases = m.phases)
      (hhanding : m'.handing = m.handing)
      (halerts : ∀ e, m.world.notified e = true → m'.world.notified e = true)
      (hfed : ∀ {f s}, m.world.fedBy f = some s → m'.world.fedBy f = some s)
      (hpromises : m.world.KeepsPromises m'.world)
  | drives (d : DriverId) (hwaiters : ∀ e, m'.world.waiters e = m.world.waiters e)
      (hclaims : m'.world.claims = some []) (hbefore : m.phases = [])
      (hafter : m'.phases = [(d, .drain)]) (hnone : m.world.claims = none)
      (hinFlight : ∀ e, m'.world.inFlight e = m.world.inFlight e) (hhanding : m'.handing = [])
      (hthere : (m.world.driver? d).isSome)
      (hfed : ∀ {f s}, m.world.fedBy f = some s → m'.world.fedBy f = some s)
      (hpromises : m.world.KeepsPromises m'.world)
  | goesOn {d : DriverId} {phase phase' : DriverPhase} (h : m.world.SameHosts m'.world)
      (hphase : phase.GoesOn phase') (hbefore : m.phases = [(d, phase)])
      (hafter : m'.phases = [(d, phase')]) (hbusy : phase = .drain → 0 < m.world.inFlight d)
      (hidle : m.handing = []) (hhanding : m'.handing = [])
  /-- A driver has looked for a notification and found one. -/
  | hears {d : DriverId} (h : m.world.SameTallies m'.world) (hbefore : m.phases = [(d, .listen)])
      (hafter : m'.phases = [(d, .drain)]) (hidle : m.handing = []) (hhanding : m'.handing = [])
      (hfed : ∀ {f s}, m.world.fedBy f = some s → m'.world.fedBy f = some s)
  | settles {d : DriverId} (hnone : m'.world.inFlight d = 0)
      (hwaiters : ∀ e, m'.world.waiters e = if d = e then [] else m.world.waiters e)
      (hclaims : m'.world.claims = m.world.claims) (hcalls : ∀ e, m'.world.callsSince e = 0)
      (hbefore : m.phases = [(d, .drain)]) (hafter : m'.phases = [(d, .settle (m.world.waiters d))])
      (hinFlight : ∀ e, m'.world.inFlight e = m.world.inFlight e) (hidle : m.handing = [])
      (hhanding : m'.handing = [])
      (hfed : ∀ {f s}, m.world.fedBy f = some s → m'.world.fedBy f = some s)
      (hpromises : m.world.KeepsPromises m'.world)
  | ends {d : DriverId} (hwaiters : ∀ e, m'.world.waiters e = m.world.waiters e)
      (hclaims : m'.world.claims = none) (hbefore : m.phases = [(d, .drain)])
      (hafter : m'.phases = []) (hnone : m.world.inFlight d = 0) (hempty : m.world.waiters d = [])
      (hinFlight : ∀ e,
        m'.world.inFlight e = m.world.inFlight e - (m.world.claims.getD []).countP fun claim =>
          claim.2.1 = e) (hhanding : m'.handing = [])
      (hfed : ∀ {f s}, m.world.fedBy f = some s → m'.world.fedBy f = some s)
      (hpromises : m.world.KeepsPromises m'.world)
  | resumes {d : DriverId} {x : HandleRef} {waiters : List HandleRef} {fiber : FiberId}
      (h : m.world.SameHosts m'.world) (hbefore : m.phases = [(d, .settle (x :: waiters))])
      (hafter : m'.phases = [(d, .resuming fiber waiters)]) (hidle : m.handing = [])
      (hhanding : m'.handing = []) (hadvance : m.control = .advance)
      (htop : ∃ frames, m.top = .driving d (.settle (x :: waiters)) :: frames)
  /-- A call hands its outcome over, or its future panics. -/
  | completes {d e : DriverId} {turns key : Nat} {x : HandleRef}
      {claims : List (Nat × DriverId × Option HandleRef)}
      (hwaiters : ∀ e, m'.world.waiters e = m.world.waiters e)
      (hclaims : m.world.claims = some claims) (hclaim : (key, e, some x) ∈ claims)
      (hgiven : m'.world.claims = some (claims.map (givenUp key)))
      (hbefore : m.phases = [(d, .poll (turns + 1))]) (hafter : m'.phases = [(d, .poll turns)])
      (hinFlight : ∀ e, m'.world.inFlight e = m.world.inFlight e) (hidle : m.handing = [])
      (hhanding : m'.handing = [(key, e)])
      (halerts : ∀ e, m.world.notified e = true → m'.world.notified e = true)
      (hfed : ∀ {f s}, m.world.fedBy f = some s → m'.world.fedBy f = some s)
      (hpromises : m.world.KeepsPromises m'.world)
  /-- A call is over. -/
  | completed {d e : DriverId} {turns : Nat} (key : Nat)
      (hwaiters : ∀ e, m'.world.waiters e = m.world.waiters e)
      (hclaims : m'.world.claims = m.world.claims.map (·.filter fun claim => claim.1 ≠ key))
      (hbefore : m.phases = [(d, .poll turns)]) (hafter : m'.phases = [(d, .poll turns)])
      (hinFlight : ∀ f,
        m'.world.inFlight f = if e = f then m.world.inFlight f - 1 else m.world.inFlight f)
      (hone : m.handing = [(key, e)]) (hhanding : m'.handing = [])
      (halerts : ∀ f, m.world.notified f = true ∨ (e = f ∧ 0 < m.world.inFlight f) →
        m'.world.notified f = true)
      (hfed : ∀ {f s}, m.world.fedBy f = some s → m'.world.fedBy f = some s)
      (hpromises : m.world.KeepsPromises m'.world)

/-- A driver feeds one scheduler for good. -/
theorem Works.fed (h : Works m m') (hs : m.world.fedBy d = some s) : m'.world.fedBy d = some s := by
  cases h with
  | same hloops => exact hloops.hosts.fed hs
  | goesOn hhosts | resumes hhosts => exact hhosts.fed hs
  | hears hsame hbefore hafter hidle hhanding hfed => exact hfed hs
  | issues | strands | waits | drives | settles | ends | completes | completed =>
    rename_i hfed hpromises
    exact hfed hs

/-- What calls keep for their fibers does not change. -/
theorem Works.keepsPromises (h : Works m m') : m.world.KeepsPromises m'.world := by
  cases h with
  | same hloops => exact hloops.hosts.keepsPromises
  | goesOn hhosts | resumes hhosts => exact hhosts.keepsPromises
  | hears hsame => exact hsame.keepsPromises
  | issues | strands | waits | drives | settles | ends | completes | completed =>
    rename_i hpromises
    exact hpromises

/-- A call that hands over its outcome gives up its claim, and others keep theirs. -/
theorem mem_of_givenUp {key : Nat} {claims : List (Nat × DriverId × Option HandleRef)} :
    ∀ claim ∈ claims.map (givenUp key), ∀ x, claim.2.2 = some x → claim ∈ claims := by
  intro claim member x hx
  obtain ⟨old, hold, rfl⟩ := List.mem_map.1 member
  rw [givenUp] at hx ⊢
  split at hx
  next => cases hx
  next hother => rwa [if_neg hother]

theorem claims_remove (agenda : Agenda) (key : Nat) :
    (agenda.remove key).calls.map HostCall.claim =
      (agenda.calls.map HostCall.claim).filter fun claim => claim.1 ≠ key := by
  rw [Agenda.remove, List.filter_map]
  rfl

/-- What an action means to drivers. -/
theorem Does.works {action : Action} {todo : List Action} {guards : List Datum}
    (hkept : m.world.Sound shown (framesAssets (.actions todo guards :: frames) ++ m.beneath))
    (htop : m.top = .actions (action :: todo) guards :: frames)
    (hplain : PlainStack m.inFiber frames) (hinside : m.world.current.isSome = m.inFiber)
    (hdoes : Does allowed (m.goTo (.actions todo guards :: frames) m.world .advance) m') :
    Works m m' := by
  have hsame : ∀ {w out}, m.world.Shift [] w out → m.world.SameHosts w := fun hshift =>
    (hshift _ hkept.balanced).drift.sameHosts
  have hframes : (.actions todo guards :: frames).filter Frame.isHosting =
      m.top.filter Frame.isHosting := by
    rw [htop]
    rfl
  have hpush : ∀ {frame : Frame} {w : World} (control : Control), frame.isHosting = false →
      m.world.SameHosts w →
      m.SameLoops (m.goTo (frame :: .actions todo guards :: frames) w control) := by
    intro frame w control hframe hworld
    refine .goTo hworld ?_
    rw [List.filter_cons_of_neg (by simp [hframe])]
    exact hframes
  cases hdoes with
  | idle pushed w control hpushed hcode hshift =>
    rw [goTo_goTo, goTo_top]
    refine .same (.goTo (hsame hshift) ?_)
    rw [List.filter_append, filter_isHosting_code hpushed]
    exact hframes
  | @enqueues position s body hallowed hs shown =>
    rw [goTo_goTo, goTo_top]
    exact .same (.goTo ((World.sameHosts_enqueue ..).trans (.emit ..)) hframes)
  | @asks w s max reply hshift =>
    rw [goTo_goTo, goTo_top]
    exact .same ((hpush .advance rfl (hsame hshift)).trans (.run ..))
  | @delivers w s x resumption reply hshift =>
    have hheld := hkept.gain hshift
    obtain ⟨cell, hcell, -⟩ := hheld.balanced.clones_pos (x := x)
      (by simp only [List.cons_append, weigh_cons, cloneOf, if_true]; omega)
    rw [goTo_goTo, goTo_top]
    exact .same ((hpush .advance rfl (hsame hshift)).trans
        (.deliver (Machine.delivers _ s hcell resumption)))
  | @awaits plan current w clones register hplan hcurrent hshift =>
    have hready := hkept.openShown current clones hplan
    have hopened : m.world.SameHosts (openAwait m.world current plan (clones + 1)).2 := by
      refine ⟨⟨fun _ => rfl, fun _ => rfl, rfl, rfl, rfl,
        fun e => (World.callsSince_mark ..).trans (if_neg ?_)⟩, fun _ => id, id⟩
      cases hkind : plan.kind <;> simp_all [AwaitKind.caller?, AwaitKind.isHosted]
    rw [goTo_goTo, goTo_top]
    refine .same (.goTo (hopened.trans (hshift _ hready.balanced).drift.sameHosts) ?_)
    exact hframes
  | @issues d w work plan current agenda huses hplan hd hshift hcurrent hagenda =>
    have hbefore := hsame hshift
    have hopens : m.world.Opens w.handles.next plan (w.issued agenda current d work plan) :=
      .intro current 2 (hshift _ hkept.balanced).drift.noProgress rfl (.of_same rfl rfl rfl rfl)
    have hloops :=
      SameLoops.suspendAwait
      (m.goTo (.actions todo guards :: frames) (w.issued agenda current d work plan)
      .advance) w.handles.next plan
    have hhistory := (suspendAwait_world (m.goTo (.actions todo guards :: frames)
      (w.issued agenda current d work plan) .advance) w.handles.next plan).2.2
    rw [goTo_goTo, goTo_top]
    refine .issues w.callsMade hopens hhistory.symm hplan (fun e => ?_)
      (fun e => ?_) ?_ (fun e => ?_)
      (hloops.phases.trans (phases_goTo hframes)) (hloops.handing.trans (handing_goTo hframes))
      ?_ (fun e he =>
        hloops.hosts.alerts e ?_) ?_ ?_
    · refine (hloops.hosts.inFlight e).trans ?_
      rw [← hbefore.inFlight e]
      exact World.inFlight_issued hd agenda current plan e
    · refine ((hloops.hosts.waiters e).trans ?_).trans (hbefore.waiters e)
      exact World.waiters_updateDriver _ _ _ fun _ => rfl
    · refine hloops.hosts.claims.trans ?_
      rw [← hbefore.claims, World.claims, World.claims, hagenda]
      exact congrArg some (List.map_append ..)
    · refine (hloops.hosts.calls e).trans ?_
      rw [← hbefore.calls e]
      refine (World.callsSince_mark (w.makeHandle current 2).2
          (.opened w.handles.next plan) e).trans ?_
      rw [Happening.countCall, hplan]
      exact if_congr (by simp) rfl rfl
    · rw [← hbefore.claims, World.claims, hagenda]
      rfl
    · exact (World.notified_issued ..).trans (hbefore.alerts e he)
    · exact fun hs => hloops.hosts.fed ((World.steady_issued hagenda d work).fed (hbefore.fed hs))
    · exact (hbefore.keepsPromises.trans
        (World.keepsPromises_issued hagenda current d work plan)).trans hloops.hosts.keepsPromises
  | @strands d w w' work plan current panic hplan hshift hcurrent hagenda hafter =>
    have hbefore := hsame hshift
    have hopened : (openAwait w current plan 2).2.Sound shown
        ((.post w.handles.next :: .kept w.handles.next :: .kept w.handles.next ::
          work.ending.assets) ++ (framesAssets (.actions todo guards :: frames) ++ m.beneath)) := by
      refine ((hkept.gain hshift).openHosted current plan).recount fun f _ => ?_
      simp only [weigh_cons, weigh_append, List.cons_append]
      omega
    have hlater := (hafter _ hopened.balanced).drift.sameHosts
    have hnone : w.claims = none := by rw [World.claims, hagenda]; rfl
    have hpromises : w.KeepsPromises w' :=
      ⟨hlater.keepsPromises.made, hlater.keepsPromises.promises⟩
    rw [goTo_goTo, goTo_top]
    exact .strands (fun e => (hlater.waiters e).trans (hbefore.waiters e))
      (hbefore.claims.symm.trans hnone) (hlater.claims.trans hnone) (phases_goTo hframes)
      (fun e => (hlater.inFlight e).trans (hbefore.inFlight e)) (handing_goTo hframes)
      (fun hs => hlater.fed ((World.steady_openAwait w current plan 2).fed (hbefore.fed hs)))
      (hbefore.keepsPromises.trans hpromises)
  | @waits d plan current huses hplan hd hcurrent =>
    have hopens : m.world.Opens m.world.handles.next plan (m.world.listed current d plan) :=
      .intro current 2 (.refl _) rfl (.of_same rfl rfl rfl rfl)
    have hloops :=
      SameLoops.suspendAwait
      (m.goTo (.actions todo guards :: frames) (m.world.listed current d plan)
      .advance) m.world.handles.next plan
    have hhistory :=
      (suspendAwait_world (m.goTo (.actions todo guards :: frames) (m.world.listed current d plan)
      .advance) m.world.handles.next plan).2.2
    have hlisted : m.world.KeepsPromises (m.world.listed current d plan) := ⟨Nat.le_refl _, .inl⟩
    rw [goTo_goTo, goTo_top]
    refine .waits hopens hhistory.symm hplan (fun e => ?_)
      (fun e => ?_) hloops.hosts.claims (fun e => ?_)
      (hloops.phases.trans (phases_goTo hframes))
      (hloops.handing.trans (handing_goTo hframes)) (fun e he =>
        hloops.hosts.alerts e ?_)
          (fun hs => hloops.hosts.fed ((World.steady_listed m.world d).fed hs))
      (hlisted.trans hloops.hosts.keepsPromises)
    · refine (hloops.hosts.inFlight e).trans ?_
      exact World.inFlight_updateDriver _ _ _ fun _ => rfl
    · refine (hloops.hosts.waiters e).trans ?_
      exact World.waiters_listed hd current plan e
    · refine (hloops.hosts.calls e).trans ?_
      refine (World.callsSince_mark (m.world.makeHandle current 2).2
          (.opened m.world.handles.next plan) e).trans ?_
      rw [Happening.countCall, hplan]
      rfl
    · exact (World.notified_listed ..).trans he
  | drives d hd hcurrent hagenda =>
    have hroot : m.inFiber = false := by
      rw [← hinside]
      exact Option.isSome_eq_false_iff.2 (Option.isNone_iff_eq_none.2 hcurrent)
    rw [goTo_goTo, goTo_top]
    refine .drives d (fun _ => rfl) rfl ?_ ?_ (congrArg (Option.map _) hagenda) (fun _ => rfl) ?_ hd
      (World.steady_openAgenda m.world).fed (.of_none rfl rfl)
    · rw [phases_of_root hroot, ← Frame.filterMap_hosting fun _ =>
        Frame.driving?_of_not_hosting, ← hframes]
      exact (Frame.filterMap_hosting (fun _ => Frame.driving?_of_not_hosting) _).trans
        hplain.filterMap_driving?
    · rw [phases_goTo_of_root hroot, List.filterMap_cons]
      exact congrArg _ hplain.filterMap_driving?
    · rw [handing_goTo_of_root hroot]
      exact hplain.filterMap_completing?
  | @drivers position s hs =>
    rw [goTo_goTo, goTo_top]
    exact .same (.goTo (World.sameHosts_staffed ..) hframes)
  | suspends hallowed hshift hcurrent =>
    rw [goTo_goTo, goTo_top]
    exact .same ((hpush .advance rfl (hsame hshift)).trans (.suspend ..))
  | @makes slot number w hallowed hshift =>
    have hmade : m.world.SameHosts (m.world.makeHandle number 1).2 := .of_same rfl rfl rfl rfl
    rw [goTo_goTo, goTo_top]
    exact .same (.goTo
        (hmade.trans (hshift _ (hkept.makeShown number).balanced).drift.sameHosts) hframes)
  | @parks w x fiber slot keep name owner hallowed hrests hshift =>
    obtain ⟨cell, hcell, -⟩ := (hkept.gain hshift).balanced.clones_pos (x := x)
      (by simp only [List.cons_append, weigh_cons, cloneOf, if_true]; omega)
    have hparks := (World.parks hcell fiber (.caller owner)).sameHosts
    rw [goTo_goTo, goTo_top]
    exact .same ((SameLoops.goTo (hsame hshift) hframes).trans (.parkedByHand hparks))
  | @wakes w x resumption slot keep name owner delivery hallowed hshift =>
    obtain ⟨cell, hcell, -⟩ := (hkept.gain hshift).balanced.clones_pos (x := x)
      (by simp only [List.cons_append, weigh_cons, cloneOf, if_true]; omega)
    have hwakes := (World.wakes hcell (.caller owner) resumption).sameHosts
    rw [goTo_goTo, goTo_top]
    exact .same ((SameLoops.goTo (hsame hshift) hframes).trans (.wokenByHand hwakes))
  | transfers hallowed hrests hshift =>
    rw [goTo_goTo, goTo_top]
    exact .same ((hpush .advance rfl (hsame hshift)).trans (.enter ..))

/-- A call comes to its end: it has given its handle up, whatever is done with the handle. -/
theorem Sound.works_of_handOver (h : m.Sound byHand) {d : DriverId} {turns : Nat} {call : HostCall}
    {x : HandleRef} {work : Work} {agenda : Agenda} (hshift : m.world.Shift [] w [])
    (hagenda : w.agenda = some agenda) (hcall : call ∈ agenda.calls)
    (hstate : call.state = .holding x work) (hphases : m.phases = [(d, .poll (turns + 1))])
    (hidle : m.handing = [])
    (hhosts : World.SameHosts
      { w with agenda := some (agenda.setState call.key .handing) } m'.world)
    (hpolls : m'.phases = [(d, .poll turns)]) (hhanding : m'.handing = [(call.key, call.driver)]) :
    Works m m' := by
  have hbefore := (hshift _ h.kept.balanced).drift.sameHosts
  have hclaims : m.world.claims = some (agenda.calls.map HostCall.claim) := by
    rw [← hbefore.claims, World.claims, hagenda]
    rfl
  have hclaim : (call.key, call.driver, some x) ∈ agenda.calls.map HostCall.claim :=
    List.mem_map.2 ⟨call, hcall, by rw [HostCall.claim, hstate]⟩
  exact .completes (fun e => (hhosts.waiters e).trans (hbefore.waiters e)) hclaims hclaim
    (hhosts.claims.trans (congrArg some (claims_setState agenda call.key))) hphases hpolls
    (fun e => (hhosts.inFlight e).trans (hbefore.inFlight e)) hidle hhanding
    (fun e he => hhosts.alerts e (hbefore.alerts e he))
    (fun hs => hhosts.fed ((World.steady_handOver hagenda call.key).fed (hbefore.fed hs)))
    ((hbefore.keepsPromises.trans (World.keepsPromises_handOver hagenda call.key)).trans
      hhosts.keepsPromises)

/-- What a step means to drivers. -/
theorem Sound.works (h : m.Sound byHand) (hmoves : Moves allowed m m') : Works m m' := by
  have haccepts := h.accepts
  have htail : ∀ {frame : Frame} {frames : List Frame}, m.top = frame :: frames →
      frame.isHosting = false → frames.filter Frame.isHosting = m.top.filter Frame.isHosting := by
    intro frame frames htop hframe
    rw [htop, List.filter_cons_of_neg (by simp [hframe])]
  -- A driver's frame is the only one of its kind at the root.
  have hdriving : ∀ {d : DriverId} {phase : DriverPhase} {frames : List Frame},
      m.top = .driving d phase :: frames → m.inFiber = false ∧ PlainStack false frames ∧
        m.phases = [(d, phase)] ∧ m.handing = [] := by
    intro d phase frames htop
    rw [htop] at haccepts
    obtain ⟨hroot, hplain⟩ := haccepts.of_driving
    refine ⟨hroot, hplain, ?_, ?_⟩
    · rw [phases_of_root hroot, htop, List.filterMap_cons, hplain.filterMap_driving?]
      rfl
    · rw [handing_of_root hroot, htop, List.filterMap_cons, hplain.filterMap_completing?]
      rfl
  have hnext :
      ∀ {d : DriverId} {phase : DriverPhase} {frames : List
      Frame} (phase' : DriverPhase) (w : World)
      (control : Control), m.top = .driving d phase :: frames →
        (m.goTo (.driving d phase' :: frames) w control).phases = [(d, phase')] ∧
          (m.goTo (.driving d phase' :: frames) w control).handing = [] := by
    intro d phase frames phase' w control htop
    obtain ⟨hroot, hplain, -⟩ := hdriving htop
    constructor
    · rw [phases_goTo_of_root hroot, List.filterMap_cons, hplain.filterMap_driving?]
      rfl
    · rw [handing_goTo_of_root hroot, List.filterMap_cons, hplain.filterMap_completing?]
      rfl
  have hover :
      ∀ {d : DriverId} {turns : Nat} {frames : List Frame} {w : World} {control :
      Control} (call : HostCall)
      (fiber : FiberId), m.top = .driving d (.poll (turns + 1)) :: frames →
        (m.goTo (.completing call.driver call.key fiber :: .driving d (.poll turns) :: frames) w
          control).phases = [(d, .poll turns)] ∧
        (m.goTo (.completing call.driver call.key fiber :: .driving d (.poll turns) :: frames) w
          control).handing = [(call.key, call.driver)] := by
    intro d turns frames w control call fiber htop
    obtain ⟨hroot, hplain, -⟩ := hdriving htop
    constructor
    · rw [phases_goTo_of_root hroot, List.filterMap_cons, List.filterMap_cons,
        hplain.filterMap_driving?]
      rfl
    · rw [handing_goTo_of_root hroot, List.filterMap_cons, List.filterMap_cons,
        hplain.filterMap_completing?]
      rfl
  cases hmoves with
  | @acts action todo guards frames _ htop hcontrol hdoes =>
    have hheld : m.world.Sound (fun _ => byHand)
        (framesAssets (.actions todo guards :: frames) ++ m.beneath) := by
      simpa [Frame.assets, Control.assets, hcontrol] using h.kept_of_top htop
    refine hdoes.works hheld htop ?_ h.current_isSome
    · rw [htop, hcontrol] at haccepts
      exact (plainStack_cons.1 haccepts).2
  | @idle frame frames pushed w control htop hlight hpushed hcode hshift =>
    have hheld := h.kept_of_top htop
    refine .same (.goTo (hshift _ hheld.balanced).drift.sameHosts ?_)
    rw [List.filter_append, filter_isHosting_code hpushed, List.nil_append]
    exact htail htop (by cases frame <;> first | rfl | exact hlight.elim)
  | @registered x plan frames w htop hcode hshift =>
    have hloops : m.SameLoops (m.goTo frames w m.control) :=
      .goTo (hshift _ h.kept.balanced).drift.sameHosts (htail htop rfl)
    exact .same (hloops.trans (.suspendAwait ..))
  | @concludes x plan frames resumption htop hcontrol =>
    have hheld := h.kept_of_top htop
    rw [hcontrol] at hheld
    obtain ⟨w, control, heq, hcode, hshift⟩ :=
      concludeAwait_eq (m.goTo frames m.world m.control) x plan resumption
    have hawaited := World.Sound.awaited hheld resumption
    rw [heq, goTo_goTo, goTo_top]
    exact .same (.goTo
      ((World.SameHosts.mark _ (by simp)).trans (hshift _ hawaited.balanced).drift.sameHosts)
      (htail htop rfl))
  | @transferred name slot fiber exit frames htop hcontrol =>
    have hloops : m.SameLoops (m.goTo frames m.world m.control) := .goTo (.refl _) (htail htop rfl)
    exact .same (hloops.trans (.transferred ..))
  | @receives s fiber exit frames htop hcontrol =>
    exact .same (.goTo ((h.receives htop hcontrol).2.sameHosts (h.kept_of_back hcontrol))
        (htail htop rfl))
  | @drains s ran max frames htop hcontrol =>
    have hloops : m.SameLoops (m.goTo frames m.world .advance) := .goTo (.refl _) (htail htop rfl)
    exact .same (hloops.trans (.drain h.kept (Machine.drains ..)))
  | @asksAgain d driver frames htop hcontrol hd =>
    have hloops : m.SameLoops (m.goTo (.driving d .drain :: frames) m.world .advance) :=
      .goTo (.refl _) (by rw [htop])
    exact .same (hloops.trans (.run ..))
  | @goesOn d phase phase' frames w htop hphase hshift hbusy =>
    have hheld := h.kept_of_top htop
    obtain ⟨-, -, hbefore, hidle⟩ := hdriving htop
    obtain ⟨hafter, hhanding⟩ := hnext phase' w .advance htop
    exact .goesOn (hshift _ hheld.balanced).drift.sameHosts hphase hbefore hafter hbusy
      hidle hhanding
  | @hears d frames htop hcontrol =>
    obtain ⟨-, -, hbefore, hidle⟩ := hdriving htop
    obtain ⟨hafter, hhanding⟩ := hnext .drain (m.world.heard d) .advance htop
    exact .hears ⟨fun e => World.inFlight_updateDriver _ _ _ fun _ => rfl,
      fun e => World.waiters_updateDriver _ _ _ fun _ => rfl, rfl, rfl, rfl, fun _ =>
        rfl⟩ hbefore hafter hidle hhanding
      (World.steady_heard m.world d).fed
  | @settles d driver n frames htop hcontrol hd hnone hwaiting =>
    have hwaiters : m.world.waiters d = driver.waiting := by rw [World.waiters, hd]; rfl
    obtain ⟨-, -, hbefore, hidle⟩ := hdriving htop
    have hinFlight : ∀ e, ((m.world.updateDriver d fun driver => { driver with waiting := [] }).tell
        (.settled driver.waiting.length)).inFlight e = m.world.inFlight e :=
      fun e => World.inFlight_updateDriver _ d e
        (g := fun driver => { driver with waiting := [] }) fun _ => rfl
    obtain ⟨hafter, hhanding⟩ :=
      hnext (.settle driver.waiting) ((m.world.updateDriver d fun driver =>
      { driver with waiting := [] }).tell (.settled driver.waiting.length)) .advance htop
    refine .settles ?_ (fun e => ?_) rfl (fun e => ?_) hbefore (hwaiters.symm ▸ hafter) hinFlight
      hidle hhanding
      ((World.steady_updateDriver m.world d (g := fun driver => { driver with waiting := [] })
        fun _ => rfl).trans (World.steady_tell _ _)).fed ⟨Nat.le_refl _, .inl⟩
    · exact (hinFlight d).trans (by rw [World.inFlight, hd]; exact hnone)
    · exact World.waiters_settled ..
    · exact (World.callsSince_tell ..).trans (if_pos rfl)
  | @ends d driver n frames htop hcontrol hd hnone hempty =>
    obtain ⟨hroot, hplain, hphases, -⟩ := hdriving htop
    refine .ends (World.waiters_closeAgenda (m.world.tell .driverIdle))
      (m.world.tell .driverIdle).claims_closeAgenda
      hphases ?_ (by rw [World.inFlight, hd]; exact hnone) (by rw [World.waiters, hd]; exact hempty)
      (World.inFlight_closeAgenda (m.world.tell .driverIdle)) ?_ ?_
      (.of_none (World.callsMade_closeAgenda (m.world.tell .driverIdle))
        (World.promises_closeAgenda (m.world.tell .driverIdle)))
    · rw [phases_goTo_of_root hroot, hplain.filterMap_driving?]
    · rw [handing_goTo_of_root hroot, hplain.filterMap_completing?]
    · exact (World.Steady.trans (World.steady_tell _ _)
          ((h.kept_of_top htop).tell .driverIdle).closeAgenda.2).fed
  | @resumes d driver x rest frames htop hcontrol hd =>
    have hheld := h.kept_of_top htop
    obtain ⟨cell, hcell, -⟩ := hheld.balanced.clones_pos (x := x) (by
      simp only [Frame.assets, List.map_cons, weigh_append, weigh_cons, cloneOf, if_true]
      omega)
    have hdelivers := (m.goTo (.driving d (.resuming (m.world.handleId x) rest) :: frames) m.world
      .advance).delivers driver.scheduler hcell .unit
    have hloops := SameLoops.deliver hdelivers
    obtain ⟨-, -, hbefore, hidle⟩ := hdriving htop
    obtain ⟨hafter, hhanding⟩ := hnext (.resuming (m.world.handleId x) rest) m.world .advance htop
    exact .resumes hloops.hosts hbefore (hloops.phases.trans hafter) hidle
      (hloops.handing.trans hhanding) hcontrol ⟨frames, htop⟩
  | @completes d driver turns call x work outcome agenda frames w htop hcontrol hshift hagenda hcall
    hstate hending hd =>
    have hheld := h.kept_of_top htop
    have hhanded := World.Sound.handOver (hheld.gain hshift) hagenda hcall hstate
    obtain ⟨cell, hcell, -⟩ := hhanded.balanced.clones_pos (x := x) (by
      simp only [weigh_append, weigh_cons, cloneOf, if_true]
      omega)
    have hdelivers := (m.goTo (.completing call.driver call.key (w.handleId x) ::
      .driving d (.poll turns) ::
        frames) { w with agenda := some (agenda.setState call.key .handing) }
        .advance).delivers driver.scheduler hcell outcome
    have hloops := SameLoops.deliver hdelivers
    obtain ⟨-, -, hphases, hidle⟩ := hdriving htop
    obtain ⟨hpolls, hhanding⟩ := hover call _ htop
    exact h.works_of_handOver hshift hagenda hcall hstate hphases hidle hloops.hosts
      (hloops.phases.trans hpolls) (hloops.handing.trans hhanding)
  | @breaks d turns call x work agenda frames w htop hcontrol hshift hagenda hcall hstate =>
    obtain ⟨-, -, hphases, hidle⟩ := hdriving htop
    obtain ⟨hpolls, hhanding⟩ := hover call _ htop
    exact h.works_of_handOver hshift hagenda hcall hstate hphases hidle
      (World.sameHosts_release _ _) hpolls hhanding
  | @completed d key fiber result frames htop hcontrol =>
    obtain ⟨w, heq, hshift⟩ := completed_eq (m.goTo frames m.world m.control) d key fiber result
    have hbefore : m.world.SameHosts w := (hshift _ _ h.kept.balanced).drift.sameHosts
    have hremoved : w.KeepsPromises ((w.updateAgenda fun agenda => agenda.remove key).callOver d) :=
      ⟨(World.keepsPromises_remove w key).made, (World.keepsPromises_remove w key).promises⟩
    rw [htop, hcontrol] at haccepts
    obtain ⟨hroot, ⟨s, hasks⟩, -⟩ := haccepts
    obtain ⟨e, turns, rest, rfl, -, hplain⟩ := hasks.of_completing
    rw [heq, goTo_goTo, goTo_top]
    have hphases : (Frame.driving e (.poll turns) :: rest).filterMap Frame.driving? =
        [(e, .poll turns)] := by
      rw [List.filterMap_cons, hplain.filterMap_driving?]
      rfl
    have hhanding : (Frame.driving e (.poll turns) :: rest).filterMap Frame.completing? = [] := by
      rw [List.filterMap_cons, hplain.filterMap_completing?]
      rfl
    refine .completed key (e := d)
      (fun e => (World.waiters_callOver ..).trans (hbefore.waiters e)) ?_
      (by rw [phases_of_root hroot, htop]; exact hphases)
      (by rw [phases_goTo_of_root hroot]; exact hphases) (fun f => ?_) ?_
      (by rw [handing_goTo_of_root hroot]; exact hhanding) (fun f hf => ?_)
      (fun hs => (World.steady_callOver _ d).fed ((World.steady_remove w key).fed (hbefore.fed hs)))
      (hbefore.keepsPromises.trans hremoved)
    · rw [← hbefore.claims]
      change (w.agenda.map fun agenda => agenda.remove key).map _ = (w.agenda.map _).map _
      rw [Option.map_map, Option.map_map]
      exact congrArg (w.agenda.map ·) (funext fun agenda => claims_remove agenda key)
    · rw [← hbefore.inFlight f]
      exact World.inFlight_callOver ..
    · rw [handing_of_root hroot, htop, List.filterMap_cons, hhanding]
      rfl
    · refine World.notified_callOver _ d f (hf.imp (hbefore.alerts f) (.imp_right fun hpos => ?_))
      rwa [← hbefore.inFlight f] at hpos
  | leaves hrunning htop hcontrol => exact .same (.leave ..)

end Machine

end Fibers
