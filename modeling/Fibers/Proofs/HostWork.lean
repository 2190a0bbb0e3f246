import Fibers.Proofs.Meeting

/-!
Host work and the books. A call holds the handle of its fiber and the outcome
until it hands both over; a driver holds the handles of those who wait for it.
The rules say what becomes of them when a call is issued, completed or dropped,
and when a driver is made, settles or ends its run.
-/

namespace Fibers

open Asset (cloneOf looseOf shareOf postOf taskOf fiberOf)
open Mark (hosts)

namespace World

/-- A host call was issued: it holds the handle that its fiber will wait on. -/
def issued (w : World) (agenda : Agenda) (current : FiberId) (d : DriverId) (work : Work)
    (plan : AwaitPlan) : World :=
  World.updateDriver
    { (Machine.openAwait w current plan 2).2 with
      callsMade := w.callsMade + 1
      agenda := some (agenda.spawn ⟨w.callsMade, d, .holding w.handles.next work⟩) }
    d fun driver => { driver with inFlight := driver.inFlight + 1 }

/-- A driver has a fiber more that waits for its calls. -/
def listed (w : World) (current : FiberId) (d : DriverId) (plan : AwaitPlan) : World :=
  (Machine.openAwait w current plan 2).2.updateDriver d fun driver =>
    { driver with waiting := driver.waiting ++ [w.handles.next] }

/-- A driver has looked for a notification and found one. -/
def heard (w : World) (d : DriverId) : World := w.updateDriver d fun driver =>
    { driver with notified := false }

/-- A position has a new driver. -/
def staffed (w : World) (position : Nat) (s : SchedulerId) : World :=
  { w.own s with
    drivers := w.drivers ++ [Driver.new s]
    positions := w.positions.modify position fun p => { p with driver := some ⟨w.drivers.length⟩ } }

variable {shown : HandleRef → Prop} {w w' : World} {out out' : List Asset} {x : HandleRef}

/-! ### Drivers -/

theorem driver?_updateDriver (w : World) (d e : DriverId) (g : Driver → Driver) :
    (w.updateDriver d g).driver? e = if d = e then (w.driver? e).map g else w.driver? e := by
  obtain ⟨i⟩ := d
  obtain ⟨j⟩ := e
  simp only [driver?, updateDriver, List.getElem?_modify, DriverId.mk.injEq]
  split <;> simp

/-- Who waits for all calls of a driver. -/
def waiters (w : World) (d : DriverId) : List HandleRef := (w.driver? d).elim [] Driver.waiting

theorem waiters_listed {d : DriverId} (hd : (w.driver? d).isSome) (current : FiberId)
    (plan : AwaitPlan) (e : DriverId) :
    (w.listed current d plan).waiters e = if d =
    e then w.waiters e ++ [w.handles.next] else w.waiters e := by
  rw [waiters, listed, driver?_updateDriver]
  split
  next heq =>
    subst heq
    obtain ⟨driver, hdriver⟩ := Option.isSome_iff_exists.1 hd
    rw [waiters, hdriver]
    change ((w.driver? d).map _).elim [] _ = _
    rw [hdriver]
    rfl
  next => rfl

theorem isSome_driver?_updateDriver (w : World) (d e : DriverId) (g : Driver → Driver) :
    ((w.updateDriver d g).driver? e).isSome = (w.driver? e).isSome := by
  rw [driver?_updateDriver]
  split <;> simp

theorem Orderly.updateDriver (h : w.Orderly) (d : DriverId) (g : Driver → Driver) :
    (w.updateDriver d g).Orderly where
  queued := h.queued
  parked := h.parked
  named := h.named
  driven position e he := by
    rw [isSome_driver?_updateDriver]
    exact h.driven position e he

theorem steady_updateDriver (w : World) (d : DriverId) {g : Driver → Driver}
    (hscheduler : ∀ driver, (g driver).scheduler = driver.scheduler) :
    w.Steady (w.updateDriver d g) where
  fed {e s} he := by
    rw [fedBy, driver?_updateDriver] at *
    split
    next => cases hdriver : w.driver? e <;> simp_all
    next => exact he
  handing := id
  current := rfl

/-- What a driver takes in comes from outside, and what it gives up goes there. -/
theorem Sound.updateDriver (h : w.Sound shown out) {d : DriverId} {driver : Driver}
    (hd : w.driver? d = some driver) {g : Driver → Driver}
    (hout : ∀ f, Asset.Fair f →
      weigh f out' + weigh f (g driver).assets = weigh f out + weigh f driver.assets) :
    (w.updateDriver d g).Sound shown out' := by
  refine h.transfer rfl (fun f hf => ?_) (h.orderly.updateDriver d g)
  have := worth_updateDriver hd g f
  have := hout f hf
  omega

/-- Counters of drivers are not in the books. -/
theorem Sound.tuneDriver (h : w.Sound shown out) (d : DriverId) {g : Driver → Driver}
    (hassets : ∀ driver, (g driver).assets = driver.assets) :
    (w.updateDriver d g).Sound shown out := by
  cases hd : w.driver? d with
  | some driver => exact h.updateDriver hd fun f _ => by rw [hassets]
  | none =>
    rw [driver?, List.getElem?_eq_none_iff] at hd
    rwa [World.updateDriver, List.modify_eq_self hd]

theorem Sound.heard (h : w.Sound shown out) (d : DriverId) : (w.heard d).Sound shown out :=
  h.tuneDriver d fun _ => rfl

theorem steady_heard (w : World) (d : DriverId) : w.Steady (w.heard d) :=
  steady_updateDriver w d fun _ => rfl

theorem Sound.callOver (h : w.Sound shown out) (d : DriverId) : (w.callOver d).Sound shown out :=
  h.tuneDriver d fun _ => rfl

theorem steady_callOver (w : World) (d : DriverId) : w.Steady (w.callOver d) :=
  steady_updateDriver w d fun _ => rfl

/-- A position gets a driver, which has a share in the scheduler of the position. -/
theorem Sound.staffed (h : w.Sound shown out) {position : Nat} {s : SchedulerId}
    (hs : w.schedulerAt position = some s) : (w.staffed position s).Sound shown out := by
  have howned : (w.own s).Sound shown ([.share s] ++ out) := h.gain (shift_own w hs)
  have hpositions : ∀ f : Asset → Nat,
      weigh (fun position : Position => weigh f position.assets)
        (w.positions.modify position fun p =>
        { p with driver := some ⟨w.drivers.length⟩ }) =
      weigh (fun position : Position => weigh f position.assets) w.positions := by
    intro f
    cases hplace : w.positions[position]? with
    | none =>
      rw [List.getElem?_eq_none_iff] at hplace
      rw [List.modify_eq_self hplace]
    | some place =>
      have := weigh_modify (fun position : Position => weigh f position.assets)
        (fun p => { p with driver := some ⟨w.drivers.length⟩ }) hplace
      simp only [Position.assets] at this ⊢
      omega
  refine howned.transfer rfl (fun f _ => ?_) ⟨howned.orderly.queued, howned.orderly.parked,
    howned.orderly.named, fun other d hd => ?_⟩
  · have := hpositions f
    simp only [World.staffed, worth, World.own, World.updateScheduler, weigh_append, weigh_cons,
      weigh_nil, Driver.assets, Driver.new, List.map_nil] at this ⊢
    omega
  · rw [driver?, isSome_getElem?]
    simp only [driverAt, World.staffed, List.getElem?_modify] at hd
    cases hplace : w.positions[other]? with
    | none => simp [hplace] at hd
    | some place =>
      have hold := h.orderly.driven other
      simp only [driverAt, hplace, Option.bind_some, driver?, isSome_getElem?] at hold
      by_cases heq : position = other
      · simp only [hplace, heq, if_true, Option.map_eq_map, Option.map_some, Option.bind_some,
          Option.some.injEq] at hd
        subst hd
        simp [World.staffed]
      · simp only [hplace, heq, if_false, Option.map_eq_map, Option.map_some, Option.bind_some]
          at hd
        have := hold d hd
        simp only [World.staffed, List.length_append, List.length_singleton]
        omega

theorem steady_staffed (w : World) (position : Nat) (s : SchedulerId) :
    w.Steady (w.staffed position s) where
  fed {d t} hd := by
    simp only [fedBy, driver?, Option.map_eq_some_iff] at hd ⊢
    obtain ⟨driver, hdriver, hs⟩ := hd
    have hlt : d.index < w.drivers.length := (List.getElem?_eq_some_iff.1 hdriver).1
    exact ⟨driver, by rwa [World.staffed, List.getElem?_append_left hlt], hs⟩
  handing := id
  current := rfl

/-! ### Calls -/

theorem Orderly.of_agenda (h : w.Orderly) (agenda : Option Agenda) (callsMade : Nat) :
    World.Orderly { w with agenda, callsMade } :=
  ⟨h.queued, h.parked, h.named, h.driven⟩

/-- What the calls take in comes from outside, and what they give up goes there. -/
theorem Sound.rebook (h : w.Sound shown out) {agenda : Option Agenda}
    (hkeys : (World.callKeys { w with agenda }).Sublist w.callKeys)
    (hout : ∀ f, Asset.Fair f → weigh f out' + weigh f (agendaAssets agenda) =
      weigh f out + weigh f (agendaAssets w.agenda)) : World.Sound shown
        { w with agenda } out' := by
  refine ⟨h.balanced.rebook hkeys hout, h.orderly.of_agenda _ _, fun y hshown hhosts hshows =>
    h.hidden y hshown hhosts ?_⟩
  have := hout _ (Asset.fair_looseOf y)
  simp only [Shows, worth] at hshows ⊢
  omega

/-- A new call takes the handle of its fiber and the outcome in. -/
theorem Sound.spawn {agenda : Agenda} {work : Work}
    (h : w.Sound shown (.kept x :: (work.ending.assets ++ out))) (hagenda : w.agenda = some agenda)
    (d : DriverId) :
    World.Sound shown { w with
      callsMade := w.callsMade + 1
      agenda := some (agenda.spawn ⟨w.callsMade, d, .holding x work⟩) } out := by
  refine ⟨h.balanced.spawn hagenda, h.orderly.of_agenda _ _, fun y hshown hhosts hshows =>
    h.hidden y hshown hhosts ?_⟩
  have := worth_spawn hagenda d x work (looseOf y)
  simp only [Shows, weigh_cons, weigh_append] at this hshows ⊢
  omega

theorem steady_spawn {agenda : Agenda} (hagenda : w.agenda = some agenda) (d : DriverId)
    (work : Work) :
    w.Steady { w with
      callsMade := w.callsMade + 1
      agenda := some (agenda.spawn ⟨w.callsMade, d, .holding x work⟩) } where
  fed := id
  handing {key} hkey := by
    refine ⟨Nat.lt_succ_of_lt hkey.1, fun later hlater call hcall heq => ?_⟩
    cases hlater
    rcases List.mem_append.1 hcall with hcall | hcall
    · exact hkey.2 agenda hagenda call hcall heq
    · rw [List.mem_singleton] at hcall
      subst hcall
      have := hkey.1
      simp only at heq
      omega
  current := rfl

/-! ### Awaits of host work -/

section Hosted

variable {current : FiberId} {plan : AwaitPlan}

theorem steady_openAwait (w : World) (current : FiberId) (plan : AwaitPlan) (n : Nat) :
    w.Steady (Machine.openAwait w current plan n).2 := .of_same rfl rfl rfl rfl

/-- Both clones of the new handle are kept from the program. -/
theorem Sound.openHosted (h : w.Sound shown out) (current : FiberId) (plan : AwaitPlan) :
    (Machine.openAwait w current plan 2).2.Sound shown
      (.kept w.handles.next :: .kept w.handles.next :: .post w.handles.next :: out) := by
  have hopened : (Machine.openAwait w current plan 2).2.Sound shown
      (.post w.handles.next :: ([.kept w.handles.next, .kept w.handles.next] ++ out)) := by
    refine World.Sound.openAwait (fun y => ?_) (fun f hf => ?_) (fun t => ?_) h current
      plan fun _ => rfl
    · simp only [weigh_cons, weigh_nil, cloneOf]
      split <;> rfl
    · simp [hf.kept]
    · rfl
  refine hopened.recount fun f _ => ?_
  simp only [weigh_cons, List.cons_append, List.nil_append]
  omega

theorem Sound.issued {agenda : Agenda} {work : Work} (h : w.Sound shown (work.ending.assets ++ out))
    (hagenda : w.agenda = some agenda) (d : DriverId) :
    (w.issued agenda current d work plan).Sound shown
      (.kept w.handles.next :: .post w.handles.next :: out) := by
  have hopened : (Machine.openAwait w current plan 2).2.Sound shown (.kept w.handles.next ::
      (work.ending.assets ++ (.kept w.handles.next :: .post w.handles.next :: out))) := by
    refine (h.openHosted current plan).recount fun f _ => ?_
    simp only [weigh_cons, weigh_append]
    omega
  exact (hopened.spawn hagenda d).tuneDriver d fun _ => rfl

theorem steady_issued {agenda : Agenda} (hagenda : w.agenda = some agenda) (d : DriverId)
    (work : Work) : w.Steady (w.issued agenda current d work plan) := by
  have hopened : (Machine.openAwait w current plan 2).2.agenda = some agenda := hagenda
  have hspawn := steady_spawn (x := w.handles.next) hopened d work
  exact ((steady_openAwait w current plan 2).trans hspawn).trans
    (steady_updateDriver _ d fun _ => rfl)

theorem Sound.listed (h : w.Sound shown out) {d : DriverId} (hd : (w.driver? d).isSome) :
    (w.listed current d plan).Sound shown
    (.kept w.handles.next :: .post w.handles.next :: out) := by
  obtain ⟨driver, hdriver⟩ := Option.isSome_iff_exists.1 hd
  have hlisted : (Machine.openAwait w current plan 2).2.driver? d = some driver := hdriver
  refine (h.openHosted current plan).updateDriver hlisted fun f _ => ?_
  simp only [Driver.assets, List.map_append, List.map_cons, List.map_nil, weigh_append,
    weigh_cons, weigh_nil]
  omega

theorem steady_listed (w : World) (d : DriverId) : w.Steady (w.listed current d plan) :=
  (steady_openAwait w current plan 2).trans (steady_updateDriver _ d fun _ => rfl)

end Hosted

/-! ### Outcomes that are handed over -/

private theorem weigh_handing (f : Asset → Nat) {calls : List HostCall} {call : HostCall}
    (hkeys : (calls.map HostCall.key).Pairwise (· < ·)) (hcall : call ∈ calls) :
    weigh f ((calls.map fun other =>
      if other.key = call.key then { other with state := .handing } else other).flatMap
        HostCall.assets) + weigh f call.assets = weigh f (calls.flatMap HostCall.assets) := by
  induction calls with
  | nil => cases hcall
  | cons first rest ih =>
    rw [List.map_cons, List.pairwise_cons] at hkeys
    rcases List.mem_cons.1 hcall with rfl | hcall
    · have hrest : (rest.map fun other =>
          if other.key = call.key then { other with state := .handing } else other) = rest := by
        refine (List.map_congr_left fun other hother => if_neg fun heq => ?_).trans
          (List.map_id rest)
        exact Nat.ne_of_lt (hkeys.1 _ (List.mem_map_of_mem hother)) heq.symm
      have hnone : weigh f (HostCall.assets { call with state := .handing }) = 0 := rfl
      rw [List.map_cons, hrest, if_pos rfl, List.flatMap_cons, List.flatMap_cons, weigh_append,
        weigh_append, hnone]
      omega
    · have hne : first.key ≠ call.key := Nat.ne_of_lt (hkeys.1 _ (List.mem_map_of_mem hcall))
      have := ih hkeys.2 hcall
      simp only [List.map_cons, if_neg hne, List.flatMap_cons, weigh_append]
      omega

/-- A call hands over the handle of its fiber and the outcome. -/
theorem Sound.handOver (h : w.Sound shown out) {agenda : Agenda} {call : HostCall} {work : Work}
    (hagenda : w.agenda = some agenda) (hcall : call ∈ agenda.calls)
    (hstate : call.state = .holding x work) :
    World.Sound shown { w with agenda := some (agenda.setState call.key .handing) }
      (.kept x :: (work.ending.assets ++ out)) := by
  have hassets : call.assets = .kept x :: work.ending.assets := by
    simp only [HostCall.assets, hstate]
  have hkeys := h.balanced.keys
  simp only [callKeys, hagenda, Option.elim_some] at hkeys
  refine h.rebook ?_ fun f _ => ?_
  · simp only [callKeys, hagenda, Option.elim_some, Agenda.setState, List.map_map]
    have hsame : agenda.calls.map (HostCall.key ∘ fun other =>
        if other.key = call.key then { other with state := .handing } else other) =
          agenda.calls.map HostCall.key := by
      refine List.map_congr_left fun other _ => ?_
      simp only [Function.comp_apply]
      split <;> rfl
    rw [hsame]
  · have := weigh_handing f hkeys hcall
    simp only [hassets, weigh_cons] at this
    simp only [agendaAssets, hagenda, Agenda.setState, weigh_cons, weigh_append]
    omega

/-- From then on the call holds nothing. -/
theorem handing_handOver (h : w.Balanced out) {agenda : Agenda} {call : HostCall}
    (hagenda : w.agenda = some agenda) (hcall : call ∈ agenda.calls) :
    World.Handing { w with agenda := some (agenda.setState call.key .handing) } call.key := by
  refine ⟨h.issued call.key ?_, fun later hlater other hother heq => ?_⟩
  · simp only [callKeys, hagenda, Option.elim_some]
    exact List.mem_map_of_mem hcall
  · cases hlater
    obtain ⟨old, -, rfl⟩ := List.mem_map.1 hother
    by_cases hkey : old.key = call.key
    · rw [if_pos hkey]
    · rw [if_neg hkey] at heq
      exact absurd heq hkey

theorem steady_handOver {agenda : Agenda} (hagenda : w.agenda = some agenda) (key : Nat) :
    w.Steady { w with agenda := some (agenda.setState key .handing) } where
  fed := id
  handing {other} hother := by
    refine ⟨hother.1, fun later hlater call hcall heq => ?_⟩
    cases hlater
    obtain ⟨old, hold, rfl⟩ := List.mem_map.1 hcall
    split
    next => rfl
    next hne =>
      rw [if_neg hne] at heq
      exact hother.2 agenda hagenda old hold heq
  current := rfl

/-- A call that has handed over its outcome goes. -/
theorem Sound.remove (h : w.Sound shown out) {key : Nat} (hhanding : w.Handing key) :
    (w.updateAgenda fun agenda => agenda.remove key).Sound shown out := by
  refine h.rebook ?_ fun f _ => ?_
  · cases hagenda : w.agenda with
    | none => exact List.nil_sublist _
    | some agenda =>
      simp only [callKeys, hagenda, Option.map_some, Option.elim_some, Agenda.remove]
      exact List.filter_sublist.map _
  · cases hagenda : w.agenda with
    | none => rfl
    | some agenda =>
      have hassets : ∀ call ∈ agenda.calls, call.key = key → weigh f call.assets = 0 := by
        intro call hcall heq
        rw [HostCall.assets, hhanding.2 agenda hagenda call hcall heq]
        rfl
      simp only [Option.map_some, agendaAssets, Agenda.remove]
      congr 1
      clear hagenda
      generalize agenda.calls = calls at hassets
      induction calls with
      | nil => rfl
      | cons first rest ih =>
        have hrest := ih fun call hcall => hassets call (List.mem_cons_of_mem _ hcall)
        have hfirst := hassets first (List.mem_cons_self ..)
        rw [List.filter_cons]
        split
        next => rw [List.flatMap_cons, List.flatMap_cons, weigh_append, weigh_append, hrest]
        next heq =>
          rw [List.flatMap_cons, weigh_append, hfirst (by simpa using heq), Nat.zero_add, hrest]

theorem steady_remove (w : World) (key : Nat) :
    w.Steady (w.updateAgenda fun agenda => agenda.remove key) where
  fed := id
  handing {other} hother := by
    refine ⟨hother.1, fun later hlater call hcall heq => ?_⟩
    obtain ⟨agenda, hagenda, rfl⟩ := Option.map_eq_some_iff.1 hlater
    exact hother.2 agenda hagenda call (List.mem_filter.1 hcall).1 heq
  current := rfl

/-! ### The end of a run -/

theorem Sound.openAgenda (h : w.Sound shown out) (hagenda : w.agenda = none) :
    World.Sound shown { w with agenda := some .empty } out :=
  h.rebook (List.nil_sublist _) fun f _ => by rw [hagenda]; rfl

theorem steady_openAgenda (w : World) : w.Steady { w with agenda := some .empty } where
  fed := id
  handing {key} hkey := ⟨hkey.1, fun later hlater call hcall => by cases hlater; cases hcall⟩
  current := rfl

/-- Dropping a call does not depend on the calls that are still there. -/
theorem dropCall_aside (w : World) (call : HostCall) :
    { w.dropCall call with agenda := none } = World.dropCall { w with agenda := none } call := by
  have hgrants : ∀ (name : String) (keys : List Nat) (w : World),
      { keys.foldl (fun w key => w.grant name key) w with agenda := none } =
        keys.foldl (fun w key => World.grant w name key) { w with agenda := none } := by
    intro name keys
    induction keys with
    | nil => exact fun w => rfl
    | cons key rest ih => exact fun w => ih (w.grant name key)
  have hsignal : ∀ name permits, { w.signal name permits with agenda := none } =
      World.signal { w with agenda := none } name permits := fun name permits => hgrants name _ _
  have hover : ∀ (w : World), { (w.release call.debris).callOver call.driver with agenda := none } =
      (World.release { w with agenda := none } call.debris).callOver call.driver := by
    intro w
    simp only [release_eq]
    rfl
  simp only [dropCall, hover]
  congr 2
  split
  · rfl
  · exact hsignal _ _
  · rfl

theorem closeAgenda_eq {agenda : Agenda} (hagenda : w.agenda = some agenda) :
    w.closeAgenda = agenda.calls.foldl dropCall { w with agenda := none } := by
  have hfold : ∀ (calls : List HostCall) (w : World),
      { calls.foldl dropCall w with agenda := none } =
      calls.foldl dropCall { w with agenda := none } := by
    intro calls
    induction calls with
    | nil => exact fun w => rfl
    | cons call rest ih =>
      intro w
      simp only [List.foldl_cons, ih, dropCall_aside]
  simp only [closeAgenda, hagenda, hfold]

theorem Sound.dropCall {call : HostCall} (h : w.Sound shown (call.assets ++ out)) :
    (w.dropCall call).Sound shown out ∧ w.Steady (w.dropCall call) := by
  have hleft : ∃ w₁, w.dropCall call = (w₁.release call.debris).callOver call.driver ∧
      w.Shift call.assets w₁ call.assets := by
    simp only [World.dropCall]
    split
    · exact ⟨_, rfl, shift_setSemaphore _ _ _ _⟩
    · exact ⟨_, rfl, shift_signal _ _ _ _⟩
    · exact ⟨_, rfl, .refl w _⟩
  obtain ⟨w₁, heq, hshift⟩ := hleft
  have hdropped : w.Shift call.assets (w₁.release call.debris) [] :=
    hshift.trans (shift_release_of _ (fun f hf => by rw [call.weigh_assets hf]; rfl) fun f =>
      Nat.zero_le _)
  rw [heq]
  exact ⟨(h.shift hdropped).callOver _, (h.drift hdropped).steady.trans (steady_callOver _ _)⟩

/-- The calls that are left are dropped. -/
theorem Sound.closeAgenda (h : w.Sound shown out) :
    w.closeAgenda.Sound shown out ∧ w.Steady w.closeAgenda := by
  cases hagenda : w.agenda with
  | none =>
    simp only [World.closeAgenda, hagenda]
    exact ⟨h, .refl w⟩
  | some agenda =>
    have haside : World.Sound shown { w with agenda := none }
      (agenda.calls.flatMap HostCall.assets ++ out) := by
      refine h.rebook (List.nil_sublist _) fun f _ => ?_
      simp only [hagenda, agendaAssets, weigh_append, weigh_nil]
      omega
    have hfold : ∀ (calls : List HostCall) (w : World),
        w.Sound shown (calls.flatMap HostCall.assets ++ out) →
        (calls.foldl World.dropCall w).Sound shown out ∧
        w.Steady (calls.foldl World.dropCall w) := by
      intro calls
      induction calls with
      | nil => exact fun w h => ⟨h, .refl w⟩
      | cons call rest ih =>
        intro w h
        rw [List.flatMap_cons, List.append_assoc] at h
        obtain ⟨hdropped, hsteady⟩ := h.dropCall
        obtain ⟨hrest, hsteady'⟩ := ih _ hdropped
        exact ⟨hrest, hsteady.trans hsteady'⟩
    have hstripped : w.Steady { w with agenda := none } :=
      { fed := id, handing := fun hkey => ⟨hkey.1, by simp⟩, current := rfl }
    rw [closeAgenda_eq hagenda]
    obtain ⟨hsound, hsteady⟩ := hfold agenda.calls _ haside
    exact ⟨hsound, hstripped.trans hsteady⟩

end World

end Fibers
