import Fibers.Machine.Hosting
import Fibers.Proofs.TwinMachines

/-!
Twin hosts: drivers and their calls in a pair of runs that share the host.
-/

namespace Fibers

open List (Forall₂)

variable {B : Bond} {D : Backdrop} {κ κ' : Ties} {w w' : World} {x x' : HandleRef} {s : SchedulerId}
  {d : DriverId}

theorem rel_find? {α β : Type} {R : α → β → Prop} {p : α → Bool} {q : β → Bool}
    (hsame : ∀ {a b}, R a b → p a = q b) {list : List α} {list' : List β}
    (h : Forall₂ R list list') : Option.Rel R (list.find? p) (list'.find? q) := by
  induction h with
  | nil => exact .none
  | cons hfirst _ ih =>
    rw [List.find?_cons, List.find?_cons, hsame hfirst]
    split
    next => exact .some hfirst
    next => exact ih

/-! ### Agendas -/

namespace Agenda.Twin

variable {agenda agenda' : Agenda}

theorem find? (h : agenda.Twin κ agenda') (key : Nat) :
    Option.Rel (HostCall.Twin κ) (agenda.find? key) (agenda'.find? key) :=
  rel_find? (fun hcall => by rw [hcall.key]) h.calls

theorem spawn (h : agenda.Twin κ agenda') {call call' : HostCall} (hcall : call.Twin κ call') :
    (agenda.spawn call).Twin κ (agenda'.spawn call') :=
  { h with
    calls := List.rel_append h.calls (.cons hcall .nil)
    ready := by rw [Agenda.spawn, Agenda.spawn, h.ready, hcall.key] }

theorem setState (h : agenda.Twin κ agenda') (key : Nat) {state state' : CallState}
    (hstate : state.Twin κ state') :
    (agenda.setState key state).Twin κ (agenda'.setState key state') :=
  { h with
    calls := List.rel_map (fun call call' hcall => by
      obtain ⟨number, driver, old⟩ := call
      obtain ⟨number', driver', old'⟩ := call'
      obtain ⟨hkey, hdriver, hold⟩ := hcall
      cases hkey
      dsimp only
      split
      next => exact ⟨rfl, hdriver, hstate⟩
      next => exact ⟨rfl, hdriver, hold⟩) h.calls }

theorem setWork (h : agenda.Twin κ agenda') (key : Nat) {work work' : Work}
    (hwork : work.Twin κ work') : (agenda.setWork key work).Twin κ (agenda'.setWork key work') :=
  { h with
    calls := List.rel_map (fun call call' hcall => by
      obtain ⟨number, driver, state⟩ := call
      obtain ⟨number', driver', state'⟩ := call'
      obtain ⟨hkey, hdriver, hstate⟩ := hcall
      cases hkey
      cases hstate with
      | handing => exact ⟨rfl, hdriver, .handing⟩
      | holding hx hold =>
        dsimp only
        split
        next => exact ⟨rfl, hdriver, .holding hx hwork⟩
        next => exact ⟨rfl, hdriver, .holding hx hold⟩) h.calls }

theorem remove (h : agenda.Twin κ agenda') (key : Nat) :
    (agenda.remove key).Twin κ (agenda'.remove key) :=
  { h with calls := List.rel_filter (fun _ _ hcall => by simp only [hcall.key]) h.calls }

theorem wake (h : agenda.Twin κ agenda') (key : Nat) :
    (agenda.wake key).Twin κ (agenda'.wake key) :=
  { h with ready := by rw [Agenda.wake, Agenda.wake, h.ready] }

theorem sleep (h : agenda.Twin κ agenda') (key milliseconds : Nat) :
    (agenda.sleep key milliseconds).Twin κ (agenda'.sleep key milliseconds) :=
  { h.setWork key .asleep with
    timers := by rw [Agenda.sleep, Agenda.sleep, h.now, h.timers] }

theorem elapse? (h : agenda.Twin κ agenda') :
    Option.Rel (Agenda.Twin κ) agenda.elapse? agenda'.elapse? := by
  rw [Agenda.elapse?, Agenda.elapse?, ← h.timers]
  split
  next => exact .none
  next => exact .some { h with now := rfl, ready := by rw [h.ready], timers := rfl }

theorem empty (κ : Ties) : Agenda.Twin κ .empty .empty := ⟨rfl, .nil, rfl, rfl⟩

end Agenda.Twin

/-! ### Worlds -/

namespace World.Twin

theorem updateAgenda (h : w.Twin B D κ w') {f f' : Agenda → Agenda}
    (hf : ∀ {agenda agenda'}, Agenda.Twin κ agenda agenda' →
      Agenda.Twin κ (f agenda) (f' agenda')) :
    (w.updateAgenda f).Twin B D κ (w'.updateAgenda f') :=
  { h with
    like := { h.like with
      agenda := fun hhost => by
        have hold := h.like.agenda hhost
        rw [World.updateAgenda, World.updateAgenda]
        generalize w.agenda = agenda at hold
        generalize w'.agenda = agenda' at hold
        cases hold with
        | none => exact .none
        | some hagenda => exact .some (hf hagenda) }
    spares := { h.spares with } }

theorem setAgenda (h : w.Twin B D κ w') {agenda agenda' : Option Agenda}
    (hagenda : Option.Rel (Agenda.Twin κ) agenda agenda') :
    World.Twin B D κ { w with agenda := agenda } { w' with agenda := agenda' } :=
  { h with
    like := { h.like with agenda := fun _ => hagenda }
    spares := { h.spares with } }

theorem updateDriver (h : w.Twin B D κ w') (d : DriverId) (f f' : Driver → Driver)
    (hf : ∀ {driver driver'}, Driver.Twin B κ driver driver' →
      Driver.Twin B κ (f driver) (f' driver')) :
    (w.updateDriver d f).Twin B D κ (w'.updateDriver d f') :=
  { h with
    like := { h.like with
      drivers := fun hhost => by
        have hold := h.like.drivers hhost
        rw [World.updateDriver, World.updateDriver]
        generalize w.drivers = drivers at hold
        generalize w'.drivers = drivers' at hold
        generalize d.index = n
        dsimp only
        induction hold generalizing n with
        | nil => cases n <;> exact .nil
        | cons hfirst hrest ih =>
          cases n with
          | zero => exact .cons (hf hfirst) hrest
          | succ n => exact .cons hfirst (ih n) }
    spares := { h.spares with } }

theorem setSemaphore (h : w.Twin B D κ w') (name : String) (semaphore : Semaphore) :
    (w.setSemaphore name semaphore).Twin B D κ (w'.setSemaphore name semaphore) :=
  { h with
    like := { h.like with
      semaphores :=
        fun hhost => by rw [World.setSemaphore, World.setSemaphore, h.like.semaphores hhost] }
    spares := { h.spares with } }

theorem semaphore_eq (h : w.Twin B D κ w') (hhost : B.mine .host) (name : String) :
    w.semaphore name = w'.semaphore name := by
  rw [World.semaphore, World.semaphore, h.like.semaphores hhost]

theorem driver? (h : w.Twin B D κ w') (hhost : B.mine .host) (d : DriverId) :
    Option.Rel (Driver.Twin B κ) (w.driver? d) (w'.driver? d) := by
  have hall := h.like.drivers hhost
  rw [World.driver?, World.driver?]
  generalize w.drivers = drivers at hall
  generalize w'.drivers = drivers' at hall
  generalize d.index = n
  induction hall generalizing n with
  | nil => exact .none
  | cons hfirst _ ih =>
    cases n with
    | zero => exact .some hfirst
    | succ n => exact ih n

theorem inFlight_eq (h : w.Twin B D κ w') (hhost : B.mine .host) (d : DriverId) :
    w.inFlight d = w'.inFlight d := by
  have hfound := h.driver? hhost d
  rw [World.inFlight, World.inFlight]
  generalize w.driver? d = found at hfound
  generalize w'.driver? d = found' at hfound
  cases hfound with
  | none => rfl
  | some hdriver => exact hdriver.inFlight

theorem grant (h : w.Twin B D κ w') (name : String) (key : Nat) :
    (w.grant name key).Twin B D κ (w'.grant name key) := by
  refine h.updateAgenda fun {agenda agenda'} hagenda => ?_
  have hfound := hagenda.find? key
  generalize agenda.find? key = found at hfound
  generalize agenda'.find? key = found' at hfound
  cases hfound with
  | none => exact hagenda
  | @some call call' hcall =>
    obtain ⟨number, driver, state⟩ := call
    obtain ⟨number', driver', state'⟩ := call'
    obtain ⟨-, -, hstate⟩ := hcall
    cases hstate with
    | handing => exact hagenda
    | holding hx hwork =>
      cases hwork with
      | queued semaphore houtcome => exact (hagenda.setWork key (.granted name houtcome)).wake key
      | sleep | asleep | answer | granted => exact hagenda

theorem signal (h : w.Twin B D κ w') (hhost : B.mine .host) (name : String) (permits : Nat) :
    (w.signal name permits).Twin B D κ (w'.signal name permits) := by
  have hgranted : ∀ (keys : List Nat) {u u' : World}, u.Twin B D κ u' →
      (keys.foldl (fun w key => w.grant name key) u).Twin B D κ
      (keys.foldl (fun w key => w.grant name key) u') := by
    intro keys
    induction keys with
    | nil => exact fun hu => hu
    | cons key keys ih => exact fun hu => ih (hu.grant name key)
  rw [World.signal, World.signal, ← h.semaphore_eq hhost name]
  exact hgranted _ (h.setSemaphore name _)

theorem callOver (h : w.Twin B D κ w') (d : DriverId) : (w.callOver d).Twin B D κ (w'.callOver d) :=
  h.updateDriver d _ _ fun hdriver =>
    { hdriver with inFlight := congrArg (· - 1) hdriver.inFlight, notified := rfl }

theorem dropCall (h : w.Twin B D κ w') (hhost : B.mine .host) {call call' : HostCall}
    (hcall : call.Twin κ call') : (w.dropCall call).Twin B D κ (w'.dropCall call') := by
  have hdebris := hcall.debris
  obtain ⟨key, driver, state⟩ := call
  obtain ⟨key', driver', state'⟩ := call'
  obtain ⟨hkey, hdriver, hstate⟩ := hcall
  cases hkey
  cases hdriver
  rw [World.dropCall, World.dropCall]
  cases hstate with
  | handing => exact (h.release hdebris).callOver driver
  | holding hx hwork =>
    cases hwork with
    | sleep | asleep | answer => exact (h.release hdebris).callOver driver
    | queued name houtcome =>
      dsimp only
      rw [← h.semaphore_eq hhost name]
      exact ((h.setSemaphore name _).release hdebris).callOver driver
    | granted name houtcome => exact ((h.signal hhost name 1).release hdebris).callOver driver

theorem closeAgenda (h : w.Twin B D κ w') (hhost : B.mine .host) :
    w.closeAgenda.Twin B D κ w'.closeAgenda := by
  have hdropped : ∀ {calls calls' : List HostCall}, Forall₂ (HostCall.Twin κ) calls calls' →
      ∀ {u u' : World}, u.Twin B D κ u' →
      (calls.foldl World.dropCall u).Twin B D κ (calls'.foldl World.dropCall u') := by
    intro calls calls' hcalls
    induction hcalls with
    | nil => exact fun hu => hu
    | cons hcall _ ih => exact fun hu => ih (hu.dropCall hhost hcall)
  have hagenda := h.like.agenda hhost
  rw [World.closeAgenda, World.closeAgenda]
  generalize w.agenda = agenda at hagenda
  generalize w'.agenda = agenda' at hagenda
  cases hagenda with
  | none => exact h
  | some hagenda => exact (hdropped hagenda.calls h).setAgenda .none

theorem countCalls (h : w.Twin B D κ w') : World.Twin B D κ { w with callsMade := w.callsMade + 1 }
    { w' with callsMade := w'.callsMade + 1 } :=
  { h with
    like := { h.like with callsMade := fun hhost => congrArg (· + 1) (h.like.callsMade hhost) }
    spares := { h.spares with } }

/-- A shared position gets a new driver. -/
theorem staff (h : w.Twin B D κ w') {position : Nat} (hposition : B.mine (.position position))
    (hhost : B.mine .host) (hat : w.schedulerAt position = some s) :
    World.Twin B D κ
      { w with
        drivers := w.drivers ++ [Driver.new s]
        positions := w.positions.modify position fun p =>
          { p with driver := some ⟨w.drivers.length⟩ } }
      { w' with
        drivers := w'.drivers ++ [Driver.new s]
        positions := w'.positions.modify position fun p =>
          { p with driver := some ⟨w'.drivers.length⟩ } } := by
  have hlength := (h.like.drivers hhost).length_eq
  have hat' : w'.schedulerAt position = some s := (h.like.positions hposition).symm.trans hat
  -- A new driver at a position changes none of the schedulers, and the driver there only.
  have hkept : ∀ (positions : List Position) (d : Option DriverId) (n : Nat),
      ((positions.modify position fun p => { p with driver := d })[n]?).bind Position.scheduler =
      (positions[n]?).bind Position.scheduler := by
    intro positions d n
    rw [List.getElem?_modify]
    split <;> cases positions[n]? <;> rfl
  have hgets : ∀ (positions : List Position) (d : Option DriverId) (n : Nat),
      (positions[position]?).bind Position.scheduler = some s →
      ((positions.modify position fun p => { p with driver := d })[n]?).bind Position.driver =
        if position = n then d else (positions[n]?).bind Position.driver := by
    intro positions d n hpositions
    rw [List.getElem?_modify]
    split
    next heq =>
      subst heq
      cases hfound : positions[position]? with
      | none =>
        rw [hfound] at hpositions
        cases hpositions
      | some p => rfl
    next => cases positions[n]? <;> rfl
  exact { h with
    like := { h.like with
      positions :=
        fun {n} hn =>
        (hkept w.positions _ n).trans ((h.like.positions hn).trans (hkept w'.positions _ n).symm)
      owned := fun {n t} hn ht => h.like.owned hn ((hkept w.positions _ n).symm.trans ht)
      drivers := fun hhost => List.rel_append (h.like.drivers hhost)
        (.cons ⟨rfl, h.like.owned hposition hat, rfl, .nil, rfl⟩ .nil)
      driverAt := fun hhost n => by
        have hold := h.like.driverAt hhost n
        refine (hgets w.positions _ n hat).trans (Eq.trans ?_ (hgets w'.positions _ n hat').symm)
        rw [hlength]
        split
        next => rfl
        next => exact hold }
    spares := { h.spares with
      positions := fun n hn => by
        have hne := h.apart.ne_position hposition hn
        exact (List.getElem?_modify_ne _ _ (Ne.symm hne)).trans (h.spares.positions n hn) } }

end World.Twin

/-! ### Machines -/

namespace Machine.Alike

variable {m m' : Machine}

/-- The driver at a shared position is the same one. -/
theorem withDriver (h : m.Alike B D κ m') (hhost : B.mine .host) (name : String) (position : Nat)
    {use use' : DriverId → Machine} (huse : ∀ d, (use d).Grown B D κ (use' d)) :
    (m.withDriver name position use).Grown B D κ
    (m'.withDriver name position use') := by
  rw [Machine.withDriver, Machine.withDriver, ← h.world.like.driverAt hhost position]
  split
  next => exact (h.lacking _).grown
  next d _ => exact huse d

theorem newDriver (h : m.Alike B D κ m') {position : Nat} (hposition : B.mine (.position position))
    (hhost : B.mine .host) : (m.newDriver position).Alike B D κ (m'.newDriver position) := by
  rw [Machine.newDriver, Machine.newDriver, ← h.world.like.positions hposition]
  split
  next => exact h.lacking _
  next s hat =>
    exact h.withWorld ((h.world.own (h.world.like.owned hposition hat)).staff hposition hhost hat)

theorem issue (h : m.Alike B D κ m') (hhost : B.mine .host) (d : DriverId) {work work' : Work}
    (hwork : work.Twin κ work') {plan : AwaitPlan} (hplan : B.All plan.names) :
    (m.issue d work plan).Grown B D κ (m'.issue d work' plan) := by
  have hagenda := h.world.like.agenda hhost
  have hcurrent := h.world.like.current
  rw [Machine.issue, Machine.issue]
  generalize m.world.currentId = current at hcurrent
  generalize m'.world.currentId = current' at hcurrent
  subst hcurrent
  generalize m.world.agenda = agenda at hagenda
  generalize m'.world.agenda = agenda' at hagenda
  cases current with
  | none => exact ((h.withWorld (h.world.release hwork.ending.debris)).failAwait hplan _).grown
  | some current =>
    obtain ⟨κ', hgrows, hlinked, hworld⟩ := openAwait_twin h.world current plan 2
    have hmade := hwork.mono hgrows
    cases hagenda with
    | none =>
      have hnotified := hworld.updateDriver d (fun driver => { driver with notified := true })
        (fun driver => { driver with notified := true }) fun hdriver =>
        { hdriver with notified := rfl }
      have hreleased :=
        hnotified.release
          (.cons (.handle hlinked)
          (List.rel_append hmade.ending.debris (.cons (.handle hlinked) .nil)))
      exact ⟨κ', hgrows, (h.grow hgrows hreleased).withControl (.panicking _)⟩
    | some _ =>
      have hcall : HostCall.Twin κ' ⟨_, d, .holding _ work⟩ ⟨_, d, .holding _ work'⟩ :=
        ⟨hworld.like.callsMade hhost, rfl, .holding hlinked hmade⟩
      have hcounted :=
        hworld.countCalls.updateDriver d
        (fun driver => { driver with inFlight := driver.inFlight + 1 })
        (fun driver => { driver with inFlight := driver.inFlight + 1 }) fun hdriver =>
          { hdriver with inFlight := congrArg (· + 1) hdriver.inFlight }
      have hissued := hcounted.updateAgenda fun hagenda => hagenda.spawn hcall
      exact ⟨κ', hgrows, (h.grow hgrows hissued).suspendAwait hplan hlinked⟩

theorem awaitAll (h : m.Alike B D κ m') (d : DriverId) {plan : AwaitPlan}
    (hplan : B.All plan.names) : (m.awaitAll d plan).Grown B D κ (m'.awaitAll d plan) := by
  rw [Machine.awaitAll, Machine.awaitAll, ← h.world.like.current]
  split
  next => exact (h.failAwait hplan _).grown
  next current _ =>
    obtain ⟨κ', hgrows, hlinked, hworld⟩ := openAwait_twin h.world current plan 2
    have hlisted := hworld.updateDriver d
      (fun driver =>
        { driver with waiting := driver.waiting ++ [(openAwait m.world current plan 2).1] })
      (fun driver =>
        { driver with waiting := driver.waiting ++ [(openAwait m'.world current plan 2).1] })
      fun hdriver =>
        { hdriver with waiting := List.rel_append hdriver.waiting (.cons hlinked .nil) }
    exact ⟨κ', hgrows, (h.grow hgrows hlisted).suspendAwait hplan hlinked⟩

theorem drive (h : m.Alike B D κ m') (hhost : B.mine .host) (d : DriverId) :
    (m.drive d).Alike B D κ (m'.drive d) := by
  have hagenda := h.world.like.agenda hhost
  rw [Machine.drive, Machine.drive, ← h.world.like.current]
  generalize m.world.agenda = agenda at hagenda
  generalize m'.world.agenda = agenda' at hagenda
  cases hagenda with
  | some _ => exact h.withControl (.panicking _)
  | none =>
    dsimp only
    split
    next => exact h.emit ..
    next =>
      exact ((h.withWorld (h.world.setAgenda (.some (.empty κ)))).push
          (.driving hhost .drain)).advance

theorem complete (h : m.Alike B D κ m') (hhost : B.mine .host) {call call' : HostCall}
    (hcall : call.Twin κ call') (hx : κ.Linked x x') {ending ending' : Ending}
    (hending : ending.Twin κ ending') :
    (m.complete call x ending).Alike B D κ (m'.complete call' x' ending') := by
  have hdriver := h.world.driver? hhost call.driver
  rw [Machine.complete, Machine.complete, ← hcall.driver, ← hcall.key, ← h.world.handleId_eq hx]
  generalize m.world.driver? call.driver = driver at hdriver
  generalize m'.world.driver? call.driver = driver' at hdriver
  cases hdriver with
  | none => exact h
  | some hdriver =>
    dsimp only
    rw [← hdriver.scheduler]
    have hhanding :=
      h.withWorld (h.world.updateAgenda fun hagenda => hagenda.setState call.key .handing)
    have hframe : Frame.Twin B κ (.completing call.driver call.key (m.world.handleId x))
        (.completing call.driver call.key (m.world.handleId x)) := .completing hhost
    have hpushed := hhanding.push hframe
    cases hending with
    | done houtcome => exact hpushed.deliver hdriver.own hx houtcome
    | panicked =>
      exact (hpushed.withWorld (hpushed.world.release (.cons (.handle hx) .nil))).withControl
        (.answer _)

theorem turn (h : m.Alike B D κ m') (hhost : B.mine .host) {call call' : HostCall}
    (hcall : call.Twin κ call') : (m.turn call).Alike B D κ (m'.turn call') := by
  have hwhole := hcall
  obtain ⟨key, driver, state⟩ := call
  obtain ⟨key', driver', state'⟩ := call'
  obtain ⟨hkey, hdriver, hstate⟩ := hcall
  cases hkey
  cases hdriver
  cases hstate with
  | handing => exact h
  | holding hx hwork =>
    cases hwork with
    | asleep => exact h.complete hhost hwhole hx (.done (.unit κ))
    | queued => exact h
    | granted _ hending => exact h.complete hhost hwhole hx hending
    | sleep milliseconds =>
      rw [Machine.turn, Machine.turn]
      dsimp only
      split
      next => exact h.complete hhost hwhole hx (.done (.unit κ))
      next => exact h.withWorld (h.world.updateAgenda fun hagenda => hagenda.sleep key milliseconds)
    | answer wait hending =>
      cases wait with
      | none => exact h.complete hhost hwhole hx hending
      | some name =>
        rw [Machine.turn, Machine.turn]
        dsimp only
        rw [← h.world.semaphore_eq hhost name]
        split
        next => exact (h.withWorld (h.world.setSemaphore name _)).complete hhost hwhole hx hending
        next =>
          exact h.withWorld
            ((h.world.setSemaphore name _).updateAgenda fun hagenda => hagenda.setWork key
              (.queued name hending))

theorem endDrive (h : m.Alike B D κ m') (hhost : B.mine .host) :
    m.endDrive.Alike B D κ m'.endDrive :=
  ((h.withWorld ((h.world.tell .driverIdle).closeAgenda hhost)).emit ..).advance

theorem drained (h : m.Alike B D κ m') (hhost : B.mine .host) (d : DriverId)
    {driver driver' : Driver} (hdriver : driver.Twin B κ driver') :
    (m.drained d driver).Alike B D κ (m'.drained d driver') := by
  have hempties : ∀ {waiting waiting' : List HandleRef}, Forall₂ κ.Linked waiting waiting' →
      waiting.isEmpty = waiting'.isEmpty := by
    intro waiting waiting' hwaiting
    cases hwaiting <;> rfl
  have hempty := hempties hdriver.waiting
  rw [Machine.drained, Machine.drained, ← hdriver.inFlight, ← hempty, ← hdriver.waiting.length_eq]
  split
  next => exact (h.push (.driving hhost .listen)).advance
  next =>
    split
    next => exact h.endDrive hhost
    next =>
      have hcleared := h.world.updateDriver d (fun driver => { driver with waiting := [] })
        (fun driver => { driver with waiting := [] })
        fun hdriver => { hdriver with waiting := .nil }
      have hsettled := hcleared.tell (.settled driver.waiting.length)
      exact ((h.withWorld hsettled).push (.driving hhost (.settle hdriver.waiting))).advance

theorem listen? (h : m.Alike B D κ m') (hhost : B.mine .host) (d : DriverId)
    {driver driver' : Driver} (hdriver : driver.Twin B κ driver')
    {agenda agenda' : Agenda} (hagenda : agenda.Twin κ agenda') :
    Option.Rel (Machine.Alike B D κ) (m.listen? d driver agenda)
      (m'.listen? d driver' agenda') := by
  rw [Machine.listen?, Machine.listen?, ← hdriver.notified, ← hagenda.ready]
  split
  next =>
    have hheard :=
      h.withWorld (h.world.updateDriver d (fun driver => { driver with notified := false })
      (fun driver => { driver with notified := false }) fun hdriver =>
      { hdriver with notified := rfl })
    exact .some (hheard.push (.driving hhost .drain)).advance
  next =>
    split
    next =>
      have helapsed := hagenda.elapse?
      generalize agenda.elapse? = later at helapsed
      generalize agenda'.elapse? = later' at helapsed
      cases helapsed with
      | none => exact .none
      | some hlater =>
        exact .some ((h.withWorld (h.world.setAgenda (.some hlater))).push
            (.driving hhost .listen)).advance
    next => exact .some (h.push (.driving hhost (.poll _))).advance

theorem poll (h : m.Alike B D κ m') (hhost : B.mine .host) (d : DriverId) (turns : Nat)
    {agenda agenda' : Agenda} (hagenda : agenda.Twin κ agenda') :
    (m.poll d turns agenda).Alike B D κ (m'.poll d turns agenda') := by
  have hlistens := (h.push (.driving (d := d) hhost .listen)).advance
  have hready := hagenda.ready
  obtain ⟨now, calls, ready, timers⟩ := agenda
  obtain ⟨now', calls', ready', timers'⟩ := agenda'
  cases hready
  cases turns with
  | zero => exact hlistens
  | succ turns =>
    cases ready with
    | nil => exact hlistens
    | cons key rest =>
      have hrest : Agenda.Twin κ ⟨now, calls, rest, timers⟩ ⟨now', calls', rest, timers'⟩ :=
        { hagenda with ready := rfl }
      have hpushed :=
        ((h.withWorld (h.world.setAgenda (.some hrest))).push
          (.driving (d := d) hhost (.poll turns))).advance
      have hfound := hagenda.find? key
      unfold Machine.poll
      dsimp only
      generalize Agenda.find? ⟨now, calls, key :: rest, timers⟩ key = found at hfound
      generalize Agenda.find? ⟨now', calls', key :: rest, timers'⟩ key = found' at hfound
      cases hfound with
      | none => exact hpushed
      | some hcall => exact hpushed.turn hhost hcall

theorem stepDriver? (h : m.Alike B D κ m') (hhost : B.mine .host) (d : DriverId)
    {phase phase' : DriverPhase} (hphase : phase.Twin κ phase') :
    Option.Rel (Machine.Alike B D κ) (m.stepDriver? d phase) (m'.stepDriver? d phase') := by
  have hdriver := h.world.driver? hhost d
  have hagenda := h.world.like.agenda hhost
  have hcontrol := h.control
  rw [Machine.stepDriver?, Machine.stepDriver?]
  generalize m.world.driver? d = driver at hdriver
  generalize m'.world.driver? d = driver' at hdriver
  generalize m.world.agenda = agenda at hagenda
  generalize m'.world.agenda = agenda' at hagenda
  generalize m.control = control at hcontrol
  generalize m'.control = control' at hcontrol
  cases hdriver with
  | none => exact .none
  | some hdriver =>
    cases hagenda with
    | none => exact .none
    | some hagenda =>
      cases hphase with
      | drain =>
        cases hcontrol with
        | advance =>
          dsimp only
          rw [← hdriver.scheduler]
          exact .some ((h.push (.driving hhost .drain)).run hdriver.own none)
        | answer result =>
          cases result with
          | ok n => exact .some (h.drained hhost d hdriver)
          | error => exact .none
        | raise | panicking | resumed | back => exact .none
      | listen =>
        cases hcontrol with
        | advance => exact h.listen? hhost d hdriver hagenda
        | raise | panicking | resumed | back | answer => exact .none
      | poll turns =>
        cases hcontrol with
        | advance => exact .some (h.poll hhost d turns hagenda)
        | raise | panicking | resumed | back | answer => exact .none
      | settle hwaiters =>
        cases hcontrol with
        | advance =>
          cases hwaiters with
          | nil => exact .some (h.push (.driving hhost .drain)).advance
          | cons hx hrest =>
            dsimp only
            rw [← hdriver.scheduler, ← h.world.handleId_eq hx]
            exact .some ((h.push (.driving hhost (.resuming hrest))).deliver
                hdriver.own hx (.unit κ))
        | raise | panicking | resumed | back | answer => cases hwaiters <;> exact .none
      | resuming hwaiters =>
        cases hcontrol with
        | answer result =>
          cases result with
          | ok n => exact .some (h.push (.driving hhost (.settle hwaiters))).advance
          | error fault =>
            exact .some ((h.withWorld (h.world.tell _)).push
                (.driving hhost (.settle hwaiters))).advance
        | advance | raise | panicking | resumed | back => exact .none

theorem completed (h : m.Alike B D κ m') (d : DriverId) (key : Nat) (fiber : FiberId)
    (result : Except SchedulerFault Nat) :
    (m.completed d key fiber result).Alike B D κ (m'.completed d key fiber result) := by
  have hover : ∀ {u u' : World}, u.Twin B D κ u' →
      World.Twin B D κ ((u.updateAgenda fun agenda => agenda.remove key).callOver d)
      ((u'.updateAgenda fun agenda => agenda.remove key).callOver d) := fun hu =>
    (hu.updateAgenda fun hagenda => hagenda.remove key).callOver d
  cases result with
  | ok n => exact (h.withWorld (hover h.world)).advance
  | error fault => exact (h.withWorld (hover (h.world.tell _))).advance

end Machine.Alike

end Fibers
