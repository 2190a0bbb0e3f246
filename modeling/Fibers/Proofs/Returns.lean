import Fibers.Proofs.Chronicle
import Fibers.Proofs.Pairing

/-!
Foreign calls that come back, and the last error. Whatever calls are made and however they
nest, the last error is the text of the failure that was told last, and none before the
first one. Each kind of call fails in its own cases only, says so by what it returns, and
leaves the last error alone where it succeeds.
-/

namespace Fibers

open World (Adds)

/-- No foreign call came back. -/
def NoneReturned (news : List Happening) : Prop := ∀ happening ∈ news, happening.isReturn = false

theorem unremarkable_noneReturned : Unremarkable NoneReturned where
  nil := List.forall_mem_nil _
  append hfirst hsecond := List.forall_mem_append.2 ⟨hfirst, hsecond⟩
  single _ hreturn := List.forall_mem_singleton.2 hreturn

/-- One foreign call came back. -/
def ReturnsOnce (name : String) (failure : Option Failure) (news : List Happening) : Prop :=
  ∃ before called after, news = before ++ called ++ after ∧
    NoneReturned before ∧ TellsReturn name failure called ∧ NoneReturned after

/-- Wherever it is told that a foreign call came back, it is shown at once what it returned. -/
inductive Reported : List Happening → Prop
  | nil : Reported []
  | other {happening : Happening} {rest : List Happening} (hreturn : happening.isReturn = false)
      (hrest : Reported rest) : Reported (happening :: rest)
  | returned {name : String} {failure : Option Failure} {shown : Happening} {rest : List Happening}
      (hshown : Happening.Shows name failure shown) (hrest : Reported rest) :
      Reported (.mark (.returned name failure) :: shown :: rest)

theorem Reported.append {first second : List Happening} (hfirst : Reported first)
    (hsecond : Reported second) : Reported (first ++ second) := by
  induction hfirst with
  | nil => exact hsecond
  | other hreturn _ ih => exact .other hreturn ih
  | returned hshown _ ih => exact .returned hshown ih

theorem unremarkable_reported : Unremarkable Reported where
  nil := .nil
  append := .append
  single _ hreturn := .other hreturn .nil

theorem TellsReturn.reported {name : String} {failure : Option Failure} {news : List Happening}
    (h : TellsReturn name failure news) : Reported news := by
  obtain ⟨shown, hshows, rfl⟩ := h
  exact .returned hshows .nil

/-- The failure that the answer of a scheduler is to the foreign side. -/
def failureOf : Except SchedulerFault Nat → Option Failure
  | .ok _ => none
  | .error fault => some (.ofFault fault)

/-- The name of the foreign call that asks for an answer. -/
def Reply.foreignName? : Reply → Option String
  | .foreignRun => some "run"
  | .foreignResume name => some name
  | _ => none

/-- How an await of the foreign side fails that is resumed: with an error, or with something
that is no pointer. -/
def Resumption.foreignFailure? : Resumption → Option Failure
  | .error failure => some failure
  | .value (.scalar (.pointer _)) => none
  | .value _ => some (.ofFault (.unexpectedValue PayloadType.pointer.name))

namespace World

variable {a b c d w : World} {name : String} {failure : Option Failure}

/-- The failures of foreign calls, in the order in which the calls came back. -/
def failures (w : World) : List Failure := w.history.toList.filterMap Happening.failure?

theorem lastTold_noneReturned {news : List Happening} (h : NoneReturned news)
    (before : Option String) : lastTold news before = before := by
  have hnone : news.filterMap Happening.failure? = [] :=
    List.filterMap_eq_nil_iff.2 fun happening member => failure?_eq_none (h happening member)
  rw [lastTold, hnone]
  rfl

/-- Before and after the call that comes back no other one does. -/
theorem Adds.returnsOnce (before : a.Adds NoneReturned b)
    (called : b.Adds (TellsReturn name failure) c) (after : c.Adds NoneReturned d) :
    a.Adds (ReturnsOnce name failure) d := by
  obtain ⟨first, hfirst, hnoneReturned, herror⟩ := before
  obtain ⟨second, hsecond, hreturns, herror'⟩ := called
  obtain ⟨third, hthird, hnoneReturned', herror''⟩ := after
  refine ⟨first ++ second ++ third, ?_,
    ⟨first, second, third, rfl, hnoneReturned, hreturns, hnoneReturned'⟩, ?_⟩
  · rw [hthird, hsecond, hfirst]
    simp only [List.append_assoc]
  · rw [herror'', herror', herror, lastTold_append, lastTold_append]

/-- A call that comes back with a failure makes its text the last error, and any other leaves
the last error alone. -/
theorem Adds.lastError (h : a.Adds (ReturnsOnce name failure) b) :
    b.lastError = (failure.map Failure.foreignText).or a.lastError := by
  obtain ⟨_, -, ⟨before, _, after, rfl, hbefore, ⟨shown, hshows, rfl⟩, hafter⟩, herror⟩ := h
  rw [herror, lastTold_append, lastTold_append, lastTold_noneReturned hafter,
    lastTold_noneReturned hbefore]
  cases hshows <;> rfl

theorem disown_own {s : SchedulerId} (h : 0 < w.owners s) : (w.own s).disown s = w := by
  obtain ⟨scheduler, hs, halive⟩ : ∃ scheduler, w.scheduler? s = some scheduler ∧
    0 < scheduler.owners := by
    rw [owners] at h
    cases hs : w.scheduler? s with
    | none => simp [hs] at h
    | some scheduler => exact ⟨scheduler, rfl, by simpa [hs] using h⟩
  have howned : (w.own s).scheduler? s =
      some { scheduler with owners := scheduler.owners + 1 } := by
    rw [own, scheduler?_updateScheduler, if_pos rfl, hs]
    rfl
  rw [disown, howned]
  simp only
  rw [if_neg (by omega), own]
  simp only [updateScheduler, List.modify_modify_eq]
  have hsame : (fun scheduler : Scheduler =>
      { { scheduler with owners := scheduler.owners + 1 } with
        owners := scheduler.owners + 1 - 1 }) = id := rfl
  change { w with
    schedulers := w.schedulers.modify s.index fun scheduler =>
      { { scheduler with owners := scheduler.owners + 1 } with
        owners := scheduler.owners + 1 - 1 } } = w
  rw [hsame, List.modify_id]

end World

namespace Machine

variable {m m' n a b : Machine} {frames : List Frame} {s : SchedulerId} {x : HandleRef}
  {resumption : Resumption} {name : String} {failure : Option Failure} {script : Script}

/-! ### Sessions -/

theorem adds_showOutcome {Q : List Happening → Prop} (hQ : Unremarkable Q) (m : Machine) :
    m.world.Adds Q (Script.showOutcome m) := by
  rw [Script.showOutcome]
  split
  · exact .write _ (hQ.single rfl rfl) rfl
  · exact .write _ (hQ.single rfl rfl) rfl
  · exact .same hQ rfl rfl

/-- From each state of a session to the next, whatever is told to come back is shown, and the
last error follows. -/
theorem Sound.reports (h : m.Sound True) (hfollows : m.Follows m') :
    m.world.Adds Reported m'.world := by
  cases hfollows with
  | steps hstep =>
    obtain ⟨entered, hadds, -⟩ :=
      (World.turns_adds unremarkable_reported TellsReturn.reported).steps h
      (fun _ _ _ _ _ _ => .write _ (.other rfl .nil) rfl) hstep
    exact hadds
  | stirs hstirs =>
    rw [withWorld_world, hstirs.rest]
    exact .same unremarkable_reported rfl rfl
  | goesOn hdone action => exact adds_showOutcome unremarkable_reported m
  | closes hdone =>
    exact .trans unremarkable_reported (adds_showOutcome unremarkable_reported m)
      (World.adds_close unremarkable_reported _)

theorem Leads.reports (h : Leads (fun _ => True) m m') (hm : m.Sound True) :
    m.world.Adds Reported m'.world := by
  have hlater : ∀ {a : Machine}, Leads (fun _ => True) m a → a.Sound True := fun hleads =>
    hm.leads hleads fun _ _ _ _ => trivial
  have htrans : ∀ {u v w : World}, u.Adds Reported v → v.Adds Reported w → u.Adds Reported w :=
    .trans unremarkable_reported
  induction h with
  | refl => exact .same unremarkable_reported rfl rfl
  | steps hleads hstep _ ih => exact htrans ih ((hlater hleads).reports (.steps hstep))
  | stirs hleads hstirs ih => exact htrans ih ((hlater hleads).reports (.stirs hstirs))
  | goesOn hleads hdone action ih =>
    exact htrans ih ((hlater hleads).reports (.goesOn hdone action))
  | closes hleads hdone ih => exact htrans ih ((hlater hleads).reports (.closes hdone))

/-- Throughout a session the last error is the text of the failure that was told last. -/
theorem Visits.lastError (h : Visits (fun _ => True) script.start m) :
    m.world.lastError = m.world.failures.getLast?.map Failure.foreignText ∧
      Reported m.world.history.toList := by
  obtain ⟨action, hleads⟩ := h
  have hbegun : Visits (fun _ => True) script.start (Script.begin script.start action) :=
    ⟨action, .refl⟩
  obtain ⟨news, hnews, hreported, herror⟩ := hleads.reports (hbegun.sound fun _ _ _ _ => trivial)
  have hhistory : m.world.history.toList = news := by
    rw [hnews]
    change script.start.history.toList ++ news = news
    rw [World.history_start]
    rfl
  have hnone : script.start.lastError = none := by
    obtain ⟨_, _, hstart⟩ := script.exists_start
    rw [hstart]
    rfl
  refine ⟨?_, hhistory ▸ hreported⟩
  rw [herror, World.failures, hhistory, lastTold]
  change Option.or _ script.start.lastError = _
  rw [hnone, Option.or_none]

/-! ### Calls that come back -/

/-- A step in which a foreign call comes back, and no other does. -/
structure CallReturns (m : Machine) (name : String) (failure : Option Failure) (m' : Machine) :
    Prop where
  step : m.step? = some m'
  told : m.world.Adds (ReturnsOnce name failure) m'.world
  lastError : m'.world.lastError = (failure.map Failure.foreignText).or m.world.lastError

/-- A foreign call has failed and done nothing else: but for the last error and the history the
world is what it was. -/
structure Refuses (m : Machine) (name : String) (failure : Failure) (m' : Machine) : Prop where
  place : ∃ frames, m' = m.goTo frames m'.world .advance
  told : m.world.Adds (TellsReturn name (some failure)) m'.world
  lastError : m'.world.lastError = some failure.foreignText
  rest : m'.world = { m.world with lastError := m'.world.lastError, history := m'.world.history }

/-- Control is about to make a foreign call. -/
def Calls (m : Machine) (call : Action) : Prop := ∃ action, m.nextAction? = some action ∧
    action.ComesTo m.world call

theorem Calls.step {call : Action} (h : m.Calls call) (hm : m.Sound True)
    (hguard : ∀ value, call ≠ .guard value) :
    ∃ frames, m.step? = some ((m.goTo frames m.world .advance).perform call) := by
  obtain ⟨action, hnext, hcomes⟩ := h
  exact step_of_comesTo hm hnext hcomes hguard

/-- The answer of a scheduler comes back as a code. -/
theorem callReturns_of_answer (ha : a.Sound True) {reply : Reply}
    {result : Except SchedulerFault Nat} (hname : reply.foreignName? = some name)
    (htop : a.top = .answering s reply :: frames) (hcontrol : a.control = .answer result) :
    ∃ b, a.CallReturns name (failureOf result) b := by
  have hreport : ∃ w, a.world.ComesBack name (failureOf result) w ∧
      (a.goTo frames a.world (.answer result)).reportCall s reply result =
      a.goTo frames (w.disown s) .advance := by
    cases reply with
    | foreignRun =>
      cases hname
      cases result with
      | ok ran => exact ⟨_, .code "run" ran, by
          simp only [reportCall, foreignAnswer, foreignOk, goTo_advance, goTo_withWorld,
            goTo_world, goTo_emit]⟩
      | error fault => exact ⟨_, .refused "run" (.ofFault fault), by
          simp only [reportCall, foreignAnswer, foreignFailed, goTo_advance, goTo_withWorld,
            goTo_world, goTo_emit]⟩
    | foreignResume called =>
      cases hname
      cases result with
      | ok ran => exact ⟨_, .code name 0, by
          simp only [reportCall, foreignOk, goTo_advance, goTo_withWorld, goTo_world, goTo_emit]⟩
      | error fault => exact ⟨_, .refused name (.ofFault fault), by
          simp only [reportCall, foreignAnswer, foreignFailed, goTo_advance, goTo_withWorld,
            goTo_world, goTo_emit]⟩
    | run | resume | directResume => cases hname
  obtain ⟨w, hcomes, hreport⟩ := hreport
  have htold : a.world.Adds (ReturnsOnce name (failureOf result)) (w.disown s) :=
    .returnsOnce (.same unremarkable_noneReturned rfl rfl) (.comesBack hcomes)
      (.disown unremarkable_noneReturned w s)
  refine ⟨a.goTo frames (w.disown s) .advance, ?_, htold, htold.lastError⟩
  rw [ha.step?_of_top htop, hcontrol]
  exact congrArg some hreport

/-- What comes of a run that the foreign side asks for: inside a fiber it is refused, and at the
root it comes back with the number of entries that it ran. -/
structure RunFares (m : Machine) (s : SchedulerId) : Prop where
  inside {running : Running} {below : List Running} (hrunning : m.running = running :: below) :
    ∃ n m', m.step? = some n ∧ n.step? = some m' ∧
      m.Refuses "run" (.ofFault (.reentrant running.id)) m'
  atRoot (hrunning : m.running = []) : ∃ n m' frames, m.Readies n ∧
    n.top = .answering s .foreignRun :: frames ∧
    m.step? = some m' ∧ ∀ a result, Runs n.root m' a → n.Answers a result →
      ∃ b, a.CallReturns "run" none b

theorem top_of_answers {result : Except SchedulerFault Nat} (h : n.Answers a result) :
    a.top = n.top := by
  rw [top, h.running, h.root, top]

theorem Sound.runFares {position : Nat} {max : Option Nat} (hm : m.Sound True)
    (hcalls : m.Calls (.foreignRun position max)) (hs : m.world.schedulerAt position = some s) :
    m.RunFares s := by
  obtain ⟨frames, hstep⟩ := hcalls.step hm nofun
  let n := m.goTo (.answering s .foreignRun :: frames) (m.world.own s) .advance
  have hready : m.Readies n := ⟨⟨_, _, rfl⟩, rfl⟩
  have hn : n.top = .answering s .foreignRun :: frames := goTo_top ..
  have hasks : m.step? = some (n.run s max) := by
    rw [hstep, perform, runLoop, withScheduler, goTo_world, hs]
    simp only [goTo_withWorld, goTo_push]
    rfl
  constructor
  · intro running below hrunning
    have hlevels : ∃ top, n.running = top :: below ∧ top.id = running.id := by
      obtain ⟨world, levels, root, control⟩ := m
      cases hrunning
      exact ⟨_, rfl, rfl⟩
    obtain ⟨top, hinside, hid⟩ := hlevels
    have hrefused := run_refused (hready.currentId hm) hinside s max
    obtain ⟨scheduler, hscheduler, halive⟩ := hm.kept.balanced.schedulerAt_alive hs
    have howners : 0 < m.world.owners s := by rwa [World.owners, hscheduler]
    let failure : Failure := .ofFault (.reentrant running.id)
    let w := (m.world.foreignFailed "run" failure).emit "run"
      (.record [("code", .int (-1)),
        ("last_error", (m.world.foreignFailed "run" failure).lastErrorDatum)])
    have hcomes : m.world.ComesBack "run" (some failure) w := .refused "run" failure
    have hgivenBack : (w.own s).disown s = w := World.disown_own howners
    refine ⟨_, m.goTo frames w .advance, hasks, ?_, ⟨frames, rfl⟩, .comesBack hcomes, rfl, rfl⟩
    rw [(hm.step hasks).step?_eq, hrefused, hn, goTo_goTo, move?_of_top _ (goTo_top ..),
      goTo_control, hid]
    simp only [goTo_goTo, goTo_world]
    rw [← hgivenBack]
    simp only [react?, goTo_control, reportCall, foreignAnswer, foreignFailed, goTo_advance,
      goTo_withWorld, goTo_world, goTo_emit]
    rfl
  · intro hrunning
    have houtside : n.running = [] := by
      obtain ⟨world, levels, root, control⟩ := m
      cases hrunning
      rfl
    have hnone : n.world.currentId = none := by rw [hready.currentId hm, houtside]; rfl
    have hsound := hm.step hasks
    have hruns : n.run s max = (n.push (.draining s 0 max)).advance := by rw [Machine.run, hnone]
    have hloop : (n.run s max).Looping s 0 max n.root := by
      refine .inl ?_
      rw [hruns, push, houtside]
      rfl
    refine ⟨n, _, frames, hready, hn, hasks, fun a result hruns hanswers => ?_⟩
    obtain ⟨served, arrived, -, -, hlooping | ⟨hreturned, -⟩⟩ :=
      hloop.serviced hsound (fun _ _ => Nat.zero_le _) hruns
    · exact absurd hanswers.root hlooping.root_ne
    · have hok : n.Answers a (.ok (0 + served.length)) :=
        ⟨hreturned.running.trans houtside.symm, hreturned.root, hreturned.control⟩
      exact callReturns_of_answer (hruns.sound hsound) rfl
        ((top_of_answers hanswers).trans hn) hok.control

/-- While a run is under way, nothing at the root comes back. -/
theorem Looping.noneReturned {ran : Nat} {max : Option Nat} {rest : List Frame}
    (hloop : a.Looping s ran max rest) (ha : a.Sound True) (hrunning : a.running = [])
    (hstep : a.step? = some b) : a.world.Adds NoneReturned b.world := by
  have hrounds := World.rounds_adds unremarkable_noneReturned
  rcases hloop.atRoot ha hrunning with ⟨htop, hcontrol⟩ | ⟨htop, fiber, exit, hcontrol⟩
  · obtain ⟨entered, hadds, -⟩ := hrounds.drains ha htop hcontrol hstep
    exact hadds
  · obtain ⟨entered, hadds, -⟩ := hrounds.takesBack ha htop hcontrol hstep
    exact hadds

/-- What comes of a resumption on behalf of the foreign side, which is made in `n`. -/
structure ResumeFares (m n : Machine) (s : SchedulerId) (x : HandleRef) (name : String)
    (resumption : Resumption) : Prop extends Delivering m n s x name resumption where
  /-- The state of the handle says whether it fails. -/
  refused {cell : HandleCell} (hcell : n.world.handles.get? x = some cell) {a : Machine}
    {result : Except SchedulerFault Nat} (hruns : Runs n.root (n.deliver s x resumption) a)
    (hanswers : n.Answers a result) :
    failureOf result = none ↔ cell.slot = .pending ∨ ∃ fiber,
      cell.slot = .parked fiber (.scheduler s)
  /-- It comes back with the answer. The last error is then the text of the failure that was told
  last in the meantime, or what it was if there was none. -/
  returns {a : Machine} {result : Except SchedulerFault Nat}
    (hruns : Runs n.root (n.deliver s x resumption) a) (hanswers : n.Answers a result) :
    ∃ b, a.CallReturns name (failureOf result) b ∧ m.world.Adds Reported b.world
  /-- Whatever else comes back before it does so inside of fibers. -/
  inFibers {a b : Machine} (hruns : Runs n.root (n.deliver s x resumption) a)
    (habove : a.root ≠ n.root) (hrunning : a.running = []) (hstep : a.step? = some b) :
    a.world.Adds NoneReturned b.world

theorem Runs.leads {rest : List Frame} (hruns : Runs rest m a) : Leads (fun _ => True) m a := by
  induction hruns with
  | refl => exact .refl
  | step _ _ hstep ih => exact ih.steps hstep fun _ _ => trivial

theorem failureOf_eq_none {result : Except SchedulerFault Nat} : failureOf result = none ↔
    ∃ ran, result = .ok ran := by
  cases result with
  | ok ran => exact ⟨fun _ => ⟨ran, rfl⟩, fun _ => rfl⟩
  | error fault => exact ⟨nofun, nofun⟩

theorem Delivering.inFibers (h : m.Delivering n s x name resumption) (hm : m.Sound True)
    (hready : m.Readies n) (hruns : Runs n.root (n.deliver s x resumption) a)
    (habove : a.root ≠ n.root) (hrunning : a.running = []) (hstep : a.step? = some b) :
    a.world.Adds NoneReturned b.world := by
  obtain ⟨cell, hcell, -⟩ := h.made
  have hsound := hm.step h.step
  -- a call that is answered at once has nothing above it
  have hatOnce : ∀ result, ¬n.Answers (n.deliver s x resumption) result := fun result hanswers =>
    habove (by rw [hruns.eq_of_root hanswers.root, hanswers.root])
  have haccepted : cell.slot = .pending ∨ ∃ fiber, cell.slot = .parked fiber (.scheduler s) := by
    by_contra hrefused
    obtain ⟨fault, heq, -⟩ := (resumption_fares hm hready h.step hcell).refused hrefused
    exact hatOnce _ (heq ▸ n.answers_goTo ..)
  have hnow : ¬(n.world.current.isSome ∨ cell.slot = .pending) := fun hnow =>
    hatOnce _ (deliver_accepted hcell haccepted hnow resumption)
  rw [not_or, Option.not_isSome_iff_eq_none] at hnow
  obtain ⟨fiber, hparked⟩ := haccepted.resolve_left hnow.2
  have houtside : n.running = [] := by
    have hid := hready.currentId hm
    rw [World.currentId, hnow.1] at hid
    exact List.head?_eq_none_iff.1 (Option.map_eq_none_iff.1 hid.symm)
  obtain ⟨-, hloop, -⟩ := deliver_begins hsound houtside hnow.1 hcell hparked
  obtain ⟨served, arrived, -, -, hlooping | ⟨hreturned, -⟩⟩ :=
    hloop.serviced hsound (fun _ _ => Nat.zero_le _) hruns
  · exact hlooping.noneReturned (hruns.sound hsound) hrunning hstep
  · exact absurd hreturned.root habove

theorem Passes.resumeFares (h : m.Passes s x name resumption) (hm : m.Sound True) :
    ∃ n, m.ResumeFares n s x name resumption := by
  obtain ⟨n, hdelivering⟩ := h.delivering hm
  obtain ⟨frames, w, hn⟩ := hdelivering.call
  have hready : m.Readies n := ⟨⟨_, w, hn⟩, hdelivering.current⟩
  have htop : n.top = .answering s (.foreignResume name) :: frames := by rw [hn, goTo_top]
  refine ⟨n, hdelivering, fun {cell} hcell {a result} hruns hanswers => ?_,
    fun {a result} hruns hanswers => ?_, hdelivering.inFibers hm hready⟩
  · have hfares :=
      (resumption_fares hm hready hdelivering.step hcell).answer a result hruns hanswers
    exact failureOf_eq_none.trans hfares.2.2
  · obtain ⟨b, hreturns⟩ := callReturns_of_answer (hruns.sound (hm.step hdelivering.step)) rfl
      ((top_of_answers hanswers).trans htop) hanswers.control
    have hleads : Leads (fun _ => True) m a :=
      (Leads.refl.steps hdelivering.step fun _ _ => trivial).trans hruns.leads
    exact ⟨b, hreturns, (hleads.steps hreturns.step fun _ _ => trivial).reports hm⟩

/-- Control is about to pass something to a null handle. -/
inductive PassesNull (m : Machine) : String → Prop
  | pointer {position : Nat} {slot : Option String} {keep : Bool} {value : Nat} {s : SchedulerId}
      (hcalls : m.Calls (.foreignResume position slot keep value))
      (hs : m.world.schedulerAt position = some s)
      (hnull : foreignHandle? m.world slot keep = none) : PassesNull m "resume"
  | message {position : Nat} {slot : Option String} {keep : Bool} {message : Option (List UInt8)}
      {s : SchedulerId} (hcalls : m.Calls (.foreignError position slot keep message))
      (hs : m.world.schedulerAt position = some s)
      (hnull : foreignHandle? m.world slot keep = none) : PassesNull m "resume_error"

theorem refuses_null (m : Machine) (frames : List Frame) (name : String) (s : SchedulerId)
    {slot : Option String} {keep : Bool} (hnull : foreignHandle? m.world slot keep = none)
    (resumption : Resumption) :
    m.Refuses name (.ofMessage "null fiber handle")
      ((m.goTo frames m.world .advance).foreignResume name s slot keep resumption) := by
  have hcomes : m.world.ComesBack name (some (.ofMessage "null fiber handle")) _ := .refused name _
  rw [foreignResume, goTo_world, hnull]
  simp only [foreignFailed, goTo_world, goTo_withWorld, goTo_emit]
  exact ⟨⟨frames, rfl⟩, .comesBack hcomes, rfl, rfl⟩

theorem PassesNull.refuses (h : m.PassesNull name) (hm : m.Sound True) :
    ∃ m', m.step? = some m' ∧ m.Refuses name (.ofMessage "null fiber handle") m' := by
  cases h with
  | pointer hcalls hs hnull =>
    obtain ⟨frames, hstep⟩ := hcalls.step hm (by rintro _ ⟨⟩)
    rw [perform, withScheduler, goTo_world, hs] at hstep
    exact ⟨_, hstep, refuses_null m frames _ _ hnull _⟩
  | message hcalls hs hnull =>
    obtain ⟨frames, hstep⟩ := hcalls.step hm (by rintro _ ⟨⟩)
    rw [perform, withScheduler, goTo_world, hs] at hstep
    exact ⟨_, hstep, refuses_null m frames _ _ hnull _⟩

/-- What comes of an await of the foreign side: outside of fibers it fails, and inside it does
not come back yet. -/
structure AwaitFares (m : Machine) : Prop where
  atRoot (hrunning : m.running = []) : ∃ m', m.step? = some m' ∧
    m.Refuses "await" (.ofFault .notInFiber) m'
  inside (hrunning : m.running ≠ []) : ∃ m', m.step? = some m' ∧ m.world.Adds NoneReturned m'.world

theorem Sound.awaitFares {slot : String} {register : List Action} (hm : m.Sound True)
    (hcalls : m.Calls (.foreignAwait slot register)) : m.AwaitFares := by
  obtain ⟨frames, hstep⟩ := hcalls.step hm nofun
  rw [perform, foreignAwait, goTo_world] at hstep
  have hcurrent : m.world.currentId = m.running.head?.map Running.id := by
    rw [World.currentId, hm.current, Option.map_map]
    rfl
  constructor
  · intro hrunning
    rw [hrunning] at hcurrent
    rw [show m.world.currentId = none from hcurrent] at hstep
    simp only [failAwait, AwaitPlan.foreign, goTo_world, goTo_withWorld, goTo_emit, goTo_advance]
      at hstep
    have hcomes : m.world.ComesBack "await" (some (.ofFault .notInFiber)) _ := .null _
    exact ⟨_, hstep, ⟨frames, rfl⟩, .comesBack hcomes, rfl, rfl⟩
  · intro hrunning
    obtain ⟨running, below, hlevels⟩ := List.exists_cons_of_ne_nil hrunning
    rw [hlevels] at hcurrent
    rw [show m.world.currentId = some running.id from hcurrent] at hstep
    refine ⟨_, hstep, ?_⟩
    simp only [advance_world, push_world, withWorld_world]
    have hmade : m.world.Adds NoneReturned
        (m.world.makeHandle running.id (m.world.hoarded + 2)).2 :=
      .same unremarkable_noneReturned rfl rfl
    have hopened : m.world.Adds NoneReturned
        (openAwait m.world running.id .foreign (m.world.hoarded + 2)).2 :=
      .trans unremarkable_noneReturned hmade (.mark unremarkable_noneReturned _ rfl)
    exact .trans unremarkable_noneReturned hopened (.same unremarkable_noneReturned rfl rfl)

/-- A task whose await is resumed gets a pointer, or null with the text of the failure. -/
theorem callReturns_of_resumed (hm : m.Sound True) (htop : m.top = .awaiting x .foreign :: frames)
    (hcontrol : m.control = .resumed resumption) :
    ∃ m', m.CallReturns "await" resumption.foreignFailure? m' := by
  have hmarked : m.world.Adds NoneReturned (m.world.mark (.awaited x resumption)) :=
    .mark unremarkable_noneReturned _ rfl
  have hreturns : ∀ {u w failure}, (m.world.mark (.awaited x resumption)).Adds NoneReturned u →
      u.ComesBack "await" failure w →
      (m.goTo frames m.world (.resumed resumption)).concludeAwait x .foreign resumption =
        m.goTo frames w .advance →
        ∃ m', m.CallReturns "await" failure m' := fun {u w failure} hbefore hcomes hconcludes => by
    have htold : m.world.Adds (ReturnsOnce "await" failure) w :=
      .returnsOnce (.trans unremarkable_noneReturned hmarked hbefore) (.comesBack hcomes)
        (.same unremarkable_noneReturned rfl rfl)
    refine ⟨m.goTo frames w .advance, ?_, htold, htold.lastError⟩
    rw [hm.step?_of_top htop, hcontrol]
    exact congrArg some hconcludes
  have hsame : ∀ u : World, u.Adds NoneReturned u :=
    fun u => .same unremarkable_noneReturned rfl rfl
  have hother : ∀ payload, resumption = .value payload → payload.type ≠ .pointer →
      ∃ m', m.CallReturns "await"
        (some (.ofFault (.unexpectedValue PayloadType.pointer.name))) m' := by
    rintro payload rfl htype
    refine hreturns (.release unremarkable_noneReturned _ payload.debris) (.null _) ?_
    simp only [concludeAwait, goTo_world, goTo_withWorld]
    rw [if_neg (show payload.type ≠ AwaitPlan.foreign.expects from htype)]
    simp only [failAwait, AwaitPlan.foreign, goTo_world, goTo_withWorld, goTo_emit, goTo_advance]
  cases resumption with
  | error failure =>
    refine hreturns (hsame _) (.null failure) ?_
    simp only [concludeAwait, failAwait, AwaitPlan.foreign, goTo_world, goTo_withWorld,
      goTo_emit, goTo_advance]
  | value payload =>
    cases payload with
    | handle y => exact hother _ rfl (by simp [Payload.type])
    | scalar value =>
      cases value with
      | pointer value =>
        refine hreturns (hsame _) (.pointer value) ?_
        simp only [concludeAwait, goTo_world, goTo_withWorld]
        rw [if_pos (show Payload.type (.scalar (.pointer value)) =
            AwaitPlan.foreign.expects from rfl)]
        simp only [yieldAwait, AwaitPlan.foreign, yieldPointer, goTo_world, goTo_withWorld,
          goTo_emit, goTo_advance]
      | unit | bool | number | char | literal | string | vec | opt | pair =>
        exact hother _ rfl (by simp [Payload.type, Scalar.type])

/-! ### The last error -/

theorem rel_foreignText (failure : Option Failure) :
    Option.Rel (fun failure text => Text.Spaced failure.oneLine text) failure
      (failure.map Failure.foreignText) := by
  cases failure with
  | none => exact .none
  | some failure => exact .some (Text.spaced_withoutNul failure.oneLine)

/-- Asking for the last error shows it. -/
theorem Calls.showsLastError (h : m.Calls .lastError) (hm : m.Sound True) :
    ∃ m', m.step? = some m' ∧
      m'.world = m.world.emit "last_error" (.ofOption .text m.world.lastError) := by
  obtain ⟨frames, hstep⟩ := h.step hm nofun
  exact ⟨_, hstep, rfl⟩

/-- Whatever calls the foreign side makes, from the root or from fibers, the last error is
none before the first failure comes back, and from then on the text of the failure that came
back last, with a space for each zero character and every other character as it is. A run
fails inside of fibers, a resumption where its handle is null or was used or is parked
elsewhere, an await outside of fibers or where it is resumed with an error, and nothing else
fails. What fails shows so, and in the first cases has done nothing else. What succeeds
leaves the last error alone, so that after a resumption at the root it is the text of the
last failure in the fibers which that ran, or what it was if there was none. -/
theorem last_error_is_of_the_last_failure (h : Visits (fun _ => True) script.start m) :
    (m.world.lastError = m.world.failures.getLast?.map Failure.foreignText ∧
        Option.Rel (fun failure text => Text.Spaced failure.oneLine text)
          m.world.failures.getLast? m.world.lastError ∧
        (∀ failure : Failure, Text.Spaced failure.oneLine failure.foreignText) ∧
        Reported m.world.history.toList) ∧
      (m.Calls .lastError →
        ∃ m', m.step? = some m' ∧
          m'.world = m.world.emit "last_error" (.ofOption .text m.world.lastError)) ∧
      (∀ m', Leads (fun _ => True) m m' → m.world.Adds Reported m'.world) ∧
      (∀ position max s, m.Calls (.foreignRun position max) →
        m.world.schedulerAt position = some s → m.RunFares s) ∧
      (∀ name, m.PassesNull name → ∃ m', m.step? = some m' ∧
        m.Refuses name (.ofMessage "null fiber handle") m') ∧
      (∀ s x name resumption, m.Passes s x name resumption →
        ∃ n, m.ResumeFares n s x name resumption) ∧
      (∀ slot register, m.Calls (.foreignAwait slot register) → m.AwaitFares) ∧
      ∀ x frames resumption, m.top = .awaiting x .foreign :: frames →
        m.control = .resumed resumption →
        ∃ m', m.CallReturns "await" resumption.foreignFailure? m' := by
  have hm : m.Sound True := h.sound fun _ _ _ _ => trivial
  obtain ⟨hlast, hreported⟩ := h.lastError
  exact ⟨⟨hlast, hlast ▸ rel_foreignText _, fun failure => Text.spaced_withoutNul
    failure.oneLine, hreported⟩, fun hcalls => hcalls.showsLastError hm, fun m' hleads =>
      hleads.reports hm,
    fun position max s hcalls hs => hm.runFares hcalls hs, fun name hpasses => hpasses.refuses hm,
    fun s x name resumption hpasses => hpasses.resumeFares hm, fun slot register hcalls =>
      hm.awaitFares hcalls,
    fun x frames resumption htop hcontrol => callReturns_of_resumed hm htop hcontrol⟩

/-- A task awaits and asks for a run, and its handle is passed an error at the root; then null
is passed. -/
def failTwice : Action :=
  .again 1 [.enqueue 0 [.foreignAwait "h" [], .foreignRun 0 none], .foreignRun 0 none,
    .foreignError 0 (some "h") false none, .foreignResume 0 none false 7]

/-- The state of that program after some steps, with one scheduler. -/
def failing (steps : Nat) : Machine := (Script.begin Script.single.start failTwice).settle steps

/-- The task fails twice while the handle is passed an error, and the null handle fails last,
which touches nothing. -/
theorem failing_null_is_last :
    (failing 20).world.failures = [.ofMessage "host call failed", .ofFault (.reentrant ⟨1⟩)] ∧
      (failing 24).world.lastError = some "null fiber handle" ∧
      ∃ m', (failing 20).step? = some m' ∧ m'.world.schedulers = (failing 20).world.schedulers := by
  have hvisits : ∀ steps, Visits (fun _ => True) Script.single.start (failing steps) :=
    visits_settle Script.single.start failTwice
  refine ⟨by decide +kernel, ?_, ?_⟩
  · have hlast : (failing 24).world.failures.getLast? = some (.ofMessage "null fiber handle") := by
      decide +kernel
    rw [(last_error_is_of_the_last_failure (hvisits 24)).1.1, hlast]
    decide +kernel
  · have hnull : (failing 20).PassesNull "resume" := by
      have hnext : (failing 20).nextAction? = some (.foreignResume 0 none false 7) := by
        with_unfolding_all rfl
      have hs : (failing 20).world.schedulerAt 0 = some ⟨0⟩ := by with_unfolding_all rfl
      exact .pointer ⟨_, hnext, .refl _⟩ hs rfl
    obtain ⟨m', hstep, hrefuses⟩ :=
      (last_error_is_of_the_last_failure (hvisits 20)).2.2.2.2.1 _ hnull
    exact ⟨m', hstep, by rw [hrefuses.rest]⟩

end Machine

end Fibers
