import Fibers.Proofs.TwinScripts

/-!
Independence. Two parties run root actions in turns and share one thread, with its current
fiber and its last error. As long as they touch no schedulers and no names of each other, it
makes no difference to either of them whether the other one is there.
-/

namespace Fibers

open List (Forall₂)

/-- What code touches: all that it names, and all that the tasks name that it knows by name. -/
inductive Touches (tasks : Names (List Action)) (code : List Action) : Resource → Prop
  | named {resource : Resource} (h : resource ∈ Action.codeResources code) :
      Touches tasks code resource
  | task {name : String} {resource : Resource} (h : Touches tasks code (.task name))
      (hbody : resource ∈ Action.codeResources ((tasks.get? name).getD [])) :
      Touches tasks code resource

/-- What belongs to one of two parties in a list. -/
def belonging {α : Type} (party : Bool) : List (Bool × α) → List α
  | [] => []
  | (owner, x) :: rest => if owner = party then x :: belonging party rest else belonging party rest

namespace Script

/-- Two lists of root actions touch different schedulers and names, and no hosts. -/
structure Disjoint (script : Script) (first second : List Action) : Prop where
  slots : ∀ name, Touches script.tasks first (.slot name) →
    ¬Touches script.tasks second (.slot name)
  counters : ∀ name, Touches script.tasks first (.counter name) →
    ¬Touches script.tasks second (.counter name)
  coroutines : ∀ name, Touches script.tasks first (.coroutine name) →
    ¬Touches script.tasks second (.coroutine name)
  positions : ∀ n, Touches script.tasks first (.position n) →
    ¬Touches script.tasks second (.position n)
  schedulers : ∀ n k, Touches script.tasks first (.position n) →
    Touches script.tasks second (.position k) →
    ∀ s, script.start.schedulerAt n = some s → script.start.schedulerAt k ≠ some s
  hosts : ¬Touches script.tasks first .host ∧ ¬Touches script.tasks second .host
  /-- A report shows every scheduler. -/
  reports : ¬Touches script.tasks first .report ∧ ¬Touches script.tasks second .report

/-- Nor does one of them look at the last error where the other one may set it. -/
structure Independent (script : Script) (first second : List Action) :
    Prop extends script.Disjoint first second where
  lastError : Touches script.tasks first .failing → ¬Touches script.tasks second .lastError
  lastError' : Touches script.tasks second .failing → ¬Touches script.tasks first .lastError

end Script

/-- Two entries of a queue are of one task, which starts with the same code or goes on with
the same resumption. -/
inductive Runnable.Same : Runnable → Runnable → Prop
  | fresh (id : FiberId) (body : List Action) : Same (.fresh id body) (.fresh id body)
  | woken {fiber fiber' : Fiber} {resumption resumption' : Resumption} (hid : fiber.id = fiber'.id)
      (hhome : fiber.home = fiber'.home)
      (hsize : fiber.stack.size = fiber'.stack.size)
      (hresumption : resumption.describe = resumption'.describe) :
      Same (.woken fiber resumption) (.woken fiber' resumption')

/-- Two schedulers with the same queue, numbers, counters and as many idle stacks. -/
structure Scheduler.Same (scheduler scheduler' : Scheduler) : Prop where
  queue : Forall₂ Runnable.Same scheduler.queue scheduler'.queue
  lastId : scheduler.lastId = scheduler'.lastId
  counters : scheduler.counters = scheduler'.counters
  config : scheduler.pool.config = scheduler'.pool.config
  idle : scheduler.pool.idle.length = scheduler'.pool.idle.length
  owners : scheduler.owners = scheduler'.owners

/-! ### Code that runs in both -/

section Code

variable {B : Bond} {κ : Ties}

mutual

/-- Without a fault the two actions are one. -/
theorem Action.Twin.eq (hfault : B.fault = none) :
    ∀ {action action' : Action}, Action.Twin B action action' → action = action'
  | _, _, .plain .. => rfl
  | _, _, .enqueue _ hbody htail => by
    cases htail with
    | none => rw [Code.Twin.eq hfault hbody, List.append_nil]
    | fault h => rw [hfault] at h; cases h
  | _, _, .await _ _ hregister => by rw [Code.Twin.eq hfault hregister]
  | _, _, .again hbody => by rw [Code.Twin.eq hfault hbody]
  | _, _, .countdown _ hbody => by rw [Code.Twin.eq hfault hbody]
  | _, _, .scope hbody => by rw [Code.Twin.eq hfault hbody]
  | _, _, .newCoroutine _ hbody => by rw [Code.Twin.eq hfault hbody]
  | _, _, .foreign _ haction => by rw [Action.Twin.eq hfault haction]
  | _, _, .foreignAwait _ _ _ hregister => by rw [Code.Twin.eq hfault hregister]

theorem Code.Twin.eq (hfault : B.fault = none) :
    ∀ {code code' : List Action}, Forall₂ (Action.Twin B) code code' → code = code'
  | _, _, .nil => rfl
  | _, _, .cons haction hrest => by rw [Action.Twin.eq hfault haction, Code.Twin.eq hfault hrest]

end

theorem Body.Twin.eq (hfault : B.fault = none) {insideFaulty : Bool} {body body' : List Action}
    (h : Body.Twin B insideFaulty body body') : body = body' := by
  obtain ⟨hbody, htail⟩ := h
  cases htail with
  | none => rw [Code.Twin.eq hfault hbody, List.append_nil]
  | fault h => rw [hfault] at h; cases h

theorem Bond.not_panics (hfault : B.fault = none) : ¬B.Panics := by
  rintro ⟨_, hfound, _⟩
  rw [hfault] at hfound
  cases hfound

theorem Runnable.Twin.same (hfault : B.fault = none) {s : SchedulerId} {entry entry' : Runnable}
    (h : Runnable.Twin B κ s entry entry') :
    entry.Same entry' := by
  cases h with
  | fresh _ hbody =>
    rw [hbody.eq hfault]
    exact .fresh _ _
  | woken hfiber hresumption =>
    exact .woken hfiber.id hfiber.home hfiber.size hresumption.describe_eq

theorem Scheduler.Twin.same (hfault : B.fault = none) {s : SchedulerId}
    {scheduler scheduler' : Scheduler} (h : Scheduler.Twin B κ s scheduler scheduler') :
    scheduler.Same scheduler' where
  queue := h.queue.imp fun _ _ hentry => hentry.same hfault
  lastId := h.lastId
  counters := by
    have hcounters := h.counters
    rw [Bond.Off, hfault] at hcounters
    exact hcounters
  config := h.config
  idle := h.idle (Bond.not_panics hfault)
  owners := h.owners

/-- Without a fault a listener hears the same of two histories. -/
theorem Histories.Twin.heard_eq (hfault : B.fault = none) {tasks : List Task}
    {struck : List SchedulerId} {news news' : List Happening}
    (h : Histories.Twin B κ tasks struck news news') (listener : Option Level) :
    news.filterMap (Happening.datum? listener) = news'.filterMap (Happening.datum? listener) := by
  induction h with
  | nil => rfl
  | both _ hlast ih =>
    rw [List.filterMap_append, List.filterMap_append, ih]
    cases hlast <;> rfl
  | finishes _ hfound =>
    rw [hfault] at hfound
    cases hfound
  | appended _ _ ih =>
    rw [List.filterMap_append, List.filterMap_append, ih]
    rfl
  | first _ hpanics | second _ hpanics => exact absurd hpanics (Bond.not_panics hfault)

end Code

/-! ### Two parties -/

/-- What two runs have in common as far as one party goes that touches some names. -/
def Bond.ofParty (start : World) (mine : Resource → Prop) : Bond where
  fault := none
  mine
  own s := ∃ n, mine (.position n) ∧ start.schedulerAt n = some s
  alone := False

/-- The parties share nothing. -/
structure Bond.Parts (B B' : Bond) : Prop where
  fault : B.fault = none
  alone : ¬B.alone
  host : ¬B.mine .host
  report : ¬B.mine .report
  slots : ∀ {name}, B.mine (.slot name) → ¬B'.mine (.slot name)
  coroutines : ∀ {name}, B.mine (.coroutine name) → ¬B'.mine (.coroutine name)
  counters : ∀ {name}, B.mine (.counter name) → ¬B'.mine (.counter name)
  positions : ∀ {n}, B.mine (.position n) → ¬B'.mine (.position n)
  failing : B.mine .failing → ¬B'.mine .lastError
  schedulers : ∀ {s}, B.own s → ¬B'.own s

/-- The world of one party alone, that of the other party alone, and the one that they share. -/
structure Abreast (B B' : Bond) (κ κ' : Ties) (w v u : World) : Prop where
  first : w.Like B κ u
  second : v.Like B' κ' u
  apart : ∀ x ∈ κ.links, x ∉ κ'.links
  rests : w.Rests
  rests' : v.Rests
  shared : u.Rests

section Parties

variable {B B' : Bond} {κ κ' : Ties} {w v u : World}

theorem Abreast.symm (h : Abreast B B' κ κ' w v u) : Abreast B' B κ' κ v w u where
  first := h.second
  second := h.first
  apart := fun x hx hx' => h.apart x hx' hx
  rests := h.rests'
  rests' := h.rests
  shared := h.shared

/-- The moment before a party's root action. -/
def Abreast.moment (B' : Bond) (κ κ' : Ties) (w u : World) : Backdrop where
  theirs := B'.mine
  theirOwn := B'.own
  theirHandle x := x ∈ κ'.links
  base := u
  past := w.history.toList
  past' := u.history.toList
  before := κ.tasks
  fallen := κ.struck

/-- Before its root action a party finds the shared world as it left it. -/
theorem Abreast.twin (h : Abreast B B' κ κ' w v u) (hparts : B.Parts B') :
    w.Twin B (Abreast.moment B' κ κ' w u) κ u where
  like := h.first
  apart :=
    { slots := hparts.slots
      coroutines := hparts.coroutines
      counters := hparts.counters
      positions := hparts.positions
      failing := hparts.failing
      schedulers := hparts.schedulers }
  hands :=
    { others := h.apart
      known := fun x hx => by
        obtain ⟨y, hy⟩ := Ties.exists_linked hx
        exact h.second.handles.lt hy
      cells := fun _ _ => rfl }
  spares :=
    { slots := fun _ _ => rfl
      coroutines := fun _ _ => rfl
      counters := fun _ _ => rfl
      positions := fun _ _ => rfl
      schedulers := fun _ _ => rfl
      lastError := fun _ => rfl
      tasks := rfl
      hoarded := rfl
      mappings := rfl }
  news := ⟨[], [], [], [], (List.append_nil _).symm, (List.append_nil _).symm,
    (List.append_nil _).symm, (List.append_nil _).symm, .nil⟩

/-- What a root action of one party spares stays what the other party left. -/
theorem World.Like.spared {κ₂ : Ties} {u₂ : World} (h : v.Like B' κ' u) (hparts : B'.Parts B)
    {D : Backdrop} (hD : D = Abreast.moment B' κ κ' w u) (hands : D.SparesHandles κ₂ u₂.handles)
    (hspares : D.Spares u₂) (hcurrent : u₂.currentId = u.currentId) : v.Like B' κ' u₂ := by
  subst hD
  have hat : ∀ n, B'.mine (.position n) → u.schedulerAt n = u₂.schedulerAt n := fun n hn => by
    rw [World.schedulerAt, World.schedulerAt, hspares.positions n hn]
    rfl
  exact {
    handles := {
      length := h.handles.length
      nodup := h.handles.nodup
      cells := fun {x x'} hx => by
        rw [hands.cells x' hx.mem]
        exact h.handles.cells hx
      alone := fun halone => absurd halone hparts.alone }
    slots := fun {name} hname => by
      rw [hspares.slots name hname]
      exact h.slots hname
    coroutines := fun {name} hname => by
      rw [hspares.coroutines name hname]
      exact h.coroutines hname
    counters := fun {name} hname => by
      rw [hspares.counters name hname]
      exact h.counters hname
    tasks := fun {name} hname => by
      rw [hspares.tasks]
      exact h.tasks hname
    positions := fun {n} hn => (h.positions hn).trans (hat n hn)
    owned := h.owned
    schedulers := fun {s} hs => by
      rw [hspares.schedulers s hs]
      exact h.schedulers hs
    drivers := fun hhost => absurd hhost hparts.host
    driverAt := fun hhost => absurd hhost hparts.host
    semaphores := fun hhost => absurd hhost hparts.host
    agenda := fun hhost => absurd hhost hparts.host
    callsMade := fun hhost => absurd hhost hparts.host
    hoarded := h.hoarded.trans hspares.hoarded.symm
    mapping := fun n n' => by
      rw [hspares.mappings]
      exact h.mapping n n'
    lastError := fun hlast => by
      rw [hspares.lastError hlast]
      exact h.lastError hlast
    current := h.current.trans hcurrent.symm }

/-- A root action of one party shows the same alone and in the shared world, and the other
party notices nothing. -/
theorem Abreast.runStep (h : Abreast B B' κ κ' w v u) (hparts : B.Parts B') (hparts' : B'.Parts B)
    {action : Action} (haction : B.All action.resources) {fuel : Nat}
    (hdone : ((Script.begin w action).settle fuel).Done) (listener : Option Level) :
    (∃ κ₂, Abreast B B' κ₂ κ' (Script.runStep fuel w action) v (Script.runStep fuel u action)) ∧
      Script.heard listener w.history.size (Script.runStep fuel w action) =
        Script.heard listener u.history.size (Script.runStep fuel u action) := by
  have hbegun : (Script.begin w action).Alike B (Abreast.moment B' κ κ' w u) κ
      (Script.begin u action) :=
    ⟨h.twin hparts, .nil, .cons (.actions (.cons (.refl haction) .nil)) .nil, .advance⟩
  obtain ⟨κ₂, -, hsettled⟩ := hbegun.settle hparts.fault hparts.report (h.rests.sound_begin action)
    (h.shared.sound_begin action) fuel
  have htwin : (Script.runStep fuel w action).Twin B (Abreast.moment B' κ κ' w u) κ₂
      (Script.runStep fuel u action) :=
    hsettled.showOutcome
  have hrests := h.rests.runStep hdone
  have hshared := h.shared.runStep (hsettled.done_iff.1 hdone)
  refine ⟨⟨κ₂, ⟨htwin.like, ?_, htwin.hands.others, hrests, h.rests', hshared⟩⟩, ?_⟩
  · exact h.second.spared hparts' rfl htwin.hands htwin.spares
      (hshared.currentId.trans h.shared.currentId.symm)
  · obtain ⟨tasks, struck, news, news', -, -, hnews, hnews', hhistories⟩ := htwin.news
    rw [Script.heard, Script.heard, hnews, hnews', ← Array.length_toList, ← Array.length_toList]
    rw [Abreast.moment, List.drop_left, List.drop_left]
    exact hhistories.heard_eq hparts.fault listener

/-- Whatever the turns, both parties show the same as alone. The induction is on the turns;
what carries it is that each party's world and the shared one stay abreast. -/
theorem Abreast.runSteps (h : Abreast B B' κ κ' w v u) (hparts : B.Parts B')
    (hparts' : B'.Parts B) {fuel : Nat} (listener : Option Level) (view : World → Datum)
    (turns : List (Bool × Action))
    (hnames : ∀ action ∈ belonging true turns, B.All action.resources)
    (hnames' : ∀ action ∈ belonging false turns, B'.All action.resources)
    (hends : Script.Ends fuel w (belonging true turns))
    (hends' : Script.Ends fuel v (belonging false turns)) :
    let alone := Script.runSteps fuel listener view w (belonging true turns)
    let alone' := Script.runSteps fuel listener view v (belonging false turns)
    let both := Script.runSteps fuel listener view u (turns.map Prod.snd)
    let shown := (turns.map Prod.fst).zip (both.1.map StepReport.out)
    (∃ κ₂ κ₂', Abreast B B' κ₂ κ₂' alone.2 alone'.2 both.2) ∧ belonging true shown =
      alone.1.map StepReport.out ∧ belonging false shown = alone'.1.map StepReport.out := by
  induction turns generalizing κ κ' w v u with
  | nil => exact ⟨⟨κ, κ', h⟩, rfl, rfl⟩
  | cons turn turns ih =>
    obtain ⟨owner, action⟩ := turn
    cases owner with
    | true =>
      obtain ⟨hfirst, hothers⟩ := List.forall_mem_cons.1 hnames
      obtain ⟨⟨κ₂, hnext⟩, hshown⟩ := h.runStep hparts hparts' hfirst hends.1 listener
      obtain ⟨hlast, hrest, hrest'⟩ := ih hnext hothers hnames' hends.2 hends'
      exact ⟨hlast, congrArg₂ List.cons hshown.symm hrest, hrest'⟩
    | false =>
      -- The same with the parties the other way round.
      obtain ⟨hfirst, hothers⟩ := List.forall_mem_cons.1 hnames'
      obtain ⟨⟨κ₂, hnext⟩, hshown⟩ := h.symm.runStep hparts' hparts hfirst hends'.1 listener
      obtain ⟨hlast, hrest, hrest'⟩ := ih hnext.symm hnames hothers hends hends'.2
      exact ⟨hlast, hrest, congrArg₂ List.cons hshown.symm hrest'⟩

end Parties

/-! ### Scripts -/

namespace Script

variable {script : Script} {first second : List Action}

/-- A party's part of a script. -/
def bond (script : Script) (code : List Action) : Bond :=
  .ofParty script.start (Touches script.tasks code)

theorem like_start (hsizes : script.SizesDecide) (code : List Action) :
    script.start.Like (script.bond code) ⟨[], [], []⟩ script.start := by
  refine start_like rfl rfl rfl rfl hsizes (fun hn hs => ⟨_, hn, hs⟩)
    fun {name} hname => ⟨false, ?_⟩
  have hbody : Code.Twin (script.bond code) ((script.tasks.get? name).getD [])
      ((script.tasks.get? name).getD []) :=
    .refl fun resource hresource => .task hname hresource
  have htwin := Body.Twin.mk hbody .none
  rwa [List.append_nil] at htwin

theorem abreast_start (hsizes : script.SizesDecide) (first second : List Action) :
    Abreast (script.bond first) (script.bond second) ⟨[], [], []⟩ ⟨[], [], []⟩ script.start
      script.start script.start where
  first := like_start hsizes first
  second := like_start hsizes second
  apart := fun _ hx => by cases hx
  rests := script.rests_start
  rests' := script.rests_start
  shared := script.rests_start

theorem Independent.symm (h : script.Independent first second) :
    script.Independent second first where
  slots := fun name hsecond hfirst => h.slots name hfirst hsecond
  counters := fun name hsecond hfirst => h.counters name hfirst hsecond
  coroutines := fun name hsecond hfirst => h.coroutines name hfirst hsecond
  positions := fun n hsecond hfirst => h.positions n hfirst hsecond
  schedulers := fun n k hsecond hfirst s hn hk => h.schedulers k n hfirst hsecond s hk hn
  hosts := h.hosts.symm
  reports := h.reports.symm
  lastError := h.lastError'
  lastError' := h.lastError

theorem Independent.parts (h : script.Independent first second) :
    (script.bond first).Parts (script.bond second) where
  fault := rfl
  alone := fun halone => halone
  host := h.hosts.1
  report := h.reports.1
  slots := fun hfirst => h.slots _ hfirst
  coroutines := fun hfirst => h.coroutines _ hfirst
  counters := fun hfirst => h.counters _ hfirst
  positions := fun hfirst => h.positions _ hfirst
  failing := h.lastError
  schedulers := by
    rintro s ⟨n, hfirst, hn⟩ ⟨k, hsecond, hk⟩
    exact h.schedulers n k hfirst hsecond s hn hk

/-- A party touches what its root actions name. -/
theorem bond_all (script : Script) {code : List Action} {action : Action}
    (haction : action ∈ code) : (script.bond code).All action.resources := by
  intro resource hresource
  refine .named ?_
  induction code with
  | nil => cases haction
  | cons other rest ih =>
    rcases List.mem_cons.1 haction with rfl | hrest
    · exact List.mem_append_left _ hresource
    · exact List.mem_append_right _ (ih hrest)

end Script

/-- Where two parties run root actions in turns, each of them shows the same and leaves the
same behind in its schedulers as if it ran alone, if a stack of a given size can always be
mapped or never. -/
theorem independent_parties_do_not_interfere {script : Script}
    {turns : List (Bool × Action)} {fuel : Nat} (hsizes : script.SizesDecide)
    (hindependent : script.Independent (belonging true turns) (belonging false turns))
    (hends : ∀ party, Script.Ends fuel script.start (belonging party turns))
    (listener : Option Level) (view : World → Datum) (party : Bool) :
    let alone := Script.runSteps fuel listener view script.start (belonging party turns)
    let both := Script.runSteps fuel listener view script.start (turns.map Prod.snd)
    belonging party ((turns.map Prod.fst).zip (both.1.map StepReport.out)) =
      alone.1.map StepReport.out ∧
      ∀ n s, Touches script.tasks (belonging party turns) (.position n) →
        script.start.schedulerAt n = some s →
        alone.2.schedulerAt n = both.2.schedulerAt n ∧
          Option.Rel Scheduler.Same (alone.2.scheduler? s) (both.2.scheduler? s) := by
  obtain ⟨⟨κ, κ', habreast⟩, hshown, hshown'⟩ :=
    (Script.abreast_start hsizes _ _).runSteps hindependent.parts
    hindependent.symm.parts listener view turns (fun _ haction => script.bond_all haction)
      (fun _ haction => script.bond_all haction) (hends true) (hends false)
  cases party with
  | true =>
    refine ⟨hshown, fun n s hn hs => ⟨habreast.first.positions hn, ?_⟩⟩
    exact rel_mono (fun htwin => htwin.same rfl) (habreast.first.schedulers ⟨n, hn, hs⟩)
  | false =>
    refine ⟨hshown', fun n s hn hs => ⟨habreast.second.positions hn, ?_⟩⟩
    exact rel_mono (fun htwin => htwin.same rfl) (habreast.second.schedulers ⟨n, hn, hs⟩)

theorem Touches.named_of_empty {code : List Action} {resource : Resource}
    (h : Touches .empty code resource) : resource ∈ Action.codeResources code := by
  cases h with
  | named h => exact h
  | task _ hbody => cases hbody

/-- One party has a task that waits until it resumes it; a task of the other one panics. -/
def takingTurns : List (Bool × Action) :=
  [(true, .enqueue 0 [.await .unit (some "a") [] .raise none, .log .null]),
    (false, .enqueue 1 [.log .null, .panic (.text "over")]),
    (true, .run 0 none false), (false, .run 1 none false),
    (true, .resume 0 "a" false (.value (.scalar .unit)) false)]

/-- The parties have a scheduler each, and one of them a slot. -/
def KeepsApart (turns : List (Bool × Action)) : Prop :=
  ∀ {party resource}, Touches .empty (belonging party turns) resource →
    resource = .position (cond party 0 1) ∨ party = true ∧ resource = .slot "a"

theorem KeepsApart.independent {turns : List (Bool × Action)} (h : KeepsApart turns)
    (mappings : Nat → Mapping) :
    Script.Independent { Script.pair with mappings } (belonging true turns)
      (belonging false turns) where
  slots := fun name _ hsecond => by simpa using h hsecond
  counters := fun name _ hsecond => by simpa using h hsecond
  coroutines := fun name _ hsecond => by simpa using h hsecond
  positions := fun n hfirst hsecond => by
    have hn := h hfirst
    have hn' := h hsecond
    simp_all
  schedulers := fun n k hfirst hsecond s hs hs' => by
    have hn : n = 0 := by simpa using h hfirst
    have hk : k = 1 := by simpa using h hsecond
    subst hn hk
    cases hs
    cases hs'
  hosts := ⟨fun hfirst => by simpa using h hfirst, fun hsecond => by simpa using h hsecond⟩
  reports := ⟨fun hfirst => by simpa using h hfirst, fun hsecond => by simpa using h hsecond⟩
  lastError := fun hfirst => by simpa using h hfirst
  lastError' := fun hsecond => by simpa using h hsecond

theorem keepsApart_takingTurns : KeepsApart takingTurns := by
  intro party resource h
  have hmember := h.named_of_empty
  cases party with
  | true =>
    have hcode : Action.codeResources (belonging true takingTurns) =
        [.position 0, .slot "a", .position 0, .position 0, .slot "a"] := by with_unfolding_all rfl
    rw [hcode] at hmember
    simp only [List.mem_cons, List.not_mem_nil, or_false] at hmember
    rcases hmember with rfl | rfl | rfl | rfl | rfl <;> simp
  | false =>
    have hcode : Action.codeResources (belonging false takingTurns) =
        [.position 1, .position 1] := by with_unfolding_all rfl
    rw [hcode] at hmember
    simpa using hmember

theorem independent_takingTurns :
    Script.pair.Independent (belonging true takingTurns) (belonging false takingTurns) :=
  keepsApart_takingTurns.independent Script.pair.mappings

theorem ends_takingTurns (party : Bool) :
    Script.Ends 40 Script.pair.start (belonging party takingTurns) := by
  cases party with
  | true => refine ⟨⟨?_, ?_⟩, ⟨?_, ?_⟩, ⟨?_, ?_⟩, trivial⟩ <;> with_unfolding_all rfl
  | false => refine ⟨⟨?_, ?_⟩, ⟨?_, ?_⟩, trivial⟩ <;> with_unfolding_all rfl

theorem sizesDecide_pair : Script.pair.SizesDecide := fun _ _ => rfl

theorem taking_turns_shows_the_same :
    Script.pair.SizesDecide ∧
      Script.pair.Independent (belonging true takingTurns) (belonging false takingTurns) ∧
      (∀ party, Script.Ends 40 Script.pair.start (belonging party takingTurns)) ∧
        belonging true ((takingTurns.map Prod.fst).zip
            ((Script.runSteps 40 none World.rootState Script.pair.start
                (takingTurns.map Prod.snd)).1.map StepReport.out)) =
          (Script.runSteps 40 none World.rootState Script.pair.start
            (belonging true takingTurns)).1.map StepReport.out :=
  ⟨sizesDecide_pair, independent_takingTurns, ends_takingTurns,
    (independent_parties_do_not_interfere sizesDecide_pair independent_takingTurns ends_takingTurns
      none World.rootState true).1⟩

/-- Each party shows the same as if it ran alone. -/
def Script.ShowsAsAlone (script : Script) (fuel : Nat) (turns : List (Bool × Action)) : Prop :=
  ∀ party, belonging party ((turns.map Prod.fst).zip
      ((Script.runSteps fuel none World.rootState script.start (turns.map Prod.snd)).1.map
        StepReport.out)) =
    (Script.runSteps fuel none World.rootState script.start (belonging party turns)).1.map
    StepReport.out

/-- One party fails to resume a null handle, then the other one asks for the last error. -/
def failingFirst : List (Bool × Action) :=
  [(false, .foreign 1 (.foreignResume 1 none false 0)), (true, .foreign 0 .lastError)]

/-- The last error is one for all schedulers, so it is not enough that two parties touch
different schedulers and names. -/
theorem last_error_is_shared :
    ¬∀ (script : Script) (turns : List (Bool × Action)) (fuel : Nat), script.SizesDecide →
      script.Disjoint (belonging true turns) (belonging false turns) →
        (∀ party, Script.Ends fuel script.start (belonging party turns)) →
          script.ShowsAsAlone fuel turns := by
  intro h
  have hfirst : ∀ {resource}, Touches .empty (belonging true failingFirst) resource →
      resource = .position 0 ∨ resource = .lastError :=
    fun htouches => by
      have hcode : Action.codeResources (belonging true failingFirst) =
          [.position 0, .lastError] := by with_unfolding_all rfl
      have hmember := htouches.named_of_empty
      rw [hcode] at hmember
      simpa using hmember
  have hsecond : ∀ {resource}, Touches .empty (belonging false failingFirst) resource →
      resource = .position 1 ∨ resource = .failing :=
    fun htouches => by
      have hcode : Action.codeResources (belonging false failingFirst) =
          [.position 1, .position 1, .failing] := by
        with_unfolding_all rfl
      have hmember := htouches.named_of_empty
      rw [hcode] at hmember
      simpa using hmember
  have hdisjoint : Script.pair.Disjoint (belonging true failingFirst)
      (belonging false failingFirst) :=
    { slots := fun _ htouches => by simpa using hfirst htouches
      counters := fun _ htouches => by simpa using hfirst htouches
      coroutines := fun _ htouches => by simpa using hfirst htouches
      positions := fun n htouches htouches' => by
        have hn : n = 0 := by simpa using hfirst htouches
        have hn' : n = 1 := by simpa using hsecond htouches'
        omega
      schedulers := fun n k htouches htouches' s hs hs' => by
        have hn : n = 0 := by simpa using hfirst htouches
        have hk : k = 1 := by simpa using hsecond htouches'
        subst hn hk
        cases hs
        cases hs'
      hosts := ⟨fun htouches => (by simpa using hfirst htouches),
        fun htouches => by simpa using hsecond htouches⟩
      reports := ⟨fun htouches => (by simpa using hfirst htouches),
        fun htouches => by simpa using hsecond htouches⟩ }
  have hends : ∀ party, Script.Ends 8 Script.pair.start (belonging party failingFirst) := by
    intro party
    cases party <;> refine ⟨⟨?_, ?_⟩, trivial⟩ <;> with_unfolding_all rfl
  have hsame := h Script.pair failingFirst 8 sizesDecide_pair hdisjoint hends true
  have hboth : belonging true ((failingFirst.map Prod.fst).zip
      ((Script.runSteps 8 none World.rootState Script.pair.start (failingFirst.map Prod.snd)).1.map
        StepReport.out)) =
        [[.list [.null, .text "last_error",
        .text (Text.withoutNul (Failure.ofMessage "null fiber handle").oneLine)]]] := by
    with_unfolding_all rfl
  have halone :
      (Script.runSteps 8 none World.rootState Script.pair.start (belonging true failingFirst)).1.map
      StepReport.out = [[.list [.null, .text "last_error", .null]]] := by with_unfolding_all rfl
  rw [hboth, halone] at hsame
  cases hsame

/-- Two schedulers and a system that maps one stack at most. -/
def Script.scarce : Script :=
  { Script.pair with mappings := fun happened _ => if happened < 6 then none else some .noMemory }

/-- First one party has a task run, then the other one. -/
def oneStack : List (Bool × Action) :=
  [(false, .enqueue 1 [.log .null]), (false, .run 1 none false), (true, .enqueue 0 [.log .null]),
  (true, .run 0 none false)]

theorem keepsApart_oneStack : KeepsApart oneStack := by
  intro party resource h
  have hcode : Action.codeResources (belonging party oneStack) =
      [.position (cond party 0 1), .position (cond party 0 1)] := by
    cases party <;> with_unfolding_all rfl
  have hmember := h.named_of_empty
  rw [hcode] at hmember
  exact .inl (by simpa using hmember)

/-- The memory is one for all schedulers: where the stacks of one party are mapped, there may be
none left for the other one. -/
theorem memory_is_shared :
    ¬∀ (script : Script) (turns : List (Bool × Action)) (fuel : Nat),
      script.Independent (belonging true turns) (belonging false turns) →
        (∀ party, Script.Ends fuel script.start (belonging party turns)) →
          script.ShowsAsAlone fuel turns := by
  intro h
  have hends : ∀ party, Script.Ends 20 Script.scarce.start (belonging party oneStack) := by
    intro party
    cases party <;> refine ⟨⟨?_, ?_⟩, ⟨?_, ?_⟩, trivial⟩ <;> with_unfolding_all rfl
  have hsame :=
    congrArg (List.map List.length)
      (h Script.scarce oneStack 20 (keepsApart_oneStack.independent _) hends true)
  -- With the other party before it, the task does not log anything.
  have hboth : (belonging true ((oneStack.map Prod.fst).zip
      ((Script.runSteps 20 none World.rootState Script.scarce.start (oneStack.map Prod.snd)).1.map
        StepReport.out))).map List.length = [1, 1] := by
    with_unfolding_all rfl
  have halone :
      ((Script.runSteps 20 none World.rootState Script.scarce.start (belonging true oneStack)).1.map
      StepReport.out).map List.length = [1, 2] := by
    with_unfolding_all rfl
  rw [hboth, halone] at hsame
  cases hsame

/-- Two parties may notice each other by what all schedulers share. -/
theorem what_all_share_crosses_parties :
    (¬∀ (script : Script) (turns : List (Bool × Action)) (fuel : Nat), script.SizesDecide →
      script.Disjoint (belonging true turns) (belonging false turns) →
        (∀ party, Script.Ends fuel script.start (belonging party turns)) →
          script.ShowsAsAlone fuel turns) ∧
    ¬∀ (script : Script) (turns : List (Bool × Action)) (fuel : Nat),
      script.Independent (belonging true turns) (belonging false turns) →
        (∀ party, Script.Ends fuel script.start (belonging party turns)) →
          script.ShowsAsAlone fuel turns :=
  ⟨last_error_is_shared, memory_is_shared⟩

end Fibers
