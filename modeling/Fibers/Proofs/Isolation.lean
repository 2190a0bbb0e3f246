import Fibers.Proofs.Faults
import Fibers.Proofs.TwinScripts

/-!
Isolation. A script is compared with another one in which some tasks have one more action at
their end, which fails or panics. Whatever the first script comes by, the second one comes by
as well, and the other way round; nothing differs but how these tasks end.
-/

namespace Fibers

open List (Forall₂)
open Machine (Reaches)

/-- Two runs share everything but what reports show, and some tasks have a fault at their end
in the second one. -/
def Bond.ofFault (fault : Fault) : Bond where
  fault := some fault
  mine resource := resource ≠ .report
  own _ := True
  alone := True

namespace Script

variable {fault : Fault}

/-- The second script has the fault at the end of some tasks, which may be enqueued as they
are or by name. Neither script reports on schedulers. -/
structure Faulty (fault : Fault) (script script' : Script) : Prop where
  schedulers : script'.schedulers = script.schedulers
  counters : script'.counters = script.counters
  hoarded : script'.hoarded = script.hoarded
  mappings : script'.mappings = script.mappings
  tasks : ∀ name, ∃ insideFaulty, Body.Twin (.ofFault fault) insideFaulty
    ((script.tasks.get? name).getD []) ((script'.tasks.get? name).getD [])
  steps : Code.Twin (.ofFault fault) script.steps script'.steps

/-- A list of root actions comes by a world when some number of them are over. Last of all the
names give up what they own. -/
inductive Passes : World → List Action → Nat → World → Prop
  | during {w : World} {action : Action} {rest : List Action} {m : Machine}
      (h : Reaches (begin w action) m) : Passes w (action :: rest) 0 m.world
  | after {w u : World} {action : Action} {rest : List Action} {n : Nat} {m : Machine}
      (h : Reaches (begin w action) m) (hdone : m.Done)
      (hrest : Passes (showOutcome m) rest n u) : Passes w (action :: rest) (n + 1) u
  | done (w : World) : Passes w [] 0 w
  | closed (w : World) : Passes w [] 1 w.close

/-- Root actions that come to their ends pass the world that they leave. -/
theorem passes_runSteps (fuel : Nat) (listener : Option Level) (view : World → Datum) {w : World}
    {steps : List Action} (h : Ends fuel w steps) :
    Passes w steps steps.length (runSteps fuel listener view w steps).2 := by
  induction steps generalizing w with
  | nil => exact .done w
  | cons action rest ih =>
    obtain ⟨hdone, hrest⟩ := h
    exact .after (Machine.reaches_settle _ fuel) hdone (ih hrest)

/-- A script in which a task that is known by name has a fault at its end. -/
def harm (script : Script) (name : String) (fault : Fault) : Script :=
  { script with
    tasks := script.tasks.insert name ((script.tasks.get? name).getD [] ++ [fault.action]) }

/-- Any script that does not report on schedulers may have the fault at the end of a task. -/
theorem faulty_harm {script : Script}
    (hsteps : (Bond.ofFault fault).All (Action.codeResources script.steps))
    (htasks : ∀ name, (Bond.ofFault fault).All
      (Action.codeResources ((script.tasks.get? name).getD []))) (name : String) :
    script.Faulty fault (script.harm name fault) where
  schedulers := rfl
  counters := rfl
  hoarded := rfl
  mappings := rfl
  tasks other := by
    have hbody := Code.Twin.refl (htasks other)
    rw [harm]
    by_cases heq : other = name
    · subst heq
      rw [Names.get?_insert_self]
      exact ⟨true, .mk hbody (.fault rfl)⟩
    · rw [Names.get?_insert_of_ne _ _ heq]
      refine ⟨false, ?_⟩
      have htwin := Body.Twin.mk hbody .none
      rwa [List.append_nil] at htwin
  steps := .refl hsteps

end Script

/-- The entry that a program made, with the fiber that made it. -/
def Happening.entry? : Happening → Option (Option FiberId × String × Datum)
  | .entry current name payload => some (current, name, payload)
  | _ => none

def Runnable.id : Runnable → FiberId
  | .fresh id _ => id
  | .woken fiber _ => fiber.id

/-- The fiber that a scheduler took up. -/
def Happening.dispatch? : Happening → Option (SchedulerId × FiberId)
  | .mark (.dispatched s item) => some (s, item.id)
  | _ => none

/-- Two worlds that differ only in how those tasks ended that came to the fault. -/
structure World.SameBut (fault : Fault) (κ : Ties) (w w' : World) : Prop where
  entries : w.history.toList.filterMap Happening.entry? =
    w'.history.toList.filterMap Happening.entry?
  dispatches : w.history.toList.filterMap Happening.dispatch? =
    w'.history.toList.filterMap Happening.dispatch?
  /-- Handles are the same ones in both worlds. -/
  linked : ∀ {x x'}, κ.Linked x x' → x = x'
  handles : ∀ x, Option.Rel (HandleCell.Twin (.ofFault fault) κ) (w.handles.get? x)
    (w'.handles.get? x)
  /-- Queues, numbers and counters, where the tasks count that came to the fault. -/
  schedulers : ∀ s, Option.Rel (Scheduler.Twin (.ofFault fault) κ s) (w.scheduler? s)
    (w'.scheduler? s)
  like : w.Like (.ofFault fault) κ w'
  /-- Each task that came to the fault has its own finishing event. -/
  histories : Histories.Twin (.ofFault fault) κ κ.tasks κ.struck w.history.toList w'.history.toList

section Histories

variable {B : Bond} {κ : Ties} {tasks : List Task} {struck : List SchedulerId}
  {news news' : List Happening}

/-- What reads neither events nor how tasks come and end reads the same of two histories. -/
theorem Histories.Twin.read_eq {α : Type} {read : Happening → Option α}
    (h : Histories.Twin B κ tasks struck news news') (hevent : ∀ event, read (.event event) = none)
    (hsame : ∀ {happening happening'}, Happening.Twin B κ happening happening' →
      read happening =
        read happening')
        (happended : ∀ s id body body', read (.mark (.appended s (.fresh id body))) =
        read (.mark (.appended s (.fresh id body')))) :
          news.filterMap read = news'.filterMap read := by
  have hsingle : ∀ {happening happening' : Happening}, read happening = read happening' →
      [happening].filterMap read = [happening'].filterMap read := fun heq => by
    rw [List.filterMap_cons, List.filterMap_cons, heq]
  have hnone : ∀ event, [Happening.event event].filterMap read = [] := fun event => by
    rw [List.filterMap_cons, hevent]
    rfl
  induction h with
  | nil => rfl
  | both _ hlast ih => rw [List.filterMap_append, List.filterMap_append, ih, hsingle (hsame hlast)]
  | finishes _ _ _ ih => rw [List.filterMap_append, List.filterMap_append, ih, hnone, hnone]
  | appended _ _ ih => rw [List.filterMap_append, List.filterMap_append, ih, hsingle (happended ..)]
  | first _ _ _ ih => rw [List.filterMap_append, ih, hnone, List.append_nil]
  | second _ _ _ ih => rw [List.filterMap_append, ← ih, hnone, List.append_nil]

theorem Histories.Twin.entries_eq (h : Histories.Twin B κ tasks struck news news') :
    news.filterMap Happening.entry? = news'.filterMap Happening.entry? :=
  h.read_eq (fun _ => rfl) (fun hlast => by cases hlast <;> rfl) fun _ _ _ _ => rfl

theorem Runnable.Twin.id_eq {s : SchedulerId} {entry entry' : Runnable}
    (h : Runnable.Twin B κ s entry entry') : entry.id = entry'.id := by
  cases h with
  | fresh => rfl
  | woken hfiber => exact hfiber.id

theorem Mark.dispatch?_of_aside {told : Mark} (h : told.isAside = true) :
    Happening.dispatch? (.mark told) = none := by
  cases told with
  | dispatched => cases h
  | _ => rfl

theorem Histories.Twin.dispatches_eq (h : Histories.Twin B κ tasks struck news news') :
    news.filterMap Happening.dispatch? = news'.filterMap Happening.dispatch? := by
  refine h.read_eq (fun _ => rfl) (fun hlast => ?_) fun _ _ _ _ => rfl
  cases hlast with
  | entry | event | ended => rfl
  | aside h h' => rw [Mark.dispatch?_of_aside h, Mark.dispatch?_of_aside h']
  | @dispatched s entry entry' h =>
    have hid : (s, entry.id) = (s, entry'.id) := by rw [h.id_eq]
    exact congrArg some hid

end Histories

/-- The moment at which the two scripts start. -/
def Backdrop.ofStart (start : World) : Backdrop where
  theirs _ := False
  theirOwn _ := False
  theirHandle _ := False
  base := start
  past := []
  past' := []
  before := []
  fallen := []

section Runs

variable {fault : Fault} {κ : Ties} {w w' u u' base : World} {action action' : Action}
  {steps steps' : List Action} {n : Nat}

theorem World.Twin.sameBut (h : w.Twin (.ofFault fault) (.ofStart base) κ w') :
    w.SameBut fault κ w' := by
  obtain ⟨tasks, struck, news, news', htasks, hstruck, hnews, hnews', htwin⟩ := h.news
  obtain rfl : κ.tasks = tasks := htasks
  obtain rfl : κ.struck = struck := hstruck
  obtain rfl : w.history.toList = news := hnews
  obtain rfl : w'.history.toList = news' := hnews'
  have hlinked : ∀ {x x'}, κ.Linked x x' → x = x' := fun {x x'} hx =>
    hx.inj h.like.handles.nodup ((h.like.handles.alone trivial).2 x' hx.mem)
  refine ⟨htwin.entries_eq, htwin.dispatches_eq, hlinked, fun x => ?_,
    fun s => h.like.schedulers trivial, h.like, htwin⟩
  rcases Nat.lt_or_ge x.index κ.links.length with hlt | hge
  · have hx : κ.Linked x κ.links[x.index] := List.getElem?_eq_getElem hlt
    have hcells := h.like.handles.cells hx
    rwa [← hlinked hx] at hcells
  · -- Both runs made as many handles, so beyond the last link there is none in either.
    have hlength := h.like.handles.length
    have hsame := (h.like.handles.alone trivial).1
    have hnone : w.handles.get? x = none := List.getElem?_eq_none (by omega)
    have hnone' : w'.handles.get? x = none := List.getElem?_eq_none (by omega)
    rw [hnone, hnone']
    exact .none

theorem Script.Faulty.twin_start {script script' : Script} (h : script.Faulty fault script')
    (hsizes : script.SizesDecide) :
    script.start.Twin (.ofFault fault) (.ofStart script'.start) ⟨[], [], []⟩ script'.start where
  like := Script.start_like h.schedulers h.counters h.hoarded h.mappings hsizes (fun _ _ => trivial)
    fun _ => h.tasks _
  apart :=
    { slots := fun _ htheirs => htheirs
      coroutines := fun _ htheirs => htheirs
      counters := fun _ htheirs => htheirs
      positions := fun _ htheirs => htheirs
      failing := fun _ htheirs => htheirs
      schedulers := fun _ htheirs => htheirs }
  hands := ⟨fun _ _ htheirs => htheirs, fun _ htheirs => htheirs.elim,
    fun _ htheirs => htheirs.elim⟩
  spares :=
    { slots := fun _ htheirs => htheirs.elim
      coroutines := fun _ htheirs => htheirs.elim
      counters := fun _ htheirs => htheirs.elim
      positions := fun _ htheirs => htheirs.elim
      schedulers := fun _ htheirs => htheirs.elim
      lastError := fun htheirs => htheirs.elim
      tasks := rfl
      hoarded := rfl
      mappings := rfl }
  news := by
    refine ⟨[], [], [], [], rfl, rfl, ?_, ?_, .nil⟩ <;> rw [World.history_start] <;> rfl

/-- A root action begins in both runs. -/
theorem World.Twin.parallel (h : w.Twin (.ofFault fault) (.ofStart base) κ w')
    (haction : Action.Twin (.ofFault fault) action action') :
    (Script.begin w action).Parallel (.ofFault fault) (.ofStart base) κ (Script.begin w' action') :=
  .alike ⟨h, .nil, .cons (.actions (.cons haction .nil)) .nil, .advance⟩

/-- A root action that is over in both runs leaves twins. -/
theorem World.Twin.runStep (h : w.Twin (.ofFault fault) (.ofStart base) κ w') (hrests : w.Rests)
    (hrests' : w'.Rests) (haction : Action.Twin (.ofFault fault) action action') {i k : Nat}
    (hdone : ((Script.begin w action).settle i).Done)
    (hdone' : ((Script.begin w' action').settle k).Done) :
    ∃ κ', (Script.runStep i w action).Twin (.ofFault fault) (.ofStart base) κ'
      (Script.runStep k w' action') := by
  obtain ⟨κ', -, halike⟩ :=
    (h.parallel haction).settled (fun hreport => hreport rfl) (hrests.sound_begin action)
    (hrests'.sound_begin action') hdone hdone'
  exact ⟨κ', halike.showOutcome⟩

/-- Whatever the first run comes by, the second one comes by as well. The induction is on the
root actions; between them both worlds are at rest. -/
theorem World.Twin.passes (h : w.Twin (.ofFault fault) (.ofStart base) κ w') (hrests : w.Rests)
    (hrests' : w'.Rests) (hsteps : Code.Twin (.ofFault fault) steps steps')
    (hpasses : Script.Passes w steps n u) :
    ∃ κ' u', Script.Passes w' steps' n u' ∧ u.Twin (.ofFault fault) (.ofStart base) κ' u' := by
  induction hsteps generalizing κ w w' n with
  | nil =>
    cases hpasses with
    | done => exact ⟨κ, w', .done w', h⟩
    | closed =>
      exact ⟨κ, w'.close, .closed w', h.close (fun _ heq => by cases heq) fun _ heq => by cases heq⟩
  | @cons action action' rest rest' haction _ ih =>
    have hsound := hrests.sound_begin action
    have hsound' := hrests'.sound_begin action'
    cases hpasses with
    | during hreaches =>
      obtain ⟨i, rfl⟩ := Machine.exists_settle_eq hreaches
      obtain ⟨k, -, κ', -, hparallel⟩ :=
        (h.parallel haction).settle (fun hreport => hreport rfl) hsound hsound' i
      exact ⟨κ', _, .during (Machine.reaches_settle _ k), hparallel.world⟩
    | after hreaches hdone hrest =>
      obtain ⟨i, rfl⟩ := Machine.exists_settle_eq hreaches
      obtain ⟨k, hdone'⟩ :=
        ((h.parallel haction).ends_iff (fun hreport => hreport rfl) hsound hsound').1 ⟨i, hdone⟩
      obtain ⟨κ', hnext⟩ := h.runStep hrests hrests' haction hdone hdone'
      obtain ⟨κ'', u', hpasses', htwin⟩ :=
        ih hnext (hrests.runStep hdone) (hrests'.runStep hdone') hrest
      exact ⟨κ'', u', .after (Machine.reaches_settle _ k) hdone' hpasses', htwin⟩

/-- Whatever the second run comes by, the first one comes by as well. -/
theorem World.Twin.passes_back (h : w.Twin (.ofFault fault) (.ofStart base) κ w') (hrests : w.Rests)
    (hrests' : w'.Rests) (hsteps : Code.Twin (.ofFault fault) steps steps')
    (hpasses : Script.Passes w' steps' n u') :
    ∃ κ' u, Script.Passes w steps n u ∧ u.Twin (.ofFault fault) (.ofStart base) κ' u' := by
  induction hsteps generalizing κ w w' n with
  | nil =>
    cases hpasses with
    | done => exact ⟨κ, w, .done w, h⟩
    | closed =>
      exact ⟨κ, w.close, .closed w, h.close (fun _ heq => by cases heq) fun _ heq => by cases heq⟩
  | @cons action action' rest rest' haction _ ih =>
    have hsound := hrests.sound_begin action
    have hsound' := hrests'.sound_begin action'
    cases hpasses with
    | during hreaches =>
      obtain ⟨k, rfl⟩ := Machine.exists_settle_eq hreaches
      obtain ⟨i, κ', -, hparallel⟩ :=
        (h.parallel haction).settle_second (fun hreport => hreport rfl) hsound hsound' k
      exact ⟨κ', _, .during (Machine.reaches_settle _ i), hparallel.world⟩
    | after hreaches hdone' hrest =>
      obtain ⟨k, rfl⟩ := Machine.exists_settle_eq hreaches
      obtain ⟨i, hdone⟩ :=
        ((h.parallel haction).ends_iff (fun hreport => hreport rfl) hsound hsound').2 ⟨k, hdone'⟩
      obtain ⟨κ', hnext⟩ := h.runStep hrests hrests' haction hdone hdone'
      obtain ⟨κ'', u, hpasses', htwin⟩ :=
        ih hnext (hrests.runStep hdone) (hrests'.runStep hdone') hrest
      exact ⟨κ'', u, .after (Machine.reaches_settle _ i) hdone hpasses', htwin⟩

end Runs

/-- A fault at the end of some tasks changes nothing but how these tasks end, if a stack of a
given size can always be mapped or never: each world that one of the scripts comes by is, but
for that, one that the other script comes by after as many root actions. -/
theorem faults_stay_in_their_tasks {fault : Fault} {script script' : Script}
    (h : script.Faulty fault script') (hsizes : script.SizesDecide) (n : Nat) :
    (∀ w, Script.Passes script.start script.steps n w →
      ∃ κ w', Script.Passes script'.start script'.steps n w' ∧ w.SameBut fault κ w') ∧
    ∀ w', Script.Passes script'.start script'.steps n w' →
      ∃ κ w, Script.Passes script.start script.steps n w ∧ w.SameBut fault κ w' := by
  constructor
  · intro w hpasses
    obtain ⟨κ, w', hpasses', htwin⟩ :=
      (h.twin_start hsizes).passes script.rests_start script'.rests_start h.steps hpasses
    exact ⟨κ, w', hpasses', htwin.sameBut⟩
  · intro w' hpasses
    obtain ⟨κ, w, hpasses', htwin⟩ :=
      (h.twin_start hsizes).passes_back script.rests_start script'.rests_start h.steps hpasses
    exact ⟨κ, w, hpasses', htwin.sameBut⟩

/-- Two tasks of one body, and another one between them. -/
def Script.calm : Script where
  schedulers := [.own .standard]
  tasks := Names.empty.insert "a" [.guard .null, .log .null]
  counters := .empty
  steps := [.enqueueNamed 0 "a", .enqueue 0 [.log .null], .enqueueNamed 0 "a", .run 0 none false]

theorem Script.sizesDecide_calm : Script.calm.SizesDecide := fun _ _ => rfl

/-- The world that the script leaves. -/
def Script.calmed : World := (runSteps 60 none World.rootState calm.start calm.steps).2

theorem faulty_calm (fault : Fault) : Script.calm.Faulty fault (Script.calm.harm "a" fault) := by
  refine Script.faulty_harm (fun resource hresource => ?_) (fun name resource hresource => ?_) "a"
  · have hcode : Action.codeResources Script.calm.steps =
      [.position 0, .task "a", .position 0, .position 0, .task "a", .position 0] := by
      with_unfolding_all rfl
    rw [hcode] at hresource
    rintro rfl
    simp at hresource
  · by_cases heq : name = "a"
    · subst heq
      have hbody : Script.calm.tasks.get? "a" = some [.guard .null, .log .null] :=
        Names.get?_insert_self ..
      have hcode : Action.codeResources [.guard .null, .log .null] = [] := by with_unfolding_all rfl
      rw [hbody, Option.getD_some, hcode] at hresource
      cases hresource
    · have hbody : Script.calm.tasks.get? name = none := Names.get?_insert_of_ne _ _ heq
      rw [hbody] at hresource
      cases hresource

theorem panicking_tasks_stay_alone :
    Script.calm.Faulty (.panics (.text "over")) (Script.calm.harm "a" (.panics (.text "over"))) ∧
      Script.calm.SizesDecide ∧
      ∃ κ w', Script.Passes (Script.calm.harm "a" (.panics (.text "over"))).start
        (Script.calm.harm "a" (.panics (.text "over"))).steps 4 w' ∧
        Script.calmed.SameBut (.panics (.text "over")) κ w' := by
  have hends : Script.Ends 60 Script.calm.start Script.calm.steps := by
    refine ⟨⟨?_, ?_⟩, ⟨?_, ?_⟩, ⟨?_, ?_⟩, ⟨?_, ?_⟩, trivial⟩ <;> with_unfolding_all rfl
  have hfaulty := faulty_calm (.panics (.text "over"))
  exact ⟨hfaulty, Script.sizesDecide_calm,
    (faults_stay_in_their_tasks hfaulty Script.sizesDecide_calm 4).1 Script.calmed
    (Script.passes_runSteps 60 none World.rootState hends)⟩

end Fibers
