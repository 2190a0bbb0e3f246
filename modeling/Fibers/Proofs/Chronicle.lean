import Fibers.Proofs.Handovers

/-!
What is written into the history. Nothing that was written is ever taken back, and what is
written besides is of a few kinds: the warnings of drivers, the returns of foreign calls,
each together with what it shows, and everything else. The last error follows the returns
that are written: it is the text of the failure that was written last.
-/

namespace Fibers

/-- The failure of a foreign call that came back. -/
def Happening.failure? : Happening → Option Failure
  | .mark (.returned _ failure) => failure
  | _ => none

/-- The text of a failure as the foreign side gets it. -/
def Failure.foreignText (failure : Failure) : String := Text.withoutNul failure.oneLine

/-- The last error after some happenings, from what it was before them. -/
def lastTold (news : List Happening) (before : Option String) : Option String :=
  ((news.filterMap Happening.failure?).getLast?.map Failure.foreignText).or before

theorem lastTold_append (first second : List Happening) (before : Option String) :
    lastTold (first ++ second) before = lastTold second (lastTold first before) := by
  rw [lastTold, List.filterMap_append, List.getLast?_append, lastTold, lastTold]
  cases (second.filterMap Happening.failure?).getLast? <;> rfl

theorem failure?_eq_none {happening : Happening} (h : happening.isReturn = false) :
    happening.failure? = none := by
  cases happening with
  | mark told => cases told <;> first | rfl | cases h
  | entry | event => rfl

theorem lastTold_single {happening : Happening} (h : happening.isReturn = false)
    (before : Option String) : lastTold [happening] before = before := by
  rw [lastTold, List.filterMap_cons, failure?_eq_none h]
  rfl

/-- What a foreign call of a name shows when it comes back: a code, which is minus one if the
call failed, or a pointer, which is null if an await failed. With a failure its text is shown. -/
inductive Happening.Shows : String → Option Failure → Happening → Prop
  | code (current : Option FiberId) (name : String) (code : Nat) :
      Shows name none (.entry current name (.record [("code", .nat code)]))
  | pointer (current : Option FiberId) {value : Nat} (hvalue : value ≠ 0) :
      Shows "await" none (.entry current "got" (.record [("value", .nat value)]))
  | zero (current : Option FiberId) (lastError : Datum) :
      Shows "await" none
        (.entry current "got" (.record [("value", .int 0), ("last_error", lastError)]))
  | refused (current : Option FiberId) (name : String) (failure : Failure) :
      Shows name (some failure)
      (.entry current name
        (.record [("code", .int (-1)), ("last_error", .text failure.foreignText)]))
  | null (current : Option FiberId) (failure : Failure) : Shows "await" (some failure)
      (.entry current "got"
        (.record [("value", .int 0), ("last_error", .text failure.foreignText)]))

/-- A foreign call comes back and shows what it returns. -/
def TellsReturn (name : String) (failure : Option Failure) (news : List Happening) : Prop :=
  ∃ shown, Happening.Shows name failure shown ∧ news = [.mark (.returned name failure), shown]

/-- A property of what is written, which holds of everything that is neither a warning of a
driver nor the return of a foreign call. -/
structure Unremarkable (Q : List Happening → Prop) : Prop where
  nil : Q []
  append {first second : List Happening} (hfirst : Q first) (hsecond : Q second) :
    Q (first ++ second)
  single {happening : Happening} (hloss : happening.isLoss = false)
    (hreturn : happening.isReturn = false) : Q [happening]

namespace World

variable {Q : List Happening → Prop} {a b c w w' : World}

/-- What was written in between is as the property says, and the last error follows it. -/
def Adds (Q : List Happening → Prop) (a b : World) : Prop :=
  ∃ news, b.history.toList = a.history.toList ++ news ∧ Q news ∧
    b.lastError = lastTold news a.lastError

namespace Adds

variable (hQ : Unremarkable Q)

include hQ

theorem same (history : b.history = a.history) (lastError : b.lastError = a.lastError) :
    a.Adds Q b :=
  ⟨[], by rw [history, List.append_nil], hQ.nil, lastError⟩

theorem trans (first : a.Adds Q b) (second : b.Adds Q c) : a.Adds Q c := by
  obtain ⟨news, hnews, hfirst, herror⟩ := first
  obtain ⟨more, hmore, hsecond, herror'⟩ := second
  refine ⟨news ++ more, ?_, hQ.append hfirst hsecond, ?_⟩
  · rw [hmore, hnews, List.append_assoc]
  · rw [herror', herror, lastTold_append]

omit hQ in
theorem write (w : World) {happening : Happening} (h : Q [happening])
    (hreturn : happening.isReturn = false) :
    w.Adds Q { w with history := w.history.push happening } :=
  ⟨[happening], Array.toList_push, h, (lastTold_single hreturn _).symm⟩

theorem tell (w : World) {event : Event} (h : event.isLoss = false) : w.Adds Q (w.tell event) :=
  write w (hQ.single h rfl) rfl

theorem mark (w : World) {told : Mark} (h : (Happening.mark told).isReturn = false) :
    w.Adds Q (w.mark told) :=
  write w (hQ.single rfl h) h

theorem release (w : World) (work : List Debris) : w.Adds Q (w.release work) := by
  have hnote : ∀ (u : World) (relic : Relic), u.Adds Q (u.note relic) := fun u relic => by
    cases relic with
    | dropped value => exact write u (hQ.single rfl rfl) rfl
    | discarded | vanished => exact mark hQ u rfl
  have hnotes : ∀ (relics : List Relic) (u : World),
      u.Adds Q (relics.foldl note u) := fun relics => by
    induction relics with
    | nil => exact fun u => same hQ rfl rfl
    | cons relic rest ih => exact fun u => trans hQ (hnote u relic) (ih _)
  rw [World.release]
  exact trans hQ (same hQ rfl rfl) (hnotes _ _)

theorem updateScheduler (w : World) (s : SchedulerId) (g : Scheduler → Scheduler) :
    w.Adds Q (w.updateScheduler s g) :=
  same hQ rfl rfl

theorem append (w : World) (s : SchedulerId) (entry : Runnable) : w.Adds Q (w.append s entry) :=
  trans hQ (updateScheduler hQ w s _) (mark hQ _ rfl)

theorem disown (w : World) (s : SchedulerId) : w.Adds Q (w.disown s) := by
  rw [World.disown]
  split
  · exact same hQ rfl rfl
  · split
    · exact trans hQ (updateScheduler hQ w s _) (release hQ _ _)
    · exact updateScheduler hQ w s _

theorem enqueue (w : World) (s : SchedulerId) (body : List Action) :
    w.Adds Q (w.enqueue s body).2 := by
  rw [World.enqueue]
  split
  · exact same hQ rfl rfl
  · exact trans hQ (updateScheduler hQ w s _) (trans hQ (mark hQ _ rfl) (tell hQ _ rfl))

theorem bind (w : World) (name : String) (fiber : Fiber) : w.Adds Q (w.bind name fiber) := by
  have hlaid : w.Adds Q { w with coroutines := w.coroutines.insert name fiber } := same hQ rfl rfl
  rw [World.bind]
  split
  · exact hlaid
  · exact trans hQ hlaid (release hQ _ _)

theorem park (w : World) (x : HandleRef) (fiber : Fiber) (owner : Owner) :
    w.Adds Q (w.park x fiber owner).2 := by
  cases hcell : w.handles.get? x with
  | none =>
    rw [World.park, hcell]
    exact same hQ rfl rfl
  | some cell =>
    have hparks := parks hcell fiber owner
    generalize w.park x fiber owner = result at hparks
    cases hparks with
    | absorbed hslot u hu =>
      have hbefore : w.Adds Q u := by
        rcases hu with rfl | rfl
        · exact same hQ rfl rfl
        · exact tell hQ w (Event.isLoss_unheld _)
      exact trans hQ hbefore (trans hQ (same hQ rfl rfl) (release hQ _ _))
    | met => exact trans hQ (same hQ rfl rfl) (release hQ _ _)
    | refused => exact trans hQ (tell hQ w (Event.isLoss_usedHandle _)) (release hQ _ _)

theorem wake (w : World) (x : HandleRef) (owner : Owner) (resumption : Resumption) :
    w.Adds Q (w.wake x owner resumption).2 := by
  cases hcell : w.handles.get? x with
  | none =>
    rw [World.wake, hcell]
    exact same hQ rfl rfl
  | some cell =>
    have hwakes := wakes hcell owner resumption
    generalize w.wake x owner resumption = result at hwakes
    cases hwakes with
    | stored | met =>
      exact trans hQ (same hQ rfl rfl) (trans hQ (mark hQ (w.setSlot x _) rfl) (release hQ _ _))
    | refused => exact release hQ w _

omit hQ in
theorem mono {Q' : List Happening → Prop} (h : a.Adds Q b) (hmono : ∀ {news}, Q news → Q' news) :
    a.Adds Q' b := by
  obtain ⟨news, hnews, hQ, herror⟩ := h
  exact ⟨news, hnews, hmono hQ, herror⟩

omit hQ in
theorem comesBack {name : String} {failure : Option Failure} (h : w.ComesBack name failure w') :
    w.Adds (TellsReturn name failure) w' := by
  have hadds : ∀ {shown}, Happening.Shows name failure shown →
      w'.history = (w.history.push (.mark (.returned name failure))).push shown →
        w'.lastError = (failure.map Failure.foreignText).or w.lastError →
          w.Adds (TellsReturn name failure) w' :=
    fun hshows hhistory herror =>
      ⟨_, by simp [hhistory], ⟨_, hshows, rfl⟩, herror.trans (by cases hshows <;> rfl)⟩
  cases h with
  | code name code => exact hadds (.code w.currentId name code) rfl rfl
  | pointer value =>
    by_cases hvalue : value = 0
    · exact hadds (.zero w.currentId w.lastErrorDatum) (by rw [if_pos hvalue]; rfl) rfl
    · exact hadds (.pointer w.currentId hvalue) (by rw [if_neg hvalue]; rfl) rfl
  | refused name failure => exact hadds (.refused w.currentId name failure) rfl rfl
  | null failure => exact hadds (.null w.currentId failure) rfl rfl

end Adds

/-- Run loops and all operations of programs write something unremarkable, but for the warnings
of drivers and the returns of foreign calls. -/
theorem rounds_adds (hQ : Unremarkable Q) : AdmitsRounds fun a _ b _ => a.Adds Q b where
  trans := Adds.trans hQ
  rest _ _ _ history lastError := .same hQ history lastError
  write w happening hloss hreturn := .write w (hQ.single hloss hreturn) hreturn
  release w work := .release hQ w work
  retain _ _ _ := .same hQ rfl rfl
  makeHandle _ _ _ := .same hQ rfl rfl
  own w s _ := .updateScheduler hQ w s _
  disown w s := .disown hQ w s
  enqueue w s _ body := .enqueue hQ w s body
  pick _ _ _ := .same hQ rfl rfl
  take h := by
    rw [takeCoroutine?, Option.map_eq_some_iff] at h
    obtain ⟨found, -, heq⟩ := h
    cases heq
    exact .same hQ rfl rfl
  bind := .bind hQ
  unwind w fiber := .release hQ w fiber.debris
  park w _ _ := .park hQ w _
  wake := .wake hQ
  append w s _ fiber resumption := .append hQ w s (.woken fiber resumption)
  next h := by
    obtain ⟨queue, -, rfl⟩ := next?_eq h
    exact .trans hQ (.updateScheduler hQ _ _ _) (.mark hQ _ rfl)
  tune w s g _ _ := .updateScheduler hQ w s g

/-- So do foreign calls that come back, if the property says so of what they tell and show. -/
theorem turns_adds (hQ : Unremarkable Q)
    (hreturns : ∀ {name failure news}, TellsReturn name failure news → Q news) :
    AdmitsTurns fun a _ b _ => a.Adds Q b where
  toAdmitsWork := (rounds_adds hQ).toAdmitsWork
  comesBack h := (Adds.comesBack h).mono hreturns
  next := (rounds_adds hQ).next
  tune := (rounds_adds hQ).tune

theorem adds_close (hQ : Unremarkable Q) (w : World) : w.Adds Q w.close := by
  have hslots : w.Adds Q { w with slots := .empty } := .same hQ rfl rfl
  have hhandles := Adds.trans hQ hslots (.release hQ _ (w.slots.values.map Debris.handle))
  rw [close]
  exact .trans hQ hhandles (.trans hQ (.same hQ rfl rfl) (.release hQ _ _))

end World

end Fibers
