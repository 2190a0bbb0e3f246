import Mathlib.Data.List.Nodup
import Fibers.Proofs.Ledger
import Fibers.Proofs.Stacks

/-!
Most of what a program does passes by the fibers that wait. A world drifts when
handles and schedulers change hands, lose owners or go, and things are written
down, while nothing is put into a slot or a queue, and nothing taken out by
anyone who waits for it. Operations that only drift are shown here to keep the
books right as well; whatever else a step does is treated on its own.
-/

namespace Fibers

open Asset (cloneOf looseOf shareOf postOf taskOf fiberOf)

/-! ### What goes unnoticed -/

/-- Statements about runs look for two events only. -/
def Event.IsQuiet (event : Event) : Prop :=
  (∀ fiber, event ≠ .usedHandle fiber) ∧ ∀ fibers, event ≠ .settled fibers

namespace Event

theorem isQuiet_of {event : Event}
    (hwarn : event.level = .warn → event.message ≠ "suspended on a handle that was already used")
    (hdebug : event.level = .debug → event.message ≠ "host work settled; resuming waiters") :
    event.IsQuiet :=
  ⟨fun _ h => hwarn (h ▸ rfl) (h ▸ rfl), fun _ h => hdebug (h ▸ rfl) (h ▸ rfl)⟩

theorem isQuiet_warn {event : Event} (hlevel : event.level = .warn)
    (h : event.message ≠ "suspended on a handle that was already used") : event.IsQuiet :=
  isQuiet_of (fun _ => h) fun hdebug => by simp [hlevel] at hdebug

theorem isQuiet_debug {event : Event} (hlevel : event.level = .debug)
    (h : event.message ≠ "host work settled; resuming waiters") : event.IsQuiet :=
  isQuiet_of (fun hwarn => by simp [hlevel] at hwarn) fun _ => h

variable (fiber : FiberId) (reason : String)

/-- A text that starts otherwise is another text. -/
private theorem ne_of_head {a b : String} (h : a.toList.head? ≠ b.toList.head?) : a ≠ b :=
  fun heq => h (heq ▸ rfl)

theorem isQuiet_poolHit : poolHit.IsQuiet := isQuiet_of nofun nofun

theorem isQuiet_poolMiss (size : Nat) : (poolMiss size).IsQuiet := isQuiet_of nofun nofun

theorem isQuiet_poolFull (size : Nat) : (poolFull size).IsQuiet := isQuiet_of nofun nofun

theorem isQuiet_noStack : (noStack fiber reason).IsQuiet := isQuiet_of nofun nofun

theorem isQuiet_panicked : (panicked fiber reason).IsQuiet := isQuiet_of nofun nofun

theorem isQuiet_resumedEarly : (resumedEarly fiber).IsQuiet :=
  isQuiet_debug rfl (by simp [resumedEarly, about])

theorem isQuiet_queuedInside : (queuedInside fiber).IsQuiet :=
  isQuiet_debug rfl (by simp [queuedInside, about])

theorem isQuiet_resuming : (resuming fiber).IsQuiet := isQuiet_debug rfl (by simp [resuming, about])

theorem isQuiet_suspended : (suspended fiber).IsQuiet :=
  isQuiet_debug rfl (by simp [suspended, about])

theorem isQuiet_finished : (finished fiber).IsQuiet := isQuiet_debug rfl (by simp [finished, about])

theorem isQuiet_driverIdle : driverIdle.IsQuiet := isQuiet_debug rfl (by simp [driverIdle])

theorem isQuiet_enqueued (queued : Nat) : (enqueued fiber queued).IsQuiet :=
  isQuiet_debug rfl (by simp [enqueued])

theorem isQuiet_unheld : (unheld fiber).IsQuiet := isQuiet_warn rfl (by simp [unheld, about])

theorem isQuiet_destroyed : (destroyed fiber).IsQuiet :=
  isQuiet_warn rfl (by simp [destroyed, about])

theorem isQuiet_rejected : (rejected fiber reason).IsQuiet :=
  isQuiet_warn rfl (ne_of_head (by simp [rejected, about]))

theorem isQuiet_failed : (failed fiber reason).IsQuiet :=
  isQuiet_warn rfl (ne_of_head (by simp [failed, about]))

theorem isQuiet_waiterLost : (waiterLost fiber reason).IsQuiet :=
  isQuiet_warn rfl (ne_of_head (by simp [waiterLost, about]))

theorem isQuiet_callLost : (callLost fiber reason).IsQuiet :=
  isQuiet_warn rfl (ne_of_head (by simp [callLost, about]))

end Event

def Mark.IsQuiet : Mark → Prop
  | .discarded .. | .vanished .. | .returned .. => True
  | _ => False

def Happening.IsQuiet : Happening → Prop
  | .entry .. => True
  | .event told => told.IsQuiet
  | .mark told => told.IsQuiet

/-- A scheduler after changes that its queue does not notice, or after its last
owner went, and with it the queue. -/
inductive Scheduler.SameOrGone : Option Scheduler → Option Scheduler → Prop
  | none : SameOrGone none none
  | kept {a b : Scheduler} (queue : b.queue = a.queue) (lastId : b.lastId = a.lastId)
      (dead : a.owners = 0 → b.owners = 0) : SameOrGone (some a) (some b)
  | closed {a b : Scheduler} (queue : b.queue = []) (lastId : b.lastId = a.lastId)
      (dead : b.owners = 0) : SameOrGone (some a) (some b)

theorem Scheduler.SameOrGone.refl (scheduler : Option Scheduler) :
    SameOrGone scheduler scheduler := by
  cases scheduler with
  | none => exact .none
  | some scheduler => exact .kept rfl rfl id

theorem Scheduler.SameOrGone.trans {a b c : Option Scheduler} (first : SameOrGone a b)
    (second : SameOrGone b c) :
    SameOrGone a c := by
  cases first with
  | none => exact second
  | kept queue lastId dead =>
    cases second with
    | kept queue' lastId' dead' =>
      exact .kept (queue'.trans queue) (lastId'.trans lastId) (dead' ∘ dead)
    | closed queue' lastId' dead' => exact .closed queue' (lastId'.trans lastId) dead'
  | closed queue lastId dead =>
    cases second with
    | kept queue' lastId' dead' =>
      exact .closed (queue'.trans queue) (lastId'.trans lastId) (dead' dead)
    | closed queue' lastId' dead' => exact .closed queue' (lastId'.trans lastId) dead'

/-- A driver, whether or not it has been notified. -/
def Driver.muted (driver : Driver) : Driver := { driver with notified := false }

/-- Who issued a call, and which handle it holds. -/
def HostCall.claim (call : HostCall) : Nat × DriverId × Option HandleRef :=
  (call.key, call.driver,
    match call.state with
    | .holding handle _ => some handle
    | .handing => none)

/-- What a call keeps for its fiber: the handle and how its future ends, whatever work is
left. -/
def HostCall.promise (call : HostCall) : Nat × Option (HandleRef × Ending) :=
  (call.key,
    match call.state with
    | .holding handle work => some (handle, work.ending)
    | .handing => none)

namespace World

/-- What the calls that are alive keep for their fibers. -/
def promises (w : World) : List (Nat × Option (HandleRef × Ending)) :=
  w.agenda.elim [] fun agenda => agenda.calls.map HostCall.promise

def claims (w : World) : Option (List (Nat × DriverId × Option HandleRef)) :=
  w.agenda.map fun agenda => agenda.calls.map HostCall.claim

/-- A call of the driver has ended since it looked last. -/
def notified (w : World) (d : DriverId) : Bool := (w.driver? d).any Driver.notified

/-- What a scheduler has counted. -/
def counted (w : World) (s : SchedulerId) : Option Counters :=
  (w.scheduler? s).map Scheduler.counters

theorem counted_updateScheduler (w : World) (s : SchedulerId) {g : Scheduler → Scheduler}
    (hg : ∀ scheduler, (g scheduler).counters = scheduler.counters) :
    (w.updateScheduler s g).counted = w.counted := by
  funext t
  rw [counted, scheduler?_updateScheduler, counted]
  split
  · cases w.scheduler? t with
    | none => rfl
    | some scheduler => exact congrArg some (hg scheduler)
  · rfl

/-- Nobody who waits notices the change, and no scheduler counts anything. -/
structure Drift (w w' : World) : Prop where
  current : w'.current = w.current
  drivers : w'.drivers.map Driver.muted = w.drivers.map Driver.muted
  /-- A notification stays until its driver looks for it. -/
  alerts : ∀ d, w.notified d = true → w'.notified d = true
  places : w'.positions.map Position.driver = w.positions.map Position.driver
  callsMade : w'.callsMade = w.callsMade
  claims : w'.claims = w.claims
  promises : w'.promises = w.promises
  cells : ∀ x, HandleTable.SameOrGone (w.handles.get? x) (w'.handles.get? x)
  schedulers : ∀ s, Scheduler.SameOrGone (w.scheduler? s) (w'.scheduler? s)
  counted : w'.counted = w.counted
  coroutines : ∀ fiber ∈ w'.coroutines.values, fiber ∈ w.coroutines.values ∨ fiber.Rests none
  history : ∃ news, w'.history.toList = w.history.toList ++ news ∧ ∀ x ∈ news, x.IsQuiet

namespace Drift

variable {a b c w : World}

theorem refl (w : World) : w.Drift w :=
  ⟨rfl, rfl, fun _ => id, rfl, rfl, rfl, rfl, fun _ => .refl _, fun _ => .refl _, rfl,
    fun _ => .inl, [], by simp, by simp⟩

theorem trans (first : a.Drift b) (second : b.Drift c) : a.Drift c where
  current := second.current.trans first.current
  drivers := second.drivers.trans first.drivers
  alerts d := second.alerts d ∘ first.alerts d
  places := second.places.trans first.places
  callsMade := second.callsMade.trans first.callsMade
  claims := second.claims.trans first.claims
  promises := second.promises.trans first.promises
  cells x := (first.cells x).trans (second.cells x)
  schedulers s := (first.schedulers s).trans (second.schedulers s)
  counted := second.counted.trans first.counted
  coroutines fiber member := (second.coroutines fiber member).elim (first.coroutines fiber) .inr
  history := by
    obtain ⟨news, hnews, hquiet⟩ := first.history
    obtain ⟨more, hmore, hquiet'⟩ := second.history
    refine ⟨news ++ more, by rw [hmore, hnews, List.append_assoc], fun x hx => ?_⟩
    exact (List.mem_append.1 hx).elim (hquiet x) (hquiet' x)

/-- The rest of a world may change freely. -/
theorem of_same (current : b.current = a.current) (drivers : b.drivers = a.drivers)
    (places : b.positions.map Position.driver = a.positions.map Position.driver)
    (callsMade : b.callsMade = a.callsMade) (agenda : b.agenda = a.agenda)
    (handles : b.handles = a.handles) (schedulers : b.schedulers = a.schedulers)
    (coroutines : b.coroutines = a.coroutines) (history : b.history = a.history) : a.Drift b where
  current := current
  drivers := by rw [drivers]
  alerts d := by rw [notified, driver?, ← drivers]; exact id
  places := places
  callsMade := callsMade
  claims := by rw [World.claims, agenda, World.claims]
  promises := by rw [World.promises, agenda, World.promises]
  cells x := by rw [handles]; exact .refl _
  schedulers s := by rw [scheduler?, scheduler?, schedulers]; exact .refl _
  counted := by funext s; rw [World.counted, scheduler?, schedulers, World.counted, scheduler?]
  coroutines fiber member := .inl (coroutines ▸ member)
  history := ⟨[], by rw [history, List.append_nil], by simp⟩

theorem write (news : List Happening) (hquiet : ∀ x ∈ news, x.IsQuiet) :
    a.Drift { a with history := a.history ++ news.toArray } :=
  { refl a with history := ⟨news, by simp, hquiet⟩ }

theorem driverAt (h : a.Drift b) (position : Nat) : b.driverAt position = a.driverAt position := by
  have := congrArg (fun places => (places[position]?).bind id) h.places
  simp only [List.getElem?_map, Option.bind_map, Function.id_comp] at this
  exact this

theorem fedBy (h : a.Drift b) (d : DriverId) : b.fedBy d = a.fedBy d := by
  have hmuted := congrArg (fun drivers => (drivers[d.index]?).map Driver.scheduler) h.drivers
  simp only [List.getElem?_map, Option.map_map] at hmuted
  exact hmuted

theorem keeps (h : a.Drift b) : a.Keeps b where
  fed {d s} hd := (h.fedBy d).trans hd
  handing {key} hkey := by
    refine ⟨h.callsMade ▸ hkey.1, fun agenda hagenda call member heq => ?_⟩
    have hclaims := h.claims
    cases hbefore : a.agenda with
    | none => simp [World.claims, hagenda, hbefore] at hclaims
    | some before =>
      simp only [World.claims, hagenda, hbefore, Option.map_some, Option.some.injEq] at hclaims
      have hclaim : call.claim ∈ before.calls.map HostCall.claim :=
        hclaims ▸ List.mem_map_of_mem member
      obtain ⟨old, hold, hclaim⟩ := List.mem_map.1 hclaim
      have hhanding := hkey.2 before hbefore old hold (by
        have := congrArg Prod.fst hclaim
        simp only [HostCall.claim] at this
        omega)
      have hstate := congrArg (fun claim => claim.2.2) hclaim
      simp only [HostCall.claim, hhanding] at hstate
      cases hcall : call.state with
      | holding => simp [hcall] at hstate
      | handing => rfl

end Drift

theorem Drift.isSome_scheduler? {a b : World} (h : a.Drift b) (s : SchedulerId) :
    (b.scheduler? s).isSome = (a.scheduler? s).isSome := by
  have hsameOrGone := h.schedulers s
  generalize a.scheduler? s = before, b.scheduler? s = after at hsameOrGone
  cases hsameOrGone <;> rfl

/-! ### Places of fibers -/

/-- Fibers that a world keeps are where they belong, and handles that nobody holds
keep none. -/
structure Orderly (w : World) : Prop where
  queued : ∀ s fiber resumption, .woken fiber resumption ∈ w.queue s → fiber.Rests (some s)
  parked : ∀ x cell fiber owner, w.handles.get? x = some cell → cell.slot = .parked fiber owner →
    fiber.Rests owner.home ∧ 0 < cell.clones
  named : ∀ fiber ∈ w.coroutines.values, fiber.Rests none
  driven : ∀ position d, w.driverAt position = some d → (w.driver? d).isSome

/-- A queue that nothing came to holds what it held, or nothing. -/
theorem queue_of_sameOrGone {a b : World} {s : SchedulerId}
    (h : Scheduler.SameOrGone (a.scheduler? s) (b.scheduler? s)) :
    b.queue s = a.queue s ∨ b.queue s = [] := by
  unfold queue
  generalize a.scheduler? s = before, b.scheduler? s = after at h
  cases h with
  | none => exact .inl rfl
  | kept hqueue => exact .inl hqueue
  | closed hqueue => exact .inr hqueue

theorem mem_queue_of_sameOrGone {a b : World} {s : SchedulerId} {entry : Runnable}
    (h : Scheduler.SameOrGone (a.scheduler? s) (b.scheduler? s)) (member : entry ∈ b.queue s) :
    entry ∈ a.queue s := by
  rcases queue_of_sameOrGone h with hsame | hnil
  · exact hsame ▸ member
  · rw [hnil] at member
    cases member

theorem Orderly.drift {a b : World} (h : a.Orderly) (hdrift : a.Drift b) : b.Orderly where
  queued s fiber resumption member := by
    rcases queue_of_sameOrGone (hdrift.schedulers s) with hqueue | hqueue <;> rw [hqueue] at member
    · exact h.queued s fiber resumption member
    · cases member
  parked x cell fiber owner hcell hslot := by
    have hsameOrGone := hdrift.cells x
    rw [hcell] at hsameOrGone
    generalize hold : a.handles.get? x = old at hsameOrGone
    cases hsameOrGone with
    | kept halive =>
      obtain ⟨hrests, hpos⟩ := h.parked x _ fiber owner hold hslot
      exact ⟨hrests, Nat.pos_of_ne_zero fun hzero => absurd (halive.2 hzero) (Nat.ne_of_gt hpos)⟩
    | emptied => cases hslot
  named fiber member := (hdrift.coroutines fiber member).elim (h.named fiber) id
  driven position d hd := by
    have hlength := congrArg List.length hdrift.drivers
    have hold := h.driven position d (by rwa [← hdrift.driverAt])
    simp only [List.length_map] at hlength
    rw [driver?, isSome_getElem?] at hold ⊢
    omega

/-! ### Shifts -/

/-- A program may come by the handle. -/
def Shows (w : World) (out : List Asset) (x : HandleRef) : Prop :=
  0 < w.worth (looseOf x) + weigh (looseOf x) out

theorem shows_cons {w : World} {a : Asset} {out : List Asset} {x : HandleRef}
    (h : looseOf x a = 0) : w.Shows (a :: out) x ↔ w.Shows out x := by
  rw [Shows, weigh_cons, h, Nat.zero_add, Shows]

/-- The world drifted, the books are right, and no handle came to light. -/
structure Shifted (w : World) (out : List Asset) (w' : World) (out' : List Asset) : Prop where
  balanced : w'.Balanced out'
  drift : w.Drift w'
  shows : ∀ x, w'.Shows out' x → w.Shows out x

/-- The first assets become the second ones, whatever else is held outside. -/
def Shift (w : World) (out : List Asset) (w' : World) (out' : List Asset) : Prop :=
  ∀ rest, w.Balanced (out ++ rest) → w.Shifted (out ++ rest) w' (out' ++ rest)

namespace Shift

variable {a b c w w' : World} {out out' out'' : List Asset}

theorem refl (w : World) (out : List Asset) : w.Shift out w out :=
  fun _ h => ⟨h, .refl w, fun _ => id⟩

theorem trans (first : a.Shift out b out') (second : b.Shift out' c out'') :
    a.Shift out c out'' := by
  intro rest h
  have hfirst := first rest h
  have hsecond := second rest hfirst.balanced
  exact ⟨hsecond.balanced, hfirst.drift.trans hsecond.drift,
    fun x hx => hfirst.shows x (hsecond.shows x hx)⟩

/-- Assets that are not touched stay. -/
theorem beside (h : a.Shift out b out') (more : List Asset) :
    a.Shift (out ++ more) b (out' ++ more) := by
  intro rest
  simp only [List.append_assoc]
  exact h (more ++ rest)

theorem gain (h : a.Shift [] b out') (more : List Asset) : a.Shift more b (out' ++ more) :=
  h.beside more

/-- The order of assets does not matter. -/
theorem recount (w : World) (h : ∀ f, Asset.Fair f → weigh f out = weigh f out') :
    w.Shift out w out' := by
  intro rest hbalanced
  have hweigh : ∀ f, Asset.Fair f → weigh f (out' ++ rest) = weigh f (out ++ rest) :=
    fun f hf => by rw [weigh_append, weigh_append, h f hf]
  exact ⟨hbalanced.recount hweigh, .refl w, fun x hx => by
    simpa only [Shows, hweigh _ (Asset.fair_looseOf x)] using hx⟩

/-- A change that touches nothing that has weight. -/
theorem of_drift (hdrift : a.Drift b) (hbalanced : ∀ out, a.Balanced out → b.Balanced out)
    (hworth : ∀ f, b.worth f = a.worth f) : a.Shift out b out :=
  fun rest h => ⟨hbalanced _ h, hdrift, fun x hx => by simpa only [Shows, hworth] using hx⟩

end Shift

theorem shift_emit (w : World) (name : String) (payload : Datum) (out : List Asset) :
    w.Shift out (w.emit name payload) out :=
  .of_drift (by
    have := Drift.write (a := w) [.entry w.currentId name payload] (by simp [Happening.IsQuiet])
    simpa [emit] using this) (fun _ h => h.emit name payload) fun _ => rfl

theorem shift_tell (w : World) {event : Event} (h : event.IsQuiet) (out : List Asset) :
    w.Shift out (w.tell event) out :=
  .of_drift (by
    have := Drift.write (a := w) [.event event] (by simpa [Happening.IsQuiet] using h)
    simpa [tell] using this) (fun _ hbalanced => hbalanced.tell event) fun _ => rfl

theorem shift_returned (w : World) (name : String) (failure : Option Failure) (out : List Asset) :
    w.Shift out (w.mark (.returned name failure)) out :=
  .of_drift (by
    have := Drift.write (a := w) [.mark (.returned name failure)]
      (by simp [Happening.IsQuiet, Mark.IsQuiet])
    simpa [mark] using this)
    (fun _ hbalanced => hbalanced.mark _ (fun _ => rfl) (fun _ => rfl) (fun _ _ => rfl)
      (fun _ _ => rfl) (fun _ => Nat.le_refl _) (fun _ => rfl) (fun _ _ => rfl)
      (fun _ => Nat.le_refl _) (fun _ => Nat.le_refl _) fun _ => Nat.le_refl _) fun _ => rfl

theorem drift_release (w : World) (work : List Debris) : w.Drift (w.release work) := by
  rw [release_eq]
  refine { Drift.refl w with
    cells := w.handles.release_sameOrGone work, history := ⟨_, Array.toList_append .., ?_⟩ }
  intro x hx
  obtain ⟨relic, -, rfl⟩ := List.mem_map.1 hx
  cases relic <;> trivial

/-- Whatever is released goes out of the books. -/
theorem shift_release_of (w : World) {work : List Debris} {out out' : List Asset}
    (hbare : ∀ f, Asset.Bare f → weigh f out = weigh f (loosen work) + weigh f out')
    (hle : ∀ f, weigh f out' ≤ weigh f out) : w.Shift out (w.release work) out' := by
  intro rest h
  refine ⟨h.release (fun f hf => ?_) (fun f => ?_), w.drift_release work, fun x hx => ?_⟩
  · rw [weigh_append, weigh_append, hbare f hf, Nat.add_assoc]
  · rw [weigh_append, weigh_append]
    exact Nat.add_le_add_right (hle f) _
  · have := worth_release_le (w := w) work (looseOf x)
    have := hle (looseOf x)
    simp only [Shows, weigh_append] at hx ⊢
    omega

theorem shift_release (w : World) (work : List Debris) :
    w.Shift (loosen work) (w.release work) [] :=
  w.shift_release_of (fun f _ => by simp) fun f => by simp

/-! ### Handles and slots -/

/-- Changes that leave everything alone that can drift. -/
theorem shift_rest (w w' : World) (out : List Asset) (current : w'.current = w.current)
    (drivers : w'.drivers = w.drivers)
    (places : w'.positions.map Position.driver = w.positions.map Position.driver)
    (callsMade : w'.callsMade = w.callsMade) (agenda : w'.agenda = w.agenda)
    (handles : w'.handles = w.handles) (schedulers : w'.schedulers = w.schedulers)
    (coroutines : w'.coroutines = w.coroutines) (history : w'.history = w.history)
    (hfigures : w'.figures = w.figures) (hworth : ∀ f, w'.worth f = w.worth f) :
    w.Shift out w' out :=
  .of_drift (.of_same current drivers places callsMade agenda handles schedulers coroutines history)
    (fun _ h => h.transfer hfigures fun f _ => by rw [hworth]) hworth

theorem le_worth_of_slot {w : World} {name : String} {x : HandleRef}
    (h : w.slots.get? name = some x) (f : Asset → Nat) : f (.loose (.handle x)) ≤ w.worth f := by
  have := Names.weigh_erase (fun x => f (.loose (.handle x))) w.slots name
  simp only [h, Option.elim_some] at this
  simp only [worth]
  omega

/-- A clone of a handle that a name owns. -/
theorem shift_retain {w : World} {name : String} {x : HandleRef}
    (h : w.slots.get? name = some x) : w.Shift [] (w.retain x) [.loose (.handle x)] := by
  intro rest hbalanced
  have hclone := le_worth_of_slot h (cloneOf x)
  have hloose := le_worth_of_slot h (looseOf x)
  simp only [cloneOf, looseOf, if_true] at hclone hloose
  obtain ⟨cell, hcell, halive⟩ := hbalanced.clones_pos (x := x) (by omega)
  have hput : w.retain x =
      { w with handles := w.handles.put x { cell with clones := cell.clones + 1 } } := by
    simp only [retain, HandleTable.retain, hcell]
  refine ⟨hbalanced.retain hcell, ?_, fun y hy => ?_⟩
  · rw [hput]
    refine { Drift.refl w with cells := HandleTable.sameOrGone_put hcell (.kept ?_) }
    omega
  · by_cases heq : x = y
    · subst heq
      simp only [Shows]
      omega
    · simpa [Shows, worth_retain hcell, looseOf, heq] using hy

theorem shift_takeHandle {w w' : World} {name : String} {keep : Bool} {x : HandleRef}
    (h : w.takeHandle? name keep = some (x, w')) : w.Shift [] w' [.loose (.handle x)] := by
  rw [takeHandle?, Option.map_eq_some_iff] at h
  obtain ⟨handle, hname, h⟩ := h
  split at h <;> cases h
  · exact shift_retain hname
  · intro rest hbalanced
    refine ⟨hbalanced.takeHandle hname, .of_same rfl rfl rfl rfl rfl rfl rfl rfl rfl,
      fun y hy => ?_⟩
    have := Names.weigh_erase (fun x => looseOf y (.loose (.handle x))) w.slots name
    simp only [hname, Option.elim_some] at this
    simp only [Shows, worth, List.cons_append, List.nil_append, weigh_cons] at hy ⊢
    omega

/-- A handle is put under a name, and the one that was there is at hand. -/
theorem shift_layHandle (w : World) (name : String) (x : HandleRef) :
    w.Shift [.loose (.handle x)] { w with slots := w.slots.insert name x }
      (loosen ((w.slots.get? name).toList.map .handle)) := by
  intro rest hbalanced
  refine ⟨hbalanced.layHandle name, .of_same rfl rfl rfl rfl rfl rfl rfl rfl rfl, fun y hy => ?_⟩
  have := Names.weigh_insert (fun x => looseOf y (.loose (.handle x))) w.slots name x
  cases hold : w.slots.get? name <;>
    simp only [hold, Option.elim_none, Option.elim_some, Option.toList_none, Option.toList_some,
      List.map_nil, List.map_cons, loosen_nil, loosen_cons, Shows, worth, List.nil_append,
      List.cons_append, weigh_cons] at this hy ⊢ <;>
    omega

theorem shift_store (w : World) (name : String) (x : HandleRef) :
    w.Shift [.loose (.handle x)] (w.store name x) [] := by
  have hlaid := w.shift_layHandle name x
  rw [store]
  cases hold : w.slots.get? name with
  | none => simpa only [hold, Option.toList_none, List.map_nil, loosen_nil] using hlaid
  | some old =>
    simp only [hold, Option.toList_some, List.map_cons, List.map_nil] at hlaid
    exact hlaid.trans (shift_release _ _)

/-- Clones that the foreign side keeps. -/
theorem shift_retained (w : World) (handles : List HandleRef) :
    w.Shift (loosen (handles.map .handle)) { w with retained := handles ++ w.retained } [] := by
  intro rest h
  have hworth : ∀ f, World.worth { w with retained := handles ++ w.retained } f =
      w.worth f + weigh f (loosen (handles.map .handle)) := by
    intro f
    simp only [worth, weigh_append, loosen, weigh_map]
    omega
  refine ⟨h.transfer rfl fun f _ => ?_, .of_same rfl rfl rfl rfl rfl rfl rfl rfl rfl,
    fun y hy => ?_⟩
  · simp only [hworth, weigh_append, weigh_nil]
    omega
  · simp only [Shows, hworth, weigh_append, weigh_nil] at hy ⊢
    omega

/-- The foreign side gets a handle, and no clone of another one is given up. -/
theorem shift_entrust (w : World) (name : String) (x : HandleRef) :
    w.Shift (.replicate (w.hoarded + 1) (.loose (.handle x))) (w.entrust name x) [] := by
  have hlaid := (w.shift_layHandle name x).beside (.replicate w.hoarded (.loose (.handle x)))
  have hkept := World.shift_retained { w with slots := w.slots.insert name x }
    ((w.slots.get? name).toList ++ .replicate w.hoarded x)
  rw [loosen, List.map_append, List.map_append, List.map_replicate, List.map_replicate] at hkept
  exact hlaid.trans hkept

theorem shift_storeOrRelease (w : World) (name : Option String) (x : HandleRef) :
    w.Shift [.loose (.handle x)] (w.storeOrRelease name x) [] := by
  cases name with
  | none => exact w.shift_release [.handle x]
  | some name => exact w.shift_store name x

theorem shift_resumption {w w' : World} {delivery : Delivery} {resumption : Resumption}
    (h : w.resumption? delivery = some (resumption, w')) : w.Shift [] w' resumption.assets := by
  cases delivery with
  | error failure => cases h; exact .refl w []
  | value source =>
    rw [resumption?, Option.map_eq_some_iff] at h
    obtain ⟨⟨payload, w₁⟩, hpayload, h⟩ := h
    cases h
    cases source with
    | scalar value => cases hpayload; exact .refl w []
    | slot name keep =>
      rw [payload?, Option.map_eq_some_iff] at hpayload
      obtain ⟨⟨handle, w₂⟩, htake, hpayload⟩ := hpayload
      cases hpayload
      exact shift_takeHandle htake

/-! ### Coroutines -/

theorem shift_bind (w : World) (name : String) {fiber : Fiber} (h : fiber.Rests none) :
    w.Shift fiber.assets (w.bind name fiber) [] := by
  have hlaid : w.Shift fiber.assets { w with coroutines := w.coroutines.insert name fiber }
      ((w.coroutines.get? name).elim [] Fiber.assets) := by
    intro rest hbalanced
    refine ⟨hbalanced.layCoroutine name, { Drift.refl w with coroutines := fun other hother => ?_ },
      fun y hy => ?_⟩
    · rcases Names.mem_values_insert hother with rfl | hother
      · exact .inr h
      · exact .inl hother
    · have := Names.weigh_insert (fun fiber => weigh (looseOf y) fiber.assets)
        w.coroutines name fiber
      cases hold : w.coroutines.get? name <;>
        simp only [hold, Option.elim_none, Option.elim_some, Shows, worth, List.nil_append,
          weigh_append] at this hy ⊢ <;>
        omega
  rw [bind]
  cases hold : w.coroutines.get? name with
  | none => simpa only [hold, Option.elim_none] using hlaid
  | some old =>
    simp only [hold, Option.elim_some] at hlaid
    refine hlaid.trans (shift_release_of _ (fun f hf => ?_) fun f => Nat.zero_le _)
    rw [old.weigh_assets hf, weigh_nil, Nat.add_zero]

theorem shift_takeCoroutine {w w' : World} {name : String} {fiber : Fiber}
    (h : w.takeCoroutine? name = some (fiber, w')) :
    w.Shift [] w' fiber.assets ∧ fiber ∈ w.coroutines.values := by
  rw [takeCoroutine?, Option.map_eq_some_iff] at h
  obtain ⟨old, hname, h⟩ := h
  cases h
  refine ⟨fun rest hbalanced => ⟨hbalanced.takeCoroutine hname,
    { Drift.refl w with coroutines := fun other hother => .inl (Names.mem_values_erase hother) },
    fun y hy => ?_⟩, Names.mem_values_of_get? hname⟩
  have := Names.weigh_erase (fun fiber => weigh (looseOf y) fiber.assets) w.coroutines name
  simp only [hname, Option.elim_some] at this
  simp only [Shows, worth, List.nil_append, weigh_append] at hy ⊢
  omega

/-! ### Schedulers -/

theorem shift_own (w : World) {position : Nat} {s : SchedulerId}
    (h : w.schedulerAt position = some s) : w.Shift [] (w.own s) [.share s] := by
  intro rest hbalanced
  obtain ⟨scheduler, hs, halive⟩ := hbalanced.schedulerAt_alive h
  refine ⟨hbalanced.own hs, { Drift.refl w with
    schedulers := fun t => ?_, counted := w.counted_updateScheduler s fun _ =>
      rfl }, fun x hx => ?_⟩
  · rw [own, scheduler?_updateScheduler]
    split
    next heq =>
      subst heq
      rw [hs]
      exact .kept rfl rfl fun hdead => by omega
    next => exact .refl _
  · have := worth_requeue hs
      (fun scheduler => { scheduler with owners := scheduler.owners + 1 }) rfl (looseOf x)
    simp only at this
    simp only [Shows, own, List.cons_append, List.nil_append, weigh_cons, looseOf] at hx ⊢
    omega

theorem shift_disown (w : World) (s : SchedulerId) : w.Shift [.share s] (w.disown s) [] := by
  intro rest hbalanced
  obtain ⟨scheduler, hs, -⟩ := hbalanced.owners_pos (s := s)
    (by simp only [List.cons_append, weigh_cons, shareOf, if_true]; omega)
  have hdisown := hbalanced.disown
  simp only [disown, hs] at hdisown ⊢
  split
  next hlast =>
    rw [if_pos hlast] at hdisown
    have hclosed : w.Drift (w.updateScheduler s fun scheduler =>
        { scheduler with owners := 0, queue := [] }) := by
      refine { Drift.refl w with
        schedulers := fun t => ?_, counted := w.counted_updateScheduler s fun _ => rfl }
      rw [scheduler?_updateScheduler]
      split
      next heq => subst heq; rw [hs]; exact .closed rfl rfl rfl
      next => exact .refl _
    refine ⟨hdisown, hclosed.trans (drift_release _ _), fun x hx => ?_⟩
    have hworth :=
      worth_requeue hs (fun scheduler => { scheduler with owners := 0, queue := [] }) rfl
      (looseOf x)
    have hle := worth_release_le (w := w.updateScheduler s fun scheduler =>
      { scheduler with owners := 0, queue := [] })
      (scheduler.queue.flatMap (Runnable.debris s)) (looseOf x)
    simp only [List.flatMap_nil, weigh_nil] at hworth
    simp only [Shows, List.cons_append, List.nil_append, weigh_cons, looseOf] at hx ⊢
    omega
  next hmore =>
    rw [if_neg hmore] at hdisown
    refine ⟨hdisown, { Drift.refl w with
      schedulers := fun t => ?_, counted := w.counted_updateScheduler s fun _ =>
        rfl }, fun x hx => ?_⟩
    · rw [scheduler?_updateScheduler]
      split
      next heq => subst heq; rw [hs]; exact .kept rfl rfl fun hdead => by simp [hdead]
      next => exact .refl _
    · have hworth := worth_requeue hs
        (fun scheduler => { scheduler with owners := scheduler.owners - 1 }) rfl (looseOf x)
      simp only at hworth
      simp only [Shows, List.cons_append, List.nil_append, weigh_cons, looseOf] at hx ⊢
      omega

theorem shift_abandon (w : World) {position : Nat} {s : SchedulerId}
    (h : w.schedulerAt position = some s) :
    w.Shift [] (w.setScheduler position none) [.share s] := by
  intro rest hbalanced
  have hplaces : (w.setScheduler position none).positions.map Position.driver =
      w.positions.map Position.driver := by
    refine List.ext_getElem? fun i => ?_
    simp only [setScheduler, List.getElem?_map, List.getElem?_modify]
    cases w.positions[i]? with
    | none => rfl
    | some place => by_cases heq : position = i <;> simp [heq]
  refine ⟨hbalanced.abandon h, .of_same rfl rfl hplaces rfl rfl rfl rfl rfl rfl, fun x hx => ?_⟩
  rw [schedulerAt, Option.bind_eq_some_iff] at h
  obtain ⟨place, hplace, hs⟩ := h
  have hworth := worth_positions hplace (fun p => { p with scheduler := none }) (looseOf x)
  simp only [Position.assets, hs, Option.toList_some, List.map_cons, List.map_nil, weigh_cons,
    weigh_nil, Option.toList_none, looseOf] at hworth
  simp only [Shows, setScheduler, List.cons_append, List.nil_append, weigh_cons, looseOf] at hx ⊢
  omega

/-! ### Fibers and stacks -/

/-- A fiber that is made takes its stack along. -/
theorem shift_makeFiber (w : World) (id : FiberId) (home : Option SchedulerId) (stack : Stack)
    (body : List Action) : w.Shift [.holds stack home] (w.makeFiber id home stack body).2
      (w.makeFiber id home stack body).1.assets := by
  have hmade : w.Shift [] (w.makeFiber id home stack body).2 [.unstarted w.fibersMade] :=
    fun _ h => ⟨h.makeFiber, .of_same rfl rfl rfl rfl rfl rfl rfl rfl rfl,
      fun _ => (shows_cons rfl).1⟩
  refine (hmade.gain [.holds stack home]).trans (.recount _ fun f _ => ?_)
  simp only [makeFiber, Fiber.assets, FiberState.assets, weigh_cons, weigh_append, weigh_nil]
  omega

/-- A stack that is mapped is in the hands of whoever it is mapped for. -/
theorem shift_mapStack {w : World} {stack : Stack} {holder : Option SchedulerId}
    (hlabel : stack.label = w.stacksMapped)
    (hsuits : stack.suits w.mappings w.poolConfig holder = true) :
    w.Shift [] { w with stacksMapped := w.stacksMapped + 1 } [.holds stack holder] :=
  fun _ h => ⟨h.mapStack hlabel hsuits, .of_same rfl rfl rfl rfl rfl rfl rfl rfl rfl,
    fun _ => (shows_cons rfl).1⟩

/-- A change of a pool that nobody who waits notices. -/
theorem shift_repool {w : World} {s : SchedulerId} {scheduler : Scheduler} {pool : StackPool}
    {out out' : List Asset} (hs : w.scheduler? s = some scheduler)
    (hconfig : pool.config = scheduler.pool.config)
    (hbound : pool.config.maxIdle ≠ 0 → scheduler.pool.idle.length ≤ pool.config.maxIdle →
      pool.idle.length ≤ pool.config.maxIdle)
    (hout : ∀ f, weigh f out' + weigh f (pool.idle.map fun stack => .holds stack (some s)) =
      weigh f out + weigh f (scheduler.pool.idle.map fun stack => .holds stack (some s))) :
    w.Shift out (w.updateScheduler s fun scheduler => { scheduler with pool }) out' := by
  intro rest h
  have hbalanced : (w.updateScheduler s fun scheduler => { scheduler with pool }).Balanced
      (out' ++ rest) := by
    refine h.repool hs (fun _ => rfl) (fun _ => rfl) (fun _ => rfl) hconfig
      (fun hmax => hbound hmax ?_) fun f => ?_
    · have := h.bounded s scheduler.pool.config (by rw [poolConfig, hs]; rfl) (hconfig ▸ hmax)
      rwa [idleStacks, hs, ← hconfig] at this
    · have := hout f
      simp only [weigh_append]
      omega
  refine ⟨hbalanced, { Drift.refl w with
    schedulers := fun t => ?_, counted := w.counted_updateScheduler s fun _ =>
      rfl }, fun x hx => ?_⟩
  · rw [scheduler?_updateScheduler]
    split
    next heq => subst heq; rw [hs]; exact .kept rfl rfl id
    next => exact .refl _
  · have hworth := worth_updateScheduler hs (fun scheduler => { scheduler with pool }) (looseOf x)
    have := hout (looseOf x)
    simp only [Scheduler.assets, weigh_append] at hworth
    simp only [Shows, weigh_append] at hx ⊢
    omega

/-- A scheduler that gets what it has stays as it is. -/
theorem updateScheduler_eq_self {w : World} {s : SchedulerId} {scheduler : Scheduler}
    (hs : w.scheduler? s = some scheduler) {g : Scheduler → Scheduler}
    (hg : g scheduler = scheduler) :
    w.updateScheduler s g = w := by
  have hschedulers : w.schedulers.modify s.index g = w.schedulers := by
    refine List.ext_getElem? fun i => ?_
    rw [List.getElem?_modify]
    split
    next heq =>
      rw [← heq, show w.schedulers[s.index]? = some scheduler from hs]
      exact congrArg some hg
    next => exact id_map _
  rw [updateScheduler, hschedulers]

/-- What a scheduler gets from its pool for a task. -/
inductive Supplies (w : World) (s : SchedulerId) (scheduler : Scheduler) :
    Except IoFault Stack × World → Prop
  | hit {stack : Stack} {rest : List Stack} (hidle : scheduler.pool.idle = stack :: rest) :
      Supplies w s scheduler (.ok stack, (w.updateScheduler s fun other =>
        { other with pool := { scheduler.pool with idle := rest } }).tell .poolHit)
  | mapped {stack : Stack} (hidle : scheduler.pool.idle = [])
      (hmake : Stack.make w.mapping pageSize w.stacksMapped
        (.scheduler s) scheduler.pool.config.stackSize = .ok stack) :
      Supplies w s scheduler (.ok stack, { w with stacksMapped := w.stacksMapped + 1 }.tell
        (.poolMiss scheduler.pool.config.stackSize))
  | refused {fault : IoFault} (hidle : scheduler.pool.idle = [])
      (hmake : Stack.make w.mapping pageSize w.stacksMapped
        (.scheduler s) scheduler.pool.config.stackSize = .error fault) :
      Supplies w s scheduler (.error fault, w.tell (.poolMiss scheduler.pool.config.stackSize))

theorem supplies {w : World} {s : SchedulerId} {scheduler : Scheduler}
    (hs : w.scheduler? s = some scheduler) : w.Supplies s scheduler (w.supplyStack s) := by
  have hsame : (w.updateScheduler s fun other => { other with pool := scheduler.pool }) = w :=
    updateScheduler_eq_self hs rfl
  have hsupply := supplyStack.eq_def w s
  simp only [hs] at hsupply
  rw [hsupply, StackPool.get, StackPool.draw.eq_def]
  cases hidle : scheduler.pool.idle with
  | cons stack rest => exact .hit hidle
  | nil =>
    cases hmake : Stack.make w.mapping pageSize w.stacksMapped
      (.scheduler s) scheduler.pool.config.stackSize with
    | ok stack =>
      simp only [hsame]
      exact .mapped hidle hmake
    | error fault =>
      simp only [hsame]
      exact .refused hidle hmake

/-- What a pool gives out, as assets. -/
def suppliedAssets (s : SchedulerId) : Except IoFault Stack → List Asset
  | .ok stack => [.holds stack (some s)]
  | .error _ => []

theorem shift_supplyStack (w : World) (s : SchedulerId) :
    w.Shift [] (w.supplyStack s).2 (suppliedAssets s (w.supplyStack s).1) := by
  cases hs : w.scheduler? s with
  | none => simpa only [supplyStack, hs, suppliedAssets] using Shift.refl w []
  | some scheduler =>
    have hsupplies := supplies hs
    generalize w.supplyStack s = supply at hsupplies
    cases hsupplies with
    | hit hidle =>
      refine (shift_repool hs ?_ (fun _ hle => ?_) fun f => ?_).trans
        (shift_tell _ Event.isQuiet_poolHit _)
      · rfl
      · exact Nat.le_of_succ_le (by simpa only [hidle, List.length_cons] using hle)
      · simp only [hidle, List.map_cons, weigh_cons, weigh_nil, suppliedAssets]
        omega
    | @mapped stack hidle hmake =>
      refine Shift.trans (shift_mapStack ?_ ?_) (shift_tell _ (Event.isQuiet_poolMiss _) _)
      · rw [Stack.make] at hmake
        cases hmap : mapStack w.mapping pageSize scheduler.pool.config.stackSize <;>
          rw [hmap] at hmake <;> cases hmake
        rfl
      · have hconfig : w.poolConfig s = some scheduler.pool.config := by rw [poolConfig, hs]; rfl
        rw [Stack.make] at hmake
        cases hmap : mapStack w.mapping pageSize scheduler.pool.config.stackSize <;>
          rw [hmap] at hmake <;> cases hmake
        exact Stack.suits_some.2 ⟨rfl, _, hconfig, _, hmap⟩
    | refused => exact shift_tell _ (Event.isQuiet_poolMiss _) _

/-- What is held may be let go if nothing is left of it. -/
theorem shift_drop (w : World) {out : List Asset} (h : ∀ f, Asset.Bare f → weigh f out = 0) :
    w.Shift out w [] := by
  have hnone : w.release [] = w := by simp [release_eq, HandleTable.release]
  have hreleased : w.Shift out (w.release []) [] :=
    w.shift_release_of (fun f hf => by simp [h f hf]) fun _ => Nat.zero_le _
  rwa [hnone] at hreleased

/-- A fiber that has no frames leaves nothing. -/
theorem shift_leave (w : World) {fiber : Fiber} (h : ¬fiber.isSuspended = true) :
    w.Shift fiber.assets w [] := by
  refine w.shift_drop fun f hf => ?_
  rw [fiber.weigh_assets hf]
  cases hstate : fiber.state with
  | suspended => simp [Fiber.isSuspended, Fiber.isStarted, Fiber.isFinished, hstate] at h
  | unstarted | finished => simp [Fiber.debris, hstate]

theorem shift_returnStack (w : World) (s : SchedulerId) (stack : Stack) :
    w.Shift [.holds stack (some s)] (w.returnStack s stack) [] := by
  have hdrop : ∀ u : World, u.Shift [.holds stack (some s)] u [] :=
    fun u => u.shift_drop fun f hf => by rw [weigh_cons, hf.stacked, weigh_nil]
  cases hs : w.scheduler? s with
  | none => simpa only [returnStack, hs] using hdrop w
  | some scheduler =>
    simp only [returnStack, hs]
    have hput : w.Shift [.holds stack (some s)] (w.updateScheduler s fun scheduler =>
        { scheduler with pool := scheduler.pool.put stack }) [] := by
      have hsame :
          (w.updateScheduler s fun scheduler =>
          { scheduler with pool := scheduler.pool.put stack }) =
          w.updateScheduler s fun other => { other with pool := scheduler.pool.put stack } := by
        rw [updateScheduler, updateScheduler]
        congr 1
        refine List.ext_getElem? fun i => ?_
        simp only [List.getElem?_modify]
        split
        next heq =>
          rw [scheduler?] at hs
          rw [← heq, hs]
          rfl
        next => rfl
      rw [hsame]
      cases hfull : scheduler.pool.full with
      | true =>
        refine (hdrop w).trans (shift_repool hs ?_ ?_ fun f => ?_) <;>
          rw [StackPool.put_of_full stack hfull]
        exact fun _ => id
      | false =>
        refine shift_repool hs (StackPool.put_config _ _) (fun hmax hle => ?_) fun f => ?_
        · rw [StackPool.put_config] at hmax hle ⊢
          exact StackPool.length_put_le _ _ hmax hle
        · simp only [StackPool.put, hfull, Bool.false_eq_true, if_false, List.map_cons,
            weigh_cons, weigh_nil]
          omega
    split
    next => exact hput.trans (shift_tell _ (Event.isQuiet_poolFull _) _)
    next => exact hput

/-! ### Host work and foreign calls -/

theorem shift_setSemaphore (w : World) (name : String) (semaphore : Semaphore) (out : List Asset) :
    w.Shift out (w.setSemaphore name semaphore) out :=
  shift_rest _ _ _ rfl rfl rfl rfl rfl rfl rfl rfl rfl rfl fun _ => rfl

/-- What calls own, they keep for their fibers. -/
theorem assets_of_promises {calls calls' : List HostCall}
    (h : calls'.map HostCall.promise = calls.map HostCall.promise) :
    calls'.flatMap HostCall.assets = calls.flatMap HostCall.assets := by
  have hkept : ∀ call : HostCall, call.assets = call.promise.2.elim [] fun kept =>
      .kept kept.1 :: kept.2.assets := by
    rintro ⟨number, driver, _ | _⟩ <;> rfl
  have hall : ∀ calls : List HostCall,
      calls.flatMap HostCall.assets = (calls.map HostCall.promise).flatMap fun promise =>
        promise.2.elim [] fun kept => .kept kept.1 :: kept.2.assets := by
    intro calls
    rw [List.flatMap_map]
    exact List.flatMap_congr fun call _ => hkept call
  rw [hall, h, ← hall]

/-- Calls may go on as long as they keep what they kept. -/
theorem shift_agenda {w : World} {agenda agenda' : Agenda} (hagenda : w.agenda = some agenda)
    (hclaims : agenda'.calls.map HostCall.claim = agenda.calls.map HostCall.claim)
    (hpromises : agenda'.calls.map HostCall.promise = agenda.calls.map HostCall.promise)
    (out : List Asset) : w.Shift out { w with agenda := some agenda' } out := by
  have hassets := assets_of_promises hpromises
  have hworth : ∀ f, World.worth { w with agenda := some agenda' } f = w.worth f := by
    intro f
    simp only [worth, agendaAssets, hagenda, hassets]
  have hkeys : World.callKeys { w with agenda := some agenda' } = w.callKeys := by
    have := congrArg (List.map Prod.fst) hclaims
    simpa [callKeys, hagenda, Function.comp_def, HostCall.claim] using this
  refine .of_drift { Drift.refl w with claims := ?_, promises := ?_ } (fun out h => ?_) hworth
  · simp only [World.claims, hagenda, Option.map_some, hclaims]
  · simp only [World.promises, hagenda, Option.elim_some, hpromises]
  · refine h.transfer ?_ fun f _ => by rw [hworth]
    simp only [figures, hkeys]
    rfl

theorem claim_setWork (agenda : Agenda) (key : Nat) (work : Work) :
    (agenda.setWork key work).calls.map HostCall.claim = agenda.calls.map HostCall.claim := by
  simp only [Agenda.setWork, List.map_map]
  refine List.map_congr_left fun call _ => ?_
  obtain ⟨number, driver, state⟩ := call
  cases state with
  | handing => rfl
  | holding handle old => simp only [Function.comp_apply]; split <;> rfl

/-- The key of a call is its own, so work that comes to the same end keeps the
promise. -/
theorem promise_setWork {agenda : Agenda} {call : HostCall} {handle : HandleRef} {old work : Work}
    (hkeys : (agenda.calls.map HostCall.key).Pairwise (· < ·)) (hcall : call ∈ agenda.calls)
    (hstate : call.state = .holding handle old) (hending : work.ending = old.ending) :
    (agenda.setWork call.key work).calls.map HostCall.promise =
    agenda.calls.map HostCall.promise := by
  have hsame : ∀ other ∈ agenda.calls, other.key = call.key → other = call := by
    have hinj := List.inj_on_of_nodup_map (hkeys.imp Nat.ne_of_lt)
    exact fun other hother heq => hinj hother hcall heq
  simp only [Agenda.setWork, List.map_map]
  refine List.map_congr_left fun other hother => ?_
  obtain ⟨number, driver, state⟩ := other
  cases state with
  | handing => rfl
  | holding handle' old' =>
    simp only [Function.comp_apply]
    split
    next heq =>
      have := hsame _ hother heq
      subst this
      cases hstate
      simp only [HostCall.promise, hending]
    next => rfl

theorem shift_setWork {w : World} {agenda agenda' : Agenda} {call : HostCall} {handle : HandleRef}
    {old work : Work} (hagenda : w.agenda = some agenda) (hcall : call ∈ agenda.calls)
    (hstate : call.state = .holding handle old) (hending : work.ending = old.ending)
    (hcalls : agenda'.calls = (agenda.setWork call.key work).calls) (out : List Asset) :
    w.Shift out { w with agenda := some agenda' } out := by
  intro rest h
  have hkeys := h.keys
  simp only [callKeys, hagenda, Option.elim_some] at hkeys
  exact shift_agenda hagenda (by rw [hcalls, claim_setWork])
    (by rw [hcalls, promise_setWork hkeys hcall hstate hending]) out rest h

theorem shift_grant (w : World) (name : String) (key : Nat) (out : List Asset) :
    w.Shift out (w.grant name key) out := by
  cases hagenda : w.agenda with
  | none =>
    have hsame : w.grant name key = w := by
      rw [grant, updateAgenda, hagenda, Option.map_none, ← hagenda]
    rw [hsame]
    exact .refl w out
  | some agenda =>
    simp only [grant, updateAgenda, hagenda, Option.map_some]
    split
    next handle semaphore ending hfind =>
      rw [Option.map_eq_some_iff] at hfind
      obtain ⟨call, hfind, hstate⟩ := hfind
      have hkey : call.key = key := by simpa using List.find?_some hfind
      subst hkey
      have hending : (Work.granted name ending).ending = (Work.queued semaphore ending).ending :=
        rfl
      refine shift_setWork hagenda (List.mem_of_find?_eq_some hfind) hstate hending ?_ out
      rfl
    next => exact shift_agenda hagenda rfl rfl out

theorem shift_signal (w : World) (name : String) (permits : Nat) (out : List Asset) :
    w.Shift out (w.signal name permits) out := by
  have hgrants : ∀ (keys : List Nat) (w : World),
      w.Shift out (keys.foldl (fun w key => w.grant name key) w) out := by
    intro keys
    induction keys with
    | nil => exact fun w => .refl w out
    | cons key rest ih => exact fun w => (shift_grant w name key out).trans (ih _)
  exact (shift_setSemaphore _ _ _ _).trans (hgrants _ _)

theorem Driver.assets_of_muted {a b : Driver} (h : a.muted = b.muted) : a.assets = b.assets := by
  obtain ⟨scheduler, inFlight, waiting, notified⟩ := a
  cases b
  cases h
  rfl

/-- A driver is notified, which the books do not show. -/
theorem shift_notify (w : World) (d : DriverId) {g : Driver → Driver}
    (hmuted : ∀ driver, (g driver).muted = driver.muted)
    (hheard : ∀ driver, (g driver).notified = true) (out : List Asset) :
    w.Shift out (w.updateDriver d g) out := by
  have hworth : ∀ f, (w.updateDriver d g).worth f = w.worth f := by
    intro f
    cases hd : w.driver? d with
    | none =>
      rw [driver?, List.getElem?_eq_none_iff] at hd
      rw [updateDriver, List.modify_eq_self hd]
    | some driver =>
      have := worth_updateDriver hd g f
      rw [Driver.assets_of_muted (hmuted driver)] at this
      omega
  refine .of_drift { Drift.refl w with drivers := ?_, alerts := fun e he => ?_ }
    (fun _ h => h.transfer rfl fun f _ => by rw [hworth]) hworth
  · refine List.ext_getElem? fun i => ?_
    simp only [updateDriver, List.getElem?_map, List.getElem?_modify]
    cases w.drivers[i]? with
    | none => rfl
    | some driver =>
      simp only [Option.map_eq_map, Option.map_some]
      split
      next => rw [hmuted]
      next => rfl
  · simp only [notified, driver?, updateDriver, List.getElem?_modify] at he ⊢
    cases hdriver : w.drivers[e.index]? with
    | none => simp [hdriver] at he
    | some driver =>
      simp only [hdriver, Option.map_eq_map, Option.map_some, Option.any_some] at he ⊢
      split
      next => exact hheard driver
      next => exact he

theorem shift_foreignFailed (w : World) (name : String) (failure : Failure) (out : List Asset) :
    w.Shift out (w.foreignFailed name failure) out := by
  refine Shift.trans (b := { w with lastError := some (Text.withoutNul failure.oneLine) }) ?_
    (shift_returned _ name (some failure) out)
  exact shift_rest _ _ _ rfl rfl rfl rfl rfl rfl rfl rfl rfl rfl fun _ => rfl

end World

end Fibers
