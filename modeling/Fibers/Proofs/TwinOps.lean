import Fibers.Proofs.TwinWorlds

/-!
Operations on twin worlds. Each operation takes twins to twins; what one that looks something
up finds is related too. Where more comes up in both runs, what they have in common grows.
-/

namespace Fibers

open List (Forall₂)

variable {B : Bond} {D : Backdrop} {κ κ' : Ties} {w w' : World} {x x' : HandleRef} {s : SchedulerId}

/-! ### Names -/

/-- A change under a shared name, seen from another name. -/
theorem Backdrop.Apart.ne_slot (h : D.Apart B) {name other : String} (hname : B.mine (.slot name))
    (hother : D.theirs (.slot other)) :
    other ≠ name := fun heq => h.slots hname (heq ▸ hother)

theorem Backdrop.Apart.ne_coroutine (h : D.Apart B) {name other : String}
    (hname : B.mine (.coroutine name)) (hother : D.theirs (.coroutine other)) : other ≠ name :=
    fun heq => h.coroutines hname (heq ▸ hother)

theorem Backdrop.Apart.ne_counter (h : D.Apart B) {name other : String}
    (hname : B.mine (.counter name)) (hother : D.theirs (.counter other)) : other ≠ name :=
    fun heq => h.counters hname (heq ▸ hother)

theorem Backdrop.Apart.ne_position (h : D.Apart B) {n other : Nat} (hn : B.mine (.position n))
    (hother : D.theirs (.position other)) :
    other ≠ n := fun heq => h.positions hn (heq ▸ hother)

theorem Backdrop.Apart.ne_scheduler (h : D.Apart B) {t : SchedulerId} (hs : B.own s)
    (ht : D.theirOwn t) : s ≠ t :=
  fun heq => h.schedulers hs (heq ▸ ht)

theorem Names.rel_insert {α : Type} {R : α → α → Prop} {names names' : Names α} {value value' : α}
    (hvalue : R value value') {name other : String}
    (h : Option.Rel R (names.get? other) (names'.get? other)) :
    Option.Rel R ((names.insert name value).get? other)
      ((names'.insert name value').get? other) := by
  by_cases heq : other = name
  · subst heq
    rw [Names.get?_insert_self, Names.get?_insert_self]
    exact .some hvalue
  · rwa [Names.get?_insert_of_ne _ _ heq, Names.get?_insert_of_ne _ _ heq]

theorem Names.rel_erase {α : Type} {R : α → α → Prop} {names names' : Names α} {name other : String}
    (h : Option.Rel R (names.get? other) (names'.get? other)) :
    Option.Rel R ((names.erase name).get? other) ((names'.erase name).get? other) := by
  by_cases heq : other = name
  · subst heq
    rw [Names.get?_erase_self, Names.get?_erase_self]
    exact .none
  · rwa [Names.get?_erase_of_ne _ heq, Names.get?_erase_of_ne _ heq]

theorem Backdrop.News.both {history history' : Array Happening} (h : D.News B κ history history')
    {happening happening' : Happening} (hlast : happening.Twin B κ happening') :
    D.News B κ (history.push happening) (history'.push happening') := by
  obtain ⟨tasks, struck, news, news', htasks, hstruck, hnews, hnews', htwin⟩ := h
  refine ⟨tasks, struck, _, _, htasks, hstruck, ?_, ?_, htwin.both hlast⟩ <;> rw [Array.toList_push]
  · rw [hnews, List.append_assoc]
  · rw [hnews', List.append_assoc]

namespace World.Twin

/-! ### What is told -/

theorem write (h : w.Twin B D κ w') {happening happening' : Happening}
    (hlast : happening.Twin B κ happening') :
    World.Twin B D κ { w with history := w.history.push happening }
      { w' with history := w'.history.push happening' } :=
  { h with
    like := { h.like with }
    spares := { h.spares with }
    news := h.news.both hlast }

theorem emit (h : w.Twin B D κ w') (name : String) (payload : Datum) :
    (w.emit name payload).Twin B D κ (w'.emit name payload) := by
  rw [World.emit, World.emit, h.like.current]
  exact h.write (.entry ..)

theorem tell (h : w.Twin B D κ w') (event : Event) : (w.tell event).Twin B D κ (w'.tell event) :=
  h.write (.event event)

theorem mark (h : w.Twin B D κ w') {told told' : Mark} (haside : told.isAside = true)
    (haside' : told'.isAside = true) :
    (w.mark told).Twin B D κ (w'.mark told') := h.write (.aside haside haside')

theorem note (h : w.Twin B D κ w') {relic relic' : Relic} (hrelic : relic.Twin relic') :
    (w.note relic).Twin B D κ (w'.note relic') := by
  cases hrelic with
  | dropped value => exact h.emit ..
  | discarded | vanished => exact h.mark rfl rfl

/-! ### Handles and slots -/

/-- The handles change alike. -/
theorem rehandle (h : w.Twin B D κ w') {table table' : HandleTable}
    (htable : table.Twin B D κ table') :
    World.Twin B D κ { w with handles := table } { w' with handles := table' } :=
  { h with
    like := { h.like with handles := htable.like }
    hands := htable.spares
    spares := { h.spares with } }

theorem table (h : w.Twin B D κ w') : w.handles.Twin B D κ w'.handles := ⟨h.like.handles, h.hands⟩

theorem notes (h : w.Twin B D κ w') {relics relics' : List Relic}
    (hrelics : Forall₂ Relic.Twin relics relics') :
    (relics.foldl World.note w).Twin B D κ (relics'.foldl World.note w') := by
  induction hrelics generalizing w w' with
  | nil => exact h
  | cons hrelic _ ih => exact ih (h.note hrelic)

theorem release (h : w.Twin B D κ w') {work work' : List Debris}
    (hwork : Forall₂ (Debris.Twin κ) work work') :
    (w.release work).Twin B D κ (w'.release work') := by
  obtain ⟨htable, hrelics⟩ := h.table.release hwork
  exact (h.rehandle htable).notes hrelics

theorem release_guards (h : w.Twin B D κ w') (guards : List Datum) :
    (w.release (guards.map .guard)).Twin B D κ (w'.release (guards.map .guard)) :=
    h.release (forall₂_guards κ guards)

theorem release_handle (h : w.Twin B D κ w') (hx : κ.Linked x x') :
    (w.release [.handle x]).Twin B D κ (w'.release [.handle x']) :=
  h.release (.cons (.handle hx) .nil)

theorem retain (h : w.Twin B D κ w') (hx : κ.Linked x x') :
    (w.retain x).Twin B D κ (w'.retain x') :=
  h.rehandle (h.table.retain hx)

theorem setSlot (h : w.Twin B D κ w') (hx : κ.Linked x x')
    {slot slot' : Slot Fiber Owner Resumption} (hslot : Slot.Twin B κ slot slot') :
    (w.setSlot x slot).Twin B D κ (w'.setSlot x' slot') :=
  h.rehandle (h.table.setSlot hx hslot)

theorem describe_eq (h : w.Twin B D κ w') (hx : κ.Linked x x') : w.describe x = w'.describe x' := by
  obtain ⟨cell, cell', hcell, hcell', htwin⟩ := h.like.handles.cell hx
  unfold World.describe
  rw [hcell, hcell']
  dsimp only
  rw [htwin.id, htwin.slot.name_eq]

theorem handleId_eq (h : w.Twin B D κ w') (hx : κ.Linked x x') : w.handleId x = w'.handleId x' := by
  obtain ⟨cell, cell', hcell, hcell', htwin⟩ := h.like.handles.cell hx
  rw [World.handleId, World.handleId, hcell, hcell']
  exact htwin.id

theorem insertSlot (h : w.Twin B D κ w') {name : String} (hname : B.mine (.slot name))
    (hx : κ.Linked x x') :
    World.Twin B D κ { w with slots := w.slots.insert name x }
      { w' with slots := w'.slots.insert name x' } :=
  { h with
    like := { h.like with slots := fun hother => Names.rel_insert hx (h.like.slots hother) }
    spares := { h.spares with
      slots := fun other hother => by
        rw [Names.get?_insert_of_ne _ _ (h.apart.ne_slot hname hother)]
        exact h.spares.slots other hother } }

theorem eraseSlot (h : w.Twin B D κ w') {name : String} (hname : B.mine (.slot name)) :
    World.Twin B D κ { w with slots := w.slots.erase name }
      { w' with slots := w'.slots.erase name } :=
  { h with
    like := { h.like with slots := fun hother => Names.rel_erase (h.like.slots hother) }
    spares := { h.spares with
      slots := fun other hother => by
        rw [Names.get?_erase_of_ne _ (h.apart.ne_slot hname hother)]
        exact h.spares.slots other hother } }

theorem store (h : w.Twin B D κ w') {name : String} (hname : B.mine (.slot name))
    (hx : κ.Linked x x') : (w.store name x).Twin B D κ (w'.store name x') := by
  have hold := h.like.slots hname
  have hnew := h.insertSlot hname hx
  rw [World.store, World.store]
  generalize w.slots.get? name = old at hold
  generalize w'.slots.get? name = old' at hold
  cases hold with
  | none => exact hnew
  | some hy => exact hnew.release_handle hy

/-- What the foreign side never gives back is the same for all else. -/
theorem entrust (h : w.Twin B D κ w') {name : String} (hname : B.mine (.slot name))
    (hx : κ.Linked x x') : (w.entrust name x).Twin B D κ (w'.entrust name x') :=
  have hlaid := h.insertSlot hname hx
  { hlaid with
    like := { hlaid.like with }
    spares := { hlaid.spares with } }

theorem storeOrRelease (h : w.Twin B D κ w') {slot : Option String}
    (hslot : B.All (Resource.slots slot)) (hx : κ.Linked x x') :
    (w.storeOrRelease slot x).Twin B D κ (w'.storeOrRelease slot x') := by
  cases slot with
  | none => exact h.release_handle hx
  | some name => exact h.store hslot.head hx

/-- What is taken out of two worlds, with what is left of them. -/
abbrev Taken {α : Type} (R : Ties → α → α → Prop) (B : Bond) (D : Backdrop) (κ : Ties)
    (taken taken' : α × World) : Prop :=
  R κ taken.1 taken'.1 ∧ taken.2.Twin B D κ taken'.2

theorem takeHandle? (h : w.Twin B D κ w') {name : String} (hname : B.mine (.slot name))
    (keep : Bool) :
    Option.Rel (Taken Ties.Linked B D κ) (w.takeHandle? name keep) (w'.takeHandle? name keep) := by
  have hslot := h.like.slots hname
  rw [World.takeHandle?, World.takeHandle?]
  generalize w.slots.get? name = found at hslot
  generalize w'.slots.get? name = found' at hslot
  cases hslot with
  | none => exact .none
  | some hx =>
    cases keep with
    | true => exact .some ⟨hx, h.retain hx⟩
    | false => exact .some ⟨hx, h.eraseSlot hname⟩

theorem payload? (h : w.Twin B D κ w') {source : Source} (hsource : B.All source.names) :
    Option.Rel (Taken Payload.Twin B D κ) (w.payload? source) (w'.payload? source) := by
  cases source with
  | scalar value => exact .some ⟨.scalar value, h⟩
  | slot name keep =>
    have htaken := h.takeHandle? hsource.head keep
    rw [World.payload?, World.payload?]
    generalize w.takeHandle? name keep = taken at htaken
    generalize w'.takeHandle? name keep = taken' at htaken
    cases htaken with
    | none => exact .none
    | some htwin => exact .some ⟨.handle htwin.1, htwin.2⟩

theorem resumption? (h : w.Twin B D κ w') {delivery : Delivery} (hdelivery : B.All delivery.names) :
    Option.Rel (Taken Resumption.Twin B D κ) (w.resumption? delivery)
      (w'.resumption? delivery) := by
  cases delivery with
  | error failure => exact .some ⟨.error failure, h⟩
  | value source =>
    have htaken := h.payload? hdelivery
    rw [World.resumption?, World.resumption?]
    generalize w.payload? source = taken at htaken
    generalize w'.payload? source = taken' at htaken
    cases htaken with
    | none => exact .none
    | some htwin => exact .some ⟨.value htwin.1, htwin.2⟩

/-! ### Coroutines -/

theorem bind (h : w.Twin B D κ w') {name : String} (hname : B.mine (.coroutine name))
    {fiber fiber' : Fiber} (hfiber : fiber.Twin B κ fiber') :
    (w.bind name fiber).Twin B D κ (w'.bind name fiber') := by
  have hold := h.like.coroutines hname
  have hnew : World.Twin B D κ { w with coroutines := w.coroutines.insert name fiber }
      { w' with coroutines := w'.coroutines.insert name fiber' } :=
    { h with
      like := { h.like with
        coroutines := fun hother => Names.rel_insert hfiber (h.like.coroutines hother) }
      spares := { h.spares with
        coroutines := fun other hother => by
          rw [Names.get?_insert_of_ne _ _ (h.apart.ne_coroutine hname hother)]
          exact h.spares.coroutines other hother } }
  rw [World.bind, World.bind]
  generalize w.coroutines.get? name = old at hold
  generalize w'.coroutines.get? name = old' at hold
  cases hold with
  | none => exact hnew
  | some hgone => exact hnew.release hgone.debris

theorem takeCoroutine? (h : w.Twin B D κ w') {name : String} (hname : B.mine (.coroutine name)) :
    Option.Rel (Taken (Fiber.Twin B) B D κ) (w.takeCoroutine? name) (w'.takeCoroutine? name) := by
  have hfound := h.like.coroutines hname
  rw [World.takeCoroutine?, World.takeCoroutine?]
  generalize w.coroutines.get? name = found at hfound
  generalize w'.coroutines.get? name = found' at hfound
  cases hfound with
  | none => exact .none
  | some hfiber =>
    exact .some ⟨hfiber, { h with
      like := { h.like with coroutines := fun hother => Names.rel_erase (h.like.coroutines hother) }
      spares := { h.spares with
        coroutines := fun other hother => by
          rw [Names.get?_erase_of_ne _ (h.apart.ne_coroutine hname hother)]
          exact h.spares.coroutines other hother } }⟩

/-! ### Schedulers -/

/-- A shared scheduler changes alike. -/
theorem updateScheduler (h : w.Twin B D κ w') (hs : B.own s) {f f' : Scheduler → Scheduler}
    (hf : ∀ {scheduler scheduler'}, Scheduler.Twin B κ s scheduler scheduler' →
      Scheduler.Twin B κ s (f scheduler) (f' scheduler')) :
    (w.updateScheduler s f).Twin B D κ (w'.updateScheduler s f') :=
  { h with
    like := { h.like with
      schedulers := fun {t} ht => by
        rw [scheduler?_updateScheduler, scheduler?_updateScheduler]
        split
        next heq =>
          subst heq
          have hold := h.like.schedulers ht
          generalize w.scheduler? s = old at hold
          generalize w'.scheduler? s = old' at hold
          cases hold with
          | none => exact .none
          | some hscheduler => exact .some (hf hscheduler)
        next => exact h.like.schedulers ht }
    spares := { h.spares with
      schedulers := fun t ht => by
        rw [scheduler?_updateScheduler, if_neg (h.apart.ne_scheduler hs ht)]
        exact h.spares.schedulers t ht } }

/-- A fiber that comes back to the queue with its resumption. -/
theorem append_woken (h : w.Twin B D κ w') (hs : B.own s) {fiber fiber' : Fiber}
    (hfiber : fiber.Twin B κ fiber') {resumption resumption' : Resumption}
    (hresumption : resumption.Twin κ resumption') :
    (w.append s (.woken fiber resumption)).Twin B D κ
    (w'.append s (.woken fiber' resumption')) := by
  rw [World.append, World.append]
  refine World.Twin.mark (h.updateScheduler hs fun htwin => ?_) rfl rfl
  exact { htwin with queue := List.rel_append htwin.queue (.cons (.woken hfiber hresumption) .nil) }

theorem own (h : w.Twin B D κ w') (hs : B.own s) : (w.own s).Twin B D κ (w'.own s) :=
  h.updateScheduler hs fun htwin => { htwin with owners := congrArg (· + 1) htwin.owners }

theorem disown (h : w.Twin B D κ w') (hs : B.own s) : (w.disown s).Twin B D κ (w'.disown s) := by
  have hfound := h.like.schedulers hs
  rw [World.disown, World.disown]
  generalize w.scheduler? s = found at hfound
  generalize w'.scheduler? s = found' at hfound
  cases hfound with
  | none => exact h
  | some hscheduler =>
    dsimp only
    rw [hscheduler.owners]
    split
    next =>
      have hdebris := List.rel_flatMap hscheduler.queue fun {_ _} hentry => hentry.debris
      refine World.Twin.release (h.updateScheduler hs fun htwin => ?_) hdebris
      exact { htwin with owners := rfl, queue := .nil }
    next =>
      exact h.updateScheduler hs fun htwin => { htwin with owners := congrArg (· - 1) htwin.owners }

theorem setScheduler_none (h : w.Twin B D κ w') {position : Nat}
    (hposition : B.mine (.position position)) :
    (w.setScheduler position none).Twin B D κ (w'.setScheduler position none) := by
  have hat : ∀ (u : World) (n : Nat), (u.setScheduler position none).schedulerAt n = if position =
      n then none else u.schedulerAt n := by
    intro u n
    simp only [World.setScheduler, World.schedulerAt, List.getElem?_modify]
    split <;> cases u.positions[n]? <;> rfl
  have hdriver : ∀ (u : World) (n : Nat),
      (u.setScheduler position none).driverAt n = u.driverAt n := by
    intro u n
    simp only [World.setScheduler, World.driverAt, List.getElem?_modify]
    split <;> cases u.positions[n]? <;> rfl
  exact { h with
    like := { h.like with
      positions := fun {n} hn => by
        rw [hat, hat, h.like.positions hn]
      owned := fun {n s} hn hs => by
        rw [hat] at hs
        split at hs
        next => cases hs
        next => exact h.like.owned hn hs
      driverAt := fun hhost n => by
        rw [hdriver, hdriver]
        exact h.like.driverAt hhost n }
    spares := { h.spares with
      positions := fun n hn => by
        have hne : position ≠ n := (h.apart.ne_position hposition hn).symm
        have hsame : (w'.setScheduler position none).positions[n]? = w'.positions[n]? := by
          simp only [World.setScheduler, List.getElem?_modify, if_neg hne]
          cases w'.positions[n]? <;> rfl
        exact hsame.trans (h.spares.positions n hn) } }

/-! ### Parking and waking -/

/-- What parking and waking bring out. -/
inductive Met (B : Bond) (κ : Ties) : Option (Fiber × Resumption) →
    Option (Fiber × Resumption) → Prop
  | nothing : Met B κ none none
  | met {fiber fiber' : Fiber} {resumption resumption' : Resumption}
      (hfiber : fiber.Twin B κ fiber') (hresumption : resumption.Twin κ resumption') :
      Met B κ (some (fiber, resumption)) (some (fiber', resumption'))

theorem park (h : w.Twin B D κ w') (hx : κ.Linked x x') {fiber fiber' : Fiber}
    (hfiber : fiber.Twin B κ fiber') (owner : Owner) :
    Met B κ (w.park x fiber owner).1 (w'.park x' fiber' owner).1 ∧
      (w.park x fiber owner).2.Twin B D κ (w'.park x' fiber' owner).2 := by
  obtain ⟨⟨id, clones, slot⟩, ⟨id', clones', slot'⟩, hcell, hcell', hid, hclones, hslot⟩ :=
    h.like.handles.cell hx
  cases hid
  cases hclones
  rw [World.park, World.park, hcell, hcell']
  cases hslot with
  | pending =>
    refine ⟨.nothing, World.Twin.release_handle (World.Twin.setSlot ?_ hx (.parked hfiber)) hx⟩
    dsimp only
    split
    next => exact h.tell _
    next => exact h
  | woken hresumption => exact ⟨.met hfiber hresumption, (h.setSlot hx .spent).release_handle hx⟩
  | parked | spent =>
    dsimp only [Slot.park]
    rw [hfiber.id]
    exact ⟨.met hfiber (.error _), (h.tell _).release_handle hx⟩

/-- How a resumption fares that is delivered in both worlds. -/
inductive Woken (B : Bond) (κ : Ties) :
    Except SchedulerFault (Option (Fiber × Resumption)) →
      Except SchedulerFault (Option (Fiber × Resumption)) → Prop
  | accepted {met met' : Option (Fiber × Resumption)} (h : Met B κ met met') :
      Woken B κ (.ok met) (.ok met')
  | refused (fault : SchedulerFault) : Woken B κ (.error fault) (.error fault)

theorem wake (h : w.Twin B D κ w') (hx : κ.Linked x x') {resumption resumption' : Resumption}
    (hresumption : resumption.Twin κ resumption') (owner : Owner) :
    Woken B κ (w.wake x owner resumption).1 (w'.wake x' owner resumption').1 ∧
      (w.wake x owner resumption).2.Twin B D κ (w'.wake x' owner resumption').2 := by
  obtain ⟨⟨id, clones, slot⟩, ⟨id', clones', slot'⟩, hcell, hcell', hid, hclones, hslot⟩ :=
    h.like.handles.cell hx
  cases hid
  cases hclones
  have hrefused : (w.release (resumption.debris ++ [.handle x])).Twin B D κ
      (w'.release (resumption'.debris ++ [.handle x'])) :=
    h.release (List.rel_append hresumption.debris (.cons (.handle hx) .nil))
  have haccepted : ∀ {slot slot'}, Slot.Twin B κ slot slot' →
      (((w.setSlot x slot).mark (.accepted x resumption)).release [.handle x]).Twin B D κ
        (((w'.setSlot x' slot').mark (.accepted x' resumption')).release [.handle x']) :=
    fun hslot => ((h.setSlot hx hslot).mark rfl rfl).release_handle hx
  rw [World.wake, World.wake, hcell, hcell']
  cases hslot with
  | pending => exact ⟨.accepted .nothing, haccepted (.woken hresumption)⟩
  | woken | spent => exact ⟨.refused _, hrefused⟩
  | @parked fiber fiber' parkedFor hfiber =>
    by_cases howner : parkedFor = owner
    · simp only [Slot.wake, if_pos howner]
      exact ⟨.accepted (.met hfiber hresumption), haccepted .spent⟩
    · simp only [Slot.wake, if_neg howner]
      exact ⟨.refused _, hrefused⟩

/-! ### Dispatching -/

theorem queue (h : w.Twin B D κ w') (hs : B.own s) :
    Forall₂ (Runnable.Twin B κ s) (w.queue s) (w'.queue s) := by
  have hfound := h.like.schedulers hs
  rw [World.queue, World.queue]
  generalize w.scheduler? s = found at hfound
  generalize w'.scheduler? s = found' at hfound
  cases hfound with
  | none => exact .nil
  | some hscheduler => exact hscheduler.queue

theorem next? (h : w.Twin B D κ w') (hs : B.own s) :
    Option.Rel (Taken (fun κ => Runnable.Twin B κ s) B D κ) (w.next? s) (w'.next? s) := by
  have hqueue := h.queue hs
  rw [World.next?, World.next?]
  generalize w.queue s = queue at hqueue
  generalize w'.queue s = queue' at hqueue
  cases hqueue with
  | nil => exact .none
  | cons hentry hrest =>
    refine .some
      ⟨hentry, World.Twin.write (h.updateScheduler hs fun htwin => ?_) (.dispatched hentry)⟩
    exact { htwin with queue := hrest }

end World.Twin

/-- Every idle stack has the size that a new one would have. -/
structure World.Stocked (w : World) : Prop where
  size : ∀ {s scheduler}, w.scheduler? s = some scheduler → ∀ stack ∈ scheduler.pool.idle,
    scheduler.pool.config.Yields w.mappings stack.size

theorem World.Stocked.next {entry : Runnable} {u : World} (h : w.Stocked)
    (hnext : w.next? s = some (entry, u)) : u.Stocked := by
  rw [World.next?] at hnext
  split at hnext
  next => cases hnext
  next entry rest hqueue =>
    cases hnext
    refine ⟨fun {t scheduler} ht => ?_⟩
    change (w.updateScheduler s fun scheduler => { scheduler with queue := rest }).scheduler? t =
      some scheduler at ht
    rw [scheduler?_updateScheduler] at ht
    split at ht
    next =>
      obtain ⟨before, hbefore, rfl⟩ := Option.map_eq_some_iff.1 ht
      exact fun stack hidle => h.size hbefore stack hidle
    next => exact h.size ht

theorem Backdrop.News.pools {history history' : Array Happening} (h : D.News B κ history history')
    (hpanics : B.Panics) {event event' : Event} (hevent : event.IsPool) (hevent' : event'.IsPool) :
    D.News B κ (history.push (.event event)) (history'.push (.event event')) := by
  obtain ⟨tasks, struck, news, news', htasks, hstruck, hnews, hnews', htwin⟩ := h
  refine ⟨tasks, struck, _, _, htasks, hstruck, ?_, ?_, (htwin.first hpanics hevent).second hpanics
    hevent'⟩ <;> rw [Array.toList_push]
  · rw [hnews, List.append_assoc]
  · rw [hnews', List.append_assoc]

theorem Backdrop.News.first {history history' : Array Happening} (h : D.News B κ history history')
    (hpanics : B.Panics) {event : Event} (hevent : event.IsPool) :
    D.News B κ (history.push (.event event)) history' := by
  obtain ⟨tasks, struck, news, news', htasks, hstruck, hnews, hnews', htwin⟩ := h
  refine ⟨tasks, struck, _, _, htasks, hstruck, ?_, hnews', htwin.first hpanics hevent⟩
  rw [Array.toList_push, hnews, List.append_assoc]

theorem Backdrop.News.second {history history' : Array Happening} (h : D.News B κ history history')
    (hpanics : B.Panics) {event : Event} (hevent : event.IsPool) :
    D.News B κ history (history'.push (.event event)) := by
  obtain ⟨tasks, struck, news, news', htasks, hstruck, hnews, hnews', htwin⟩ := h
  refine ⟨tasks, struck, _, _, htasks, hstruck, hnews, ?_, htwin.second hpanics hevent⟩
  rw [Array.toList_push, hnews', List.append_assoc]

namespace World.Twin

/-- The events of two pools. -/
theorem tell_pools (h : w.Twin B D κ w') (hpanics : B.Panics) {event event' : Event}
    (hevent : event.IsPool) (hevent' : event'.IsPool) :
    (w.tell event).Twin B D κ (w'.tell event') :=
  { h with
    like := { h.like with }
    spares := { h.spares with }
    news := h.news.pools hpanics hevent hevent' }

/-- The pools of a scheduler change alike. -/
theorem repool (h : w.Twin B D κ w') (hs : B.own s) {pool pool' : StackPool}
    (hconfig : pool.config = pool'.config)
    (hidle : ¬B.Panics → pool.idle.length = pool'.idle.length) :
    (w.updateScheduler s fun scheduler => { scheduler with pool }).Twin B D κ
      (w'.updateScheduler s fun scheduler => { scheduler with pool := pool' }) :=
  h.updateScheduler hs fun htwin => { htwin with config := hconfig, idle := hidle }

/-- The runs need not have mapped as many stacks. -/
theorem remap (h : w.Twin B D κ w') (n n' : Nat) :
    World.Twin B D κ { w with stacksMapped := n } { w' with stacksMapped := n' } :=
  { h with
    like := { h.like with }
    spares := { h.spares with } }

/-- How two requests for a stack are answered. -/
inductive Supplied : Except IoFault Stack → Except IoFault Stack → Prop
  | ok {stack stack' : Stack} (h : stack.size = stack'.size) : Supplied (.ok stack) (.ok stack')
  | error (fault : IoFault) : Supplied (.error fault) (.error fault)

theorem Supplied.of_sizes {supply supply' : Except IoFault Stack}
    (h : supply.map Stack.size = supply'.map Stack.size) :
    Supplied supply supply' := by
  cases supply with
  | error fault =>
    cases supply' <;> cases h
    exact .error fault
  | ok stack =>
    cases supply' with
    | error fault => cases h
    | ok stack' => exact .ok (Except.ok.inj h)

end World.Twin

namespace World

/-- What a pool gives and tells depends on the number of its idle stacks alone. -/
structure Draws (w : World) (s : SchedulerId) (scheduler : Scheduler)
    (supply : Except IoFault Stack × World) (pool : StackPool) (event : Event) : Prop where
  world : ∃ n, supply.2 =
    World.tell { w.updateScheduler s fun other => { other with pool } with stacksMapped := n } event
  size : supply.1.map Stack.size = mapStack w.mapping pageSize scheduler.pool.config.stackSize
  config : pool.config = scheduler.pool.config
  idle : pool.idle.length = scheduler.pool.idle.length - 1
  told : event = if scheduler.pool.idle.length =
    0 then .poolMiss scheduler.pool.config.stackSize else .poolHit

theorem size_make (mapping : Mapping) (label : Nat) (source : StackSource) (request : Nat) :
    (Stack.make mapping pageSize label source request).map Stack.size =
    mapStack mapping pageSize request := by
  rw [Stack.make]
  cases mapStack mapping pageSize request <;> rfl

theorem Supplies.draws {scheduler : Scheduler} {supply : Except IoFault Stack × World}
    (h : w.Supplies s scheduler supply) (hs : w.scheduler? s = some scheduler)
    (hstocked : w.Stocked) (hsizes : ∀ n n', w.mappings n = w.mappings n') :
    ∃ pool event, w.Draws s scheduler supply pool event := by
  have hsame : (w.updateScheduler s fun other => { other with pool := scheduler.pool }) = w :=
    updateScheduler_eq_self hs rfl
  cases h with
  | @hit stack rest hidle =>
    refine ⟨{ scheduler.pool with idle := rest }, .poolHit, ⟨_, rfl⟩, ?_, rfl, ?_, ?_⟩
    · obtain ⟨n, hmapped⟩ := hstocked.size hs stack (hidle ▸ List.mem_cons_self ..)
      rw [World.mapping, hsizes _ n, hmapped]
      rfl
    · rw [hidle, List.length_cons, Nat.add_sub_cancel]
    · rw [if_neg (by rw [hidle]; exact Nat.succ_ne_zero _)]
  | @mapped stack hidle hmake =>
    refine ⟨scheduler.pool, _, ⟨_, by rw [hsame]⟩, ?_, rfl, ?_, ?_⟩
    · rw [← hmake, size_make]
    · rw [hidle]
      rfl
    · rw [hidle, if_pos (List.length_nil)]
  | @refused fault hidle hmake =>
    refine ⟨scheduler.pool, _, ⟨w.stacksMapped, by rw [hsame]⟩, ?_, rfl, ?_, ?_⟩
    · have hsize :=
        size_make w.mapping w.stacksMapped (.scheduler s) scheduler.pool.config.stackSize
      rw [hmake] at hsize
      exact hsize
    · rw [hidle]
      rfl
    · rw [hidle, if_pos (List.length_nil)]

end World

namespace World.Twin

/-- Whether a stack is mapped or an idle one is taken, it has the same size. -/
theorem supplyStack (h : w.Twin B D κ w') (hs : B.own s) (hstocked : w.Stocked)
    (hstocked' : w'.Stocked) :
    Supplied (w.supplyStack s).1 (w'.supplyStack s).1 ∧
      (w.supplyStack s).2.Twin B D κ (w'.supplyStack s).2 := by
  have hfound := h.like.schedulers hs
  cases hscheduler : w.scheduler? s with
  | none =>
    rw [hscheduler] at hfound
    have hscheduler' : w'.scheduler? s = none := by
      generalize w'.scheduler? s = found' at hfound
      cases hfound
      rfl
    rw [World.supplyStack, World.supplyStack, hscheduler, hscheduler']
    exact ⟨.error _, h⟩
  | some scheduler =>
    obtain ⟨scheduler', hscheduler', htwin⟩ : ∃ scheduler', w'.scheduler? s = some scheduler' ∧
      Scheduler.Twin B κ s scheduler scheduler' := by
      rw [hscheduler] at hfound
      generalize w'.scheduler? s = found' at hfound
      obtain ⟨htwin⟩ := hfound
      exact ⟨_, rfl, htwin⟩
    have hmapping := h.like.mapping
    obtain ⟨pool, event, hdraws⟩ :=
      (World.supplies hscheduler).draws hscheduler hstocked fun n n' =>
      (hmapping n 0).trans (hmapping n' 0).symm
    obtain ⟨pool', event', hdraws'⟩ :=
      (World.supplies hscheduler').draws hscheduler' hstocked' fun n n' =>
      (hmapping 0 n).symm.trans (hmapping 0 n')
    obtain ⟨n, hworld⟩ := hdraws.world
    obtain ⟨n', hworld'⟩ := hdraws'.world
    have hidle : ¬B.Panics → pool.idle.length = pool'.idle.length := fun hcalm => by
      rw [hdraws.idle, hdraws'.idle, htwin.idle hcalm]
    have hpools :=
      (h.repool hs (hdraws.config.trans (htwin.config.trans hdraws'.config.symm)) hidle).remap n n'
    have hanswer : w.mapping = w'.mapping := hmapping ..
    refine ⟨.of_sizes (by rw [hdraws.size, hdraws'.size, htwin.config, hanswer]), ?_⟩
    rw [hworld, hworld']
    by_cases hpanics : B.Panics
    · refine hpools.tell_pools hpanics ?_ ?_
      · rw [hdraws.told]
        split
        next => exact .inr (.inl ⟨_, rfl⟩)
        next => exact .inl rfl
      · rw [hdraws'.told]
        split
        next => exact .inr (.inl ⟨_, rfl⟩)
        next => exact .inl rfl
    · have hsame : event = event' := by
        rw [hdraws.told, hdraws'.told, htwin.idle hpanics, htwin.config]
      rw [hsame]
      exact hpools.tell event'

theorem tell_first (h : w.Twin B D κ w') (hpanics : B.Panics) {event : Event}
    (hevent : event.IsPool) : (w.tell event).Twin B D κ w' :=
  { h with
    like := { h.like with }
    news := h.news.first hpanics hevent }

theorem tell_second (h : w.Twin B D κ w') (hpanics : B.Panics) {event : Event}
    (hevent : event.IsPool) : w.Twin B D κ (w'.tell event) :=
  { h with
    like := { h.like with }
    spares := { h.spares with }
    news := h.news.second hpanics hevent }

end World.Twin

theorem StackPool.full_eq {pool pool' : StackPool} (hconfig : pool.config = pool'.config)
    (hidle : pool.idle.length = pool'.idle.length) :
    pool.full = pool'.full := by
  rw [StackPool.full, StackPool.full, hconfig, hidle]

theorem StackPool.length_put (pool : StackPool) (stack : Stack) :
    (pool.put stack).idle.length =
    if pool.full then pool.idle.length else pool.idle.length + 1 := by
  rw [StackPool.put]
  split <;> rfl

theorem World.updateScheduler_id (w : World) (s : SchedulerId) :
    (w.updateScheduler s fun scheduler => scheduler) = w := by
  have hsame : w.schedulers.modify s.index (fun scheduler => scheduler) = w.schedulers :=
    List.modify_id ..
  rw [World.updateScheduler, hsame]

namespace World.Twin

theorem returnStack (h : w.Twin B D κ w') (hs : B.own s) {stack stack' : Stack}
    (hsize : stack.size = stack'.size) :
    (w.returnStack s stack).Twin B D κ (w'.returnStack s stack') := by
  have hfound := h.like.schedulers hs
  have hput : (w.updateScheduler s fun scheduler =>
      { scheduler with pool := scheduler.pool.put stack }).Twin B D κ
      (w'.updateScheduler s fun scheduler =>
        { scheduler with pool := scheduler.pool.put stack' }) := by
    refine h.updateScheduler hs fun htwin => { htwin with config := ?_, idle := fun hcalm => ?_ }
    · rw [StackPool.put_config, StackPool.put_config, htwin.config]
    · rw [StackPool.length_put, StackPool.length_put, htwin.idle hcalm,
        StackPool.full_eq htwin.config (htwin.idle hcalm)]
  rw [World.returnStack, World.returnStack]
  generalize w.scheduler? s = found at hfound
  generalize w'.scheduler? s = found' at hfound
  cases hfound with
  | none => exact h
  | @some scheduler scheduler' htwin =>
    dsimp only
    rw [← hsize]
    by_cases hpanics : B.Panics
    · have hpool : (Event.poolFull stack.size).IsPool := .inr (.inr ⟨_, rfl⟩)
      split <;> split
      · exact hput.tell _
      · exact hput.tell_first hpanics hpool
      · exact hput.tell_second hpanics hpool
      · exact hput
    · rw [StackPool.full_eq htwin.config (htwin.idle hpanics)]
      split
      next => exact hput.tell _
      next => exact hput

/-- The stack of a task that panics in the second run only is kept in the first one. -/
theorem returnStack_first (h : w.Twin B D κ w') (hs : B.own s) (hpanics : B.Panics)
    (stack : Stack) : (w.returnStack s stack).Twin B D κ w' := by
  have hput : (w.updateScheduler s fun scheduler =>
      { scheduler with pool := scheduler.pool.put stack }).Twin B D κ w' := by
    rw [← w'.updateScheduler_id s]
    refine h.updateScheduler hs fun htwin =>
      { htwin with config := ?_, idle := fun hcalm => absurd hpanics hcalm }
    rw [StackPool.put_config, htwin.config]
  rw [World.returnStack]
  split
  next => exact h
  next =>
    split
    next => exact hput.tell_first hpanics (.inr (.inr ⟨_, rfl⟩))
    next => exact hput

/-- The runs need not have made as many fibers. -/
theorem renumber (h : w.Twin B D κ w') (n n' : Nat) :
    World.Twin B D κ { w with fibersMade := n } { w' with fibersMade := n' } :=
  { h with
    like := { h.like with }
    spares := { h.spares with } }

theorem setCurrent (h : w.Twin B D κ w') {current current' : Option Current}
    (hsame : current.map Current.id = current'.map Current.id) :
    World.Twin B D κ { w with current } { w' with current := current' } :=
  { h with
    like := { h.like with current := hsame }
    spares := { h.spares with } }

end World.Twin

/-! ### More comes up -/

/-- Another handle comes up in both runs. -/
def Ties.link (κ : Ties) (x : HandleRef) : Ties := { κ with links := κ.links ++ [x] }

/-- Another task is enqueued in both runs. -/
def Ties.task (κ : Ties) (told : Task) : Ties := { κ with tasks := κ.tasks ++ [told] }

/-- A task comes back to its scheduler that had reached the fault. -/
def Ties.fall (κ : Ties) (s : SchedulerId) : Ties := { κ with struck := κ.struck ++ [s] }

theorem Ties.grows_link (κ : Ties) (x : HandleRef) : κ.Grows (κ.link x) :=
  ⟨List.prefix_append .., List.Subset.refl _⟩

theorem Ties.grows_task (κ : Ties) (told : Task) : κ.Grows (κ.task told) :=
  ⟨List.prefix_refl _, List.subset_append_left ..⟩

theorem Ties.grows_fall (κ : Ties) (s : SchedulerId) : κ.Grows (κ.fall s) :=
  ⟨List.prefix_refl _, List.Subset.refl _⟩

namespace HandleTable

variable {table table' : HandleTable}

theorem get?_make_of_lt (table : HandleTable) (id : FiberId) (n : Nat) {x : HandleRef}
    (h : x.index < table.cells.length) :
    (table.make id n).get? x = table.get? x := List.getElem?_append_left h

theorem get?_make_next (table : HandleTable) (id : FiberId) (n : Nat) :
    (table.make id n).get? table.next = some ⟨id, n, .pending⟩ :=
  List.getElem?_concat_length

theorem Like.lt (h : table.Like B κ table') (hx : κ.Linked x x') :
    x'.index < table'.cells.length := by
  obtain ⟨-, cell', -, hcell', -⟩ := h.cell hx
  exact (List.getElem?_eq_some_iff.1 hcell').1

theorem Like.linked_next (h : table.Like B κ table') (y : HandleRef) :
    (κ.link y).Linked table.next y := by
  rw [Ties.Linked, Ties.link, HandleTable.next, ← h.length]
  exact List.getElem?_concat_length

/-- Both tables make a handle. -/
theorem Twin.make (h : table.Twin B D κ table') (id : FiberId) (n : Nat) :
    (table.make id n).Twin B D (κ.link table'.next) (table'.make id n) := by
  have hgrows := κ.grows_link table'.next
  have hfresh : ∀ y ∈ κ.links, y.index < table'.cells.length := fun y hy => by
    obtain ⟨x, hx⟩ := Ties.exists_linked hy
    exact h.like.lt hx
  refine ⟨⟨?_, ?_, fun {x x'} hx => ?_, fun halone => ?_⟩, fun y hy => ?_, fun y hy => ?_,
    fun y hy => ?_⟩
  · rw [Ties.link, List.length_append, h.like.length, HandleTable.make, List.length_append]
    rfl
  · refine List.nodup_append.2 ⟨h.like.nodup, List.nodup_singleton _, fun y hy z hz heq => ?_⟩
    rw [List.mem_singleton] at hz
    subst hz
    exact absurd (hfresh y hy) (heq ▸ Nat.lt_irrefl _)
  · -- Either the link is an old one, whose cells are as they were, or it is the last one.
    rcases Nat.lt_or_ge x.index κ.links.length with hlt | hge
    · have hold : κ.Linked x x' := by
        rw [Ties.Linked, Ties.link, List.getElem?_append_left hlt] at hx
        exact hx
      have hcells := h.like.cells hold
      rw [get?_make_of_lt _ _ _ (h.like.length ▸ hlt), get?_make_of_lt _ _ _ (h.like.lt hold)]
      obtain ⟨cell, cell', hcell, hcell', htwin⟩ := h.like.cell hold
      rw [hcell, hcell']
      exact .some (htwin.mono hgrows)
    · have hlt := (List.getElem?_eq_some_iff.1 hx).1
      rw [Ties.link, List.length_append, List.length_singleton] at hlt
      have hindex : x.index = table.cells.length :=
        h.like.length ▸ Nat.le_antisymm (Nat.le_of_lt_succ hlt) hge
      obtain rfl : x = table.next := congrArg HandleRef.mk hindex
      obtain rfl : table'.next = x' := Option.some.inj ((h.like.linked_next _).symm.trans hx)
      rw [get?_make_next, get?_make_next]
      exact .some ⟨rfl, rfl, .pending⟩
  · obtain ⟨hlength, hsame⟩ := h.like.alone halone
    refine ⟨?_, fun x hx => ?_⟩
    · rw [HandleTable.make, HandleTable.make, List.length_append, List.length_append, hlength]
    · rcases List.mem_append.1 hx with hold | hnew
      · exact (hsame x hold).mono hgrows
      · have hnext : table.next = table'.next := congrArg HandleRef.mk hlength
        rw [List.mem_singleton.1 hnew]
        exact hnext ▸ h.like.linked_next _
  · intro htheirs
    rcases List.mem_append.1 hy with hold | hnew
    · exact h.spares.others y hold htheirs
    · -- The new handle comes after all that the other party knows.
      rw [List.mem_singleton.1 hnew] at htheirs
      exact Nat.lt_irrefl _ (h.spares.known _ htheirs)
  · rw [HandleTable.make, List.length_append]
    exact Nat.lt_succ_of_lt (h.spares.known y hy)
  · rw [get?_make_of_lt _ _ _ (h.spares.known y hy)]
    exact h.spares.cells y hy

/-- Handles that are linked stay linked. -/
theorem Twin.mono (h : table.Twin B D κ table') (hgrows : κ.Grows κ')
    (hlinks : κ'.links = κ.links) : table.Twin B D κ' table' := by
  have hlinked : ∀ {x x'}, κ'.Linked x x' ↔ κ.Linked x x' := by
    intro x x'
    rw [Ties.Linked, Ties.Linked, hlinks]
  refine ⟨⟨hlinks ▸ h.like.length, hlinks ▸ h.like.nodup, fun hx => ?_, fun halone => ?_⟩,
    fun y hy => h.spares.others y (hlinks ▸ hy), h.spares.known, h.spares.cells⟩
  · obtain ⟨cell, cell', hcell, hcell', htwin⟩ := h.like.cell (hlinked.1 hx)
    rw [hcell, hcell']
    exact .some (htwin.mono hgrows)
  · obtain ⟨hlength, hsame⟩ := h.like.alone halone
    exact ⟨hlength, fun x hx => hlinked.2 (hsame x (hlinks ▸ hx))⟩

end HandleTable

theorem rel_mono {α β : Type} {R S : α → β → Prop} (hmono : ∀ {a b}, R a b → S a b)
    {first : Option α} {second : Option β} (h : Option.Rel R first second) :
    Option.Rel S first second := by
  cases h with
  | none => exact .none
  | some h => exact .some (hmono h)

theorem Backdrop.News.mono {history history' : Array Happening} (h : D.News B κ history history')
    (hgrows : κ.Grows κ') (htasks : κ'.tasks = κ.tasks) (hstruck : κ'.struck = κ.struck) :
    D.News B κ' history history' := by
  obtain ⟨tasks, struck, news, news', hall, hfallen, hnews, hnews', htwin⟩ := h
  exact ⟨tasks, struck, news, news', htasks.trans hall, hstruck.trans hfallen, hnews, hnews',
    htwin.mono hgrows⟩

theorem Backdrop.News.appended {history history' : Array Happening}
    (h : D.News B κ history history') {id : FiberId} {body body' : List Action}
    {insideFaulty : Bool} (hbody : Body.Twin B insideFaulty body body') :
    D.News B (κ.task (s, id, insideFaulty)) (history.push (.mark (.appended s (.fresh id body))))
      (history'.push (.mark (.appended s (.fresh id body')))) := by
  obtain ⟨tasks, struck, news, news', htasks, hstruck, hnews, hnews', htwin⟩ := h
  refine ⟨tasks ++ [(s, id, insideFaulty)], struck, _, _, ?_, hstruck, ?_, ?_,
    (htwin.mono (κ.grows_task _)).appended hbody⟩
  · rw [Ties.task, htasks, List.append_assoc]
  · rw [Array.toList_push, hnews, List.append_assoc]
  · rw [Array.toList_push, hnews', List.append_assoc]

/-- A task that two schedulers enqueue. -/
theorem Scheduler.Twin.enqueue {scheduler scheduler' : Scheduler}
    (h : Scheduler.Twin B κ s scheduler scheduler') {body body' : List Action}
    {insideFaulty : Bool} (hbody : Body.Twin B insideFaulty body body') :
    Scheduler.Twin B (κ.task (s, (scheduler.enqueue body).1, insideFaulty)) s
      (scheduler.enqueue body).2 (scheduler'.enqueue body').2 := by
  have hgrows := κ.grows_task (s, (scheduler.enqueue body).1, insideFaulty)
  have hid : (⟨scheduler.lastId + 1⟩ : FiberId) = ⟨scheduler'.lastId + 1⟩ :=
    congrArg (fun n => FiberId.mk (n + 1)) h.lastId
  have hentry : Runnable.Twin B (κ.task (s, (scheduler.enqueue body).1, insideFaulty)) s
      (.fresh ⟨scheduler.lastId + 1⟩ body) (.fresh ⟨scheduler'.lastId + 1⟩ body') := by
    rw [← hid]
    exact .fresh (List.mem_append_right _ (List.mem_singleton.2 rfl)) hbody
  exact { h.mono hgrows rfl with
    queue := List.rel_append (h.mono hgrows rfl).queue (.cons hentry .nil)
    lastId := congrArg (· + 1) h.lastId
    counters := h.counters.spawn }

namespace World.Twin

/-- What is shared goes on to be shared while handles and tasks come up. -/
theorem grow (h : w.Twin B D κ w') (hgrows : κ.Grows κ') (hstruck : κ'.struck = κ.struck)
    {table table' : HandleTable} (htable : table.Twin B D κ' table')
    {history history' : Array Happening} (hnews : D.News B κ' history history') :
    World.Twin B D κ' { w with handles := table, history }
      { w' with handles := table', history := history' } where
  like :=
    { h.like with
      handles := htable.like
      slots := fun hname => rel_mono (fun hx => hx.mono hgrows) (h.like.slots hname)
      coroutines :=
        fun hname => rel_mono (fun hfiber => hfiber.mono hgrows) (h.like.coroutines hname)
      schedulers :=
        fun {s} hs => rel_mono (fun htwin => htwin.mono hgrows (congrArg (List.count s) hstruck))
        (h.like.schedulers hs)
      drivers := fun hhost => (h.like.drivers hhost).imp fun _ _ htwin => htwin.mono hgrows
      agenda := fun hhost => rel_mono (fun htwin => htwin.mono hgrows) (h.like.agenda hhost) }
  apart := h.apart
  hands := htable.spares
  spares := { h.spares with }
  news := hnews

theorem makeHandle (h : w.Twin B D κ w') (id : FiberId) (n : Nat) :
    (κ.link w'.handles.next).Linked (w.makeHandle id n).1 (w'.makeHandle id n).1 ∧
      (w.makeHandle id n).2.Twin B D (κ.link w'.handles.next) (w'.makeHandle id n).2 :=
  ⟨h.like.handles.linked_next _, h.grow (κ.grows_link _) rfl (h.table.make id n)
    (h.news.mono (κ.grows_link _) rfl rfl)⟩

/-- A task is enqueued in both runs, under one number. -/
theorem enqueue (h : w.Twin B D κ w') (hs : B.own s) {body body' : List Action}
    {insideFaulty : Bool} (hbody : Body.Twin B insideFaulty body body') :
    ∃ κ', κ.Grows κ' ∧ (w.enqueue s body).1 = (w'.enqueue s body').1 ∧
      (w.enqueue s body).2.Twin B D κ' (w'.enqueue s body').2 := by
  have hfound := h.like.schedulers hs
  rw [World.enqueue, World.enqueue]
  generalize w.scheduler? s = found at hfound
  generalize w'.scheduler? s = found' at hfound
  cases hfound with
  | none => exact ⟨κ, .refl κ, rfl, h⟩
  | @some scheduler scheduler' htwin =>
    have hid : (scheduler.enqueue body).1 = (scheduler'.enqueue body').1 :=
      congrArg (fun n => FiberId.mk (n + 1)) htwin.lastId
    have hgrows := κ.grows_task (s, (scheduler.enqueue body).1, insideFaulty)
    have hlogged := h.grow hgrows rfl (h.table.mono hgrows rfl) (h.news.appended hbody)
    have hqueued := hlogged.updateScheduler hs fun {_ _} _ => htwin.enqueue hbody
    have hlength : (scheduler.enqueue body).2.queue.length =
        (scheduler'.enqueue body').2.queue.length :=
      (htwin.enqueue hbody).queue.length_eq
    refine ⟨_, hgrows, hid, ?_⟩
    dsimp only
    rw [← hid, ← hlength]
    exact hqueued.tell _

/-! ### What comes back -/

/-- A task comes back to its scheduler, which counts it as completed in the first run only. -/
theorem fall (h : w.Twin B D κ w') (hs : B.own s) {fault : Fault} (hfault : B.fault = some fault)
    {id : FiberId} (htold : (s, id, true) ∈ κ.tasks) (f f' : Scheduler → Scheduler)
    (hf : ∀ {scheduler scheduler'}, Scheduler.Twin B κ s scheduler scheduler' →
      Scheduler.Twin B (κ.fall s) s (f scheduler) (f' scheduler')) :
    ((w.updateScheduler s f).tell (.finished id)).Twin B D (κ.fall s)
    ((w'.updateScheduler s f').tell (fault.event id)) where
  like :=
    { h.like with
      handles := (h.table.mono (κ.grows_fall s) rfl).like
      slots := fun hname => rel_mono (fun hx => hx.mono (κ.grows_fall s)) (h.like.slots hname)
      coroutines := fun hname => rel_mono (fun hfiber => hfiber.mono (κ.grows_fall s))
        (h.like.coroutines hname)
      schedulers := fun {t} ht => by
        change Option.Rel _ ((w.updateScheduler s f).scheduler? t)
          ((w'.updateScheduler s f').scheduler? t)
        rw [scheduler?_updateScheduler, scheduler?_updateScheduler]
        have hold := h.like.schedulers ht
        split
        next heq =>
          subst heq
          generalize w.scheduler? s = old at hold
          generalize w'.scheduler? s = old' at hold
          cases hold with
          | none => exact .none
          | some hscheduler => exact .some (hf hscheduler)
        next hne =>
          refine rel_mono (fun htwin => htwin.mono (κ.grows_fall s) ?_) hold
          rw [Ties.fall, List.count_append, List.count_singleton,
            if_neg (by simpa using hne), Nat.add_zero]
      drivers := fun hhost => (h.like.drivers hhost).imp fun _ _ htwin =>
        htwin.mono (κ.grows_fall s)
      agenda := fun hhost => rel_mono (fun htwin => htwin.mono (κ.grows_fall s))
        (h.like.agenda hhost) }
  apart := h.apart
  hands := (h.table.mono (κ.grows_fall s) rfl).spares
  spares := { h.spares with
    schedulers := fun t ht => by
      change (w'.updateScheduler s f').scheduler? t = _
      rw [scheduler?_updateScheduler, if_neg (h.apart.ne_scheduler hs ht)]
      exact h.spares.schedulers t ht }
  news := by
    obtain ⟨tasks, struck, news, news', htasks, hstruck, hnews, hnews', htwin⟩ := h.news
    refine ⟨tasks, struck ++ [s], _, _, htasks, ?_, ?_, ?_,
      (htwin.mono (κ.grows_fall s)).finishes hfault htold⟩
    · rw [Ties.fall, hstruck, List.append_assoc]
    · rw [← List.append_assoc, ← hnews]
      exact Array.toList_push
    · rw [← List.append_assoc, ← hnews']
      exact Array.toList_push

/-- A fiber comes back from a transfer to its scheduler. Where it had reached the fault in the
second run, it counts as failed or panicked there, and else as completed. -/
theorem receive (h : w.Twin B D κ w') (hs : B.own s) {fiber fiber' : Fiber}
    (hfiber : fiber.Twin B κ fiber') (hhome : fiber.home = some s) {exit exit' : Exit}
    (hexit : Exit.Twin B κ fiber.home fiber.id exit exit') :
    ∃ κ', κ.Grows κ' ∧ (w.receive s fiber exit).Twin B D κ' (w'.receive s fiber' exit') := by
  rw [hhome] at hexit
  cases hexit with
  | @suspended x x' hx =>
    have hcounted : (w.updateScheduler s Scheduler.countSuspension).Twin B D κ
        (w'.updateScheduler s Scheduler.countSuspension) :=
      h.updateScheduler hs fun htwin => { htwin with
        counters := htwin.counters.suspension }
    obtain ⟨hmet, hparked⟩ := (hcounted.tell (.suspended fiber.id)).park hx hfiber (.scheduler s)
    rw [World.receive, World.receive, ← hfiber.id]
    generalize World.park _ x fiber _ = parked at hmet hparked
    generalize World.park _ x' fiber' _ = parked' at hmet hparked
    obtain ⟨met, u⟩ := parked
    obtain ⟨met', u'⟩ := parked'
    cases hmet with
    | nothing => exact ⟨κ, .refl κ, hparked⟩
    | met hfiber hresumption => exact ⟨κ, .refl κ, hparked.append_woken hs hfiber hresumption⟩
  | completed =>
    have hcounted : (w.updateScheduler s Scheduler.countCompleted).Twin B D κ
        (w'.updateScheduler s Scheduler.countCompleted) :=
      h.updateScheduler hs fun htwin => { htwin with
        counters := htwin.counters.completed }
    rw [World.receive, World.receive, ← hfiber.id]
    exact ⟨κ, .refl κ, (hcounted.tell _).returnStack hs hfiber.size⟩
  | failed failure =>
    have hcounted : (w.updateScheduler s Scheduler.countFailed).Twin B D κ
        (w'.updateScheduler s Scheduler.countFailed) :=
      h.updateScheduler hs fun htwin => { htwin with
        counters := htwin.counters.failed }
    rw [World.receive, World.receive, ← hfiber.id]
    exact ⟨κ, .refl κ, (hcounted.tell _).returnStack hs hfiber.size⟩
  | panicked panic =>
    have hcounted : (w.updateScheduler s Scheduler.countPanicked).Twin B D κ
        (w'.updateScheduler s Scheduler.countPanicked) :=
      h.updateScheduler hs fun htwin => { htwin with
        counters := htwin.counters.panicked }
    rw [World.receive, World.receive, ← hfiber.id]
    exact ⟨κ, .refl κ, hcounted.tell _⟩
  | @insideFaulty fault hfault htold =>
    -- The one place where the runs part: the task is completed in the first one only.
    have hgrows := κ.grows_fall s
    have hcount : (κ.fall s).struck.count s = κ.struck.count s + 1 := by
      rw [Ties.fall, List.count_append, List.count_singleton_self]
    cases fault with
    | fails failure =>
      have hcounted :=
        h.fall hs hfault htold Scheduler.countCompleted Scheduler.countFailed fun htwin =>
        { htwin with
          queue := htwin.queue.imp fun _ _ hentry => hentry.mono hgrows
          counters := hcount ▸ htwin.counters.fails hfault }
      rw [Fault.exit, World.receive, World.receive, ← hfiber.id]
      exact ⟨_, hgrows, hcounted.returnStack hs hfiber.size⟩
    | panics carried =>
      have hcounted :=
        h.fall hs hfault htold Scheduler.countCompleted Scheduler.countPanicked fun htwin =>
        { htwin with
          queue := htwin.queue.imp fun _ _ hentry => hentry.mono hgrows
          counters := hcount ▸ htwin.counters.panics hfault }
      rw [Fault.exit, World.receive, World.receive, ← hfiber.id]
      exact ⟨_, hgrows, hcounted.returnStack_first hs ⟨_, hfault, rfl⟩ fiber.stack⟩

/-! ### Foreign calls and counters -/

theorem foreignReturned (h : w.Twin B D κ w') (name : String) :
    (w.foreignReturned name).Twin B D κ (w'.foreignReturned name) :=
  h.mark rfl rfl

theorem foreignFailed (h : w.Twin B D κ w') (hfailing : B.mine .failing) (name : String)
    (failure : Failure) :
    (w.foreignFailed name failure).Twin B D κ (w'.foreignFailed name failure) := by
  have hset : World.Twin B D κ { w with lastError := some (Text.withoutNul failure.oneLine) }
      { w' with lastError := some (Text.withoutNul failure.oneLine) } :=
    { h with
      like := { h.like with lastError := fun _ => rfl }
      spares := { h.spares with
        lastError := fun htheirs => absurd htheirs (h.apart.failing hfailing) } }
  exact hset.mark rfl rfl

theorem insertCounter (h : w.Twin B D κ w') {name : String}
    (hname : B.mine (.counter name)) (n : Nat) :
    World.Twin B D κ { w with counters := w.counters.insert name n }
      { w' with counters := w'.counters.insert name n } :=
  { h with
    like := { h.like with
      counters := fun {other} hother => by
        by_cases heq : other = name
        · subst heq
          rw [Names.get?_insert_self, Names.get?_insert_self]
        · rw [Names.get?_insert_of_ne _ _ heq, Names.get?_insert_of_ne _ _ heq]
          exact h.like.counters hother }
    spares := { h.spares with
      counters := fun other hother => by
        rw [Names.get?_insert_of_ne _ _ (h.apart.ne_counter hname hother)]
        exact h.spares.counters other hother } }

end World.Twin

end Fibers
