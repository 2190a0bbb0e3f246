import Fibers.Script

/-!
What a world owns. Clones of handles, suspended fibers, tasks that have yet to
start and shares in schedulers are assets, and every place of the world that can
hold some is listed here. Assets are only ever weighed: one choice of weights
counts the clones of a handle, another one the entries of a task. Statements
about all weights therefore say that nothing is lost, copied or made up.
-/

namespace Fibers

/-- The total weight of some items. -/
def weigh {α : Type} (f : α → Nat) (items : List α) : Nat := items.foldr (fun a n => f a + n) 0

section Weigh

variable {α β : Type} (f : α → Nat)

@[simp]
theorem weigh_nil : weigh f [] = 0 := rfl

@[simp]
theorem weigh_cons (a : α) (items : List α) : weigh f (a :: items) = f a + weigh f items := rfl

@[simp]
theorem weigh_append (first second : List α) :
    weigh f (first ++ second) = weigh f first + weigh f second := by
  induction first with
  | nil => rw [List.nil_append, weigh_nil, Nat.zero_add]
  | cons a rest ih => rw [List.cons_append, weigh_cons, weigh_cons, ih, Nat.add_assoc]

theorem weigh_map (g : β → α) (items : List β) :
    weigh f (items.map g) = weigh (fun b => f (g b)) items := List.foldr_map

theorem weigh_replicate (n : Nat) (a : α) : weigh f (.replicate n a) = n * f a := by
  induction n with
  | zero => simp
  | succ n ih =>
    rw [List.replicate_succ, weigh_cons, ih, Nat.succ_mul]
    exact Nat.add_comm _ _

theorem weigh_const (n : Nat) (items : List α) : weigh (fun _ => n) items = items.length * n := by
  induction items with
  | nil => exact (Nat.zero_mul n).symm
  | cons a rest ih => rw [weigh_cons, ih, List.length_cons, Nat.succ_mul, Nat.add_comm]

theorem weigh_flatMap (g : β → List α) (items : List β) :
    weigh f (items.flatMap g) = weigh (fun b => weigh f (g b)) items := by
  induction items with
  | nil => rfl
  | cons b rest ih => simp [ih]

theorem le_weigh_of_mem {a : α} {items : List α} (h : a ∈ items) : f a ≤ weigh f items := by
  induction items with
  | nil => cases h
  | cons b rest ih =>
    rw [weigh_cons]
    rcases List.mem_cons.1 h with rfl | h
    · exact Nat.le_add_right _ _
    · exact Nat.le_trans (ih h) (Nat.le_add_left _ _)

theorem add_le_weigh_of_mem (f : α → Nat) {items : List α} {a b : α} (ha : a ∈ items)
    (hb : b ∈ items) (hne : a ≠ b) : f a + f b ≤ weigh f items := by
  induction items with
  | nil => cases ha
  | cons first rest ih =>
    rw [weigh_cons]
    rcases List.mem_cons.1 ha with rfl | ha' <;> rcases List.mem_cons.1 hb with rfl | hb'
    · exact absurd rfl hne
    · exact Nat.add_le_add_left (le_weigh_of_mem f hb') _
    · have := le_weigh_of_mem f ha'
      omega
    · have := ih ha' hb'
      omega

theorem weigh_eq_zero {items : List α} (h : ∀ a ∈ items, f a = 0) : weigh f items = 0 := by
  induction items with
  | nil => rfl
  | cons b rest ih =>
    rw [weigh_cons, h b (List.mem_cons_self ..), ih fun a ha => h a (List.mem_cons_of_mem _ ha)]

theorem weigh_congr {g : α → Nat} {items : List α} (h : ∀ a ∈ items, f a = g a) :
    weigh f items = weigh g items := by
  induction items with
  | nil => rfl
  | cons b rest ih =>
    rw [weigh_cons, weigh_cons, h b (List.mem_cons_self ..),
      ih fun a ha => h a (List.mem_cons_of_mem _ ha)]

theorem weigh_add (g : α → Nat) (items : List α) :
    weigh (fun a => f a + g a) items = weigh f items + weigh g items := by
  induction items with
  | nil => rfl
  | cons a rest ih =>
    simp only [weigh_cons, ih]
    omega

variable {f} in
theorem weigh_le {g : α → Nat} (h : ∀ a, f a ≤ g a) (items : List α) :
    weigh f items ≤ weigh g items := by
  induction items with
  | nil => exact Nat.le_refl _
  | cons a rest ih =>
    rw [weigh_cons, weigh_cons]
    exact Nat.add_le_add (h a) ih

/-- One item changes, and the total with it. -/
theorem weigh_modify {items : List α} {i : Nat} {a : α} (g : α → α) (h : items[i]? = some a) :
    weigh f (items.modify i g) + f a = weigh f items + f (g a) := by
  induction items generalizing i with
  | nil => simp at h
  | cons b rest ih =>
    cases i with
    | zero =>
      simp only [List.getElem?_cons_zero, Option.some.injEq] at h
      subst h
      simp only [List.modify_zero_cons, weigh_cons]
      omega
    | succ i =>
      simp only [List.getElem?_cons_succ] at h
      have := ih h
      simp only [List.modify_succ_cons, weigh_cons]
      omega

theorem weigh_set {items : List α} {i : Nat} {a : α} (b : α) (h : items[i]? = some a) :
    weigh f (items.set i b) + f a = weigh f items + f b := by
  have : Inhabited α := ⟨a⟩
  have hmodify := weigh_modify f (fun _ => b) h
  rwa [List.modify_eq_set] at hmodify

end Weigh

namespace Names

variable {α : Type} (f : α → Nat) (names : Names α) (name : String)

theorem lookup_eq_none {name : String} {entries : List (String × α)}
    (h : ∀ entry ∈ entries, name < entry.1) : lookup name entries = none := by
  induction entries with
  | nil => rfl
  | cons entry rest ih =>
    have hne : ¬entry.1 = name := fun heq =>
      String.lt_irrefl name (heq ▸ h entry (List.mem_cons_self ..))
    rw [lookup, if_neg hne, ih fun entry member => h entry (List.mem_cons_of_mem _ member)]

private theorem weigh_place (value : α) {entries : List (String × α)}
    (h : entries.Pairwise fun first second => first.1 < second.1) :
    weigh f ((place name value entries).map Prod.snd) + (lookup name entries).elim 0 f =
      weigh f (entries.map Prod.snd) + f value := by
  induction entries with
  | nil => simp [place, lookup]
  | cons entry rest ih =>
    obtain ⟨key, old⟩ := entry
    obtain ⟨hfirst, hrest⟩ := List.pairwise_cons.1 h
    rw [place, lookup]
    split
    · simp only [List.map_cons, weigh_cons, Option.elim_some]
      omega
    · split
      next hlt =>
        have hnone : lookup name rest = none :=
          lookup_eq_none fun entry member => String.lt_trans hlt (hfirst entry member)
        simp only [hnone, List.map_cons, weigh_cons, Option.elim_none]
        omega
      next =>
        have := ih hrest
        simp only [List.map_cons, weigh_cons]
        omega

private theorem weigh_without {entries : List (String × α)}
    (h : entries.Pairwise fun first second => first.1 < second.1) :
    weigh f ((entries.filter fun entry => entry.1 ≠ name).map Prod.snd) +
      (lookup name entries).elim 0 f = weigh f (entries.map Prod.snd) := by
  induction entries with
  | nil => rfl
  | cons entry rest ih =>
    obtain ⟨key, old⟩ := entry
    obtain ⟨hfirst, hrest⟩ := List.pairwise_cons.1 h
    have := ih hrest
    by_cases heq : key = name
    · subst heq
      have hnone : lookup key rest = none := lookup_eq_none hfirst
      simp only [hnone, Option.elim_none] at this
      simp only [ne_eq, not_true_eq_false, decide_false, Bool.false_eq_true, not_false_eq_true,
        List.filter_cons_of_neg, lookup, ↓reduceIte, Option.elim_some, List.map_cons, weigh_cons]
      simp only [ne_eq] at this
      omega
    · simp only [lookup, heq, ne_eq, not_false_eq_true, decide_true, List.filter_cons_of_pos,
        List.map_cons, weigh_cons, ↓reduceIte]
      simp only [ne_eq] at this
      omega

/-- What was under the name gives way to the new value. -/
theorem weigh_insert (value : α) :
    weigh f (names.insert name value).values + (names.get? name).elim 0 f =
      weigh f names.values + f value :=
  weigh_place f name value names.ordered

theorem weigh_erase :
    weigh f (names.erase name).values + (names.get? name).elim 0 f = weigh f names.values :=
  weigh_without f name names.ordered

variable {f names name}

private theorem mem_of_lookup {a : α} {entries : List (String × α)}
    (h : lookup name entries = some a) : a ∈ entries.map Prod.snd := by
  induction entries with
  | nil => cases h
  | cons entry rest ih =>
    rw [lookup] at h
    split at h
    · cases h
      exact List.mem_cons_self ..
    · exact List.mem_cons_of_mem _ (ih h)

theorem mem_values_of_get? {a : α} (h : names.get? name = some a) : a ∈ names.values :=
  mem_of_lookup h

theorem mem_values_insert {a value : α} (h : a ∈ (names.insert name value).values) :
    a = value ∨ a ∈ names.values := by
  obtain ⟨entry, hentry, rfl⟩ := List.mem_map.1 h
  rcases mem_place hentry with rfl | hentry
  · exact .inl rfl
  · exact .inr (List.mem_map_of_mem hentry)

theorem mem_values_erase {a : α} (h : a ∈ (names.erase name).values) : a ∈ names.values := by
  obtain ⟨entry, hentry, rfl⟩ := List.mem_map.1 h
  exact List.mem_map_of_mem (List.mem_filter.1 hentry).1

private theorem lookup_of_mem {a : α} {entries : List (String × α)} (h : (name, a) ∈ entries)
    (hordered : entries.Pairwise fun first second => first.1 < second.1) :
    lookup name entries = some a := by
  induction entries with
  | nil => cases h
  | cons entry rest ih =>
    obtain ⟨hfirst, hrest⟩ := List.pairwise_cons.1 hordered
    rw [lookup]
    rcases List.mem_cons.1 h with rfl | member
    · exact if_pos rfl
    · have hlt : entry.1 < name := hfirst (name, a) member
      rw [if_neg (String.ne_of_lt hlt)]
      exact ih member hrest

private theorem mem_place_of_ne {entry : String × α} {entries : List (String × α)}
    (h : entry ∈ entries) (hne : entry.1 ≠ name) (value : α) :
    entry ∈ place name value entries := by
  induction entries with
  | nil => cases h
  | cons first rest ih =>
    obtain ⟨key, old⟩ := first
    rw [place]
    split
    next heq =>
      refine List.mem_cons_of_mem _ ((List.mem_cons.1 h).resolve_left ?_)
      rintro rfl
      exact hne heq
    next =>
      split
      next => exact List.mem_cons_of_mem _ h
      next => exact (List.mem_cons.1 h).elim (fun heq => heq ▸ List.mem_cons_self ..) fun member =>
        List.mem_cons_of_mem _ (ih member)

/-- What is under another name stays. -/
theorem eq_or_mem_values_erase {a : α} (h : a ∈ names.values) : names.get? name = some a ∨
    a ∈ (names.erase name).values := by
  obtain ⟨⟨key, value⟩, member, rfl⟩ := List.mem_map.1 h
  by_cases heq : key = name
  · exact .inl (lookup_of_mem (heq ▸ member) names.ordered)
  · exact .inr (List.mem_map_of_mem (List.mem_filter.2 ⟨member, by simpa using heq⟩))

theorem eq_or_mem_values_insert {a : α} (h : a ∈ names.values) (value : α) :
    names.get? name = some a ∨ a ∈ (names.insert name value).values := by
  obtain ⟨⟨key, old⟩, member, rfl⟩ := List.mem_map.1 h
  by_cases heq : key = name
  · exact .inl (lookup_of_mem (heq ▸ member) names.ordered)
  · exact .inr (List.mem_map_of_mem (mem_place_of_ne member heq value))

end Names

/-- Something that a place holds. -/
inductive Asset
  /-- What a program may come by. -/
  | loose (debris : Debris)
  /-- A clone of a handle that the machine itself passes on. -/
  | kept (handle : HandleRef)
  /-- A share in a scheduler, which keeps it alive. -/
  | share (scheduler : SchedulerId)
  /-- The right to take the resumption of a handle: an await that has yet to come
  to it. -/
  | post (handle : HandleRef)
  /-- A task that was taken off its queue and whose fiber is yet to be made. -/
  | claim (id : FiberId) (home : Option SchedulerId)
  /-- A fiber that control has never been in. -/
  | unstarted (serial : Nat)
  /-- A stack, and the scheduler whose fiber or pool has it; nobody's fibers are made
  by hand. -/
  | holds (stack : Stack) (holder : Option SchedulerId)

/-- Debris as assets. -/
def loosen (debris : List Debris) : List Asset := debris.map .loose

@[simp]
theorem loosen_nil : loosen [] = [] := rfl

@[simp]
theorem loosen_cons (d : Debris) (rest : List Debris) :
    loosen (d :: rest) = .loose d :: loosen rest := rfl

@[simp]
theorem loosen_append (first second : List Debris) :
    loosen (first ++ second) = loosen first ++ loosen second := List.map_append

/-! ### Places -/

def Payload.assets (payload : Payload) : List Asset := loosen payload.debris

def Resumption.assets (resumption : Resumption) : List Asset := loosen resumption.debris

def Ending.assets (ending : Ending) : List Asset := loosen ending.debris

def Frame.assets : Frame → List Asset
  | .actions _ guards => loosen (guards.map .guard)
  | .registering own _ => [.kept own, .post own]
  | .awaiting handle _ => [.post handle]
  | .answering s _ => [.share s]
  | .driving _ (.settle waiters) => waiters.map .kept
  | .driving _ (.resuming _ waiters) => waiters.map .kept
  | _ => []

def framesAssets (frames : List Frame) : List Asset := frames.flatMap Frame.assets

@[simp]
theorem framesAssets_nil : framesAssets [] = [] := rfl

@[simp]
theorem framesAssets_cons (frame : Frame) (frames : List Frame) :
    framesAssets (frame :: frames) = frame.assets ++ framesAssets frames := rfl

@[simp]
theorem framesAssets_append (first second : List Frame) :
    framesAssets (first ++ second) = framesAssets first ++ framesAssets second :=
  List.flatMap_append

/-- The fiber itself, and what its frames and its first payload hold. -/
def fiberAssets (serial : Nat) (id : FiberId) (home : Option SchedulerId) (frames : List Frame)
    (first : Payload) : List Asset :=
  .loose (.fiber serial id home) :: (framesAssets frames ++ first.assets)

def FiberState.assets (serial : Nat) (id : FiberId) (home : Option SchedulerId) :
    FiberState → List Asset
  | .unstarted _ => [.unstarted serial]
  | .suspended frames first => fiberAssets serial id home frames first
  | .finished => []

/-- A fiber has its stack also when it is finished. -/
def Fiber.assets (fiber : Fiber) : List Asset :=
  .holds fiber.stack fiber.home :: fiber.state.assets fiber.serial fiber.id fiber.home

def HandleCell.assets (cell : HandleCell) : List Asset :=
  match cell.slot with
  | .woken resumption => resumption.assets
  | .parked fiber _ => fiber.assets
  | _ => []

def Runnable.assets (scheduler : SchedulerId) : Runnable → List Asset
  | .fresh id _ => [.loose (.task scheduler id)]
  | .woken fiber resumption => fiber.assets ++ resumption.assets

def HostCall.assets (call : HostCall) : List Asset :=
  match call.state with
  | .holding handle work => .kept handle :: work.ending.assets
  | .handing => []

def Driver.assets (driver : Driver) : List Asset :=
  .share driver.scheduler :: driver.waiting.map .kept

def Position.assets (position : Position) : List Asset :=
  position.scheduler.toList.map .share

/-- The entries of a scheduler's queue, and its idle stacks. -/
def Scheduler.assets (s : SchedulerId) (scheduler : Scheduler) : List Asset :=
  scheduler.queue.flatMap (Runnable.assets s) ++
    scheduler.pool.idle.map fun stack => .holds stack (some s)

/-- What schedulers hold that are numbered from `n`. -/
def schedulersAssets : Nat → List Scheduler → List Asset
  | _, [] => []
  | n, scheduler :: rest => scheduler.assets ⟨n⟩ ++ schedulersAssets (n + 1) rest

def agendaAssets : Option Agenda → List Asset
  | none => []
  | some agenda => agenda.calls.flatMap HostCall.assets

def HandleTable.worth (table : HandleTable) (f : Asset → Nat) : Nat :=
  weigh (fun cell => weigh f cell.assets) table.cells

/-- Everything that a world owns, weighed. -/
def World.worth (w : World) (f : Asset → Nat) : Nat :=
  weigh (fun handle => f (.loose (.handle handle))) w.slots.values +
  weigh (fun fiber => weigh f fiber.assets) w.coroutines.values +
  w.handles.worth f +
  weigh f (schedulersAssets 0 w.schedulers) +
  weigh f (agendaAssets w.agenda) +
  weigh (fun driver => weigh f driver.assets) w.drivers +
  weigh (fun position => weigh f position.assets) w.positions +
  weigh (fun handle => f (.loose (.handle handle))) w.retained

theorem World.worth_add (w : World) (f g : Asset → Nat) :
    w.worth (fun asset => f asset + g asset) = w.worth f + w.worth g := by
  simp only [World.worth, HandleTable.worth, weigh_add]
  omega

theorem World.worth_le (w : World) {f g : Asset → Nat} (h : ∀ a, f a ≤ g a) :
    w.worth f ≤ w.worth g := by
  unfold World.worth HandleTable.worth
  have := weigh_le h
  refine Nat.add_le_add (Nat.add_le_add (Nat.add_le_add (Nat.add_le_add (Nat.add_le_add
    (Nat.add_le_add (Nat.add_le_add ?_ ?_) ?_) (this _)) (this _)) ?_) ?_) ?_
  all_goals exact weigh_le (fun _ => by first | exact h _ | exact this _) _

/-! ### Weights -/

namespace Asset

/-- Counts the clones of a handle. -/
def cloneOf (handle : HandleRef) : Asset → Nat
  | .loose (.handle other) => if other = handle then 1 else 0
  | .kept other => if other = handle then 1 else 0
  | _ => 0

/-- Counts the clones of a handle that a program may come by. -/
def looseOf (handle : HandleRef) : Asset → Nat
  | .loose (.handle other) => if other = handle then 1 else 0
  | _ => 0

/-- Counts the shares in a scheduler. -/
def shareOf (s : SchedulerId) : Asset → Nat
  | .share other => if other = s then 1 else 0
  | _ => 0

/-- Counts the awaits that have yet to come to a handle's resumption. -/
def postOf (handle : HandleRef) : Asset → Nat
  | .post other => if other = handle then 1 else 0
  | _ => 0

/-- Counts the queue entries of a task that never started. -/
def taskOf (s : SchedulerId) (id : FiberId) : Asset → Nat
  | .loose (.task other number) => if other = s ∧ number = id then 1 else 0
  | _ => 0

/-- Counts the fibers of a task, also one that is yet to be made. -/
def fiberOf (s : SchedulerId) (id : FiberId) : Asset → Nat
  | .loose (.fiber _ number home) => if home = some s ∧ number = id then 1 else 0
  | .claim number home => if home = some s ∧ number = id then 1 else 0
  | _ => 0

/-- Counts the fibers of a serial that have frames. -/
def begunOf (serial : Nat) : Asset → Nat
  | .loose (.fiber other _ _) => if other = serial then 1 else 0
  | _ => 0

/-- Counts the fibers of a serial that are yet to start. -/
def unstartedOf (serial : Nat) : Asset → Nat
  | .unstarted other => if other = serial then 1 else 0
  | _ => 0

/-- Counts the places that have a stack. -/
def stackOf (label : Nat) : Asset → Nat
  | .holds stack _ => if stack.label = label then 1 else 0
  | _ => 0

/-- Counts the stacks that do not suit the ones who have them. -/
def unsuitedOf (suits : Stack → Option SchedulerId → Bool) : Asset → Nat
  | .holds stack holder => if suits stack holder then 0 else 1
  | _ => 0

/-- Counts the fibers of a serial. -/
def serialOf (serial : Nat) (asset : Asset) : Nat := begunOf serial asset + unstartedOf serial asset

/-- Weights that look only at what the ledger is about: guards weigh nothing, and a
fiber weighs what it weighs before it starts, with the task that it is started for. -/
structure Fair (f : Asset → Nat) : Prop where
  guards : ∀ value, f (.loose (.guard value)) = 0
  strangers : ∀ id, f (.claim id none) = 0
  births : ∀ serial id home,
    f (.loose (.fiber serial id home)) = f (.claim id home) + f (.unstarted serial)

/-- Fair weights that see neither clones of handles nor shares in schedulers. -/
structure Narrow (f : Asset → Nat) : Prop extends Fair f where
  handles : ∀ handle, f (.loose (.handle handle)) = 0
  kept : ∀ handle, f (.kept handle) = 0
  shares : ∀ s, f (.share s) = 0

/-- Narrow weights that see neither fibers that are yet to start nor stacks. -/
structure Slight (f : Asset → Nat) : Prop extends Narrow f where
  unstarted : ∀ serial, f (.unstarted serial) = 0
  stacked : ∀ stack holder, f (.holds stack holder) = 0

/-- Weights that see nothing but what releasing a place shows. -/
structure Bare (f : Asset → Nat) : Prop where
  kept : ∀ handle, f (.kept handle) = f (.loose (.handle handle))
  shares : ∀ s, f (.share s) = 0
  posts : ∀ handle, f (.post handle) = 0
  unstarted : ∀ serial, f (.unstarted serial) = 0
  stacked : ∀ stack holder, f (.holds stack holder) = 0

theorem fair_cloneOf (handle : HandleRef) : Fair (cloneOf handle) :=
  ⟨fun _ => rfl, fun _ => rfl, fun _ _ _ => rfl⟩

theorem fair_looseOf (handle : HandleRef) : Fair (looseOf handle) :=
  ⟨fun _ => rfl, fun _ => rfl, fun _ _ _ => rfl⟩

theorem fair_shareOf (s : SchedulerId) : Fair (shareOf s) :=
  ⟨fun _ => rfl, fun _ => rfl, fun _ _ _ => rfl⟩

theorem fair_postOf (handle : HandleRef) : Fair (postOf handle) :=
  ⟨fun _ => rfl, fun _ => rfl, fun _ _ _ => rfl⟩

theorem fair_taskOf (s : SchedulerId) (id : FiberId) : Fair (taskOf s id) :=
  ⟨fun _ => rfl, fun _ => rfl, fun _ _ _ => rfl⟩

theorem fair_fiberOf (s : SchedulerId) (id : FiberId) : Fair (fiberOf s id) :=
  ⟨fun _ => rfl, fun _ => by simp [fiberOf], fun _ _ _ => rfl⟩

theorem fair_serialOf (serial : Nat) : Fair (serialOf serial) :=
  ⟨fun _ => rfl, fun _ => rfl, fun _ _ _ => by simp [serialOf, begunOf, unstartedOf]⟩

theorem fair_stackOf (label : Nat) : Fair (stackOf label) :=
  ⟨fun _ => rfl, fun _ => rfl, fun _ _ _ => rfl⟩

theorem fair_unsuitedOf (suits : Stack → Option SchedulerId → Bool) : Fair (unsuitedOf suits) :=
  ⟨fun _ => rfl, fun _ => rfl, fun _ _ _ => rfl⟩

theorem slight_postOf (handle : HandleRef) : Slight (postOf handle) :=
  ⟨⟨fair_postOf handle, fun _ => rfl, fun _ => rfl, fun _ => rfl⟩, fun _ => rfl, fun _ _ => rfl⟩

theorem slight_taskOf (s : SchedulerId) (id : FiberId) : Slight (taskOf s id) :=
  ⟨⟨fair_taskOf s id, fun _ => rfl, fun _ => rfl, fun _ => rfl⟩, fun _ => rfl, fun _ _ => rfl⟩

theorem slight_fiberOf (s : SchedulerId) (id : FiberId) : Slight (fiberOf s id) :=
  ⟨⟨fair_fiberOf s id, fun _ => rfl, fun _ => rfl, fun _ => rfl⟩, fun _ => rfl, fun _ _ => rfl⟩

theorem narrow_serialOf (serial : Nat) : Narrow (serialOf serial) :=
  ⟨fair_serialOf serial, fun _ => rfl, fun _ => rfl, fun _ => rfl⟩

theorem narrow_stackOf (label : Nat) : Narrow (stackOf label) :=
  ⟨fair_stackOf label, fun _ => rfl, fun _ => rfl, fun _ => rfl⟩

theorem narrow_unsuitedOf (suits : Stack → Option SchedulerId → Bool) : Narrow (unsuitedOf suits) :=
  ⟨fair_unsuitedOf suits, fun _ => rfl, fun _ => rfl, fun _ => rfl⟩

theorem bare_cloneOf (handle : HandleRef) : Bare (cloneOf handle) :=
  ⟨fun _ => rfl, fun _ => rfl, fun _ => rfl, fun _ => rfl, fun _ _ => rfl⟩

theorem bare_taskOf (s : SchedulerId) (id : FiberId) : Bare (taskOf s id) :=
  ⟨fun _ => rfl, fun _ => rfl, fun _ => rfl, fun _ => rfl, fun _ _ => rfl⟩

theorem bare_fiberOf (s : SchedulerId) (id : FiberId) : Bare (fiberOf s id) :=
  ⟨fun _ => rfl, fun _ => rfl, fun _ => rfl, fun _ => rfl, fun _ _ => rfl⟩

theorem bare_begunOf (serial : Nat) : Bare (begunOf serial) :=
  ⟨fun _ => rfl, fun _ => rfl, fun _ => rfl, fun _ => rfl, fun _ _ => rfl⟩

end Asset

/-- Awaits whose handle goes to a driver or to one of its calls, and not to the
program. -/
def AwaitKind.isHosted : AwaitKind → Bool
  | .plain | .foreign => false
  | .sleep .. | .call _ | .blocking _ | .all _ => true

namespace Mark

/-- Counts the times a task was enqueued. -/
def enqueues (s : SchedulerId) (id : FiberId) : Mark → Nat
  | .appended other (.fresh number _) => if other = s ∧ number = id then 1 else 0
  | _ => 0

/-- Counts the times a task was taken off its queue to be started. -/
def starts (s : SchedulerId) (id : FiberId) : Mark → Nat
  | .dispatched other (.fresh number _) => if other = s ∧ number = id then 1 else 0
  | _ => 0

/-- Counts the times a task ended: completed, failed or panicked. A task that
gets no stack fails. -/
def finishes (s : SchedulerId) (id : FiberId) : Mark → Nat
  | .ended fiber _ => if fiber.home = some s ∧ fiber.id = id then 1 else 0
  | .unstarted other number => if other = s ∧ number = id then 1 else 0
  | _ => 0

/-- Counts the times a task's suspended fiber was unwound. -/
def discards (s : SchedulerId) (id : FiberId) : Mark → Nat
  | .discarded _ number home => if home = some s ∧ number = id then 1 else 0
  | _ => 0

/-- Counts the times a task went with its queue. -/
def vanishes (s : SchedulerId) (id : FiberId) : Mark → Nat
  | .vanished other number => if other = s ∧ number = id then 1 else 0
  | _ => 0

/-- Counts the times a fiber ended or was unwound. -/
def terminates (serial : Nat) : Mark → Nat
  | .ended fiber _ => if fiber.serial = serial then 1 else 0
  | .discarded other _ _ => if other = serial then 1 else 0
  | _ => 0

/-- Counts the awaits that made a handle. -/
def opens (handle : HandleRef) : Mark → Nat
  | .opened other _ => if other = handle then 1 else 0
  | _ => 0

/-- Counts the host calls and waits among them. -/
def hosts (handle : HandleRef) : Mark → Nat
  | .opened other plan => if other = handle ∧ plan.kind.isHosted then 1 else 0
  | _ => 0

/-- Counts the awaits that came to the resumption of a handle. -/
def awaits (handle : HandleRef) : Mark → Nat
  | .awaited other _ => if other = handle then 1 else 0
  | _ => 0

end Mark

def Happening.weight (f : Mark → Nat) (happening : Happening) : Nat :=
  match happening with
  | .mark told => f told
  | _ => 0

/-- The marks of the history, weighed. -/
def World.tally (w : World) (f : Mark → Nat) : Nat := weigh (Happening.weight f) w.history.toList

section Bare

variable {f : Asset → Nat} (hf : Asset.Bare f)

include hf

theorem Asset.Bare.weigh_kept (handles : List HandleRef) :
    weigh f (handles.map .kept) = weigh f (loosen (handles.map .handle)) := by
  rw [loosen, List.map_map, weigh_map, weigh_map]
  exact weigh_congr _ fun handle _ => hf.kept handle

theorem Frame.weigh_assets (frame : Frame) :
    weigh f frame.assets = weigh f (loosen frame.debris) := by
  unfold Frame.assets Frame.debris
  split
  · rfl
  · simp [hf.kept, hf.posts]
  · simp [hf.posts]
  · simp [hf.shares]
  · exact hf.weigh_kept _
  · exact hf.weigh_kept _
  · next h₁ h₂ _ _ h₃ h₄ => simp_all

theorem weigh_framesAssets (frames : List Frame) :
    weigh f (framesAssets frames) = weigh f (loosen (frames.flatMap Frame.debris)) := by
  induction frames with
  | nil => rfl
  | cons frame rest ih =>
    simp only [framesAssets_cons, List.flatMap_cons, loosen_append, weigh_append, ih,
      frame.weigh_assets hf]

theorem Fiber.weigh_assets (fiber : Fiber) :
    weigh f fiber.assets = weigh f (loosen fiber.debris) := by
  obtain ⟨serial, id, home, stack, state⟩ := fiber
  rw [assets, weigh_cons, hf.stacked, Nat.zero_add]
  cases state with
  | suspended frames first =>
    simp only [FiberState.assets, debris, fiberAssets, Payload.assets, loosen_cons, loosen_append,
      weigh_cons, weigh_append, weigh_framesAssets hf]
  | unstarted => exact hf.unstarted serial
  | finished => rfl

theorem HandleCell.weigh_assets (cell : HandleCell) :
    weigh f cell.assets = weigh f (loosen cell.debris) := by
  obtain ⟨id, clones, slot⟩ := cell
  cases slot with
  | parked fiber owner => exact fiber.weigh_assets hf
  | woken | pending | spent => rfl

theorem Runnable.weigh_assets (s : SchedulerId) (entry : Runnable) :
    weigh f (entry.assets s) = weigh f (loosen (entry.debris s)) := by
  cases entry with
  | fresh => rfl
  | woken fiber resumption =>
    simp only [assets, debris, Resumption.assets, loosen_append, weigh_append,
      fiber.weigh_assets hf]

theorem HostCall.weigh_assets (call : HostCall) :
    weigh f call.assets = weigh f (loosen call.debris) := by
  obtain ⟨key, driver, state⟩ := call
  cases state with
  | holding handle work =>
    simp only [assets, debris, Ending.assets, loosen_cons, weigh_cons, hf.kept]
  | handing => rfl

end Bare

end Fibers
