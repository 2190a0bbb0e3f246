import Mathlib.Order.Bounds.Basic
import Fibers.Proofs.Confinement
import Fibers.Proofs.Fates

/-!
Sizes of stacks. A stack is as large as the least number of whole pages that holds
what was asked for, and it is refused just if this and the guard page do not fit into
a word. A task whose scheduler asks for such a size fails alone: it never begins, and
the run loop goes on with the next entry.
-/

namespace Fibers

variable {page request usable : Nat}

/-! ### Whole pages -/

theorem isLeast_pages_iff (hpage : 0 < page) {n : Nat} :
    IsLeast {size | page ∣ size ∧ n ≤ size} usable ↔ page ∣ usable ∧ n ≤ usable ∧
      usable < n + page := by
  constructor
  · rintro ⟨⟨hdvd, hle⟩, hleast⟩
    refine ⟨hdvd, hle, ?_⟩
    by_contra hfar
    have hless : usable - page ∈ {size | page ∣ size ∧ n ≤ size} :=
      ⟨Nat.dvd_sub hdvd (Nat.dvd_refl page), by omega⟩
    have := hleast hless
    omega
  · rintro ⟨hdvd, hle, hnear⟩
    refine ⟨⟨hdvd, hle⟩, ?_⟩
    rintro size ⟨hsize, hbound⟩
    by_contra hless
    have hgap : page ∣ usable - size := Nat.dvd_sub hdvd hsize
    have := Nat.le_of_dvd (by omega) hgap
    omega

/-- Rounding up is refused where its result is no word. -/
theorem nextMultiple?_of_isLeast (hpage : 0 < page) {n : Nat}
    (h : IsLeast {size | page ∣ size ∧ n ≤ size} usable) :
    nextMultiple? page n = if n % page = 0 ∨ usable < wordLimit then some usable else none := by
  obtain ⟨hdvd, hle, hnear⟩ := (isLeast_pages_iff hpage).1 h
  have hdiv := Nat.div_add_mod n page
  have hmod := Nat.mod_lt n hpage
  obtain ⟨k, rfl⟩ := hdvd
  rw [nextMultiple?, addWords?]
  by_cases hwhole : n % page = 0
  · have hsame : page * k = n := by
      have hk : k = n / page := by
        rw [hwhole, Nat.add_zero] at hdiv
        have hlow : page * (n / page) ≤ page * k := by omega
        have hhigh : page * k < page * (n / page + 1) := by
          rw [Nat.mul_add, Nat.mul_one]
          omega
        have := Nat.le_of_mul_le_mul_left hlow hpage
        have := Nat.lt_of_mul_lt_mul_left hhigh
        omega
      rw [hk]
      omega
    rw [if_pos hwhole, if_pos (.inl hwhole), hsame]
  · have hsum : n + (page - n % page) = page * k := by
      have hk : k = n / page + 1 := by
        have hlow : page * (n / page) < page * k := by omega
        have hhigh : page * k < page * (n / page + 2) := by
          rw [Nat.mul_add]
          omega
        have := Nat.lt_of_mul_lt_mul_left hlow
        have := Nat.lt_of_mul_lt_mul_left hhigh
        omega
      rw [hk, Nat.mul_add]
      omega
    rw [if_neg hwhole, hsum]
    by_cases hfits : page * k < wordLimit <;> simp [hwhole, hfits]

/-- A stack takes its pages and one page more, if that is a word. -/
theorem plan?_of_isLeast (hpage : 0 < page)
    (h : IsLeast {size | page ∣ size ∧ max request 1 ≤ size} usable) :
    StackExtent.plan? page request = if usable + page <
      wordLimit then some ⟨usable, usable + page⟩ else none := by
  rw [StackExtent.plan?, nextMultiple?_of_isLeast hpage h]
  by_cases hrounds : max request 1 % page = 0 ∨ usable < wordLimit
  · rw [if_pos hrounds, Option.bind_some, addWords?]
    split <;> rfl
  · rw [if_neg hrounds, Option.bind_none, if_neg (by omega)]

/-- What is asked for decides whether the system is asked, and its answer decides the rest. -/
theorem mapStack_of_isLeast (mapping : Mapping) (hpage : 0 < page)
    (h : IsLeast {size | page ∣ size ∧ max request 1 ≤ size} usable) :
    mapStack mapping page request =
      if usable + page < wordLimit then
        (mapping (usable + page)).elim (.ok usable) .error
      else .error (.stackTooLarge request) := by
  rw [mapStack, plan?_of_isLeast hpage h]
  by_cases hfits : usable + page < wordLimit
  · rw [if_pos hfits, if_pos hfits]
    dsimp only
    cases mapping (usable + page) <;> rfl
  · rw [if_neg hfits, if_neg hfits]

theorem exists_isLeast_pages (hpage : 0 < page) (n : Nat) :
    ∃ usable, IsLeast {size | page ∣ size ∧ n ≤ size} usable := by
  refine ⟨(n + (page - 1)) / page * page, (isLeast_pages_iff hpage).2 ⟨Nat.dvd_mul_left .., ?_⟩⟩
  have hdiv := Nat.div_add_mod' (n + (page - 1)) page
  have hmod := Nat.mod_lt (n + (page - 1)) hpage
  omega

/-- Whole pages are rounded to themselves. -/
theorem isLeast_pages_self (hpage : 0 < page)
    (h : IsLeast {size | page ∣ size ∧ max request 1 ≤ size} usable) :
    IsLeast {size | page ∣ size ∧ max usable 1 ≤ size} usable := by
  obtain ⟨hdvd, hle, -⟩ := (isLeast_pages_iff hpage).1 h
  exact (isLeast_pages_iff hpage).2 ⟨hdvd, by omega, by omega⟩

/-- How a request for a stack fares, whoever makes it and whatever the system answers:
`usable` is what the stack is to have. -/
structure Fits (page request usable : Nat) : Prop where
  /-- What leaves the words is refused, and then there is nothing to map. -/
  unplanned : wordLimit - 1 < usable + page → StackExtent.plan? page request = none ∧
    ∀ mapping label source,
      Stack.make mapping page label source request = .error (.stackTooLarge request)
  /-- Otherwise the system is asked once, and the request fails only as its mapping does. -/
  planned : usable + page ≤ wordLimit - 1 →
    StackExtent.plan? page request = some ⟨usable, usable + page⟩ ∧
    ∀ mapping label source, Stack.make mapping page label source request =
      (mapping (usable + page)).elim (.ok ⟨label, usable, source⟩) .error
  /-- Only what leaves the words is invalid, to a system that finds no length invalid. -/
  refused : ∀ mapping : Mapping,
    (∀ length fault, mapping length = some fault → fault.kind ≠ .invalidInput) →
    ∀ label source,
      (∃ fault, Stack.make mapping page label source request = .error fault ∧
      fault.kind = .invalidInput) ↔ wordLimit - 1 < usable + page
  /-- The size is what is left of the length, a word, without the guard page. -/
  size_eq : ∀ mapping label source stack, Stack.make mapping page label source request = .ok stack →
    stack.size = usable ∧ ∃ extent, StackExtent.plan? page request = some extent ∧
      extent.length < wordLimit ∧ page ≤ extent.length ∧ extent.length - page = stack.size
  near : request ≤ usable ∧ usable < max request 1 + page
  whole : 0 < usable ∧ page ∣ usable
  again : ∀ mapping label source stack, Stack.make mapping page label source request = .ok stack →
    Stack.make mapping page label source stack.size = .ok stack
  mono : ∀ mapping mapping' label label' source source' other stack larger, request ≤ other →
    Stack.make mapping page label source request = .ok stack →
      Stack.make mapping' page label' source' other = .ok larger → stack.size ≤ larger.size

/-- How a stack is made. -/
theorem make_of_isLeast (mapping : Mapping) (label : Nat) (source : StackSource) (hpage : 0 < page)
    (h : IsLeast {size | page ∣ size ∧ max request 1 ≤ size} usable) :
    Stack.make mapping page label source request =
      if usable + page < wordLimit then
        (mapping (usable + page)).elim (.ok ⟨label, usable, source⟩) .error
      else .error (.stackTooLarge request) := by
  rw [Stack.make, mapStack_of_isLeast mapping hpage h]
  split
  · cases mapping (usable + page) <;> rfl
  · rfl

/-- A stack that is made has as many bytes as it is to have, and no other one would do. -/
theorem make_eq_ok (hpage : 0 < page)
    (h : IsLeast {size | page ∣ size ∧ max request 1 ≤ size} usable) {mapping : Mapping}
    {label : Nat} {source : StackSource} {stack : Stack}
    (hmade : Stack.make mapping page label source request = .ok stack) :
    stack = ⟨label, usable, source⟩ ∧ usable + page < wordLimit ∧
      mapping (usable + page) = none := by
  rw [make_of_isLeast mapping label source hpage h] at hmade
  split at hmade
  next hfits =>
    cases hanswer : mapping (usable + page) with
    | none =>
      rw [hanswer] at hmade
      cases hmade
      exact ⟨rfl, hfits, rfl⟩
    | some fault =>
      rw [hanswer] at hmade
      cases hmade
  next => cases hmade

theorem fits_of_isLeast (hpage : 0 < page)
    (h : IsLeast {size | page ∣ size ∧ max request 1 ≤ size} usable) :
    Fits page request usable := by
  obtain ⟨hdvd, hle, hnear⟩ := (isLeast_pages_iff hpage).1 h
  have hplan := plan?_of_isLeast hpage h
  have hlimit : 0 < wordLimit := by decide
  constructor
  case unplanned =>
    intro hlarge
    rw [hplan, if_neg (by omega)]
    refine ⟨rfl, fun mapping label source => ?_⟩
    rw [make_of_isLeast mapping label source hpage h, if_neg (by omega)]
  case planned =>
    intro hfits
    rw [hplan, if_pos (by omega)]
    refine ⟨rfl, fun mapping label source => ?_⟩
    rw [make_of_isLeast mapping label source hpage h, if_pos (by omega)]
  case refused =>
    intro mapping hvalid label source
    rw [make_of_isLeast mapping label source hpage h]
    constructor
    · rintro ⟨fault, herror, hkind⟩
      by_contra hfits
      rw [if_pos (by omega)] at herror
      cases hanswer : mapping (usable + page) with
      | none =>
        rw [hanswer] at herror
        cases herror
      | some other =>
        rw [hanswer] at herror
        cases herror
        exact hvalid _ _ hanswer hkind
    · intro hlarge
      rw [if_neg (by omega)]
      exact ⟨_, rfl, rfl⟩
  case size_eq =>
    intro mapping label source stack hmade
    obtain ⟨rfl, hfits, -⟩ := make_eq_ok hpage h hmade
    rw [if_pos hfits] at hplan
    exact ⟨rfl, _, hplan, hfits, Nat.le_add_left page usable, Nat.add_sub_cancel usable page⟩
  case near => omega
  case whole => exact ⟨by omega, hdvd⟩
  case again =>
    intro mapping label source stack hmade
    obtain ⟨rfl, hfits, hmapped⟩ := make_eq_ok hpage h hmade
    rw [make_of_isLeast mapping label source hpage (isLeast_pages_self hpage h),
      if_pos hfits, hmapped, Option.elim_none]
  case mono =>
    intro mapping mapping' label label' source source' other stack larger hother hmade hmade'
    obtain ⟨wide, hwide⟩ := exists_isLeast_pages hpage (max other 1)
    obtain ⟨rfl, -⟩ := make_eq_ok hpage h hmade
    obtain ⟨rfl, -⟩ := make_eq_ok hpage hwide hmade'
    obtain ⟨hdvd', hle', -⟩ := (isLeast_pages_iff hpage).1 hwide
    change usable ≤ wide
    exact h.2 ⟨hdvd', by omega⟩

/-! ### Tasks without a stack -/

/-- Once a task is taken up that has yet to start, its scheduler has no stack for it: the size
is refused, or none is idle and the system does not map one. -/
def World.LacksStack (w : World) (scheduler : Scheduler) : Prop :=
  let size := scheduler.pool.config.stackSize
  StackExtent.plan? pageSize size = none ∨
    scheduler.pool.idle = [] ∧ ∃ fault, mapStack (w.mappings (w.history.size + 1)) pageSize
      size = .error fault

/-- A scheduler that gave its first entry away and counts one task more that failed. -/
def Scheduler.failing (scheduler : Scheduler) (rest : List Runnable) : Scheduler :=
  { scheduler with
    queue := rest
    counters := { scheduler.counters with failed := scheduler.counters.failed + 1 } }

/-- A task gets no stack and is counted as failed. -/
def World.lacksStack (w : World) (s : SchedulerId) (id : FiberId) (size : Nat) : World :=
  (((w.tell (.poolMiss size)).mark (.unstarted s id)).tell
    (.noStack id "failed to allocate a fiber stack")).updateScheduler s Scheduler.countFailed

/-- The task is taken off the queue before that. -/
def World.failsFirst (w : World) (s : SchedulerId) (id : FiberId) (body : List Action)
    (rest : List Runnable) (size : Nat) : World :=
  ((w.updateScheduler s fun scheduler => { scheduler with queue := rest }).mark
    (.dispatched s (.fresh id body))).lacksStack s id size

namespace Machine

variable {m m' : Machine} {s : SchedulerId} {scheduler : Scheduler} {id : FiberId}
  {body : List Action} {rest : List Runnable} {ran : Nat} {limit : Option Nat} {frames : List Frame}
  {fault : IoFault} {script : Script}

/-- A size that is refused is never mapped. -/
theorem mapStack_of_unplanned (mapping : Mapping) (h : StackExtent.plan? page request = none) :
    mapStack mapping page request = .error (.stackTooLarge request) := by
  rw [mapStack, h]

/-- A scheduler that has no stack for a task has none idle. -/
theorem Sound.idle_eq_nil {byHand : Prop} (h : m.Sound byHand)
    (hs : m.world.scheduler? s = some scheduler) (hlacks : m.world.LacksStack scheduler) :
    scheduler.pool.idle = [] := by
  rcases hlacks with hrefused | ⟨hnone, -⟩
  · refine List.eq_nil_iff_forall_not_mem.2 fun stack hidle => ?_
    obtain ⟨n, hmapped⟩ := (h.idle_mapped hs hidle).2
    rw [mapStack_of_unplanned _ hrefused] at hmapped
    cases hmapped
  · exact hnone

theorem start_eq_lacksStack (n : Machine) (id : FiberId) (body : List Action)
    (hs : n.world.scheduler? s = some scheduler) (hidle : scheduler.pool.idle = [])
    (hrefused : mapStack n.world.mapping pageSize scheduler.pool.config.stackSize = .error fault) :
    n.start s id body =
      (n.withWorld (n.world.lacksStack s id scheduler.pool.config.stackSize)).advance := by
  have hsupplies := World.supplies hs
  rw [start]
  generalize n.world.supplyStack s = supply at hsupplies
  cases hsupplies with
  | hit hhit =>
    rw [hidle] at hhit
    cases hhit
  | mapped _ hmake =>
    rw [Stack.make, hrefused] at hmake
    cases hmake
  | refused _ hmake => rfl

/-- The run loop of a scheduler has its turn, and a task that has yet to start is next. -/
structure TakesUp (m : Machine) (s : SchedulerId) (scheduler : Scheduler) (id : FiberId)
    (body : List Action) (rest : List Runnable) (ran : Nat) (limit : Option Nat)
    (frames : List Frame) : Prop where
  top : m.top = .draining s ran limit :: frames
  control : m.control = .advance
  more : limit.any (· ≤ ran) = false
  scheduler_eq : m.world.scheduler? s = some scheduler
  queue : scheduler.queue = .fresh id body :: rest

/-- The task fails, and nothing else comes of it. -/
structure FailsAlone (m : Machine) (s : SchedulerId) (scheduler : Scheduler) (id : FiberId)
    (rest : List Runnable) (ran : Nat) (limit : Option Nat) (frames : List Frame) (m' : Machine) :
    Prop where
  /-- One task more failed; the pool is as it was. -/
  counted : m'.world.scheduler? s = some (scheduler.failing rest)
  others : ∀ t, t ≠ s → m'.world.scheduler? t = m.world.scheduler? t
  /-- Nothing was mapped, and no fiber was made. -/
  unmapped : m'.world.stacksMapped = m.world.stacksMapped ∧ m'.world.fibersMade = m.world.fibersMade
  /-- The run loop goes on. -/
  goesOn : m'.top = .draining s (ran + 1) limit :: frames ∧ m'.control = .advance ∧
    m'.running = m.running
  /-- Nothing of the task was dispatched before. -/
  unbegun : m.world.tally (Mark.starts s id) = 0
  /-- Nor is control ever in it. -/
  finished : ∀ later, Leads (fun _ => True) m' later → later.places ⟨s, id⟩ = [.finished]
  /-- The next entry is run, if the loop is to run so many. -/
  next : ∀ entry rest', rest = entry :: rest' → limit.any (· ≤ ran + 1) = false →
    ∃ m'', m'.step? = some m'' ∧ m'.Takes s (ran + 1) limit frames entry m''

theorem TakesUp.step (h : m.TakesUp s scheduler id body rest ran limit frames) (hm : m.Sound True)
    (hlacks : m.world.LacksStack scheduler) :
    m.step? = some (m.goTo (.draining s (ran + 1) limit :: frames)
      (m.world.failsFirst s id body rest scheduler.pool.config.stackSize) .advance) := by
  have hqueue : m.world.queue s = .fresh id body :: rest := by
    rw [World.queue_eq, h.scheduler_eq]
    exact h.queue
  have hidle := hm.idle_eq_nil h.scheduler_eq hlacks
  obtain ⟨fault, hrefused⟩ : ∃ fault,
      mapStack (m.world.mappings (m.world.history.size + 1)) pageSize
      scheduler.pool.config.stackSize = .error fault :=
    hlacks.elim (fun hnone => ⟨_, mapStack_of_unplanned _ hnone⟩) And.right
  have hstart : ∀ n : Machine,
      n.world = ((m.world.updateScheduler s fun scheduler => { scheduler with queue := rest }).mark
      (.dispatched s (.fresh id body))) → n.start s id body =
        (n.withWorld (n.world.lacksStack s id scheduler.pool.config.stackSize)).advance := by
    intro n hn
    have htaken : n.world.scheduler? s = some { scheduler with queue := rest } := by
      rw [hn]
      change (m.world.updateScheduler s _).scheduler? s = _
      rw [World.scheduler?_updateScheduler, if_pos rfl, h.scheduler_eq]
      rfl
    have hmapping : n.world.mapping = m.world.mappings (m.world.history.size + 1) := by
      rw [hn, World.mapping]
      exact congrArg m.world.mappings (Array.size_push _)
    have hstarts := n.start_eq_lacksStack id body htaken hidle (hmapping ▸ hrefused)
    exact hstarts
  rw [hm.step?_of_top h.top, react?.eq_def]
  simp only [goTo_control, h.control]
  rw [drain, h.more]
  simp only [goTo_world, World.next?, hqueue, goTo_withWorld, goTo_push,
    Bool.false_eq_true, if_false]
  rw [hstart _ rfl]
  rfl

/-- A run loop with something to run takes it up. -/
theorem Sound.takes_of_queue (h : m.Sound True) (htop : m.top = .draining s ran limit :: frames)
    (hcontrol : m.control = .advance) (hmore : limit.any (· ≤ ran) = false) {entry : Runnable}
    (hqueue : m.world.queue s = entry :: rest) : ∃ m', m.step? = some m' ∧
    m.Takes s ran limit frames entry m' := by
  have hstep : m.step? = some ((m.goTo frames m.world .advance).drain s ran limit) := by
    rw [h.step?_of_top htop, react?.eq_def]
    simp only [goTo_control, hcontrol]
  refine ⟨_, hstep, ?_⟩
  rcases Drains.takes h htop hcontrol (drains _ s ran limit) with
    ⟨-, hstops | hempty⟩ | ⟨taken, htakes⟩
  · rw [hmore] at hstops
    cases hstops
  · rw [hqueue] at hempty
    cases hempty
  · obtain ⟨u, hgives, -⟩ := htakes.gives
    have hfirst := hgives.queue
    rw [hqueue, List.cons.injEq] at hfirst
    rw [hfirst.1]
    exact htakes

theorem TakesUp.fails (h : m.TakesUp s scheduler id body rest ran limit frames) (hm : m.Sound True)
    (hlacks : m.world.LacksStack scheduler) :
    ∃ m', m.step? = some m' ∧ m.FailsAlone s scheduler id rest ran limit frames m' := by
  have hstep := h.step hm hlacks
  have hm' := hm.step hstep
  have hcounted : (m.world.failsFirst s id body rest scheduler.pool.config.stackSize).scheduler? s =
      some (scheduler.failing rest) := by
    change ((m.world.updateScheduler s _).updateScheduler s Scheduler.countFailed).scheduler? s = _
    rw [World.scheduler?_updateScheduler, if_pos rfl, World.scheduler?_updateScheduler, if_pos rfl,
      h.scheduler_eq]
    rfl
  have hrunning := (hm.root_of_draining h.top h.control).1
  refine ⟨_, hstep, ?_⟩
  constructor
  case counted => exact hcounted
  case others =>
    intro t hne
    change ((m.world.updateScheduler s _).updateScheduler s Scheduler.countFailed).scheduler? t = _
    rw [World.scheduler?_updateScheduler, if_neg (Ne.symm hne), World.scheduler?_updateScheduler,
      if_neg (Ne.symm hne)]
  case unmapped => exact ⟨rfl, rfl⟩
  case goesOn =>
    rw [hrunning, (goTo_running_eq_nil m _ _ _ hrunning).1]
    exact ⟨goTo_top .., rfl, rfl⟩
  case unbegun =>
    have hentry : .fresh id body ∈ scheduler.queue := by
      rw [h.queue]
      exact List.mem_cons_self ..
    have hwaits : 0 < m.world.worth (Asset.taskOf s id) := by
      have member : .loose (.task s id) ∈ schedulersAssets 0 m.world.schedulers := by
        refine mem_schedulersAssets h.scheduler_eq ?_
        rw [Nat.zero_add]
        exact List.mem_append_left _ (List.mem_flatMap.2 ⟨_, hentry, List.mem_singleton.2 rfl⟩)
      have hle := le_weigh_of_mem (Asset.taskOf s id) member
      simp only [Asset.taskOf, and_self, if_true] at hle
      rw [World.worth]
      omega
    have htasks := hm.kept.balanced.tasks s id
    have hone := hm.enqueues_le ⟨s, id⟩
    simp only at hone
    omega
  case finished =>
    intro later hleads
    have htold : .mark (.unstarted s id) ∈ later.world.history.toList :=
      (hleads.remembers hm').subset
      (by simp [World.failsFirst, World.lacksStack, World.updateScheduler, World.tell, World.mark])
    have hone := le_tally htold (Mark.finishes s id)
    refine (hm'.leads hleads fun _ _ _ _ => trivial).places_finished ?_
    simp only [Mark.finishes, and_self, if_true] at hone
    exact hone
  case next =>
    intro entry rest' hrest hmore
    apply hm'.takes_of_queue (goTo_top ..) rfl hmore
    rw [goTo_world, World.queue_eq, hcounted]
    exact hrest

/-- A stack has the least number of whole pages that holds what was asked for, in a word
with the guard page or not at all. In every session a task whose scheduler asks for too
much, or for which nothing is mapped, fails alone: nothing of it is ever run, its scheduler
counts it and keeps its pool, and the run loop goes on with the next entry. -/
theorem stack_sizes_are_exact (hpage : 0 < page)
    (hleast : IsLeast {size | page ∣ size ∧ max request 1 ≤ size} usable) :
    Fits page request usable ∧
      ∀ (script : Script) (m : Machine), Visits (fun _ => True) script.start m →
        ∀ s scheduler id body rest ran limit frames, m.world.LacksStack scheduler →
          m.TakesUp s scheduler id body rest ran limit frames →
          ∃ m', m.step? = some m' ∧ m.FailsAlone s scheduler id rest ran limit frames m' :=
  ⟨fits_of_isLeast hpage hleast, fun _ _ hvisits _ _ _ _ _ _ _ _ hlacks htakes =>
    htakes.fails (hvisits.sound fun _ _ _ _ => trivial) hlacks⟩

/-- A scheduler that asks for more than a word holds with its guard page. -/
def tooLarge : Script where
  schedulers := [.own ⟨18446744073709551615, 4096⟩]
  tasks := .empty
  counters := .empty
  steps := []

/-- Two tasks are enqueued and run. -/
def runTwo : Action :=
  .scope [.enqueue 0 [.log .null], .enqueue 0 [.log .null], .run 0 none false] false

/-- The state of that program after some steps. -/
def runningTwo (steps : Nat) : Machine := (Script.begin tooLarge.start runTwo).settle steps

/-- The scheduler before its first task is taken up. -/
def beforeTwo : Scheduler :=
  ⟨[.fresh ⟨1⟩ [.log .null], .fresh ⟨2⟩ [.log .null]], 2, ⟨2, 0, 0, 0, 0⟩,
    ⟨⟨18446744073709551615, 4096⟩, []⟩, 2⟩

/-- A page below the end of the words there is no room for the guard page. The first of
the two tasks fails alone. -/
theorem first_of_two_fails_alone :
    Fits 4096 18446744073709543425 18446744073709547520 ∧
      (runningTwo 4).world.LacksStack beforeTwo ∧ ∃ frames m', (runningTwo 4).step? = some m' ∧
        (runningTwo 4).FailsAlone ⟨0⟩ beforeTwo ⟨1⟩ [.fresh ⟨2⟩ [.log .null]] 0 none frames m' := by
  have hlacks : (runningTwo 4).world.LacksStack beforeTwo := by
    left
    decide +kernel
  have hleast : IsLeast {size | 4096 ∣ size ∧ max 18446744073709543425 1 ≤ size}
      18446744073709547520 :=
    (isLeast_pages_iff (by decide)).2 (by decide)
  obtain ⟨hfits, hsessions⟩ := stack_sizes_are_exact (by decide) hleast
  have htakes : (runningTwo 4).TakesUp ⟨0⟩ beforeTwo ⟨1⟩ [.log .null]
      [.fresh ⟨2⟩ [.log .null]] 0 none
      [.answering ⟨0⟩ (.run false), .actions [] [], .actions [] []] := by
    constructor <;> with_unfolding_all rfl
  exact ⟨hfits, hlacks, _, hsessions tooLarge _ (visits_settle _ runTwo 4) _ _ _ _ _ _ _ _
    hlacks htakes⟩

end Machine

end Fibers
