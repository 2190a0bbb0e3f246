import Fibers.Stack.Pool

/-!
Pools as bounded stacks. The history of a pool tells what was handed out, kept and
released. A pool hands out what it kept latest of all that was not handed out since,
and keeps what it is given as long as its bound allows.
-/

namespace Fibers

/-- What the use of a pool comes to. -/
inductive PoolEvent
  | hit (stack : Stack)
  | mapped (stack : Stack)
  | refused (fault : IoFault)
  | kept (stack : Stack)
  | released (stack : Stack)

namespace PoolEvent

/-- The stack that is handed out. -/
def handedOut? : PoolEvent → Option Stack
  | .hit stack | .mapped stack => some stack
  | _ => none

/-- The stack that is put into the pool, whether it is kept or not. -/
def put? : PoolEvent → Option Stack
  | .kept stack | .released stack => some stack
  | _ => none

/-- The stack that an event is about. -/
def stack? (event : PoolEvent) : Option Stack := event.handedOut?.or event.put?

def isPut : PoolEvent → Bool
  | .kept _ | .released _ => true
  | _ => false

def isHit : PoolEvent → Bool
  | .hit _ => true
  | _ => false

def isKept : PoolEvent → Bool
  | .kept _ => true
  | _ => false

def isReleased : PoolEvent → Bool
  | .released _ => true
  | _ => false

end PoolEvent

def StackPool.Supply.event : StackPool.Supply → PoolEvent
  | .hit stack => .hit stack
  | .mapped stack => .mapped stack
  | .refused fault => .refused fault

namespace StackPool

def putEvent (pool : StackPool) (stack : Stack) : PoolEvent :=
  if pool.full then .released stack else .kept stack

/-- Pools with their histories. Stacks of any kind are put into a pool, and mapping a new
stack may turn out in any way. -/
inductive Used (config : PoolConfig) : List PoolEvent → StackPool → Prop
  | new : Used config [] (.empty config)
  | get {past : List PoolEvent} {pool : StackPool} (h : Used config past pool)
      (mapping : Except IoFault Stack) :
      Used config (past ++ [(pool.draw mapping).1.event]) (pool.draw mapping).2
  | put {past : List PoolEvent} {pool : StackPool} (h : Used config past pool) (stack : Stack) :
      Used config (past ++ [pool.putEvent stack]) (pool.put stack)

end StackPool

/-! ### Histories -/

/-- All that was kept has been handed out again. -/
inductive AllReused : List PoolEvent → Prop
  | nil : AllReused []
  | aside {event : PoolEvent} {rest : List PoolEvent} (hhit : event.isHit = false)
      (hkept : event.isKept = false) (h : AllReused rest) : AllReused (event :: rest)
  | pair {stack : Stack} {inner rest : List PoolEvent} (hinner : AllReused inner)
      (hrest : AllReused rest) : AllReused (.kept stack :: (inner ++ .hit stack :: rest))

/-- The stack was kept latest of all that have not been handed out since. -/
def Latest (past : List PoolEvent) (stack : Stack) : Prop :=
  ∃ before between, past = before ++ .kept stack :: between ∧ AllReused between

namespace AllReused

variable {past first second : List PoolEvent} {stack : Stack}

theorem append (hfirst : AllReused first) (hsecond : AllReused second) :
    AllReused (first ++ second) := by
  induction hfirst with
  | nil => exact hsecond
  | aside hhit hkept _ ih => exact .aside hhit hkept ih
  | pair hinner _ _ ih =>
    rw [List.cons_append, List.append_assoc, List.cons_append]
    exact .pair hinner ih

theorem countP_eq (h : AllReused past) :
    past.countP PoolEvent.isKept = past.countP PoolEvent.isHit := by
  induction h with
  | nil => rfl
  | aside hhit hkept _ ih => simpa [hhit, hkept] using ih
  | @pair stack inner rest _ _ ihinner ihrest =>
    simp [List.countP_cons, List.countP_append, PoolEvent.isKept, PoolEvent.isHit, ihinner, ihrest]
    omega

/-- Of what was kept since some point everything was handed out, and perhaps more. -/
theorem countP_le (h : AllReused past) {late : List PoolEvent} (hlate : late <:+ past) :
    late.countP PoolEvent.isKept ≤ late.countP PoolEvent.isHit := by
  induction h generalizing late with
  | nil => simp [List.suffix_nil.1 hlate]
  | @aside event rest hhit hkept _ ih =>
    rcases List.suffix_cons_iff.1 hlate with rfl | hlate
    · simpa [hhit, hkept] using ih (List.suffix_refl rest)
    · exact ih hlate
  | @pair stack inner rest _ _ ihinner ihrest =>
    have hkept : (PoolEvent.kept stack).isKept = true ∧
        (PoolEvent.kept stack).isHit = false := ⟨rfl, rfl⟩
    have hhit : (PoolEvent.hit stack).isKept = false ∧
        (PoolEvent.hit stack).isHit = true := ⟨rfl, rfl⟩
    have hrest := ihrest (List.suffix_refl rest)
    rcases List.suffix_cons_iff.1 hlate with rfl | hlate
    · have hinner := ihinner (List.suffix_refl inner)
      simp [List.countP_append, hkept, hhit]
      omega
    · rcases List.suffix_or_suffix_of_suffix hlate
        (List.suffix_append inner (.hit stack :: rest)) with hlate | ⟨part, rfl⟩
      · rcases List.suffix_cons_iff.1 hlate with rfl | hlate
        · simp [hhit]
          omega
        · exact ihrest hlate
      · obtain ⟨early, heq⟩ := hlate
        rw [← List.append_assoc] at heq
        have hinner := ihinner ⟨early, List.append_cancel_right heq⟩
        simp [List.countP_append, hhit]
        omega

/-- A stack that was handed out had been kept. -/
theorem kept_of_hit (h : AllReused past) (member : .hit stack ∈ past) :
    ∃ early late, past = early ++ .kept stack :: late ∧ .hit stack ∉ early := by
  induction h with
  | nil => cases member
  | @aside event rest hhit hkept _ ih =>
    rcases List.mem_cons.1 member with rfl | member
    · cases hhit
    · obtain ⟨early, late, rfl, hfresh⟩ := ih member
      refine ⟨event :: early, late, rfl, ?_⟩
      rintro hmem
      rcases List.mem_cons.1 hmem with rfl | hmem
      · cases hhit
      · exact hfresh hmem
  | @pair other inner rest _ _ ihinner ihrest =>
    by_cases heq : other = stack
    · subst heq
      exact ⟨[], _, rfl, List.not_mem_nil⟩
    · by_cases hin : .hit stack ∈ inner
      · obtain ⟨early, late, rfl, hfresh⟩ := ihinner hin
        refine ⟨.kept other :: early, late ++ .hit other :: rest, by simp, ?_⟩
        simpa using hfresh
      · have hout : .hit stack ∈ rest := by simpa [hin, Ne.symm heq] using member
        obtain ⟨early, late, rfl, hfresh⟩ := ihrest hout
        refine ⟨.kept other :: (inner ++ .hit other :: early), late, by simp, ?_⟩
        simpa [hin, Ne.symm heq] using hfresh

end AllReused

/-- The latest stack is one. -/
theorem Latest.unique {past : List PoolEvent} {first second : Stack} (hfirst : Latest past first)
    (hsecond : Latest past second) : first = second := by
  obtain ⟨before, between, heq, hreused⟩ := hfirst
  obtain ⟨before', between', heq', hreused'⟩ := hsecond
  have hopen : ∀ {stack : Stack} {since late : List PoolEvent}, AllReused since → AllReused late →
      ¬.kept stack :: since <:+ late := by
    intro stack since late hsince hlate hsuffix
    have hmore := hlate.countP_le hsuffix
    have hsame := hsince.countP_eq
    simp [List.countP_cons, PoolEvent.isKept, PoolEvent.isHit] at hmore
    omega
  rcases List.suffix_or_suffix_of_suffix (List.suffix_append before (.kept first :: between))
    (heq ▸ heq' ▸ List.suffix_append before' (.kept second :: between')) with hsuffix | hsuffix
  · rcases List.suffix_cons_iff.1 hsuffix with hsame | hinside
    · cases hsame
      rfl
    · exact absurd hinside (hopen hreused hreused')
  · rcases List.suffix_cons_iff.1 hsuffix with hsame | hinside
    · cases hsame
      rfl
    · exact absurd hinside (hopen hreused' hreused)

/-- The stacks that were kept and not handed out since, the latest in front. -/
inductive Stacked : List PoolEvent → List Stack → Prop
  | nil {past : List PoolEvent} (h : AllReused past) : Stacked past []
  | cons {before between : List PoolEvent} {stack : Stack} {below : List Stack}
      (hbelow : Stacked before below) (h : AllReused between) :
      Stacked (before ++ .kept stack :: between) (stack :: below)

namespace Stacked

variable {past : List PoolEvent} {idle : List Stack} {stack : Stack}

theorem append (h : Stacked past idle) {since : List PoolEvent} (hsince : AllReused since) :
    Stacked (past ++ since) idle := by
  cases h with
  | nil h => exact .nil (h.append hsince)
  | cons hbelow h =>
    rw [List.append_assoc, List.cons_append]
    exact .cons hbelow (h.append hsince)

theorem keep (h : Stacked past idle) (stack : Stack) :
    Stacked (past ++ [.kept stack]) (stack :: idle) :=
  .cons h .nil

theorem hand (h : Stacked past (stack :: idle)) : Stacked (past ++ [.hit stack]) idle := by
  cases h with
  | cons hbelow h =>
    rw [List.append_assoc, List.cons_append]
    exact hbelow.append (.pair h .nil)

theorem aside (h : Stacked past idle) {event : PoolEvent} (hhit : event.isHit = false)
    (hkept : event.isKept = false) : Stacked (past ++ [event]) idle :=
  h.append (.aside hhit hkept .nil)

theorem latest (h : Stacked past (stack :: idle)) : Latest past stack := by
  cases h with
  | cons _ h => exact ⟨_, _, rfl, h⟩

/-- Once everything was handed out there is no latest stack. -/
theorem not_latest (h : Stacked past []) (stack : Stack) : ¬Latest past stack := by
  rintro ⟨before, between, heq, hreused⟩
  cases h with
  | nil h =>
    have hmore := h.countP_le (heq ▸ List.suffix_append before (.kept stack :: between))
    have hsame := hreused.countP_eq
    simp [List.countP_cons, PoolEvent.isKept, PoolEvent.isHit] at hmore
    omega

end Stacked

/-! ### Stacks that have one place -/

/-- Stacks are put into a pool by those only who have them, and a new stack is one that
was not there before. -/
def Owned (past : List PoolEvent) : Prop :=
  ∀ before event after, past = before ++ event :: after →
    (∀ stack, event.put? = some stack → ∀ early late, before = early ++ .kept stack :: late →
      .hit stack ∈ late) ∧
      ∀ stack, event = .mapped stack → ∀ other ∈ before, other.stack? ≠ some stack

namespace StackPool

variable {config : PoolConfig} {past : List PoolEvent} {pool : StackPool}

/-- What can be said of a pool by its history. -/
structure IsBoundedStack (config : PoolConfig) (past : List PoolEvent) (pool : StackPool) :
    Prop where
  /-- A pool asks for stacks of the size that it is configured for. -/
  get_eq : ∀ mapping label source,
    pool.get mapping label source =
      pool.draw (Stack.make mapping pageSize label source config.stackSize)
  hands : ∀ stack, Latest past stack → ∀ mapping, (pool.draw mapping).1 = .hit stack
  /-- A mapping is made only if no stack is idle, and the pool stays as it is, also if
  the mapping fails. -/
  maps : (∀ stack, ¬Latest past stack) →
    (∀ stack, pool.draw (.ok stack) = (.mapped stack, pool)) ∧ ∀ fault, pool.draw (.error fault) =
    (.refused fault, pool)
  keeps : ∀ stack, config.maxIdle = 0 ∨ pool.idle.length < config.maxIdle →
    pool.putEvent stack = .kept stack ∧ pool.put stack = { pool with idle := stack :: pool.idle }
  releases : ∀ stack, ¬(config.maxIdle = 0 ∨ pool.idle.length < config.maxIdle) →
    pool.putEvent stack = .released stack ∧ pool.put stack = pool
  counts : pool.idle.length = past.countP PoolEvent.isPut - past.countP PoolEvent.isHit -
    past.countP PoolEvent.isReleased
  bounded : config.maxIdle ≠ 0 → pool.idle.length ≤ config.maxIdle

theorem draw_of_idle {stack : Stack} {rest : List Stack} (h : pool.idle = stack :: rest)
    (mapping : Except IoFault Stack) :
    pool.draw mapping = (.hit stack, { pool with idle := rest }) := by
  simp only [draw, h]

theorem draw_ok (h : pool.idle = []) (stack : Stack) :
    pool.draw (.ok stack) = (.mapped stack, pool) := by
  simp only [draw, h]

theorem draw_error (h : pool.idle = []) (fault : IoFault) :
    pool.draw (.error fault) = (.refused fault, pool) := by
  simp only [draw, h]

theorem put_of_open (h : pool.full = false) (stack : Stack) :
    pool.put stack = { pool with idle := stack :: pool.idle } := by
  simp [put, h]

theorem putEvent_of_open (h : pool.full = false) (stack : Stack) :
    pool.putEvent stack = .kept stack := by
  simp [putEvent, h]

theorem putEvent_of_full (h : pool.full = true) (stack : Stack) :
    pool.putEvent stack = .released stack := by
  simp [putEvent, h]

theorem full_eq_false_iff (pool : StackPool) :
    pool.full = false ↔ pool.config.maxIdle = 0 ∨ pool.idle.length < pool.config.maxIdle := by
  rw [full, Bool.and_eq_false_iff, decide_eq_false_iff_not, decide_eq_false_iff_not, Nat.not_le,
    ne_eq, Decidable.not_not]

theorem Used.config_eq (h : Used config past pool) : pool.config = config := by
  induction h with
  | new => rfl
  | get _ mapping ih => rw [draw_config, ih]
  | put _ stack ih => rw [put_config, ih]

/-- One use changes the history and the pool in one of five ways. -/
theorem Used.induct {P : List PoolEvent → StackPool → Prop} (h : Used config past pool)
    (hnew : P [] (.empty config))
    (hhit : ∀ past pool stack rest, Used config past pool → P past pool →
      pool.idle = stack :: rest → P (past ++ [.hit stack]) { pool with idle := rest })
    (hmapped : ∀ past pool stack, Used config past pool → P past pool → pool.idle = [] →
      P (past ++ [.mapped stack]) pool)
    (hrefused : ∀ past pool fault, Used config past pool → P past pool → pool.idle = [] →
      P (past ++ [.refused fault]) pool)
    (hkept : ∀ past pool stack, Used config past pool → P past pool → pool.full = false →
      P (past ++ [.kept stack]) { pool with idle := stack :: pool.idle })
    (hreleased : ∀ past pool stack, Used config past pool → P past pool → pool.full = true →
      P (past ++ [.released stack]) pool) : P past pool := by
  induction h with
  | new => exact hnew
  | @get past pool h mapping ih =>
    cases hidle : pool.idle with
    | cons stack rest =>
      rw [draw_of_idle hidle]
      exact hhit past pool stack rest h ih hidle
    | nil =>
      cases mapping with
      | ok stack =>
        rw [draw_ok hidle]
        exact hmapped past pool stack h ih hidle
      | error fault =>
        rw [draw_error hidle]
        exact hrefused past pool fault h ih hidle
  | @put past pool h stack ih =>
    cases hfull : pool.full with
    | false =>
      rw [putEvent_of_open hfull, put_of_open hfull]
      exact hkept past pool stack h ih hfull
    | true =>
      rw [putEvent_of_full hfull, put_of_full stack hfull]
      exact hreleased past pool stack h ih hfull

/-- What is idle in a pool can be told by its history. -/
theorem Used.stacked (h : Used config past pool) : Stacked past pool.idle := by
  refine h.induct (P := fun past pool => Stacked past pool.idle) (.nil .nil) ?_ ?_ ?_ ?_ ?_
  · intro past pool stack rest _ ih hidle
    rw [hidle] at ih
    exact ih.hand
  · intro past pool stack _ ih _
    exact ih.aside rfl rfl
  · intro past pool fault _ ih _
    exact ih.aside rfl rfl
  · intro past pool stack _ ih _
    exact ih.keep stack
  · intro past pool stack _ ih _
    exact ih.aside rfl rfl

/-- Stacks that were put are idle, were handed out again, or released. -/
theorem Used.accounts (h : Used config past pool) :
    pool.idle.length + past.countP PoolEvent.isHit + past.countP PoolEvent.isReleased =
      past.countP PoolEvent.isPut := by
  refine h.induct (P := fun past pool => pool.idle.length + past.countP PoolEvent.isHit +
    past.countP PoolEvent.isReleased = past.countP PoolEvent.isPut) rfl ?_ ?_ ?_ ?_ ?_
  · intro past pool stack rest _ ih hidle
    rw [hidle, List.length_cons] at ih
    simp [PoolEvent.isHit, PoolEvent.isReleased, PoolEvent.isPut]
    omega
  · intro past pool stack _ ih _
    simpa [PoolEvent.isHit, PoolEvent.isReleased, PoolEvent.isPut] using ih
  · intro past pool fault _ ih _
    simpa [PoolEvent.isHit, PoolEvent.isReleased, PoolEvent.isPut] using ih
  · intro past pool stack _ ih _
    simp [PoolEvent.isHit, PoolEvent.isReleased, PoolEvent.isPut]
    omega
  · intro past pool stack _ ih _
    simp [PoolEvent.isHit, PoolEvent.isReleased, PoolEvent.isPut]
    omega

theorem Used.bounded (h : Used config past pool) (hbound : config.maxIdle ≠ 0) :
    pool.idle.length ≤ config.maxIdle := by
  refine h.induct (P := fun _ pool => pool.idle.length ≤ config.maxIdle) (Nat.zero_le _)
    ?_ ?_ ?_ ?_ ?_
  · intro past pool stack rest _ ih hidle
    rw [hidle, List.length_cons] at ih
    exact Nat.le_of_succ_le ih
  · exact fun _ _ _ _ ih _ => ih
  · exact fun _ _ _ _ ih _ => ih
  · intro past pool stack hused ih hfull
    have hroom := (full_eq_false_iff pool).1 hfull
    rw [hused.config_eq] at hroom
    rw [List.length_cons]
    omega
  · exact fun _ _ _ _ ih _ => ih

theorem Used.isBoundedStack (h : Used config past pool) : IsBoundedStack config past pool := by
  have hconfig := h.config_eq
  have hstacked := h.stacked
  have hopen := pool.full_eq_false_iff
  rw [hconfig] at hopen
  constructor
  case get_eq =>
    intro mapping label source
    rw [StackPool.get, hconfig]
  case hands =>
    intro stack hlatest mapping
    cases hidle : pool.idle with
    | cons other rest =>
      rw [hidle] at hstacked
      rw [draw_of_idle hidle, hstacked.latest.unique hlatest]
    | nil =>
      rw [hidle] at hstacked
      exact absurd hlatest (hstacked.not_latest stack)
  case maps =>
    intro hnone
    have hidle : pool.idle = [] := by
      cases hcases : pool.idle with
      | nil => rfl
      | cons stack rest =>
        rw [hcases] at hstacked
        exact absurd hstacked.latest (hnone stack)
    exact ⟨draw_ok hidle, draw_error hidle⟩
  case keeps =>
    intro stack hroom
    have hfull := hopen.2 hroom
    exact ⟨putEvent_of_open hfull stack, put_of_open hfull stack⟩
  case releases =>
    intro stack hroom
    have hfull : pool.full = true := by rwa [← hopen, Bool.not_eq_false] at hroom
    exact ⟨putEvent_of_full hfull stack, put_of_full stack hfull⟩
  case counts =>
    have := h.accounts
    omega
  case bounded => exact h.bounded

theorem snoc_eq_append_cons {α : Type} {past before after : List α} {last item : α}
    (h : past ++ [last] = before ++ item :: after) :
    (after = [] ∧ before = past ∧ item = last) ∨ ∃ later, after = later ++ [last] ∧
    past = before ++ item :: later := by
  rcases List.eq_nil_or_concat after with rfl | ⟨later, final, rfl⟩
  · obtain ⟨hpast, hlast⟩ := List.append_inj' h rfl
    exact .inl ⟨rfl, hpast.symm, (List.cons.inj hlast).1.symm⟩
  · rw [List.concat_eq_append, ← List.cons_append, ← List.append_assoc] at h
    obtain ⟨hpast, hlast⟩ := List.append_inj' h rfl
    cases hlast
    exact .inr ⟨later, by simp, hpast⟩

/-- Of two different items of a list one comes before the other. -/
theorem split_or_mem {α : Type} {early late before after : List α} {item other : α}
    (h : early ++ item :: late = before ++ other :: after) (hne : item ≠ other) :
    (∃ gap, before = early ++ item :: gap ∧ late = gap ++ other :: after) ∨ item ∈ after := by
  rcases List.append_eq_append_iff.1 h with ⟨gap, hbefore, hgap⟩ | ⟨gap, hearly, hgap⟩
  · cases gap with
    | nil => exact absurd (List.cons.inj hgap).1 hne
    | cons first gap =>
      obtain ⟨rfl, hlate⟩ := List.cons.inj hgap
      exact .inl ⟨gap, hbefore, hlate⟩
  · cases gap with
    | nil => exact absurd (List.cons.inj hgap).1.symm hne
    | cons first gap =>
      obtain ⟨-, hafter⟩ := List.cons.inj hgap
      exact .inr (hafter ▸ List.mem_append_right gap (List.mem_cons_self ..))

/-- A stack that a pool hands out from its idle ones was the latest. -/
theorem Used.latest_of_hit (h : Used config past pool) {before after : List PoolEvent}
    {stack : Stack} (hsplit : past = before ++ .hit stack :: after) : Latest before stack := by
  have hgoes : ∀ {past : List PoolEvent} {event : PoolEvent},
      (∀ before stack after, past = before ++ .hit stack :: after → Latest before stack) →
        event.isHit = false →
        ∀ before stack after, past ++ [event] = before ++ .hit stack :: after →
          Latest before stack := by
    intro past event ih hevent before stack after heq
    rcases snoc_eq_append_cons heq with ⟨-, -, rfl⟩ | ⟨later, -, hpast⟩
    · cases hevent
    · exact ih before stack later hpast
  refine h.induct
    (P := fun past _ => ∀ before stack after, past = before ++ .hit stack :: after →
    Latest before stack) ?_ ?_ ?_ ?_ ?_ ?_ before stack after hsplit
  · intro before stack after heq
    exact absurd heq (by simp)
  · intro past pool top rest hused ih hidle before stack after heq
    rcases snoc_eq_append_cons heq with ⟨-, rfl, htop⟩ | ⟨later, -, hpast⟩
    · cases htop
      have hstacked := hused.stacked
      rw [hidle] at hstacked
      exact hstacked.latest
    · exact ih before stack later hpast
  · exact fun _ _ _ _ ih _ => hgoes ih rfl
  · exact fun _ _ _ _ ih _ => hgoes ih rfl
  · exact fun _ _ _ _ ih _ => hgoes ih rfl
  · exact fun _ _ _ _ ih _ => hgoes ih rfl

/-- Between two hand-outs of a stack it was put into the pool. -/
theorem Used.kept_between (h : Used config past pool) (howned : Owned past)
    {before between after : List PoolEvent} {first second : PoolEvent} {stack : Stack}
    (hsplit : past = before ++ first :: (between ++ second :: after))
    (hfirst : first.handedOut? = some stack) (hsecond : second.handedOut? = some stack) :
    .kept stack ∈ between := by
  have hlater : past = (before ++ first :: between) ++ second :: after := by simp [hsplit]
  have hseen : first.stack? = some stack := by rw [PoolEvent.stack?, hfirst, Option.some_or]
  cases second with
  | refused | kept | released => cases hsecond
  | mapped other =>
    cases hsecond
    exact absurd hseen ((howned _ _ _ hlater).2 stack rfl first (by simp))
  | hit other =>
    cases hsecond
    obtain ⟨early, late, heq, hreused⟩ := h.latest_of_hit hlater
    have hne : .kept stack ≠ first := by
      rintro rfl
      cases hfirst
    rcases split_or_mem heq.symm hne with ⟨gap, rfl, rfl⟩ | hbetween
    · cases first with
      | refused | kept | released => cases hfirst
      | mapped other =>
        cases hfirst
        exact absurd rfl ((howned _ _ _ hsplit).2 stack rfl (.kept stack) (by simp))
      | hit other =>
        cases hfirst
        -- It was handed out before that, so it was kept once more, and not while it was idle.
        have hagain : .hit stack ∈ gap ++ .hit stack :: between := by simp
        obtain ⟨fresh, rest, hrest, hunhit⟩ := hreused.kept_of_hit hagain
        rcases split_or_mem hrest.symm hne with ⟨idle, rfl, -⟩ | hbetween
        · have htwice : past = (early ++ .kept stack :: fresh) ++
              .kept stack :: (idle ++ .hit stack :: (between ++ .hit stack :: after)) := by
            simp [hsplit]
          exact absurd ((howned _ _ _ htwice).1 stack rfl early fresh rfl) hunhit
        · exact hbetween
    · exact hbetween

/-- At every point of every sequence of uses a pool is a bounded stack of what was put into
it, also of stacks of other sizes and with mappings that fail. As long as stacks have one
owner each, none is handed out twice without having been put into the pool in between. -/
theorem pools_are_bounded_stacks (h : Used config past pool) :
    IsBoundedStack config past pool ∧
      (Owned past → ∀ before first between second after stack,
        past = before ++ first :: (between ++ second :: after) →
          first.handedOut? = some stack → second.handedOut? = some stack → .kept stack ∈ between) :=
  ⟨h.isBoundedStack, fun howned _ _ _ _ _ _ hsplit hfirst hsecond => h.kept_between howned hsplit
    hfirst hsecond⟩

theorem owned_nil : Owned [] := by
  intro before event after heq
  exact absurd heq (by simp)

/-- A stack that was never kept may be put. -/
theorem owned_snoc {last : PoolEvent} (h : Owned past)
    (hput : ∀ stack, last.put? = some stack → .kept stack ∉ past)
    (hmapped : ∀ stack, last = .mapped stack → ∀ other ∈ past, other.stack? ≠ some stack) :
    Owned (past ++ [last]) := by
  intro before event after heq
  rcases snoc_eq_append_cons heq with ⟨-, rfl, rfl⟩ | ⟨later, -, rfl⟩
  · refine ⟨fun stack hstack early late hbefore => ?_, hmapped⟩
    exact absurd (hbefore ▸ List.mem_append_right early (List.mem_cons_self ..)) (hput stack hstack)
  · exact h before event later rfl

/-- A pool of one: two stacks are mapped and put back, the second of another size, and
the one that was kept is handed out again. -/
def smallHistory : List PoolEvent :=
  [.mapped ⟨0, 8192, .direct⟩, .kept ⟨0, 8192, .direct⟩, .released ⟨1, 4096, .direct⟩,
    .hit ⟨0, 8192, .direct⟩, .refused .noMemory]

theorem small_pool_is_bounded_stack : ∃ pool, Used ⟨8192, 1⟩ smallHistory pool ∧
    IsBoundedStack ⟨8192, 1⟩ smallHistory pool ∧ Owned smallHistory ∧
    .kept ⟨0, 8192,
      .direct⟩ ∈ [PoolEvent.kept ⟨0, 8192, .direct⟩, .released ⟨1, 4096, .direct⟩] := by
  have hused : Used ⟨8192, 1⟩ smallHistory ⟨⟨8192, 1⟩, []⟩ :=
    ((((Used.new.get (.ok ⟨0, 8192, .direct⟩)).put ⟨0, 8192, .direct⟩).put ⟨1, 4096, .direct⟩).get
      (.error .noMemory)).get (.error .noMemory)
  have howned : Owned smallHistory := by
    have hmapped : Owned [.mapped ⟨0, 8192, .direct⟩] := owned_snoc owned_nil (by simp) (by simp)
    have hkept : Owned [.mapped ⟨0, 8192, .direct⟩, .kept ⟨0, 8192, .direct⟩] :=
      owned_snoc hmapped (by simp) (by simp)
    have hreleased : Owned
        [.mapped ⟨0, 8192, .direct⟩, .kept ⟨0, 8192, .direct⟩, .released ⟨1, 4096, .direct⟩] :=
      owned_snoc hkept (by simp [PoolEvent.put?]) (by simp)
    have hhit : Owned
        [.mapped ⟨0, 8192, .direct⟩, .kept ⟨0, 8192, .direct⟩, .released ⟨1, 4096, .direct⟩,
        .hit ⟨0, 8192, .direct⟩] := owned_snoc hreleased (by simp [PoolEvent.put?]) (by simp)
    exact owned_snoc hhit (by simp [PoolEvent.put?]) (by simp)
  obtain ⟨hbounded, honce⟩ := pools_are_bounded_stacks hused
  exact ⟨_, hused, hbounded, howned, honce howned [] (.mapped ⟨0, 8192, .direct⟩) _
    (.hit ⟨0, 8192, .direct⟩) [.refused .noMemory] ⟨0, 8192, .direct⟩ rfl rfl rfl⟩

end StackPool

end Fibers
