import Fibers.Stack

/-!
Pools of idle stacks. A pool hands out the stack that was kept last, and maps
a new one of its configured size only when none is idle. A pool with a bound
keeps no stack beyond it.
-/

namespace Fibers

structure PoolConfig where
  /-- The size of the stacks that the pool maps, before rounding. -/
  stackSize : Nat
  /-- The bound on idle stacks; zero means none. -/
  maxIdle : Nat
deriving DecidableEq

def PoolConfig.standard : PoolConfig := ⟨256 * 1024, 4096⟩

structure StackPool where
  config : PoolConfig
  /-- The stack kept last comes first. -/
  idle : List Stack

namespace StackPool

def empty (config : PoolConfig) : StackPool := ⟨config, []⟩

def full (pool : StackPool) : Bool :=
  pool.config.maxIdle ≠ 0 && pool.config.maxIdle ≤ pool.idle.length

/-- What a pool answers to a request for a stack. -/
inductive Supply
  | hit (stack : Stack)
  | mapped (stack : Stack)
  | refused (fault : IoFault)

/-- Hands out the stack that was kept last. With none idle it matters how the mapping of
a new one turns out. -/
def draw (pool : StackPool) (mapping : Except IoFault Stack) : Supply × StackPool :=
  match pool.idle with
  | stack :: rest => (.hit stack, { pool with idle := rest })
  | [] =>
    match mapping with
    | .ok stack => (.mapped stack, pool)
    | .error fault => (.refused fault, pool)

/-- A new stack has the configured size and gets the given label. -/
def get (pool : StackPool) (mapping : Mapping) (label : Nat) (source : StackSource) :
    Supply × StackPool :=
  pool.draw (Stack.make mapping pageSize label source pool.config.stackSize)

/-- Takes a stack back; a full pool releases it instead. -/
def put (pool : StackPool) (stack : Stack) : StackPool :=
  if pool.full then pool else { pool with idle := stack :: pool.idle }

theorem get_put {pool : StackPool} (stack : Stack) (mapping : Mapping) (label : Nat)
    (source : StackSource) (h : pool.full = false) :
    (pool.put stack).get mapping label source = (.hit stack, pool) := by
  simp [put, get, draw, h]

@[simp]
theorem put_config (pool : StackPool) (stack : Stack) : (pool.put stack).config = pool.config := by
  unfold put
  split <;> rfl

@[simp]
theorem draw_config (pool : StackPool) (mapping : Except IoFault Stack) :
    (pool.draw mapping).2.config = pool.config := by
  unfold draw
  split
  · rfl
  · split <;> rfl

theorem length_put_le (pool : StackPool) (stack : Stack) (hbound : pool.config.maxIdle ≠ 0)
    (h : pool.idle.length ≤ pool.config.maxIdle) :
    (pool.put stack).idle.length ≤ pool.config.maxIdle := by
  by_cases hfull : pool.config.maxIdle ≤ pool.idle.length
  · simpa [put, full, hbound, hfull] using h
  · simp only [put, full, hfull, decide_false, Bool.and_false, Bool.false_eq_true, if_false,
      List.length_cons]
    omega

theorem put_of_full {pool : StackPool} (stack : Stack) (h : pool.full = true) :
    pool.put stack = pool := by
  simp [put, h]

end StackPool

end Fibers
