import Fibers.Proofs.Releasing

/-!
The ledger of a world. It says that the books are right: every handle has as
many clones as there are places that hold one, every scheduler has an owner for
each share in it, and every task that was enqueued is an entry of its queue, or
a fiber somewhere, or has come to its end, exactly once. What is held outside
the world, in frames or in the hands of the machine, is listed beside it. The
rules by which entries of the ledger move follow, one for each kind of change.
-/

namespace Fibers

open Asset (cloneOf looseOf shareOf postOf taskOf fiberOf begunOf unstartedOf serialOf
    stackOf unsuitedOf)
open Mark (enqueues starts finishes discards vanishes opens hosts awaits terminates)

/-- The system maps a stack of that size for the pool, at one time or another. -/
def PoolConfig.Yields (mappings : Nat → Mapping) (config : PoolConfig) (size : Nat) : Prop :=
  ∃ n, mapStack (mappings n) pageSize config.stackSize = .ok size

open Classical in
/-- A stack of a scheduler's fiber or pool was mapped by that scheduler, in the size that
it is configured for. -/
noncomputable def Stack.suits (mappings : Nat → Mapping) (configs : SchedulerId → Option PoolConfig)
    (stack : Stack) : Option SchedulerId → Bool
  | none => stack.source = .direct
  | some s => stack.source = .scheduler s ∧ ∃ config, configs s = some config ∧
    config.Yields mappings stack.size

theorem Stack.suits_some {mappings : Nat → Mapping} {configs : SchedulerId → Option PoolConfig}
    {stack : Stack} {s : SchedulerId} : stack.suits mappings configs (some s) = true ↔
      stack.source = .scheduler s ∧ ∃ config, configs s = some config ∧
        config.Yields mappings stack.size := by
  simp [Stack.suits]

namespace World

def owners (w : World) (s : SchedulerId) : Nat := (w.scheduler? s).elim 0 Scheduler.owners

def lastId (w : World) (s : SchedulerId) : Nat := (w.scheduler? s).elim 0 Scheduler.lastId

def poolConfig (w : World) (s : SchedulerId) : Option PoolConfig :=
  (w.scheduler? s).map fun scheduler => scheduler.pool.config

/-- How many stacks are idle in a scheduler's pool. -/
def idleStacks (w : World) (s : SchedulerId) : Nat :=
  (w.scheduler? s).elim 0 fun scheduler => scheduler.pool.idle.length

/-- Numbers that go up, and what pools come to. -/
structure Registers where
  lastId : SchedulerId → Nat
  fibersMade : Nat
  stacksMapped : Nat
  poolConfig : SchedulerId → Option PoolConfig
  idleStacks : SchedulerId → Nat
  mappings : Nat → Mapping

def registers (w : World) : Registers :=
  ⟨w.lastId, w.fibersMade, w.stacksMapped, w.poolConfig, w.idleStacks, w.mappings⟩

/-- The numbers of the calls that are alive. -/
def callKeys (w : World) : List Nat := w.agenda.elim [] fun agenda => agenda.calls.map HostCall.key

/-! ### Tallies -/

@[simp]
theorem tally_emit (w : World) (name : String) (payload : Datum) (f : Mark → Nat) :
    (w.emit name payload).tally f = w.tally f := by
  simp [tally, emit, Happening.weight]

@[simp]
theorem tally_tell (w : World) (event : Event) (f : Mark → Nat) :
    (w.tell event).tally f = w.tally f := by
  simp [tally, tell, Happening.weight]

@[simp]
theorem tally_mark (w : World) (told : Mark) (f : Mark → Nat) :
    (w.mark told).tally f = w.tally f + f told := by
  simp [tally, mark, Happening.weight]

theorem tally_release (w : World) (work : List Debris) (f : Mark → Nat) :
    (w.release work).tally f =
      w.tally f + weigh (fun relic => Happening.weight f (Relic.happening w.currentId relic))
        (w.handles.release work).2 := by
  simp [release_eq, tally, weigh_map]

/-- What releasing unwinds is in the history. -/
theorem tally_discards_release (w : World) (work : List Debris) (s : SchedulerId) (id : FiberId) :
    (w.release work).tally (discards s id) =
      w.tally (discards s id) +
        weigh (fiberOf s id) (loosen ((w.handles.release work).2.map Relic.debris)) := by
  rw [tally_release, loosen, List.map_map, weigh_map]
  congr 1
  refine weigh_congr _ fun relic _ => ?_
  cases relic <;> simp [Relic.happening, Happening.weight, Relic.debris, discards, fiberOf]

theorem tally_vanishes_release (w : World) (work : List Debris) (s : SchedulerId) (id : FiberId) :
    (w.release work).tally (vanishes s id) =
      w.tally (vanishes s id) +
        weigh (taskOf s id) (loosen ((w.handles.release work).2.map Relic.debris)) := by
  rw [tally_release, loosen, List.map_map, weigh_map]
  congr 1
  refine weigh_congr _ fun relic _ => ?_
  cases relic <;> simp [Relic.happening, Happening.weight, Relic.debris, vanishes, taskOf]

theorem tally_terminates_release (w : World) (work : List Debris) (n : Nat) :
    (w.release work).tally (terminates n) =
      w.tally (terminates n) + weigh (begunOf n)
        (loosen ((w.handles.release work).2.map Relic.debris)) := by
  rw [tally_release, loosen, List.map_map, weigh_map]
  congr 1
  refine weigh_congr _ fun relic _ => ?_
  cases relic <;> simp [Relic.happening, Happening.weight, Relic.debris, terminates, begunOf]

/-- Releasing counts nowhere else. -/
theorem tally_release_of_silent (w : World) (work : List Debris) {f : Mark → Nat}
    (hdiscarded : ∀ serial id home, f (.discarded serial id home) = 0)
    (hvanished : ∀ s id, f (.vanished s id) = 0) : (w.release work).tally f = w.tally f := by
  rw [tally_release, weigh_eq_zero, Nat.add_zero]
  intro relic _
  cases relic <;> simp [Relic.happening, Happening.weight, hdiscarded, hvanished]

/-! ### The books -/

/-- The books of a world are right, with what is held outside. -/
structure Balanced (w : World) (out : List Asset) : Prop where
  clones : ∀ x, w.handles.clones x = w.worth (cloneOf x) + weigh (cloneOf x) out
  shares : ∀ s, w.worth (shareOf s) + weigh (shareOf s) out ≤ w.owners s
  tasks : ∀ s id,
    w.worth (taskOf s id) + weigh (taskOf s id) out + w.tally (vanishes s id) +
      w.tally (starts s id) = w.tally (enqueues s id)
  fibers : ∀ s id,
    w.worth (fiberOf s id) + weigh (fiberOf s id) out + w.tally (discards s id) +
      w.tally (finishes s id) = w.tally (starts s id)
  posts : ∀ x,
    w.worth (postOf x) + weigh (postOf x) out + w.tally (awaits x) ≤ w.tally (opens x)
  opened : ∀ x, w.tally (opens x) ≤ if x.index < w.handles.cells.length then 1 else 0
  numbered : ∀ s id,
    w.tally (enqueues s id) = if 0 < id.number ∧ id.number ≤ w.lastId s then 1 else 0
  bodies : ∀ n,
    w.worth (serialOf n) + weigh (serialOf n) out + w.tally (terminates n) ≤ if n <
      w.fibersMade then 1 else 0
  stacked : ∀ label,
    w.worth (stackOf label) + weigh (stackOf label) out ≤ if label < w.stacksMapped then 1 else 0
  suited : w.worth (unsuitedOf (Stack.suits w.mappings w.poolConfig)) + weigh
    (unsuitedOf (Stack.suits w.mappings w.poolConfig)) out = 0
  bounded : ∀ s config, w.poolConfig s = some config → config.maxIdle ≠ 0 →
    w.idleStacks s ≤ config.maxIdle
  keys : w.callKeys.Pairwise (· < ·)
  issued : ∀ key ∈ w.callKeys, key < w.callsMade

variable {w w' : World} {out out' : List Asset}

/-- Clones, shares, new fibers and stacks may change together with those that count
them; everything else only changes places. -/
theorem Balanced.alter (h : w.Balanced out)
    (hclones : ∀ x, w'.handles.clones x = w'.worth (cloneOf x) + weigh (cloneOf x) out')
    (hshares : ∀ s, w'.worth (shareOf s) + weigh (shareOf s) out' ≤ w'.owners s)
    (hworth : ∀ f, Asset.Slight f → w'.worth f + weigh f out' = w.worth f + weigh f out)
    (hsize : w.handles.cells.length ≤ w'.handles.cells.length) (hlast : w'.lastId = w.lastId)
    (hbodies : ∀ n, w'.worth (serialOf n) + weigh (serialOf n) out' + w.tally (terminates n) ≤
      if n < w'.fibersMade then 1 else 0)
    (hstacks : ∀ label, w'.worth (stackOf label) + weigh (stackOf label) out' ≤
      if label < w'.stacksMapped then 1 else 0)
    (hsuited : w'.worth (unsuitedOf (Stack.suits w'.mappings w'.poolConfig)) +
      weigh (unsuitedOf (Stack.suits w'.mappings w'.poolConfig)) out' = 0)
    (hbounded : ∀ s config, w'.poolConfig s = some config → config.maxIdle ≠ 0 →
      w'.idleStacks s ≤ config.maxIdle)
    (hkeys : w'.callKeys.Pairwise (· < ·)) (hissued : ∀ key ∈ w'.callKeys, key < w'.callsMade)
    (hhistory : w'.history = w.history) : w'.Balanced out' := by
  have htally : ∀ f, w'.tally f = w.tally f := fun f => by rw [tally, tally, hhistory]
  constructor
  case clones => exact hclones
  case shares => exact hshares
  case tasks =>
    intro s id
    rw [htally, htally, htally, hworth _ (Asset.slight_taskOf s id)]
    exact h.tasks s id
  case fibers =>
    intro s id
    rw [htally, htally, htally, hworth _ (Asset.slight_fiberOf s id)]
    exact h.fibers s id
  case posts =>
    intro x
    rw [htally, htally, hworth _ (Asset.slight_postOf x)]
    exact h.posts x
  case opened =>
    intro x
    have := h.opened x
    rw [htally]
    split at this <;> split <;> omega
  case numbered => intro s id; rw [htally, hlast]; exact h.numbered s id
  case bodies => intro n; rw [htally]; exact hbodies n
  case stacked => exact hstacks
  case suited => exact hsuited
  case bounded => exact hbounded
  case keys => exact hkeys
  case issued => exact hissued

/-- Clones and shares may change together with those that count them; everything
else only changes places. -/
theorem Balanced.adjust (h : w.Balanced out)
    (hclones : ∀ x, w'.handles.clones x = w'.worth (cloneOf x) + weigh (cloneOf x) out')
    (hshares : ∀ s, w'.worth (shareOf s) + weigh (shareOf s) out' ≤ w'.owners s)
    (hworth : ∀ f, Asset.Narrow f → w'.worth f + weigh f out' = w.worth f + weigh f out)
    (hsize : w.handles.cells.length ≤ w'.handles.cells.length)
    (hregisters : w'.registers = w.registers) (hkeys : w'.callKeys.Pairwise (· < ·))
    (hissued : ∀ key ∈ w'.callKeys, key < w'.callsMade) (hhistory : w'.history = w.history) :
    w'.Balanced out' := by
  simp only [registers, Registers.mk.injEq] at hregisters
  obtain ⟨hlast, hmade, hmapped, hpools, hidle, hmappings⟩ := hregisters
  refine h.alter hclones hshares (fun f hf => hworth f hf.toNarrow) hsize hlast (fun n => ?_)
    (fun label => ?_) ?_ ?_ hkeys hissued hhistory
  · rw [hworth _ (Asset.narrow_serialOf n), hmade]
    exact h.bodies n
  · rw [hworth _ (Asset.narrow_stackOf label), hmapped]
    exact h.stacked label
  · rw [hmappings, hpools, hworth _ (Asset.narrow_unsuitedOf _)]
    exact h.suited
  · rw [hpools, hidle]
    exact h.bounded

/-- What the books read of a world beside what its places hold. -/
structure Figures where
  clones : HandleRef → Nat
  size : Nat
  owners : SchedulerId → Nat
  registers : Registers
  keys : List Nat
  callsMade : Nat
  history : Array Happening

def figures (w : World) : Figures :=
  ⟨w.handles.clones, w.handles.cells.length, w.owners, w.registers, w.callKeys,
    w.callsMade, w.history⟩

/-- Assets that change places stay in the books. -/
theorem Balanced.transfer (h : w.Balanced out) (hfigures : w'.figures = w.figures)
    (hworth : ∀ f, Asset.Fair f → w'.worth f + weigh f out' = w.worth f + weigh f out) :
    w'.Balanced out' := by
  simp only [figures, Figures.mk.injEq] at hfigures
  obtain ⟨hclones, hsize, howners, hregisters, hkeys, hmade, hhistory⟩ := hfigures
  refine h.adjust (fun x => ?_) (fun s => ?_) (fun f hf => hworth f hf.toFair)
    (Nat.le_of_eq hsize.symm)
    hregisters (hkeys ▸ h.keys) (by rw [hkeys, hmade]; exact h.issued) hhistory
  · rw [hclones, hworth _ (Asset.fair_cloneOf x)]
    exact h.clones x
  · rw [howners, hworth _ (Asset.fair_shareOf s)]
    exact h.shares s

theorem Balanced.recount (h : w.Balanced out)
    (hout : ∀ f, Asset.Fair f → weigh f out' = weigh f out) : w.Balanced out' :=
  h.transfer rfl fun f hf => by rw [hout f hf]

/-- What is told moves assets as the mark says: a task that starts becomes a
fiber, and one that ends is gone. -/
theorem Balanced.mark (h : w.Balanced out) (told : Mark)
    (hclones : ∀ x, weigh (cloneOf x) out' = weigh (cloneOf x) out)
    (hshares : ∀ s, weigh (shareOf s) out' = weigh (shareOf s) out)
    (htasks : ∀ s id,
      weigh (taskOf s id) out' + vanishes s id told + starts s id told = weigh (taskOf s id) out)
    (hfibers : ∀ s id, weigh (fiberOf s id) out' + discards s id told + finishes s id told =
      weigh (fiberOf s id) out + starts s id told)
    (hposts : ∀ x, weigh (postOf x) out' + awaits x told ≤ weigh (postOf x) out)
    (hopens : ∀ x, opens x told = 0) (henqueues : ∀ s id, enqueues s id told = 0)
    (hbodies : ∀ n, weigh (serialOf n) out' + terminates n told ≤ weigh (serialOf n) out)
    (hstacks : ∀ label, weigh (stackOf label) out' ≤ weigh (stackOf label) out)
    (hsuited : ∀ suits, weigh (unsuitedOf suits) out' ≤ weigh (unsuitedOf suits) out) :
    (w.mark told).Balanced out' where
  clones x := by rw [hclones]; exact h.clones x
  shares s := by rw [hshares]; exact h.shares s
  tasks s id := by
    have := h.tasks s id
    have := htasks s id
    simp only [tally_mark, henqueues]
    change w.worth _ + _ + _ + _ = _
    omega
  fibers s id := by
    have := h.fibers s id
    have := hfibers s id
    simp only [tally_mark]
    change w.worth _ + _ + _ + _ = _
    omega
  posts x := by
    have := h.posts x
    have := hposts x
    simp only [tally_mark, hopens]
    change w.worth _ + _ + _ ≤ _
    omega
  opened x := by
    rw [tally_mark, hopens]
    exact h.opened x
  numbered s id := by
    rw [tally_mark, henqueues]
    exact h.numbered s id
  bodies n := by
    refine Nat.le_trans ?_ (h.bodies n)
    have := hbodies n
    rw [tally_mark]
    change w.worth _ + _ + _ ≤ _
    omega
  stacked label := Nat.le_trans (Nat.add_le_add_left (hstacks label) _) (h.stacked label)
  suited := Nat.le_zero.1 (Nat.le_trans (Nat.add_le_add_left (hsuited _) _) (Nat.le_of_eq h.suited))
  bounded := h.bounded
  keys := h.keys
  issued := h.issued

/-- Only what is tallied of the history counts. -/
theorem Balanced.hush (h : w.Balanced out) {history : Array Happening}
    (hhistory : ∀ f, World.tally { w with history } f = w.tally f) :
    World.Balanced { w with history } out where
  clones := h.clones
  shares := h.shares
  tasks s id := by simp only [hhistory]; exact h.tasks s id
  fibers s id := by simp only [hhistory]; exact h.fibers s id
  posts x := by simp only [hhistory]; exact h.posts x
  opened x := by rw [hhistory]; exact h.opened x
  numbered s id := by rw [hhistory]; exact h.numbered s id
  bodies n := by rw [hhistory]; exact h.bodies n
  stacked := h.stacked
  suited := h.suited
  bounded := h.bounded
  keys := h.keys
  issued := h.issued

theorem Balanced.emit (h : w.Balanced out) (name : String) (payload : Datum) :
    (w.emit name payload).Balanced out :=
  h.hush (w.tally_emit name payload)

theorem Balanced.tell (h : w.Balanced out) (event : Event) : (w.tell event).Balanced out :=
  h.hush (w.tally_tell event)

/-! ### Releasing -/

theorem worth_release (work : List Debris) (f : Asset → Nat) :
    (w.release work).worth f + w.handles.worth f =
    w.worth f + (w.handles.release work).1.worth f := by
  rw [release_eq]
  simp only [worth]
  omega

theorem worth_release_le (work : List Debris) (f : Asset → Nat) :
    (w.release work).worth f ≤ w.worth f := by
  have := worth_release (w := w) work f
  have := w.handles.release_worth_le work f
  omega

/-- Whatever is released goes out of the books, clones and all. -/
theorem Balanced.release (h : w.Balanced out) {work : List Debris}
    (hbare : ∀ f, Asset.Bare f → weigh f out = weigh f (loosen work) + weigh f out')
    (hle : ∀ f, weigh f out' ≤ weigh f out) : (w.release work).Balanced out' := by
  constructor
  case clones =>
    intro x
    have hall : ∀ x, w.handles.clones x = w.handles.worth (cloneOf x) +
        weigh (cloneOf x) (loosen work) +
        (w.worth (cloneOf x) - w.handles.worth (cloneOf x) + weigh (cloneOf x) out') := by
      intro x
      have := h.clones x
      have := hbare _ (Asset.bare_cloneOf x)
      have : w.handles.worth (cloneOf x) ≤ w.worth (cloneOf x) := by simp only [worth]; omega
      omega
    have hclones := HandleTable.release_clones _ hall x
    have hworth := worth_release (w := w) work (cloneOf x)
    have : w.handles.worth (cloneOf x) ≤ w.worth (cloneOf x) := by simp only [worth]; omega
    rw [release_eq] at hworth ⊢
    simp only at hclones ⊢
    omega
  case shares =>
    intro s
    have := h.shares s
    have := worth_release_le (w := w) work (shareOf s)
    have := hle (shareOf s)
    have howners : (w.release work).owners s = w.owners s := by rw [release_eq]; rfl
    omega
  case tasks =>
    intro s id
    have hout := hbare _ (Asset.bare_taskOf s id)
    have hrelics := w.handles.release_worth work (Asset.bare_taskOf s id) fun _ => rfl
    have hworth := worth_release (w := w) work (taskOf s id)
    have := h.tasks s id
    rw [tally_vanishes_release, tally_release_of_silent w work (fun _ _ _ => rfl) fun _ _ => rfl,
      tally_release_of_silent w work (fun _ _ _ => rfl) fun _ _ => rfl]
    omega
  case fibers =>
    intro s id
    have hout := hbare _ (Asset.bare_fiberOf s id)
    have hrelics := w.handles.release_worth work (Asset.bare_fiberOf s id) fun _ => rfl
    have hworth := worth_release (w := w) work (fiberOf s id)
    have := h.fibers s id
    rw [tally_discards_release, tally_release_of_silent w work (fun _ _ _ => rfl) fun _ _ => rfl,
      tally_release_of_silent w work (fun _ _ _ => rfl) fun _ _ => rfl]
    omega
  case posts =>
    intro x
    have := h.posts x
    have := worth_release_le (w := w) work (postOf x)
    have := hle (postOf x)
    rw [tally_release_of_silent w work (fun _ _ _ => rfl) fun _ _ => rfl,
      tally_release_of_silent w work (fun _ _ _ => rfl) fun _ _ => rfl]
    omega
  case opened =>
    intro x
    rw [tally_release_of_silent w work (fun _ _ _ => rfl) fun _ _ => rfl, release_eq]
    simp only [HandleTable.release_length]
    exact h.opened x
  case numbered =>
    intro s id
    rw [tally_release_of_silent w work (fun _ _ _ => rfl) fun _ _ => rfl, release_eq]
    exact h.numbered s id
  case bodies =>
    -- Fibers that have frames leave a mark; fibers that are yet to start leave none.
    intro n
    have hout := hbare _ (Asset.bare_begunOf n)
    have hrelics := w.handles.release_worth work (Asset.bare_begunOf n) fun _ => rfl
    have hworth := worth_release (w := w) work (begunOf n)
    have := worth_release_le (w := w) work (unstartedOf n)
    have := hle (unstartedOf n)
    have hbodies := h.bodies n
    have hsplit : ∀ (u : World) (assets : List Asset), u.worth (serialOf n) + weigh
        (serialOf n) assets =
        u.worth (begunOf n) + u.worth (unstartedOf n) +
          (weigh (begunOf n) assets + weigh (unstartedOf n) assets) :=
      fun u assets => by
        rw [← u.worth_add (begunOf n) (unstartedOf n), ← weigh_add (begunOf n)
          (unstartedOf n) assets]
        rfl
    have hmade : (w.release work).fibersMade = w.fibersMade := by rw [release_eq]
    rw [hsplit] at hbodies ⊢
    rw [tally_terminates_release, hmade]
    omega
  case stacked =>
    intro label
    have := worth_release_le (w := w) work (stackOf label)
    have := hle (stackOf label)
    have := h.stacked label
    have hmapped : (w.release work).stacksMapped = w.stacksMapped := by rw [release_eq]
    rw [hmapped]
    omega
  case suited =>
    have hpools : (w.release work).poolConfig = w.poolConfig := by rw [release_eq]; rfl
    have := worth_release_le (w := w) work (unsuitedOf (Stack.suits w.mappings w.poolConfig))
    have := hle (unsuitedOf (Stack.suits w.mappings w.poolConfig))
    have := h.suited
    have hmappings : (w.release work).mappings = w.mappings := by rw [release_eq]
    rw [hmappings, hpools]
    omega
  case bounded => rw [release_eq]; exact h.bounded
  case keys => rw [release_eq]; exact h.keys
  case issued => rw [release_eq]; exact h.issued

/-! ### Handles -/

theorem Balanced.clones_pos (h : w.Balanced out) {x : HandleRef}
    (hx : 0 < w.worth (cloneOf x) + weigh (cloneOf x) out) : ∃ cell, w.handles.get? x = some cell ∧
    0 < cell.clones := by
  rw [← h.clones, HandleTable.clones] at hx
  cases hcell : w.handles.get? x with
  | none => simp [hcell] at hx
  | some cell => exact ⟨cell, rfl, by simpa [hcell] using hx⟩

theorem worth_retain {x : HandleRef} {cell : HandleCell} (hcell : w.handles.get? x = some cell)
    (f : Asset → Nat) : (w.retain x).worth f = w.worth f := by
  have := HandleTable.worth_put hcell { cell with clones := cell.clones + 1 } f
  have hsame : HandleCell.assets { cell with clones := cell.clones + 1 } = cell.assets := rfl
  rw [hsame] at this
  simp only [retain, HandleTable.retain, hcell, worth]
  omega

theorem Balanced.retain (h : w.Balanced out) {x : HandleRef} {cell : HandleCell}
    (hcell : w.handles.get? x = some cell) :
    (w.retain x).Balanced (.loose (.handle x) :: out) := by
  have hworth := worth_retain hcell
  refine h.adjust (fun y => ?_) (fun s => ?_) (fun f hf => ?_) ?_ rfl h.keys h.issued rfl
  · have hclones : (w.retain x).handles.clones y =
        w.handles.clones y + if x = y then 1 else 0 := by
      simp only [World.retain, HandleTable.retain, hcell, HandleTable.clones_put hcell]
      split
      next heq => subst heq; simp [HandleTable.clones, hcell]
      next hne => rw [if_neg (Ne.symm hne), Nat.add_zero]
    have := h.clones y
    rw [hclones, hworth, weigh_cons, cloneOf]
    omega
  · rw [hworth, weigh_cons]
    simp only [shareOf, Nat.zero_add]
    exact h.shares s
  · rw [hworth, weigh_cons, hf.handles, Nat.zero_add]
  · simp [World.retain, HandleTable.retain, hcell, HandleTable.put]

theorem worth_setSlot {x : HandleRef} {cell : HandleCell} (hcell : w.handles.get? x = some cell)
    (slot : Slot Fiber Owner Resumption) (f : Asset → Nat) :
    (w.setSlot x slot).worth f + weigh f cell.assets =
      w.worth f + weigh f (HandleCell.assets { cell with slot }) := by
  have := HandleTable.worth_put hcell { cell with slot } f
  simp only [World.setSlot, HandleTable.setSlot, hcell, worth]
  omega

/-- What a slot takes in comes from outside, and what it gives up goes there. -/
theorem Balanced.setSlot (h : w.Balanced out) {x : HandleRef} {cell : HandleCell}
    (hcell : w.handles.get? x = some cell) {slot : Slot Fiber Owner Resumption}
    (hout : ∀ f, Asset.Fair f → weigh f out' + weigh f (HandleCell.assets { cell with slot }) =
      weigh f out + weigh f cell.assets) : (w.setSlot x slot).Balanced out' := by
  refine h.transfer ?_ fun f hf => ?_
  · have hclones : (w.setSlot x slot).handles.clones = w.handles.clones := by
      funext y
      simp only [World.setSlot, HandleTable.setSlot, hcell, HandleTable.clones_put hcell]
      split
      next heq => subst heq; simp [HandleTable.clones, hcell]
      next => rfl
    have hsize : (w.setSlot x slot).handles.cells.length = w.handles.cells.length := by
      simp [World.setSlot, HandleTable.setSlot, hcell, HandleTable.put]
    simp only [figures, hclones, hsize]
    rfl
  · have := worth_setSlot hcell slot f
    have := hout f hf
    omega

theorem worth_makeHandle (id : FiberId) (clones : Nat) (f : Asset → Nat) :
    (w.makeHandle id clones).2.worth f = w.worth f := by
  simp [makeHandle, HandleTable.make, worth, HandleTable.worth, HandleCell.assets]

/-- Nobody has clones of a handle that is yet to be made. -/
theorem clones_next (w : World) : w.handles.clones w.handles.next = 0 := by
  simp [HandleTable.clones, HandleTable.next, HandleTable.get?]

/-- A new handle, with clones that are held outside. -/
theorem Balanced.makeHandle (h : w.Balanced out) (id : FiberId) (clones : Nat)
    (hclones : ∀ x,
      weigh (cloneOf x) out' = weigh (cloneOf x) out + if w.handles.next = x then clones else 0)
    (hshares : ∀ s, weigh (shareOf s) out' = weigh (shareOf s) out)
    (hout : ∀ f, Asset.Narrow f → weigh f out' = weigh f out) :
    (w.makeHandle id clones).2.Balanced out' := by
  refine h.adjust (fun x => ?_) (fun s => ?_) (fun f hf => ?_) ?_ rfl h.keys h.issued rfl
  · have hmake : (w.makeHandle id clones).2.handles.clones x =
        w.handles.clones x + if w.handles.next = x then clones else 0 := by
      have hnext := w.clones_next
      obtain ⟨i⟩ := x
      simp only [HandleTable.clones, HandleTable.next, HandleTable.get?] at hnext ⊢
      simp only [World.makeHandle, HandleTable.make, HandleRef.mk.injEq]
      rw [List.getElem?_append]
      split
      next hlt => rw [if_neg (by omega), Nat.add_zero]
      next hge =>
        by_cases heq : w.handles.cells.length = i
        · subst heq
          simp
        · rw [if_neg heq, List.getElem?_eq_none (by simp; omega), List.getElem?_eq_none (by omega)]
          rfl
    have := h.clones x
    rw [hmake, worth_makeHandle, hclones]
    omega
  · rw [worth_makeHandle, hshares]
    exact h.shares s
  · rw [worth_makeHandle, hout f hf]
  · simp [World.makeHandle, HandleTable.make]

/-! ### Names -/

section Names

variable {x : HandleRef}

theorem Balanced.layHandle (h : w.Balanced (.loose (.handle x) :: out)) (name : String) :
    World.Balanced { w with slots := w.slots.insert name x }
      (loosen ((w.slots.get? name).toList.map .handle) ++ out) := by
  refine h.transfer rfl fun f _ => ?_
  have := Names.weigh_insert (fun x => f (.loose (.handle x))) w.slots name x
  cases hold : w.slots.get? name <;> simp [hold, worth] at this ⊢ <;> omega

theorem Balanced.takeHandle (h : w.Balanced out) {name : String}
    (hname : w.slots.get? name = some x) :
    World.Balanced { w with slots := w.slots.erase name } (.loose (.handle x) :: out) := by
  refine h.transfer rfl fun f _ => ?_
  have := Names.weigh_erase (fun x => f (.loose (.handle x))) w.slots name
  simp [hname, worth] at this ⊢
  omega

theorem Balanced.layCoroutine {fiber : Fiber} (h : w.Balanced (fiber.assets ++ out))
    (name : String) : World.Balanced { w with coroutines := w.coroutines.insert name fiber }
      ((w.coroutines.get? name).elim [] Fiber.assets ++ out) := by
  refine h.transfer rfl fun f _ => ?_
  have := Names.weigh_insert (fun fiber => weigh f fiber.assets) w.coroutines name fiber
  cases hold : w.coroutines.get? name <;> simp [hold, worth] at this ⊢ <;> omega

theorem Balanced.takeCoroutine (h : w.Balanced out) {name : String} {fiber : Fiber}
    (hname : w.coroutines.get? name = some fiber) :
    World.Balanced { w with coroutines := w.coroutines.erase name } (fiber.assets ++ out) := by
  refine h.transfer rfl fun f _ => ?_
  have := Names.weigh_erase (fun fiber => weigh f fiber.assets) w.coroutines name
  simp [hname, worth] at this ⊢
  omega

end Names

/-! ### Schedulers -/

theorem weigh_schedulersAssets (f : Asset → Nat) (g : Scheduler → Scheduler) {n i : Nat}
    {schedulers : List Scheduler} {scheduler : Scheduler} (h : schedulers[i]? = some scheduler) :
    weigh f (schedulersAssets n (schedulers.modify i g)) + weigh f (scheduler.assets ⟨n + i⟩) =
      weigh f (schedulersAssets n schedulers) + weigh f ((g scheduler).assets ⟨n + i⟩) := by
  induction schedulers generalizing n i with
  | nil => simp at h
  | cons first rest ih =>
    cases i with
    | zero =>
      simp only [List.getElem?_cons_zero, Option.some.injEq] at h
      subst h
      simp only [List.modify_zero_cons, schedulersAssets, weigh_append, Nat.add_zero]
      omega
    | succ i =>
      simp only [List.getElem?_cons_succ] at h
      have := ih (n := n + 1) h
      rw [show n + 1 + i = n + (i + 1) by omega] at this
      simp only [List.modify_succ_cons, schedulersAssets, weigh_append]
      omega

theorem worth_updateScheduler {s : SchedulerId} {scheduler : Scheduler}
    (h : w.scheduler? s = some scheduler) (g : Scheduler → Scheduler) (f : Asset → Nat) :
    (w.updateScheduler s g).worth f + weigh f (scheduler.assets s) =
      w.worth f + weigh f ((g scheduler).assets s) := by
  obtain ⟨i⟩ := s
  have hall := weigh_schedulersAssets (n := 0) f g h
  simp only [Nat.zero_add] at hall
  simp only [updateScheduler, worth]
  omega

/-- A scheduler whose pool stays as it is. -/
theorem worth_requeue {s : SchedulerId} {scheduler : Scheduler}
    (h : w.scheduler? s = some scheduler) (g : Scheduler → Scheduler)
    (hpool : (g scheduler).pool = scheduler.pool) (f : Asset → Nat) :
    (w.updateScheduler s g).worth f + weigh f (scheduler.queue.flatMap (Runnable.assets s)) =
      w.worth f + weigh f ((g scheduler).queue.flatMap (Runnable.assets s)) := by
  have := worth_updateScheduler h g f
  simp only [Scheduler.assets, hpool, weigh_append] at this
  omega

theorem scheduler?_updateScheduler (s t : SchedulerId) (g : Scheduler → Scheduler) :
    (w.updateScheduler s g).scheduler? t =
      if s = t then (w.scheduler? t).map g else w.scheduler? t := by
  obtain ⟨i⟩ := s
  obtain ⟨j⟩ := t
  simp only [updateScheduler, scheduler?, SchedulerId.mk.injEq, List.getElem?_modify]
  split <;> simp

theorem owners_updateScheduler (s t : SchedulerId) (g : Scheduler → Scheduler) :
    (w.updateScheduler s g).owners t =
      if s = t then (w.scheduler? t).elim 0 (fun scheduler => (g scheduler).owners)
      else w.owners t := by
  simp only [owners, scheduler?_updateScheduler]
  split
  next => cases w.scheduler? t <;> rfl
  next => rfl

/-- What a change of a scheduler leaves alone looks as before. -/
theorem map_scheduler?_updateScheduler {α : Type} (view : Scheduler → α) {s : SchedulerId}
    {g : Scheduler → Scheduler}
    (h : ∀ scheduler, w.scheduler? s = some scheduler → view (g scheduler) = view scheduler)
    (t : SchedulerId) : ((w.updateScheduler s g).scheduler? t).map view =
    (w.scheduler? t).map view := by
  rw [scheduler?_updateScheduler]
  split
  next heq =>
    subst heq
    cases hs : w.scheduler? s with
    | none => rfl
    | some scheduler => exact congrArg some (h scheduler hs)
  next => rfl

theorem elim_scheduler?_updateScheduler (view : Scheduler → Nat) {s : SchedulerId}
    {g : Scheduler → Scheduler}
    (h : ∀ scheduler, w.scheduler? s = some scheduler → view (g scheduler) = view scheduler)
    (t : SchedulerId) : ((w.updateScheduler s g).scheduler? t).elim 0 view =
    (w.scheduler? t).elim 0 view := by
  simpa only [Option.elim_map, Function.comp_def, id] using
    congrArg (Option.elim · 0 id) (map_scheduler?_updateScheduler view h t)

theorem lastId_updateScheduler (s : SchedulerId) {g : Scheduler → Scheduler}
    (hlast : ∀ scheduler, (g scheduler).lastId = scheduler.lastId) :
    (w.updateScheduler s g).lastId = w.lastId :=
  funext (elim_scheduler?_updateScheduler _ fun scheduler _ => hlast scheduler)

theorem registers_updateScheduler (s : SchedulerId) {g : Scheduler → Scheduler}
    (hlast : ∀ scheduler, (g scheduler).lastId = scheduler.lastId)
    (hpool : ∀ scheduler, (g scheduler).pool = scheduler.pool) :
    (w.updateScheduler s g).registers = w.registers := by
  have hlosesNone := lastId_updateScheduler (w := w) s hlast
  have hnoProgress : (w.updateScheduler s g).idleStacks = w.idleStacks :=
    funext (elim_scheduler?_updateScheduler _ fun scheduler _ => by rw [hpool])
  have hconfigs : (w.updateScheduler s g).poolConfig = w.poolConfig :=
    funext (map_scheduler?_updateScheduler _ fun scheduler _ => by rw [hpool])
  simp only [registers, hlosesNone, hnoProgress, hconfigs]
  rfl

theorem figures_updateScheduler (s : SchedulerId) {g : Scheduler → Scheduler}
    (howners : ∀ scheduler, (g scheduler).owners = scheduler.owners)
    (hlast : ∀ scheduler, (g scheduler).lastId = scheduler.lastId)
    (hpool : ∀ scheduler, (g scheduler).pool = scheduler.pool) :
    (w.updateScheduler s g).figures = w.figures := by
  have hows : (w.updateScheduler s g).owners = w.owners := by
    funext t
    rw [owners_updateScheduler]
    split
    next => simp only [howners, owners]
    next => rfl
  simp only [figures, hows, registers_updateScheduler s hlast hpool]
  rfl

/-- Counters are not in the books. -/
theorem Balanced.tune (h : w.Balanced out) (s : SchedulerId) {g : Scheduler → Scheduler}
    (hqueue : ∀ scheduler, (g scheduler).queue = scheduler.queue)
    (howners : ∀ scheduler, (g scheduler).owners = scheduler.owners)
    (hlast : ∀ scheduler, (g scheduler).lastId = scheduler.lastId)
    (hpool : ∀ scheduler, (g scheduler).pool = scheduler.pool) :
    (w.updateScheduler s g).Balanced out := by
  refine h.transfer (figures_updateScheduler s howners hlast hpool) fun f _ => ?_
  cases hs : w.scheduler? s with
  | none =>
    have hsame : w.updateScheduler s g = w := by
      simp only [scheduler?] at hs
      rw [updateScheduler, List.modify_eq_self (List.getElem?_eq_none_iff.1 hs)]
    rw [hsame]
  | some scheduler =>
    have := worth_requeue hs g (hpool scheduler) f
    rw [hqueue] at this
    omega

/-- What a queue takes in comes from outside, and what it gives up goes there. -/
theorem Balanced.requeue (h : w.Balanced out) {s : SchedulerId} {scheduler : Scheduler}
    (hs : w.scheduler? s = some scheduler) {g : Scheduler → Scheduler}
    (howners : ∀ scheduler, (g scheduler).owners = scheduler.owners)
    (hlast : ∀ scheduler, (g scheduler).lastId = scheduler.lastId)
    (hpool : ∀ scheduler, (g scheduler).pool = scheduler.pool)
    (hout : ∀ f, Asset.Fair f →
      weigh f out' + weigh f ((g scheduler).queue.flatMap (Runnable.assets s)) =
      weigh f out + weigh f (scheduler.queue.flatMap (Runnable.assets s))) :
    (w.updateScheduler s g).Balanced out' := by
  refine h.transfer (figures_updateScheduler s howners hlast hpool) fun f hf => ?_
  have := worth_requeue hs g (hpool scheduler) f
  have := hout f hf
  omega

/-- What a pool takes in comes from outside, and what it gives up goes there. -/
theorem Balanced.repool (h : w.Balanced out) {s : SchedulerId} {scheduler : Scheduler}
    (hs : w.scheduler? s = some scheduler) {g : Scheduler → Scheduler}
    (hqueue : ∀ scheduler, (g scheduler).queue = scheduler.queue)
    (howners : ∀ scheduler, (g scheduler).owners = scheduler.owners)
    (hlast : ∀ scheduler, (g scheduler).lastId = scheduler.lastId)
    (hconfig : (g scheduler).pool.config = scheduler.pool.config)
    (hbound : (g scheduler).pool.config.maxIdle ≠ 0 →
      (g scheduler).pool.idle.length ≤ (g scheduler).pool.config.maxIdle)
    (hout : ∀ f, weigh f out' + weigh f
      ((g scheduler).pool.idle.map fun stack => .holds stack (some s)) =
      weigh f out + weigh f (scheduler.pool.idle.map fun stack => .holds stack (some s))) :
    (w.updateScheduler s g).Balanced out' := by
  have hworth : ∀ f, (w.updateScheduler s g).worth f + weigh f out' = w.worth f + weigh f out := by
    intro f
    have hchange := worth_updateScheduler hs g f
    have := hout f
    simp only [Scheduler.assets, hqueue, weigh_append] at hchange
    omega
  have howns : (w.updateScheduler s g).owners = w.owners :=
    funext (elim_scheduler?_updateScheduler _ fun scheduler _ => howners scheduler)
  have hlosesNone := lastId_updateScheduler (w := w) s hlast
  have hconfigs : (w.updateScheduler s g).poolConfig = w.poolConfig :=
    funext (map_scheduler?_updateScheduler _ fun other hother => by
      rw [Option.some.inj (hother.symm.trans hs)]
      exact hconfig)
  refine h.alter (fun x => ?_) (fun t => ?_) (fun f _ => hworth f) (Nat.le_refl _)
    hlosesNone (fun n => ?_) (fun label => ?_) ?_ (fun t config hpool hmax => ?_)
      h.keys h.issued rfl
  · rw [hworth]
    exact h.clones x
  · rw [hworth, howns]
    exact h.shares t
  · rw [hworth]
    exact h.bodies n
  · rw [hworth]
    exact h.stacked label
  · rw [hconfigs, hworth]
    exact h.suited
  · have hold := h.bounded t config (hconfigs ▸ hpool) hmax
    rw [idleStacks] at hold ⊢
    rw [poolConfig, scheduler?_updateScheduler] at hpool
    rw [scheduler?_updateScheduler]
    split
    next heq =>
      subst heq
      rw [if_pos rfl, hs] at hpool
      rw [hs]
      cases hpool
      exact hbound hmax
    next => exact hold

/-- The owner of a share is a scheduler that is alive. -/
theorem Balanced.owners_pos (h : w.Balanced out) {s : SchedulerId}
    (hs : 0 < w.worth (shareOf s) + weigh (shareOf s) out) :
    ∃ scheduler, w.scheduler? s = some scheduler ∧ 0 < scheduler.owners := by
  have hpos := Nat.lt_of_lt_of_le hs (h.shares s)
  rw [owners] at hpos
  cases hscheduler : w.scheduler? s with
  | none => simp [hscheduler] at hpos
  | some scheduler => exact ⟨scheduler, rfl, by simpa [hscheduler] using hpos⟩

theorem Balanced.own (h : w.Balanced out) {s : SchedulerId} {scheduler : Scheduler}
    (hs : w.scheduler? s = some scheduler) : (w.own s).Balanced (.share s :: out) := by
  have hworth : ∀ f, (w.own s).worth f = w.worth f := by
    intro f
    have := worth_requeue hs
      (fun scheduler => { scheduler with owners := scheduler.owners + 1 }) rfl f
    simp only [World.own] at this ⊢
    omega
  refine h.adjust (fun x => ?_) (fun t => ?_) (fun f hf => ?_) (Nat.le_refl _)
    (registers_updateScheduler s (fun _ => rfl) fun _ => rfl) h.keys h.issued rfl
  · rw [hworth, weigh_cons]
    simp only [cloneOf, Nat.zero_add]
    exact h.clones x
  · have := h.shares t
    rw [hworth, weigh_cons, World.own, owners_updateScheduler]
    simp only [shareOf]
    split
    next heq =>
      subst heq
      simp only [owners, hs, Option.elim_some] at this ⊢
      omega
    next => omega
  · rw [hworth, weigh_cons, hf.shares, Nat.zero_add]

/-- A share that is given up releases the queue when it was the last one. -/
theorem Balanced.disown {s : SchedulerId} (h : w.Balanced (.share s :: out)) :
    (w.disown s).Balanced out := by
  obtain ⟨scheduler, hs, -⟩ :=
    h.owners_pos (s := s) (by simp only [weigh_cons, shareOf, if_true]; omega)
  have hshares := h.shares
  simp only [weigh_cons, shareOf] at hshares
  simp only [World.disown, hs]
  split
  next hlast =>
    have hworth :=
      worth_requeue hs (fun scheduler => { scheduler with owners := 0, queue := [] }) rfl
    simp only [List.flatMap_nil, weigh_nil] at hworth
    have hclosed : (w.updateScheduler s fun scheduler =>
        { scheduler with owners := 0, queue := [] }).Balanced
          (scheduler.queue.flatMap (Runnable.assets s) ++ out) := by
      refine h.adjust (fun x => ?_) (fun t => ?_) (fun f hf => ?_) (Nat.le_refl _)
        (registers_updateScheduler s (fun _ => rfl) fun _ => rfl) h.keys h.issued rfl
      · have hx := h.clones x
        have := hworth (cloneOf x)
        simp only [weigh_cons, cloneOf] at hx
        rw [weigh_append]
        change w.handles.clones x = _
        omega
      · have := hworth (shareOf t)
        have := hshares t
        rw [weigh_append, owners_updateScheduler]
        split
        next heq =>
          subst heq
          simp only [owners, hs, Option.elim_some, if_true] at this ⊢
          omega
        next hne => rw [if_neg hne] at this; omega
      · have := hworth f
        rw [weigh_append, weigh_cons, hf.shares]
        omega
    refine hclosed.release (fun f hf => ?_) fun f => ?_
    · simp only [weigh_append, loosen, weigh_flatMap, weigh_map]
      congr 1
      refine weigh_congr _ fun entry _ => ?_
      rw [entry.weigh_assets hf, loosen, weigh_map]
    · simp
  next hmore =>
    have hworth : ∀ f, (w.updateScheduler s fun scheduler =>
        { scheduler with owners := scheduler.owners - 1 }).worth f = w.worth f := by
      intro f
      have := worth_requeue hs
        (fun scheduler => { scheduler with owners := scheduler.owners - 1 }) rfl f
      simp only at this
      omega
    refine h.adjust (fun x => ?_) (fun t => ?_) (fun f hf => ?_) (Nat.le_refl _)
      (registers_updateScheduler s (fun _ => rfl) fun _ => rfl) h.keys h.issued rfl
    · have hx := h.clones x
      simp only [weigh_cons, cloneOf, Nat.zero_add] at hx
      rw [hworth]
      exact hx
    · have := hshares t
      rw [hworth, owners_updateScheduler]
      split
      next heq =>
        subst heq
        simp only [owners, hs, Option.elim_some, if_true] at this ⊢
        omega
      next hne => rw [if_neg hne] at this; omega
    · rw [hworth, weigh_cons, hf.shares, Nat.zero_add]

theorem worth_positions {w : World} {i : Nat} {position : Position}
    (h : w.positions[i]? = some position) (g : Position → Position) (f : Asset → Nat) :
    World.worth { w with positions := w.positions.modify i g } f + weigh f position.assets =
      w.worth f + weigh f (g position).assets := by
  have := weigh_modify (fun position : Position => weigh f position.assets) g h
  simp only [worth]
  omega

/-- A position that is given up leaves its share. -/
theorem Balanced.abandon (h : w.Balanced out) {position : Nat} {s : SchedulerId}
    (hs : w.schedulerAt position = some s) :
    (w.setScheduler position none).Balanced (.share s :: out) := by
  rw [schedulerAt, Option.bind_eq_some_iff] at hs
  obtain ⟨place, hplace, hs⟩ := hs
  refine h.transfer rfl fun f _ => ?_
  have hworth := worth_positions hplace (fun p => { p with scheduler := none }) f
  simp only [Position.assets, hs, Option.toList_some, List.map_cons, List.map_nil, weigh_cons,
    weigh_nil, Option.toList_none] at hworth
  rw [weigh_cons, World.setScheduler]
  omega

theorem Balanced.schedulerAt_alive (h : w.Balanced out) {position : Nat} {s : SchedulerId}
    (hs : w.schedulerAt position = some s) :
    ∃ scheduler, w.scheduler? s = some scheduler ∧ 0 < scheduler.owners := by
  refine h.owners_pos ?_
  rw [schedulerAt, Option.bind_eq_some_iff] at hs
  obtain ⟨place, hplace, hs⟩ := hs
  have := le_weigh_of_mem (fun position : Position => weigh (shareOf s) position.assets)
    (List.mem_of_getElem? hplace)
  simp only [Position.assets, hs, Option.toList_some, List.map_cons, List.map_nil, weigh_cons,
    weigh_nil, shareOf, if_true] at this
  simp only [worth, Position.assets]
  omega

/-! ### Drivers and their calls -/

theorem worth_updateDriver {d : DriverId} {driver : Driver} (h : w.driver? d = some driver)
    (g : Driver → Driver) (f : Asset → Nat) :
    (w.updateDriver d g).worth f + weigh f driver.assets =
    w.worth f + weigh f (g driver).assets := by
  have := weigh_modify (fun driver : Driver => weigh f driver.assets) g h
  simp only [updateDriver, worth]
  omega

/-- What a driver takes in comes from outside, and what it gives up goes there. -/
theorem Balanced.updateDriver (h : w.Balanced out) {d : DriverId} {driver : Driver}
    (hd : w.driver? d = some driver) {g : Driver → Driver}
    (hout : ∀ f, Asset.Fair f →
      weigh f out' + weigh f (g driver).assets = weigh f out + weigh f driver.assets) :
    (w.updateDriver d g).Balanced out' := by
  refine h.transfer rfl fun f hf => ?_
  have := worth_updateDriver hd g f
  have := hout f hf
  omega

/-- What the calls take in comes from outside, and what they give up goes there. -/
theorem Balanced.rebook (h : w.Balanced out) {agenda : Option Agenda}
    (hkeys : (World.callKeys { w with agenda }).Sublist w.callKeys)
    (hout : ∀ f, Asset.Fair f → weigh f out' + weigh f (agendaAssets agenda) =
      weigh f out + weigh f (agendaAssets w.agenda)) : World.Balanced { w with agenda } out' := by
  have hworth : ∀ f, Asset.Fair f →
      World.worth { w with agenda } f + weigh f out' = w.worth f + weigh f out := by
    intro f hf
    have := hout f hf
    simp only [worth]
    omega
  refine h.adjust (fun x => ?_) (fun s => ?_) (fun f hf => hworth f hf.toFair) (Nat.le_refl _) rfl
    (h.keys.sublist hkeys) (fun key hkey => h.issued key (hkeys.mem hkey)) rfl
  · rw [hworth _ (Asset.fair_cloneOf x)]
    exact h.clones x
  · rw [hworth _ (Asset.fair_shareOf s)]
    exact h.shares s

theorem worth_spawn {agenda : Agenda} (hagenda : w.agenda = some agenda) (d : DriverId)
    (handle : HandleRef) (work : Work) (f : Asset → Nat) :
    World.worth { w with
      callsMade := w.callsMade + 1
      agenda := some (agenda.spawn ⟨w.callsMade, d,
        .holding handle work⟩) } f = w.worth f + weigh f (.kept handle :: work.ending.assets) := by
  simp only [worth, agendaAssets, Agenda.spawn, hagenda, List.flatMap_append, weigh_append,
    List.flatMap_singleton, HostCall.assets]
  omega

/-- A new call has the next number and holds what comes from outside. -/
theorem Balanced.spawn {agenda : Agenda} {d : DriverId} {handle : HandleRef} {work : Work}
    (h : w.Balanced (.kept handle :: (work.ending.assets ++ out)))
    (hagenda : w.agenda = some agenda) :
    World.Balanced { w with
      callsMade := w.callsMade + 1
      agenda := some (agenda.spawn ⟨w.callsMade, d, .holding handle work⟩) } out := by
  have hworth := worth_spawn hagenda d handle work
  have hkeys : World.callKeys { w with
      callsMade := w.callsMade + 1
      agenda := some (agenda.spawn ⟨w.callsMade, d,
        .holding handle work⟩) } = w.callKeys ++ [w.callsMade] := by
    simp [callKeys, hagenda, Agenda.spawn]
  refine h.adjust (fun x => ?_) (fun s => ?_) (fun f hf => ?_) (Nat.le_refl _) rfl ?_ ?_ rfl
  · have := h.clones x
    rw [hworth]
    simp only [weigh_cons, weigh_append] at this ⊢
    change w.handles.clones x = _
    omega
  · have := h.shares s
    rw [hworth]
    simp only [weigh_cons, weigh_append] at this ⊢
    change _ ≤ w.owners s
    omega
  · rw [hworth]
    simp only [weigh_cons, weigh_append]
    omega
  · rw [hkeys, List.pairwise_append]
    refine ⟨h.keys, List.pairwise_singleton _ _, fun a ha b hb => ?_⟩
    rw [List.mem_singleton.1 hb]
    exact h.issued a ha
  · rw [hkeys]
    intro key hkey
    rcases List.mem_append.1 hkey with hkey | hkey
    · exact Nat.lt_succ_of_lt (h.issued key hkey)
    · rw [List.mem_singleton.1 hkey]
      exact Nat.lt_succ_self _

/-! ### Fibers and stacks -/

/-- A fiber that is made has a serial that was free. -/
theorem Balanced.makeFiber (h : w.Balanced out) :
    World.Balanced { w with fibersMade := w.fibersMade + 1 } (.unstarted w.fibersMade :: out) := by
  refine h.alter (fun x => ?_) (fun s => ?_) (fun f hf => ?_) (Nat.le_refl _) rfl (fun n => ?_)
    (fun label => ?_) ?_ h.bounded h.keys h.issued rfl
  · simp only [weigh_cons, cloneOf, Nat.zero_add]
    exact h.clones x
  · simp only [weigh_cons, shareOf, Nat.zero_add]
    exact h.shares s
  · rw [weigh_cons, hf.unstarted, Nat.zero_add]
    rfl
  · have := h.bodies n
    simp only [weigh_cons, serialOf, begunOf, unstartedOf, Nat.zero_add]
    change w.worth _ + _ + _ ≤ _
    split at this <;> split <;> split <;> omega
  · simp only [weigh_cons, stackOf, Nat.zero_add]
    exact h.stacked label
  · simp only [weigh_cons, unsuitedOf, Nat.zero_add]
    exact h.suited

/-- A stack that is mapped has a label that was free. -/
theorem Balanced.mapStack (h : w.Balanced out) {stack : Stack} {holder : Option SchedulerId}
    (hlabel : stack.label = w.stacksMapped)
    (hsuits : stack.suits w.mappings w.poolConfig holder = true) :
    World.Balanced { w with stacksMapped := w.stacksMapped + 1 } (.holds stack holder :: out) := by
  refine h.alter (fun x => ?_) (fun s => ?_) (fun f hf => ?_) (Nat.le_refl _) rfl (fun n => ?_)
    (fun label => ?_) ?_ h.bounded h.keys h.issued rfl
  · simp only [weigh_cons, cloneOf, Nat.zero_add]
    exact h.clones x
  · simp only [weigh_cons, shareOf, Nat.zero_add]
    exact h.shares s
  · rw [weigh_cons, hf.stacked, Nat.zero_add]
    rfl
  · simp only [weigh_cons, serialOf, begunOf, unstartedOf, Nat.zero_add]
    exact h.bodies n
  · have := h.stacked label
    simp only [weigh_cons, stackOf, hlabel]
    change w.worth _ + _ ≤ _
    split at this <;> split <;> split <;> omega
  · have hunsuited : unsuitedOf (Stack.suits w.mappings w.poolConfig) (.holds stack holder) =
      0 := if_pos hsuits
    change w.worth (unsuitedOf (Stack.suits w.mappings w.poolConfig)) + weigh
      (unsuitedOf (Stack.suits w.mappings w.poolConfig)) _ = 0
    rw [weigh_cons, hunsuited, Nat.zero_add]
    exact h.suited

/-! ### Tasks and awaits -/

/-- A task that is enqueued is one entry more, under a number that was free. -/
theorem Balanced.enqueue (h : w.Balanced out) (s : SchedulerId) (body : List Action) :
    (w.enqueue s body).2.Balanced out := by
  cases hs : w.scheduler? s with
  | none => simpa only [World.enqueue, hs] using h
  | some scheduler =>
    have hworth := worth_requeue hs (fun _ => (scheduler.enqueue body).2) rfl
    simp only [Scheduler.enqueue, Scheduler.append, List.flatMap_append, weigh_append,
      List.flatMap_singleton, Runnable.assets, weigh_cons, weigh_nil] at hworth
    have howners : ∀ t,
        (w.updateScheduler s fun _ => (scheduler.enqueue body).2).owners t = w.owners t := by
      intro t
      rw [owners_updateScheduler]
      split
      next heq => subst heq; simp [owners, hs, Scheduler.enqueue, Scheduler.append]
      next => rfl
    have hlosesNone : ∀ t, ((w.updateScheduler s fun _ => (scheduler.enqueue body).2).mark
        (.appended s (.fresh ⟨scheduler.lastId + 1⟩ body))).lastId t =
          if s = t then w.lastId t + 1 else w.lastId t := by
      intro t
      change (w.updateScheduler s _).lastId t = _
      simp only [lastId, scheduler?_updateScheduler]
      split
      next heq => subst heq; simp [hs, Scheduler.enqueue, Scheduler.append]
      next => rfl
    have hlast : w.lastId s = scheduler.lastId := by simp [lastId, hs]
    have hpool : ∀ other, w.scheduler? s = some other →
        (scheduler.enqueue body).2.pool = other.pool :=
      fun other hother => by rw [Option.some.inj (hother.symm.trans hs)]; rfl
    have hconfigs : ((w.updateScheduler s fun _ => (scheduler.enqueue body).2).mark
        (.appended s (.fresh ⟨scheduler.lastId + 1⟩ body))).poolConfig = w.poolConfig :=
      funext (map_scheduler?_updateScheduler _ fun other hother => by rw [hpool other hother])
    have hnoProgress : ((w.updateScheduler s fun _ => (scheduler.enqueue body).2).mark
        (.appended s (.fresh ⟨scheduler.lastId + 1⟩ body))).idleStacks = w.idleStacks :=
      funext (elim_scheduler?_updateScheduler _ fun other hother => by rw [hpool other hother])
    simp only [Scheduler.enqueue, Scheduler.append] at howners hlosesNone hconfigs hnoProgress
    simp only [World.enqueue, hs, Scheduler.enqueue, Scheduler.append]
    refine Balanced.tell ?_ _
    constructor
    case clones =>
      intro x
      have := h.clones x
      have := hworth (cloneOf x)
      simp only [cloneOf] at this
      change w.handles.clones x = (w.updateScheduler s _).worth _ + _
      omega
    case shares =>
      intro t
      have := h.shares t
      have := hworth (shareOf t)
      simp only [shareOf] at this
      change (w.updateScheduler s _).worth _ + _ ≤ (w.updateScheduler s _).owners t
      rw [howners]
      omega
    case tasks =>
      intro t id
      have := h.tasks t id
      have := hworth (taskOf t id)
      simp only [tally_mark, vanishes, starts, enqueues, taskOf] at this ⊢
      change (w.updateScheduler s _).worth _ + _ + w.tally _ + w.tally _ = w.tally _ + _
      omega
    case fibers =>
      intro t id
      have := h.fibers t id
      have := hworth (fiberOf t id)
      simp only [tally_mark, discards, starts, finishes, fiberOf] at this ⊢
      change (w.updateScheduler s _).worth _ + _ + w.tally _ + w.tally _ = w.tally _
      omega
    case posts =>
      intro x
      have := h.posts x
      have := hworth (postOf x)
      simp only [tally_mark, awaits, opens, postOf] at this ⊢
      change (w.updateScheduler s _).worth _ + _ + w.tally _ ≤ w.tally _
      omega
    case opened =>
      intro x
      simp only [tally_mark, opens, Nat.add_zero]
      exact h.opened x
    case numbered =>
      intro t id
      have := h.numbered t id
      simp only [tally_mark, enqueues, hlosesNone]
      change w.tally _ + _ = _
      by_cases heq : s = t
      · subst heq
        obtain ⟨number⟩ := id
        simp only [FiberId.mk.injEq, true_and, if_true, hlast] at this ⊢
        split at this <;> split <;> split <;> omega
      · simpa only [heq, false_and, if_false, Nat.add_zero] using this
    case bodies =>
      intro n
      have := h.bodies n
      have := hworth (serialOf n)
      simp only [tally_mark, terminates, serialOf, begunOf, unstartedOf] at this ⊢
      change (w.updateScheduler s _).worth _ + _ + w.tally _ ≤ if n < w.fibersMade then 1 else 0
      omega
    case stacked =>
      intro label
      have := h.stacked label
      have := hworth (stackOf label)
      simp only [stackOf] at this
      change (w.updateScheduler s _).worth _ + _ ≤ if label < w.stacksMapped then 1 else 0
      omega
    case suited =>
      have := h.suited
      have := hworth (unsuitedOf (Stack.suits w.mappings w.poolConfig))
      simp only [unsuitedOf] at this
      rw [hconfigs]
      change (w.updateScheduler s _).worth (unsuitedOf (Stack.suits w.mappings w.poolConfig)) +
        weigh (unsuitedOf (Stack.suits w.mappings w.poolConfig)) _ = 0
      omega
    case bounded => rw [hconfigs, hnoProgress]; exact h.bounded
    case keys => exact h.keys
    case issued => exact h.issued

/-- The mark of a new await comes with the right to its resumption. -/
theorem Balanced.opened_mark (h : w.Balanced out) {x : HandleRef} (hx : w.tally (opens x) = 0)
    (hvalid : x.index < w.handles.cells.length) (plan : AwaitPlan) :
    (w.mark (.opened x plan)).Balanced (.post x :: out) where
  clones y := by
    simp only [weigh_cons, cloneOf, Nat.zero_add]
    exact h.clones y
  shares s := by
    simp only [weigh_cons, shareOf, Nat.zero_add]
    exact h.shares s
  tasks s id := by
    simp only [tally_mark, vanishes, starts, enqueues, weigh_cons, taskOf, Nat.zero_add,
      Nat.add_zero]
    exact h.tasks s id
  fibers s id := by
    simp only [tally_mark, discards, starts, finishes, weigh_cons, fiberOf, Nat.zero_add,
      Nat.add_zero]
    exact h.fibers s id
  posts y := by
    have := h.posts y
    simp only [tally_mark, awaits, opens, weigh_cons, postOf]
    change w.worth _ + _ + _ ≤ _
    omega
  opened y := by
    have := h.opened y
    rw [tally_mark, opens]
    change _ ≤ if y.index < w.handles.cells.length then 1 else 0
    by_cases heq : x = y
    · subst heq
      simp only [if_pos hvalid, if_pos, hx, Nat.zero_add, Nat.le_refl]
    · rw [if_neg heq]
      exact this
  numbered s id := by
    simp only [tally_mark, enqueues, Nat.add_zero]
    exact h.numbered s id
  bodies n := by
    simp only [tally_mark, terminates, weigh_cons, serialOf, begunOf, unstartedOf,
      Nat.zero_add, Nat.add_zero]
    exact h.bodies n
  stacked label := by
    simp only [weigh_cons, stackOf, Nat.zero_add]
    exact h.stacked label
  suited := by
    simp only [weigh_cons, unsuitedOf, Nat.zero_add]
    exact h.suited
  bounded := h.bounded
  keys := h.keys
  issued := h.issued

end World

end Fibers
