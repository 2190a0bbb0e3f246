import Fibers.Proofs.Assets

/-!
Releasing, as a statement about whole tables of handles. Clones that are
accounted for stay accounted for, cells change only by losing clones and what
their slots hold, and everything else that goes leaves a relic.
-/

namespace Fibers

open Asset (cloneOf)

/-- What a relic is left of. -/
def Relic.debris : Relic → Debris
  | .dropped value => .guard value
  | .discarded serial id home => .fiber serial id home
  | .vanished s id => .task s id

namespace HandleTable

def clones (table : HandleTable) (handle : HandleRef) : Nat :=
  (table.get? handle).elim 0 HandleCell.clones

theorem worth_put {table : HandleTable} {handle : HandleRef} {old : HandleCell}
    (h : table.get? handle = some old) (cell : HandleCell) (f : Asset → Nat) :
    (table.put handle cell).worth f + weigh f old.assets = table.worth f + weigh f cell.assets :=
  weigh_set (fun cell : HandleCell => weigh f cell.assets) cell h

theorem get?_put {table : HandleTable} {handle : HandleRef} {old : HandleCell}
    (h : table.get? handle = some old) (cell : HandleCell) (x : HandleRef) :
    (table.put handle cell).get? x = if x = handle then some cell else table.get? x := by
  obtain ⟨i⟩ := handle
  obtain ⟨j⟩ := x
  obtain ⟨hi, -⟩ := List.getElem?_eq_some_iff.1 h
  by_cases hij : j = i
  · subst hij
    simp [get?, put, hi]
  · simp [get?, put, hij, Ne.symm hij]

theorem clones_put {table : HandleTable} {handle : HandleRef} {old : HandleCell}
    (h : table.get? handle = some old) (cell : HandleCell) (x : HandleRef) :
    (table.put handle cell).clones x = if x = handle then cell.clones else table.clones x := by
  unfold clones
  rw [get?_put h]
  split <;> rfl

/-- A cell after changes that nobody who waits for it notices: clones came and
went, or the last one went, and with it what the slot held. -/
inductive SameOrGone : Option HandleCell → Option HandleCell → Prop
  | none : SameOrGone none none
  | kept {cell : HandleCell} {clones : Nat} (h : cell.clones = 0 ↔ clones = 0) :
      SameOrGone (some cell) (some { cell with clones })
  | emptied {cell : HandleCell} :
      SameOrGone (some cell) (some { cell with clones := 0, slot := .spent })

theorem SameOrGone.refl (cell : Option HandleCell) : SameOrGone cell cell := by
  cases cell with
  | none => exact .none
  | some cell => exact .kept .rfl

theorem SameOrGone.trans {a b c : Option HandleCell} (first : SameOrGone a b)
    (second : SameOrGone b c) :
    SameOrGone a c := by
  cases first with
  | none => exact second
  | kept h =>
    cases second with
    | kept h' => exact .kept (h.trans h')
    | emptied => exact .emptied
  | emptied =>
    cases second with
    | kept h =>
      cases h.1 rfl
      exact .emptied
    | emptied => exact .emptied

/-- As long as a clone is left, the slot is as it was. -/
theorem SameOrGone.slot_eq {table other : HandleTable} {x : HandleRef} {cell : HandleCell}
    (h : SameOrGone (table.get? x) (other.get? x)) (hcell : table.get? x = some cell)
    (hheld : 0 < other.clones x) :
    ∃ after, other.get? x = some after ∧ after.slot = cell.slot := by
  rw [hcell] at h
  rw [clones] at hheld
  generalize other.get? x = after at h hheld
  cases h with
  | kept => exact ⟨_, rfl, rfl⟩
  | emptied => simp at hheld

theorem sameOrGone_put {table : HandleTable} {handle : HandleRef} {old : HandleCell}
    (h : table.get? handle = some old) {cell : HandleCell}
    (hcell : SameOrGone (some old) (some cell)) (x : HandleRef) :
    SameOrGone (table.get? x) ((table.put handle cell).get? x) := by
  rw [get?_put h]
  split
  next heq => rw [heq, h]; exact hcell
  next => exact .refl _

/-- Whatever is released, cells only wear. -/
theorem release_sameOrGone (table : HandleTable) (work : List Debris) (x : HandleRef) :
    SameOrGone (table.get? x) ((table.release work).1.get? x) := by
  fun_induction release table work with
  | case1 => exact .refl _
  | case2 _ _ _ _ _ heq ih => simpa only [heq] using ih
  | case3 _ _ _ _ _ _ _ heq ih => simpa only [heq] using ih
  | case4 _ _ _ _ _ _ heq ih => simpa only [heq] using ih
  | case5 _ _ _ _ ih => exact ih
  | case6 table handle rest cell h hlast ih => exact (sameOrGone_put h .emptied x).trans ih
  | case7 table handle rest cell h hmore ih =>
    refine (sameOrGone_put h (.kept ?_) x).trans ih
    omega

theorem release_length (table : HandleTable) (work : List Debris) :
    (table.release work).1.cells.length = table.cells.length := by
  fun_induction release table work with
  | case1 => rfl
  | case2 _ _ _ _ _ heq ih => simpa only [heq] using ih
  | case3 _ _ _ _ _ _ _ heq ih => simpa only [heq] using ih
  | case4 _ _ _ _ _ _ heq ih => simpa only [heq] using ih
  | case5 _ _ _ _ ih => exact ih
  | case6 _ _ _ _ _ _ ih => simpa only [put, List.length_set] using ih
  | case7 _ _ _ _ _ _ ih => simpa only [put, List.length_set] using ih

/-- Releasing clones that are accounted for leaves the others accounted for. -/
theorem release_clones {table : HandleTable} {work : List Debris} (others : HandleRef → Nat)
    (h : ∀ x, table.clones x =
      table.worth (cloneOf x) + weigh (cloneOf x) (loosen work) + others x) (x : HandleRef) :
    (table.release work).1.clones x = (table.release work).1.worth (cloneOf x) + others x := by
  fun_induction release table work with
  | case1 => simpa using h x
  | case2 _ _ _ _ _ heq ih =>
    simp only [heq] at ih
    exact ih fun x => by simpa [cloneOf] using h x
  | case3 _ _ _ _ _ _ _ heq ih =>
    simp only [heq] at ih
    exact ih fun x => by simpa [cloneOf] using h x
  | case4 _ _ _ _ _ _ heq ih =>
    simp only [heq] at ih
    exact ih fun x => by simpa [cloneOf] using h x
  | case5 table handle rest hnone _ =>
    -- A handle that is not in the table has no clones to release.
    have := h handle
    simp only [clones, hnone, Option.elim_none, loosen_cons, weigh_cons, cloneOf, if_true] at this
    omega
  | case6 table handle rest cell hcell hlast ih =>
    refine ih fun x => ?_
    have hx := h x
    have hworth := worth_put hcell { cell with clones := 0, slot := .spent } (cloneOf x)
    have hclones : table.clones handle = cell.clones := by simp [clones, hcell]
    have hspent : HandleCell.assets { cell with clones := 0, slot := .spent } = [] := rfl
    simp only [hspent, weigh_nil, cell.weigh_assets (Asset.bare_cloneOf x)] at hworth
    simp only [loosen_cons, weigh_cons, loosen_append, weigh_append] at hx ⊢
    rw [clones_put hcell]
    split
    next heq =>
      subst heq
      simp only [cloneOf, if_true] at hx hworth ⊢
      omega
    next hne =>
      simp only [cloneOf, Ne.symm hne, if_false] at hx hworth ⊢
      omega
  | case7 table handle rest cell hcell hmore ih =>
    refine ih fun x => ?_
    have hx := h x
    have hworth := worth_put hcell { cell with clones := cell.clones - 1 } (cloneOf x)
    have hclones : table.clones handle = cell.clones := by simp [clones, hcell]
    have hsame : HandleCell.assets { cell with clones := cell.clones - 1 } = cell.assets := rfl
    simp only [hsame] at hworth
    simp only [loosen_cons, weigh_cons] at hx
    rw [clones_put hcell]
    split
    next heq =>
      subst heq
      simp only [cloneOf, if_true] at hx hworth ⊢
      omega
    next hne =>
      simp only [cloneOf, Ne.symm hne, if_false] at hx hworth ⊢
      omega

/-- Nothing but clones goes without a trace. -/
theorem release_worth (table : HandleTable) (work : List Debris) {f : Asset → Nat}
    (hf : Asset.Bare f) (hhandles : ∀ x, f (.loose (.handle x)) = 0) :
    (table.release work).1.worth f + weigh f (loosen ((table.release work).2.map Relic.debris)) =
      table.worth f + weigh f (loosen work) := by
  fun_induction release table work with
  | case1 => simp
  | case2 _ _ _ _ _ heq ih | case3 _ _ _ _ _ _ _ heq ih | case4 _ _ _ _ _ _ heq ih =>
    simp only [heq] at ih
    simp only [List.map_cons, loosen_cons, weigh_cons, Relic.debris]
    omega
  | case5 _ _ _ _ ih =>
    simp only [loosen_cons, weigh_cons, hhandles]
    omega
  | case6 table handle rest cell hcell hlast ih =>
    have hworth := worth_put hcell { cell with clones := 0, slot := .spent } f
    have hspent : HandleCell.assets { cell with clones := 0, slot := .spent } = [] := rfl
    simp only [hspent, weigh_nil, cell.weigh_assets hf] at hworth
    simp only [loosen_append, weigh_append] at ih
    simp only [loosen_cons, weigh_cons, hhandles]
    omega
  | case7 table handle rest cell hcell hmore ih =>
    have hworth := worth_put hcell { cell with clones := cell.clones - 1 } f
    have hsame : HandleCell.assets { cell with clones := cell.clones - 1 } = cell.assets := rfl
    simp only [hsame] at hworth
    simp only [loosen_cons, weigh_cons, hhandles]
    omega

/-- Releasing brings nothing into a slot. -/
theorem release_worth_le (table : HandleTable) (work : List Debris) (f : Asset → Nat) :
    (table.release work).1.worth f ≤ table.worth f := by
  fun_induction release table work with
  | case1 => exact Nat.le_refl _
  | case2 _ _ _ _ _ heq ih | case3 _ _ _ _ _ _ _ heq ih | case4 _ _ _ _ _ _ heq ih =>
    simpa only [heq] using ih
  | case5 _ _ _ _ ih => exact ih
  | case6 table handle rest cell hcell hlast ih =>
    have hworth := worth_put hcell { cell with clones := 0, slot := .spent } f
    have hspent : HandleCell.assets { cell with clones := 0, slot := .spent } = [] := rfl
    simp only [hspent, weigh_nil] at hworth
    omega
  | case7 table handle rest cell hcell hmore ih =>
    have hworth := worth_put hcell { cell with clones := cell.clones - 1 } f
    have hsame : HandleCell.assets { cell with clones := cell.clones - 1 } = cell.assets := rfl
    simp only [hsame] at hworth
    omega

end HandleTable

/-! ### Worlds -/

/-- What the history shows of a relic. -/
def Relic.happening (current : Option FiberId) : Relic → Happening
  | .dropped value => .entry current "drop" value
  | .discarded serial id home => .mark (.discarded serial id home)
  | .vanished s id => .mark (.vanished s id)

namespace World

theorem foldl_note (w : World) (relics : List Relic) :
    relics.foldl note w =
      { w with history := w.history ++ (relics.map (Relic.happening w.currentId)).toArray } := by
  induction relics generalizing w with
  | nil => simp
  | cons relic rest ih =>
    rw [List.foldl_cons, ih]
    cases relic <;> simp [note, emit, mark, currentId, Relic.happening]

/-- Releasing changes the table of handles and adds to the history. -/
theorem release_eq (w : World) (work : List Debris) :
    w.release work =
      { w with
        handles := (w.handles.release work).1
        history := w.history ++
          ((w.handles.release work).2.map (Relic.happening w.currentId)).toArray } := by
  rw [release]
  exact foldl_note _ _

end World

end Fibers
