/-!
Finite maps from names to values, listed in the order of the names (by code
point). The order is strict, so a map holds at most one value for a name.
-/

namespace Fibers

structure Names (α : Type) where
  entries : List (String × α)
  ordered : entries.Pairwise fun first second => first.1 < second.1

namespace Names

variable {α : Type}

def empty : Names α := ⟨[], .nil⟩

instance : Inhabited (Names α) := ⟨empty⟩

def lookup (name : String) : List (String × α) → Option α
  | [] => none
  | (key, value) :: rest => if key = name then some value else lookup name rest

def get? (names : Names α) (name : String) : Option α := lookup name names.entries

def place (name : String) (value : α) : List (String × α) → List (String × α)
  | [] => [(name, value)]
  | (key, old) :: rest =>
    if key = name then (name, value) :: rest
    else if name < key then (name, value) :: (key, old) :: rest
    else (key, old) :: place name value rest

theorem mem_place {name : String} {value : α} {entries : List (String × α)}
    {entry : String × α} (h : entry ∈ place name value entries) :
    entry = (name, value) ∨ entry ∈ entries := by
  induction entries with
  | nil =>
    rw [place, List.mem_singleton] at h
    exact .inl h
  | cons first rest ih =>
    obtain ⟨key, old⟩ := first
    rw [place] at h
    split at h
    · exact (List.mem_cons.1 h).imp_right (List.mem_cons_of_mem _)
    · split at h
      · exact List.mem_cons.1 h
      · rcases List.mem_cons.1 h with rfl | h
        · exact .inr (List.mem_cons_self ..)
        · exact (ih h).imp_right (List.mem_cons_of_mem _)

theorem place_ordered (name : String) (value : α) {entries : List (String × α)}
    (h : entries.Pairwise fun first second => first.1 < second.1) :
    (place name value entries).Pairwise fun first second => first.1 < second.1 := by
  induction entries with
  | nil => exact List.pairwise_singleton _ _
  | cons first rest ih =>
    obtain ⟨key, old⟩ := first
    obtain ⟨hfirst, hrest⟩ := List.pairwise_cons.1 h
    rw [place]
    split
    next heq => exact List.pairwise_cons.2 ⟨heq ▸ hfirst, hrest⟩
    next hne =>
      split
      next hlt =>
        refine List.pairwise_cons.2 ⟨fun entry member => ?_, h⟩
        rcases List.mem_cons.1 member with rfl | member
        · exact hlt
        · exact String.lt_trans hlt (hfirst entry member)
      next hge =>
        refine List.pairwise_cons.2 ⟨fun entry member => ?_, ih hrest⟩
        rcases mem_place member with rfl | member
        · exact Decidable.byContradiction fun hle =>
            hne (String.le_antisymm (String.not_lt.1 hge) (String.not_lt.1 hle))
        · exact hfirst entry member

def insert (names : Names α) (name : String) (value : α) : Names α :=
  ⟨place name value names.entries, place_ordered name value names.ordered⟩

def erase (names : Names α) (name : String) : Names α :=
  ⟨names.entries.filter (fun entry => entry.1 ≠ name), names.ordered.filter _⟩

def ofList (entries : List (String × α)) : Names α :=
  entries.foldl (fun names entry => names.insert entry.1 entry.2) empty

/-- The values in the order of their names. -/
def values (names : Names α) : List α := names.entries.map Prod.snd

private theorem lookup_place_self (name : String) (value : α) (entries : List (String × α)) :
    lookup name (place name value entries) = some value := by
  induction entries with
  | nil => simp [place, lookup]
  | cons entry rest ih =>
    obtain ⟨key, old⟩ := entry
    by_cases h : key = name
    · simp [place, lookup, h]
    · by_cases hlt : name < key <;> simp [place, lookup, h, hlt, ih]

private theorem lookup_place_of_ne {name other : String} (value : α)
    (entries : List (String × α)) (hne : other ≠ name) :
    lookup other (place name value entries) = lookup other entries := by
  induction entries with
  | nil => simp [place, lookup, Ne.symm hne]
  | cons entry rest ih =>
    obtain ⟨key, old⟩ := entry
    by_cases h : key = name
    · simp [place, lookup, h, Ne.symm hne]
    · by_cases hlt : name < key <;> simp [place, lookup, h, hlt, ih, Ne.symm hne]

private theorem lookup_filter_self (name : String) (entries : List (String × α)) :
    lookup name (entries.filter (fun entry => entry.1 ≠ name)) = none := by
  induction entries with
  | nil => rfl
  | cons entry rest ih =>
    by_cases h : entry.1 = name <;> simp_all [lookup]

private theorem lookup_filter_of_ne {name other : String} (entries : List (String × α))
    (hne : other ≠ name) :
    lookup other (entries.filter (fun entry => entry.1 ≠ name)) = lookup other entries := by
  induction entries with
  | nil => rfl
  | cons entry rest ih =>
    obtain ⟨key, old⟩ := entry
    by_cases h : key = name
    · subst h
      simp [lookup, Ne.symm hne] at ih ⊢
      exact ih
    · simp [lookup, h] at ih ⊢
      rw [ih]

@[simp]
theorem get?_insert_self (names : Names α) (name : String) (value : α) :
    (names.insert name value).get? name = some value :=
  lookup_place_self name value names.entries

theorem get?_insert_of_ne (names : Names α) {name other : String} (value : α)
    (hne : other ≠ name) : (names.insert name value).get? other = names.get? other :=
  lookup_place_of_ne value names.entries hne

@[simp]
theorem get?_erase_self (names : Names α) (name : String) : (names.erase name).get? name = none :=
  lookup_filter_self name names.entries

theorem get?_erase_of_ne (names : Names α) {name other : String} (hne : other ≠ name) :
    (names.erase name).get? other = names.get? other :=
  lookup_filter_of_ne names.entries hne

end Names

end Fibers
