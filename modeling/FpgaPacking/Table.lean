/-
Finite tables listed in key order.

A `Table` holds its entries in strictly increasing key order, and the order is
part of the type.  A key therefore occurs at most once, the listing does not
depend on the order in which the table was filled, and two tables with the same
lookups are the same table.  Parameters, retargeting rules, configuration sections
and sets of cells are all tables.

`Keys` is the table that carries nothing besides its keys: an ordered finite
set.
-/
namespace FpgaPacking

/-- A finite map from `κ` to `ν`, listed by increasing key. -/
structure Table (κ ν : Type) [Ord κ] where
  /-- The entries in key order. -/
  entries : List (κ × ν)
  /-- Each key is below all keys after it. -/
  sorted : entries.Pairwise fun a b => compare a.1 b.1 = .lt
deriving DecidableEq, Repr

namespace Table

variable {κ ν : Type} [Ord κ]

/-- Puts `value` under `key` into a list in key order, replacing what was there. -/
def insertEntry (key : κ) (value : ν) : List (κ × ν) → List (κ × ν)
  | [] => [(key, value)]
  | (k, v) :: rest =>
    match compare key k with
    | .lt => (key, value) :: (k, v) :: rest
    | .eq => (key, value) :: rest
    | .gt => (k, v) :: insertEntry key value rest

/-- Nothing appears in the list but the new entry and the old ones. -/
theorem mem_insertEntry {key : κ} {value : ν} {entry : κ × ν} {entries : List (κ × ν)}
    (h : entry ∈ insertEntry key value entries) : entry = (key, value) ∨ entry ∈ entries := by
  induction entries with
  | nil => exact Or.inl (List.mem_singleton.mp h)
  | cons head rest ih =>
    obtain ⟨k, v⟩ := head
    unfold insertEntry at h
    split at h
    · rcases List.mem_cons.mp h with h | h
      · exact Or.inl h
      · exact Or.inr h
    · rcases List.mem_cons.mp h with h | h
      · exact Or.inl h
      · exact Or.inr (List.mem_cons_of_mem _ h)
    · rcases List.mem_cons.mp h with h | h
      · exact Or.inr (h ▸ List.mem_cons_self)
      · rcases ih h with h | h
        · exact Or.inl h
        · exact Or.inr (List.mem_cons_of_mem _ h)

/-- Insertion keeps the key order. -/
theorem sorted_insertEntry [Std.TransOrd κ] [Std.LawfulEqOrd κ] (key : κ) (value : ν)
    {entries : List (κ × ν)} (h : entries.Pairwise fun a b => compare a.1 b.1 = .lt) :
    (insertEntry key value entries).Pairwise fun a b => compare a.1 b.1 = .lt := by
  induction entries with
  | nil => exact List.pairwise_singleton _ _
  | cons head rest ih =>
    obtain ⟨k, v⟩ := head
    obtain ⟨hhead, hrest⟩ := List.pairwise_cons.mp h
    unfold insertEntry
    split
    · next hlt =>
      refine List.pairwise_cons.mpr ⟨fun entry hentry => ?_, h⟩
      rcases List.mem_cons.mp hentry with rfl | hentry
      · exact hlt
      · exact Std.TransCmp.lt_trans hlt (hhead entry hentry)
    · next heq =>
      have : key = k := Std.LawfulEqCmp.eq_of_compare heq
      subst this
      exact List.pairwise_cons.mpr ⟨hhead, hrest⟩
    · next hgt =>
      refine List.pairwise_cons.mpr ⟨fun entry hentry => ?_, ih hrest⟩
      rcases mem_insertEntry hentry with rfl | hentry
      · exact Std.OrientedCmp.lt_of_gt hgt
      · exact hhead entry hentry

/-- Insertion changes the lookup of its own key only. -/
theorem lookup_insertEntry [Std.LawfulEqOrd κ] [BEq κ] [LawfulBEq κ] (key : κ) (value : ν) (other : κ)
    (entries : List (κ × ν)) :
    (insertEntry key value entries).lookup other =
      if other == key then some value else entries.lookup other := by
  induction entries with
  | nil => cases h : other == key <;> simp [insertEntry, List.lookup_cons, h]
  | cons head rest ih =>
    obtain ⟨k, v⟩ := head
    unfold insertEntry
    split
    · cases h : other == key <;> simp [List.lookup_cons, h]
    · next heq =>
      have : key = k := Std.LawfulEqCmp.eq_of_compare heq
      subst this
      cases h : other == key <;> simp [List.lookup_cons, h]
    · next hgt =>
      have hne : k ≠ key := fun e => by
        have : compare key k = .eq := e ▸ Std.ReflCmp.compare_self
        exact absurd (hgt.symm.trans this) (by decide)
      cases h : other == k with
      | false => simp only [List.lookup_cons, h, ih]
      | true =>
        have hother : other = k := eq_of_beq h
        have : (other == key) = false := by
          rw [hother]
          exact beq_eq_false_iff_ne.mpr hne
        simp [List.lookup_cons, h, this]

/-- The table with no entries. -/
def empty : Table κ ν := ⟨[], List.Pairwise.nil⟩

instance : EmptyCollection (Table κ ν) := ⟨empty⟩

instance : Inhabited (Table κ ν) := ⟨empty⟩

/-- The value under `key`. -/
def find? [BEq κ] (table : Table κ ν) (key : κ) : Option ν := table.entries.lookup key

/-- Whether `key` has a value. -/
def contains [BEq κ] (table : Table κ ν) (key : κ) : Bool := (table.find? key).isSome

/-- The number of entries. -/
def size (table : Table κ ν) : Nat := table.entries.length

/-- The keys in increasing order. -/
def keys (table : Table κ ν) : List κ := table.entries.map (·.1)

/-- The values in the order of their keys. -/
def values (table : Table κ ν) : List ν := table.entries.map (·.2)

@[simp] theorem find?_empty [BEq κ] (key : κ) : (empty : Table κ ν).find? key = none := rfl

variable [Std.TransOrd κ] [Std.LawfulEqOrd κ]

/-- Puts `value` under `key`; an earlier value is replaced. -/
def insert (table : Table κ ν) (key : κ) (value : ν) : Table κ ν :=
  ⟨insertEntry key value table.entries, sorted_insertEntry key value table.sorted⟩

/-- Puts `value` under `key` unless the key has a value already. -/
def insertIfAbsent [BEq κ] (table : Table κ ν) (key : κ) (value : ν) : Table κ ν :=
  if table.contains key then table else table.insert key value

/-- Drops `key` and its value. -/
def erase [DecidableEq κ] (table : Table κ ν) (key : κ) : Table κ ν :=
  ⟨table.entries.filter (fun entry => entry.1 ≠ key), table.sorted.filter _⟩

/-! ## Lookups -/

/-- Looking up after an insertion. -/
theorem find?_insert [BEq κ] [LawfulBEq κ] (table : Table κ ν) (key : κ) (value : ν) (other : κ) :
    (table.insert key value).find? other =
      if other == key then some value else table.find? other :=
  lookup_insertEntry key value other table.entries

/-- Looking up after an erasure. -/
theorem find?_erase [DecidableEq κ] (table : Table κ ν) (key other : κ) :
    (table.erase key).find? other = if other = key then none else table.find? other := by
  change (table.entries.filter fun entry => entry.1 ≠ key).lookup other =
    if other = key then none else table.entries.lookup other
  induction table.entries with
  | nil => simp
  | cons head rest ih =>
    obtain ⟨k, v⟩ := head
    by_cases hk : k = key
    · subst hk
      by_cases ho : other = k
      · subst ho; simpa using ih
      · simpa [List.lookup_cons, ho, beq_eq_false_iff_ne.mpr ho] using ih
    · by_cases ho : other = k
      · subst ho; simp [hk]
      · simpa [List.lookup_cons, hk, ho, beq_eq_false_iff_ne.mpr ho] using ih

/-! ## Membership and equality -/

/-- The entries are the pairs that a lookup finds. -/
theorem mem_entries_iff [BEq κ] [LawfulBEq κ] (table : Table κ ν) (key : κ) (value : ν) :
    (key, value) ∈ table.entries ↔ table.find? key = some value := by
  change (key, value) ∈ table.entries ↔ table.entries.lookup key = some value
  have hsorted := table.sorted
  revert hsorted
  generalize table.entries = entries
  induction entries with
  | nil => simp
  | cons head rest ih =>
    obtain ⟨k, v⟩ := head
    intro hsorted
    obtain ⟨hhead, hrest⟩ := List.pairwise_cons.mp hsorted
    have hmem : (key, value) ∈ rest ↔ rest.lookup key = some value := ih hrest
    rw [List.mem_cons, List.lookup_cons, hmem]
    by_cases hk : key = k
    · subst hk
      have habsent : rest.lookup key ≠ some value := fun hfound => by
        have hlt := hhead _ (hmem.mpr hfound)
        exact absurd (hlt.symm.trans Std.ReflCmp.compare_self) (by decide)
      simp [habsent, eq_comm]
    · simp [hk, beq_eq_false_iff_ne.mpr hk]

/-- A table is determined by its lookups. -/
theorem ext_find? [BEq κ] [LawfulBEq κ] {first second : Table κ ν}
    (h : ∀ key, first.find? key = second.find? key) : first = second := by
  have hnodup : ∀ table : Table κ ν, table.entries.Nodup := fun table =>
    table.sorted.imp fun {a b} hlt heq => by
      subst heq
      exact absurd (hlt.symm.trans Std.ReflCmp.compare_self) (by decide)
  have hperm : first.entries.Perm second.entries :=
    (List.perm_ext_iff_of_nodup (hnodup first) (hnodup second)).mpr fun entry => by
      rw [mem_entries_iff first entry.1 entry.2, mem_entries_iff second entry.1 entry.2, h]
  have heq : first.entries = second.entries := by
    refine List.Perm.eq_of_pairwise ?_ first.sorted second.sorted hperm
    intro _ _ _ _ hlt hgt
    exact absurd hgt (Std.OrientedCmp.not_lt_of_lt hlt)
  cases first
  cases second
  congr

/-- Enters the pairs from left to right, so a later pair replaces an earlier one of the same key. -/
def ofList (pairs : List (κ × ν)) : Table κ ν :=
  pairs.foldl (fun table pair => table.insert pair.1 pair.2) empty

end Table

/-- An ordered finite set. -/
abbrev Keys (κ : Type) [Ord κ] := Table κ Unit

namespace Keys

variable {κ : Type} [Ord κ] [Std.TransOrd κ] [Std.LawfulEqOrd κ]

/-- Adds one member. -/
def add (set : Keys κ) (key : κ) : Keys κ := Table.insert set key ()

/-- Adds the members of a list. -/
def addAll (set : Keys κ) (keys : List κ) : Keys κ := keys.foldl add set

/-- The set of the members of a list. -/
def ofList (keys : List κ) : Keys κ := addAll Table.empty keys

end Keys

end FpgaPacking
