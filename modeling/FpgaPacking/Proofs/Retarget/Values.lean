import FpgaPacking.Retarget.Apply

/-!
# The values a rule gives

The fixed values of a rule go over what a cell has, and the defaults go under it.
Each is a table that is gone through key by key, and no key changes what is found
under another.  So whatever holds of all entries of the tables that go in holds of
all entries of what comes out.
-/

namespace FpgaPacking

namespace Table

theorem lookup_eq_none_of_below {κ ν : Type} [Ord κ] [Std.ReflOrd κ] [BEq κ] [LawfulBEq κ]
    {entries : List (κ × ν)} {key : κ} (h : ∀ entry ∈ entries, compare key entry.1 = .lt) :
    entries.lookup key = none := by
  refine List.lookup_eq_none_iff.mpr fun entry hentry => bne_iff_ne.mpr ?_
  rintro rfl
  exact absurd ((h entry hentry).symm.trans Std.ReflCmp.compare_self) nofun

variable {ν : Type} {table : Table Ident ν} {key : Ident}

/-- A table is gone through, and each entry changes what is found under its own key only: then each
key is changed by its own entry. -/
theorem find?_foldl_entries {step : Table Ident ν → Ident × ν → Table Ident ν}
    (put : ν → Option ν → Option ν)
    (hstep : ∀ table entry key, (step table entry).find? key =
      if key = entry.1 then put entry.2 (table.find? key) else table.find? key)
    (added : Table Ident ν) : (added.entries.foldl step table).find? key =
      (added.find? key).elim (table.find? key) fun value => put value (table.find? key) := by
  have hsorted := added.sorted
  unfold find? at hstep ⊢
  revert hsorted
  generalize added.entries = entries
  intro hsorted
  induction entries generalizing table with
  | nil => rfl
  | cons entry entries ih =>
    obtain ⟨hfirst, hrest⟩ := List.pairwise_cons.mp hsorted
    rw [List.foldl_cons, ih hrest, hstep, List.lookup_cons]
    by_cases hkey : key = entry.1
    · subst hkey
      simp [lookup_eq_none_of_below hfirst]
    · rw [if_neg hkey, beq_eq_false_iff_ne.mpr hkey]

theorem find?_foldl_insert (added : Table Ident ν) :
    (added.entries.foldl (fun t entry => t.insert entry.1 entry.2) table).find? key =
      (added.find? key).or (table.find? key) := by
  rw [find?_foldl_entries (fun value _ => some value) (fun t entry key => by
    simp [find?_insert, beq_iff_eq])]
  cases added.find? key <;> rfl

/-- Each entry of the table satisfies `P`. -/
def All (P : Ident → ν → Prop) (table : Table Ident ν) : Prop :=
  ∀ key value, table.find? key = some value → P key value

namespace All

variable {P : Ident → ν → Prop} {value : ν}

theorem of_mem {entry : Ident × ν} (h : table.All P) (hentry : entry ∈ table.entries) :
    P entry.1 entry.2 :=
  h _ _ ((mem_entries_iff _ _ _).mp hentry)

theorem insert (h : table.All P) (hentry : P key value) : (table.insert key value).All P := by
  intro other found hfound
  rw [find?_insert] at hfound
  split at hfound
  · next hkey =>
    obtain rfl := Option.some.inj hfound
    exact eq_of_beq hkey ▸ hentry
  · exact h other found hfound

theorem insertIfAbsent (h : table.All P) (hentry : P key value) :
    (table.insertIfAbsent key value).All P := by
  unfold Table.insertIfAbsent
  split
  · exact h
  · exact h.insert hentry

/-- A table that is built up by a step that keeps the property of all entries. -/
theorem foldl {α : Type} {step : Table Ident ν → α → Table Ident ν} {items : List α}
    (h : table.All P) (hstep : ∀ table, table.All P → ∀ item ∈ items, (step table item).All P) :
    (items.foldl step table).All P := by
  induction items generalizing table with
  | nil => exact h
  | cons item items ih =>
    refine ih (hstep table h item List.mem_cons_self) fun table h other hother => ?_
    exact hstep table h other (List.mem_cons_of_mem _ hother)

end All

theorem find?_foldl_insertIfAbsent (added : Table Ident ν) :
    (added.entries.foldl (fun t entry => t.insertIfAbsent entry.1 entry.2) table).find? key =
      (table.find? key).or (added.find? key) := by
  have hstep : ∀ (t : Table Ident ν) (entry : Ident × ν) (key : Ident),
      (t.insertIfAbsent entry.1 entry.2).find? key =
        if key = entry.1 then (t.find? key).or (some entry.2) else t.find? key := by
    intro t entry key
    unfold insertIfAbsent contains
    by_cases hkey : key = entry.1
    · subst hkey
      cases hfound : t.find? entry.1 with
      | none => simp [find?_insert]
      | some value => simp [hfound]
    · split <;> simp [find?_insert, hkey]
  rw [find?_foldl_entries (fun value found => found.or (some value)) hstep]
  cases added.find? key with
  | none => simp
  | some value => rfl

end Table

namespace Retarget

variable {rule : RetargetRule} {attrs params : Table Ident ParamValue} {key : Ident}

theorem find?_newAttrs : (newAttrs rule attrs).find? key =
    (rule.fixedAttrs.find? key).or (attrs.find? key) :=
  Table.find?_foldl_insert rule.fixedAttrs

/-- Fixed values come first, then what the cell has after the copies, then the defaults. -/
theorem find?_newParams : (newParams rule params).find? key =
    (rule.fixedParams.find? key).or (((rule.paramRename.entries.foldl copyParam params).find? key).or
      (rule.defaultParams.find? key)) := by
  unfold newParams
  rw [Table.find?_foldl_insert, Table.find?_foldl_insertIfAbsent]

/-! What holds of all entries. -/

section

variable {P : Ident → ParamValue → Prop}

theorem all_newParams
    (hcopy : ∀ old new value, rule.paramRename.find? old = some new → P old value → P new value)
    (hdefault : rule.defaultParams.All P) (hfixed : rule.fixedParams.All P) (h : params.All P) :
    (newParams rule params).All P := by
  have hcopied : (rule.paramRename.entries.foldl copyParam params).All P := by
    refine h.foldl fun table h rename hrename => ?_
    unfold copyParam
    split
    · next value hvalue =>
      exact h.insert (hcopy _ _ _ ((Table.mem_entries_iff _ _ _).mp hrename) (h _ _ hvalue))
    · exact h
  exact (hcopied.foldl fun _ h _ hentry => h.insertIfAbsent (hdefault.of_mem hentry)).foldl
    fun _ h _ hentry => h.insert (hfixed.of_mem hentry)

theorem all_newAttrs (hfixed : rule.fixedAttrs.All P) (h : attrs.All P) :
    (newAttrs rule attrs).All P :=
  h.foldl fun _ h _ hentry => h.insert (hfixed.of_mem hentry)

end

end Retarget
end FpgaPacking
