import Mathlib.Algebra.GroupWithZero.Nat
import FpgaPacking.Proofs.Netlist.Regular
import FpgaPacking.Proofs.Retarget.Values

/-!
# The summary of a retargeting run

Every cell with a rule is counted once, under its new type and its former one, so
the total of the summary goes up by one with each retargeted cell.  A total of zero
therefore says that no cell had a rule.
-/

namespace FpgaPacking

/-- A value that is put into a table comes in the place of the one before it. -/
theorem Table.sum_insert {κ ν : Type} [Ord κ] [Std.TransOrd κ] [Std.LawfulEqOrd κ] [BEq κ] [LawfulBEq κ]
    (weight : ν → Nat) (table : Table κ ν) (key : κ) (value : ν) :
    ((table.insert key value).values.map weight).sum + ((table.find? key).map weight).getD 0 =
      (table.values.map weight).sum + weight value := by
  obtain ⟨entries, hsorted⟩ := table
  show ((insertEntry key value entries).map (·.2) |>.map weight).sum +
    ((entries.lookup key).map weight).getD 0 = ((entries.map (·.2)).map weight).sum + weight value
  induction entries with
  | nil => simp [insertEntry]
  | cons entry rest ih =>
    obtain ⟨other, old⟩ := entry
    obtain ⟨hbelow, hrest⟩ := List.pairwise_cons.mp hsorted
    unfold insertEntry
    split
    · next hlt =>
      have habsent : ((other, old) :: rest).lookup key = none := by
        refine lookup_eq_none_of_below fun entry hentry => ?_
        rcases List.mem_cons.mp hentry with rfl | hentry
        · exact hlt
        · exact Std.TransCmp.lt_trans hlt (hbelow entry hentry)
      rw [habsent]
      simp only [List.map_cons, List.sum_cons, Option.map_none, Option.getD_none]
      omega
    · next heq =>
      obtain rfl : key = other := Std.LawfulEqCmp.eq_of_compare heq
      simp only [List.lookup_cons_self, List.map_cons, List.sum_cons, Option.map_some, Option.getD_some]
      omega
    · next hgt =>
      have hne : (key == other) = false := by
        refine beq_eq_false_iff_ne.mpr fun heq => ?_
        rw [← heq] at hgt
        exact absurd (hgt.symm.trans Std.ReflCmp.compare_self) (by decide)
      have hsum := ih hrest
      rw [List.lookup_cons, hne]
      simp only [List.map_cons, List.sum_cons]
      omega

namespace Retarget

/-! ## Totals -/

namespace Summary

variable {summary : Summary}

theorem total_eq_sum (summary : Summary) :
    summary.total = (summary.values.map Count.total).sum := by
  have hfold : ∀ (counts : List Count) (n : Nat),
      counts.foldl (fun n count => n + count.total) n = n + (counts.map Count.total).sum := by
    intro counts
    induction counts with
    | nil => exact fun n => rfl
    | cons count counts ih =>
      intro n
      rw [List.foldl_cons, ih, List.map_cons, List.sum_cons, Nat.add_assoc]
  unfold total
  rw [hfold, Nat.zero_add]

theorem total_add (summary : Summary) (newType source : String) :
    (summary.add newType source).total = summary.total + 1 := by
  have hinsert := Table.sum_insert Count.total summary newType
    (((summary.find? newType).getD .none).add source)
  have hmore : (((summary.find? newType).getD .none).add source).total =
      ((summary.find? newType).map Count.total).getD 0 + 1 := by
    cases summary.find? newType <;> rfl
  rw [total_eq_sum, total_eq_sum, add]
  omega

/-! ## Counts -/

/-- How many cells of a former type became one new type. -/
def count? (summary : Summary) (newType source : String) : Option Nat :=
  (summary.find? newType).bind fun count => count.sources.find? source

theorem count?_add (summary : Summary) (newType source newType' source' : String) :
    (summary.add newType source).count? newType' source' =
      if (newType', source') = (newType, source) then some ((summary.count? newType source).getD 0 + 1)
      else summary.count? newType' source' := by
  unfold count? add
  rw [Table.find?_insert]
  by_cases hnew : newType' = newType
  · subst hnew
    have hcount : ∀ count : Count, (count.add source).sources.find? source' =
        if source' = source then some ((count.sources.find? source).getD 0 + 1)
        else count.sources.find? source' := fun count => by
      simp [Count.add, Table.find?_insert, beq_iff_eq]
    cases summary.find? newType' <;> simp [hcount, Count.none]
  · simp [hnew]

/-- Each cell that is listed, with its new type and its former one, has been counted once. -/
structure Tallies (cells : List (String × String)) (summary : Summary) : Prop where
  total : summary.total = cells.length
  sums : ∀ newType count, summary.find? newType = some count →
    count.total = count.sources.values.sum
  counts : ∀ cell, summary.count? cell.1 cell.2 =
    if cell ∈ cells then some (cells.count cell) else none

theorem Tallies.empty : Tallies [] .empty := ⟨rfl, nofun, fun _ => rfl⟩

theorem Tallies.add {cells : List (String × String)} (h : Tallies cells summary)
    (newType source : String) : Tallies (cells ++ [(newType, source)]) (summary.add newType source) where
  total := by rw [total_add, h.total, List.length_append, List.length_singleton]
  sums other count hcount := by
    unfold Summary.add at hcount
    rw [Table.find?_insert] at hcount
    by_cases hother : other = newType
    · obtain rfl : ((summary.find? newType).getD .none).add source = count := by
        simpa [hother] using hcount
      have hbefore : ((summary.find? newType).getD .none).total =
          ((summary.find? newType).getD .none).sources.values.sum := by
        cases hfound : summary.find? newType with
        | none => rfl
        | some before => exact h.sums newType before hfound
      have hsum := Table.sum_insert id ((summary.find? newType).getD .none).sources source
        ((((summary.find? newType).getD .none).sources.find? source).getD 0 + 1)
      simp only [Option.map_id, List.map_id, id] at hsum
      unfold Count.add
      dsimp only
      omega
    · exact h.sums other count (by simpa [hother] using hcount)
  counts cell := by
    have hcounts := h.counts (newType, source)
    rw [count?_add, h.counts cell]
    by_cases hcell : cell = (newType, source)
    · subst hcell
      rw [if_pos rfl, if_pos (by simp), hcounts, List.count_append, List.count_singleton_self]
      split
      · rfl
      · next hnot => rw [List.count_eq_zero_of_not_mem hnot]; rfl
    · have hmem : cell ∈ cells ++ [(newType, source)] ↔ cell ∈ cells := by simp [hcell]
      have hcount : (cells ++ [(newType, source)]).count cell = cells.count cell := by
        have hzero := List.count_eq_zero_of_not_mem (mt List.mem_singleton.mp hcell)
        rw [List.count_append, hzero, Nat.add_zero]
      simp only [if_neg hcell, hmem, hcount]

end Summary

/-! ## Counting cells -/

variable {rules : RuleSet} {summary summary' : Summary} {id : CellId} {s s' : Session}

/-- A cell without a rule is passed over; one with a rule is retargeted and counted. -/
theorem retargetIfRuled_ok (h : retargetIfRuled rules summary id s = .ok summary' s') :
    ∃ c, s.netlist.cell? id = some c ∧
      (rules.find? c.cellType = none ∧ summary' = summary ∧ s' = s ∨
        ∃ rule, rules.find? c.cellType = some rule ∧ retargetCell rule id s = .ok () s' ∧
          summary' = summary.add (s'.names.resolve rule.newType) (s'.names.resolve c.cellType)) := by
  unfold retargetIfRuled at h
  obtain ⟨c, s₁, hedit, h⟩ := bind_ok.mp h
  obtain ⟨nl, hcell, rfl⟩ := Packing.edit_ok.mp hedit
  obtain ⟨hc, rfl⟩ := Edit.cell_ok hcell
  refine ⟨c, hc, ?_⟩
  cases hrule : rules.find? c.cellType with
  | none =>
    simp only [hrule] at h
    obtain ⟨rfl, rfl⟩ := pure_ok.mp h
    exact Or.inl ⟨rfl, rfl, rfl⟩
  | some rule =>
    simp only [hrule] at h
    obtain ⟨_, s₂, hretarget, h⟩ := bind_ok.mp h
    obtain ⟨new, s₃, hnew, h⟩ := bind_ok.mp h
    obtain ⟨rfl, rfl⟩ := pure_ok.mp hnew
    obtain ⟨source, s₄, hsource, h⟩ := bind_ok.mp h
    obtain ⟨rfl, rfl⟩ := pure_ok.mp hsource
    obtain ⟨rfl, rfl⟩ := pure_ok.mp h
    exact Or.inr ⟨rule, rfl, hretarget, rfl⟩

/-- A run over cells that counts none of them does nothing. -/
theorem idle_of_total {ids : List CellId}
    (h : ids.foldlM (retargetIfRuled rules) summary s = .ok summary' s') :
    summary.total ≤ summary'.total ∧ (summary'.total = summary.total → s' = s) := by
  induction ids generalizing summary s with
  | nil =>
    obtain ⟨rfl, rfl⟩ := pure_ok.mp h
    exact ⟨Nat.le_refl _, fun _ => rfl⟩
  | cons id ids ih =>
    obtain ⟨mid, s₁, hfirst, hrest⟩ := bind_ok.mp h
    obtain ⟨hle, hsame⟩ := ih hrest
    obtain ⟨c, -, ⟨-, rfl, rfl⟩ | ⟨rule, -, -, rfl⟩⟩ := retargetIfRuled_ok hfirst
    · exact ⟨hle, hsame⟩
    · rw [Summary.total_add] at hle
      exact ⟨by omega, fun htotal => by omega⟩

end Retarget

/-- A retargeting run is its cells one by one, and then notes in the log. -/
theorem retarget_ok {rules : RuleSet} {summary : Retarget.Summary} {s s' : Session}
    (h : retarget rules s = .ok summary s') :
    ∃ t, s.netlist.cellIds.foldlM (Retarget.retargetIfRuled rules) Table.empty s = .ok summary t ∧
      s'.names = t.names ∧ s'.netlist = t.netlist := by
  unfold retarget at h
  obtain ⟨nl, s₁, hstart, h⟩ := bind_ok.mp h
  obtain ⟨rfl, rfl⟩ := Packing.netlist_ok.mp hstart
  obtain ⟨result, t, hcells, h⟩ := bind_ok.mp h
  obtain ⟨_, s₂, hnotes, h⟩ := bind_ok.mp h
  obtain ⟨rfl, rfl⟩ := pure_ok.mp h
  obtain ⟨hnames, hnetlist⟩ := forM_ok (fun _ u => u.names = t.names ∧ u.netlist = t.netlist)
    (fun entry rest u _ u' hu hemit => by
      obtain rfl := Packing.emit_ok.mp hemit
      exact hu) ⟨rfl, rfl⟩ hnotes
  exact ⟨t, hcells, hnames, hnetlist⟩

end FpgaPacking
