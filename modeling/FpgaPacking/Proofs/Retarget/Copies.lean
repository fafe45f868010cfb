import FpgaPacking.Proofs.Retarget.Outcome

/-!
# Parameters are copied in turn

The copies that a rule asks for are made one after the other, in the order of the
identifiers they are made from.  A copy reads what the copies before it have left:
the parameter as it was, unless an earlier copy has been made to it.
-/

namespace FpgaPacking
namespace Retarget

variable {renames : Table Ident Ident} {params : Table Ident ParamValue} {old new x key : Ident}
  {rule : RetargetRule} {id : CellId} {c : Cell} {s t : Session}

theorem find?_copyParam (params : Table Ident ParamValue) (rename : Ident × Ident) (key : Ident) :
    (copyParam params rename).find? key =
      if key = rename.2 then (params.find? rename.1).or (params.find? key) else params.find? key := by
  unfold copyParam
  cases params.find? rename.1 with
  | none => simp
  | some value => simp [Table.find?_insert]

/-- Copies leave alone what they are not made to. -/
theorem find?_copies_of_notMem {l : List (Ident × Ident)} (h : key ∉ l.map (·.2)) :
    (l.foldl copyParam params).find? key = params.find? key := by
  induction l generalizing params with
  | nil => rfl
  | cons rename l ih =>
    rw [List.map_cons, List.mem_cons, not_or] at h
    obtain ⟨hne, hrest⟩ := h
    rw [List.foldl_cons, ih hrest, find?_copyParam, if_neg hne]

/-- If no two copies are made to one parameter, each puts there what it has found in its turn. -/
theorem find?_copies {l before after : List (Ident × Ident)} (hl : l = before ++ (old, new) :: after)
    (hdistinct : (l.map (·.2)).Nodup) : (l.foldl copyParam params).find? new =
      ((before.foldl copyParam params).find? old).or (params.find? new) := by
  subst hl
  rw [List.map_append, List.map_cons, List.nodup_append, List.nodup_cons] at hdistinct
  obtain ⟨-, ⟨hafter, -⟩, hbefore⟩ := hdistinct
  have hnot : new ∉ before.map (·.2) := fun hmem => hbefore new hmem new List.mem_cons_self rfl
  rw [List.foldl_append, List.foldl_cons, find?_copies_of_notMem hafter, find?_copyParam, if_pos rfl,
    find?_copies_of_notMem hnot]

/-! ## Turns -/

/-- The copies that are made before the one of `old`. -/
def earlier (renames : Table Ident Ident) (old : Ident) : List (Ident × Ident) :=
  renames.entries.filter fun rename => rename.1.index < old.index

/-- What is found under a parameter when its turn to be copied comes. -/
def valueInTurn (renames : Table Ident Ident) (params : Table Ident ParamValue) (old : Ident) :
    Option ParamValue :=
  ((earlier renames old).foldl copyParam params).find? old

theorem entries_of_find? (h : renames.find? old = some new) :
    ∃ after, renames.entries = earlier renames old ++ (old, new) :: after := by
  obtain ⟨before, after, hentries⟩ := List.append_of_mem ((renames.mem_entries_iff old new).mpr h)
  have hsorted := renames.sorted
  rw [hentries, List.pairwise_append, List.pairwise_cons] at hsorted
  obtain ⟨-, ⟨hafter, -⟩, hbefore⟩ := hsorted
  have hnone : after.filter (fun rename => rename.1.index < old.index) = [] :=
    List.filter_eq_nil_iff.mpr fun rename hrename => by
      have hlt : old.index < rename.1.index := Nat.compare_eq_lt.mp (hafter rename hrename)
      simpa using Nat.le_of_lt hlt
  have hall : before.filter (fun rename => rename.1.index < old.index) = before :=
    List.filter_eq_self.mpr fun rename hrename => by
      have hlt : rename.1.index < old.index :=
        Nat.compare_eq_lt.mp (hbefore rename hrename _ List.mem_cons_self)
      simpa using hlt
  have hearlier : earlier renames old = before := by
    rw [earlier, hentries, List.filter_append, List.filter_cons_of_neg (by simp), hnone, hall,
      List.append_nil]
  exact ⟨after, hearlier ▸ hentries⟩

/-- A parameter to which no earlier copy is made is found as it was. -/
theorem valueInTurn_of_first (h : ∀ x, renames.find? x = some old → ¬x.index < old.index) :
    valueInTurn renames params old = params.find? old := by
  refine find?_copies_of_notMem fun hmem => ?_
  obtain ⟨⟨x, target⟩, hrename, rfl⟩ := List.mem_map.mp hmem
  obtain ⟨hentry, hlt⟩ := List.mem_filter.mp hrename
  exact h x ((renames.mem_entries_iff x _).mp hentry) (by simpa using hlt)

/-- A parameter to which an earlier copy is made is found as that copy has left it. -/
theorem valueInTurn_of_earlier (hdistinct : renames.values.Nodup) (hx : renames.find? x = some old)
    (hlt : x.index < old.index) :
    valueInTurn renames params old = (valueInTurn renames params x).or (params.find? old) := by
  obtain ⟨after, hentries⟩ := entries_of_find? hx
  have hsplit : earlier renames old = earlier renames x ++
      (x, old) :: after.filter fun rename => rename.1.index < old.index := by
    have hthese : (earlier renames x).filter (fun rename => rename.1.index < old.index) =
        earlier renames x := List.filter_eq_self.mpr fun rename hrename => by
      have hless := (List.mem_filter.mp hrename).2
      simp only [decide_eq_true_eq] at hless ⊢
      exact Nat.lt_trans hless hlt
    -- The copies before `x` come before `old` as well.
    conv_lhs =>
      rw [earlier, hentries, List.filter_append, hthese, List.filter_cons_of_pos (by simpa using hlt)]
  exact find?_copies hsplit (hdistinct.sublist (List.filter_sublist.map _))

theorem isSome_valueInTurn (hdistinct : renames.values.Nodup) (hold : (params.find? old).isSome) :
    (valueInTurn renames params old).isSome := by
  by_cases hearlier : ∃ x, renames.find? x = some old ∧ x.index < old.index
  · obtain ⟨x, hx, hlt⟩ := hearlier
    rw [valueInTurn_of_earlier hdistinct hx hlt, Option.isSome_or, hold, Bool.or_true]
  · rw [valueInTurn_of_first fun x hx hlt => hearlier ⟨x, hx, hlt⟩]
    exact hold

/-! ## Retargeted cells -/

/-- A parameter that is copied to, and not fixed, gets what is found in turn. -/
theorem find?_newParams_of_rename (hdistinct : rule.paramRename.values.Nodup)
    (hrename : rule.paramRename.find? old = some new) (hfree : rule.fixedParams.find? new = none) :
    (newParams rule params).find? new = ((valueInTurn rule.paramRename params old).or
      (params.find? new)).or (rule.defaultParams.find? new) := by
  obtain ⟨after, hentries⟩ := entries_of_find? hrename
  rw [find?_newParams, hfree, find?_copies hentries hdistinct]
  rfl

/-- A parameter that the cell has is renamed by the value that it has in its turn.  This is its former
value unless an earlier rename has put another one in its place. -/
theorem retargetCell_renames_in_turn (hc : s.netlist.cell? id = some c)
    (hdistinct : rule.paramRename.values.Nodup) (h : retargetCell rule id s = .ok () t) :
    ∃ d, t.netlist.cell? id = some d ∧ ∀ old new, rule.paramRename.find? old = some new →
      rule.fixedParams.find? new = none → (c.params.find? old).isSome →
        d.params.find? new = valueInTurn rule.paramRename c.params old ∧
        ((∀ x, rule.paramRename.find? x = some old → ¬x.index < old.index) →
          valueInTurn rule.paramRename c.params old = c.params.find? old) ∧
        ∀ x, rule.paramRename.find? x = some old → x.index < old.index →
          valueInTurn rule.paramRename c.params old =
            (valueInTurn rule.paramRename c.params x).or (c.params.find? old) := by
  obtain ⟨d, hd, hparams⟩ := params_of_retargetCell hc h
  refine ⟨d, hd, fun old new hrename hfree hold => ⟨?_, valueInTurn_of_first, fun x hx hlt =>
    valueInTurn_of_earlier hdistinct hx hlt⟩⟩
  obtain ⟨value, hvalue⟩ := Option.isSome_iff_exists.mp (isSome_valueInTurn hdistinct hold)
  rw [hparams, find?_newParams_of_rename hdistinct hrename hfree, hvalue]
  rfl

namespace Shifting

/-- A rule that moves one parameter to a second and the second to a third. -/
def config : Config where
  chain := none
  boundary := ⟨none, none, none⟩
  lut := .empty
  normalize := ⟨[], [], []⟩
  rules := .ofList [("ADD", ⟨"SLICE", .empty, .empty, .ofList [("A", "B"), ("B", "C")], .empty, .empty,
    .empty⟩)]

def shift (newType : Ident) (renames : List (Ident × Ident)) : RetargetRule where
  newType := newType
  portRename := .empty
  portFanoutRename := .empty
  paramRename := .ofList renames
  fixedAttrs := .empty
  fixedParams := .empty
  defaultParams := .empty

/-- A cell that has the first two parameters. -/
def cell (cellType a b : Ident) : Cell :=
  { Cell.create cellType "add" with params := .ofList [(a, .int 1), (b, .int 2)] }

def session (names : Names) (cellType a b : Ident) : Session := (Session.start names).after
  [.createCell cellType "add", .write ⟨0⟩ fun _ => cell cellType a b]

/-! The name in between has been entered before the configuration. -/

def prepared : Names where
  entered := #["B"]
  nodup := by decide +kernel

def preparedNames : Names where
  entered := #["B", "ADD", "SLICE", "A", "C"]
  nodup := by decide +kernel

def preparedRule : RetargetRule := shift ⟨2⟩ [(⟨0⟩, ⟨4⟩), (⟨3⟩, ⟨0⟩)]

theorem ofConfig_prepared :
    RuleSet.ofConfig config prepared = (.ofList [(⟨1⟩, preparedRule)], preparedNames) :=
  Prod.ext (by decide +kernel) (by decide +kernel)

/-- The second parameter is copied before it is copied to, and both renames act on former values. -/
theorem shift_prepared :
    RuleSet.ofConfig config prepared = (.ofList [(⟨1⟩, preparedRule)], preparedNames) ∧
      (session preparedNames ⟨1⟩ ⟨3⟩ ⟨0⟩).netlist.cell? ⟨0⟩ = some (cell ⟨1⟩ ⟨3⟩ ⟨0⟩) ∧
      ∃ t d, retargetCell preparedRule ⟨0⟩ (session preparedNames ⟨1⟩ ⟨3⟩ ⟨0⟩) = .ok () t ∧
        t.netlist.cell? ⟨0⟩ = some d ∧
        d.params.find? ⟨0⟩ = some (.int 1) ∧ d.params.find? ⟨4⟩ = some (.int 2) := by
  have hc : (session preparedNames ⟨1⟩ ⟨3⟩ ⟨0⟩).netlist.cell? ⟨0⟩ = some (cell ⟨1⟩ ⟨3⟩ ⟨0⟩) := by
    decide +kernel
  obtain ⟨t, h⟩ : ∃ t, retargetCell preparedRule ⟨0⟩ (session preparedNames ⟨1⟩ ⟨3⟩ ⟨0⟩) = .ok () t :=
    exists_ok_of_returned (by decide +kernel)
  obtain ⟨d, hd, hrenamed⟩ := retargetCell_renames_in_turn hc (by decide +kernel) h
  obtain ⟨hsecond, -⟩ := hrenamed ⟨3⟩ ⟨0⟩ (by decide +kernel) rfl (by decide +kernel)
  obtain ⟨hthird, hformer, -⟩ := hrenamed ⟨0⟩ ⟨4⟩ (by decide +kernel) rfl (by decide +kernel)
  refine ⟨ofConfig_prepared, hc, t, d, h, hd, hsecond.trans (by decide +kernel), ?_⟩
  rw [hthird, hformer fun x _ => Nat.not_lt_zero _]
  decide +kernel

/-! No name has been entered before, and the configuration gives the first two in this order. -/

def freshNames : Names where
  entered := #["ADD", "SLICE", "A", "B", "C"]
  nodup := by decide +kernel

def freshRule : RetargetRule := shift ⟨1⟩ [(⟨2⟩, ⟨3⟩), (⟨3⟩, ⟨4⟩)]

theorem ofConfig_fresh :
    RuleSet.ofConfig config .empty = (.ofList [(⟨0⟩, freshRule)], freshNames) :=
  Prod.ext (by decide +kernel) (by decide +kernel)

/-- The second parameter is copied to before it is copied, and its former value is lost. -/
theorem shift_overtaken : config.validate = .ok () ∧
    RuleSet.ofConfig config .empty = (.ofList [(⟨0⟩, freshRule)], freshNames) ∧
    freshRule.paramRename.values.Nodup ∧ freshRule.paramRename.find? ⟨3⟩ = some ⟨4⟩ ∧
    freshRule.fixedParams.find? ⟨4⟩ = none ∧
    (session freshNames ⟨0⟩ ⟨2⟩ ⟨3⟩).netlist.WellFormed ∧
    (session freshNames ⟨0⟩ ⟨2⟩ ⟨3⟩).netlist.cell? ⟨0⟩ = some (cell ⟨0⟩ ⟨2⟩ ⟨3⟩) ∧
    (cell ⟨0⟩ ⟨2⟩ ⟨3⟩).params.find? ⟨3⟩ = some (.int 2) ∧
    ∃ t d, retargetCell freshRule ⟨0⟩ (session freshNames ⟨0⟩ ⟨2⟩ ⟨3⟩) = .ok () t ∧
      t.netlist.cell? ⟨0⟩ = some d ∧ d.params.find? ⟨4⟩ = some (.int 1) := by
  have hc : (session freshNames ⟨0⟩ ⟨2⟩ ⟨3⟩).netlist.cell? ⟨0⟩ = some (cell ⟨0⟩ ⟨2⟩ ⟨3⟩) := by
    decide +kernel
  obtain ⟨t, h⟩ : ∃ t, retargetCell freshRule ⟨0⟩ (session freshNames ⟨0⟩ ⟨2⟩ ⟨3⟩) = .ok () t :=
    exists_ok_of_returned (by decide +kernel)
  obtain ⟨d, hd, hparams⟩ := params_of_retargetCell hc h
  refine ⟨eq_ok_of_toOption (by decide +kernel), ofConfig_fresh, by decide +kernel,
    by decide +kernel, rfl, Session.wellFormed_after_of_wellFormed Netlist.Wired.empty.wellFormed _,
    hc, by decide +kernel, t, d, h, hd, ?_⟩
  rw [hparams]
  decide +kernel

end Shifting
end Retarget
end FpgaPacking
