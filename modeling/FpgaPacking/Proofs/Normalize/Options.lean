import FpgaPacking.Normalize.Options
import FpgaPacking.Proofs.Config

/-!
# Options of a validated configuration

Validation refuses a truth table that lists an input twice or has too many of
them, and distinct names have distinct identifiers.
-/

namespace FpgaPacking

/-- No truth table lists an input twice. -/
def NormalizeOptions.DistinctInputs (options : NormalizeOptions) : Prop :=
  ∀ cellType shape, options.lutShapes.find? cellType = some shape → shape.inputs.Nodup

/-- The number of rows of each truth table is a bit of a 32-bit word. -/
def NormalizeOptions.FewInputs (options : NormalizeOptions) : Prop :=
  ∀ cellType shape, options.lutShapes.find? cellType = some shape → shape.inputs.length < 32

/-! ## Tables -/

theorem Table.mem_of_find?_ofList {κ ν : Type} [Ord κ] [Std.TransOrd κ] [Std.LawfulEqOrd κ] [BEq κ]
    [LawfulBEq κ] {pairs : List (κ × ν)} {key : κ} {value : ν}
    (h : (Table.ofList pairs).find? key = some value) : (key, value) ∈ pairs := by
  have hfold : ∀ (pairs : List (κ × ν)) (table : Table κ ν),
      (pairs.foldl (fun table pair => table.insert pair.1 pair.2) table).find? key = some value →
        (key, value) ∈ pairs ∨ table.find? key = some value := by
    intro pairs
    induction pairs with
    | nil => exact fun _ h => Or.inr h
    | cons pair pairs ih =>
      intro table h
      rcases ih _ h with hrest | hinserted
      · exact Or.inl (List.mem_cons_of_mem _ hrest)
      · rw [Table.find?_insert] at hinserted
        split at hinserted
        · next hkey =>
          obtain rfl := Option.some.inj hinserted
          obtain rfl := eq_of_beq hkey
          exact Or.inl List.mem_cons_self
        · exact Or.inr hinserted
  exact (hfold pairs Table.empty h).resolve_right nofun

namespace Config

theorem inputs_of_validate {cellType : String} {shape : LutShape}
    (h : shape.validate cellType = .ok ()) :
    shape.inputs.Nodup ∧ shape.inputs.length ≤ maxInputs := by
  unfold LutShape.validate at h
  obtain ⟨_, -, h⟩ := except_bind_ok.mp h
  obtain ⟨_, hcount, hrepeated⟩ := except_bind_ok.mp h
  have hlength := not_of_refuseIf hcount
  exact ⟨Decidable.not_not.mp (not_of_refuseIf hrepeated),
    Nat.le_of_not_lt fun hlt => hlength (Or.inr hlt)⟩

end Config

/-- The inputs of a truth table are names that have passed the checks. -/
theorem exists_inputs_of_validate {config : Config} {names : Names} {cellType : Ident}
    {shape : LutShape} (hvalid : config.validate = .ok ())
    (h : ((NormalizeOptions.ofConfig config).run names).1.lutShapes.find? cellType = some shape) :
    ∃ (inputs : List String) (names' : Names), inputs.Nodup ∧ inputs.length ≤ Config.maxInputs ∧
      ((inputs.mapM naming).run names').1 = shape.inputs := by
  unfold Config.validate at hvalid
  obtain ⟨_, -, hvalid⟩ := except_bind_ok.mp hvalid
  obtain ⟨_, -, hvalid⟩ := except_bind_ok.mp hvalid
  obtain ⟨_, hshapes, -⟩ := except_bind_ok.mp hvalid
  obtain ⟨⟨typeName, given⟩, hgiven, names', hpair⟩ :=
    mem_mapM_run (Table.mem_of_find?_ofList h)
  obtain ⟨hnodup, hlength⟩ :=
    Config.inputs_of_validate (except_forM_ok hshapes (typeName, given) hgiven)
  exact ⟨given.inputs, (names'.intern given.param).2, hnodup, hlength,
    congrArg (fun pair => pair.2.inputs) hpair⟩

theorem distinctInputs_of_validate {config : Config} (names : Names)
    (hvalid : config.validate = .ok ()) :
    ((NormalizeOptions.ofConfig config).run names).1.DistinctInputs := by
  intro cellType shape hshape
  obtain ⟨inputs, names', hnodup, -, hinputs⟩ := exists_inputs_of_validate hvalid hshape
  rw [← hinputs]
  exact nodup_mapM_naming hnodup names'

theorem fewInputs_of_validate {config : Config} (names : Names)
    (hvalid : config.validate = .ok ()) :
    ((NormalizeOptions.ofConfig config).run names).1.FewInputs := by
  intro cellType shape hshape
  obtain ⟨inputs, names', -, hlength, hinputs⟩ := exists_inputs_of_validate hvalid hshape
  rw [← hinputs, length_mapM_naming]
  exact Nat.lt_of_le_of_lt hlength (by decide)

end FpgaPacking
