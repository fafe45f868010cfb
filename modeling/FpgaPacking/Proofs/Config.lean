import FpgaPacking.Fabric.Basic
import FpgaPacking.Proofs.Runs
import Mathlib.Data.List.Nodup

/-!
# Validated configurations

The names in a configuration become identifiers one after the other; each
identifier still resolves to its name when all of them have been entered, so
distinct names have distinct identifiers.  What the checks of a configuration
refuse does not hold of one that passes them.
-/

namespace FpgaPacking

/-! ## Entering names -/

namespace Names

variable {names : Names} {name : String}

theorem size_le_intern : names.size ≤ (names.intern name).2.size := by
  unfold intern
  split
  · exact Nat.le_refl _
  · show names.entered.size ≤ (names.entered.push name).size
    rw [Array.size_push]
    exact Nat.le_succ _

theorem index_intern_lt : (names.intern name).1.index < (names.intern name).2.size := by
  unfold intern
  split
  · next h =>
    obtain ⟨i, hi⟩ : ∃ i, names.entered.finIdxOf? name = some i :=
      Option.isSome_iff_exists.mp (by simpa [Array.isSome_finIdxOf?] using h)
    simp [find?, hi, size]
  · simp [size]

end Names

/-- Identifiers of the names table keep their names when a list of names is entered. -/
theorem resolve_mapM_of_lt (l : List String) (names : Names) {ident : Ident}
    (h : ident.index < names.size) :
    ((l.mapM naming).run names).2.resolve ident = names.resolve ident := by
  induction l generalizing names with
  | nil => rfl
  | cons name l ih =>
    have hlt : ident.index < (names.intern name).2.size :=
      Nat.lt_of_lt_of_le h Names.size_le_intern
    rw [List.mapM_cons]
    exact (ih (names.intern name).2 hlt).trans (names.resolve_intern_of_lt name h)

/-- Each name of a list resolves to itself once the list has been entered. -/
theorem map_resolve_mapM (l : List String) (names : Names) :
    ((l.mapM naming).run names).1.map ((l.mapM naming).run names).2.resolve = l := by
  induction l generalizing names with
  | nil => rfl
  | cons name l ih =>
    rw [List.mapM_cons]
    show (((l.mapM naming).run (names.intern name).2).2.resolve (names.intern name).1) ::
      ((l.mapM naming).run (names.intern name).2).1.map
        ((l.mapM naming).run (names.intern name).2).2.resolve = _
    rw [ih, resolve_mapM_of_lt l _ Names.index_intern_lt, Names.resolve_intern]

theorem nodup_mapM_naming {l : List String} (h : l.Nodup) (names : Names) :
    ((l.mapM naming).run names).1.Nodup := by
  have hresolved := map_resolve_mapM l names
  refine List.Nodup.of_map ((l.mapM naming).run names).2.resolve ?_
  rw [hresolved]
  exact h

theorem length_mapM_naming (l : List String) (names : Names) :
    ((l.mapM naming).run names).1.length = l.length := by
  simpa using congrArg List.length (map_resolve_mapM l names)

/-- What a list of constructions gives is given by one of them. -/
theorem mem_mapM_run {α β : Type} {f : α → Naming β} {l : List α} {names : Names} {b : β}
    (h : b ∈ ((l.mapM f).run names).1) : ∃ a ∈ l, ∃ names', ((f a).run names').1 = b := by
  induction l generalizing names with
  | nil => cases h
  | cons a l ih =>
    rw [List.mapM_cons] at h
    rcases List.mem_cons.mp h with rfl | h
    · exact ⟨a, List.mem_cons_self, names, rfl⟩
    · obtain ⟨a', ha', names', hb⟩ := ih h
      exact ⟨a', List.mem_cons_of_mem a ha', names', hb⟩

/-- The templates of a configured fabric are those of the boundary cells that are described. -/
theorem Fabric.template_of_config {config : Config} {names names' : Names} {f : Fabric} {role : Role}
    {t : BoundaryTemplate} (h : Fabric.ofConfig config names = (.ok f, names'))
    (ht : f.boundary role = some t) :
    ∃ b names', ((BoundaryTemplate.ofConfig b).run names').1 = t := by
  have hgiven : ∀ (b : Option Config.BoundaryCell) (names : Names),
      ((b.mapM BoundaryTemplate.ofConfig : Naming (Option BoundaryTemplate)) names).1 = some t →
      ∃ b names', ((BoundaryTemplate.ofConfig b).run names').1 = t := by
    intro b names hb
    cases b with
    | none => cases hb
    | some b => exact ⟨b, names, Option.some.inj hb⟩
  unfold Fabric.ofConfig at h
  cases hchain : config.chain with
  | none =>
    rw [hchain] at h
    cases h
  | some chain =>
    rw [hchain] at h
    obtain rfl := Except.ok.inj (congrArg Prod.fst h)
    cases role with
    | normal => cases ht
    | feedIn => exact hgiven _ _ ht
    | passThrough => exact hgiven _ _ ht
    | passOut => exact hgiven _ _ ht

/-! ## Checks -/

theorem except_forM_ok {ε α : Type} {f : α → Except ε Unit} {l : List α}
    (h : l.forM f = .ok ()) : ∀ a ∈ l, f a = .ok () := by
  induction l with
  | nil => exact fun _ ha => nomatch ha
  | cons a l ih =>
    obtain ⟨_, hhead, hrest⟩ := except_bind_ok.mp h
    intro b hb
    rcases List.mem_cons.mp hb with rfl | hb
    · exact hhead
    · exact ih hrest b hb

namespace Config

theorem not_of_refuseIf {condition : Prop} [Decidable condition] {defect : Defect}
    (h : refuseIf condition defect = .ok ()) : ¬condition := by
  intro hcondition
  unfold refuseIf at h
  rw [if_pos hcondition] at h
  cases h

/-- The sizes of a validated chain section are not zero. -/
theorem Chain.of_validate {chain : Chain} (h : chain.validate = .ok ()) :
    chain.tileCapacity ≠ 0 ∧ chain.slots ≠ 0 := by
  unfold Chain.validate at h
  obtain ⟨_, hcapacity, h⟩ := except_bind_ok.mp h
  obtain ⟨_, -, h⟩ := except_bind_ok.mp h
  obtain ⟨_, hslots, -⟩ := except_bind_ok.mp h
  have hcapacity := not_of_refuseIf hcapacity
  refine ⟨hcapacity, ?_⟩
  unfold Chain.slots
  cases hstated : chain.slotsPerTile with
  | none => exact hcapacity
  | some n =>
    rintro rfl
    exact not_of_refuseIf hslots hstated

theorem isSome_of_requirePort {needed : Bool} {path : String} {port : Option String}
    (h : requirePort needed path port = .ok ()) (hneeded : needed = true) : port.isSome := by
  unfold requirePort at h
  cases port with
  | some p => rfl
  | none =>
    rw [hneeded] at h
    cases h

/-- A validated boundary cell has the outputs it needs, and its ports are distinct. -/
theorem BoundaryCell.of_validate {b : BoundaryCell} {path : String} {needsChain needsFabric : Bool}
    (h : b.validate path needsChain needsFabric = .ok ()) :
    (needsChain = true → b.chainOutput.isSome) ∧ (needsFabric = true → b.fabricOutput.isSome) ∧
      (b.input :: (b.chainOutput.toList ++ b.fabricOutput.toList)).Nodup := by
  unfold BoundaryCell.validate at h
  obtain ⟨_, -, h⟩ := except_bind_ok.mp h
  obtain ⟨_, -, h⟩ := except_bind_ok.mp h
  obtain ⟨_, hchain, h⟩ := except_bind_ok.mp h
  obtain ⟨_, hfabric, h⟩ := except_bind_ok.mp h
  have hports := not_of_refuseIf h
  exact ⟨isSome_of_requirePort hchain, isSome_of_requirePort hfabric,
    Decidable.not_not.mp fun hne => hports (Or.inl hne)⟩

end Config
end FpgaPacking
