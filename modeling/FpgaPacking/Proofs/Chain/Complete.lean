import FpgaPacking.Proofs.Chain.Insertion
import FpgaPacking.Proofs.Config

/-!
# Fabrics that can cut every chain

A fabric is complete if it has a boundary cell for each purpose, with the ports
that the purpose needs, and room for one chain cell between two boundary cells.
A validated configuration gives such a fabric if it describes all three boundary
cells and does not limit segments to fewer than three cells.
-/

namespace FpgaPacking

/-- The template can be instantiated and has the outputs that the role needs. -/
structure BoundaryTemplate.Complete (role : Role) (t : BoundaryTemplate) : Prop where
  distinct : (t.cell.ports.map (·.1)).Nodup
  chainOutput : role ≠ .passOut → t.chainOutput.isSome
  fabricOutput : role ≠ .feedIn → t.fabricOutput.isSome

/-- The two outputs of a template are different ports. -/
theorem BoundaryTemplate.Complete.outputs_ne {role : Role} {t : BoundaryTemplate}
    {output routed : Ident} (h : t.Complete role) (hdeclared : t.Declared)
    (hout : t.chainOutput = some output) (hrouted : t.fabricOutput = some routed) :
    output ≠ routed := by
  have hdistinct := h.distinct
  rw [hdeclared, hout, hrouted] at hdistinct
  rintro rfl
  simp at hdistinct

/-- The fabric has a boundary cell for the role. -/
def Fabric.Provides (f : Fabric) (role : Role) : Prop :=
  ∃ t, f.boundary role = some t ∧ t.Complete role

/-- The boundary cells that the fabric has can serve their roles. -/
structure Fabric.Serviceable (f : Fabric) : Prop where
  declared : f.Declared
  complete : ∀ role t, f.boundary role = some t → t.Complete role
  capacity : 1 ≤ f.tileCapacity
  slots : f.slotsPerTile ≠ 0

/-- Every chain of the fabric can be cut into segments. -/
structure Fabric.Complete (f : Fabric) : Prop where
  declared : f.Declared
  boundary : ∀ role, role ≠ .normal → f.Provides role
  capacity : 1 ≤ f.tileCapacity
  length : 3 ≤ f.maxChainLength
  slots : f.slotsPerTile ≠ 0

/-- The ports of a template are the identifiers of the ports that the configuration names. -/
theorem BoundaryTemplate.ports_ofConfig (b : Config.BoundaryCell) (names : Names) :
    (BoundaryTemplate.ofConfig b names).1.cell.ports.map (·.1) =
      (((b.input :: (b.chainOutput.toList ++ b.fabricOutput.toList)).mapM naming).run names).1 := by
  obtain ⟨cellType, input, chainOutput, fabricOutput, params⟩ := b
  cases chainOutput with
  | none =>
    cases fabricOutput with
    | none => rfl
    | some r => rfl
  | some o =>
    cases fabricOutput with
    | none => rfl
    | some r => rfl

theorem BoundaryTemplate.complete_of_mapM {b : Option Config.BoundaryCell} {names : Names}
    {path : String} {role : Role} {needsChain needsFabric : Bool} {t : BoundaryTemplate}
    (hvalid : b.forM (Config.BoundaryCell.validate path needsChain needsFabric) = .ok ())
    (ht : ((b.mapM BoundaryTemplate.ofConfig : Naming (Option BoundaryTemplate)) names).1 = some t)
    (hchain : role ≠ .passOut → needsChain = true)
    (hfabric : role ≠ .feedIn → needsFabric = true) : t.Complete role := by
  cases b with
  | none => cases ht
  | some b =>
    obtain ⟨houtput, hrouted, hnodup⟩ := Config.BoundaryCell.of_validate hvalid
    obtain rfl : (BoundaryTemplate.ofConfig b names).1 = t := Option.some.inj ht
    refine ⟨?_, fun hrole => ?_, fun hrole => ?_⟩
    · rw [BoundaryTemplate.ports_ofConfig]
      exact nodup_mapM_naming hnodup names
    · obtain ⟨o, ho⟩ := Option.isSome_iff_exists.mp (houtput (hchain hrole))
      obtain ⟨cellType, input, chainOutput, fabricOutput, params⟩ := b
      obtain rfl : chainOutput = some o := ho
      rfl
    · obtain ⟨r, hr⟩ := Option.isSome_iff_exists.mp (hrouted (hfabric hrole))
      obtain ⟨cellType, input, chainOutput, fabricOutput, params⟩ := b
      obtain rfl : fabricOutput = some r := hr
      rfl

/-- The boundary cells of a validated configuration can serve their roles. -/
theorem Fabric.serviceable_of_config {config : Config} {names names' : Names} {f : Fabric}
    (hvalid : config.validate = .ok ()) (hf : Fabric.ofConfig config names = (.ok f, names')) :
    f.Serviceable := by
  have hdeclared := Fabric.declared_of_config hf
  unfold Config.validate at hvalid
  obtain ⟨_, hvalidchain, hvalid⟩ := except_bind_ok.mp hvalid
  obtain ⟨_, hboundary, -⟩ := except_bind_ok.mp hvalid
  unfold Config.Boundary.validate at hboundary
  obtain ⟨_, hvalidfeed, hboundary⟩ := except_bind_ok.mp hboundary
  obtain ⟨_, hvalidthrough, hvalidout⟩ := except_bind_ok.mp hboundary
  unfold Fabric.ofConfig at hf
  cases hchain : config.chain with
  | none =>
    rw [hchain] at hf
    cases hf
  | some chain =>
    rw [hchain] at hf hvalidchain
    obtain ⟨hcapacity, hslots⟩ := Config.Chain.of_validate hvalidchain
    obtain rfl := Except.ok.inj (congrArg Prod.fst hf)
    refine ⟨hdeclared, fun role t ht => ?_, Nat.one_le_iff_ne_zero.mpr hcapacity, hslots⟩
    cases role with
    | normal => cases ht
    | feedIn => exact BoundaryTemplate.complete_of_mapM hvalidfeed ht (fun _ => rfl) (absurd rfl)
    | passThrough =>
      exact BoundaryTemplate.complete_of_mapM hvalidthrough ht (fun _ => rfl) fun _ => rfl
    | passOut => exact BoundaryTemplate.complete_of_mapM hvalidout ht (absurd rfl) fun _ => rfl

/-- The fabric of a configuration has the boundary cells that the configuration describes. -/
theorem Fabric.boundary_isSome_of_config {config : Config} {names names' : Names} {f : Fabric}
    (hf : Fabric.ofConfig config names = (.ok f, names')) (hfeed : config.boundary.feedIn.isSome)
    (hthrough : config.boundary.passThrough.isSome) (hout : config.boundary.passOut.isSome) :
    ∀ role, role ≠ .normal → (f.boundary role).isSome := by
  intro role hrole
  obtain ⟨feedIn, hfeed⟩ := Option.isSome_iff_exists.mp hfeed
  obtain ⟨passThrough, hthrough⟩ := Option.isSome_iff_exists.mp hthrough
  obtain ⟨passOut, hout⟩ := Option.isSome_iff_exists.mp hout
  unfold Fabric.ofConfig at hf
  cases hchain : config.chain with
  | none =>
    rw [hchain] at hf
    cases hf
  | some chain =>
    rw [hchain, hfeed, hthrough, hout] at hf
    obtain rfl := Except.ok.inj (congrArg Prod.fst hf)
    cases role with
    | normal => exact absurd rfl hrole
    | feedIn => rfl
    | passThrough => rfl
    | passOut => rfl

theorem Fabric.provides_of_config {config : Config} {names names' : Names} {f : Fabric}
    (hvalid : config.validate = .ok ()) (hf : Fabric.ofConfig config names = (.ok f, names'))
    (hfeed : config.boundary.feedIn.isSome) (hthrough : config.boundary.passThrough.isSome)
    (hout : config.boundary.passOut.isSome) : ∀ role, role ≠ .normal → f.Provides role := by
  intro role hrole
  obtain ⟨t, ht⟩ := Option.isSome_iff_exists.mp
    (Fabric.boundary_isSome_of_config hf hfeed hthrough hout role hrole)
  exact ⟨t, ht, (Fabric.serviceable_of_config hvalid hf).complete role t ht⟩

theorem Fabric.complete_of_config {config : Config} {names names' : Names} {f : Fabric}
    (hvalid : config.validate = .ok ()) (hf : Fabric.ofConfig config names = (.ok f, names'))
    (hfeed : config.boundary.feedIn.isSome) (hthrough : config.boundary.passThrough.isSome)
    (hout : config.boundary.passOut.isSome)
    (hlimit : ∀ chain limit, config.chain = some chain → chain.maxChainLength = some limit →
      3 ≤ limit) : f.Complete := by
  have hserviceable := Fabric.serviceable_of_config hvalid hf
  refine ⟨hserviceable.declared, Fabric.provides_of_config hvalid hf hfeed hthrough hout,
    hserviceable.capacity, ?_, hserviceable.slots⟩
  unfold Fabric.ofConfig at hf
  cases hchain : config.chain with
  | none =>
    rw [hchain] at hf
    cases hf
  | some chain =>
    rw [hchain] at hf
    obtain rfl := Except.ok.inj (congrArg Prod.fst hf)
    show 3 ≤ chain.maxChainLength.getD Fabric.unlimited
    cases hstated : chain.maxChainLength with
    | none => decide
    | some limit => exact hlimit chain limit hchain hstated

end FpgaPacking
