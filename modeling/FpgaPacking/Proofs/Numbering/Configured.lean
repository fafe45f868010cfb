import FpgaPacking.Proofs.Numbering.Legalizing

/-!
# Options and fabrics of one configuration

A configuration is given in names.  Building options or a fabric from it enters the
names into a table.  Built from one configuration over two tables, the options are
alike under what the tables have in common afterwards, and so are the fabrics.
-/

namespace FpgaPacking

variable {R S T : Renaming} {α β α' β' γ : Type}

/-! ## Constructions that enter names -/

namespace Naming.Alike

variable {V : Renaming → α → β → Prop} {W : Renaming → α' → β' → Prop}

theorem pure {a : α} {b : β} (h : ∀ S, R ≤ S → V S a b) :
    Naming.Alike R V (Pure.pure a) (Pure.pure b) := fun _ _ hR => ⟨le_refl _, h _ hR⟩

theorem bind {x : Naming α} {y : Naming β} {f : α → Naming α'} {g : β → Naming β'}
    (hxy : Naming.Alike R V x y) (hfg : ∀ S, R ≤ S → ∀ a b, V S a b → Naming.Alike S W (f a) (g b)) :
    Naming.Alike R W (x >>= f) (y >>= g) := by
  intro names names' hR
  obtain ⟨hle, hV⟩ := hxy names names' hR
  obtain ⟨hle', hW⟩ := hfg _ (le_trans hR hle) _ _ hV (x names).2 (y names').2 (le_refl _)
  exact ⟨le_trans hle hle', hW⟩

/-- A list built item by item from the same items.  What is built early stays related. -/
theorem mapM {f g : γ → Naming α'} {V : Renaming → α' → α' → Prop}
    (hmono : ∀ S T a b, S ≤ T → V S a b → V T a b) (l : List γ)
    (hfg : ∀ S, R ≤ S → ∀ c, Naming.Alike S V (f c) (g c)) :
    Naming.Alike R (fun S => List.Forall₂ (V S)) (l.mapM f) (l.mapM g) := by
  induction l generalizing R with
  | nil => exact .pure fun _ _ => .nil
  | cons c l ih =>
    rw [List.mapM_cons, List.mapM_cons]
    refine (hfg R (le_refl R) c).bind fun S hRS a b hab => ?_
    refine (ih fun T hST => hfg T (le_trans hRS hST)).bind fun T hST as bs habs => ?_
    refine .pure fun U hTU => .cons (hmono S U a b (le_trans hST hTU) hab) ?_
    exact habs.imp fun a b => hmono T U a b hTU

theorem mapM_option {f g : γ → Naming α'} {V : Renaming → α' → α' → Prop}
    (hmono : ∀ S T a b, S ≤ T → V S a b → V T a b) (o : Option γ)
    (hfg : ∀ S, R ≤ S → ∀ c, Naming.Alike S V (f c) (g c)) :
    Naming.Alike R (fun S => Option.Rel (V S)) (o.mapM f) (o.mapM g) := by
  cases o with
  | none => exact .pure fun _ _ => .none
  | some c =>
    show Naming.Alike R _ (f c >>= fun a => Pure.pure (some a)) (g c >>= fun b => Pure.pure (some b))
    refine (hfg R (le_refl R) c).bind fun S _ a b hab => ?_
    exact .pure fun T hST => .some (hmono S T a b hST hab)

end Naming.Alike

theorem alike_namingAll (names : List String) :
    Naming.Alike R (fun S => List.Forall₂ S.Holds) (names.mapM naming) (names.mapM naming) :=
  .mapM (fun _ _ i j hST hij => hST i j hij) names fun _ _ name => Naming.alike_naming name

theorem alike_namingOption (name : Option String) :
    Naming.Alike R (fun S => Option.Rel S.Holds) (name.mapM naming) (name.mapM naming) :=
  .mapM_option (fun _ _ i j hST hij => hST i j hij) name fun _ _ name => Naming.alike_naming name

/-! ## Options -/

theorem alike_lutEntry (entry : String × Config.LutShape) :
    let named : Naming (Ident × LutShape) := do
      let param ← naming entry.2.param
      let inputs ← entry.2.inputs.mapM naming
      let cellType ← naming entry.1
      return (cellType, ⟨param, inputs⟩)
    Naming.Alike R (fun S e e' => S e.1 e'.1 ∧ e.2.Alike S e'.2) named named := by
  refine (Naming.alike_naming _).bind fun S _ param param' hparam => ?_
  refine (alike_namingAll _).bind fun T hST inputs inputs' hinputs => ?_
  refine (Naming.alike_naming _).bind fun U hTU cellType cellType' htype => ?_
  exact .pure fun _ h =>
    ⟨h _ _ htype, h _ _ (hTU _ _ (hST _ _ hparam)), hinputs.imp (le_trans hTU h)⟩

theorem NormalizeOptions.alike_ofConfig (config : Config) :
    Naming.Alike R NormalizeOptions.Alike (ofConfig config) (ofConfig config) := by
  refine (Naming.Alike.mapM ?_ config.lut.entries fun S _ entry => alike_lutEntry entry).bind
    fun S _ shapes shapes' hshapes => ?_
  · exact fun _ _ _ _ hST h => ⟨hST _ _ h.1, h.2.mono hST⟩
  refine (alike_namingAll _).bind fun S₁ h₁ keep keep' hkeep => ?_
  refine (alike_namingAll _).bind fun S₂ h₂ gnd gnd' hgnd => ?_
  refine (alike_namingAll _).bind fun S₃ h₃ vcc vcc' hvcc => ?_
  refine .pure fun T hT => ?_
  have h₂T : S₂ ≤ T := le_trans h₃ hT
  have h₁T : S₁ ≤ T := le_trans h₂ h₂T
  exact {
    lutShapes := (Table.Alike.ofList hshapes).mono (le_trans h₁ h₁T) fun _ _ h =>
      h.mono (le_trans h₁ h₁T)
    keepTypes := hkeep.imp h₁T
    gndDriverTypes := hgnd.imp h₂T
    vccDriverTypes := hvcc.imp hT }

/-! ## Fabrics -/

theorem forall₂_toList {V : α → β → Prop} {o : Option α} {o' : Option β} (h : Option.Rel V o o') :
    List.Forall₂ V o.toList o'.toList := by
  cases h with
  | none => exact .nil
  | some h => exact .cons h .nil

theorem alike_paramTable (table : Table String Config.Param) :
    Naming.Alike R (fun S t t' => t.Alike S Eq t') (Config.paramTable table)
      (Config.paramTable table) := by
  have hentry : ∀ (S : Renaming) (entry : String × Config.Param),
      let named : Naming (Ident × ParamValue) := do
        let ident ← naming entry.1
        return (ident, ← Pure.pure entry.2.value)
      Naming.Alike S (fun S e e' => S e.1 e'.1 ∧ e.2 = e'.2) named named := fun S entry =>
    (Naming.alike_naming _).bind fun _ _ i i' hi => .pure fun _ h => ⟨h _ _ hi, rfl⟩
  refine (Naming.Alike.mapM ?_ table.entries fun S _ entry => hentry S entry).bind
    fun S _ entries entries' hentries => ?_
  · exact fun _ _ _ _ hST h => ⟨hST _ _ h.1, h.2⟩
  · exact .pure fun T hST => (Table.Alike.ofList hentries).mono hST fun _ _ => id

theorem BoundaryTemplate.alike_ofConfig (b : Config.BoundaryCell) :
    Naming.Alike R BoundaryTemplate.Alike (ofConfig b) (ofConfig b) := by
  refine (Naming.alike_naming _).bind fun S₁ _ input input' hinput => ?_
  refine (alike_namingOption _).bind fun S₂ h₂ chainOutput chainOutput' hchain => ?_
  refine (alike_namingOption _).bind fun S₃ h₃ fabricOutput fabricOutput' hfabric => ?_
  refine (Naming.alike_naming _).bind fun S₄ h₄ cellType cellType' htype => ?_
  refine (alike_paramTable _).bind fun S₅ h₅ params params' hparams => ?_
  refine .pure fun T hT => ?_
  have h₄T : S₄ ≤ T := le_trans h₅ hT
  have h₃T : S₃ ≤ T := le_trans h₄ h₄T
  have h₂T : S₂ ≤ T := le_trans h₃ h₃T
  have hinput : T input input' := h₂T _ _ (h₂ _ _ hinput)
  have hchain : Option.Rel T.Holds chainOutput chainOutput' := option_rel_imp h₂T hchain
  have hfabric : Option.Rel T.Holds fabricOutput fabricOutput' := option_rel_imp h₃T hfabric
  have houtputs : List.Forall₂ (fun p p' : Ident × Direction => T p.1 p'.1 ∧ p'.2 = p.2)
      ((chainOutput.toList ++ fabricOutput.toList).map fun p => (p, .output))
      ((chainOutput'.toList ++ fabricOutput'.toList).map fun p => (p, .output)) := by
    rw [List.forall₂_map_left_iff, List.forall₂_map_right_iff]
    exact (List.rel_append (forall₂_toList hchain) (forall₂_toList hfabric)).imp fun _ _ h => ⟨h, rfl⟩
  refine ⟨⟨h₄T _ _ htype, ?_, hparams.mono hT fun _ _ => id⟩, hinput, hchain, hfabric⟩
  exact .cons ⟨hinput, rfl⟩ houtputs

theorem alike_boundaryOption (b : Option Config.BoundaryCell) :
    Naming.Alike R (fun S => Option.Rel (BoundaryTemplate.Alike S)) (b.mapM BoundaryTemplate.ofConfig)
      (b.mapM BoundaryTemplate.ofConfig) :=
  .mapM_option (fun _ _ _ _ hST h => h.mono hST) b fun _ _ b => BoundaryTemplate.alike_ofConfig b

/-- The fabrics are alike, or there is the same error. -/
theorem Fabric.alike_ofConfig (config : Config) :
    Naming.Alike R (fun S => Agree (Fabric.Alike S)) (ofConfig config) (ofConfig config) := by
  unfold ofConfig
  cases config.chain with
  | none => exact .pure fun _ _ => .error _
  | some chain =>
    refine (Naming.alike_naming _).bind fun S₁ _ chainIn chainIn' hin => ?_
    refine (Naming.alike_naming _).bind fun S₂ h₂ chainOut chainOut' hout => ?_
    refine (alike_namingAll _).bind fun S₃ h₃ cellTypes cellTypes' htypes => ?_
    refine (alike_namingAll _).bind fun S₄ h₄ compatPorts compatPorts' hports => ?_
    refine (alike_boundaryOption _).bind fun S₅ h₅ feedIn feedIn' hfeedIn => ?_
    refine (alike_boundaryOption _).bind fun S₆ h₆ passThrough passThrough' hpassThrough => ?_
    refine (alike_boundaryOption _).bind fun S₇ h₇ passOut passOut' hpassOut => ?_
    refine .pure fun T hT => .ok ?_
    have h₆T : S₆ ≤ T := le_trans h₇ hT
    have h₅T : S₅ ≤ T := le_trans h₆ h₆T
    have h₄T : S₄ ≤ T := le_trans h₅ h₅T
    have h₃T : S₃ ≤ T := le_trans h₄ h₄T
    have h₂T : S₂ ≤ T := le_trans h₃ h₃T
    exact {
      family := rfl
      chainIn := h₂T _ _ (h₂ _ _ hin)
      chainOut := h₂T _ _ hout
      cellTypes := htypes.imp h₃T
      tileCapacity := rfl
      maxChainLength := rfl
      minLength := rfl
      slotsPerTile := rfl
      compatPorts := hports.imp h₄T
      feedIn := option_rel_imp (fun _ _ => BoundaryTemplate.Alike.mono h₅T) hfeedIn
      passThrough := option_rel_imp (fun _ _ => BoundaryTemplate.Alike.mono h₆T) hpassThrough
      passOut := option_rel_imp (fun _ _ => BoundaryTemplate.Alike.mono hT) hpassOut }

end FpgaPacking
