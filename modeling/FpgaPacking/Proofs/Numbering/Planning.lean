import FpgaPacking.Pack
import FpgaPacking.Proofs.Numbering.Normalize

/-!
# Chains and plans do not depend on numbering

Discovery and planning read the netlist and return handles, steps and
diagnostics, but no identifiers.  With fabrics and netlists that differ in
numbering only, they return the same.
-/

namespace FpgaPacking

variable {R S : Renaming} {i i' : Ident}

/-! ## Templates and fabrics -/

/-- Cell templates that differ in numbering only. -/
structure CellTemplate.Alike (R : Renaming) (t t' : CellTemplate) : Prop where
  cellType : R t.cellType t'.cellType
  ports : List.Forall₂ (fun p p' => R p.1 p'.1 ∧ p'.2 = p.2) t.ports t'.ports
  params : t.params.Alike R Eq t'.params

theorem CellTemplate.Alike.mono (hRS : R ≤ S) {t t' : CellTemplate} (h : t.Alike R t') :
    t.Alike S t' where
  cellType := hRS _ _ h.cellType
  ports := h.ports.imp fun _ _ hp => ⟨hRS _ _ hp.1, hp.2⟩
  params := h.params.mono hRS fun _ _ => id

/-- Boundary templates that differ in numbering only. -/
structure BoundaryTemplate.Alike (R : Renaming) (t t' : BoundaryTemplate) : Prop where
  cell : t.cell.Alike R t'.cell
  input : R t.input t'.input
  chainOutput : Option.Rel R.Holds t.chainOutput t'.chainOutput
  fabricOutput : Option.Rel R.Holds t.fabricOutput t'.fabricOutput

theorem BoundaryTemplate.Alike.mono (hRS : R ≤ S) {t t' : BoundaryTemplate} (h : t.Alike R t') :
    t.Alike S t' where
  cell := h.cell.mono hRS
  input := hRS _ _ h.input
  chainOutput := option_rel_imp hRS h.chainOutput
  fabricOutput := option_rel_imp hRS h.fabricOutput

/-- Fabrics that differ in numbering only. -/
structure Fabric.Alike (R : Renaming) (f f' : Fabric) : Prop where
  family : f'.family = f.family
  chainIn : R f.chainIn f'.chainIn
  chainOut : R f.chainOut f'.chainOut
  cellTypes : List.Forall₂ R.Holds f.cellTypes f'.cellTypes
  tileCapacity : f'.tileCapacity = f.tileCapacity
  maxChainLength : f'.maxChainLength = f.maxChainLength
  minLength : f'.minLength = f.minLength
  slotsPerTile : f'.slotsPerTile = f.slotsPerTile
  compatPorts : List.Forall₂ R.Holds f.compatPorts f'.compatPorts
  feedIn : Option.Rel (BoundaryTemplate.Alike R) f.feedIn f'.feedIn
  passThrough : Option.Rel (BoundaryTemplate.Alike R) f.passThrough f'.passThrough
  passOut : Option.Rel (BoundaryTemplate.Alike R) f.passOut f'.passOut

namespace Fabric.Alike

variable {f f' : Fabric} {nl nl' : Netlist} {c c' : Cell}

theorem mono (hRS : R ≤ S) (h : f.Alike R f') : f.Alike S f' :=
  { h with
    chainIn := hRS _ _ h.chainIn
    chainOut := hRS _ _ h.chainOut
    cellTypes := h.cellTypes.imp hRS
    compatPorts := h.compatPorts.imp hRS
    feedIn := option_rel_imp (fun _ _ => BoundaryTemplate.Alike.mono hRS) h.feedIn
    passThrough := option_rel_imp (fun _ _ => BoundaryTemplate.Alike.mono hRS) h.passThrough
    passOut := option_rel_imp (fun _ _ => BoundaryTemplate.Alike.mono hRS) h.passOut }

theorem boundary (h : f.Alike R f') (role : Role) :
    Option.Rel (BoundaryTemplate.Alike R) (f.boundary role) (f'.boundary role) := by
  cases role with
  | normal => exact .none
  | feedIn => exact h.feedIn
  | passThrough => exact h.passThrough
  | passOut => exact h.passOut

theorem isChainCell (h : f.Alike R f') (hc : c.Alike R c') :
    f'.isChainCell c' = f.isChainCell c := by
  have htypes : f'.cellTypes.contains c'.cellType = f.cellTypes.contains c.cellType := by
    rw [Bool.eq_iff_iff, List.contains_iff_mem, List.contains_iff_mem]
    exact mem_iff_of_forall₂ h.cellTypes hc.cellType
  unfold Fabric.isChainCell
  rw [hc.role, htypes]

theorem isEligible (h : f.Alike R f') (hc : c.Alike R c') :
    Pack.isEligible f' c' = Pack.isEligible f c := by
  unfold Pack.isEligible
  rw [h.isChainCell hc, hc.isClustered]

theorem compatible (h : f.Alike R f') (hnl : nl.Alike R nl') (cells : List CellId) :
    f'.compatible nl' cells = f.compatible nl cells := by
  cases cells with
  | nil => rfl
  | cons first rest =>
    have hports := h.compatPorts
    unfold Fabric.compatible
    generalize f.compatPorts = ports, f'.compatPorts = ports' at hports ⊢
    induction hports with
    | nil => rfl
    | @cons port port' _ _ hport _ ih =>
      have hnets : ∀ id, nl'.netOf id port' = nl.netOf id port := fun id => hnl.netOf id hport
      simp only [List.all_cons, hnets]
      exact congrArg _ ih

end Fabric.Alike

namespace Chain

variable {f f' : Fabric} {nl nl' : Netlist} (hf : f.Alike R f') (hnl : nl.Alike R nl')

/-! ## Discovery -/

include hnl

theorem candidates_of_alike {p p' : Cell → Bool} (hp : ∀ c c', c.Alike R c' → p' c' = p c) :
    candidates nl' p' = candidates nl p := by
  have hentries := hnl.cells.entries
  unfold candidates
  generalize nl.cells.entries = entries, nl'.cells.entries = entries' at hentries ⊢
  induction hentries with
  | nil => rfl
  | cons he _ ih =>
    rw [List.filter_cons, List.filter_cons, hp _ _ he.2]
    split
    · rw [List.map_cons, List.map_cons, he.1, ih]
    · exact ih

theorem foundNote_of_alike (chain : List CellId) : foundNote nl' chain = foundNote nl chain := by
  have hhead : Agree (Option.Rel (Cell.Alike R)) (chain.head?.mapM nl.cell)
      (chain.head?.mapM nl'.cell) := by
    cases chain with
    | nil => exact .ok .none
    | cons head rest =>
      show Agree _ (some <$> nl.cell head) (some <$> nl'.cell head)
      match nl.cell head, nl'.cell head, hnl.cell head with
      | _, _, .ok hc => exact .ok (.some hc)
      | _, _, .error e => exact .error e
  unfold foundNote
  refine hhead.bind_eq fun head head' hhead => ?_
  cases hhead with
  | none => rfl
  | some hc =>
    dsimp only [Option.map_some]
    rw [hc.name]

include hf

theorem navigation_of_alike : Pack.navigation f' nl' = Pack.navigation f nl := by
  have hp : ∀ c c', c.Alike R c' → Pack.isEligible f' c' = Pack.isEligible f c :=
    fun _ _ => hf.isEligible
  have hdriven : ∀ k, nl'.drivenBy k (Pack.isEligible f') f'.chainOut =
      nl.drivenBy k (Pack.isEligible f) f.chainOut := fun k => hnl.drivenBy hp k hf.chainOut
  have hread : ∀ k, nl'.firstReader k (Pack.isEligible f') f'.chainIn =
      nl.firstReader k (Pack.isEligible f) f.chainIn := fun k => hnl.firstReader hp k hf.chainIn
  have hin : ∀ id, nl'.netOf id f'.chainIn = nl.netOf id f.chainIn :=
    fun id => hnl.netOf id hf.chainIn
  have hout : ∀ id, nl'.netOf id f'.chainOut = nl.netOf id f.chainOut :=
    fun id => hnl.netOf id hf.chainOut
  unfold Pack.navigation carryNavigation
  simp only [hdriven, hread, hin, hout]

theorem find_of_alike :
    find nl' (Pack.isEligible f') (Pack.navigation f' nl') f'.minLength =
      find nl (Pack.isEligible f) (Pack.navigation f nl) f.minLength := by
  unfold find
  rw [hnl.cellIds, candidates_of_alike hnl fun _ _ => hf.isEligible, navigation_of_alike hf hnl,
    hf.minLength]

/-! ## Links -/

theorem checkLink_of_alike (first second : CellId) :
    checkLink nl' f' first second = checkLink nl f first second := by
  unfold checkLink
  rw [hnl.netOf first hf.chainOut, hnl.netOf second hf.chainIn]
  dsimp only
  split
  · rfl
  · refine ((hnl.cell first).mapError Failure.fault).bind_eq fun a a' ha => ?_
    refine ((hnl.cell second).mapError Failure.fault).bind_eq fun b b' hb => ?_
    rw [ha.name, hb.name]

theorem checkLinks_of_alike (chain : List CellId) :
    checkLinks nl' f' chain = checkLinks nl f chain := by
  induction chain with
  | nil => rfl
  | cons first rest ih =>
    cases rest with
    | nil => rfl
    | cons second rest =>
      unfold checkLinks
      rw [checkLink_of_alike hf hnl, ih]

/-! ## Plans -/

theorem outputUsed_of_alike (id : CellId) : outputUsed nl' f' id = outputUsed nl f id := by
  unfold outputUsed
  rw [hnl.netOf id hf.chainOut]
  cases nl.netOf id f.chainOut with
  | none => rfl
  | some k =>
    refine (hnl.net k).bind_eq fun n n' hn => ?_
    rw [hn.isEmpty_sinks]

theorem fansOut_of_alike (prev next : CellId) :
    fansOut nl' f' prev next = fansOut nl f prev next := by
  have hlink : PortRef.Alike R ⟨next, f.chainIn⟩ ⟨next, f'.chainIn⟩ := ⟨rfl, hf.chainIn⟩
  unfold fansOut
  rw [hnl.netOf prev hf.chainOut]
  cases nl.netOf prev f.chainOut with
  | none => rfl
  | some k =>
    refine (hnl.net k).bind_eq fun n n' hn => congrArg Except.ok ?_
    refine any_eq_of_forall₂ (fun s s' hs => ?_) hn.sinks
    simp only [ne_eq, hs.eq_iff hlink]

theorem needsFeedIn_of_alike (id : CellId) : needsFeedIn nl' f' id = needsFeedIn nl f id := by
  unfold needsFeedIn
  rw [hnl.netOf id hf.chainIn]
  cases nl.netOf id f.chainIn with
  | none => rfl
  | some k =>
    refine (hnl.net k).bind_eq fun n n' hn => ?_
    rw [hn.constant, hn.isSome_driver]
    split
    · rfl
    · split
      · rfl
      · refine (hnl.cell id).bind_eq fun c c' hc => ?_
        unfold undrivenWarning
        rw [hc.name, hn.name]

theorem boundaryBefore_of_alike (segment : OpenSegment) (id : CellId) :
    boundaryBefore nl' f' segment id = boundaryBefore nl f segment id := by
  unfold boundaryBefore
  simp only [needsFeedIn_of_alike hf hnl, fansOut_of_alike hf hnl]

theorem extend_of_alike (segment : OpenSegment) (id : CellId) :
    extend nl' f' segment id = extend nl f segment id := by
  unfold extend
  simp only [boundaryBefore_of_alike hf hnl, outputUsed_of_alike hf hnl, hf.compatible hnl,
    hf.tileCapacity, hf.maxChainLength]

theorem finish_of_alike (segment : OpenSegment) : finish nl' f' segment = finish nl f segment := by
  unfold finish
  simp only [outputUsed_of_alike hf hnl]

theorem tooLong_of_alike (id : CellId) : tooLong nl' f' id = tooLong nl f id := by
  unfold tooLong
  rw [hf.tileCapacity, hf.maxChainLength]
  match nl.cell id, nl'.cell id, hnl.cell id with
  | _, _, .ok hc =>
    dsimp only
    rw [hc.name]
  | _, _, .error _ => rfl

/-- Whether a segment is extended, and where it is cut, is the same under all numberings. -/
theorem scan_of_alike (segment : OpenSegment) (chain : List CellId) :
    scan nl' f' segment chain = scan nl f segment chain := by
  induction chain generalizing segment with
  | nil => simp only [scan, finish_of_alike hf hnl]
  | cons id rest ih =>
    simp only [scan, extend_of_alike hf hnl, tooLong_of_alike hf hnl, ih]

theorem plan_of_alike (chain : List CellId) : plan nl' f' chain = plan nl f chain :=
  scan_of_alike hf hnl .none chain

end Chain
end FpgaPacking
