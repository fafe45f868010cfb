import FpgaPacking.Proofs.Normalize.Refines

/-!
# Steps of normalization

Normalization moves a port from a tied net to the constant net of the same value,
disconnects ports, replaces tables, and removes nets and cells that nothing is
connected to.  Each of these steps is described by its effect on the views, and
each of them refines the netlist.
-/

namespace FpgaPacking
namespace Normalize

open Netlist LogicVec

variable {options : NormalizeOptions} {gone : List CellId} {nl nl' : Netlist} {r : PortRef}
  {k : NetId} {v : ConstValue} {id : CellId}

theorem selectedValue_eq (high : NetId → Bool) : selectedValue options high nl id =
    (nl.bare id).bind fun c => (options.lutShapes.find? c.cellType).bind fun shape =>
      readTable shape c.params (binaryNumber (shape.inputs.map fun port =>
        (nl.wire ⟨id, port⟩).any high)) := by
  show (nl.cell? id).bind _ = ((nl.cell? id).map Cell.unwired).bind _
  cases nl.cell? id with
  | none => rfl
  | some c => rfl

/-- A cell selects the same value when each of its inputs reads the same. -/
theorem selectedValue_congr {high : NetId → Bool} (hbare : nl'.bare id = nl.bare id)
    (hwire : ∀ c shape, nl.bare id = some c → options.lutShapes.find? c.cellType = some shape →
      ∀ port ∈ shape.inputs, (nl'.wire ⟨id, port⟩).any high = (nl.wire ⟨id, port⟩).any high) :
    selectedValue options high nl' id = selectedValue options high nl id := by
  rw [selectedValue_eq, selectedValue_eq, hbare]
  cases hc : nl.bare id with
  | none => rfl
  | some c =>
    show (options.lutShapes.find? c.cellType).bind _ = (options.lutShapes.find? c.cellType).bind _
    cases hshape : options.lutShapes.find? c.cellType with
    | none => rfl
    | some shape =>
      show readTable _ _ _ = readTable _ _ _
      rw [List.map_congr_left fun port hport => hwire c shape hc hshape port hport]

namespace Refines

/-- A step that leaves cells and wires alone. -/
theorem of_same_wires (hw : nl.WellFormed) (hw' : nl'.WellFormed) (hwire : nl'.wire = nl.wire)
    (hbare : nl'.bare = nl.bare) (hgrows : nl.nextNet.index ≤ nl'.nextNet.index)
    (hconstants : ∀ k v, nl.constValue k = some v → nl'.constValue k = some v)
    (htags : ∀ k t, nl'.tag k = some t → nl.tag k = some t ∨ nl.nextNet.index ≤ k.index) :
    Refines options [] nl nl' where
  wellFormed := hw'
  cells id c hc := ⟨c, hbare ▸ hc, .refl c⟩
  live id _ hlive := hbare ▸ hlive
  constants := hconstants
  tags := htags
  grows := hgrows
  wires r k hr := Or.inl (hwire ▸ hr)
  drivers r q k _ _ hq _ := hwire ▸ hq
  unconnected r _ _ hr := hwire ▸ hr
  untied r k _ _ hr _ := hwire ▸ hr
  tied r k v _ _ hr ht := by
    refine Or.inl ⟨k, hwire ▸ hr, (tied_iff hw').mpr ?_⟩
    rcases (tied_iff hw).mp ht with hv | ⟨q, c, hq, hd, hc, hv⟩
    · exact Or.inl (hconstants k v hv)
    · refine Or.inr ⟨q, c, hwire ▸ hq, ?_, hbare ▸ hc, hv⟩
      rw [dir_congr (congrFun hbare _)]
      exact hd
  values id c _ _ _ high _ _ := selectedValue_congr (congrFun hbare id) fun _ _ _ _ port _ => by
    rw [hwire]

/-- A step that changes the bookkeeping only. -/
theorem of_same_tags (hw : nl.WellFormed) (hw' : nl'.WellFormed) (hwire : nl'.wire = nl.wire)
    (hbare : nl'.bare = nl.bare) (htag : nl'.tag = nl.tag) (hnext : nl'.nextNet = nl.nextNet) :
    Refines options [] nl nl' := by
  refine .of_same_wires hw hw' hwire hbare (hnext ▸ Nat.le_refl _) ?_ fun k t ht => Or.inl (htag ▸ ht)
  intro k v hv
  rw [constValue_eq, htag, ← constValue_eq]
  exact hv

/-- Removing a net that no port is on, unless it is constant. -/
theorem of_removedNet (hw : nl.WellFormed) (hw' : nl'.WellFormed) (hwire : nl'.wire = nl.wire)
    (hbare : nl'.bare = nl.bare) (hnext : nl'.nextNet = nl.nextNet)
    (htag : nl'.tag = Function.update nl.tag k none) (hk : nl.constValue k = none) :
    Refines options [] nl nl' := by
  refine .of_same_wires hw hw' hwire hbare (hnext ▸ Nat.le_refl _) ?_ ?_
  · intro k' v hv
    have hne : k' ≠ k := by
      rintro rfl
      rw [hk] at hv
      cases hv
    rw [constValue_eq, htag, Function.update_of_ne hne, ← constValue_eq]
    exact hv
  · intro k' t ht
    rw [htag] at ht
    by_cases hne : k' = k
    · rw [hne, Function.update_self] at ht
      cases ht
    · rw [Function.update_of_ne hne] at ht
      exact Or.inl ht

/-- Directions are those of the cells, whatever their tables. -/
theorem dir_of_cells
    (hcells : ∀ id c', nl'.bare id = some c' → ∃ c, nl.bare id = some c ∧ SameButTable options c c')
    (hlive : ∀ id, (nl.bare id).isSome → (nl'.bare id).isSome) (q : PortRef) :
    nl'.dir q = nl.dir q := by
  cases hb : nl'.bare q.cell with
  | none =>
    have hnone : nl.bare q.cell = none := by
      cases hb₀ : nl.bare q.cell with
      | none => rfl
      | some c =>
        have hsome := hlive q.cell (by simp [hb₀])
        rw [hb] at hsome
        cases hsome
    rw [dir_eq_none_of_bare hb, dir_eq_none_of_bare hnone]
  | some c' =>
    obtain ⟨c, hc, hsame⟩ := hcells q.cell c' hb
    exact hsame.dir hc hb

/-- Taking a driver off a net that is not read leaves the drivers of all nets that are read. -/
theorem drivers_of_update {onNet : Option NetId} (hwire : nl'.wire = Function.update nl.wire r onNet)
    (hdir : ∀ q, nl'.dir q = nl.dir q)
    (hdriver : nl.dir r = some .output → ∀ k q, nl.wire r = some k → nl.wire q = some k →
      nl.dir q = some .output)
    {p q : PortRef} (hp : nl'.wire p = some k) (hdp : nl'.dir p ≠ some .output)
    (hq : nl.wire q = some k) (hdq : nl.dir q = some .output) : nl'.wire q = some k := by
  rw [hdir] at hdp
  rw [hwire]
  by_cases hqr : q = r
  · subst hqr
    by_cases hpq : p = q
    · exact absurd (hpq ▸ hdq) hdp
    · rw [hwire, Function.update_of_ne hpq] at hp
      exact absurd (hdriver hdq k p hq hp) hdp
  · rw [Function.update_of_ne hqr]
    exact hq

/-- A step that changes one wire and perhaps a table.  A driver may be taken off
a net that is not read.  A reader that is not to be removed comes from a tied net,
and it goes to the constant net of the same value or, if it is the input of a
table, to none.  That tables still give the same values is for the caller to say. -/
theorem of_wire (hw : nl.WellFormed) (hw' : nl'.WellFormed) {onNet : Option NetId}
    (hwire : nl'.wire = Function.update nl.wire r onNet)
    (hcells : ∀ id c', nl'.bare id = some c' → ∃ c, nl.bare id = some c ∧ SameButTable options c c')
    (hlive : ∀ id, (nl.bare id).isSome → (nl'.bare id).isSome)
    (htag : nl'.tag = nl.tag) (hnext : nl'.nextNet = nl.nextNet)
    (hto : ∀ k, onNet = some k → (nl.constValue k).isSome)
    (hdriver : nl.dir r = some .output → ∀ k q, nl.wire r = some k → nl.wire q = some k →
      nl.dir q = some .output)
    (hreader : r.cell ∉ gone → nl.dir r ≠ some .output → ∃ k v, nl.wire r = some k ∧
      Tied options nl k v ∧ ((∃ k', onNet = some k' ∧ nl.constValue k' = some v) ∨
        onNet = none ∧ Foldable options nl r))
    (hvalues : ∀ id c, id ∉ gone → nl.bare id = some c → InputsRead options nl id c → ∀ high,
      Consistent options nl high →
        selectedValue options high nl' id = selectedValue options high nl id) :
    Refines options gone nl nl' := by
  have hconst : ∀ k, nl'.constValue k = nl.constValue k := fun k => by
    rw [constValue_eq, constValue_eq, htag]
  have hdir : ∀ q : PortRef, nl'.dir q = nl.dir q := dir_of_cells hcells hlive
  have hself : nl'.wire r = onNet := by rw [hwire, Function.update_self]
  have hother : ∀ q, q ≠ r → nl'.wire q = nl.wire q := fun q hq => by
    rw [hwire, Function.update_of_ne hq]
  have hdrivers : ∀ p q k, nl'.wire p = some k → nl'.dir p ≠ some .output → nl.wire q = some k →
      nl.dir q = some .output → nl'.wire q = some k := fun _ _ _ =>
    drivers_of_update hwire hdir hdriver
  refine
    { wellFormed := hw'
      cells := hcells
      live := fun id _ h => hlive id h
      constants := fun k v hv => (hconst k).trans hv
      tags := fun k t ht => Or.inl (htag ▸ ht)
      grows := hnext ▸ Nat.le_refl _
      wires := fun q k hq => ?_
      drivers := hdrivers
      unconnected := fun q hgone hd hq => ?_
      untied := fun q k hgone hd hq hfree => ?_
      tied := fun q k v hgone hd hq ht => ?_
      values := fun id c hgone hc hinputs high hbefore _ =>
        hvalues id c hgone hc hinputs high hbefore }
  · by_cases hqr : q = r
    · subst hqr
      rw [hconst]
      exact Or.inr (hto k (hself.symm.trans hq))
    · rw [hother q hqr] at hq
      exact Or.inl hq
  · by_cases hqr : q = r
    · subst hqr
      obtain ⟨k, v, hk, -⟩ := hreader hgone hd
      rw [hk] at hq
      cases hq
    · rw [hother q hqr]
      exact hq
  · by_cases hqr : q = r
    · subst hqr
      obtain ⟨k₀, v, hk, ht, -⟩ := hreader hgone hd
      obtain rfl := Option.some.inj (hq.symm.trans hk)
      exact absurd ht (hfree v)
    · rw [hother q hqr]
      exact hq
  · by_cases hqr : q = r
    · subst hqr
      obtain ⟨k₀, v₀, hk, ht₀, hmoved⟩ := hreader hgone hd
      obtain rfl := Option.some.inj (hq.symm.trans hk)
      obtain rfl := ht.unique hw ht₀
      rcases hmoved with ⟨k', hto', hv⟩ | ⟨hnone, hfold⟩
      · exact Or.inl ⟨k', hself.trans hto', Or.inl ((hconst k').trans hv)⟩
      · exact Or.inr ⟨hself.trans hnone, hfold⟩
    · have hq' : nl'.wire q = some k := (hother q hqr).trans hq
      refine Or.inl ⟨k, hq', (tied_iff hw').mpr ?_⟩
      rcases (tied_iff hw).mp ht with hv | ⟨p, c, hp, hdp, hc, hv⟩
      · exact Or.inl ((hconst k).trans hv)
      · have hp' := hdrivers q p k hq' (by rw [hdir]; exact hd) hp hdp
        obtain ⟨c', hc'⟩ := Option.isSome_iff_exists.mp (bare_isSome_of_wire hp')
        obtain ⟨d, hd', params, rfl, -⟩ := hcells p.cell c' hc'
        obtain rfl := Option.some.inj (hc.symm.trans hd')
        exact Or.inr ⟨p, _, hp', (hdir p).trans hdp, hc', hv⟩

/-- A step that changes one wire and nothing else. -/
theorem of_update (hw : nl.WellFormed) (hw' : nl'.WellFormed) {onNet : Option NetId}
    (hwire : nl'.wire = Function.update nl.wire r onNet) (hbare : nl'.bare = nl.bare)
    (htag : nl'.tag = nl.tag) (hnext : nl'.nextNet = nl.nextNet)
    (hto : ∀ k, onNet = some k → (nl.constValue k).isSome)
    (hdriver : nl.dir r = some .output → ∀ k q, nl.wire r = some k → nl.wire q = some k →
      nl.dir q = some .output)
    (hreader : r.cell ∉ gone → nl.dir r ≠ some .output → ∃ k v k', nl.wire r = some k ∧
      Tied options nl k v ∧ onNet = some k' ∧ nl.constValue k' = some v) :
    Refines options gone nl nl' := by
  refine .of_wire hw hw' hwire (fun id c hc => ⟨c, hbare ▸ hc, .refl c⟩) (fun id h => hbare ▸ h)
    htag hnext hto hdriver ?_ ?_
  · intro hgone hd
    obtain ⟨k, v, k', hk, ht, hto', hv⟩ := hreader hgone hd
    exact ⟨k, v, hk, ht, Or.inl ⟨k', hto', hv⟩⟩
  · intro id c hgone hc hinputs high hbefore
    refine selectedValue_congr (congrFun hbare id) fun d shape hd hshape port hport => ?_
    obtain rfl := Option.some.inj (hc.symm.trans hd)
    by_cases hqr : (⟨id, port⟩ : PortRef) = r
    · subst hqr
      obtain ⟨k, v, k', hk, ht, hto', hv⟩ := hreader hgone (hinputs shape hshape port hport)
      rw [hwire, Function.update_self, hto', hk]
      show high k' = high k
      rw [hbefore k v ht, hbefore k' v (Or.inl hv)]
    · rw [hwire, Function.update_of_ne hqr]

/-- Folding an input that is on a constant net. -/
theorem of_fold (hw : nl.WellFormed) (hw' : nl'.WellFormed) {c : Cell} {shape : LutShape}
    {port : Ident} {params : Table Ident ParamValue}
    (hwire : nl'.wire = Function.update nl.wire ⟨id, port⟩ none)
    (hbare : nl'.bare = Function.update nl.bare id (some { c with params }))
    (htag : nl'.tag = nl.tag) (hnext : nl'.nextNet = nl.nextNet) (hc : nl.bare id = some c)
    (hshape : options.lutShapes.find? c.cellType = some shape) (hport : port ∈ shape.inputs)
    (hd : nl.dir ⟨id, port⟩ = some .input) (hk : nl.wire ⟨id, port⟩ = some k)
    (hv : nl.constValue k = some v)
    (hparams : ∀ name, name ≠ shape.param → params.find? name = c.params.find? name)
    (hvalue : ∀ high, high k = v.toBool →
      readTable shape params (selectedRow high nl' id shape) =
        readTable shape c.params (selectedRow high nl id shape)) :
    Refines options gone nl nl' := by
  have hsame : SameButTable options c { c with params } :=
    ⟨params, rfl, fun name hname => hparams name (hname shape hshape)⟩
  have hother : ∀ other, other ≠ id → nl'.bare other = nl.bare other := fun other ho => by
    rw [hbare, Function.update_of_ne ho]
  have hself : nl'.bare id = some { c with params } := by rw [hbare, Function.update_self]
  refine .of_wire hw hw' hwire ?_ ?_ htag hnext nofun ?_ ?_ ?_
  · intro other c' hc'
    by_cases ho : other = id
    · subst ho
      obtain rfl := Option.some.inj (hself.symm.trans hc')
      exact ⟨c, hc, hsame⟩
    · exact ⟨c', (hother other ho).symm.trans hc', .refl c'⟩
  · intro other hlive
    by_cases ho : other = id
    · subst ho
      simp [hself]
    · rw [hother other ho]
      exact hlive
  · intro hout
    rw [hd] at hout
    cases hout
  · exact fun _ _ => ⟨k, v, hk, Or.inl hv, Or.inr ⟨rfl, hd, c, shape, hc, hshape, hport⟩⟩
  · intro other d _ hd' _ high hconsistent
    by_cases ho : other = id
    · subst ho
      have hread := hvalue high (hconsistent k v (Or.inl hv))
      rw [selectedValue_eq, selectedValue_eq, hself, hc]
      show (options.lutShapes.find? c.cellType).bind _ = (options.lutShapes.find? c.cellType).bind _
      rw [hshape]
      exact hread
    · refine selectedValue_congr (hother other ho) fun _ _ _ _ port' _ => ?_
      have hne : (⟨other, port'⟩ : PortRef) ≠ ⟨id, port⟩ := fun e => ho (congrArg PortRef.cell e)
      rw [hwire, Function.update_of_ne hne]

end Refines

end Normalize
end FpgaPacking
