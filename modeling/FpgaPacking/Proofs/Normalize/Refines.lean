import FpgaPacking.Proofs.Netlist.Regular
import FpgaPacking.Proofs.Normalize.Tables

/-!
# Netlists that compute the same

`Refines` relates a netlist to what normalization makes of it.  A reader stays on
its net, unless the net is tied to a value: then it may go to another net that is
tied to the same value, or be cut off if it is an input of a truth table.  A net
that is read keeps its driver, and a truth table gives the value that it gave
before, whatever values the nets have, as long as tied nets have theirs.

Cells that are about to be removed are left out: `gone` lists them.  The relation
composes, and each step of normalization is an instance of it.
-/

namespace FpgaPacking
namespace Normalize

open Netlist

variable {options : NormalizeOptions} {gone : List CellId} {nl nl' nl'' : Netlist} {r q : PortRef}
  {k : NetId} {v : ConstValue} {id : CellId}

/-! ## Tied nets -/

/-- The net is constant, or a cell that ties its outputs drives it. -/
def Tied (options : NormalizeOptions) (nl : Netlist) (k : NetId) (v : ConstValue) : Prop :=
  nl.constValue k = some v ∨ ∃ n r c, nl.net? k = some n ∧ n.driver = some r ∧
    nl.cell? r.cell = some c ∧ options.tieValue c.cellType = some v

theorem constValue_eq_none_of_wire (hw : nl.WellFormed) (hr : nl.wire r = some k)
    (hd : nl.dir r = some .output) : nl.constValue k = none := by
  obtain ⟨n, hn⟩ := Option.isSome_iff_exists.mp (hw.wired.wire_live r k hr)
  have hdriver : n.driver = some r := (hw.wired.driver_iff k n r hn).mpr ⟨hr, hd⟩
  cases hc : n.constant with
  | none => simp [constValue, hn, hc]
  | some v =>
    have hundriven := hw.constant_undriven k n hn (by simp [hc])
    simp [hundriven] at hdriver

/-- Tied nets in terms of the views. -/
theorem tied_iff (hw : nl.WellFormed) : Tied options nl k v ↔
    nl.constValue k = some v ∨ ∃ r c, nl.wire r = some k ∧ nl.dir r = some .output ∧
      nl.bare r.cell = some c ∧ options.tieValue c.cellType = some v := by
  unfold Tied
  refine or_congr_right ?_
  constructor
  · rintro ⟨n, r, c, hn, hdriver, hc, hv⟩
    obtain ⟨hr, hd⟩ := (hw.wired.driver_iff k n r hn).mp hdriver
    exact ⟨r, c.unwired, hr, hd, bare_of_cell? hc, hv⟩
  · rintro ⟨r, c, hr, hd, hc, hv⟩
    obtain ⟨n, hn⟩ := Option.isSome_iff_exists.mp (hw.wired.wire_live r k hr)
    obtain ⟨d, hcell, rfl⟩ := Option.map_eq_some_iff.mp hc
    exact ⟨n, r, d, hn, (hw.wired.driver_iff k n r hn).mpr ⟨hr, hd⟩, hcell, hv⟩

/-- A net is tied to one value only. -/
theorem Tied.unique (hw : nl.WellFormed) {v' : ConstValue} (h : Tied options nl k v)
    (h' : Tied options nl k v') : v = v' := by
  rcases (tied_iff hw).mp h with hc | ⟨r, c, hr, hd, hb, hv⟩
  · rcases (tied_iff hw).mp h' with hc' | ⟨r, c, hr, hd, -, -⟩
    · exact Option.some.inj (hc.symm.trans hc')
    · rw [constValue_eq_none_of_wire hw hr hd] at hc
      cases hc
  · rcases (tied_iff hw).mp h' with hc' | ⟨r', c', hr', hd', hb', hv'⟩
    · rw [constValue_eq_none_of_wire hw hr hd] at hc'
      cases hc'
    · obtain ⟨n, hn⟩ := Option.isSome_iff_exists.mp (hw.wired.wire_live r k hr)
      have hfirst := (hw.wired.driver_iff k n r hn).mpr ⟨hr, hd⟩
      have hsecond := (hw.wired.driver_iff k n r' hn).mpr ⟨hr', hd'⟩
      obtain rfl := Option.some.inj (hfirst.symm.trans hsecond)
      obtain rfl := Option.some.inj (hb.symm.trans hb')
      exact Option.some.inj (hv.symm.trans hv')

/-- Nets have the values that they are tied to. -/
def Consistent (options : NormalizeOptions) (nl : Netlist) (high : NetId → Bool) : Prop :=
  ∀ k v, Tied options nl k v → high k = v.toBool

/-- The port is an input of the truth table of its cell. -/
def Foldable (options : NormalizeOptions) (nl : Netlist) (r : PortRef) : Prop :=
  nl.dir r = some .input ∧ ∃ c shape, nl.bare r.cell = some c ∧
    options.lutShapes.find? c.cellType = some shape ∧ r.port ∈ shape.inputs

/-- The second cell is the first, but for its truth table. -/
def SameButTable (options : NormalizeOptions) (c c' : Cell) : Prop :=
  ∃ params, c' = { c with params } ∧ ∀ name,
    (∀ shape, options.lutShapes.find? c.cellType = some shape → name ≠ shape.param) →
      params.find? name = c.params.find? name

theorem SameButTable.refl (c : Cell) : SameButTable options c c := ⟨c.params, rfl, fun _ _ => rfl⟩

theorem SameButTable.trans {c c' c'' : Cell} (h : SameButTable options c c')
    (h' : SameButTable options c' c'') : SameButTable options c c'' := by
  obtain ⟨params, rfl, hparams⟩ := h
  obtain ⟨params', rfl, hparams'⟩ := h'
  exact ⟨params', rfl, fun name hname => (hparams' name hname).trans (hparams name hname)⟩

theorem SameButTable.dir {c c' : Cell} (h : SameButTable options c c')
    (hc : nl.bare r.cell = some c) (hc' : nl'.bare r.cell = some c') : nl'.dir r = nl.dir r := by
  obtain ⟨params, rfl, -⟩ := h
  rw [dir_eq_of_bare, dir_eq_of_bare, hc, hc']
  rfl

/-- None of the ports that select the row of the cell's table drives a net. -/
def InputsRead (options : NormalizeOptions) (nl : Netlist) (id : CellId) (c : Cell) : Prop :=
  ∀ shape, options.lutShapes.find? c.cellType = some shape →
    ∀ port ∈ shape.inputs, nl.dir ⟨id, port⟩ ≠ some .output

/-- If nets only become constant by being created, a net that was there before
and is constant was constant. -/
theorem constValue_of_tags
    (htags : ∀ k t, nl'.tag k = some t → nl.tag k = some t ∨ nl.nextNet.index ≤ k.index)
    (hk : (nl.tag k).isSome) (hv : nl'.constValue k = some v) : nl.constValue k = some v := by
  obtain ⟨n, hn, hconstant⟩ := Option.bind_eq_some_iff.mp hv
  obtain ⟨m, hm⟩ := Option.isSome_iff_exists.mp (tag_isSome ▸ hk)
  have htag : nl'.tag k = some (n.name, n.constant) := by simp [tag, hn]
  rcases htags k _ htag with hold | hnew
  · rw [constValue_eq, hold]
    exact hconstant
  · exact absurd (index_lt_nextNet hm) (Nat.not_lt.mpr hnew)

/-! ## The relation -/

/-- The second netlist computes what the first does, apart from the cells in `gone`. -/
structure Refines (options : NormalizeOptions) (gone : List CellId) (nl nl' : Netlist) : Prop where
  wellFormed : nl'.WellFormed
  cells : ∀ id c', nl'.bare id = some c' → ∃ c, nl.bare id = some c ∧ SameButTable options c c'
  live : ∀ id, id ∉ gone → (nl.bare id).isSome → (nl'.bare id).isSome
  constants : ∀ k v, nl.constValue k = some v → nl'.constValue k = some v
  tags : ∀ k t, nl'.tag k = some t → nl.tag k = some t ∨ nl.nextNet.index ≤ k.index
  grows : nl.nextNet.index ≤ nl'.nextNet.index
  /-- Ports move to constant nets only. -/
  wires : ∀ r k, nl'.wire r = some k → nl.wire r = some k ∨ (nl'.constValue k).isSome
  /-- A net that is read keeps its driver. -/
  drivers : ∀ r q k, nl'.wire r = some k → nl'.dir r ≠ some .output → nl.wire q = some k →
    nl.dir q = some .output → nl'.wire q = some k
  unconnected : ∀ r, r.cell ∉ gone → nl.dir r ≠ some .output → nl.wire r = none → nl'.wire r = none
  untied : ∀ r k, r.cell ∉ gone → nl.dir r ≠ some .output → nl.wire r = some k →
    (∀ v, ¬Tied options nl k v) → nl'.wire r = some k
  tied : ∀ r k v, r.cell ∉ gone → nl.dir r ≠ some .output → nl.wire r = some k →
    Tied options nl k v → (∃ k', nl'.wire r = some k' ∧ Tied options nl' k' v) ∨
      nl'.wire r = none ∧ Foldable options nl r
  values : ∀ id c, id ∉ gone → nl.bare id = some c → InputsRead options nl id c → ∀ high,
    Consistent options nl high → Consistent options nl' high →
      selectedValue options high nl' id = selectedValue options high nl id

namespace Refines

theorem mono {gone' : List CellId} (h : Refines options gone nl nl')
    (hgone : ∀ id ∈ gone, id ∈ gone') : Refines options gone' nl nl' where
  wellFormed := h.wellFormed
  cells := h.cells
  live id hid := h.live id fun hin => hid (hgone id hin)
  constants := h.constants
  tags := h.tags
  grows := h.grows
  wires := h.wires
  drivers := h.drivers
  unconnected r hr := h.unconnected r fun hin => hr (hgone _ hin)
  untied r k hr := h.untied r k fun hin => hr (hgone _ hin)
  tied r k v hr := h.tied r k v fun hin => hr (hgone _ hin)
  values id c hid := h.values id c fun hin => hid (hgone id hin)

/-- Directions stay as they are while the cell is there. -/
theorem dir (h : Refines options gone nl nl') (hr : (nl'.bare r.cell).isSome) :
    nl'.dir r = nl.dir r := by
  obtain ⟨c', hc'⟩ := Option.isSome_iff_exists.mp hr
  obtain ⟨c, hc, hsame⟩ := h.cells r.cell c' hc'
  exact hsame.dir hc hc'

theorem dead (h : Refines options gone nl nl') (hid : nl.bare id = none) : nl'.bare id = none := by
  cases hb : nl'.bare id with
  | none => rfl
  | some c' =>
    obtain ⟨c, hc, -⟩ := h.cells id c' hb
    rw [hid] at hc
    cases hc

theorem dir_ne_output (h : Refines options gone nl nl') (hd : nl.dir r ≠ some .output) :
    nl'.dir r ≠ some .output := by
  cases hb : nl'.bare r.cell with
  | none =>
    rw [dir_eq_none_of_bare hb]
    exact nofun
  | some c =>
    rw [h.dir (by simp [hb])]
    exact hd

/-- An output is never moved to another net. -/
theorem output (h : Refines options gone nl nl') (hr : nl'.wire r = some k)
    (hd : nl'.dir r = some .output) : nl.wire r = some k ∧ nl.dir r = some .output := by
  refine ⟨(h.wires r k hr).resolve_right fun hconstant => ?_, ?_⟩
  · rw [constValue_eq_none_of_wire h.wellFormed hr hd] at hconstant
    cases hconstant
  · rw [← h.dir (bare_isSome_of_wire hr)]
    exact hd

theorem constValue_back (h : Refines options gone nl nl') (hk : (nl.tag k).isSome)
    (hv : nl'.constValue k = some v) : nl.constValue k = some v :=
  constValue_of_tags h.tags hk hv

/-- A net that is tied afterwards was tied before, unless it is new. -/
theorem tied_back (h : Refines options gone nl nl') (hw : nl.WellFormed) (hk : (nl.tag k).isSome)
    (ht : Tied options nl' k v) : Tied options nl k v := by
  rcases (tied_iff h.wellFormed).mp ht with hv | ⟨r, c', hr, hd, hc', hv⟩
  · exact Or.inl (h.constValue_back hk hv)
  · obtain ⟨hr₀, hd₀⟩ := h.output hr hd
    obtain ⟨c, hc, params, rfl, -⟩ := h.cells r.cell c' hc'
    exact (tied_iff hw).mpr (Or.inr ⟨r, c, hr₀, hd₀, hc, hv⟩)

theorem consistent_mid (h : Refines options gone nl nl') (h' : Refines options gone nl' nl'')
    (hw : nl.WellFormed) {high : NetId → Bool} (hfirst : Consistent options nl high)
    (hlast : Consistent options nl'' high) : Consistent options nl' high := by
  intro k v ht
  rcases (tied_iff h.wellFormed).mp ht with hv | ⟨r, c', hr, hd, -, -⟩
  · exact hlast k v (Or.inl (h'.constants k v hv))
  · obtain ⟨hr₀, -⟩ := h.output hr hd
    exact hfirst k v (h.tied_back hw (hw.wired.tag_isSome_of_wire hr₀) ht)

theorem foldable_back (h : Refines options gone nl nl') (hr : Foldable options nl' r) :
    Foldable options nl r := by
  obtain ⟨hd, c', shape, hc', hshape, hport⟩ := hr
  obtain ⟨c, hc, params, rfl, -⟩ := h.cells r.cell c' hc'
  rw [h.dir (by simp [hc'])] at hd
  exact ⟨hd, c, shape, hc, hshape, hport⟩

theorem foldable (h : Refines options gone nl nl') (hlive : (nl'.bare r.cell).isSome)
    (hr : Foldable options nl r) : Foldable options nl' r := by
  obtain ⟨hd, c, shape, hc, hshape, hport⟩ := hr
  obtain ⟨c', hc'⟩ := Option.isSome_iff_exists.mp hlive
  obtain ⟨d, hd', params, rfl, -⟩ := h.cells r.cell c' hc'
  obtain rfl := Option.some.inj (hc.symm.trans hd')
  exact ⟨(h.dir hlive).trans hd, _, shape, hc', hshape, hport⟩

theorem refl (hw : nl.WellFormed) : Refines options gone nl nl where
  wellFormed := hw
  cells _ c hc := ⟨c, hc, .refl c⟩
  live _ _ h := h
  constants _ _ h := h
  tags _ _ h := Or.inl h
  grows := Nat.le_refl _
  wires _ _ h := Or.inl h
  drivers _ _ _ _ _ h _ := h
  unconnected _ _ _ h := h
  untied _ _ _ _ h _ := h
  tied _ k _ _ _ h ht := Or.inl ⟨k, h, ht⟩
  values _ _ _ _ _ _ _ _ := rfl

theorem tags_trans (h : Refines options gone nl nl') (h' : Refines options gone nl' nl'') (k : NetId)
    (t : String × Option ConstValue) (ht : nl''.tag k = some t) :
    nl.tag k = some t ∨ nl.nextNet.index ≤ k.index := by
  rcases h'.tags k t ht with ht | hnew
  · exact h.tags k t ht
  · exact Or.inr (Nat.le_trans h.grows hnew)

theorem drivers_trans (h : Refines options gone nl nl') (h' : Refines options gone nl' nl'')
    (hw : nl.WellFormed) (hr : nl''.wire r = some k) (hd : nl''.dir r ≠ some .output)
    (hq : nl.wire q = some k) (hdq : nl.dir q = some .output) : nl''.wire q = some k := by
  -- The net has a driver at first, so it is not constant later and the reader was there before.
  have hmid : nl'.wire r = some k := by
    refine (h'.wires r k hr).resolve_right fun hconstant => ?_
    obtain ⟨v, hv⟩ := Option.isSome_iff_exists.mp hconstant
    have hvalue := constValue_of_tags (h.tags_trans h') (hw.wired.tag_isSome_of_wire hq) hv
    rw [constValue_eq_none_of_wire hw hq hdq] at hvalue
    cases hvalue
  have hdmid : nl'.dir r ≠ some .output := by
    rw [← h'.dir (bare_isSome_of_wire hr)]
    exact hd
  have hqmid := h.drivers r q k hmid hdmid hq hdq
  exact h'.drivers r q k hr hd hqmid ((h.dir (bare_isSome_of_wire hqmid)).trans hdq)

theorem tied_trans (h : Refines options gone nl nl') (h' : Refines options gone nl' nl'')
    (hgone : r.cell ∉ gone) (hd : nl.dir r ≠ some .output) (hr : nl.wire r = some k)
    (ht : Tied options nl k v) :
    (∃ k', nl''.wire r = some k' ∧ Tied options nl'' k' v) ∨
      nl''.wire r = none ∧ Foldable options nl r := by
  rcases h.tied r k v hgone hd hr ht with ⟨k', hr', ht'⟩ | ⟨hr', hfold⟩
  · rcases h'.tied r k' v hgone (h.dir_ne_output hd) hr' ht' with hstill | ⟨hr'', hfold⟩
    · exact Or.inl hstill
    · exact Or.inr ⟨hr'', h.foldable_back hfold⟩
  · exact Or.inr ⟨h'.unconnected r hgone (h.dir_ne_output hd) hr', hfold⟩

theorem values_trans (h : Refines options gone nl nl') (h' : Refines options gone nl' nl'')
    (hw : nl.WellFormed) {c : Cell} (hgone : id ∉ gone) (hc : nl.bare id = some c)
    (hinputs : InputsRead options nl id c) {high : NetId → Bool}
    (hfirst : Consistent options nl high) (hlast : Consistent options nl'' high) :
    selectedValue options high nl'' id = selectedValue options high nl id := by
  have hmid := h.consistent_mid h' hw hfirst hlast
  obtain ⟨c', hc'⟩ := Option.isSome_iff_exists.mp (h.live id hgone (by simp [hc]))
  obtain ⟨d, hd, params, hc'eq, -⟩ := h.cells id c' hc'
  obtain rfl := Option.some.inj (hc.symm.trans hd)
  have hinputs' : InputsRead options nl' id c' := fun shape hshape port hport =>
    h.dir_ne_output (hinputs shape (by rw [hc'eq] at hshape; exact hshape) port hport)
  rw [h'.values id c' hgone hc' hinputs' high hmid hlast,
    h.values id c hgone hc hinputs high hfirst hmid]

theorem trans (h : Refines options gone nl nl') (h' : Refines options gone nl' nl'')
    (hw : nl.WellFormed) : Refines options gone nl nl'' where
  wellFormed := h'.wellFormed
  cells id c'' hc'' := by
    obtain ⟨c', hc', hsame'⟩ := h'.cells id c'' hc''
    obtain ⟨c, hc, hsame⟩ := h.cells id c' hc'
    exact ⟨c, hc, hsame.trans hsame'⟩
  live id hid hlive := h'.live id hid (h.live id hid hlive)
  constants k v hv := h'.constants k v (h.constants k v hv)
  tags := h.tags_trans h'
  grows := Nat.le_trans h.grows h'.grows
  wires r k hr := by
    rcases h'.wires r k hr with hr | hconstant
    · rcases h.wires r k hr with hr | hconstant
      · exact Or.inl hr
      · obtain ⟨v, hv⟩ := Option.isSome_iff_exists.mp hconstant
        exact Or.inr (by simp [h'.constants k v hv])
    · exact Or.inr hconstant
  drivers _ _ _ hr hd hq hdq := h.drivers_trans h' hw hr hd hq hdq
  unconnected r hgone hd hr :=
    h'.unconnected r hgone (h.dir_ne_output hd) (h.unconnected r hgone hd hr)
  untied r k hgone hd hr hfree := by
    refine h'.untied r k hgone (h.dir_ne_output hd) (h.untied r k hgone hd hr hfree) fun v ht => ?_
    exact hfree v (h.tied_back hw (hw.wired.tag_isSome_of_wire hr) ht)
  tied _ _ _ hgone hd hr ht := h.tied_trans h' hgone hd hr ht
  values _ _ hgone hc hinputs _ hfirst hlast :=
    h.values_trans h' hw hgone hc hinputs hfirst hlast

end Refines

end Normalize
end FpgaPacking
