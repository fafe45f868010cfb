import FpgaPacking.Proofs.Retarget.Outcome

/-!
# What a rule makes of a cell

Retargeting turns a cell into one that is determined by the rule and by the cell.
The names that have been entered before, by other cells for example, show in the
numbers of identifiers only: the new ports have the same names, the notes say the
same, and where the table of names is the same, so is the whole cell.
-/

namespace FpgaPacking
namespace Retarget

variable {rule : RetargetRule} {names earlier later later' after a b : Names} {id : CellId}
  {c d d' : Cell} {s t : Session} {before attrs attrs' : Table Ident ParamValue}

/-! ## Notes as texts -/

/-- What is noted of a cell: its type, and the former name of each port with a new one. -/
def notes (rule : RetargetRule) (names : Names) (c : Cell) : List (String × String) :=
  (formerTypeKey, names.resolve c.cellType) :: c.ports.flatMap fun p =>
    (newTexts rule names p.name).flatMap fun new =>
      if new ≠ names.resolve p.name then [(formerPortKey new, names.resolve p.name)] else []

theorem notes_grows (hrule : rule.Known names) (hknown : c.Known names) (hgrows : names.Grows later) :
    notes rule later c = notes rule names c := by
  unfold notes
  rw [hgrows.resolve hknown.cellType]
  refine congrArg _ (List.flatMap_congr fun p hp => ?_)
  rw [newTexts_grows hrule (hknown.ports p hp) hgrows, hgrows.resolve (hknown.ports p hp)]

theorem notes_of_settled (h : Settled rule names later c.ports) (hrule : rule.Known names)
    (hknown : c.Known names) :
    (formerTypeKey, later.resolve c.cellType) :: (replacements rule later c).flatMap (portNote later) =
      notes rule names c := by
  unfold notes replacements
  rw [h.grows.resolve hknown.cellType, List.flatMap_assoc]
  refine congrArg _ (List.flatMap_congr fun p hp => ?_)
  rw [← h.texts hrule hknown.ports hp, List.flatMap_map, List.flatMap_map]
  refine List.flatMap_congr fun new hnew => ?_
  -- Both names are entered, so they differ if their texts do.
  have hold := hknown.ports p hp
  have hsame : later.resolve new = names.resolve p.name ↔ new = p.name := by
    rw [← h.grows.resolve hold]
    exact ⟨(h.knows hrule hknown.ports hp new hnew).resolve_inj (h.grows.knows hold), congrArg _⟩
  simp only [portNote, ne_eq, hsame, h.grows.resolve hold]

/-! ## Attributes with notes -/

namespace Recorded

variable {noted : List (String × String)}

theorem covered (h : Recorded a before attrs noted) (h' : Recorded b before attrs' noted)
    (hbefore : before.All fun key _ => names.Knows key) (ha : names.Grows a) (hb : names.Grows b) :
    attrs.Covered (a.matching b) Eq attrs' := by
  intro key value hfound
  by_cases hnoted : ∃ note ∈ noted, a.find? note.1 = some key
  · obtain ⟨note, hnote, hkey⟩ := hnoted
    obtain ⟨same, hsame, hvalue⟩ := h.found note hnote
    obtain rfl : same = key := Option.some.inj (hsame.symm.trans hkey)
    obtain ⟨key', hkey', hvalue'⟩ := h'.found note hnote
    exact ⟨key', .text note.2, ⟨note.1, Names.find?_eq_some.mp hkey, Names.find?_eq_some.mp hkey'⟩,
      Option.some.inj (hfound.symm.trans hvalue), hvalue'⟩
  · push Not at hnoted
    have hold : before.find? key = some value := (h.others key hnoted).symm.trans hfound
    have hknown := hbefore key value hold
    -- The key has been there before, so it stands for the same name in both tables.
    have hfree : ∀ note ∈ noted, b.find? note.1 ≠ some key := by
      intro note hnote hkey
      have hname : names.resolve key = note.1 := by
        rw [← hb.resolve hknown]
        exact Names.resolve_of_entered (Names.find?_eq_some.mp hkey)
      refine hnoted note hnote (Names.find?_eq_some.mpr ?_)
      exact hname ▸ ha.entered (Names.knows_iff.mp hknown)
    exact ⟨key, value, Names.matching_of_grows ha hb hknown, rfl, (h'.others key hfree).trans hold⟩

/-- The same notes make the same attributes, whatever the numbers of their keys. -/
theorem alike (h : Recorded a before attrs noted) (h' : Recorded b before attrs' noted)
    (hbefore : before.All fun key _ => names.Knows key) (ha : names.Grows a) (hb : names.Grows b) :
    attrs.Alike (a.matching b) Eq attrs' where
  forth := h.covered h' hbefore ha hb
  back := by
    refine (h'.covered h hbefore hb ha).mono ?_ fun _ _ => Eq.symm
    rintro i j ⟨name, hi, hj⟩
    exact ⟨name, hj, hi⟩

theorem unique (h : Recorded names before attrs noted) (h' : Recorded names before attrs' noted) :
    attrs = attrs' := by
  refine Table.ext_find? fun key => ?_
  by_cases hnoted : ∃ note ∈ noted, names.find? note.1 = some key
  · obtain ⟨note, hnote, hkey⟩ := hnoted
    obtain ⟨k, hk, hvalue⟩ := h.found note hnote
    obtain ⟨k', hk', hvalue'⟩ := h'.found note hnote
    obtain rfl : k = key := Option.some.inj (hk.symm.trans hkey)
    obtain rfl : k' = k := Option.some.inj (hk'.symm.trans hk)
    exact hvalue.trans hvalue'.symm
  · push Not at hnoted
    exact (h.others key hnoted).trans (h'.others key hnoted).symm

end Recorded

/-! ## The cell -/

/-- The rule has made the second cell of the first one, and entered what it needed between the two
tables of names. -/
structure Became (rule : RetargetRule) (names later : Names) (c d : Cell) : Prop where
  settled : Settled rule names later c.ports
  cell : ∃ attrs, Recorded later c.attrs attrs (notes rule names c) ∧ d = { c with
    cellType := rule.newType
    ports := c.ports.flatMap (newPorts rule later)
    params := newParams rule c.params
    attrs := newAttrs rule attrs }

namespace Became

theorem since (h : Became rule names later c d) (hrule : rule.Known earlier) (hknown : c.Known earlier)
    (hgrows : earlier.Grows names) : Became rule earlier later c d where
  settled := h.settled.since hgrows
  cell := notes_grows hrule hknown hgrows ▸ h.cell

theorem grown (h : Became rule names later c d) (hrule : rule.Known names) (hknown : c.Known names)
    (hgrows : later.Grows after) : Became rule names after c d where
  settled := h.settled.grown hgrows
  cell := by
    obtain ⟨attrs, hrecorded, rfl⟩ := h.cell
    have hports : c.ports.flatMap (newPorts rule after) = c.ports.flatMap (newPorts rule later) :=
      List.flatMap_congr fun p hp => by
        rw [newPorts, h.settled.newNames_eq hrule hknown.ports hgrows hp, newPorts]
    exact ⟨attrs, hrecorded.grows hgrows, by rw [hports]⟩

theorem unique (h : Became rule names later c d) (h' : Became rule names later c d') : d = d' := by
  obtain ⟨attrs, hrecorded, rfl⟩ := h.cell
  obtain ⟨attrs', hrecorded', rfl⟩ := h'.cell
  rw [hrecorded.unique hrecorded']

theorem alike (h : Became rule names a c d) (h' : Became rule names b c d') (hrule : rule.Entered names)
    (hentered : c.Entered names) : d.Alike (a.matching b) d' := by
  have ha := h.settled.grows
  have hb := h'.settled.grows
  obtain ⟨attrs, hrecorded, rfl⟩ := h.cell
  obtain ⟨attrs', hrecorded', rfl⟩ := h'.cell
  have hknown := hrule.toKnown
  have hports := hentered.ports
  have hnewports : List.Forall₂ (Port.Alike (a.matching b)) (c.ports.flatMap (newPorts rule a))
      (c.ports.flatMap (newPorts rule b)) := by
    have hsame : List.Forall₂ (fun p q => p = q ∧ p ∈ c.ports) c.ports c.ports :=
      List.forall₂_same.mpr fun p hp => ⟨rfl, hp⟩
    refine List.rel_flatMap hsame ?_
    rintro p _ ⟨rfl, hp⟩
    refine List.rel_map (fun new new' hnew => ⟨hnew, rfl, rfl⟩) (Names.forall₂_matching
      (h.settled.knows hknown hports hp) (h'.settled.knows hknown hports hp) ?_)
    rw [h.settled.texts hknown hports hp, h'.settled.texts hknown hports hp]
  have hparams : (newParams rule c.params).All fun key _ => names.Knows key :=
    all_newParams (fun old new _ hnew _ => hrule.paramRename old new hnew) hrule.defaultParams
      hrule.fixedParams hentered.params
  have hfixed : List.Forall₂ (fun e e' => a.matching b e.1 e'.1 ∧ e.2 = e'.2) rule.fixedAttrs.entries
      rule.fixedAttrs.entries := List.forall₂_same.mpr fun e he =>
    ⟨Names.matching_of_grows ha hb (hrule.fixedAttrs.of_mem he), rfl⟩
  exact {
    name := rfl
    cellType := Names.matching_of_grows ha hb hrule.newType
    ports := hnewports
    params := hparams.alike ha hb
    attrs := (hrecorded.alike hrecorded' hentered.attrs ha hb).insertAll hfixed
    bel := by
      show Option.Rel _ c.bel c.bel
      cases hbel : c.bel with
      | none => exact .none
      | some i => exact .some (Names.matching_of_grows ha hb (hentered.bel i hbel))
    role := rfl
    cluster := rfl }

end Became

/-! ## Runs -/

theorem fits_grows (hrule : rule.Known names) (hknown : c.Known names) (hgrows : names.Grows later) :
    Fits rule later c ↔ Fits rule names c := by
  have htexts : ∀ p ∈ c.ports, newTexts rule later p.name = newTexts rule names p.name :=
    fun p hp => newTexts_grows hrule (hknown.ports p hp) hgrows
  have hall : (c.ports.flatMap fun p => newTexts rule later p.name) =
      c.ports.flatMap fun p => newTexts rule names p.name := List.flatMap_congr htexts
  constructor
  · rintro ⟨hdistinct, hsingle⟩
    exact ⟨hall ▸ hdistinct, fun p hp hout hnet => htexts p hp ▸ hsingle p hp hout hnet⟩
  · rintro ⟨hdistinct, hsingle⟩
    exact ⟨hall ▸ hdistinct, fun p hp hout hnet => (htexts p hp).symm ▸ hsingle p hp hout hnet⟩

section

variable (hw : s.netlist.WellFormed) (hc : s.netlist.cell? id = some c)
include hw hc

theorem became_of_retargetCell (hrule : rule.Known s.names) (hknown : c.Known s.names)
    (h : retargetCell rule id s = .ok () t) :
    t.netlist.WellFormed ∧ (∀ other, other ≠ id → t.netlist.cell? other = s.netlist.cell? other) ∧
      ∃ d, t.netlist.cell? id = some d ∧ Became rule s.names t.names c d := by
  obtain ⟨hsettled, hported, attrs, hrecorded, hd⟩ := recorded_of_retargetCell hw hc hrule hknown h
  rw [notes_of_settled hsettled hrule hknown] at hrecorded
  exact ⟨hported.wellFormed, hported.others, _, hd, hsettled, attrs, hrecorded, rfl⟩

/-- The cell is what the rule makes of the cell of the session when it is retargeted alone.  Names may
have been entered before: they do not matter except for numbers, and these agree as well if all the names
of the table have been entered. -/
def AsAlone (rule : RetargetRule) (id : CellId) (s : Session) (after : Names) (d : Cell) : Prop :=
  ∀ names, s.names.Grows names → ∃ t e, retargetCell rule id { s with names } = .ok () t ∧
    t.netlist.cell? id = some e ∧ e.Alike (t.names.matching after) d ∧ (after.Grows names → e = d)

omit hw hc in
theorem AsAlone.grows (h : AsAlone rule id s later d) (hgrows : later.Grows after) :
    AsAlone rule id s after d := by
  intro names hnames
  obtain ⟨t, e, hrun, he, halike, hsame⟩ := h names hnames
  refine ⟨t, e, hrun, he, halike.mono ?_, fun hafter => hsame (hgrows.trans hafter)⟩
  rintro i j ⟨name, hi, hj⟩
  exact ⟨name, hi, hgrows.entered hj⟩

/-- A cell that fits its rule can be retargeted whatever names there are, and always to the same. -/
theorem Became.asAlone (h : Became rule s.names after c d) (hrule : rule.Entered s.names)
    (hentered : c.Entered s.names) (hfits : Fits rule s.names c) : AsAlone rule id s after d := by
  intro names hgrows
  have hknown := hrule.toKnown
  have hlater : c.Known names := hentered.toKnown.grows hgrows
  have hfits := (fits_grows hknown hentered.toKnown hgrows).mpr hfits
  obtain ⟨t, hrun⟩ :=
    (retargetCell_ok_iff (s := { s with names }) hw hc (hknown.grows hgrows) hlater).mpr hfits
  obtain ⟨-, -, e, he, hbecame⟩ :=
    became_of_retargetCell (s := { s with names }) hw hc (hknown.grows hgrows) hlater hrun
  have hfirst := hbecame.since hknown hentered.toKnown hgrows
  refine ⟨t, e, hrun, he, hfirst.alike h hrule hentered, fun hafter => ?_⟩
  exact hfirst.unique (h.grown hknown hentered.toKnown (hafter.trans hbecame.settled.grows))

end

end Retarget
end FpgaPacking
