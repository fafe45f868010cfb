import FpgaPacking.Proofs.Reachable
import FpgaPacking.Proofs.Retarget.Results
import FpgaPacking.Proofs.Retarget.Summary

/-!
# Retargeting all cells

The cells are retargeted one after the other, and what is done to one leaves no
trace at another: the nets they share are rewired at one end, and names that are
entered do not change what identifiers stand for.  Each cell is looked at once, when
it still has the type that it had in the beginning, so a new type that has a rule of
its own does not matter.
-/

namespace FpgaPacking
namespace Retarget

variable {rules : RuleSet} {rule : RetargetRule} {names : Names} {id : CellId} {c : Cell}
  {s u v : Session} {summary summary' : Summary} {done todo : List (CellId × Cell)}

/-- The live cells with a rule, in order of creation. -/
def ruledCells (rules : RuleSet) (nl : Netlist) : List CellId :=
  (nl.cells.entries.filter fun entry => (rules.find? entry.2.cellType).isSome).map (·.1)

/-- The new and the former type of a cell with a rule, as texts. -/
def countedAs (rules : RuleSet) (names : Names) (c : Cell) : Option (String × String) :=
  (rules.find? c.cellType).map fun rule => (names.resolve rule.newType, names.resolve c.cellType)

/-! ## One cell -/

/-- The cells of the list have been gone through, those with a rule have become what it makes of them,
and no other cell has changed. -/
structure Midway (rules : RuleSet) (s : Session) (done : List (CellId × Cell)) (summary : Summary)
    (u : Session) : Prop where
  wellFormed : u.netlist.WellFormed
  grows : s.names.Grows u.names
  became : ∀ id c rule, (id, c) ∈ done → rules.find? c.cellType = some rule →
    ∃ d, u.netlist.cell? id = some d ∧ AsAlone rule id s u.names d
  others : ∀ id, (∀ c, (id, c) ∈ done → rules.find? c.cellType = none) →
    u.netlist.cell? id = s.netlist.cell? id
  tallies : summary.Tallies (done.filterMap fun entry => countedAs rules s.names entry.2)

namespace Midway

theorem start (hw : s.netlist.WellFormed) : Midway rules s [] .empty s where
  wellFormed := hw
  grows := .refl _
  became _ _ _ hmem := absurd hmem List.not_mem_nil
  others _ _ := rfl
  tallies := .empty

/-- A cell without a rule is passed over. -/
theorem passed (h : Midway rules s done summary u) (hnone : rules.find? c.cellType = none) :
    Midway rules s (done ++ [(id, c)]) summary u where
  wellFormed := h.wellFormed
  grows := h.grows
  became other d rule hmem hrule := by
    rcases List.mem_append.mp hmem with hmem | hmem
    · exact h.became other d rule hmem hrule
    · obtain ⟨rfl, rfl⟩ := Prod.mk.inj (List.mem_singleton.mp hmem)
      rw [hnone] at hrule
      cases hrule
  others other hother := h.others other fun d hd => hother d (List.mem_append_left _ hd)
  tallies := by
    have hcounted : countedAs rules s.names c = none := by rw [countedAs, hnone, Option.map_none]
    simpa [List.filterMap_append, hcounted] using h.tallies

variable (hw : s.netlist.WellFormed)
  (hrules : ∀ cellType rule, rules.find? cellType = some rule → rule.Entered s.names)
  (hcells : ∀ id c, s.netlist.cell? id = some c → c.Entered s.names)
include hw hrules hcells

/-- A cell that has not been changed before is retargeted. -/
theorem retargeted (h : Midway rules s done summary u) (hc : s.netlist.cell? id = some c)
    (hnew : ∀ b, (id, b) ∉ done) (hrule : rules.find? c.cellType = some rule)
    (hrun : retargetCell rule id u = .ok () v) :
    Midway rules s (done ++ [(id, c)])
      (summary.add (v.names.resolve rule.newType) (v.names.resolve c.cellType)) v := by
  have hsame : u.netlist.cell? id = some c := (h.others id fun b hb => absurd hb (hnew b)).trans hc
  have hentered := hcells id c hc
  have hgiven := hrules c.cellType rule hrule
  have hknown := hgiven.toKnown.grows h.grows
  have hfits : Fits rule u.names c :=
    (retargetCell_ok_iff h.wellFormed hsame hknown (hentered.toKnown.grows h.grows)).mp ⟨v, hrun⟩
  obtain ⟨hwell, hothers, d, hd, hbecame⟩ :=
    became_of_retargetCell h.wellFormed hsame hknown (hentered.toKnown.grows h.grows) hrun
  have hgrows := hbecame.settled.grows
  -- Whatever the cells before it have entered, the cell has become the same.
  have hmade : AsAlone rule id s v.names d :=
    (hbecame.since hgiven.toKnown hentered.toKnown h.grows).asAlone hw hc hgiven hentered
      ((fits_grows hgiven.toKnown hentered.toKnown h.grows).mp hfits)
  constructor
  · exact hwell
  · exact h.grows.trans hgrows
  · intro other e r hmem hr
    rcases List.mem_append.mp hmem with hmem | hmem
    · obtain ⟨d', hd', halone⟩ := h.became other e r hmem hr
      have hother : other ≠ id := fun heq => hnew e (heq ▸ hmem)
      exact ⟨d', (hothers other hother).trans hd', halone.grows hgrows⟩
    · obtain ⟨rfl, rfl⟩ := Prod.mk.inj (List.mem_singleton.mp hmem)
      obtain rfl : rule = r := Option.some.inj (hrule.symm.trans hr)
      exact ⟨d, hd, hmade⟩
  · intro other hother
    have hne : other ≠ id := by
      rintro rfl
      rw [hother c (List.mem_append_right _ List.mem_cons_self)] at hrule
      cases hrule
    exact (hothers other hne).trans (h.others other fun e he => hother e (List.mem_append_left _ he))
  · have hall := h.grows.trans hgrows
    have hcounted : countedAs rules s.names c =
        some (v.names.resolve rule.newType, v.names.resolve c.cellType) := by
      rw [countedAs, hrule, hall.resolve hgiven.newType, hall.resolve hentered.cellType]
      rfl
    simpa [List.filterMap_append, hcounted] using h.tallies.add _ _

/-- The next cell is passed over or retargeted. -/
theorem step (h : Midway rules s done summary u)
    (hentries : s.netlist.cells.entries = done ++ (id, c) :: todo)
    (hrun : retargetIfRuled rules summary id u = .ok summary' v) :
    Midway rules s (done ++ [(id, c)]) summary' v := by
  have hc : s.netlist.cell? id = some c :=
    (s.netlist.cells.mem_entries id c).mp (hentries ▸ List.mem_append_right _ List.mem_cons_self)
  have hnew : ∀ b, (id, b) ∉ done := by
    intro b hb
    have hnodup : (s.netlist.cells.entries.map (·.1)).Nodup := s.netlist.cells.nodup_ids
    rw [hentries, List.map_append, List.nodup_append] at hnodup
    exact hnodup.2.2 id (List.mem_map_of_mem (f := (·.1)) hb) id List.mem_cons_self rfl
  have hsame : u.netlist.cell? id = some c := (h.others id fun b hb => absurd hb (hnew b)).trans hc
  obtain ⟨b, hb, hcases⟩ := retargetIfRuled_ok hrun
  obtain rfl : c = b := Option.some.inj (hsame.symm.trans hb)
  obtain ⟨hnone, rfl, rfl⟩ | ⟨rule, hrule, hretarget, rfl⟩ := hcases
  · exact h.passed hnone
  · exact h.retargeted hw hrules hcells hc hnew hrule hretarget

end Midway

/-! ## All cells -/

/-- Every cell with a rule has become what the rule alone makes of it, no other cell has changed, and
each of the new cells has been counted once. -/
structure Batched (rules : RuleSet) (s s' : Session) (summary : Summary) : Prop where
  ruled : ∀ id c rule, s.netlist.cell? id = some c → rules.find? c.cellType = some rule →
    ∃ d, s'.netlist.cell? id = some d ∧ AsAlone rule id s s'.names d
  others : ∀ id, (∀ c, s.netlist.cell? id = some c → rules.find? c.cellType = none) →
    s'.netlist.cell? id = s.netlist.cell? id
  cellIds : s'.netlist.cellIds = s.netlist.cellIds
  total : summary.total = (ruledCells rules s.netlist).length
  /-- The total of a new type is the sum over its sources. -/
  sums : ∀ newType count, summary.find? newType = some count →
    count.total = count.sources.values.sum
  /-- Each source of a new type is a type with a rule for it, and is counted with all its cells. -/
  sources : ∀ newType source n, summary.count? newType source = some n ↔
    ∃ cellType rule, rules.find? cellType = some rule ∧ s.names.resolve cellType = source ∧
      s.names.resolve rule.newType = newType ∧ n = (s.netlist.cellsOfType cellType).length ∧ 0 < n

section

variable (hcells : ∀ id c, s.netlist.cell? id = some c → c.Entered s.names)
include hcells

/-- Cells of one type with a rule, and no others, are counted under one pair of texts. -/
theorem count_countedAs (hc : s.netlist.cell? id = some c) (hrule : rules.find? c.cellType = some rule) :
    (s.netlist.cells.entries.filterMap fun entry => countedAs rules s.names entry.2).count
        (s.names.resolve rule.newType, s.names.resolve c.cellType) =
      (s.netlist.cellsOfType c.cellType).length := by
  rw [Netlist.cellsOfType, List.length_map, ← List.countP_eq_length_filter, List.count_filterMap]
  refine List.countP_congr fun ⟨other, b⟩ hentry => ?_
  have hb := hcells other b ((s.netlist.cells.mem_entries other b).mp hentry)
  rw [beq_iff_eq, decide_eq_true_iff]
  constructor
  · intro hcounted
    obtain ⟨r, hr, hpair⟩ := Option.map_eq_some_iff.mp hcounted
    exact hb.cellType.resolve_inj (hcells id c hc).cellType (congrArg Prod.snd hpair)
  · intro htype
    show countedAs rules s.names b = _
    rw [countedAs, htype, hrule]
    rfl

theorem count?_eq_some_iff
    (htallies : summary.Tallies (s.netlist.cells.entries.filterMap fun entry =>
      countedAs rules s.names entry.2)) {newType source : String} {n : Nat} :
    summary.count? newType source = some n ↔
      ∃ cellType rule, rules.find? cellType = some rule ∧ s.names.resolve cellType = source ∧
        s.names.resolve rule.newType = newType ∧
        n = (s.netlist.cellsOfType cellType).length ∧ 0 < n := by
  rw [htallies.counts (newType, source)]
  constructor
  · intro hcount
    split at hcount
    · next hmem =>
      have hpositive := List.count_pos_iff.mpr hmem
      obtain ⟨⟨id, c⟩, hentry, hcounted⟩ := List.mem_filterMap.mp hmem
      obtain ⟨rule, hrule, hpair⟩ := Option.map_eq_some_iff.mp hcounted
      obtain ⟨rfl, rfl⟩ := Prod.mk.inj hpair
      have hc := (s.netlist.cells.mem_entries id c).mp hentry
      rw [count_countedAs hcells hc hrule] at hcount hpositive
      obtain rfl := Option.some.inj hcount
      exact ⟨c.cellType, rule, hrule, rfl, rfl, rfl, hpositive⟩
    · cases hcount
  · rintro ⟨cellType, rule, hrule, rfl, rfl, rfl, hpositive⟩
    rw [Netlist.cellsOfType, List.length_map, List.length_pos_iff_exists_mem] at hpositive
    obtain ⟨⟨id, c⟩, hlisted⟩ := hpositive
    obtain ⟨hentry, htype⟩ := List.mem_filter.mp hlisted
    obtain rfl : c.cellType = cellType := of_decide_eq_true htype
    have hc := (s.netlist.cells.mem_entries id c).mp hentry
    have hmem : (s.names.resolve rule.newType, s.names.resolve c.cellType) ∈
        s.netlist.cells.entries.filterMap fun entry => countedAs rules s.names entry.2 :=
      List.mem_filterMap.mpr ⟨(id, c), hentry, by rw [countedAs, hrule]; rfl⟩
    rw [if_pos hmem, count_countedAs hcells hc hrule]

end

/-- A run over all cells retargets each of those that had a rule in the beginning as if it were alone. -/
theorem retarget_treats_cells_alone {config : Config} {start configured : Names} {rules : RuleSet}
    {s s' : Session} {summary : Summary} (hrules : RuleSet.ofConfig config start = (rules, configured))
    (hgrows : configured.Grows s.names) (hw : s.netlist.WellFormed)
    (hcells : ∀ id c, s.netlist.cell? id = some c → c.Entered s.names)
    (h : retarget rules s = .ok summary s') : Batched rules s s' summary := by
  have hgiven : ∀ cellType rule, rules.find? cellType = some rule → rule.Entered s.names :=
    fun cellType rule hrule => (RuleSet.entered_ofConfig hrules hrule).grows hgrows
  obtain ⟨t, hloop, hnames, hnetlist⟩ := retarget_ok h
  rw [Netlist.cellIds, Arena.ids, List.foldlM_map] at hloop
  have hmidway := foldlM_ok_of_done (Midway rules s)
    (fun _ _ _ _ _ _ _ hentries hbefore hstep => hbefore.step hw hgiven hcells hentries hstep)
    (.start hw) hloop
  have hmem : ∀ {id c}, (id, c) ∈ s.netlist.cells.entries ↔ s.netlist.cell? id = some c :=
    fun {id c} => s.netlist.cells.mem_entries id c
  have hruled : ∀ id c rule, s.netlist.cell? id = some c → rules.find? c.cellType = some rule →
      ∃ d, s'.netlist.cell? id = some d ∧ AsAlone rule id s s'.names d := by
    rw [hnames, hnetlist]
    exact fun id c rule hc => hmidway.became id c rule (hmem.mpr hc)
  have hothers : ∀ id, (∀ c, s.netlist.cell? id = some c → rules.find? c.cellType = none) →
      s'.netlist.cell? id = s.netlist.cell? id := by
    rw [hnetlist]
    exact fun id hid => hmidway.others id fun c hc => hid c (hmem.mp hc)
  have hlive : ∀ id, (s'.netlist.cell? id).isSome = (s.netlist.cell? id).isSome := by
    intro id
    by_cases hid : ∀ c, s.netlist.cell? id = some c → rules.find? c.cellType = none
    · rw [hothers id hid]
    · push Not at hid
      obtain ⟨c, hc, hrule⟩ := hid
      obtain ⟨rule, hrule⟩ := Option.ne_none_iff_exists'.mp hrule
      obtain ⟨d, hd, -⟩ := hruled id c rule hc hrule
      rw [hc, hd]
      rfl
  exact {
    ruled := hruled
    others := hothers
    cellIds := Arena.ids_eq fun id => by
      show id ∈ s'.netlist.cellIds ↔ id ∈ s.netlist.cellIds
      rw [Netlist.mem_cellIds, Netlist.mem_cellIds, Netlist.bare_isSome, Netlist.bare_isSome, hlive]
    total := by
      rw [hmidway.tallies.total, ruledCells, List.length_map, List.length_filterMap_eq_countP,
        List.countP_eq_length_filter]
      simp only [countedAs, Option.isSome_map]
    sums := hmidway.tallies.sums
    sources := fun _ _ _ => count?_eq_some_iff hcells hmidway.tallies }

namespace Chained

/-- Adders become slices, and slices become tables with two inputs for one. -/
def config : Config where
  chain := none
  boundary := ⟨none, none, none⟩
  lut := .empty
  normalize := ⟨[], [], []⟩
  rules := .ofList [
    ("ADD", ⟨"SLICE", .ofList [("A", "F")], .empty, .ofList [("INIT", "MODE")], .empty, .empty, .empty⟩),
    ("SLICE", ⟨"LUT", .empty, .ofList [("F", ["X", "Y"])], .empty, .empty, .empty, .empty⟩)]

def ruleSet : RuleSet := (RuleSet.ofConfig config .empty).1

def ruleNames : Names := (RuleSet.ofConfig config .empty).2

theorem ofConfig_config : RuleSet.ofConfig config .empty = (ruleSet, ruleNames) := by
  unfold ruleSet ruleNames
  rw [Prod.eta]

/-- An adder and a slice that read each other, and a cell without a rule on the same net. -/
def session : Session := (Session.start ruleNames).after [
  .enterName "S[0]", .enterName "DFF", .createCell ⟨0⟩ "add", .createCell ⟨1⟩ "gone",
  .createCell ⟨1⟩ "slice", .createCell ⟨10⟩ "ff", .createNet "a", .createNet "sum", .removeCell ⟨1⟩,
  .addPort ⟨0⟩ ⟨2⟩ .input, .addPort ⟨0⟩ ⟨9⟩ .output, .addPort ⟨2⟩ ⟨3⟩ .input, .addPort ⟨2⟩ ⟨9⟩ .output,
  .addPort ⟨3⟩ ⟨2⟩ .input, .connect ⟨0⟩ ⟨2⟩ ⟨0⟩, .connect ⟨2⟩ ⟨9⟩ ⟨0⟩, .connect ⟨0⟩ ⟨9⟩ ⟨1⟩,
  .connect ⟨2⟩ ⟨3⟩ ⟨1⟩, .connect ⟨3⟩ ⟨2⟩ ⟨1⟩,
  .write ⟨0⟩ fun c => { c with params := c.params.insert ⟨4⟩ (.text "1") }]

theorem adder_and_slice_alone :
    RuleSet.ofConfig config .empty = (ruleSet, ruleNames) ∧ ruleNames.Grows session.names ∧
      session.netlist.WellFormed ∧
      (∀ id c, session.netlist.cell? id = some c → c.Entered session.names) ∧
      ∃ s', retarget ruleSet session = .ok (.ofList [("SLICE", ⟨1, .ofList [("ADD", 1)]⟩),
          ("LUT", ⟨1, .ofList [("SLICE", 1)]⟩)]) s' ∧
        Batched ruleSet session s' (.ofList [("SLICE", ⟨1, .ofList [("ADD", 1)]⟩),
          ("LUT", ⟨1, .ofList [("SLICE", 1)]⟩)]) := by
  have hgrows : ruleNames.Grows session.names := by
    unfold Names.Grows
    decide +kernel
  have hw : session.netlist.WellFormed :=
    Session.wellFormed_after_of_wellFormed Netlist.Wired.empty.wellFormed _
  have hlisted : ∀ entry ∈ session.netlist.cells.entries, session.names.Knows entry.2.cellType ∧
      (∀ p ∈ entry.2.ports, session.names.Knows p.name) ∧
      (∀ value ∈ entry.2.params.entries, session.names.Knows value.1) ∧
      (∀ value ∈ entry.2.attrs.entries, session.names.Knows value.1) ∧
      ∀ i ∈ entry.2.bel, session.names.Knows i := by
    unfold Names.Knows
    decide +kernel
  have hcells : ∀ id c, session.netlist.cell? id = some c → c.Entered session.names := by
    intro id c hc
    obtain ⟨htype, hports, hparams, hattrs, hbel⟩ :=
      hlisted (id, c) ((session.netlist.cells.mem_entries id c).mpr hc)
    exact ⟨⟨htype, hports⟩, fun key value h => hparams _ ((c.params.mem_entries_iff key value).mpr h),
      fun key value h => hattrs _ ((c.attrs.mem_entries_iff key value).mpr h), hbel⟩
  obtain ⟨s', h⟩ : ∃ s', retarget ruleSet session = .ok (.ofList [("SLICE", ⟨1, .ofList [("ADD", 1)]⟩),
      ("LUT", ⟨1, .ofList [("SLICE", 1)]⟩)]) s' := exists_ok_of_returned (by decide +kernel)
  exact ⟨ofConfig_config, hgrows, hw, hcells, s', h,
    retarget_treats_cells_alone ofConfig_config hgrows hw hcells h⟩

end Chained
end Retarget
end FpgaPacking
