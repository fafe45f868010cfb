import FpgaPacking.Proofs.Retarget.Naming
import FpgaPacking.Proofs.Retarget.Notes
import FpgaPacking.Proofs.Retarget.Values

/-!
# The retargeted cell

A cell is retargeted exactly if its new names are distinct as texts and no output
that drives a net gets two of them.  The cell then has the new type and the new
values, its new ports stand in the order of the old ones, and its attributes note
what it was before.  What the notes say can be overwritten by the fixed attributes
of the rule.
-/

namespace FpgaPacking
namespace Retarget

open Netlist

variable {rule : RetargetRule} {id : CellId} {c : Cell} {s s₁ s₂ s₃ s₄ t : Session} {names : Names}
  {nl m : Netlist} {named : List (Port × List Ident)}

/-! ## The parts of a run -/

/-- A cell with the new type and a note of the former one. -/
def retyped (rule : RetargetRule) (key : Ident) (former : String) (c : Cell) : Cell :=
  { c with cellType := rule.newType, attrs := c.attrs.insert key (.text former) }

/-- A cell with the values that the rule gives. -/
def revalued (rule : RetargetRule) (c : Cell) : Cell :=
  { c with params := newParams rule c.params, attrs := newAttrs rule c.attrs }

/-- What a run that succeeds goes through: it finds the new names, writes the new type, replaces the
ports and writes the values. -/
structure Run (rule : RetargetRule) (id : CellId) (c : Cell) (s : Session)
    (named : List (Port × List Ident)) (s₁ s₂ s₃ s₄ t : Session) : Prop where
  found : (c.ports.mapM fun p => return (p, ← newPortNames rule p.name) :
    Packing (List (Port × List Ident))) s = .ok named s₁
  free : collision? [] (named.flatMap fun (p, new) => new.map fun name => (name, p.name)) = none
  entered : s₂.names = (s₁.names.intern formerTypeKey).2
  retyped : Edit.updateCell id
    (retyped rule (s₁.names.intern formerTypeKey).1 (s₂.names.resolve c.cellType))
      s₂.names s.netlist = .ok () s₂.netlist
  taken : (c.ports.forM fun p => takePort id p : Packing PUnit) s₂ = .ok ⟨⟩ s₃
  given : ((gives named).forM fun g => givePort id g.1 g.2 : Packing PUnit) s₃ = .ok ⟨⟩ s₄
  revalued : Edit.updateCell id (revalued rule) s₄.names s₄.netlist = .ok () t.netlist
  names : t.names = s₄.names

theorem exists_run (hc : s.netlist.cell? id = some c) (h : retargetCell rule id s = .ok () t) :
    ∃ named s₁ s₂ s₃ s₄, Run rule id c s named s₁ s₂ s₃ s₄ t := by
  unfold retargetCell at h
  rw [bind_of_ok (Packing.edit_ok.mpr ⟨_, Edit.cell_of_some s.names hc, rfl⟩)] at h
  obtain ⟨named, s₁, hnamed, h⟩ := bind_ok.mp h
  have hkeeps : Packing.Keeps (· = s.netlist)
      (c.ports.mapM fun p => return (p, ← newPortNames rule p.name)) :=
    .mapM (fun p => .bind (.name _) fun _ => .pure _) c.ports
  have hsame : s₁.netlist = s.netlist := hkeeps.of_ok hnamed rfl
  cases hfree : collision? [] (named.flatMap fun (p, new) => new.map fun name => (name, p.name)) with
  | some found =>
    simp only [hfree] at h
    cases h
  | none =>
    simp only [hfree] at h
    obtain ⟨key, s₂, hnaming, h⟩ := bind_ok.mp h
    obtain ⟨hkey, hkept, -⟩ := Packing.name_ok.mp hnaming
    obtain ⟨former, s₂', hformer, h⟩ := bind_ok.mp h
    cases hformer
    obtain ⟨u, s₂', hedit, h⟩ := bind_ok.mp h
    obtain ⟨m₂, hretype, rfl⟩ := Packing.edit_ok.mp hedit
    obtain ⟨u', s₃, htake, h⟩ := bind_ok.mp h
    obtain ⟨u'', s₄, hgive, h⟩ := bind_ok.mp h
    obtain ⟨m, hvalues, rfl⟩ := Packing.edit_ok.mp h
    rw [forM_gives] at hgive
    obtain rfl : key = (s₁.names.intern formerTypeKey).1 := (congrArg Prod.fst hkey).symm
    rw [hkept, hsame] at hretype
    exact ⟨named, s₁, { s₂ with netlist := m₂ }, s₃, s₄, hnamed, hfree, (congrArg Prod.snd hkey).symm,
      hretype, htake, hgive, hvalues, rfl⟩

namespace Run

variable (h : Run rule id c s named s₁ s₂ s₃ s₄ t)
include h

/-- Apart from its ports and attributes, the cell differs in its type and its parameters. -/
theorem core (hc : s.netlist.cell? id = some c) : t.netlist.shown core id =
    some (Retarget.core { c with cellType := rule.newType, params := newParams rule c.params }) := by
  have hkeeps : Replacing id fun nl => nl.shown Retarget.core id = s₂.netlist.shown Retarget.core id :=
    replacing_of_shown (fun _ _ => rfl) (fun _ _ => rfl) fun cells => cells id = _
  have htaken := (Packing.Keeps.forM (fun p => .edit (hkeeps.keeps_takePort p)) c.ports).of_ok h.taken rfl
  have hgiven := (Packing.Keeps.forM (fun g : Port × Ident => hkeeps.keeps_givePort g.1 g.2)
    (gives named)).of_ok h.given htaken
  have hstart : s₂.netlist.shown Retarget.core id = (s.netlist.shown Retarget.core id).map fun d =>
    { d with cellType := rule.newType } := shown_of_updateCell (fun _ => rfl) h.retyped
  have hend : t.netlist.shown Retarget.core id = (s₄.netlist.shown Retarget.core id).map fun d =>
    { d with params := newParams rule d.params } := shown_of_updateCell (fun _ => rfl) h.revalued
  have hcore : s.netlist.shown Retarget.core id = some (Retarget.core c) :=
    congrArg (Option.map Retarget.core) hc
  rw [hend, hgiven, hstart, hcore]
  rfl

theorem nodup : ((gives named).map (·.2)).Nodup := by
  have hnodup := (nodup_of_collision? h.free).1
  simpa [gives, List.map_flatMap, Function.comp_def] using hnodup

theorem ported (hw : s.netlist.WellFormed) (hc : s.netlist.cell? id = some c)
    (hports : ∀ g ∈ gives named, g.1 ∈ c.ports) :
    Ported s.netlist id ((gives named).map fun g => { g.1 with name := g.2 }) t.netlist := by
  obtain ⟨m₂, hrun, hretyped⟩ := (Ported.refl hw hc).write s₂.names (f := Retarget.retyped rule
    (s₁.names.intern formerTypeKey).1 (s₂.names.resolve c.cellType)) fun _ => rfl
  rw [h.retyped] at hrun
  cases hrun
  obtain ⟨s', hrun, htaken⟩ := Ported.takePorts hretyped
  rw [h.taken] at hrun
  cases hrun
  rcases htaken.givePorts hw hc hports h.nodup with ⟨s', hrun, hgiven⟩ | ⟨-, cell, port, net, s', hrun⟩
  · rw [h.given] at hrun
    cases hrun
    obtain ⟨m', hrun, hend⟩ := hgiven.write s₄.names (f := Retarget.revalued rule) fun _ => rfl
    rw [h.revalued] at hrun
    cases hrun
    exact hend
  · rw [h.given] at hrun
    cases hrun

/-- Taking the ports off enters no names and does not change attributes. -/
theorem taken_attrs :
    s₃.names = s₂.names ∧ s₃.netlist.shown Cell.attrs = s₂.netlist.shown Cell.attrs := by
  refine forM_ok
    (fun _ u => u.names = s₂.names ∧ u.netlist.shown Cell.attrs = s₂.netlist.shown Cell.attrs)
    (fun p rest u _ u' hu htake => ?_) ⟨rfl, rfl⟩ h.taken
  have hwires := rewiring_of_shown (g := Cell.attrs) (fun _ _ => rfl)
  obtain ⟨hnames, hshown⟩ := attrs_of_wiring (fun P => Edit.Keeps.bind (hwires P).keeps_disconnect
    fun _ => (hwires P).keeps_removePort) htake
  exact ⟨hnames.trans hu.1, hshown.trans hu.2⟩

/-- The former type and the former names are noted, and then the fixed attributes are set. -/
theorem noted (hc : s.netlist.cell? id = some c) (hcellType : s₁.names.Knows c.cellType)
    (hknown : ∀ g ∈ gives named, s₁.names.Knows g.1.name ∧ s₁.names.Knows g.2) :
    s₁.names.Grows t.names ∧ ∃ attrs, t.netlist.shown Cell.attrs id = some (newAttrs rule attrs) ∧
      Recorded t.names c.attrs attrs ((formerTypeKey, t.names.resolve c.cellType) ::
        (gives named).flatMap (portNote t.names)) := by
  obtain ⟨hsame, hshown⟩ := h.taken_attrs
  have hgrows : s₁.names.Grows s₃.names := by
    rw [hsame, h.entered]
    exact .intern s₁.names formerTypeKey
  have hlater : ∀ g ∈ gives named, s₃.names.Knows g.1.name ∧ s₃.names.Knows g.2 := fun g hg =>
    ⟨hgrows.knows (hknown g hg).1, hgrows.knows (hknown g hg).2⟩
  have hstart : s₂.netlist.shown Cell.attrs id = (s.netlist.shown Cell.attrs id).map fun attrs =>
      attrs.insert (s₁.names.intern formerTypeKey).1 (.text (s₂.names.resolve c.cellType)) :=
    shown_of_updateCell (fun _ => rfl) h.retyped
  have hattrs : s.netlist.shown Cell.attrs id = some c.attrs := congrArg (Option.map Cell.attrs) hc
  rw [hattrs, ← hshown, ← hsame] at hstart
  have hnoted : Recorded s₃.names c.attrs
      (c.attrs.insert (s₁.names.intern formerTypeKey).1 (.text (s₃.names.resolve c.cellType)))
      [(formerTypeKey, s₃.names.resolve c.cellType)] := by
    rw [hsame, h.entered]
    exact Recorded.nil.insert List.not_mem_nil
  obtain ⟨attrs, hgiven, hmore, hrecorded⟩ := recorded_of_givePorts h.given hstart hnoted (.refl _)
    hlater (nodup_notes (fun g hg => (hlater g hg).2) h.nodup)
  -- The notes name what is in the table of the first write, so they read the same at the end.
  have hnotes : (gives named).flatMap (portNote s₃.names) = (gives named).flatMap (portNote s₄.names) :=
    List.flatMap_congr fun g hg => (portNote_grows hmore (hlater g hg).1 (hlater g hg).2).symm
  have hend : t.netlist.shown Cell.attrs id = (s₄.netlist.shown Cell.attrs id).map (newAttrs rule) :=
    shown_of_updateCell (fun _ => rfl) h.revalued
  rw [h.names]
  refine ⟨hgrows.trans hmore, attrs, by rw [hend, hgiven]; rfl, ?_⟩
  rw [hmore.resolve (hgrows.knows hcellType), ← hnotes]
  exact hrecorded

end Run

/-- Nothing but the rule's own changes happens to the parameters of a retargeted cell. -/
theorem params_of_retargetCell (hc : s.netlist.cell? id = some c)
    (h : retargetCell rule id s = .ok () t) :
    ∃ d, t.netlist.cell? id = some d ∧ d.params = newParams rule c.params := by
  obtain ⟨named, s₁, s₂, s₃, s₄, hrun⟩ := exists_run hc h
  obtain ⟨d, hd, hcore⟩ := Option.map_eq_some_iff.mp (hrun.core hc)
  exact ⟨d, hd, congrArg Cell.params hcore⟩

/-! ## The cell -/

/-- The new ports in the place of one. -/
def newPorts (rule : RetargetRule) (names : Names) (p : Port) : List Port :=
  (newNames rule names p.name).map fun new => { p with name := new }

/-- The attributes say what the cell and its ports were before, unless the rule sets them otherwise.
Where they do not, they are the former ones and those that the rule sets. -/
structure Noted (rule : RetargetRule) (names : Names) (c : Cell) (attrs : Table Ident ParamValue) :
    Prop where
  formerType : ∃ key, names.find? formerTypeKey = some key ∧
    attrs.find? key = some ((rule.fixedAttrs.find? key).getD (.text (names.resolve c.cellType)))
  formerPort : ∀ p ∈ c.ports, ∀ new ∈ newNames rule names p.name, new ≠ p.name →
    ∃ key, names.find? (formerPortKey (names.resolve new)) = some key ∧
      attrs.find? key = some ((rule.fixedAttrs.find? key).getD (.text (names.resolve p.name)))
  others : ∀ key, names.find? formerTypeKey ≠ some key →
    (∀ p ∈ c.ports, ∀ new ∈ newNames rule names p.name, new ≠ p.name →
      names.find? (formerPortKey (names.resolve new)) ≠ some key) →
    attrs.find? key = (rule.fixedAttrs.find? key).or (c.attrs.find? key)

/-- The new names of all ports, each with the port that it takes the place of. -/
def replacements (rule : RetargetRule) (names : Names) (c : Cell) : List (Port × Ident) :=
  c.ports.flatMap fun p => (newNames rule names p.name).map fun new => (p, new)

theorem mem_replacements {g : Port × Ident} :
    g ∈ replacements rule names c ↔ g.1 ∈ c.ports ∧ g.2 ∈ newNames rule names g.1.name := by
  obtain ⟨p, new⟩ := g
  simp [replacements]

theorem gives_replacements : gives (c.ports.map fun p => (p, newNames rule names p.name)) =
    replacements rule names c := by
  rw [gives, replacements, List.flatMap_map]

theorem newPorts_replacements :
    (replacements rule names c).map (fun g => { g.1 with name := g.2 }) =
      c.ports.flatMap (newPorts rule names) := by
  rw [replacements, List.map_flatMap]
  exact List.flatMap_congr fun p _ => List.map_map

theorem newNames_replacements : (replacements rule names c).map (·.2) =
    c.ports.flatMap fun p => newNames rule names p.name := by
  rw [replacements, List.map_flatMap]
  exact List.flatMap_congr fun p _ => by rw [List.map_map, Function.comp_def, List.map_id']

theorem nodup_of_ported (h : Ported nl id (c.ports.flatMap (newPorts rule names)) m) :
    ((replacements rule names c).map (·.2)).Nodup := by
  have hnodup := h.nodup
  rwa [← newPorts_replacements, List.map_map] at hnodup

theorem collision?_replacements : collision? [] ((c.ports.map fun p =>
      (p, newNames rule names p.name)).flatMap fun (p, new) =>
        new.map fun name => (name, p.name)) = none ↔
    ((replacements rule names c).map (·.2)).Nodup := by
  rw [collision?_eq_none, List.flatMap_map, List.map_flatMap, newNames_replacements]
  simp only [List.map_map, Function.comp_def, List.map_id']

theorem Recorded.noted {attrs : Table Ident ParamValue}
    (h : Recorded names c.attrs attrs ((formerTypeKey, names.resolve c.cellType) ::
      (replacements rule names c).flatMap (portNote names))) :
    Noted rule names c (newAttrs rule attrs) := by
  have hfound : ∀ {text value : String}, (text, value) ∈ (formerTypeKey, names.resolve c.cellType) ::
      (replacements rule names c).flatMap (portNote names) →
      ∃ key, names.find? text = some key ∧
        (newAttrs rule attrs).find? key = some ((rule.fixedAttrs.find? key).getD (.text value)) := by
    intro text value hnote
    obtain ⟨key, hkey, hvalue⟩ := h.found _ hnote
    refine ⟨key, hkey, ?_⟩
    rw [find?_newAttrs, hvalue]
    cases rule.fixedAttrs.find? key <;> rfl
  refine ⟨hfound List.mem_cons_self, fun p hp new hnew hname => hfound (List.mem_cons_of_mem _ ?_),
    fun key htype hports => ?_⟩
  · refine List.mem_flatMap.mpr ⟨(p, new), mem_replacements.mpr ⟨hp, hnew⟩, ?_⟩
    simp [portNote, hname]
  · rw [find?_newAttrs]
    refine congrArg _ (h.others key (List.forall_mem_cons.mpr ⟨htype, fun note hnote => ?_⟩))
    obtain ⟨⟨p, new⟩, hg, hnote⟩ := List.mem_flatMap.mp hnote
    obtain ⟨hp, hnew⟩ := mem_replacements.mp hg
    unfold portNote at hnote
    split at hnote
    · next hname =>
      rw [List.mem_singleton.mp hnote]
      exact hports p hp new hnew hname
    · cases hnote

/-- The new names are distinct, and an output that drives a net gets one at most. -/
structure Fits (rule : RetargetRule) (names : Names) (c : Cell) : Prop where
  distinct : (c.ports.flatMap fun p => newTexts rule names p.name).Nodup
  single : ∀ p ∈ c.ports, p.direction = .output → p.net.isSome →
    (newTexts rule names p.name).length ≤ 1

section

variable (hw : s.netlist.WellFormed) (hc : s.netlist.cell? id = some c) (hrule : rule.Known s.names)
  (hknown : c.Known s.names)
include hw hc hrule hknown

/-- Retargeting settles the new names of the ports, replaces the cell and takes its notes. -/
theorem recorded_of_retargetCell (h : retargetCell rule id s = .ok () t) :
    Settled rule s.names t.names c.ports ∧
      Ported s.netlist id (c.ports.flatMap (newPorts rule t.names)) t.netlist ∧
      ∃ attrs, Recorded t.names c.attrs attrs ((formerTypeKey, t.names.resolve c.cellType) ::
          (replacements rule t.names c).flatMap (portNote t.names)) ∧
        t.netlist.cell? id = some { c with
          cellType := rule.newType
          ports := c.ports.flatMap (newPorts rule t.names)
          params := newParams rule c.params
          attrs := newAttrs rule attrs } := by
  obtain ⟨named, s₁, s₂, s₃, s₄, hrun⟩ := exists_run hc h
  obtain ⟨hsettled, -, rfl⟩ := settled_of_named hrun.found hrule hknown.ports
  have hgiven : ∀ g ∈ replacements rule s₁.names c,
      g.1 ∈ c.ports ∧ s₁.names.Knows g.1.name ∧ s₁.names.Knows g.2 := by
    intro g hg
    obtain ⟨hp, hnew⟩ := mem_replacements.mp hg
    exact ⟨hp, hsettled.grows.knows (hknown.ports _ hp), hsettled.knows hrule hknown.ports hp _ hnew⟩
  rw [← gives_replacements] at hgiven
  have hcore := hrun.core hc
  have hported := hrun.ported hw hc fun g hg => (hgiven g hg).1
  obtain ⟨hgrows, attrs, hattrs, hrecorded⟩ :=
    hrun.noted hc (hsettled.grows.knows hknown.cellType) fun g hg => (hgiven g hg).2
  -- The names of the ports have been settled before and are the same at the end.
  have hlater : replacements rule s₁.names c = replacements rule t.names c :=
    List.flatMap_congr fun p hp => by rw [hsettled.newNames_eq hrule hknown.ports hgrows hp]
  rw [gives_replacements, hlater, newPorts_replacements] at hported
  rw [gives_replacements, hlater] at hrecorded
  refine ⟨hsettled.grown hgrows, hported, attrs, hrecorded, ?_⟩
  -- Ports, attributes and the rest are the whole cell.
  obtain ⟨d, hd, hports⟩ := hported.ports
  have hshown : core d = core { c with cellType := rule.newType, params := newParams rule c.params } :=
    Option.some.inj ((congrArg (Option.map core) hd).symm.trans hcore)
  have hsaid : d.attrs = newAttrs rule attrs :=
    Option.some.inj ((congrArg (Option.map Cell.attrs) hd).symm.trans hattrs)
  rw [hd, ← hports, ← hsaid]
  exact congrArg some (congrArg (fun e : Cell => { e with ports := d.ports, attrs := d.attrs }) hshown)

theorem cell_of_retargetCell (h : retargetCell rule id s = .ok () t) :
    Settled rule s.names t.names c.ports ∧
      Ported s.netlist id (c.ports.flatMap (newPorts rule t.names)) t.netlist ∧
      ∃ attrs, Noted rule t.names c attrs ∧ t.netlist.cell? id = some { c with
        cellType := rule.newType
        ports := c.ports.flatMap (newPorts rule t.names)
        params := newParams rule c.params
        attrs := attrs } := by
  obtain ⟨hsettled, hported, attrs, hrecorded, hd⟩ := recorded_of_retargetCell hw hc hrule hknown h
  exact ⟨hsettled, hported, newAttrs rule attrs, hrecorded.noted, hd⟩

/-- A cell is retargeted if and only if its rule fits it. -/
theorem retargetCell_ok_iff : (∃ t, retargetCell rule id s = .ok () t) ↔ Fits rule s.names c := by
  constructor
  · rintro ⟨t, h⟩
    obtain ⟨hsettled, hported, -⟩ := cell_of_retargetCell hw hc hrule hknown h
    refine ⟨(hsettled.nodup_iff hrule hknown.ports).mp ?_, fun p hp hout hnet => ?_⟩
    · exact newNames_replacements ▸ nodup_of_ported hported
    · -- Two new ports in the place of one would both drive the net.
      obtain ⟨d, hd, hports⟩ := hported.ports
      have hapart := pairwise_apart hported.wellFormed hd
      rw [hports, List.pairwise_flatMap] at hapart
      have hthese := List.pairwise_map.mp (hapart.1 p hp)
      obtain ⟨k, hk⟩ := Option.isSome_iff_exists.mp hnet
      rw [← hsettled.texts hrule hknown.ports hp, List.length_map]
      match hnew : newNames rule t.names p.name with
      | [] => exact Nat.zero_le _
      | [_] => exact Nat.le_refl _
      | a :: b :: rest =>
        rw [hnew] at hthese
        exact absurd hout ((List.pairwise_cons.mp hthese).1 b List.mem_cons_self k hk hk hout)
  · intro hfits
    obtain ⟨named, s₁, hnaming, hsame, hports, hnamed⟩ := exists_named rule c.ports s
    obtain ⟨hsettled, -, rfl⟩ := settled_of_named hnaming hrule hknown.ports
    have hnodup := (hsettled.nodup_iff hrule hknown.ports).mpr hfits.distinct
    rw [← newNames_replacements] at hnodup
    have hone : OneDriver rule c := by
      intro p hp hout hnet new hnew
      have hlength := hfits.single p hp hout hnet
      rwa [newTexts, hnew, List.length_map] at hlength
    refine (retargetCell_of_apart hw hc hnaming hsame hports
      (collision?_replacements.mpr hnodup)).resolve_left fun hclash => ?_
    exact hclash.1 (pairwise_gives hw hc hone hports hnamed)

end

end Retarget
end FpgaPacking
