import FpgaPacking.Proofs.Names
import FpgaPacking.Proofs.Retarget.Ports
import FpgaPacking.Proofs.Structural

/-!
# What is left alone and what is noted

While the ports of a cell are replaced, other cells read their nets in the same
order as before, and the cell changes in its ports and attributes only.  The
attributes are notes of former names: each has a text for its key and a text for
its value, and as no two notes have the same key, none overwrites another.
-/

namespace FpgaPacking
namespace Retarget

open Netlist

variable {nl m : Netlist} {id : CellId} {rule : RetargetRule} {names later : Names}
  {before attrs : Table Ident ParamValue} {notes : List (String × String)} {s t : Session} {p : Port}
  {new : Ident}

/-! ## Other cells -/

/-- The readers of a net at other cells, in their order. -/
def othersOn (id : CellId) (nl : Netlist) (k : NetId) : Option (List PortRef) :=
  (nl.net? k).map fun n => n.sinks.filter fun r => r.cell ≠ id

/-- Nothing but cells and connections of the cell may differ. -/
structure Beside (id : CellId) (nl m : Netlist) : Prop where
  others : othersOn id m = othersOn id nl
  queue : m.queue = nl.queue
  tiedLow : m.tiedLow = nl.tiedLow
  tiedHigh : m.tiedHigh = nl.tiedHigh
  nameCounter : m.nameCounter = nl.nameCounter

theorem Beside.refl (id : CellId) (nl : Netlist) : Beside id nl nl := ⟨rfl, rfl, rfl, rfl, rfl⟩

theorem Beside.mapCell (h : Beside id nl m) (other : CellId) (f : Cell → Cell) :
    Beside id nl (m.mapCell other f) :=
  ⟨h.others, h.queue, h.tiedLow, h.tiedHigh, h.nameCounter⟩

theorem keeps_beside_updateCell (other : CellId) (f : Cell → Cell) :
    Edit.Keeps (Beside id nl) (Edit.updateCell other f) := by
  intro names m h
  rcases Edit.updateCell_cases names with ⟨e, hrun⟩ | ⟨c, -, hrun⟩
  · rw [hrun]
    exact h
  · rw [hrun]
    exact h.mapCell other f

theorem othersOn_attach (port : Ident) (d : Direction) (k : NetId) :
    othersOn id (nl.attach ⟨id, port⟩ d k) = othersOn id nl := by
  funext k'
  unfold othersOn
  rw [net?_attach]
  by_cases hk : k' = k
  · rw [if_pos hk, hk, Option.map_map]
    refine congrArg (Option.map · _) (funext fun n => ?_)
    cases d <;> simp [Net.hold, Net.drive, Net.addSink]
  · rw [if_neg hk]

theorem othersOn_detach (port : Ident) (k : NetId) :
    othersOn id (nl.detach ⟨id, port⟩ k) = othersOn id nl := by
  funext k'
  unfold othersOn
  rw [net?_detach]
  by_cases hk : k' = k
  · rw [if_pos hk, hk, Option.map_map]
    refine congrArg (Option.map · _) (funext fun n => ?_)
    simp only [Function.comp_apply, Net.detach, List.filter_filter]
    refine List.filter_congr fun r _ => ?_
    by_cases hr : r.cell = id
    · simp [hr]
    · have hne : r ≠ ⟨id, port⟩ := fun e => hr (congrArg PortRef.cell e)
      simp [hr, hne]
  · rw [if_neg hk]

open Edit in
theorem retargeting_beside (rule : RetargetRule) (id : CellId) (nl : Netlist) :
    RetargetingCell rule id (Beside id nl) where
  keeps_addPort _ names m h := by
    rcases addPort_cases names with ⟨e, hrun⟩ | ⟨c, -, ⟨-, hrun⟩ | ⟨-, hrun⟩⟩
    · rw [hrun]
      exact h
    · rw [hrun]
      exact h
    · rw [hrun]
      exact h.mapCell id _
  keeps_removePort names m h := by
    rcases removePort_cases names with ⟨e, hrun⟩ | ⟨p, -, -, hrun⟩
    · rw [hrun]
      exact h
    · rw [hrun]
      exact h.mapCell id _
  keeps_connect names m h := by
    rcases connect_cases names with ⟨e, hrun⟩ | ⟨p, -, ⟨-, hrun⟩ | ⟨-, n, -, -, hrun⟩⟩
    · rw [hrun]
      exact h
    · rw [hrun]
      exact h
    · rw [hrun]
      exact { h with others := (othersOn_attach _ _ _).trans h.others }
  keeps_disconnect names m h := by
    rcases disconnect_cases names with ⟨e, hrun⟩ | ⟨p, -, ⟨-, hrun⟩ | ⟨k, n, -, -, hrun⟩⟩
    · rw [hrun]
      exact h
    · rw [hrun]
      exact h
    · rw [hrun]
      exact { h with others := (othersOn_detach _ _).trans h.others }
  keeps_note _ := keeps_beside_updateCell id _
  keeps_retype _ := keeps_beside_updateCell id _
  keeps_values := keeps_beside_updateCell id _

/-! ## The cell itself -/

/-- Whatever wiring does not show in is kept while ports are replaced, if notes do not show either. -/
theorem replacing_of_shown {γ : Type} {g : Cell → γ} (hports : ∀ c ports, g { c with ports } = g c)
    (hattrs : ∀ c attrs, g { c with attrs } = g c) (P : (CellId → Option γ) → Prop) :
    Replacing id fun nl => P (nl.shown g) where
  keeps_addPort := (rewiring_of_shown hports P).keeps_addPort
  keeps_removePort := (rewiring_of_shown hports P).keeps_removePort
  keeps_connect := (rewiring_of_shown hports P).keeps_connect
  keeps_disconnect := (rewiring_of_shown hports P).keeps_disconnect
  keeps_note former names m h := by
    rcases Edit.updateCell_cases names with ⟨e, hrun⟩ | ⟨c, -, hrun⟩
    · rw [hrun]
      exact h
    · rw [hrun]
      show P ((m.mapCell id _).shown g)
      rw [shown_mapCell fun c => hattrs c _]
      exact h

/-- A cell without its ports and attributes. -/
def core (c : Cell) : Cell := { c with ports := [], attrs := .empty }

/-- A write shows in the cell as it changes what is shown. -/
theorem shown_of_updateCell {γ : Type} {g : Cell → γ} {f : Cell → Cell} {change : γ → γ} {m' : Netlist}
    (hg : ∀ c, g (f c) = change (g c)) (h : Edit.updateCell id f names m = .ok () m') :
    m'.shown g id = (m.shown g id).map change := by
  rcases Edit.updateCell_cases names with ⟨e, hrun⟩ | ⟨c, -, hrun⟩
  · rw [hrun] at h
    cases h
  · rw [hrun] at h
    cases h
    unfold shown
    rw [cell?_mapCell, if_pos rfl, Option.map_map, Option.map_map]
    exact congrArg (Option.map · _) (funext hg)

/-! ## Notes -/

/-- The notes are in the attributes, and otherwise these are as before. -/
structure Recorded (names : Names) (before attrs : Table Ident ParamValue)
    (notes : List (String × String)) : Prop where
  found : ∀ note ∈ notes, ∃ key, names.find? note.1 = some key ∧ attrs.find? key = some (.text note.2)
  others : ∀ key, (∀ note ∈ notes, names.find? note.1 ≠ some key) → attrs.find? key = before.find? key

namespace Recorded

theorem nil : Recorded names attrs attrs [] := ⟨nofun, fun _ _ => rfl⟩

theorem grows (h : Recorded names before attrs notes) (hgrows : names.Grows later) :
    Recorded later before attrs notes where
  found note hnote := by
    obtain ⟨key, hkey, hvalue⟩ := h.found note hnote
    exact ⟨key, hgrows.find? hkey, hvalue⟩
  others key hkey := h.others key fun note hnote hfound => hkey note hnote (hgrows.find? hfound)

theorem insert {text value : String} (h : Recorded names before attrs notes)
    (hnew : text ∉ notes.map (·.1)) :
    Recorded (names.intern text).2 before (attrs.insert (names.intern text).1 (.text value))
      (notes ++ [(text, value)]) := by
  have hlater := h.grows (.intern names text)
  have hkey : (names.intern text).2.find? text = some (names.intern text).1 :=
    Names.find?_eq_some.mpr (Names.entered_intern names text)
  constructor
  · intro note hnote
    rcases List.mem_append.mp hnote with hnote | hnote
    · obtain ⟨key, hfound, hvalue⟩ := hlater.found note hnote
      have hne : key ≠ (names.intern text).1 := by
        rintro rfl
        have hsame : note.1 = text := Option.some.inj
          ((Names.find?_eq_some.mp hfound).symm.trans (Names.find?_eq_some.mp hkey))
        exact hnew (hsame ▸ List.mem_map_of_mem hnote)
      refine ⟨key, hfound, ?_⟩
      rw [Table.find?_insert, beq_eq_false_iff_ne.mpr hne]
      exact hvalue
    · rw [List.mem_singleton.mp hnote]
      exact ⟨_, hkey, by simp [Table.find?_insert]⟩
  · -- What has no note had none before and is not the new key.
    intro key hfree
    rw [List.forall_mem_append, List.forall_mem_singleton] at hfree
    have hne : key ≠ (names.intern text).1 := fun e => hfree.2 (e ▸ hkey)
    rw [Table.find?_insert, beq_eq_false_iff_ne.mpr hne]
    exact hlater.others key hfree.1

end Recorded

/-- What a new port has been, if its name is new. -/
def portNote (names : Names) (give : Port × Ident) : List (String × String) :=
  if give.2 ≠ give.1.name then [(formerPortKey (names.resolve give.2), names.resolve give.1.name)] else []

theorem recorded_of_note {old : Ident} (h : noteFormer id old new s = .ok () t)
    (hattrs : s.netlist.shown Cell.attrs id = some attrs) (hrecorded : Recorded s.names before attrs notes)
    (hold : s.names.Knows old)
    (hnew : new ≠ old → formerPortKey (s.names.resolve new) ∉ notes.map (·.1)) :
    ∃ attrs', t.netlist.shown Cell.attrs id = some attrs' ∧ s.names.Grows t.names ∧
      Recorded t.names before attrs' (notes ++
        if new ≠ old then [(formerPortKey (s.names.resolve new), s.names.resolve old)] else []) := by
  unfold noteFormer at h
  split at h
  · next hname =>
    obtain ⟨text, s₁, htext, h⟩ := bind_ok.mp h
    cases htext
    obtain ⟨key, s₂, hkey, h⟩ := bind_ok.mp h
    obtain ⟨former, s₃, hformer, h⟩ := bind_ok.mp h
    cases hformer
    cases hkey
    obtain ⟨m, hwrite, rfl⟩ := Packing.edit_ok.mp h
    rw [if_pos hname]
    have hgrows := Names.Grows.intern s.names (formerPortKey (s.names.resolve new))
    refine ⟨_, ?_, hgrows, hrecorded.insert (hnew hname)⟩
    have hshown : m.shown Cell.attrs id = (s.netlist.shown Cell.attrs id).map fun attrs =>
        attrs.insert (s.names.intern (formerPortKey (s.names.resolve new))).1
          (.text ((s.names.intern (formerPortKey (s.names.resolve new))).2.resolve old)) :=
      shown_of_updateCell (fun _ => rfl) hwrite
    rw [hgrows.resolve hold, hattrs] at hshown
    exact hshown
  · next hname =>
    obtain ⟨-, rfl⟩ := pure_ok.mp h
    rw [if_neg hname, List.append_nil]
    exact ⟨attrs, hattrs, .refl _, hrecorded⟩

theorem attrs_of_wiring {x : Edit Unit}
    (hx : ∀ P : (CellId → Option (Table Ident ParamValue)) → Prop,
      Edit.Keeps (fun nl => P (nl.shown Cell.attrs)) x)
    (h : (liftM x : Packing Unit) s = .ok () t) :
    t.names = s.names ∧ t.netlist.shown Cell.attrs = s.netlist.shown Cell.attrs := by
  obtain ⟨m, hrun, rfl⟩ := Packing.edit_ok.mp h
  exact ⟨rfl, (hx fun cells => cells = s.netlist.shown Cell.attrs).of_ok hrun rfl⟩

theorem recorded_of_givePort (h : givePort id p new s = .ok () t)
    (hattrs : s.netlist.shown Cell.attrs id = some attrs) (hrecorded : Recorded s.names before attrs notes)
    (hold : s.names.Knows p.name) (hnew : ((notes ++ portNote s.names (p, new)).map (·.1)).Nodup) :
    ∃ attrs', t.netlist.shown Cell.attrs id = some attrs' ∧ s.names.Grows t.names ∧
      Recorded t.names before attrs' (notes ++ portNote s.names (p, new)) := by
  have hwires := rewiring_of_shown (g := Cell.attrs) (fun _ _ => rfl)
  unfold givePort at h
  obtain ⟨u, s₁, hadd, h⟩ := bind_ok.mp h
  obtain ⟨hnames₁, hshown₁⟩ := attrs_of_wiring (fun P => (hwires P).keeps_addPort _) hadd
  obtain ⟨s₂, hnames, hshown, hnote⟩ : ∃ s₂, s₂.names = s.names ∧
      s₂.netlist.shown Cell.attrs = s.netlist.shown Cell.attrs ∧
      noteFormer id p.name new s₂ = .ok () t := by
    cases hnet : p.net with
    | none =>
      rw [hnet] at h
      exact ⟨s₁, hnames₁, hshown₁, h⟩
    | some k =>
      rw [hnet] at h
      obtain ⟨u', s₂, hconnect, h⟩ := bind_ok.mp h
      obtain ⟨hnames₂, hshown₂⟩ := attrs_of_wiring (fun P => (hwires P).keeps_connect) hconnect
      exact ⟨s₂, hnames₂.trans hnames₁, hshown₂.trans hshown₁, h⟩
  rw [← hnames] at hold hrecorded hnew ⊢
  refine recorded_of_note hnote (hshown ▸ hattrs) hrecorded hold fun hname hmem => ?_
  rw [List.map_append, List.nodup_append] at hnew
  exact hnew.2.2 _ hmem _ (by simp [portNote, hname]) rfl

theorem portNote_grows {give : Port × Ident} (hgrows : names.Grows later)
    (hold : names.Knows give.1.name) (hnew : names.Knows give.2) :
    portNote later give = portNote names give := by
  unfold portNote
  rw [hgrows.resolve hold, hgrows.resolve hnew]

theorem recorded_of_givePorts {gives : List (Port × Ident)}
    (h : (gives.forM fun g => givePort id g.1 g.2 : Packing PUnit) s = .ok ⟨⟩ t)
    (hattrs : s.netlist.shown Cell.attrs id = some attrs) (hrecorded : Recorded s.names before attrs notes)
    (hgrows : names.Grows s.names)
    (hknown : ∀ g ∈ gives, names.Knows g.1.name ∧ names.Knows g.2)
    (hnew : ((notes ++ gives.flatMap (portNote names)).map (·.1)).Nodup) :
    ∃ attrs', t.netlist.shown Cell.attrs id = some attrs' ∧ s.names.Grows t.names ∧
      Recorded t.names before attrs' (notes ++ gives.flatMap (portNote names)) := by
  -- The notes are worded in the first table, which the tables of the later ports contain.
  induction gives generalizing s attrs notes with
  | nil =>
    obtain ⟨-, rfl⟩ := pure_ok.mp h
    exact ⟨attrs, hattrs, .refl _, by simpa using hrecorded⟩
  | cons g gives ih =>
    obtain ⟨⟨hold, hname⟩, hknown⟩ := List.forall_mem_cons.mp hknown
    obtain ⟨u, s₁, hgive, h⟩ := bind_ok.mp h
    rw [List.flatMap_cons, ← List.append_assoc] at hnew ⊢
    have hfirst : ((notes ++ portNote s.names (g.1, g.2)).map (·.1)).Nodup := by
      rw [portNote_grows hgrows hold hname]
      rw [List.map_append] at hnew
      exact hnew.of_append_left
    obtain ⟨attrs₁, hattrs₁, hgrows₁, hrecorded₁⟩ :=
      recorded_of_givePort hgive hattrs hrecorded (hgrows.knows hold) hfirst
    rw [portNote_grows hgrows hold hname] at hrecorded₁
    obtain ⟨attrs', hattrs', hgrows', hrecorded'⟩ :=
      ih h hattrs₁ hrecorded₁ (hgrows.trans hgrows₁) hknown hnew
    exact ⟨attrs', hattrs', hgrows₁.trans hgrows', hrecorded'⟩

/-! ## Keys of notes -/

theorem formerPortKey_inj {a b : String} (h : formerPortKey a = formerPortKey b) : a = b := by
  have hlist := congrArg String.toList h
  simp only [formerPortKey, String.toList_append] at hlist
  exact String.ext (List.append_cancel_left hlist)

theorem formerTypeKey_ne (port : String) : formerTypeKey ≠ formerPortKey port := by
  intro h
  have hlist := congrArg (fun text : String => text.toList[7]?) h
  simp [formerTypeKey, formerPortKey, String.toList_append] at hlist

/-- No two notes of a cell with distinct new names are alike. -/
theorem nodup_notes {gives : List (Port × Ident)} {former : String}
    (hknown : ∀ g ∈ gives, names.Knows g.2) (hnodup : (gives.map (·.2)).Nodup) :
    (((formerTypeKey, former) :: gives.flatMap (portNote names)).map (·.1)).Nodup := by
  have hkeys : (gives.flatMap (portNote names)).map (·.1) =
      (gives.filter fun g => g.2 ≠ g.1.name).map fun g => formerPortKey (names.resolve g.2) := by
    clear hknown hnodup
    induction gives with
    | nil => rfl
    | cons g gives ih =>
      rw [List.flatMap_cons, List.map_append, ih]
      unfold portNote
      by_cases hname : g.2 = g.1.name <;> simp [hname]
  rw [List.map_cons, hkeys]
  refine List.nodup_cons.mpr ⟨fun hmem => ?_, ?_⟩
  · obtain ⟨g, -, hg⟩ := List.mem_map.mp hmem
    exact formerTypeKey_ne _ hg.symm
  · refine List.Nodup.map_on (fun g hg g' hg' heq => ?_) ((List.Nodup.of_map _ hnodup).filter _)
    have hmem := List.mem_of_mem_filter hg
    have hmem' := List.mem_of_mem_filter hg'
    have hsame := (hknown g hmem).resolve_inj (hknown g' hmem') (formerPortKey_inj heq)
    exact List.inj_on_of_nodup_map hnodup hmem hmem' hsame

end Retarget
end FpgaPacking
