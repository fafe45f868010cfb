import FpgaPacking.Netlist.Canonical
import FpgaPacking.Proofs.Names
import FpgaPacking.Proofs.Netlist.Values
import FpgaPacking.Proofs.Numbering.Handles
import Mathlib.Data.List.Perm.Basic

/-!
# The fingerprint does not depend on numbering

The canonical text shows names and never identifiers.  The one place where numbers
could show is the order of parameters and attributes, which are listed by number
in the table of a cell.  The text sorts them by name, and the sorted list does not
depend on the order before sorting.

Values are displayed before they are sorted.  A value that cannot be displayed is a
fault, and which of several such values is met first depends on the numbers.  The
texts are therefore compared where there are any.
-/

namespace FpgaPacking

/-! ## Answers up to faults -/

section

variable {ε α β γ δ : Type}

theorem toOption_bind {x y : Except ε α} {f g : α → Except ε β} (hxy : y.toOption = x.toOption)
    (hfg : ∀ a, (g a).toOption = (f a).toOption) :
    (y >>= g).toOption = (x >>= f).toOption := by
  have hbind : ∀ (z : Except ε α) (h : α → Except ε β),
      (z >>= h).toOption = z.toOption.bind fun a => (h a).toOption := by
    intro z h
    cases z <;> rfl
  rw [hbind, hbind, hxy, funext hfg]

theorem toOption_mapM {P : γ → δ → Prop} {f : γ → Except ε α} {g : δ → Except ε α}
    (hfg : ∀ c d, P c d → (g d).toOption = (f c).toOption) {l : List γ} {l' : List δ}
    (hl : List.Forall₂ P l l') : (l'.mapM g).toOption = (l.mapM f).toOption := by
  induction hl with
  | nil => rfl
  | cons hcd _ ih =>
    rw [List.mapM_cons, List.mapM_cons]
    exact toOption_bind (hfg _ _ hcd) fun a => toOption_bind ih fun as => rfl

/-- What is shown of a list in another order is what is shown of the list, in another order. -/
theorem mapM_of_perm (f : γ → Except ε α) {l l' : List γ} (h : l.Perm l') :
    Option.Rel List.Perm (l.mapM f).toOption (l'.mapM f).toOption := by
  have hok : ∀ {l l' : List γ} {r : List α}, l.Perm l' → l.mapM f = .ok r →
      ∃ r', l'.mapM f = .ok r' ∧ r.Perm r' := by
    intro l l' r h hr
    obtain ⟨r', hr', hperm⟩ := List.perm_comp_forall₂ h.symm (except_mapM_ok.mp hr)
    exact ⟨r', except_mapM_ok.mpr hr', hperm.symm⟩
  cases hr : l.mapM f with
  | ok r =>
    obtain ⟨r', hr', hperm⟩ := hok h hr
    rw [hr']
    exact .some hperm
  | error e =>
    cases hr' : l'.mapM f with
    | error e' => exact .none
    | ok r' =>
      obtain ⟨r, hr'', -⟩ := hok h.symm hr'
      rw [hr] at hr''
      cases hr''

end

/-! ## Tables of values -/

namespace Netlist

variable {names names' : Names} {t t' : Table Ident ParamValue}

/-- The entries of a table with their names. -/
def namedEntries (names : Names) (t : Table Ident ParamValue) : List (String × ParamValue) :=
  t.entries.map fun entry => (names.resolve entry.1, entry.2)

theorem mem_namedEntries {name : String} {value : ParamValue} :
    (name, value) ∈ namedEntries names t ↔
      ∃ key, t.find? key = some value ∧ names.resolve key = name := by
  unfold namedEntries
  simp [← Table.mem_entries_iff]

/-- Entered names are different, so a table lists none twice. -/
theorem nodup_namedEntries (h : t.Covered (names.matching names') Eq t') :
    (namedEntries names t).Nodup := by
  have hentered : ∀ entry ∈ t.entries,
      names.entered[entry.1.index]? = some (names.resolve entry.1) := by
    intro entry hentry
    obtain ⟨_, _, ⟨name, hname, _⟩, _⟩ :=
      h entry.1 entry.2 ((t.mem_entries_iff entry.1 entry.2).mp hentry)
    rw [hname, Names.resolve_of_entered hname]
  refine List.pairwise_map.mpr (t.sorted.imp_of_mem fun {e e'} he he' hlt heq => ?_)
  obtain ⟨hname, -⟩ := Prod.mk.inj heq
  have hkey : e.1 = e'.1 := Names.eq_of_entered (hentered e he) (hname ▸ hentered e' he')
  rw [hkey] at hlt
  exact absurd (hlt.symm.trans Std.ReflCmp.compare_self) (by decide)

theorem namedEntries_subset (h : t.Covered (names.matching names') Eq t') :
    namedEntries names t ⊆ namedEntries names' t' := by
  rintro ⟨name, value⟩ hentry
  obtain ⟨key, hfound, rfl⟩ := mem_namedEntries.mp hentry
  obtain ⟨key', _, hkey, rfl, hfound'⟩ := h key value hfound
  exact mem_namedEntries.mpr ⟨key', hfound', Names.resolve_of_matching hkey⟩

theorem perm_namedEntries (h : t.Alike (names.matching names') Eq t') :
    (namedEntries names t).Perm (namedEntries names' t') := by
  have hback : t'.Covered (names'.matching names) Eq t :=
    h.back.mono Names.symm_matching_le fun _ _ => Eq.symm
  refine (List.perm_ext_iff_of_nodup (nodup_namedEntries h.forth) (nodup_namedEntries hback)).mpr ?_
  exact fun entry => ⟨(namedEntries_subset h.forth ·), (namedEntries_subset hback ·)⟩

/-- The order in which the canonical text lists shown values. -/
def byText : String × String → String × String → Ordering :=
  compareLex (compareOn (·.1)) (compareOn (·.2))

instance : Std.TransCmp byText := by
  unfold byText
  infer_instance

def shownBefore (a b : String × String) : Bool := (byText a b).isLE

theorem sort_of_perm {l l' : List (String × String)} (h : l.Perm l') :
    l'.mergeSort shownBefore = l.mergeSort shownBefore := by
  have htotal : ∀ a b, (shownBefore a b || shownBefore b a) = true := by
    intro a b
    have hswap : byText b a = (byText a b).swap := Std.OrientedCmp.eq_swap
    unfold shownBefore
    rw [hswap]
    cases byText a b <;> rfl
  have hsorted : ∀ l : List (String × String),
      (l.mergeSort shownBefore).Pairwise fun a b => shownBefore a b = true :=
    List.pairwise_mergeSort (fun _ _ _ => Std.TransCmp.isLE_trans) htotal
  -- Two sorted lists of the same items are equal because no two different items are tied.
  refine List.Perm.eq_of_pairwise (fun a b _ _ hab hba => ?_) (hsorted l') (hsorted l) ?_
  · have heq := compareLex_eq_eq.mp (Std.OrientedCmp.isLE_antisymm hab hba)
    exact Prod.ext (Std.LawfulEqCmp.eq_of_compare heq.1) (Std.LawfulEqCmp.eq_of_compare heq.2)
  · exact (l'.mergeSort_perm _).trans (h.symm.trans (l.mergeSort_perm _).symm)

/-- An entry as text. -/
def showEntry (entry : String × ParamValue) : Except Fault (String × String) := do
  return (entry.1, ← entry.2.display)

theorem valueLines_eq (names : Names) (kind : String) (t : Table Ident ParamValue) :
    (valueLines names kind t).toOption = ((namedEntries names t).mapM showEntry).toOption.map
      fun shown => (shown.mergeSort shownBefore).map fun e => s!"  {kind} {e.1} {e.2}\n" := by
  unfold namedEntries valueLines
  rw [List.mapM_map]
  show (t.entries.mapM (fun e => showEntry (names.resolve e.1, e.2)) >>= _).toOption =
    (t.entries.mapM fun e => showEntry (names.resolve e.1, e.2)).toOption.map _
  cases t.entries.mapM fun e => showEntry (names.resolve e.1, e.2) <;> rfl

theorem valueLines_of_alike (kind : String) (h : t.Alike (names.matching names') Eq t') :
    (valueLines names' kind t').toOption = (valueLines names kind t).toOption := by
  rw [valueLines_eq, valueLines_eq]
  match ((namedEntries names t).mapM showEntry).toOption,
    ((namedEntries names' t').mapM showEntry).toOption,
    mapM_of_perm showEntry (perm_namedEntries h) with
  | _, _, .none => rfl
  | _, _, .some hperm =>
    rw [Option.map_some, Option.map_some, sort_of_perm hperm]

theorem exists_valueLines (names : Names) (kind : String) {table : Table Ident ParamValue}
    (h : table.Built) :
    ∃ lines, valueLines names kind table = .ok lines := by
  obtain ⟨shown, hshown⟩ : ∃ shown, (table.entries.mapM fun entry =>
      return (names.resolve entry.1, ← entry.2.display) : Except Fault (List (String × String))) =
        .ok shown := by
    refine exists_mapM_ok fun entry hentry => ?_
    have hbuilt := h entry.1 entry.2 ((table.mem_entries_iff _ _).mp hentry)
    obtain ⟨text, htext⟩ := hbuilt.exists_display
    exact ⟨(names.resolve entry.1, text), except_bind_ok.mpr ⟨text, htext, rfl⟩⟩
  exact ⟨_, except_bind_ok.mpr ⟨shown, hshown, rfl⟩⟩

/-! ## Lines -/

variable {nl nl' : Netlist}

namespace Renumbered

variable {R : Renaming} {C : Renumbering .cell} {N : Renumbering .net} (h : nl.Renumbered R C N nl')
include h

theorem cellName {id id' : CellId} (hid : nl.cells.Meets C nl'.cells id id') :
    nl'.cellName id' = nl.cellName id := by
  unfold Netlist.cellName cell?
  match nl.cells.get? id, nl'.cells.get? id', h.cells.get?_of_meets hid with
  | _, _, .none => rfl
  | _, _, .some hc => exact hc.name

theorem portNetName {p p' : Port} (hp : p.Renumbered R (nl.nets.Meets N nl'.nets) p') :
    nl'.portNetName p' = nl.portNetName p := by
  have hnet : Option.Rel (Net.Renumbered R (nl.cells.Meets C nl'.cells)) (p.net.bind nl.net?)
      (p'.net.bind nl'.net?) := by
    match p.net, p'.net, hp.net with
    | _, _, .none => exact .none
    | _, _, .some hk => exact h.nets.get?_of_meets hk
  unfold Netlist.portNetName
  generalize p.net.bind nl.net? = n, p'.net.bind nl'.net? = n' at hnet ⊢
  cases hnet with
  | none => rfl
  | some hn => exact hn.name

theorem membershipLines {m m' : Membership} (hm : m.Renumbered (nl.cells.Meets C nl'.cells) m') :
    nl'.membershipLines m' = nl.membershipLines m := by
  have hchildren : ∀ line : String → String, m'.children.map (fun child => line (nl'.cellName child)) =
      m.children.map fun child => line (nl.cellName child) :=
    fun line => map_eq_of_forall₂ (fun _ _ hchild => congrArg line (h.cellName hchild)) hm.children
  unfold Netlist.membershipLines
  match m.root, m'.root, hm.root with
  | _, _, .none => rfl
  | _, _, .some hroot =>
    dsimp only
    rw [hchildren fun name => s!"  child {name}\n", hm.offset, h.cellName hroot]

end Renumbered

section

variable {C : Renumbering .cell} {N : Renumbering .net}
  (h : nl.Renumbered (names.matching names') C N nl')
include h

theorem portLine_of_renumbered {p p' : Port}
    (hp : p.Renumbered (names.matching names') (nl.nets.Meets N nl'.nets) p') :
    portLine names' nl' p' = portLine names nl p := by
  unfold portLine
  rw [Names.resolve_of_matching hp.name, hp.direction, h.portNetName hp]

theorem cellLines_of_renumbered {c c' : Cell} (hc : c.Renumbered (names.matching names')
      (nl.cells.Meets C nl'.cells) (nl.nets.Meets N nl'.nets) c') :
    (cellLines names' nl' c').toOption = (cellLines names nl c).toOption := by
  have hline : ∀ (names : Names) (bel : Option Ident),
      (bel.toList.map fun bel => s!"  bel {names.resolve bel}\n") =
        (bel.map names.resolve).toList.map fun name => s!"  bel {name}\n" := by
    intro names bel
    cases bel <;> rfl
  have hbel : c'.bel.map names'.resolve = c.bel.map names.resolve := by
    match c.bel, c'.bel, hc.bel with
    | _, _, .none => rfl
    | _, _, .some hbel => exact congrArg some (Names.resolve_of_matching hbel)
  have hports : c'.ports.map (portLine names' nl') = c.ports.map (portLine names nl) :=
    map_eq_of_forall₂ (fun _ _ hp => portLine_of_renumbered h hp) hc.ports
  unfold cellLines
  rw [hline, hline, hbel, hports, hc.name, hc.role, h.membershipLines hc.cluster,
    Names.resolve_of_matching hc.cellType]
  refine toOption_bind (valueLines_of_alike "param" hc.params) fun params => ?_
  exact toOption_bind (valueLines_of_alike "attr" hc.attrs) fun attrs => rfl

theorem connectionLine_of_renumbered (kind : String) {r r' : PortRef}
    (hr : r.Renumbered (names.matching names') (nl.cells.Meets C nl'.cells) r') :
    connectionLine names' nl' kind r' = connectionLine names nl kind r := by
  unfold connectionLine
  rw [h.cellName hr.cell, Names.resolve_of_matching hr.port]

theorem netLines_of_renumbered {n n' : Net}
    (hn : n.Renumbered (names.matching names') (nl.cells.Meets C nl'.cells) n') :
    netLines names' nl' n' = netLines names nl n := by
  have hdriver : n'.driver.toList.map (connectionLine names' nl' "driver") =
      n.driver.toList.map (connectionLine names nl "driver") := by
    match n.driver, n'.driver, hn.driver with
    | _, _, .none => rfl
    | _, _, .some hd => exact congrArg (fun line => [line]) (connectionLine_of_renumbered h "driver" hd)
  have hsinks : n'.sinks.map (connectionLine names' nl' "sink") =
      n.sinks.map (connectionLine names nl "sink") :=
    map_eq_of_forall₂ (fun _ _ hs => connectionLine_of_renumbered h "sink" hs) hn.sinks
  unfold netLines
  rw [hdriver, hsinks, hn.name, hn.constant]

/-! ## Texts -/

/-- Netlists that differ in handles and numbering only have the same canonical text. -/
theorem canonicalText_of_renumbered :
    (nl'.canonicalText names').toOption = (nl.canonicalText names).toOption := by
  have hnets : (nl'.nets.entries.map fun entry => netLines names' nl' entry.2) =
      nl.nets.entries.map fun entry => netLines names nl entry.2 :=
    map_eq_of_forall₂ (fun _ _ he => netLines_of_renumbered h he.2) h.nets.entries
  unfold canonicalText
  rw [hnets]
  have hcells := toOption_mapM (fun _ _ he => cellLines_of_renumbered h he.2) h.cells.entries
  exact toOption_bind hcells fun cells => rfl

/-- What is made of the canonical text is the same as well. -/
theorem digest_of_renumbered {δ : Type} (digest : String → δ) :
    ((nl'.canonicalText names').map digest).toOption =
      ((nl.canonicalText names).map digest).toOption := by
  have hmap : ∀ x : Except Fault String, (x.map digest).toOption = x.toOption.map digest := by
    intro x
    cases x <;> rfl
  rw [hmap, hmap, canonicalText_of_renumbered h]

end

/-- There is a canonical text if the values on the cells have been built. -/
theorem exists_canonicalText (names : Names) (h : nl.BuiltValues) :
    ∃ text, nl.canonicalText names = .ok text := by
  obtain ⟨cells, hcells⟩ : ∃ cells, nl.cells.entries.mapM (fun entry =>
      cellLines names nl entry.2) = .ok cells := by
    refine exists_mapM_ok fun entry hentry => ?_
    obtain ⟨hparams, hattrs⟩ := h entry.1 entry.2 ((nl.cells.mem_entries _ _).mp hentry)
    obtain ⟨params, hparams⟩ := exists_valueLines names "param" hparams
    obtain ⟨attrs, hattrs⟩ := exists_valueLines names "attr" hattrs
    exact ⟨_, except_bind_ok.mpr ⟨params, hparams, except_bind_ok.mpr ⟨attrs, hattrs, rfl⟩⟩⟩
  exact ⟨_, except_bind_ok.mpr ⟨cells, hcells, rfl⟩⟩

/-- Netlists that differ in the numbering of names only have the same fingerprint. -/
theorem fingerprint_of_alike (h : nl.Alike (names.matching names') nl') :
    (nl'.fingerprint names').toOption = (nl.fingerprint names).toOption :=
  digest_of_renumbered h.renumbered Digest.ofText

/-- Two netlists have the same text, and so have the same of whatever is made of it. -/
structure SameText (names names' : Names) (nl nl' : Netlist) : Prop where
  text : ∀ text, nl'.canonicalText names' = .ok text ↔ nl.canonicalText names = .ok text
  digest : ∀ {δ : Type} (digest : String → δ) (d : δ),
    (nl'.canonicalText names').map digest = .ok d ↔ (nl.canonicalText names).map digest = .ok d
  fingerprint : ∀ d, nl'.fingerprint names' = .ok d ↔ nl.fingerprint names = .ok d
  exists_text : nl.BuiltValues → ∃ text, nl.canonicalText names = .ok text

/-- Neither the handles of cells and nets nor the numbers of names show in the canonical text. -/
theorem sameText_of_renumbered {C : Renumbering .cell} {N : Renumbering .net}
    (h : nl.Renumbered (names.matching names') C N nl') : SameText names names' nl nl' := by
  have hiff : ∀ {δ : Type} (digest : String → δ) (d : δ),
      (nl'.canonicalText names').map digest = .ok d ↔ (nl.canonicalText names).map digest = .ok d := by
    intro δ digest d
    have hsame := digest_of_renumbered h digest
    exact ⟨fun hd => eq_ok_of_toOption (by rw [← hsame, hd]; rfl),
      fun hd => eq_ok_of_toOption (by rw [hsame, hd]; rfl)⟩
  have hsame := canonicalText_of_renumbered h
  exact {
    text := fun text => ⟨fun htext => eq_ok_of_toOption (by rw [← hsame, htext]; rfl),
      fun htext => eq_ok_of_toOption (by rw [hsame, htext]; rfl)⟩
    digest := hiff
    fingerprint := hiff Digest.ofText
    exists_text := exists_canonicalText names }

namespace Gaps

/-- A table and a flip-flop in one cluster, with nothing removed. -/
def dense : Session := (Session.start .empty).after [
  .enterName "TABLE", .enterName "INIT", .enterName "A", .enterName "Z", .enterName "FF",
  .enterName "MODE", .createCell ⟨0⟩ "t", .createCell ⟨4⟩ "f", .createNet "a", .createNet "z",
  .addPort ⟨0⟩ ⟨2⟩ .input, .addPort ⟨0⟩ ⟨3⟩ .output, .addPort ⟨1⟩ ⟨2⟩ .input,
  .connect ⟨0⟩ ⟨2⟩ ⟨0⟩, .connect ⟨0⟩ ⟨3⟩ ⟨1⟩, .connect ⟨1⟩ ⟨2⟩ ⟨1⟩,
  .write ⟨0⟩ fun c => { c with params := .ofList [(⟨1⟩, .int 2), (⟨5⟩, .text "fast")] },
  .buildCluster ⟨0⟩ .zero [(⟨1⟩, .inSlot 0 0 1)]]

/-- The same with other names first, and with cells and nets removed before and in between. -/
def gapped : Session := (Session.start .empty).after [
  .enterName "MODE", .enterName "Z", .enterName "unused", .enterName "FF", .enterName "INIT",
  .enterName "A", .enterName "TABLE", .createCell ⟨2⟩ "gone", .createNet "gone",
  .createCell ⟨6⟩ "t", .createCell ⟨2⟩ "spare", .createCell ⟨3⟩ "f", .createNet "a",
  .createNet "spare", .createNet "z", .removeCell ⟨0⟩, .removeCell ⟨2⟩, .removeNet ⟨0⟩, .removeNet ⟨2⟩,
  .addPort ⟨1⟩ ⟨5⟩ .input, .addPort ⟨1⟩ ⟨1⟩ .output, .addPort ⟨3⟩ ⟨5⟩ .input,
  .connect ⟨1⟩ ⟨5⟩ ⟨1⟩, .connect ⟨1⟩ ⟨1⟩ ⟨3⟩, .connect ⟨3⟩ ⟨5⟩ ⟨3⟩,
  .write ⟨1⟩ fun c => { c with params := .ofList [(⟨4⟩, .int 2), (⟨0⟩, .text "fast")] },
  .buildCluster ⟨1⟩ .zero [(⟨3⟩, .inSlot 0 0 1)]]

def cells : Renumbering .cell := .ofPairs [(⟨0⟩, ⟨1⟩), (⟨1⟩, ⟨3⟩)] (by decide)

def nets : Renumbering .net := .ofPairs [(⟨0⟩, ⟨1⟩), (⟨1⟩, ⟨3⟩)] (by decide)

/-- The table under given numbers. -/
def table (cellType init a z mode : Ident) (self member : CellId) (onA onZ : NetId) : Cell :=
  { Cell.create cellType "t" with
    ports := [⟨a, .input, some onA⟩, ⟨z, .output, some onZ⟩]
    params := .ofList [(init, .int 2), (mode, .text "fast")]
    cluster := ⟨some self, .zero, [member]⟩ }

/-- The flip-flop under given numbers. -/
def flop (cellType a : Ident) (root : CellId) (onZ : NetId) : Cell :=
  { Cell.create cellType "f" with
    ports := [⟨a, .input, some onZ⟩]
    cluster := ⟨some root, .inSlot 0 0 1, []⟩ }

theorem entries_dense :
    dense.netlist.cells.entries =
      [(⟨0⟩, table ⟨0⟩ ⟨1⟩ ⟨2⟩ ⟨3⟩ ⟨5⟩ ⟨0⟩ ⟨1⟩ ⟨0⟩ ⟨1⟩), (⟨1⟩, flop ⟨4⟩ ⟨2⟩ ⟨0⟩ ⟨1⟩)] ∧
    dense.netlist.nets.entries = [(⟨0⟩, ⟨"a", none, [⟨⟨0⟩, ⟨2⟩⟩], none⟩),
      (⟨1⟩, ⟨"z", some ⟨⟨0⟩, ⟨3⟩⟩, [⟨⟨1⟩, ⟨2⟩⟩], none⟩)] := by
  decide +kernel

theorem entries_gapped :
    gapped.netlist.cells.entries =
      [(⟨1⟩, table ⟨6⟩ ⟨4⟩ ⟨5⟩ ⟨1⟩ ⟨0⟩ ⟨1⟩ ⟨3⟩ ⟨1⟩ ⟨3⟩), (⟨3⟩, flop ⟨3⟩ ⟨5⟩ ⟨1⟩ ⟨3⟩)] ∧
    gapped.netlist.nets.entries = [(⟨1⟩, ⟨"a", none, [⟨⟨1⟩, ⟨5⟩⟩], none⟩),
      (⟨3⟩, ⟨"z", some ⟨⟨1⟩, ⟨1⟩⟩, [⟨⟨3⟩, ⟨5⟩⟩], none⟩)] := by
  decide +kernel

/-- The numbers of each name in the two tables. -/
def numbers : List (Ident × Ident) :=
  [(⟨0⟩, ⟨6⟩), (⟨1⟩, ⟨4⟩), (⟨2⟩, ⟨5⟩), (⟨3⟩, ⟨1⟩), (⟨4⟩, ⟨3⟩), (⟨5⟩, ⟨0⟩)]

theorem matching_of_mem {i j : Ident} (h : (i, j) ∈ numbers) :
    dense.names.matching gapped.names i j := by
  have hnamed : ∀ pair ∈ numbers, dense.names.Knows pair.1 ∧ gapped.names.Knows pair.2 ∧
      gapped.names.resolve pair.2 = dense.names.resolve pair.1 := by
    unfold Names.Knows
    decide +kernel
  obtain ⟨hi, hj, hresolve⟩ := hnamed (i, j) h
  exact Names.matching_of_resolve hi hj hresolve

theorem renumbered_dense : dense.netlist.Renumbered (dense.names.matching gapped.names) cells nets
    gapped.netlist := by
  have hinput := matching_of_mem (i := ⟨2⟩) (j := ⟨5⟩) (by decide)
  have houtput := matching_of_mem (i := ⟨3⟩) (j := ⟨1⟩) (by decide)
  have htable : cells ⟨0⟩ ⟨1⟩ := by simp [cells, Renumbering.ofPairs]
  have hflop : cells ⟨1⟩ ⟨3⟩ := by simp [cells, Renumbering.ofPairs]
  have ha : nets ⟨0⟩ ⟨1⟩ := by simp [nets, Renumbering.ofPairs]
  have hz : nets ⟨1⟩ ⟨3⟩ := by simp [nets, Renumbering.ofPairs]
  constructor
  · refine Arena.renumbered_of_entries ?_
    rw [entries_dense.1, entries_gapped.1]
    refine .cons ⟨htable, ?_⟩ (.cons ⟨hflop, ?_⟩ .nil)
    · exact {
        name := rfl
        cellType := matching_of_mem (by decide)
        ports := .cons ⟨hinput, rfl, .some (.inl ha)⟩ (.cons ⟨houtput, rfl, .some (.inl hz)⟩ .nil)
        params := .ofList (.cons ⟨matching_of_mem (by decide), rfl⟩
          (.cons ⟨matching_of_mem (by decide), rfl⟩ .nil))
        attrs := .empty
        bel := .none
        role := rfl
        cluster := ⟨.some (.inl htable), rfl, .cons (.inl hflop) .nil⟩ }
    · exact {
        name := rfl
        cellType := matching_of_mem (by decide)
        ports := .cons ⟨hinput, rfl, .some (.inl hz)⟩ .nil
        params := .empty
        attrs := .empty
        bel := .none
        role := rfl
        cluster := ⟨.some (.inl htable), rfl, .nil⟩ }
  · refine Arena.renumbered_of_entries ?_
    rw [entries_dense.2, entries_gapped.2]
    refine .cons ⟨ha, rfl, .none, .cons ⟨.inl htable, hinput⟩ .nil, rfl⟩ (.cons ⟨hz, ?_⟩ .nil)
    exact ⟨rfl, .some ⟨.inl htable, houtput⟩, .cons ⟨.inl hflop, hinput⟩ .nil, rfl⟩

theorem sameText_dense :
    dense.netlist.WellFormed ∧ gapped.netlist.WellFormed ∧
      dense.netlist.Renumbered (dense.names.matching gapped.names) cells nets gapped.netlist ∧
      SameText dense.names gapped.names dense.netlist gapped.netlist :=
  ⟨Session.wellFormed_after_of_wellFormed Wired.empty.wellFormed _,
    Session.wellFormed_after_of_wellFormed Wired.empty.wellFormed _, renumbered_dense,
    sameText_of_renumbered renumbered_dense⟩

end Gaps
end Netlist
end FpgaPacking
