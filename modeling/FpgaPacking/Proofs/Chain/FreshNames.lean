import FpgaPacking.Proofs.Chain.Packed

/-!
# Names of cells and nets stay distinct

The cells and nets that packing makes are named by a base, a dollar sign and the
number that the counter stands at.  Each number is given out once, so two such
names differ in their numbers.  The counter knows nothing of the names that were
there before, and an earlier cell may have the name of a boundary cell to come.  If
no name claims a number that is still to be given out, all names stay distinct, and
no name claims such a number afterwards.
-/

namespace FpgaPacking

/-! ## Numbers at the end of names -/

/-- The name that the counter makes of a base. -/
def numbered (base : String) (number : Nat) : String := base ++ "$" ++ toString number

theorem dollar_notMem_toDigits (n : Nat) : '$' ∉ Nat.toDigits 10 n := by
  intro h
  exact absurd (Nat.isDigit_of_mem_toDigits (by decide) (by decide) h) (by decide)

/-- What follows the last dollar sign can be read off. -/
theorem takeWhile_reverse {base digits : List Char} (h : '$' ∉ digits) :
    ((base ++ '$' :: digits).reverse.takeWhile (· ≠ '$')).reverse = digits := by
  have hdigits : ∀ c ∈ digits.reverse, decide (c ≠ '$') = true := by
    intro c hc
    have hmem : c ∈ digits := List.mem_reverse.mp hc
    exact decide_eq_true fun he => h (he ▸ hmem)
  rw [List.reverse_append, List.reverse_cons, List.append_assoc,
    List.takeWhile_append_of_pos hdigits]
  simp

/-- Names with different numbers are different, whatever their bases. -/
theorem number_eq {base base' : String} {m n : Nat} (h : numbered base m = numbered base' n) :
    m = n := by
  have hchars : base.toList ++ '$' :: Nat.toDigits 10 m = base'.toList ++ '$' :: Nat.toDigits 10 n := by
    have hlist := congrArg String.toList h
    simpa [numbered, Nat.toString_eq_ofList_toDigits] using hlist
  have hdigits : Nat.toDigits 10 m = Nat.toDigits 10 n :=
    calc Nat.toDigits 10 m = ((base.toList ++ '$' :: Nat.toDigits 10 m).reverse.takeWhile
          (· ≠ '$')).reverse := (takeWhile_reverse (dollar_notMem_toDigits m)).symm
      _ = ((base'.toList ++ '$' :: Nat.toDigits 10 n).reverse.takeWhile (· ≠ '$')).reverse := by
        rw [hchars]
      _ = Nat.toDigits 10 n := takeWhile_reverse (dollar_notMem_toDigits n)
  calc m = Nat.ofDigitChars 10 (Nat.toDigits 10 m) 0 := Nat.ofDigitChars_ten_toDigits.symm
    _ = Nat.ofDigitChars 10 (Nat.toDigits 10 n) 0 := by rw [hdigits]
    _ = n := Nat.ofDigitChars_ten_toDigits

/-! ## Distinct names -/

section Labels

variable {α : Type} {label : α → Option String} {kind : String → Prop} {counter : Nat} {base : String}

/-- Different things have different names. -/
def Distinct (label : α → Option String) : Prop :=
  ∀ a b name, label a = some name → label b = some name → a = b

/-- Nothing has a name that the counter is still to make of a base of the given kind. -/
def Unclaimed (label : α → Option String) (kind : String → Prop) (counter : Nat) : Prop :=
  ∀ a base number, kind base → counter ≤ number → label a ≠ some (numbered base number)

theorem Unclaimed.mono {counter' : Nat} (h : Unclaimed label kind counter)
    (hle : counter ≤ counter') : Unclaimed label kind counter' :=
  fun a base number hkind hlater => h a base number hkind (hle.trans hlater)

/-- A name without a dollar sign claims nothing. -/
theorem Unclaimed.of_dollar (h : ∀ a name, label a = some name → '$' ∉ name.toList) :
    Unclaimed label kind counter := by
  intro a base number _ _ hname
  refine h a _ hname ?_
  simp [numbered]

variable [DecidableEq α]

/-- A new thing that gets the next name of the kind is the only one with this name. -/
theorem Distinct.update (h : Distinct label) (hunclaimed : Unclaimed label kind counter)
    (hbase : kind base) (new : α) :
    Distinct (Function.update label new (some (numbered base counter))) := by
  have hother : ∀ a, a ≠ new → label a ≠ some (numbered base counter) :=
    fun a _ => hunclaimed a base counter hbase le_rfl
  intro a b name ha hb
  by_cases hanew : a = new
  · by_cases hbnew : b = new
    · exact hanew.trans hbnew.symm
    · rw [hanew, Function.update_self] at ha
      rw [Function.update_of_ne hbnew, ← ha] at hb
      exact absurd hb (hother b hbnew)
  · rw [Function.update_of_ne hanew] at ha
    by_cases hbnew : b = new
    · rw [hbnew, Function.update_self] at hb
      rw [← hb] at ha
      exact absurd ha (hother a hanew)
    · rw [Function.update_of_ne hbnew] at hb
      exact h a b name ha hb

/-- The name that was given away does not claim a later number. -/
theorem Unclaimed.update (h : Unclaimed label kind counter) (base : String) (new : α) :
    Unclaimed (Function.update label new (some (numbered base counter))) kind (counter + 1) := by
  intro a base' number hkind hlater
  by_cases hnew : a = new
  · rw [hnew, Function.update_self]
    intro hsame
    have hnumber : counter = number := number_eq (Option.some.inj hsame)
    omega
  · rw [Function.update_of_ne hnew]
    exact h a base' number hkind (by omega)

end Labels

/-! ## Names of a netlist -/

namespace Netlist

variable {nl nl' : Netlist} {id : CellId} {k : NetId}

/-- The name of a live cell. -/
def cellName? (nl : Netlist) (id : CellId) : Option String := (nl.cell? id).map (·.name)

/-- The name of a live net. -/
def netName? (nl : Netlist) (k : NetId) : Option String := (nl.net? k).map (·.name)

/-- The live cells have distinct names, and so have the live nets. -/
structure DistinctNames (nl : Netlist) : Prop where
  cells : Distinct nl.cellName?
  nets : Distinct nl.netName?

/-- The bases of the names of boundary cells. -/
def BoundaryBase (base : String) : Prop :=
  ∃ (anchor : String) (role : Role), role ≠ .normal ∧ base = anchor ++ "$" ++ role.nameTag

/-- The bases of the names of the nets that boundary cells are linked by. -/
def LinkBase (base : String) : Prop := ∃ cell : String, base = cell ++ "$chain"

/-- No cell has the name of a boundary cell to come, and no net that of a link to come. -/
structure UnclaimedNames (nl : Netlist) : Prop where
  cells : Unclaimed nl.cellName? BoundaryBase nl.nameCounter
  nets : Unclaimed nl.netName? LinkBase nl.nameCounter

/-- Whether the names are distinct can be read off the listings. -/
theorem DistinctNames.of_entries (hcells : (nl.cells.entries.map (·.2.name)).Nodup)
    (hnets : (nl.nets.entries.map (·.2.name)).Nodup) : nl.DistinctNames where
  cells a b name ha hb := by
    obtain ⟨c, hc, rfl⟩ := Option.map_eq_some_iff.mp ha
    obtain ⟨d, hd, hname⟩ := Option.map_eq_some_iff.mp hb
    have hentry := List.inj_on_of_nodup_map hcells ((nl.cells.mem_entries a c).mpr hc)
      ((nl.cells.mem_entries b d).mpr hd) hname.symm
    exact congrArg (·.1) hentry
  nets k l name hk hl := by
    obtain ⟨m, hm, rfl⟩ := Option.map_eq_some_iff.mp hk
    obtain ⟨n, hn, hname⟩ := Option.map_eq_some_iff.mp hl
    have hentry := List.inj_on_of_nodup_map hnets ((nl.nets.mem_entries k m).mpr hm)
      ((nl.nets.mem_entries l n).mpr hn) hname.symm
    exact congrArg (·.1) hentry

/-- Names without dollar signs can be read off the listings, too. -/
theorem UnclaimedNames.of_entries (hcells : ∀ entry ∈ nl.cells.entries, '$' ∉ entry.2.name.toList)
    (hnets : ∀ entry ∈ nl.nets.entries, '$' ∉ entry.2.name.toList) : nl.UnclaimedNames where
  cells := .of_dollar fun id name hname => by
    obtain ⟨c, hc, rfl⟩ := Option.map_eq_some_iff.mp hname
    exact hcells (id, c) ((nl.cells.mem_entries id c).mpr hc)
  nets := .of_dollar fun k name hname => by
    obtain ⟨n, hn, rfl⟩ := Option.map_eq_some_iff.mp hname
    exact hnets (k, n) ((nl.nets.mem_entries k n).mpr hn)

/-- All names are distinct, and those to come will be. -/
structure Named (nl : Netlist) : Prop where
  distinct : nl.DistinctNames
  unclaimed : nl.UnclaimedNames

namespace Named

/-- Only the names and the counter matter. -/
theorem congr (h : nl.Named) (hbare : nl'.bare = nl.bare) (htag : nl'.tag = nl.tag)
    (hcounter : nl'.nameCounter = nl.nameCounter) : nl'.Named := by
  have hcells : nl'.cellName? = nl.cellName? := by
    funext id
    have hname : (nl'.cell? id).map (fun c => c.unwired.name) =
        (nl.cell? id).map (fun c => c.unwired.name) := by
      simpa [bare, Option.map_map, Function.comp_def] using
        congrArg (Option.map (·.name)) (congrFun hbare id)
    exact hname
  have hnets : nl'.netName? = nl.netName? := by
    funext k
    have hname := congrArg (Option.map (·.1)) (congrFun htag k)
    simpa [tag, netName?, Option.map_map, Function.comp_def] using hname
  refine ⟨⟨?_, ?_⟩, ?_, ?_⟩
  · rw [hcells]
    exact h.distinct.cells
  · rw [hnets]
    exact h.distinct.nets
  · rw [hcells, hcounter]
    exact h.unclaimed.cells
  · rw [hnets, hcounter]
    exact h.unclaimed.nets

/-- A cell changes and keeps its name. -/
theorem mapCell (h : nl.Named) {f : Cell → Cell} (hf : ∀ c, (f c).name = c.name) :
    (nl.mapCell id f).Named := by
  have hcells : (nl.mapCell id f).cellName? = nl.cellName? := by
    funext other
    unfold cellName?
    rw [cell?_mapCell]
    by_cases hid : other = id
    · rw [if_pos hid, hid]
      simp [Option.map_map, Function.comp_def, hf]
    · rw [if_neg hid]
  exact ⟨⟨hcells ▸ h.distinct.cells, h.distinct.nets⟩, hcells ▸ h.unclaimed.cells, h.unclaimed.nets⟩

/-- A boundary cell comes with the next number. -/
theorem addCell (h : nl.Named) {base : String} (hbase : BoundaryBase base) (cellType : Ident) :
    ({ nl with nameCounter := nl.nameCounter + 1 }.addCell
      (.create cellType (numbered base nl.nameCounter))).Named := by
  have hcells : ({ nl with nameCounter := nl.nameCounter + 1 }.addCell
      (.create cellType (numbered base nl.nameCounter))).cellName? =
      Function.update nl.cellName? nl.nextCell (some (numbered base nl.nameCounter)) := by
    funext id
    unfold cellName?
    rw [cell?_addCell]
    by_cases hid : id = nl.nextCell
    · rw [hid, Function.update_self]
      exact congrArg _ (if_pos rfl)
    · rw [Function.update_of_ne hid]
      exact congrArg _ (if_neg hid)
  refine ⟨⟨?_, h.distinct.nets⟩, ?_, h.unclaimed.nets.mono (Nat.le_succ _)⟩
  · rw [hcells]
    exact h.distinct.cells.update h.unclaimed.cells hbase nl.nextCell
  · rw [hcells]
    exact h.unclaimed.cells.update base nl.nextCell

/-- A link comes with the next number. -/
theorem addNet (h : nl.Named) {base : String} (hbase : LinkBase base) :
    ({ nl with nameCounter := nl.nameCounter + 1 }.addNet
      (.create (numbered base nl.nameCounter))).Named := by
  have hnets : ({ nl with nameCounter := nl.nameCounter + 1 }.addNet
      (.create (numbered base nl.nameCounter))).netName? =
      Function.update nl.netName? nl.nextNet (some (numbered base nl.nameCounter)) := by
    funext k
    unfold netName?
    rw [net?_addNet]
    by_cases hk : k = nl.nextNet
    · rw [hk, Function.update_self]
      exact congrArg _ (if_pos rfl)
    · rw [Function.update_of_ne hk]
      exact congrArg _ (if_neg hk)
  refine ⟨⟨h.distinct.cells, ?_⟩, h.unclaimed.cells.mono (Nat.le_succ _), ?_⟩
  · rw [hnets]
    exact h.distinct.nets.update h.unclaimed.nets hbase nl.nextNet
  · rw [hnets]
    exact h.unclaimed.nets.update base nl.nextNet

end Named
end Netlist

/-! ## Operations -/

namespace Edit

open Netlist

variable {id : CellId} {port : Ident} {k : NetId}

theorem keeps_named_connect : Keeps Named (connect id port k) := by
  intro names nl h
  rcases connect_cases names with ⟨e, hrun⟩ | ⟨p, -, ⟨-, hrun⟩ | ⟨-, n, -, -, hrun⟩⟩
  · rw [hrun]
    exact h
  · rw [hrun]
    exact h
  · rw [hrun]
    exact h.congr bare_attach tag_attach rfl

theorem keeps_named_disconnect : Keeps Named (disconnect id port) := by
  intro names nl h
  rcases disconnect_cases names with ⟨e, hrun⟩ | ⟨p, -, ⟨-, hrun⟩ | ⟨k, n, -, -, hrun⟩⟩
  · rw [hrun]
    exact h
  · rw [hrun]
    exact h
  · rw [hrun]
    exact h.congr bare_detach tag_detach rfl

theorem keeps_named_addPort (direction : Direction) : Keeps Named (addPort id port direction) := by
  intro names nl h
  rcases addPort_cases names with ⟨e, hrun⟩ | ⟨c, -, ⟨-, hrun⟩ | ⟨-, hrun⟩⟩
  · rw [hrun]
    exact h
  · rw [hrun]
    exact h
  · rw [hrun]
    exact h.mapCell fun _ => rfl

theorem keeps_named_updateCell {f : Cell → Cell} (hf : ∀ c, (f c).name = c.name) :
    Keeps Named (updateCell id f) := by
  intro names nl h
  rcases updateCell_cases names with ⟨e, hrun⟩ | ⟨c, -, hrun⟩
  · rw [hrun]
    exact h
  · rw [hrun]
    exact h.mapCell hf

end Edit

namespace Chain

open Netlist Edit

/-- The name of a link is given away as soon as it is made. -/
theorem keeps_named_linkNet (id : CellId) : Keeps Named (linkNet id) := by
  refine Keeps.bind (Keeps.cell id) fun c => ?_
  intro names nl h
  exact h.addNet ⟨c.name, rfl⟩

/-- An instance keeps the name that it is created with. -/
theorem keeps_named_finish (t : CellTemplate) (id : CellId) : Keeps Named (do
    t.ports.forM fun (port, direction) => addPort id port direction
    updateCell id fun c => { c with params := t.params }
    return id) := by
  refine Keeps.bind (Keeps.forM (fun p => keeps_named_addPort p.2) t.ports) fun _ => ?_
  exact Keeps.bind (keeps_named_updateCell fun _ => rfl) fun _ => Keeps.pure id

/-- So is the name of a boundary cell. -/
theorem keeps_named_boundaryCell (f : Fabric) (role : Role) (anchor : CellId)
    (hrole : role ≠ .normal) : Packing.Keeps Named (boundaryCell f role anchor) := by
  refine Packing.Keeps.bind (.check _) fun t => ?_
  refine Packing.Keeps.bind (.edit (Keeps.cell anchor)) fun c => ?_
  intro s h
  have hname : (liftM (uniqueName (c.name ++ "$" ++ role.nameTag)) : Packing String) s =
      .ok (numbered (c.name ++ "$" ++ role.nameTag) s.netlist.nameCounter)
        { s with netlist := { s.netlist with nameCounter := s.netlist.nameCounter + 1 } } := rfl
  rw [bind_of_ok hname]
  refine Invariant.finalState_bind (I := fun s : Session => Named s.netlist) (fun id => ?_) ?_
  · refine Packing.Keeps.bind (.name _) fun key => ?_
    exact Packing.Keeps.bind (.edit (keeps_named_updateCell fun _ => rfl)) fun _ => .pure _
  · -- From the creation of the cell on the names are as they should be.
    rw [Packing.netlist_edit]
    have hcell := h.addCell ⟨c.name, role, hrole, rfl⟩ t.cell.cellType
    exact keeps_named_finish t.cell s.netlist.nextCell s.names _ hcell

theorem splicing_named (f : Fabric) : Splicing f Named where
  keeps_boundaryCell := keeps_named_boundaryCell f
  keeps_linkNet := keeps_named_linkNet
  keeps_connect := keeps_named_connect
  keeps_disconnect := keeps_named_disconnect

/-- Packing keeps the names of all cells and nets distinct, whether or not it succeeds, if no name
claims a number that the counter is still to give out.  Afterwards no name does. -/
theorem packChains_keeps_names_distinct {s : Session} (hdistinct : s.netlist.DistinctNames)
    (hunclaimed : s.netlist.UnclaimedNames) (f : Fabric) :
    (finalState (packChains f s)).netlist.DistinctNames ∧
      (finalState (packChains f s)).netlist.UnclaimedNames := by
  have hbuild : ∀ root rootOffset members, Keeps Named (Cluster.build root rootOffset members) :=
    Cluster.keeps_build_of fun id m => keeps_named_updateCell fun _ => rfl
  have hend := (splicing_named f).keeps_packChains hbuild s ⟨hdistinct, hunclaimed⟩
  exact ⟨hend.distinct, hend.unclaimed⟩

namespace Adder

/-- The names of the carry cells and of their boundary cells are distinct. -/
theorem names_distinct : ∃ segments s', packChains fabric session = .ok segments s' ∧
    s'.netlist.DistinctNames ∧ s'.netlist.UnclaimedNames := by
  obtain ⟨s', h⟩ := packs
  have hdistinct : session.netlist.DistinctNames := .of_entries (by decide +kernel) (by decide +kernel)
  have hunclaimed : session.netlist.UnclaimedNames :=
    .of_entries (by decide +kernel) (by decide +kernel)
  have hend := packChains_keeps_names_distinct hdistinct hunclaimed fabric
  rw [h] at hend
  exact ⟨_, s', h, hend⟩

/-- A cell has the name that the counter makes for the feed-in of the low carry cell. -/
def claimed : Session := session.after [.createCell ⟨0⟩ "low$feed_in$0"]

/-- The feed-in gets this name as well. -/
theorem claimed_repeated : config.validate = .ok () ∧
    Fabric.ofConfig config .empty = (.ok fabric, names) ∧ Packable fabric claimed.netlist ∧
    claimed.netlist.DistinctNames ∧
    ∃ segments s', packChains fabric claimed = .ok segments s' ∧ ¬s'.netlist.DistinctNames := by
  have hpackable : Packable fabric claimed.netlist :=
    .of_entries (Session.wellFormed_after_of_wellFormed packable.wellFormed _) (by decide +kernel)
  have hdistinct : claimed.netlist.DistinctNames := .of_entries (by decide +kernel) (by decide +kernel)
  refine ⟨rfl, ofConfig_config, hpackable, hdistinct, ?_⟩
  obtain ⟨s', h⟩ : ∃ s', packChains fabric claimed =
      .ok [⟨[⟨5⟩, ⟨1⟩, ⟨6⟩, ⟨2⟩, ⟨7⟩], 2⟩] s' := exists_ok_of_returned (by decide +kernel)
  have hsame : ∀ id ∈ [⟨4⟩, ⟨5⟩], (finalState (packChains fabric claimed)).netlist.cellName? id =
      some "low$feed_in$0" := by decide +kernel
  rw [h] at hsame
  refine ⟨_, s', h, fun hnames => ?_⟩
  exact absurd (hnames.cells ⟨4⟩ ⟨5⟩ _ (hsame _ (by simp)) (hsame _ (by simp))) (by decide)

end Adder

end Chain
end FpgaPacking
