import FpgaPacking.Proofs.Netlist.Progress
import FpgaPacking.Proofs.Reachable

/-!
# Deletion in two phases

Cells are queued, and a flush removes them all at once together with the nets they
leave unconnected.  Queued cells may share nets, drive each other or loop on
themselves, and a net may become unconnected only with the last of many removals.
So what is said of a flush that is part of the way through refers to the netlist
before it: a net has kept, in order, those of its ports that are still on it.
`Stripped` is that description.  It is the same after every disconnection and every
removal of a cell, and it does not depend on their order.

`Purged` is what comes of it in the end.  Only cells in clusters stop a flush.
-/

namespace FpgaPacking

theorem Table.mem_keys {κ ν : Type} [Ord κ] [Std.TransOrd κ] [Std.LawfulEqOrd κ] [BEq κ]
    [LawfulBEq κ] {table : Table κ ν} {key : κ} :
    key ∈ table.keys ↔ table.contains key = true := by
  unfold Table.contains Table.keys
  rw [Option.isSome_iff_exists, List.mem_map]
  constructor
  · rintro ⟨⟨_, value⟩, hmem, rfl⟩
    exact ⟨value, (table.mem_entries_iff _ value).mp hmem⟩
  · rintro ⟨value, hvalue⟩
    exact ⟨(key, value), (table.mem_entries_iff key value).mpr hvalue, rfl⟩

/-! ## Nets without some of their ports -/

namespace Net

/-- The net with those of its ports that are to be kept. -/
def select (keep : PortRef → Bool) (n : Net) : Net :=
  { n with driver := n.driver.filter keep, sinks := n.sinks.filter keep }

/-- The net without the ports of cells that go. -/
def without (gone : CellId → Bool) (n : Net) : Net := n.select fun r => !gone r.cell

/-- Whether nothing is connected to the net and it has no constant. -/
def isUnused (n : Net) : Bool := n.isFloating && n.constant.isNone

/-- Whether a cell that goes is on the net, which is unused without the cells that go. -/
def isOrphaned (gone : CellId → Bool) (n : Net) : Bool :=
  (n.ports.any fun r => gone r.cell) && (n.without gone).isUnused

variable {n : Net} {keep keep' : PortRef → Bool} {r : PortRef}

theorem constant_without {gone : CellId → Bool} : (n.without gone).constant = n.constant := rfl

theorem detach_eq_select : n.detach r = n.select fun q => q ≠ r := by
  unfold detach select
  cases n.driver with
  | none => simp
  | some q =>
    by_cases hq : q = r
    · simp [hq, Option.filter]
    · simp [hq, Option.filter]

theorem select_select : (n.select keep).select keep' = n.select fun q => keep q && keep' q := by
  simp only [select, Option.filter_filter, List.filter_filter, Bool.and_comm]

theorem select_congr (h : ∀ q ∈ n.ports, keep q = keep' q) : n.select keep = n.select keep' := by
  have hdriver : n.driver.filter keep = n.driver.filter keep' := by
    cases hd : n.driver with
    | none => rfl
    | some q => simp [Option.filter, h q (mem_ports.mpr (Or.inl hd))]
  have hsinks : n.sinks.filter keep = n.sinks.filter keep' :=
    List.filter_congr fun q hq => h q (mem_ports.mpr (Or.inr hq))
  unfold select
  rw [hdriver, hsinks]

theorem select_eq_self (h : ∀ q ∈ n.ports, keep q = true) : n.select keep = n := by
  have hall : n.select keep = n.select fun _ => true := select_congr h
  rw [hall]
  obtain ⟨name, driver, sinks, constant⟩ := n
  cases driver <;> simp [select, Option.filter]

end Net

namespace Netlist

variable {nl nl' x x' : Netlist} {id : CellId} {k : NetId} {r : PortRef}

/-! ## The queue -/

theorem mem_queue : id ∈ nl.queue.keys ↔ nl.isMarked id = true := Table.mem_keys

theorem nodup_queue (nl : Netlist) : nl.queue.keys.Nodup := by
  refine List.pairwise_map.mpr (nl.queue.sorted.imp fun hlt heq => ?_)
  rw [heq] at hlt
  exact absurd (hlt.symm.trans Std.ReflCmp.compare_self) (by decide)

/-! ## What the views determine -/

/-- A cell is what it is without connections, with its ports on their wires. -/
theorem WellFormed.cell?_eq (hw : nl.WellFormed) : nl.cell? id = (nl.bare id).map fun c =>
    { c with ports := c.ports.map fun p => { p with net := nl.wire ⟨id, p.name⟩ } } := by
  unfold bare
  cases hc : nl.cell? id with
  | none => rfl
  | some c =>
    have hports : c.unwired.ports.map (fun p => { p with net := nl.wire ⟨id, p.name⟩ }) =
        c.ports := by
      show (c.ports.map _).map _ = _
      rw [List.map_map]
      refine (List.map_congr_left fun p hp => ?_).trans (List.map_id' c.ports)
      show ({ p with net := nl.wire ⟨id, p.name⟩ } : Port) = p
      rw [(hw.port_of_mem hc hp).1]
    refine congrArg some ?_
    show c = { c with ports := _ }
    rw [hports]

theorem WellFormed.cell?_congr (hw : nl.WellFormed) (hx : x.WellFormed)
    (hbare : x.bare id = nl.bare id) (hwire : ∀ port, x.wire ⟨id, port⟩ = nl.wire ⟨id, port⟩) :
    x.cell? id = nl.cell? id := by
  rw [hx.cell?_eq, hw.cell?_eq, hbare]
  simp only [hwire]

/-- The constant nets, the handles to be given out and the counter of fresh names are the same. -/
structure SameBooks (nl x : Netlist) : Prop where
  constantNet? : ∀ v, x.constantNet? v = nl.constantNet? v
  nextCell : x.nextCell = nl.nextCell
  nextNet : x.nextNet = nl.nextNet
  nameCounter : x.nameCounter = nl.nameCounter

namespace SameBooks

theorem refl (nl : Netlist) : SameBooks nl nl := ⟨fun _ => rfl, rfl, rfl, rfl⟩

theorem withQueue {queue : Keys CellId} : SameBooks nl { nl with queue } :=
  ⟨fun v => by cases v <;> rfl, rfl, rfl, rfl⟩

theorem trans (h : SameBooks nl x) (h' : SameBooks x x') : SameBooks nl x' where
  constantNet? v := (h'.constantNet? v).trans (h.constantNet? v)
  nextCell := h'.nextCell.trans h.nextCell
  nextNet := h'.nextNet.trans h.nextNet
  nameCounter := h'.nameCounter.trans h.nameCounter

theorem detach : SameBooks nl (nl.detach r k) where
  constantNet? _ := rfl
  nextCell := nl.cells.next_modify
  nextNet := nextNet_mapNet
  nameCounter := rfl

theorem dropCell : SameBooks nl (nl.dropCell id) where
  constantNet? _ := rfl
  nextCell := nl.cells.next_remove
  nextNet := rfl
  nameCounter := rfl

theorem dropNet (hw : nl.WellFormed) (hk : nl.constValue k = none) :
    SameBooks nl (nl.dropNet k) where
  constantNet? v := by
    have hrecord : nl.constantNet? v ≠ some k := fun h => by
      rw [(hw.constant_recorded v k).mpr h] at hk
      cases hk
    rw [constantNet?_dropNet, if_neg hrecord]
  nextCell := rfl
  nextNet := nextNet_dropNet
  nameCounter := rfl

end SameBooks

/-! ## Part of the way through a flush -/

/-- Ports have been taken off their nets, cells have been removed, and nothing else has been done.
The nets that have lost a port are collected. -/
structure Stripped (nl : Netlist) (touched : Keys NetId) (x : Netlist) : Prop where
  wellFormed : x.WellFormed
  wire : ∀ r, x.wire r = none ∨ x.wire r = nl.wire r
  net? : ∀ k, x.net? k = (nl.net? k).map fun n => n.select fun r => (x.wire r).isSome
  touched : ∀ k, touched.contains k = true ↔ ∃ r, nl.wire r = some k ∧ x.wire r = none
  queue : x.queue = .empty
  books : SameBooks nl x

theorem Stripped.refl (hw : nl.WellFormed) (hqueue : nl.queue = .empty) :
    Stripped nl .empty nl where
  wellFormed := hw
  wire _ := Or.inr rfl
  net? k := by
    cases hn : nl.net? k with
    | none => rfl
    | some n =>
      refine congrArg some (Net.select_eq_self fun r hr => ?_).symm
      rw [(hw.mem_ports hn).mp hr]
      rfl
  touched k := by
    constructor
    · exact fun h => absurd h Bool.false_ne_true
    · rintro ⟨r, hr, hnone⟩
      rw [hr] at hnone
      cases hnone
  queue := hqueue
  books := .refl nl

end Netlist

namespace Edit

open Netlist

variable {names : Names} {nl nl' x x' : Netlist} {touched touched' : Keys NetId} {id : CellId}
  {port : Ident} {k : NetId}

/-- Disconnecting a port takes it off every net, as it can be on one net only. -/
theorem net?_disconnect {onNet : Option NetId} (hw : nl.WellFormed)
    (h : disconnect id port names nl = .ok onNet nl') (k : NetId) :
    nl'.net? k = (nl.net? k).map fun n => n.detach ⟨id, port⟩ := by
  have hoff : ∀ k, nl.wire ⟨id, port⟩ ≠ some k →
      (nl.net? k).map (fun n => n.detach ⟨id, port⟩) = nl.net? k := by
    intro k hk
    cases hn : nl.net? k with
    | none => rfl
    | some n =>
      refine congrArg some (Net.detach_eq_select.trans (Net.select_eq_self fun q hq => ?_))
      have hne : q ≠ ⟨id, port⟩ := fun e => hk (e ▸ (hw.mem_ports hn).mp hq)
      simpa using hne
  rcases disconnect_cases names with ⟨e, hrun⟩ |
    ⟨p, hp, ⟨hnet, hrun⟩ | ⟨k', n, hnet, hn, hrun⟩⟩
  · rw [hrun] at h
    cases h
  · rw [hrun] at h
    cases h
    exact (hoff k (by simp [wire_eq, hp, hnet])).symm
  · rw [hrun] at h
    cases h
    rw [net?_detach]
    split
    · next hk => rw [hk]
    · next hk =>
      refine (hoff k ?_).symm
      rw [wire_eq_some.mpr ⟨p, hp, hnet⟩]
      exact fun e => hk (Option.some.inj e).symm

theorem books_disconnect {onNet : Option NetId} (h : disconnect id port names nl = .ok onNet nl') :
    SameBooks nl nl' := by
  rcases disconnect_cases names with ⟨e, hrun⟩ | ⟨p, -, ⟨-, hrun⟩ | ⟨k, n, -, -, hrun⟩⟩
  · rw [hrun] at h
    cases h
  · rw [hrun] at h
    cases h
    exact .refl nl
  · rw [hrun] at h
    cases h
    exact .detach

theorem mem_addAll_toList {onNet : Option NetId} :
    (touched.addAll onNet.toList).contains k = true ↔ touched.contains k = true ∨ onNet = some k := by
  cases onNet with
  | none => simp [Keys.addAll]
  | some other =>
    show (Keys.add touched other).contains k = true ↔ _
    unfold Keys.add Table.contains
    rw [Table.find?_insert]
    by_cases hk : k = other
    · simp [hk]
    · simp [hk, Ne.symm hk]

theorem stripped_disconnect {onNet : Option NetId} (h : Stripped nl touched x)
    (hcut : disconnect id port names x = .ok onNet x') :
    Stripped nl (touched.addAll onNet.toList) x' := by
  obtain ⟨hw', hwire', -, -, hon⟩ := disconnect_ok h.wellFormed hcut
  refine ⟨hw', fun r => ?_, fun k => ?_, fun k => ?_, (disconnect_frame hcut).1.trans h.queue,
    h.books.trans (books_disconnect hcut)⟩
  · rw [hwire']
    by_cases hr : r = ⟨id, port⟩
    · rw [hr, Function.update_self]
      exact Or.inl rfl
    · rw [Function.update_of_ne hr]
      exact h.wire r
  · rw [net?_disconnect h.wellFormed hcut, h.net?, Option.map_map]
    refine congrArg (Option.map · _) (funext fun n => ?_)
    rw [Function.comp_apply, Net.detach_eq_select, Net.select_select, hwire']
    refine Net.select_congr fun q _ => ?_
    by_cases hq : q = ⟨id, port⟩
    · simp [hq]
    · simp [hq]
  · rw [mem_addAll_toList, h.touched, ← hon, hwire']
    constructor
    · rintro (⟨r, hr, hnone⟩ | hk)
      · refine ⟨r, hr, ?_⟩
        by_cases hr : r = ⟨id, port⟩
        · rw [hr, Function.update_self]
        · rw [Function.update_of_ne hr, hnone]
      · refine ⟨⟨id, port⟩, ?_, Function.update_self ..⟩
        rcases h.wire ⟨id, port⟩ with hnone | hsame
        · rw [hnone] at hk
          cases hk
        · rw [← hsame, hk]
    · rintro ⟨r, hr, hnone⟩
      by_cases hrp : r = ⟨id, port⟩
      · subst hrp
        rcases h.wire ⟨id, port⟩ with hoff | hsame
        · exact Or.inl ⟨_, hr, hoff⟩
        · exact Or.inr (hsame.trans hr)
      · rw [Function.update_of_ne hrp] at hnone
        exact Or.inl ⟨r, hr, hnone⟩

/-! ## Removal of cells -/

theorem stripped_removeCell {c : Cell} (h : Stripped nl touched x)
    (hremove : removeCell id names x = .ok c x') : Stripped nl touched x' := by
  obtain ⟨hw', hwire', -, -, hqueue', -⟩ := removeCell_ok h.wellFormed hremove
  rcases removeCell_cases names with ⟨e, hrun⟩ | ⟨d, hd, -, -, hrun⟩
  · rw [hrun] at hremove
    cases hremove
  · rw [hrun] at hremove
    cases hremove
    refine ⟨hw', fun r => hwire' ▸ h.wire r, fun k => hwire' ▸ h.net? k,
      fun k => hwire' ▸ h.touched k, ?_, h.books.trans .dropCell⟩
    rw [hqueue', h.queue]
    rfl

theorem removeCell_free {c : Cell} (h : removeCell id names nl = .ok c nl') :
    ∃ b, nl.bare id = some b ∧ b.cluster.root = none := by
  rcases removeCell_cases names with ⟨e, hrun⟩ | ⟨d, hd, -, hroot, hrun⟩
  · rw [hrun] at h
    cases h
  · exact ⟨d.unwired, bare_of_cell? hd, hroot⟩

/-- A cell without connections that is in no cluster can be removed. -/
theorem returns_removeCell {b : Cell} (hw : nl.WellFormed) (hb : nl.bare id = some b)
    (hroot : b.cluster.root = none) (hoff : ∀ port, nl.wire ⟨id, port⟩ = none) :
    Returns (removeCell id names) nl := by
  obtain ⟨c, hc, rfl⟩ := Option.map_eq_some_iff.mp hb
  have hfree : c.ports.find? (fun p => p.net.isSome) = none := by
    refine List.find?_eq_none.mpr fun p hp => ?_
    rw [← (hw.port_of_mem hc hp).1, hoff]
    exact Bool.false_ne_true
  have hclustered : c.isClustered = false := by
    show c.cluster.root.isSome = false
    rw [show c.cluster.root = none from hroot]
    rfl
  unfold removeCell Returns
  rcases cellChecked_cases names with ⟨e, hnone, -⟩ | ⟨d, hd, hrun⟩
  · rw [hc] at hnone
    cases hnone
  · obtain rfl := Option.some.inj (hc.symm.trans hd)
    rw [run_bind_of_ok hrun, hfree]
    simp only [hclustered]
    exact ⟨_, _, rfl⟩

/-- While the ports of a cell are disconnected: those that have been visited are off their nets. -/
structure PortsDetached (nl x : Netlist) (id : CellId) (rest : List Port) (touched : Keys NetId)
    (y : Netlist) : Prop where
  stripped : Stripped nl touched y
  bare : y.bare = x.bare
  declared : ∀ p ∈ rest, (x.dir ⟨id, p.name⟩).isSome
  others : ∀ r, r.cell ≠ id → y.wire r = x.wire r
  off : ∀ port, port ∉ rest.map (·.name) → y.wire ⟨id, port⟩ = none

namespace PortsDetached

theorem start {c : Cell} (h : Stripped nl touched x) (hc : x.cell? id = some c) :
    PortsDetached nl x id c.ports touched x := by
  refine ⟨h, rfl, fun p hp => ?_, fun _ _ => rfl, fun port hport => ?_⟩
  · rw [(h.wellFormed.port_of_mem hc hp).2]
    rfl
  · cases hwire : x.wire ⟨id, port⟩ with
    | none => rfl
    | some k =>
      obtain ⟨p, hp, hname, -⟩ := exists_port_of_wire hc hwire
      exact absurd (List.mem_map.mpr ⟨p, hp, hname⟩) hport

/-- The disconnection of one port and the entry of its net, as `detachAll` does it. -/
theorem step {p : Port} {rest : List Port} {y y' : Netlist}
    (h : PortsDetached nl x id (p :: rest) touched y)
    (hround : (do return touched.addAll (← disconnect id p.name).toList : Edit (Keys NetId)) names y =
      .ok touched' y') : PortsDetached nl x id rest touched' y' := by
  obtain ⟨_, y₁, hcut, hend⟩ := bind_ok.mp hround
  obtain ⟨rfl, rfl⟩ := pure_ok.mp hend
  obtain ⟨-, hwire', hbare', -, -⟩ := disconnect_ok h.stripped.wellFormed hcut
  refine ⟨stripped_disconnect h.stripped hcut, hbare'.trans h.bare,
    fun q hq => h.declared q (List.mem_cons_of_mem p hq), fun r hr => ?_, fun port hport => ?_⟩
  · rw [hwire', Function.update_of_ne fun e => hr (congrArg PortRef.cell e)]
    exact h.others r hr
  · rw [hwire']
    by_cases hname : port = p.name
    · rw [hname, Function.update_self]
    · rw [Function.update_of_ne fun e => hname (congrArg PortRef.port e)]
      exact h.off port (by simp [hname, hport])

theorem wire (h : PortsDetached nl x id [] touched x') (r : PortRef) :
    x'.wire r = if r.cell = id then none else x.wire r := by
  split
  · next hr =>
    obtain rfl := hr
    exact h.off r.port List.not_mem_nil
  · next hr => exact h.others r hr

end PortsDetached

theorem detachAll_ok (h : Stripped nl touched x)
    (hrun : detachAll id touched names x = .ok touched' x') :
    PortsDetached nl x id [] touched' x' := by
  unfold detachAll at hrun
  obtain ⟨c, x₁, hchecked, hloop⟩ := bind_ok.mp hrun
  obtain ⟨hc, rfl⟩ := cellChecked_ok hchecked
  exact foldlM_ok (PortsDetached nl x₁ id) (fun _ _ _ _ _ _ hdetached => hdetached.step)
    (.start h hc) hloop

theorem returns_detachAll (h : Stripped nl touched x) (hlive : (x.bare id).isSome) :
    Returns (detachAll id touched names) x := by
  unfold detachAll
  refine returns_bind names ?_ fun c x₁ hchecked => ?_
  · rcases @cellChecked_cases names x id with ⟨e, hnone, -⟩ | ⟨c, -, hrun⟩
    · simp [bare, hnone] at hlive
    · exact .of_ok hrun
  · obtain ⟨hc, rfl⟩ := cellChecked_ok hchecked
    rw [foldlM_run]
    refine Returns.foldlM (PortsDetached nl x₁ id) (fun p rest touched y hdetached => ?_)
      (fun _ _ _ _ _ _ hdetached => hdetached.step) (.start h hc)
    have hdir : (y.dir ⟨id, p.name⟩).isSome := by
      rw [dir_congr (congrFun hdetached.bare id)]
      exact hdetached.declared p List.mem_cons_self
    exact returns_bind names (returns_disconnect names hdetached.stripped.wellFormed hdir)
      fun _ _ _ => .pure _ _

/-- The cells in `gone` have been removed. -/
structure Dismantled (gone : List CellId) (nl : Netlist) (touched : Keys NetId) (x : Netlist) :
    Prop where
  stripped : Stripped nl touched x
  wire : ∀ r, x.wire r = if r.cell ∈ gone then none else nl.wire r
  bare : ∀ id, x.bare id = if id ∈ gone then none else nl.bare id
  free : ∀ id ∈ gone, ∃ b, nl.bare id = some b ∧ b.cluster.root = none

theorem Dismantled.start (hw : nl.WellFormed) (hqueue : nl.queue = .empty) :
    Dismantled [] nl .empty nl :=
  ⟨.refl hw hqueue, fun _ => rfl, fun _ => rfl, nofun⟩

theorem Dismantled.step {gone : List CellId} (h : Dismantled gone nl touched x)
    (hrun : dismantle touched id names x = .ok touched' x') :
    Dismantled (gone ++ [id]) nl touched' x' := by
  unfold dismantle at hrun
  obtain ⟨_, x₁, hdetach, hmore⟩ := bind_ok.mp hrun
  obtain ⟨_, x₂, hremove, hend⟩ := bind_ok.mp hmore
  obtain ⟨rfl, rfl⟩ := pure_ok.mp hend
  have hdetached := detachAll_ok h.stripped hdetach
  obtain ⟨-, hwire₂, hbare₂, -⟩ := removeCell_ok hdetached.stripped.wellFormed hremove
  refine ⟨stripped_removeCell hdetached.stripped hremove, fun r => ?_, fun other => ?_, ?_⟩
  · rw [hwire₂, hdetached.wire, h.wire]
    by_cases hr : r.cell = id <;> by_cases hgone : r.cell ∈ gone <;> simp [hr, hgone]
  · rw [hbare₂, hdetached.bare]
    by_cases ho : other = id
    · simp [ho]
    · simp [ho, h.bare]
  · intro other hother
    rcases List.mem_append.mp hother with hgone | hother
    · exact h.free other hgone
    · obtain rfl := List.mem_singleton.mp hother
      obtain ⟨b, hb, hroot⟩ := removeCell_free hremove
      rw [hdetached.bare, h.bare] at hb
      split at hb
      · cases hb
      · exact ⟨b, hb, hroot⟩

theorem dismantleAll_ok {queued : List CellId} (hw : nl.WellFormed) (hqueue : nl.queue = .empty)
    (hrun : queued.foldlM dismantle Table.empty names nl = .ok touched x) :
    Dismantled queued nl touched x := by
  rw [foldlM_run] at hrun
  exact foldlM_ok_of_done (fun done touched y => Dismantled done nl touched y)
    (fun _ _ _ _ _ _ _ _ hdone hround => hdone.step hround) (.start hw hqueue) hrun

theorem returns_dismantle {b : Cell} (h : Stripped nl touched x) (hb : x.bare id = some b)
    (hroot : b.cluster.root = none) : Returns (dismantle touched id names) x := by
  unfold dismantle
  refine returns_bind names (returns_detachAll h (by rw [hb]; rfl)) fun touched₁ x₁ hdetach => ?_
  have hdetached := detachAll_ok h hdetach
  have hb₁ : x₁.bare id = some b := (congrFun hdetached.bare id).trans hb
  have hoff : ∀ port, x₁.wire ⟨id, port⟩ = none := fun port => hdetached.off port List.not_mem_nil
  exact returns_bind names (returns_removeCell hdetached.stripped.wellFormed hb₁ hroot hoff)
    fun _ _ _ => .pure _ _

/-- If no queued cell is in a cluster, all of them are removed. -/
theorem returns_dismantleAll {queued : List CellId} (hw : nl.WellFormed)
    (hqueue : nl.queue = .empty) (hnodup : queued.Nodup)
    (hfree : ∀ id ∈ queued, ∃ b, nl.bare id = some b ∧ b.cluster.root = none) :
    Returns (queued.foldlM dismantle Table.empty names) nl := by
  rw [foldlM_run]
  refine Returns.foldlM
    (fun rest touched y => ∃ done, queued = done ++ rest ∧ Dismantled done nl touched y) ?_
    (fun id rest _ _ _ _ ⟨done, hsplit, hdone⟩ hround => ⟨done ++ [id],
      by rw [hsplit, List.append_assoc, List.singleton_append], hdone.step hround⟩)
    ⟨[], rfl, .start hw hqueue⟩
  rintro id rest touched y ⟨done, hsplit, hdone⟩
  have hid : id ∉ done := by
    rw [hsplit] at hnodup
    exact fun hmem => (List.nodup_append.mp hnodup).2.2 id hmem id List.mem_cons_self rfl
  obtain ⟨b, hb, hroot⟩ := hfree id (hsplit ▸ List.mem_append_right done List.mem_cons_self)
  refine returns_dismantle hdone.stripped ?_ hroot
  rw [hdone.bare, if_neg hid, hb]

/-! ## Removal of nets -/

/-- A net goes exactly if it is unused. -/
theorem removeFloating_run : removeFloating k names nl =
    .ok () (if (nl.net? k).any Net.isUnused then nl.dropNet k else nl) := by
  unfold removeFloating
  rw [run_bind_of_ok (get_ok.mpr ⟨rfl, rfl⟩)]
  cases hn : nl.net? k with
  | none => rfl
  | some n =>
    show (if n.isUnused then do let _ ← removeNet k else pure () : Edit Unit) names nl =
      .ok () (if n.isUnused then nl.dropNet k else nl)
    by_cases hunused : n.isUnused = true
    · have hfloating : n.isFloating = true := ((Bool.and_eq_true _ _).mp hunused).1
      have hremove : removeNet k names nl = .ok n (nl.dropNet k) := by
        unfold removeNet
        rw [run_bind_of_ok (netChecked_of_some names hn), if_pos hfloating]
        rfl
      rw [if_pos hunused, if_pos hunused, run_bind_of_ok hremove]
      rfl
    · rw [if_neg hunused, if_neg hunused]
      rfl

/-- Some nets have been gone through, and the unused ones among them removed. -/
structure Swept (done : List NetId) (nl x : Netlist) : Prop where
  wellFormed : x.WellFormed
  cells : x.cells = nl.cells
  net? : ∀ k, x.net? k = if k ∈ done then (nl.net? k).filter fun n => !n.isUnused else nl.net? k
  queue : x.queue = nl.queue
  books : SameBooks nl x

namespace Swept

theorem start (hw : nl.WellFormed) : Swept [] nl nl := ⟨hw, rfl, fun _ => rfl, rfl, .refl nl⟩

theorem trans {done done' : List NetId} (h : Swept done nl x) (h' : Swept done' x x') :
    Swept (done ++ done') nl x' := by
  refine ⟨h'.wellFormed, h'.cells.trans h.cells, fun k => ?_, h'.queue.trans h.queue,
    h.books.trans h'.books⟩
  rw [h'.net?, h.net?]
  by_cases hdone : k ∈ done <;> by_cases hdone' : k ∈ done' <;>
    simp [hdone, hdone', Option.filter_filter]

end Swept

theorem removeFloating_ok {u : Unit} (hw : nl.WellFormed)
    (hrun : removeFloating k names nl = .ok u nl') : Swept [k] nl nl' := by
  have hw' : nl'.WellFormed := structural_wellFormed.keeps_removeFloating.of_ok hrun hw
  rw [removeFloating_run] at hrun
  cases hrun
  by_cases hunused : (nl.net? k).any Net.isUnused = true
  · rw [if_pos hunused] at hw' ⊢
    obtain ⟨n, hn, hn'⟩ := (Option.any_eq_true _ _).mp hunused
    have hconstant : nl.constValue k = none := by
      unfold constValue
      rw [hn]
      simpa using ((Bool.and_eq_true _ _).mp hn').2
    refine ⟨hw', rfl, fun k' => ?_, rfl, .dropNet hw hconstant⟩
    rw [net?_dropNet]
    by_cases hk : k' = k
    · simp [hk, hn, hn', Option.filter]
    · simp [hk]
  · rw [if_neg hunused] at hw' ⊢
    refine ⟨hw', rfl, fun k' => ?_, rfl, .refl nl⟩
    by_cases hk : k' = k
    · subst hk
      cases hn : nl.net? k' with
      | none => simp
      | some n =>
        rw [hn, Option.any_some] at hunused
        simp [hunused, Option.filter]
    · simp [hk]

theorem sweep_ok {ks : List NetId} {u : PUnit} (hw : nl.WellFormed)
    (hrun : ks.forM removeFloating names nl = .ok u x) : Swept ks nl x := by
  obtain ⟨done, hsplit, hdone⟩ := forM_ok (fun rest y => ∃ done, ks = done ++ rest ∧ Swept done nl y)
    (fun k rest y u y' ⟨done, hsplit, hdone⟩ hround => ⟨done ++ [k],
      by rw [hsplit, List.append_assoc, List.singleton_append],
      hdone.trans (removeFloating_ok hdone.wellFormed hround)⟩)
    ⟨[], rfl, .start hw⟩ hrun
  rw [hsplit, List.append_nil]
  exact hdone

theorem returns_sweep (ks : List NetId) : Returns (ks.forM removeFloating names) nl := by
  rw [forM_run]
  exact Returns.forM (fun _ _ => True) (fun _ _ _ _ => ⟨_, _, removeFloating_run⟩)
    (fun _ _ _ _ _ _ _ => trivial) trivial

end Edit

namespace Netlist

/-- What a flush makes of a netlist. -/
structure Purged (nl nl' : Netlist) : Prop where
  /-- Queued cells are gone, and every other cell is as it was. -/
  cells : ∀ id, nl'.cell? id = if nl.isMarked id then none else nl.cell? id
  /-- A net is gone if the queued cells left it unused.  Otherwise it has kept, in order, the ports
  of the other cells. -/
  nets : ∀ k, nl'.net? k = ((nl.net? k).filter fun n => !n.isOrphaned nl.isMarked).map
    fun n => n.without nl.isMarked
  queue : nl'.queue = .empty
  books : SameBooks nl nl'

end Netlist

namespace Edit

open Netlist

variable {names : Names} {nl nl' x x' : Netlist} {touched : Keys NetId}

/-- The phases of a flush. -/
theorem flush_run : flush names nl =
    (nl.queue.keys.foldlM dismantle Table.empty >>= fun touched =>
      touched.keys.forM removeFloating >>= fun _ => pure nl.queue.keys.length : Edit Nat) names
      { nl with queue := .empty } :=
  rfl

theorem flush_of_queue_empty (h : nl.queue = .empty) : flush names nl = .ok 0 nl := by
  have hcleared : { nl with queue := .empty } = nl := by rw [← h]
  rw [flush_run, hcleared, h]
  rfl

theorem wellFormed_unqueued (hw : nl.WellFormed) :
    Netlist.WellFormed { nl with queue := .empty } := by
  have hwired : Wired { nl with queue := .empty } :=
    hw.wired.withQueue fun _ hid => absurd hid Bool.false_ne_true
  exact hwired.wellFormed

/-- What has been dismantled and swept. -/
theorem purged_of_swept (hw : nl.WellFormed)
    (hdismantled : Dismantled nl.queue.keys { nl with queue := .empty } touched x)
    (hswept : Swept touched.keys x x') : Purged nl x' := by
  have hstripped := hdismantled.stripped
  have hwire : ∀ r, x.wire r = if nl.isMarked r.cell then none else nl.wire r := by
    intro r
    rw [hdismantled.wire]
    simp only [mem_queue]
    rfl
  refine
    { cells := fun id => ?_
      nets := fun k => ?_
      queue := hswept.queue.trans hstripped.queue
      books := ?_ }
  · have hsame : x'.cell? id = x.cell? id := congrArg (Arena.get? · id) hswept.cells
    have hbare : x.bare id = if nl.isMarked id then none else nl.bare id := by
      rw [hdismantled.bare]
      simp only [mem_queue]
      rfl
    rw [hsame]
    split
    · next hid =>
      rw [if_pos hid] at hbare
      exact bare_eq_none.mp hbare
    · next hid =>
      rw [if_neg hid] at hbare
      exact hw.cell?_congr hstripped.wellFormed hbare fun port => by rw [hwire, if_neg hid]
  · have htouched : k ∈ touched.keys ↔ ∃ r, nl.wire r = some k ∧ nl.isMarked r.cell = true := by
      rw [Table.mem_keys, hstripped.touched]
      refine exists_congr fun r => and_congr_right fun hr => ?_
      rw [hwire]
      have hr : nl.wire r = some k := hr
      cases nl.isMarked r.cell <;> simp [hr]
    have hx : x.net? k = (nl.net? k).map fun n => n.select fun r => (x.wire r).isSome :=
      hstripped.net? k
    rw [hswept.net?, hx]
    cases hn : nl.net? k with
    | none => simp
    | some n =>
      have hwithout : (n.select fun r => (x.wire r).isSome) = n.without nl.isMarked := by
        refine Net.select_congr fun r hr => ?_
        rw [hwire, (hw.mem_ports hn).mp hr]
        cases nl.isMarked r.cell <;> rfl
      have hany : (k ∈ touched.keys) ↔ (n.ports.any fun r => nl.isMarked r.cell) = true := by
        rw [htouched, List.any_eq_true]
        exact exists_congr fun r => and_congr_left fun _ => (hw.mem_ports hn).symm
      rw [Option.map_some, hwithout, Option.filter, Option.filter, Net.isOrphaned]
      by_cases hk : k ∈ touched.keys
      · rw [if_pos hk, hany.mp hk, Bool.true_and]
        split <;> rfl
      · rw [if_neg hk, Bool.eq_false_iff.mpr (fun h => hk (hany.mpr h)), Bool.false_and]
        rfl
  · exact SameBooks.withQueue.trans (hstripped.books.trans hswept.books)

theorem purged_of_flush {removed : Nat} (hw : nl.WellFormed)
    (h : flush names nl = .ok removed nl') :
    removed = nl.queue.size ∧ nl.Purged nl' ∧ nl'.WellFormed ∧
      (∀ id, nl.isMarked id = true → ∃ b, nl.bare id = some b ∧ b.cluster.root = none) := by
  rw [flush_run] at h
  obtain ⟨touched, x, hdismantle, hmore⟩ := bind_ok.mp h
  obtain ⟨_, x', hsweep, hend⟩ := bind_ok.mp hmore
  obtain ⟨rfl, rfl⟩ := pure_ok.mp hend
  have hdismantled := dismantleAll_ok (wellFormed_unqueued hw) rfl hdismantle
  have hswept := sweep_ok hdismantled.stripped.wellFormed hsweep
  refine ⟨List.length_map _, purged_of_swept hw hdismantled hswept, hswept.wellFormed, ?_⟩
  exact fun id hid => hdismantled.free id (mem_queue.mpr hid)

/-- A flush removes the queued cells and what they leave unused, and only a queued cell in a
cluster stops it. -/
theorem flush_exact (names : Names) (hw : nl.WellFormed) :
    ((∃ removed nl', flush names nl = .ok removed nl') ↔
        ∀ id c, nl.isMarked id = true → nl.cell? id = some c → c.isClustered = false) ∧
      ∀ removed nl', flush names nl = .ok removed nl' →
        removed = nl.queue.size ∧ nl.Purged nl' ∧ ∀ names', flush names' nl' = .ok 0 nl' := by
  refine ⟨⟨?_, fun hfree => ?_⟩, fun removed nl' h => ?_⟩
  · rintro ⟨removed, nl', h⟩ id c hid hc
    obtain ⟨-, -, -, hfree⟩ := purged_of_flush hw h
    obtain ⟨b, hb, hroot⟩ := hfree id hid
    rw [bare_of_cell? hc] at hb
    obtain rfl := Option.some.inj hb
    show c.cluster.root.isSome = false
    rw [show c.cluster.root = none from hroot]
    rfl
  · have hunclustered : ∀ id ∈ nl.queue.keys,
        ∃ b, ({ nl with queue := .empty } : Netlist).bare id = some b ∧ b.cluster.root = none := by
      intro id hid
      obtain ⟨c, hc⟩ := Option.isSome_iff_exists.mp (hw.queue_live id (mem_queue.mp hid))
      have hroot : c.cluster.root = none := by
        simpa [Cell.isClustered] using hfree id c (mem_queue.mp hid) hc
      exact ⟨c.unwired, bare_of_cell? hc, hroot⟩
    rw [flush_run]
    exact returns_bind names
      (returns_dismantleAll (wellFormed_unqueued hw) rfl (nodup_queue nl) hunclustered)
      fun touched x _ => returns_bind names (returns_sweep touched.keys) fun _ _ _ => .pure _ _
  · obtain ⟨hremoved, hpurged, -⟩ := purged_of_flush hw h
    exact ⟨hremoved, hpurged, fun names' => flush_of_queue_empty hpurged.queue⟩

namespace Mesh

def portNames : Names where
  entered := #["CELL", "I", "J", "O"]
  nodup := by decide +kernel

/-- Cell 0 drives cell 1, which reads its own output.  Both go.  Net 2 is driven and read by cell 2
and read by cell 0 before, and of the constant net cell 0 is the only reader. -/
def session : Session := (Session.start portNames).after [
  .createCell ⟨0⟩ "first", .createCell ⟨0⟩ "second", .createCell ⟨0⟩ "third",
  .createNet "chain", .createNet "loop", .createNet "shared", .constantNet .zero,
  .addPort ⟨0⟩ ⟨1⟩ .input, .addPort ⟨0⟩ ⟨2⟩ .input, .addPort ⟨0⟩ ⟨3⟩ .output,
  .addPort ⟨1⟩ ⟨1⟩ .input, .addPort ⟨1⟩ ⟨2⟩ .input, .addPort ⟨1⟩ ⟨3⟩ .output,
  .addPort ⟨2⟩ ⟨1⟩ .input, .addPort ⟨2⟩ ⟨3⟩ .output,
  .connect ⟨0⟩ ⟨3⟩ ⟨0⟩, .connect ⟨1⟩ ⟨1⟩ ⟨0⟩, .connect ⟨1⟩ ⟨3⟩ ⟨1⟩, .connect ⟨1⟩ ⟨2⟩ ⟨1⟩,
  .connect ⟨2⟩ ⟨3⟩ ⟨2⟩, .connect ⟨0⟩ ⟨1⟩ ⟨2⟩, .connect ⟨2⟩ ⟨1⟩ ⟨2⟩, .connect ⟨0⟩ ⟨2⟩ ⟨3⟩,
  .markForRemoval ⟨1⟩, .markForRemoval ⟨0⟩]

theorem mesh_flushed : session.netlist.WellFormed ∧
    ∃ nl', flush session.names session.netlist = .ok 2 nl' ∧ session.netlist.Purged nl' ∧
      nl'.net? ⟨0⟩ = none ∧ nl'.net? ⟨1⟩ = none ∧
      nl'.net? ⟨2⟩ = some ⟨"shared", some ⟨⟨2⟩, ⟨3⟩⟩, [⟨⟨2⟩, ⟨1⟩⟩], none⟩ ∧
      nl'.net? ⟨3⟩ = some (.createConstant .zero) := by
  have hw : session.netlist.WellFormed := Session.wellFormed_after_of_wellFormed Wired.empty.wellFormed _
  obtain ⟨hreturns, hexact⟩ := flush_exact session.names hw
  have hfree : ∀ id ∈ session.netlist.queue.keys,
      (session.netlist.cell? id).any Cell.isClustered = false := by decide +kernel
  obtain ⟨removed, nl', h⟩ := hreturns.mpr fun id c hid hc => by
    simpa [hc] using hfree id (mem_queue.mpr hid)
  obtain ⟨rfl, hpurged, -⟩ := hexact removed nl' h
  exact ⟨hw, nl', h, hpurged, (hpurged.nets _).trans (by decide +kernel),
    (hpurged.nets _).trans (by decide +kernel), (hpurged.nets _).trans (by decide +kernel),
    (hpurged.nets _).trans (by decide +kernel)⟩

end Mesh

end Edit
end FpgaPacking
