import FpgaPacking.Proofs.Numbering.Runs

/-!
# Edits do not depend on numbering

An edit compares identifiers and looks values up by them.  On netlists that differ
in numbering only, with identifiers that stand for each other, it does the same.
It also fails in the same way, because a failure shows names and not numbers.
-/

namespace FpgaPacking
namespace Edit

variable {R : Renaming} {port port' : Ident}

/-! ## Lookups -/

theorem alike_cell (id : CellId) : Alike R (Cell.Alike R) (cell id) (cell id) :=
  Alike.get.bind fun _ _ hnl => .lookup (hnl.cell id)

theorem alike_net (k : NetId) : Alike R (Net.Alike R) (net k) (net k) :=
  Alike.get.bind fun _ _ hnl => .lookup (hnl.net k)

theorem alike_cellChecked (id : CellId) :
    Alike R (Cell.Alike R) (cellChecked id) (cellChecked id) := by
  refine Alike.get.bind fun nl nl' hnl => ?_
  match nl.cell? id, nl'.cell? id, hnl.cell? id with
  | _, _, .none => exact .violate _
  | _, _, .some hc => exact .pure hc

theorem alike_netChecked (k : NetId) : Alike R (Net.Alike R) (netChecked k) (netChecked k) := by
  refine Alike.get.bind fun nl nl' hnl => ?_
  match nl.net? k, nl'.net? k, hnl.net? k with
  | _, _, .none => exact .violate _
  | _, _, .some hn => exact .pure hn

theorem alike_portChecked (id : CellId) (hport : R port port') :
    Alike R (fun cp cp' => cp.1.Alike R cp'.1 ∧ cp.2.Alike R cp'.2) (portChecked id port)
      (portChecked id port') := by
  refine (alike_cellChecked id).bind fun c c' hc => ?_
  match c.port? port, c'.port? port', hc.port? hport with
  | _, _, .none =>
    rw [hc.name]
    exact (Alike.resolve hport).bind_same fun _ => .violate _
  | _, _, .some hp => exact .pure ⟨hc, hp⟩

/-! ## Changes -/

theorem alike_modifyCell (id : CellId) {f g : Cell → Cell}
    (h : ∀ c c', c.Alike R c' → (f c).Alike R (g c')) :
    Alike R Eq (modifyCell id f) (modifyCell id g) :=
  .modify fun _ _ hnl => { hnl with cells := hnl.cells.modify h id }

theorem alike_modifyNet (k : NetId) {f g : Net → Net}
    (h : ∀ n n', n.Alike R n' → (f n).Alike R (g n')) :
    Alike R Eq (modifyNet k f) (modifyNet k g) :=
  .modify fun _ _ hnl => { hnl with nets := hnl.nets.modify h k }

theorem alike_updateCell (id : CellId) {f g : Cell → Cell}
    (h : ∀ c c', c.Alike R c' → (f c).Alike R (g c')) :
    Alike R Eq (updateCell id f) (updateCell id g) :=
  (alike_cell id).bind fun _ _ _ => alike_modifyCell id h

/-! ## Creation -/

theorem alike_createCell {cellType cellType' : Ident} (h : R cellType cellType') (name : String) :
    Alike R Eq (createCell cellType name) (createCell cellType' name) :=
  .modifyGet fun _ _ hnl =>
    ⟨(hnl.cells.alloc_fst (.create cellType name) (.create cellType' name)).symm,
      { hnl with cells := hnl.cells.alloc (.create h name) }⟩

theorem alike_createNet (name : String) : Alike R Eq (createNet name) (createNet name) :=
  .modifyGet fun _ _ hnl =>
    ⟨(hnl.nets.alloc_fst (.create name) (.create name)).symm,
      { hnl with nets := hnl.nets.alloc (.create name) }⟩

theorem alike_uniqueName (base : String) : Alike R Eq (uniqueName base) (uniqueName base) := by
  refine .modifyGet fun nl nl' hnl => ?_
  rw [hnl.nameCounter]
  exact ⟨rfl, { hnl with nameCounter := rfl }⟩

theorem alike_constantNet (v : ConstValue) : Alike R Eq (constantNet v) (constantNet v) := by
  refine .modifyGet fun nl nl' hnl => ?_
  rw [hnl.constantNet? v]
  cases nl.constantNet? v with
  | some k => exact ⟨rfl, hnl⟩
  | none =>
    have hnets := hnl.nets.alloc (Net.Alike.createConstant v)
    have hk := (hnl.nets.alloc_fst (.createConstant v) (.createConstant v)).symm
    cases v with
    | zero => exact ⟨hk, { hnl with nets := hnets, tiedLow := congrArg some hk.symm }⟩
    | one => exact ⟨hk, { hnl with nets := hnets, tiedHigh := congrArg some hk.symm }⟩

/-! ## Ports -/

theorem alike_addPort (id : CellId) (hport : R port port') (direction : Direction) :
    Alike R Eq (addPort id port direction) (addPort id port' direction) := by
  refine (alike_cellChecked id).bind fun c c' hc => ?_
  match c.port? port, c'.port? port', hc.port? hport with
  | _, _, .none =>
    exact alike_modifyCell id fun c c' hc => hc.addPort ⟨hport, rfl, rfl⟩
  | some p, some p', .some hp =>
    show Alike R Eq (if p.direction = direction then _ else _)
      (if p'.direction = direction then _ else _)
    rw [hp.direction]
    split
    · exact .pure rfl
    · rw [hc.name]
      exact (Alike.resolve hport).bind_same fun _ => .violate _

theorem alike_connect (id : CellId) (hport : R port port') (k : NetId) :
    Alike R Eq (connect id port k) (connect id port' k) := by
  have hr : PortRef.Alike R ⟨id, port⟩ ⟨id, port'⟩ := ⟨rfl, hport⟩
  refine (alike_portChecked id hport).bind fun cp cp' hcp => ?_
  obtain ⟨c, p⟩ := cp
  obtain ⟨c', p'⟩ := cp'
  obtain ⟨hc, hp⟩ := hcp
  have hnet : p'.net = p.net := hp.net
  dsimp only
  rw [hnet]
  cases p.net with
  | some existing =>
    by_cases hsame : existing = k
    · simp only [hsame, if_true]
      exact .pure rfl
    · simp only [hsame, if_false]
      refine (Alike.resolve hport).bind_same fun name => (alike_net existing).bind fun n n' hn => ?_
      refine Alike.get.bind fun nl nl' hnl => ?_
      rw [hc.name, hn.name, hnl.netName]
      exact .throw _
  | none =>
    refine (alike_netChecked k).bind fun n n' hn => ?_
    have hset : Alike R Eq (modifyCell id fun c => c.setNet port (some k))
        (modifyCell id fun c => c.setNet port' (some k)) :=
      alike_modifyCell id fun c c' hc => hc.setNet hport (some k)
    have hread : Alike R Eq (modifyNet k fun n => n.addSink ⟨id, port⟩)
        (modifyNet k fun n => n.addSink ⟨id, port'⟩) :=
      alike_modifyNet k fun n n' hn => hn.addSink hr
    have hname : c'.name = c.name := hc.name
    have hdirection : p'.direction = p.direction := hp.direction
    rw [hname, hdirection, hn.constant, hn.isSome_driver, hn.name]
    cases p.direction with
    | output =>
      dsimp only
      split
      · refine (Alike.resolve hport).bind_same fun _ => ?_
        exact (Alike.violate (V := Eq) _).bind_same fun _ => hset
      · split
        · refine (Alike.resolve hport).bind_same fun _ => ?_
          exact (Alike.violate (V := Eq) _).bind_same fun _ => hset
        · exact (alike_modifyNet k fun n n' hn => hn.drive hr).bind_same fun _ => hset
    | input => exact hread.bind_same fun _ => hset
    | inout => exact hread.bind_same fun _ => hset

theorem alike_disconnect (id : CellId) (hport : R port port') :
    Alike R Eq (disconnect id port) (disconnect id port') := by
  refine (alike_portChecked id hport).bind fun cp cp' hcp => ?_
  obtain ⟨c, p⟩ := cp
  obtain ⟨c', p'⟩ := cp'
  obtain ⟨hc, hp⟩ := hcp
  have hnet : p'.net = p.net := hp.net
  dsimp only
  rw [hnet]
  cases p.net with
  | none => exact .pure rfl
  | some k =>
    have hdetach : Alike R Eq (modifyNet k fun n => n.detach ⟨id, port⟩)
        (modifyNet k fun n => n.detach ⟨id, port'⟩) :=
      alike_modifyNet k fun n n' hn => hn.detach ⟨rfl, hport⟩
    refine (alike_netChecked k).bind fun _ _ _ => hdetach.bind_same fun _ => ?_
    refine (alike_modifyCell id fun c c' hc => hc.setNet hport none).bind_same fun _ => ?_
    exact .pure rfl

/-! ## Removal -/

theorem alike_removeCell (id : CellId) :
    Alike R (Cell.Alike R) (removeCell id) (removeCell id) := by
  refine (alike_cellChecked id).bind fun c c' hc => ?_
  have hfound : Option.Rel (Port.Alike R) (c.ports.find? fun p => p.net.isSome)
      (c'.ports.find? fun p => p.net.isSome) :=
    find?_of_forall₂ (fun _ _ hp => congrArg Option.isSome hp.net) hc.ports
  generalize (c.ports.find? fun p => p.net.isSome) = p,
    (c'.ports.find? fun p => p.net.isSome) = p' at hfound ⊢
  cases hfound with
  | some hp =>
    rw [hc.name]
    exact (Alike.resolve hp.name).bind_same fun _ => .violate _
  | none =>
    dsimp only
    rw [hc.isClustered, hc.name]
    split
    · exact .violate _
    · refine Alike.bind_same (.modify fun nl nl' hnl => ?_) fun _ => .pure hc
      exact { hnl with cells := hnl.cells.remove id, queue := congrArg (·.erase id) hnl.queue }

theorem alike_removeNet (k : NetId) : Alike R (Net.Alike R) (removeNet k) (removeNet k) := by
  refine (alike_netChecked k).bind fun n n' hn => ?_
  rw [hn.isFloating, hn.name, hn.degree]
  split
  · refine Alike.bind_same (.modify fun nl nl' hnl => ?_) fun _ => .pure hn
    rw [hnl.tiedLow, hnl.tiedHigh]
    exact { hnl with nets := hnl.nets.remove k, tiedLow := rfl, tiedHigh := rfl }
  · exact .violate _

theorem alike_markForRemoval (id : CellId) :
    Alike R Eq (markForRemoval id) (markForRemoval id) := by
  refine .modify fun nl nl' hnl => ?_
  rw [hnl.cells.contains]
  split
  · exact { hnl with queue := congrArg (·.add id) hnl.queue }
  · exact hnl

theorem alike_detachAll (id : CellId) (touched : Keys NetId) :
    Alike R Eq (detachAll id touched) (detachAll id touched) := by
  refine (alike_cellChecked id).bind fun c c' hc => .foldlM hc.ports rfl ?_
  rintro touched _ p p' rfl hp
  exact (alike_disconnect id hp.name).bind_same fun _ => .pure rfl

theorem alike_dismantle (touched : Keys NetId) (id : CellId) :
    Alike R Eq (dismantle touched id) (dismantle touched id) :=
  (alike_detachAll id touched).bind_same fun _ => (alike_removeCell id).bind fun _ _ _ => .pure rfl

theorem alike_removeFloating (k : NetId) : Alike R Eq (removeFloating k) (removeFloating k) := by
  refine Alike.get.bind fun nl nl' hnl => ?_
  match nl.net? k, nl'.net? k, hnl.net? k with
  | _, _, .none => exact .pure rfl
  | some n, some n', .some hn =>
    dsimp only
    rw [hn.isFloating, hn.constant]
    split
    · exact (alike_removeNet k).bind fun _ _ _ => .pure rfl
    · exact .pure rfl

theorem alike_flush : Alike R Eq flush flush := by
  have hqueued : Alike R Eq
      (MonadStateOf.modifyGet fun nl : Netlist => (nl.queue.keys, { nl with queue := .empty }))
      (MonadStateOf.modifyGet fun nl : Netlist => (nl.queue.keys, { nl with queue := .empty })) :=
    .modifyGet fun nl nl' hnl => ⟨congrArg Table.keys hnl.queue.symm, { hnl with queue := rfl }⟩
  refine hqueued.bind_same fun queued => ?_
  refine (Alike.foldlM_same queued alike_dismantle Table.empty).bind_same fun touched => ?_
  exact (Alike.forM_same touched.keys alike_removeFloating).bind_same fun _ => .pure rfl

end Edit
end FpgaPacking
