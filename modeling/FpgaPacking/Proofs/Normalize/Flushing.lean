import FpgaPacking.Proofs.Netlist.Deletion
import FpgaPacking.Proofs.Normalize.Pruning

/-!
# Flushing the queue

The queued cells are taken off their nets and removed, and so are the nets that
are left without connections.  `Flushed` says that nothing else changes, whatever
is queued.  If the outputs of the queued cells are connected to nothing, only
readers are taken off, and those are readers of cells that go, so the netlist is
refined.
-/

namespace FpgaPacking
namespace Normalize

open Netlist

variable {options : NormalizeOptions} {gone : List CellId} {names : Names} {nl nl' : Netlist}
  {r : PortRef} {id : CellId} {k : NetId} {v : ConstValue}

/-! ## What normalization needs to know of a flush -/

/-- The cells in `gone` are off their nets and removed.  Nothing else changes, but
that nets without a constant may be removed and cells taken out of the queue. -/
structure Flushed (gone : List CellId) (nl nl' : Netlist) : Prop where
  wellFormed : nl'.WellFormed
  wire : ∀ r, nl'.wire r = if r.cell ∈ gone then none else nl.wire r
  bare : ∀ id, nl'.bare id = if id ∈ gone then none else nl.bare id
  constants : ∀ k v, nl.constValue k = some v → nl'.constValue k = some v
  tags : ∀ k t, nl'.tag k = some t → nl.tag k = some t
  nextNet : nl'.nextNet = nl.nextNet
  marked : ∀ id, nl'.isMarked id = true → nl.isMarked id = true

namespace Flushed

theorem wire_of_some (h : Flushed gone nl nl') (hr : nl'.wire r = some k) :
    r.cell ∉ gone ∧ nl.wire r = some k := by
  rw [h.wire] at hr
  split at hr
  · cases hr
  · next hstays => exact ⟨hstays, hr⟩

theorem wire_of_not_mem (h : Flushed gone nl nl') (hr : r.cell ∉ gone) :
    nl'.wire r = nl.wire r := by
  rw [h.wire, if_neg hr]

theorem bare_of_not_mem (h : Flushed gone nl nl') (hid : id ∉ gone) :
    nl'.bare id = nl.bare id := by
  rw [h.bare, if_neg hid]

theorem bare_of_mem (h : Flushed gone nl nl') (hid : id ∈ gone) : nl'.bare id = none := by
  rw [h.bare, if_pos hid]

end Flushed

theorem Flushed.of_purged (hw' : nl'.WellFormed) (h : nl.Purged nl') :
    Flushed nl.queue.keys nl nl' where
  wellFormed := hw'
  wire r := by
    simp only [mem_queue]
    rw [wire_eq, wire_eq, port?, port?, h.cells]
    split <;> rfl
  bare id := by
    simp only [mem_queue]
    unfold Netlist.bare
    rw [h.cells]
    split <;> rfl
  constants k v hv := by
    obtain ⟨n, hn, hconstant⟩ := Option.bind_eq_some_iff.mp hv
    have hused : (n.without nl.isMarked).isUnused = false := by
      unfold Net.isUnused
      rw [Net.constant_without, hconstant]
      exact Bool.and_false _
    have hn' : nl'.net? k = some (n.without nl.isMarked) := by
      rw [h.nets, hn]
      simp [Option.filter, Net.isOrphaned, hused]
    unfold constValue
    rw [hn']
    exact hconstant
  tags k t ht := by
    obtain ⟨n', hn', rfl⟩ := Option.map_eq_some_iff.mp ht
    rw [h.nets] at hn'
    obtain ⟨n, hn, rfl⟩ := Option.map_eq_some_iff.mp hn'
    unfold tag
    rw [(Option.filter_eq_some_iff.mp hn).1]
    rfl
  nextNet := h.books.nextNet
  marked id hid := by
    unfold isMarked at hid
    rw [h.queue] at hid
    cases hid

/-- Flushing removes the queued cells, and nothing is queued afterwards. -/
theorem flush_flushed {removed : Nat} (hw : nl.WellFormed)
    (h : Edit.flush names nl = .ok removed nl') :
    Flushed nl.queue.keys nl nl' ∧ (∀ id, nl'.isMarked id = false) ∧
      removed = nl.queue.keys.length ∧ (removed = 0 → nl' = nl) := by
  obtain ⟨hremoved, hpurged, hw', -⟩ := Edit.purged_of_flush hw h
  have hlength : nl.queue.keys.length = nl.queue.size := List.length_map _
  refine ⟨.of_purged hw' hpurged, fun id => ?_, hremoved.trans hlength.symm, fun hzero => ?_⟩
  · unfold isMarked
    rw [hpurged.queue]
    rfl
  · have hnone : nl.queue.keys = [] := by
      rw [← List.length_eq_zero_iff, hlength, ← hremoved, hzero]
    have hqueue : nl.queue = .empty := by
      refine Table.ext_find? fun id => ?_
      have hid : nl.isMarked id = false := by
        rw [← Bool.not_eq_true, ← mem_queue, hnone]
        exact List.not_mem_nil
      exact Option.not_isSome_iff_eq_none.mp (by simpa [isMarked, Table.contains] using hid)
    rw [Edit.flush_of_queue_empty hqueue] at h
    cases h
    rfl

/-- Each removed cell lowers the weight. -/
theorem flush_progress {removed : Nat} (hw : nl.WellFormed)
    (h : Edit.flush names nl = .ok removed nl') : Progress removed nl nl' := by
  obtain ⟨hflushed, -, rfl, hfixed⟩ := flush_flushed hw h
  refine ⟨?_, fun hzero _ => hfixed hzero⟩
  refine weight_le [] nl.queue.keys hw hflushed.wellFormed (fun r hr => ?_) (fun id hid => ?_)
    List.nodup_nil nofun (nodup_queue nl) fun id hid => ⟨?_, hflushed.bare_of_mem hid⟩
  · obtain ⟨k, hk⟩ := Option.isSome_iff_exists.mp hr
    simp [(hflushed.wire_of_some hk).2]
  · rw [hflushed.bare] at hid
    split at hid
    · cases hid
    · exact hid
  · rw [bare_isSome]
    exact hw.queue_live id (mem_queue.mp hid)

/-- Removing cells that drive nothing refines the netlist. -/
theorem Refines.of_flushed (hw : nl.WellFormed) (h : Flushed gone nl nl')
    (hidle : ∀ id ∈ gone, Idle nl id) : Refines options gone nl nl' := by
  have hdriver : ∀ {q : PortRef} {k : NetId}, nl.wire q = some k → nl.dir q = some .output →
      q.cell ∉ gone := fun hq hd hgone => hidle _ hgone _ _ hq hd
  refine
    { wellFormed := h.wellFormed
      cells := fun id c hc => ?_
      live := fun id hid hlive => by rw [h.bare_of_not_mem hid]; exact hlive
      constants := h.constants
      tags := fun k t ht => Or.inl (h.tags k t ht)
      grows := h.nextNet ▸ Nat.le_refl _
      wires := fun r k hr => Or.inl (h.wire_of_some hr).2
      drivers := fun r q k _ _ hq hd => (h.wire_of_not_mem (hdriver hq hd)).trans hq
      unconnected := fun r hr _ hnone => (h.wire_of_not_mem hr).trans hnone
      untied := fun r k hr _ hk _ => (h.wire_of_not_mem hr).trans hk
      tied := fun r k v hr _ hk ht => Or.inl ⟨k, (h.wire_of_not_mem hr).trans hk, ?_⟩
      values := fun id c hid _ _ high _ _ => ?_ }
  · rw [h.bare] at hc
    split at hc
    · cases hc
    · exact ⟨c, hc, .refl c⟩
  · rcases (tied_iff hw).mp ht with hv | ⟨p, c, hp, hd, hc, hv⟩
    · exact Or.inl (h.constants k v hv)
    · have hstays := hdriver hp hd
      refine (tied_iff h.wellFormed).mpr (Or.inr ⟨p, c, ?_, ?_, ?_, hv⟩)
      · exact (h.wire_of_not_mem hstays).trans hp
      · rw [dir_congr (h.bare_of_not_mem hstays)]
        exact hd
      · exact (h.bare_of_not_mem hstays).trans hc
  · refine selectedValue_congr (h.bare_of_not_mem hid) fun _ _ _ _ port _ => ?_
    rw [h.wire_of_not_mem hid]

/-- If the queued cells drive nothing, flushing refines the netlist, and no table
input is left on a constant net. -/
theorem flush_ok {removed : Nat} (hw : nl.WellFormed) (hquiet : Quiet nl)
    (hfolded : Folded options nl) (h : Edit.flush names nl = .ok removed nl') :
    ∃ gone, Refines options gone nl nl' ∧ (∀ id ∈ gone, nl'.bare id = none) ∧
      (∀ id, nl'.isMarked id = false) ∧ ∀ r, Clear options nl' r := by
  obtain ⟨hflushed, hunmarked, -⟩ := flush_flushed hw h
  have href : Refines options nl.queue.keys nl nl' :=
    .of_flushed hw hflushed fun id hid port k => hquiet ⟨id, port⟩ k (mem_queue.mp hid)
  refine ⟨nl.queue.keys, href, fun id => hflushed.bare_of_mem, hunmarked, fun r k hk hfold => ?_⟩
  obtain ⟨hstays, hk₀⟩ := hflushed.wire_of_some hk
  have hr : nl.isMarked r.cell = false := by
    rw [← Bool.not_eq_true, ← mem_queue]
    exact hstays
  have hfree := hfolded r hr k hk₀ (href.foldable_back hfold)
  cases hv : nl'.constValue k with
  | none => rfl
  | some v =>
    rw [href.constValue_back (hw.wired.tag_isSome_of_wire hk₀) hv] at hfree
    cases hfree

end Normalize
end FpgaPacking
