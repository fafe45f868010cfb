import FpgaPacking.Proofs.Netlist.Order

/-!
# Edits that move ports to new nets

Every insertion of a boundary cell moves one or two ports from their nets to new
ones and puts ports of the new cell in their place.  `Edited moved` says that a
netlist came from another in this way: everything but the ports in `moved` is
where it was, and a net that was there before has new ports only in place of
moved ones.  Edits of this kind compose, and they cannot disturb a link between
ports that none of them moves.
-/

namespace FpgaPacking
namespace Chain

variable {nl nl' nl'' : Netlist} {moved moved' : List PortRef} {r s : PortRef} {k : NetId}

/-- The second netlist is the first with the ports `moved` on new nets and new
cells, of a boundary role, connected to the nets they have left. -/
structure Edited (moved : List PortRef) (nl nl' : Netlist) : Prop where
  wellFormed : nl'.WellFormed
  /-- Cells stay as they are, except for their cluster. -/
  cells : ∀ id c, nl.bare id = some c → ∃ m, nl'.bare id = some { c with cluster := m }
  created : ∀ id c, nl.bare id = none → nl'.bare id = some c → c.role ≠ .normal
  nets : ∀ k t, nl.tag k = some t → nl'.tag k = some t
  still : ∀ r, r ∉ moved → (nl.bare r.cell).isSome → nl'.wire r = nl.wire r
  moved_from : ∀ r ∈ moved, (nl.wire r).isSome
  moved_to : ∀ r ∈ moved, ∃ k, nl'.wire r = some k ∧ nl.tag k = none
  /-- A new port on an old net has the place of a moved port that is a driver or a reader as well. -/
  replaced : ∀ r k, nl.bare r.cell = none → nl'.wire r = some k → (nl.tag k).isSome →
    ∃ q ∈ moved, nl.wire q = some k ∧ (nl.dir q = some .output ↔ nl'.dir r = some .output)
  /-- A moved port leaves a new one of its kind behind, unless it read what a moved port drove. -/
  refilled : ∀ r ∈ moved, ∀ k, nl.wire r = some k → (nl.tag k).isSome →
    (∃ q, nl.bare q.cell = none ∧ nl'.wire q = some k ∧
      (nl.dir r = some .output ↔ nl'.dir q = some .output)) ∨
    nl.dir r ≠ some .output ∧ ∃ q ∈ moved, nl.wire q = some k ∧ nl.dir q = some .output
  order : Netlist.KeepsOrder moved nl nl'

namespace Edited

theorem refl (h : nl.WellFormed) : Edited [] nl nl where
  wellFormed := h
  cells _ c hc := ⟨c.cluster, hc⟩
  created _ _ hnone hsome := absurd (hnone.symm.trans hsome) nofun
  nets _ _ ht := ht
  still _ _ _ := rfl
  moved_from _ hr := nomatch hr
  moved_to _ hr := nomatch hr
  replaced r k hnone hr _ := by
    rw [Netlist.wire_eq_none_of_bare hnone] at hr
    cases hr
  refilled := nofun
  order := .refl

theorem bare_isSome (h : Edited moved nl nl') {id : CellId} (hid : (nl.bare id).isSome) :
    (nl'.bare id).isSome := by
  obtain ⟨c, hc⟩ := Option.isSome_iff_exists.mp hid
  obtain ⟨m, hm⟩ := h.cells id c hc
  simp [hm]

theorem dir (h : Edited moved nl nl') (hr : (nl.bare r.cell).isSome) : nl'.dir r = nl.dir r := by
  obtain ⟨c, hc⟩ := Option.isSome_iff_exists.mp hr
  obtain ⟨m, hm⟩ := h.cells r.cell c hc
  rw [Netlist.dir_eq_of_bare, Netlist.dir_eq_of_bare, hc, hm]
  rfl

theorem tag_isSome (h : Edited moved nl nl') (hk : (nl.tag k).isSome) : (nl'.tag k).isSome := by
  obtain ⟨t, ht⟩ := Option.isSome_iff_exists.mp hk
  simp [h.nets k t ht]

/-- A port that is on an old net afterwards was on it before, or it is new and
has the place of a moved port. -/
theorem of_wire (h : Edited moved nl nl') (hk : (nl.tag k).isSome) (hr : nl'.wire r = some k) :
    nl.wire r = some k ∧ r ∉ moved ∧ nl'.dir r = nl.dir r ∨
      ∃ q ∈ moved, nl.wire q = some k ∧ (nl.dir q = some .output ↔ nl'.dir r = some .output) := by
  cases hb : nl.bare r.cell with
  | none => exact Or.inr (h.replaced r k hb hr hk)
  | some c =>
    have hlive : (nl.bare r.cell).isSome := by simp [hb]
    by_cases hm : r ∈ moved
    · obtain ⟨k', hk', hnew⟩ := h.moved_to r hm
      obtain rfl : k' = k := Option.some.inj (hk'.symm.trans hr)
      simp [hnew] at hk
    · exact Or.inl ⟨(h.still r hm hlive).symm.trans hr, hm, h.dir hlive⟩

theorem trans (h : Edited moved nl nl') (h' : Edited moved' nl' nl'')
    (hold : ∀ r ∈ moved', (nl.bare r.cell).isSome) : Edited (moved ++ moved') nl nl'' where
  wellFormed := h'.wellFormed
  cells id c hc := by
    obtain ⟨m, hm⟩ := h.cells id c hc
    obtain ⟨m', hm'⟩ := h'.cells id _ hm
    exact ⟨m', hm'⟩
  created id c hnone hsome := by
    cases hmid : nl'.bare id with
    | none => exact h'.created id c hmid hsome
    | some d =>
      obtain ⟨m, hm⟩ := h'.cells id d hmid
      obtain rfl : { d with cluster := m } = c := Option.some.inj (hm.symm.trans hsome)
      exact h.created id d hnone hmid
  nets k t ht := h'.nets k t (h.nets k t ht)
  still r hr hlive := by
    rw [List.mem_append, not_or] at hr
    rw [h'.still r hr.2 (h.bare_isSome hlive), h.still r hr.1 hlive]
  moved_from r hr := by
    by_cases hm : r ∈ moved
    · exact h.moved_from r hm
    · have hr' : r ∈ moved' := (List.mem_append.mp hr).resolve_left hm
      rw [← h.still r hm (hold r hr')]
      exact h'.moved_from r hr'
  moved_to r hr := by
    by_cases hr' : r ∈ moved'
    · obtain ⟨k, hk, hnew⟩ := h'.moved_to r hr'
      refine ⟨k, hk, ?_⟩
      cases ht : nl.tag k with
      | none => rfl
      | some t =>
        rw [h.nets k t ht] at hnew
        cases hnew
    · have hm : r ∈ moved := (List.mem_append.mp hr).resolve_right hr'
      obtain ⟨k, hk, hnew⟩ := h.moved_to r hm
      refine ⟨k, ?_, hnew⟩
      rw [h'.still r hr' (Netlist.bare_isSome_of_wire hk)]
      exact hk
  replaced r k hnone hr hk := by
    -- The place may have been taken over twice.
    have hfirst : ∀ q, nl.bare q.cell = none → nl'.wire q = some k →
        ∃ q' ∈ moved ++ moved', nl.wire q' = some k ∧
          (nl.dir q' = some .output ↔ nl'.dir q = some .output) := by
      intro q hq hqk
      obtain ⟨q', hq', hw', hd'⟩ := h.replaced q k hq hqk hk
      exact ⟨q', List.mem_append_left _ hq', hw', hd'⟩
    rcases h'.of_wire (h.tag_isSome hk) hr with ⟨hr', -, hd⟩ | ⟨q, hq, hqk, hd⟩
    · obtain ⟨q', hq', hw', hd'⟩ := hfirst r hnone hr'
      exact ⟨q', hq', hw', hd'.trans (by rw [hd])⟩
    · rcases h.of_wire hk hqk with ⟨hqk', -, hd'⟩ | ⟨q', hq', hw', hd'⟩
      · exact ⟨q, List.mem_append_right _ hq, hqk', by rw [← hd']; exact hd⟩
      · exact ⟨q', List.mem_append_left _ hq', hw', hd'.trans hd⟩
  refilled r hr k hrk hk := by
    by_cases hm : r ∈ moved
    · rcases h.refilled r hm k hrk hk with ⟨q, hnew, hqk, hd⟩ | ⟨hd, q, hq, hqk⟩
      · -- The later edits move old ports only, so the new one stays.
        have hlive := Netlist.bare_isSome_of_wire hqk
        have hq : q ∉ moved' := fun hq => by simpa [hnew] using hold q hq
        refine Or.inl ⟨q, hnew, (h'.still q hq hlive).trans hqk, ?_⟩
        rw [h'.dir hlive]
        exact hd
      · exact Or.inr ⟨hd, q, List.mem_append_left _ hq, hqk⟩
    · have hr' : r ∈ moved' := (List.mem_append.mp hr).resolve_left hm
      have hrk' : nl'.wire r = some k := (h.still r hm (hold r hr')).trans hrk
      have hdr : nl'.dir r = nl.dir r := h.dir (hold r hr')
      rcases h'.refilled r hr' k hrk' (h.tag_isSome hk) with ⟨q, hnew, hqk, hd⟩ | ⟨hd, q, hq, hqk, hdq⟩
      · refine Or.inl ⟨q, ?_, hqk, hdr ▸ hd⟩
        by_contra hsome
        have hlive := h.bare_isSome (Option.isSome_iff_ne_none.mpr hsome)
        simp [hnew] at hlive
      · have hunmoved : q ∉ moved := by
          intro hqm
          obtain ⟨k', hk', hfresh⟩ := h.moved_to q hqm
          obtain rfl := Option.some.inj (hk'.symm.trans hqk)
          simp [hfresh] at hk
        have hlive := hold q hq
        refine Or.inr ⟨hdr ▸ hd, q, List.mem_append_right _ hq, ?_, (h.dir hlive).symm.trans hdq⟩
        exact (h.still q hunmoved hlive).symm.trans hqk
  order := h.order.trans h'.order

end Edited

/-! ## What edits leave alone -/

/-- The first port drives a net whose only reader is the second. -/
def Linked (nl : Netlist) (r s : PortRef) : Prop :=
  ∃ k, nl.wire r = some k ∧ nl.dir r = some .output ∧
    nl.wire s = some k ∧ nl.dir s ≠ some .output ∧
    ∀ q, nl.wire q = some k → nl.dir q ≠ some .output → q = s

/-- The port is on no net that has a driver. -/
def Unfed (nl : Netlist) (r : PortRef) : Prop :=
  ∀ k q, nl.wire r = some k → nl.wire q = some k → nl.dir q ≠ some .output

/-- The port is on no net that has a reader. -/
def Unread (nl : Netlist) (r : PortRef) : Prop :=
  ∀ k q, nl.wire r = some k → nl.wire q = some k → nl.dir q = some .output

theorem Linked.of_only (hr : nl.wire r = some k) (hdr : nl.dir r = some .output)
    (hs : nl.wire s = some k) (hds : nl.dir s ≠ some .output)
    (honly : ∀ q, nl.wire q = some k → q = r ∨ q = s) : Linked nl r s := by
  refine ⟨k, hr, hdr, hs, hds, fun q hq hd => ?_⟩
  rcases honly q hq with rfl | rfl
  · exact absurd hdr hd
  · rfl

theorem Linked.edited (hl : Linked nl r s) (hw : nl.WellFormed) (h : Edited moved nl nl')
    (hr : r ∉ moved) (hs : s ∉ moved) : Linked nl' r s := by
  obtain ⟨k, hrk, hdr, hsk, hds, honly⟩ := hl
  have hlive : ∀ q, nl.wire q = some k → (nl.bare q.cell).isSome := fun q hq =>
    Netlist.bare_isSome_of_wire hq
  refine ⟨k, ?_, ?_, ?_, ?_, ?_⟩
  · rw [h.still r hr (hlive r hrk)]
    exact hrk
  · rw [h.dir (hlive r hrk)]
    exact hdr
  · rw [h.still s hs (hlive s hsk)]
    exact hsk
  · rw [h.dir (hlive s hsk)]
    exact hds
  · intro q hq hd
    rcases h.of_wire (hw.wired.tag_isSome_of_wire hrk) hq with ⟨hqk, -, hdq⟩ | ⟨q', hq', hqk', hd'⟩
    · exact honly q hqk (hdq ▸ hd)
    · have hq's : q' = s := honly q' hqk' fun e => hd (hd'.mp e)
      exact absurd (hq's ▸ hq') hs

theorem Unfed.edited (hu : Unfed nl r) (hw : nl.WellFormed) (h : Edited moved nl nl')
    (hlive : (nl.bare r.cell).isSome) (hr : r ∉ moved) : Unfed nl' r := by
  intro k q hrk hq hd
  rw [h.still r hr hlive] at hrk
  rcases h.of_wire (hw.wired.tag_isSome_of_wire hrk) hq with ⟨hqk, -, hdq⟩ | ⟨q', -, hqk', hd'⟩
  · exact hu k q hrk hqk (hdq ▸ hd)
  · exact hu k q' hrk hqk' (hd'.mpr hd)

theorem Unread.edited (hu : Unread nl r) (hw : nl.WellFormed) (h : Edited moved nl nl')
    (hlive : (nl.bare r.cell).isSome) (hr : r ∉ moved) : Unread nl' r := by
  intro k q hrk hq
  rw [h.still r hr hlive] at hrk
  rcases h.of_wire (hw.wired.tag_isSome_of_wire hrk) hq with ⟨hqk, -, hdq⟩ | ⟨q', -, hqk', hd'⟩
  · rw [hdq]
    exact hu k q hrk hqk
  · exact hd'.mp (hu k q' hrk hqk')

end Chain
end FpgaPacking
