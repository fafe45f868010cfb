import FpgaPacking.Proofs.Chain.Components
import FpgaPacking.Proofs.Chain.Packed
import FpgaPacking.Proofs.Failures

/-!
# Exact chain discovery

Through the chain ports of a fabric a cell leads to the first of the cells that
read its chain output on their chain input.  If chain outputs are outputs, a net
has at most one of them, so a cell is led to by one cell at most and discovery
finds the components of this relation.
-/

namespace FpgaPacking
namespace Chain

variable {nl : Netlist} {chainIn chainOut : Ident} {p : Cell → Bool} {id d c : CellId} {k : NetId}

/-- Of the cells that satisfy `p` and read the net on `d`'s chain output on their
chain input, `c` is the first. -/
def Leads (nl : Netlist) (chainIn chainOut : Ident) (p : Cell → Bool) (d c : CellId) : Prop :=
  Satisfies nl p d ∧ ∃ k n before after, nl.netOf d chainOut = some k ∧ nl.net? k = some n ∧
    n.sinks = before ++ ⟨c, chainIn⟩ :: after ∧ Satisfies nl p c ∧
    ∀ x, ⟨x, chainIn⟩ ∈ before → ¬Satisfies nl p x

theorem any_eq_true : (nl.cell? id).any p = true ↔ Satisfies nl p id := Option.any_eq_true _ _

theorem firstReader_eq_some : nl.firstReader k p chainIn = some c ↔
    ∃ n before after, nl.net? k = some n ∧ n.sinks = before ++ ⟨c, chainIn⟩ :: after ∧
      Satisfies nl p c ∧ ∀ x, ⟨x, chainIn⟩ ∈ before → ¬Satisfies nl p x := by
  unfold Netlist.firstReader
  simp only [Option.bind_eq_bind, Option.bind_eq_some_iff, List.find?_eq_some_iff_append,
    Bool.and_eq_true, decide_eq_true_eq, any_eq_true, Bool.not_eq_true']
  constructor
  · rintro ⟨n, hn, ⟨id, port⟩, ⟨⟨rfl, hp⟩, before, after, hsinks, hbefore⟩, ⟨⟩⟩
    refine ⟨n, before, after, hn, hsinks, hp, fun x hx hsatisfies => ?_⟩
    have hnot := hbefore _ hx
    rw [any_eq_true.mpr hsatisfies] at hnot
    simp at hnot
  · rintro ⟨n, before, after, hn, hsinks, hp, hbefore⟩
    refine ⟨n, hn, ⟨c, chainIn⟩, ⟨⟨rfl, hp⟩, before, after, hsinks, fun s hs => ?_⟩, rfl⟩
    obtain ⟨id, port⟩ := s
    by_cases hport : port = chainIn
    · subst hport
      have hnot := fun h => hbefore id hs (any_eq_true.mp h)
      simpa using hnot
    · simp [hport]

/-- Chain outputs are outputs. -/
def Outputs (nl : Netlist) (chainOut : Ident) (p : Cell → Bool) : Prop :=
  ∀ id c q, nl.cell? id = some c → p c = true → c.port? chainOut = some q → q.direction = .output

theorem navigates_carryNavigation (hw : nl.WellFormed) (hout : Outputs nl chainOut p) :
    Navigates (carryNavigation nl chainIn chainOut p) (Satisfies nl p)
      (Leads nl chainIn chainOut p) where
  next_iff d c := by
    refine and_congr_right fun _ => ?_
    show _ ↔ (nl.netOf d chainOut).bind _ = some c
    rw [Option.bind_eq_some_iff]
    constructor
    · rintro ⟨k, n, before, after, hk, h⟩
      exact ⟨k, hk, firstReader_eq_some.mpr ⟨n, before, after, h⟩⟩
    · rintro ⟨k, hk, h⟩
      obtain ⟨n, before, after, h⟩ := firstReader_eq_some.mp h
      exact ⟨k, n, before, after, hk, h⟩
  previous d c h := by
    obtain ⟨⟨cell, hcell, hp⟩, k, n, before, after, hk, hn, hsinks, -, -⟩ := h
    have hread : nl.wire ⟨c, chainIn⟩ = some k :=
      ((hw.wired.sink_iff k n _ hn).mp (hsinks ▸ List.mem_append_right _ List.mem_cons_self)).1
    have hdriver : n.driver = some ⟨d, chainOut⟩ := by
      refine (hw.wired.driver_iff k n _ hn).mpr ⟨hk, ?_⟩
      obtain ⟨q, hq, hqk⟩ := Netlist.wire_eq_some.mp (show nl.wire ⟨d, chainOut⟩ = some k from hk)
      have hport : cell.port? chainOut = some q := by simpa [Netlist.port?, hcell] using hq
      exact (congrArg (Option.map _) hq).trans (congrArg some (hout d cell q hcell hp hport))
    have hprevious : nl.drivenBy k p chainOut = some d := by
      unfold Netlist.drivenBy
      simp [hn, hdriver, hcell, hp]
    exact Option.bind_eq_some_iff.mpr ⟨k, hread, hprevious⟩
  next_mem _ _ h := satisfies_next h
  previous_mem _ _ h := satisfies_previous h

theorem mem_candidates : id ∈ candidates nl p ↔ Satisfies nl p id := by
  refine ⟨satisfies_of_mem_candidates, ?_⟩
  rintro ⟨c, hc, hp⟩
  have hentry := (nl.cells.mem_entries id c).mpr hc
  exact List.mem_map.mpr ⟨(id, c), List.mem_filter.mpr ⟨hentry, hp⟩, rfl⟩

theorem Satisfies.mem_cellIds (h : Satisfies nl p id) : id ∈ nl.cellIds := by
  obtain ⟨c, hc, -⟩ := h
  exact Netlist.mem_cellIds.mpr (by simp [Netlist.bare, hc])

/-- Before the first chain everything is to be visited. -/
theorem toVisit_candidates {q : CellId → CellId → Prop} {minLength : Nat}
    (hq : ∀ a, Satisfies nl p a → ∀ b ∈ Component q a, Satisfies nl p b) :
    ToVisit (Satisfies nl p) q minLength nl.cellIds (candidates nl p) where
  nodup := nl.cells.nodup_ids
  whole x _ hx y hy := (hq x hx y hy).mem_cellIds
  satisfies _ := satisfies_of_mem_candidates
  sorted := by
    have hsub : (candidates nl p).Sublist nl.cellIds := List.Sublist.map _ List.filter_sublist
    exact nl.cells.pairwise_ids.sublist hsub
  visits _ _ hx _ := mem_candidates.mpr hx

/-- Discovery reports what it finds and cannot fail. -/
theorem exists_discover (nav : Netlist → Navigation) {minLength : Nat} {s : Session} :
    ∃ s', discover p nav minLength s = .ok (find s.netlist p (nav s.netlist) minLength) s' ∧
      s'.netlist = s.netlist := by
  have hnote : ∀ chain ∈ find s.netlist p (nav s.netlist) minLength,
      ∃ note, foundNote s.netlist chain = .ok note := by
    intro chain hchain
    unfold foundNote
    cases chain with
    | nil => exact ⟨_, rfl⟩
    | cons head rest =>
      have hlive := ((find_disjoint _ _ _ _).1 _ hchain).2 head List.mem_cons_self
      rw [Netlist.mem_cellIds, Netlist.bare_isSome] at hlive
      obtain ⟨c, hc⟩ := Option.isSome_iff_exists.mp hlive
      have hcell : s.netlist.cell head = .ok c := cell_eq_ok.mpr hc
      simp only [List.head?_cons, Option.mapM_some, hcell]
      exact ⟨_, rfl⟩
  have hrun : ∃ s', discover p nav minLength s =
      .ok (find s.netlist p (nav s.netlist) minLength) s' := by
    obtain ⟨s', hnotes⟩ := exists_forM_ok
      (f := fun chain => (do Packing.emit (← foundNote s.netlist chain) : Packing Unit))
      (l := find s.netlist p (nav s.netlist) minLength) (fun chain hchain t => by
        obtain ⟨note, hnote⟩ := hnote chain hchain
        exact ⟨_, bind_ok.mpr ⟨note, t, Packing.lookup_ok.mpr ⟨hnote, rfl⟩,
          Packing.emit_ok.mpr rfl⟩⟩) s
    refine ⟨s', ?_⟩
    unfold discover
    refine bind_ok.mpr ⟨s.netlist, s, Packing.netlist_ok.mpr ⟨rfl, rfl⟩, ?_⟩
    exact bind_ok.mpr ⟨_, s', hnotes, pure_ok.mpr ⟨rfl, rfl⟩⟩
  obtain ⟨s', hrun⟩ := hrun
  exact ⟨s', hrun, (discover_ok hrun).1⟩

/-- The chains are the components with at least `minLength` cells, each listed once
and from its start, or round a cycle up to its earliest cell. -/
structure Exact (nl : Netlist) (leads : CellId → CellId → Prop) (p : Cell → Bool)
    (minLength : Nat) (chains : List (List CellId)) : Prop where
  nodup : ∀ chain ∈ chains, chain.Nodup
  component : ∀ chain ∈ chains, ∃ x, Satisfies nl p x ∧ ∀ y, y ∈ chain ↔ y ∈ Component leads x
  shape : ∀ chain ∈ chains, IsPath leads chain ∨ IsCycle leads chain ∧
    ∃ last, chain.getLast? = some last ∧ ∀ x ∈ chain, last.index ≤ x.index
  long : ∀ chain ∈ chains, max minLength 1 ≤ chain.length
  /-- A cell whose component is large enough is in exactly one chain. -/
  complete : ∀ x, Satisfies nl p x → (minLength : ENat) ≤ (Component leads x).encard →
    ∃! chain, chain ∈ chains ∧ x ∈ chain
  /-- A cell whose component is too small is in none. -/
  none : ∀ x, Satisfies nl p x → (Component leads x).encard < minLength →
    ∀ chain ∈ chains, x ∉ chain
  disjoint : chains.Pairwise List.Disjoint
  /-- The chains come in the order of their earliest cells. -/
  ordered : chains.Pairwise fun a b => ∃ x ∈ a, ∀ y ∈ b, x.index < y.index

theorem Finds.exact {leads : CellId → CellId → Prop} {minLength : Nat} {available : List CellId}
    {chains : List (List CellId)} (hmem : ∀ x, Satisfies nl p x → x ∈ available)
    (h : Finds (Satisfies nl p) leads minLength available chains)
    (hdisjoint : chains.Pairwise List.Disjoint) : Exact nl leads p minLength chains where
  nodup := h.nodup
  component chain hchain := by
    obtain ⟨x, -, hx, hcomponent⟩ := h.component chain hchain
    exact ⟨x, hx, hcomponent⟩
  shape := h.shape
  long chain hchain := by
    obtain ⟨x, -, -, hcomponent⟩ := h.component chain hchain
    have hpos := List.length_pos_of_mem ((hcomponent x).mpr (.refl x))
    have hlong := h.long chain hchain
    omega
  complete x hx hlong := by
    obtain ⟨chain, hchain, hin⟩ := h.complete x (hmem x hx) hx hlong
    refine ⟨chain, ⟨hchain, hin⟩, ?_⟩
    rintro other ⟨hother, hin'⟩
    by_contra hne
    have : Std.Symm (List.Disjoint (α := CellId)) := ⟨fun _ _ => List.Disjoint.symm⟩
    exact hdisjoint.forall hother hchain hne hin' hin
  none x hx hshort chain hchain hin := by
    obtain ⟨y, -, -, hcomponent⟩ := h.component chain hchain
    have hsize := encard_eq_length (h.nodup chain hchain) hcomponent
    rw [component_eq ((hcomponent x).mp hin), hsize, Nat.cast_lt] at hshort
    have hlong := h.long chain hchain
    omega
  disjoint := hdisjoint
  ordered := h.ordered

theorem find_exact (chainIn : Ident) (minLength : Nat) (hw : nl.WellFormed)
    (hout : Outputs nl chainOut p) :
    Exact nl (Leads nl chainIn chainOut p) p minLength
      (find nl p (carryNavigation nl chainIn chainOut p) minLength) := by
  have hnav : Navigates (carryNavigation nl chainIn chainOut p) (Satisfies nl p)
      (Leads nl chainIn chainOut p) := navigates_carryNavigation hw hout
  refine Finds.exact (fun x hx => hx.mem_cellIds) ?_ (find_spec).2
  refine finds_chainsThrough hnav (toVisit_candidates fun a ha b hab => ?_)
  exact (hnav.satisfies_iff hab).mp ha

/-- Discovery along chain ports finds exactly the components that are long enough. -/
theorem discover_exact (chainIn chainOut : Ident) (p : Cell → Bool) (minLength : Nat) (s : Session)
    (hw : s.netlist.WellFormed) (hout : Outputs s.netlist chainOut p) :
    (∀ d c c', Leads s.netlist chainIn chainOut p d c → Leads s.netlist chainIn chainOut p d c' →
      c = c') ∧
    (∀ d d' c, Leads s.netlist chainIn chainOut p d c → Leads s.netlist chainIn chainOut p d' c →
      d = d') ∧
    ∃ chains s', discover p (fun nl => carryNavigation nl chainIn chainOut p) minLength s =
      .ok chains s' ∧ s'.netlist = s.netlist ∧
      Exact s.netlist (Leads s.netlist chainIn chainOut p) p minLength chains := by
  have hnav : Navigates (carryNavigation s.netlist chainIn chainOut p) (Satisfies s.netlist p)
      (Leads s.netlist chainIn chainOut p) := navigates_carryNavigation hw hout
  refine ⟨fun d c c' => hnav.functional, fun d d' c => hnav.injective, ?_⟩
  obtain ⟨s', hrun, hsame⟩ := exists_discover fun nl => carryNavigation nl chainIn chainOut p
  exact ⟨_, s', hrun, hsame, find_exact chainIn minLength hw hout⟩

/-- The two carry cells make one path. -/
theorem adder_chains_exact :
    ∃ chains s', discover (Adder.fabric.isChainCell ·) (fun nl => carryNavigation nl ⟨0⟩ ⟨1⟩
        (Adder.fabric.isChainCell ·)) 1 Adder.session = .ok chains s' ∧
      chains = [[⟨1⟩, ⟨2⟩]] ∧
      Exact Adder.session.netlist (Leads Adder.session.netlist ⟨0⟩ ⟨1⟩ (Adder.fabric.isChainCell ·))
        (Adder.fabric.isChainCell ·) 1 chains := by
  obtain ⟨-, -, chains, s', hrun, -, hexact⟩ := discover_exact ⟨0⟩ ⟨1⟩
    (Adder.fabric.isChainCell ·) 1 Adder.session Adder.packable.wellFormed
    fun id c q => Adder.packable.chain_out id c q
  refine ⟨chains, s', hrun, ?_, hexact⟩
  have hreturned : returned? (discover (Adder.fabric.isChainCell ·) (fun nl =>
      carryNavigation nl ⟨0⟩ ⟨1⟩ (Adder.fabric.isChainCell ·)) 1 Adder.session) =
      some [[⟨1⟩, ⟨2⟩]] := by decide +kernel
  rw [hrun] at hreturned
  exact Option.some.inj hreturned

/-! ## The chains of a fabric -/

variable {f : Fabric}

theorem satisfies_isEligible : Satisfies nl (Pack.isEligible f) id ↔
    (∃ c, nl.bare id = some c ∧ f.isChainCell c = true) ∧ Cluster.Free nl.membership id := by
  unfold Satisfies Pack.isEligible
  constructor
  · rintro ⟨c, hc, hp⟩
    obtain ⟨hchain, hfree⟩ := Bool.and_eq_true_iff.mp hp
    refine ⟨⟨c.unwired, Netlist.bare_of_cell? hc, hchain⟩, c.cluster,
      Netlist.membership_of_cell? hc, ?_⟩
    simpa [Cell.isClustered] using hfree
  · rintro ⟨⟨c, hc, hchain⟩, m, hm, hfree⟩
    obtain ⟨d, hd, rfl⟩ := Option.map_eq_some_iff.mp hc
    obtain rfl := Option.some.inj (hm.symm.trans (Netlist.membership_of_cell? hd))
    refine ⟨d, hd, Bool.and_eq_true_iff.mpr ⟨hchain, ?_⟩⟩
    simp [Cell.isClustered, hfree]

theorem Directed.outputs (h : Directed f nl) : Outputs nl f.chainOut (Pack.isEligible f) :=
  fun id c q hc hp hq => h.chain_out id c q hc (Bool.and_eq_true_iff.mp hp).1 hq

/-- The chains of a fabric are the components of the eligible cells that are large enough. -/
theorem Directed.exact (h : Directed f nl) :
    Exact nl (Leads nl f.chainIn f.chainOut (Pack.isEligible f)) (Pack.isEligible f) f.minLength
      (foundChains f nl) :=
  find_exact f.chainIn f.minLength h.wellFormed h.outputs

/-- Where a cell leads to, the two are neighbours on a net. -/
theorem Leads.together (hw : nl.WellFormed) (h : Leads nl f.chainIn f.chainOut p d c) :
    Together f nl d c := by
  obtain ⟨-, k, n, before, after, hk, hn, hsinks, -, -⟩ := h
  have hread := (hw.wired.sink_iff k n _ hn).mp (hsinks ▸ List.mem_append_right _ List.mem_cons_self)
  exact ⟨k, hk, hread.1⟩

/-- The chains that discovery finds among chain cells are intact. -/
theorem Directed.intact (h : Directed f nl) {minLength : Nat}
    (hp : ∀ c, p c = true → f.isChainCell c = true) {chain : List CellId}
    (hchain : chain ∈ find nl p (carryNavigation nl f.chainIn f.chainOut p) minLength) :
    Intact f nl chain := by
  have hout : Outputs nl f.chainOut p := fun id c q hc hpc hq => h.chain_out id c q hc (hp c hpc) hq
  obtain ⟨hnodup, hsatisfies⟩ := find_spec.1 chain hchain
  refine ⟨hnodup, fun id hid => ?_, ?_⟩
  · obtain ⟨c, hc, hpc⟩ := hsatisfies id hid
    exact h.chainCell hc (hp c hpc)
  · have hlinked : chain.IsChain (Leads nl f.chainIn f.chainOut p) := by
      rcases (find_exact f.chainIn minLength h.wellFormed hout).shape chain hchain with
        hpath | ⟨hcycle, -⟩
      · exact hpath.linked
      · exact hcycle.linked
    exact hlinked.imp fun _ _ hleads => hleads.together h.wellFormed

theorem isChainCell_of_isEligible {c : Cell} (h : Pack.isEligible f c = true) :
    f.isChainCell c = true := (Bool.and_eq_true_iff.mp h).1

end Chain
end FpgaPacking
