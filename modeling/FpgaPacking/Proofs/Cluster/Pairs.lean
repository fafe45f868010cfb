import FpgaPacking.Proofs.Chain.Discovered
import FpgaPacking.Proofs.Cluster.Placement

/-!
# Pairs

A driver and the only reader of its net qualify as a pair while neither of them
is in a cluster.  Clustering a pair takes two cells away from the others and
changes nothing else, so it does not make another pair qualify.  Hence one pass
over the drivers leaves no pair behind.

A pair can be built unless the place of the sink is that of the root.  This does
not depend on the pair: either no pair fails or the first one does.
-/

namespace FpgaPacking
namespace Cluster

open Netlist

variable {names : Names} {nl nl₁ nl' : Netlist} {rule : PairRule} {offset : Offset}
  {driver load d l id : CellId} {pairs rest : List (CellId × CellId)} {p : CellId × CellId}

/-! ## Qualified pairs -/

/-- The driver drives a net that the load alone reads, and neither of them is in a cluster. -/
structure Qualifies (nl : Netlist) (rule : PairRule) (driver load : CellId) : Prop where
  distinct : driver ≠ load
  at_driver : ∃ c, nl.cell? driver = some c ∧ c.cluster.root = none ∧ rule.isDriver c = true
  at_load : ∃ c, nl.cell? load = some c ∧ c.cluster.root = none ∧ rule.isSink c = true
  exclusive : ∃ k n, nl.net? k = some n ∧ n.driver = some ⟨driver, rule.driverPort⟩ ∧
    n.sinks = [⟨load, rule.sinkPort⟩]

theorem onlyReader_eq_some {k : NetId} {q : Cell → Bool} {port : Ident} :
    nl.onlyReader k q port = some load ↔
      ∃ n, nl.net? k = some n ∧ n.sinks = [⟨load, port⟩] ∧ Chain.Satisfies nl q load := by
  unfold Netlist.onlyReader
  simp only [Option.bind_eq_bind, Option.bind_eq_some_iff, Option.ite_none_right_eq_some,
    Chain.firstReader_eq_some]
  constructor
  · rintro ⟨n, hn, hone, m, before, after, hm, hsinks, hload, -⟩
    obtain rfl := Option.some.inj (hn.symm.trans hm)
    have hlength : before.length + (after.length + 1) = 1 := by
      rw [hsinks, List.length_append, List.length_cons] at hone
      exact hone
    obtain rfl : before = [] := List.eq_nil_of_length_eq_zero (by omega)
    obtain rfl : after = [] := List.eq_nil_of_length_eq_zero (by omega)
    exact ⟨n, hn, hsinks, hload⟩
  · rintro ⟨n, hn, hsinks, hload⟩
    refine ⟨n, hn, ?_, n, [], [], hn, hsinks, hload, nofun⟩
    rw [hsinks]
    rfl

theorem partner?_eq_some {c : Cell} :
    partner? nl rule driver c = some load ↔
      c.cluster.root = none ∧ rule.isDriver c = true ∧ load ≠ driver ∧
        ∃ k, c.netOf rule.driverPort = some k ∧
          nl.onlyReader k (fun c => !c.isClustered && rule.isSink c) rule.sinkPort = some load := by
  unfold partner? Cell.isClustered
  cases c.cluster.root with
  | some root => simp
  | none =>
    cases rule.isDriver c with
    | false => simp
    | true =>
      simp only [Option.isSome_none, Bool.not_true, Bool.or_self, Bool.false_eq_true, if_false,
        Option.bind_eq_bind, Option.bind_eq_some_iff, true_and]
      constructor
      · rintro ⟨k, hk, found, hfound, h⟩
        split at h
        · cases h
        · next hne =>
          obtain rfl := Option.some.inj h
          exact ⟨hne, k, hk, hfound⟩
      · rintro ⟨hne, k, hk, hfound⟩
        exact ⟨k, hk, load, hfound, if_neg hne⟩

/-- In a well-formed netlist partners are pairs that qualify.  A port that does not drive its net is
a reader of it, so the only reader would be the driver itself. -/
theorem partner?_eq_some_iff (hw : nl.WellFormed) {c : Cell} (hc : nl.cell? driver = some c) :
    partner? nl rule driver c = some load ↔ Qualifies nl rule driver load := by
  have hwire : nl.wire ⟨driver, rule.driverPort⟩ = c.netOf rule.driverPort := by
    simp [wire, netOf, hc]
  rw [partner?_eq_some, ← hwire]
  constructor
  · rintro ⟨hfree, hdriver, hne, k, hk, hreader⟩
    obtain ⟨n, hn, hsinks, b, hb, hload⟩ := onlyReader_eq_some.mp hreader
    have hdir : nl.dir ⟨driver, rule.driverPort⟩ = some .output := by
      by_contra hdir
      have hmem := (hw.wired.sink_iff k n _ hn).mpr ⟨hk, hdir⟩
      rw [hsinks, List.mem_singleton] at hmem
      exact hne (congrArg PortRef.cell hmem).symm
    simp only [Cell.isClustered, Bool.and_eq_true, Bool.not_eq_true', Option.isSome_eq_false_iff,
      Option.isNone_iff_eq_none] at hload
    exact
      { distinct := Ne.symm hne
        at_driver := ⟨c, hc, hfree, hdriver⟩
        at_load := ⟨b, hb, hload⟩
        exclusive := ⟨k, n, hn, (hw.wired.driver_iff k n _ hn).mpr ⟨hk, hdir⟩, hsinks⟩ }
  · intro h
    obtain ⟨a, ha, hfree, hdriver⟩ := h.at_driver
    obtain rfl := Option.some.inj (hc.symm.trans ha)
    obtain ⟨b, hb, hload, hsink⟩ := h.at_load
    obtain ⟨k, n, hn, hdrives, hsinks⟩ := h.exclusive
    refine ⟨hfree, hdriver, Ne.symm h.distinct, k, ?_, ?_⟩
    · exact ((hw.wired.driver_iff k n _ hn).mp hdrives).1
    · exact onlyReader_eq_some.mpr ⟨n, hn, hsinks, b, hb, by simp [Cell.isClustered, hload, hsink]⟩

/-! ## Building a pair -/

theorem sameSlot_zero : SameSlot .zero .zero offset ↔ offset = .zero := by
  obtain ⟨dx, dy, dz, pinned⟩ := offset
  simp [SameSlot, Offset.zero, eq_comm]

namespace Qualifies

variable (h : Qualifies nl rule driver load)
include h

theorem free_driver : Free nl.membership driver := by
  obtain ⟨c, hc, hfree, -⟩ := h.at_driver
  exact ⟨c.cluster, membership_of_cell? hc, hfree⟩

theorem free_load : Free nl.membership load := by
  obtain ⟨c, hc, hfree, -⟩ := h.at_load
  exact ⟨c.cluster, membership_of_cell? hc, hfree⟩

/-- The cells of the pair are free and distinct, so the place of the sink decides. -/
theorem build_pair (names : Names) :
    rule.offset ≠ .zero ∧ build driver .zero [(load, rule.offset)] names nl =
        .ok () (clustered nl driver .zero [(load, rule.offset)]) ∨
      rule.offset = .zero ∧ ∃ e, build driver .zero [(load, rule.offset)] names nl = .error e nl ∧
        e.Collision := by
  have hslots : (slot .zero .zero :: [slot .zero rule.offset]).Nodup ↔ rule.offset ≠ .zero := by
    simp [slot_eq_iff, sameSlot_zero]
  have hmembers : ∀ id ∈ [load], Free nl.membership id ∧ id ∉ [driver] := by
    simp [h.free_load, Ne.symm h.distinct]
  rcases build_outcome names .zero [(load, rule.offset)] rfl (checkFree_ok.mpr h.free_driver)
    (checkMembers_ok.mpr ⟨hmembers, List.nodup_singleton _⟩) with ⟨hapart, -⟩ | ⟨hmeet, hrefused⟩
  · refine Or.inl ⟨hslots.mp hapart, build_run ?_⟩
    exact
      { at_root := rfl
        free := by simp [h.free_driver, h.free_load]
        distinct := by simp [h.distinct]
        apart := hapart }
  · exact Or.inr ⟨not_not.mp fun hne => hmeet (hslots.mpr hne), hrefused⟩

end Qualifies

/-! ## Clustered pairs -/

/-- The cells of the pairs. -/
def claimed (pairs : List (CellId × CellId)) : List CellId := pairs.flatMap fun p => [p.1, p.2]

theorem claimed_cons : claimed (p :: pairs) = p.1 :: p.2 :: claimed pairs := rfl

theorem mem_claimed : id ∈ claimed pairs ↔ ∃ p ∈ pairs, id = p.1 ∨ id = p.2 := by
  simp [claimed]

/-- The pairs have been clustered with the sinks at the given place, and nothing else has changed. -/
structure Paired (offset : Offset) (pairs : List (CellId × CellId)) (nl nl' : Netlist) : Prop where
  at_driver : ∀ p ∈ pairs, nl'.cell? p.1 =
    (nl.cell? p.1).map fun c => { c with cluster := ⟨some p.1, .zero, [p.2]⟩ }
  at_load : ∀ p ∈ pairs, nl'.cell? p.2 =
    (nl.cell? p.2).map fun c => { c with cluster := ⟨some p.1, offset, []⟩ }
  elsewhere : ∀ id, id ∉ claimed pairs → nl'.cell? id = nl.cell? id
  /-- The netlists differ in their cells only. -/
  besides : { nl' with cells := nl.cells } = nl

namespace Paired

theorem nil : Paired offset [] nl nl := ⟨nofun, nofun, fun _ _ => rfl, rfl⟩

theorem single (hne : driver ≠ load) :
    Paired offset [(driver, load)] nl (clustered nl driver .zero [(load, offset)]) := by
  have hcell : ∀ id, (clustered nl driver .zero [(load, offset)]).cell? id =
      if id = load then
        (nl.cell? load).map fun c => { c with cluster := ⟨some driver, offset, []⟩ }
      else if id = driver then
        (nl.cell? driver).map fun c => { c with cluster := ⟨some driver, .zero, [load]⟩ }
      else nl.cell? id := by
    intro id
    show ((nl.setCluster driver ⟨some driver, .zero, [load]⟩).mapCell load _).cell? id = _
    unfold setCluster
    rw [cell?_mapCell, cell?_mapCell, cell?_mapCell, if_neg hne.symm]
  refine ⟨?_, ?_, fun id hid => ?_, rfl⟩
  · rintro _ (_ | ⟨_, ⟨⟩⟩)
    rw [hcell, if_neg hne, if_pos rfl]
  · rintro _ (_ | ⟨_, ⟨⟩⟩)
    rw [hcell, if_pos rfl]
  · simp only [claimed_cons, List.mem_cons, not_or] at hid
    rw [hcell, if_neg hid.2.1, if_neg hid.1]

/-- One more pair is clustered beforehand. -/
theorem cons (hp : Paired offset [p] nl nl₁) (hrest : Paired offset rest nl₁ nl')
    (hapart : ∀ id ∈ claimed [p], id ∉ claimed rest) : Paired offset (p :: rest) nl nl' := by
  have hbefore : ∀ id ∈ claimed rest, nl₁.cell? id = nl.cell? id := fun id hid =>
    hp.elsewhere id fun hin => hapart id hin hid
  have hafter : ∀ id ∈ claimed [p], nl'.cell? id = nl₁.cell? id := fun id hid =>
    hrest.elsewhere id (hapart id hid)
  have hdriver : p.1 ∈ claimed [p] := by simp [mem_claimed]
  have hload : p.2 ∈ claimed [p] := by simp [mem_claimed]
  refine ⟨?_, ?_, fun id hid => ?_, ?_⟩
  · refine List.forall_mem_cons.mpr ⟨?_, fun q hq => ?_⟩
    · exact (hafter p.1 hdriver).trans (hp.at_driver p (List.mem_singleton_self p))
    · rw [hrest.at_driver q hq, hbefore q.1 (mem_claimed.mpr ⟨q, hq, Or.inl rfl⟩)]
  · refine List.forall_mem_cons.mpr ⟨?_, fun q hq => ?_⟩
    · exact (hafter p.2 hload).trans (hp.at_load p (List.mem_singleton_self p))
    · rw [hrest.at_load q hq, hbefore q.2 (mem_claimed.mpr ⟨q, hq, Or.inr rfl⟩)]
  · have hsplit : id ∉ claimed [p] ∧ id ∉ claimed rest := by
      simpa [claimed_cons, claimed, and_assoc] using hid
    exact (hrest.elsewhere id hsplit.2).trans (hp.elsewhere id hsplit.1)
  · have hcells := congrArg (fun other => { other with cells := nl.cells }) hrest.besides
    exact hcells.trans hp.besides

variable (h : Paired offset pairs nl nl')
include h

/-- Clustering neither adds nor removes cells. -/
theorem live (id : CellId) : (nl'.cell? id).isSome = (nl.cell? id).isSome := by
  by_cases hid : id ∈ claimed pairs
  · obtain ⟨p, hp, rfl | rfl⟩ := mem_claimed.mp hid
    · rw [h.at_driver p hp, Option.isSome_map]
    · rw [h.at_load p hp, Option.isSome_map]
  · rw [h.elsewhere id hid]

theorem clustered_of_mem {c : Cell} (hid : id ∈ claimed pairs) (hc : nl'.cell? id = some c) :
    c.cluster.root ≠ none := by
  obtain ⟨p, hp, rfl | rfl⟩ := mem_claimed.mp hid
  · rw [h.at_driver p hp] at hc
    obtain ⟨_, -, rfl⟩ := Option.map_eq_some_iff.mp hc
    exact Option.some_ne_none p.1
  · rw [h.at_load p hp] at hc
    obtain ⟨_, -, rfl⟩ := Option.map_eq_some_iff.mp hc
    exact Option.some_ne_none p.1

theorem net?_eq (k : NetId) : nl'.net? k = nl.net? k := by
  show ({ nl' with cells := nl.cells } : Netlist).net? k = _
  rw [h.besides]

/-- Clustering does not make a pair qualify. -/
theorem qualifies (hq : Qualifies nl' rule d l) :
    Qualifies nl rule d l ∧ d ∉ claimed pairs ∧ l ∉ claimed pairs := by
  obtain ⟨a, ha, hafree, hdriver⟩ := hq.at_driver
  obtain ⟨b, hb, hbfree, hsink⟩ := hq.at_load
  obtain ⟨k, n, hn, hexclusive⟩ := hq.exclusive
  have hd : d ∉ claimed pairs := fun hin => h.clustered_of_mem hin ha hafree
  have hl : l ∉ claimed pairs := fun hin => h.clustered_of_mem hin hb hbfree
  refine ⟨?_, hd, hl⟩
  exact
    { distinct := hq.distinct
      at_driver := ⟨a, h.elsewhere d hd ▸ ha, hafree, hdriver⟩
      at_load := ⟨b, h.elsewhere l hl ▸ hb, hbfree, hsink⟩
      exclusive := ⟨k, n, h.net?_eq k ▸ hn, hexclusive⟩ }

end Paired

/-! ## The pass over the drivers -/

/-- The pairs qualified before and have no cell in common.  They have been clustered, and no other
pair is left. -/
structure Matched (rule : PairRule) (pairs : List (CellId × CellId)) (nl nl' : Netlist) : Prop where
  qualified : ∀ p ∈ pairs, Qualifies nl rule p.1 p.2
  disjoint : (claimed pairs).Nodup
  paired : Paired rule.offset pairs nl nl'
  maximal : ∀ d l, ¬Qualifies nl' rule d l

namespace Matched

theorem nil (h : ∀ d l, ¬Qualifies nl rule d l) : Matched rule [] nl nl :=
  ⟨nofun, List.nodup_nil, .nil, h⟩

/-- A pair that is clustered first is not among the pairs that qualify later. -/
theorem cons (hq : Qualifies nl rule driver load)
    (hp : Paired rule.offset [(driver, load)] nl nl₁) (hrest : Matched rule rest nl₁ nl') :
    Matched rule ((driver, load) :: rest) nl nl' := by
  have hlater : ∀ p ∈ rest, Qualifies nl rule p.1 p.2 ∧ p.1 ∉ claimed [(driver, load)] ∧
      p.2 ∉ claimed [(driver, load)] := fun p hp' => hp.qualifies (hrest.qualified p hp')
  have hapart : ∀ id ∈ claimed [(driver, load)], id ∉ claimed rest := by
    intro id hid hin
    obtain ⟨p, hp', rfl | rfl⟩ := mem_claimed.mp hin
    · exact (hlater p hp').2.1 hid
    · exact (hlater p hp').2.2 hid
  refine ⟨?_, ?_, hp.cons hrest.paired hapart, hrest.maximal⟩
  · exact List.forall_mem_cons.mpr ⟨hq, fun p hp' => (hlater p hp').1⟩
  · show ([driver, load] ++ claimed rest).Nodup
    exact List.nodup_append.mpr ⟨by simp [hq.distinct], hrest.disjoint,
      fun a ha b hb e => hapart a ha (e ▸ hb)⟩

/-- What was in a cluster before is as it was. -/
theorem kept (h : Matched rule pairs nl nl') {c : Cell} (hc : nl.cell? id = some c)
    (hclustered : c.cluster.root ≠ none) : nl'.cell? id = some c := by
  have hid : id ∉ claimed pairs := by
    intro hin
    obtain ⟨p, hp, rfl | rfl⟩ := mem_claimed.mp hin
    · obtain ⟨a, ha, hfree, -⟩ := (h.qualified p hp).at_driver
      obtain rfl := Option.some.inj (ha.symm.trans hc)
      exact hclustered hfree
    · obtain ⟨b, hb, hfree, -⟩ := (h.qualified p hp).at_load
      obtain rfl := Option.some.inj (hb.symm.trans hc)
      exact hclustered hfree
  rw [h.paired.elsewhere id hid, hc]

end Matched

/-- A driver without a partner is left alone. -/
theorem constrainPair_idle (names : Names) (hw : nl.WellFormed)
    (hlive : (nl.cell? driver).isSome) (h : ∀ load, ¬Qualifies nl rule driver load) (built : Nat) :
    constrainPair rule built driver names nl = .ok built nl := by
  obtain ⟨c, hc⟩ := Option.isSome_iff_exists.mp hlive
  have hpartner : partner? nl rule driver c = none :=
    Option.eq_none_iff_forall_ne_some.mpr fun load hload =>
      h load ((partner?_eq_some_iff hw hc).mp hload)
  unfold constrainPair
  rw [Edit.run_bind_of_ok (Edit.cell_of_some names hc),
    Edit.run_bind_of_ok (Edit.get_ok.mpr ⟨rfl, rfl⟩), hpartner]
  rfl

theorem constrainPair_partner (names : Names) (hw : nl.WellFormed)
    (h : Qualifies nl rule driver load) (built : Nat) :
    constrainPair rule built driver names nl =
      (do build driver .zero [(load, rule.offset)]; return built + 1 : Edit Nat) names nl := by
  obtain ⟨c, hc, -⟩ := h.at_driver
  unfold constrainPair
  rw [Edit.run_bind_of_ok (Edit.cell_of_some names hc),
    Edit.run_bind_of_ok (Edit.get_ok.mpr ⟨rfl, rfl⟩), (partner?_eq_some_iff hw hc).mpr h]

/-- A driver with a partner is paired with it, unless the partner would be placed on it. -/
theorem constrainPair_paired (names : Names) (hw : nl.WellFormed)
    (h : Qualifies nl rule driver load) (hoffset : rule.offset ≠ .zero) (built : Nat) :
    ∃ nl₁, constrainPair rule built driver names nl = .ok (built + 1) nl₁ ∧
      Paired rule.offset [(driver, load)] nl nl₁ ∧ nl₁.WellFormed := by
  obtain ⟨-, hbuilt⟩ := (h.build_pair names).resolve_right fun hzero => hoffset hzero.1
  have hrun := (constrainPair_partner names hw h built).trans (Edit.run_bind_of_ok hbuilt)
  refine ⟨_, hrun, .single h.distinct, ?_⟩
  have hkeeps := keeps_constrainPair_of structural_wellFormed.keeps_build rule built driver names nl hw
  rw [hrun] at hkeeps
  exact hkeeps

theorem constrainPair_refused (names : Names) (hw : nl.WellFormed)
    (h : Qualifies nl rule driver load) (hoffset : rule.offset = .zero) (built : Nat) :
    ∃ e, constrainPair rule built driver names nl = .error e nl ∧ e.Collision := by
  obtain ⟨-, e, hrefused, hcollision⟩ := (h.build_pair names).resolve_left fun hne => hne.1 hoffset
  refine ⟨e, ?_, hcollision⟩
  rw [constrainPair_partner names hw h built]
  exact bind_error.mpr (Or.inl hrefused)

/-- The pass over the drivers, which counts the pairs. -/
def scan (rule : PairRule) (ids : List CellId) (built : Nat) : Packing Nat :=
  ids.foldlM (fun built id => constrainPair rule built id) built

theorem scan_cons {ids : List CellId} {built : Nat} : scan rule (driver :: ids) built =
    (liftM (constrainPair rule built driver) >>= scan rule ids : Packing Nat) :=
  List.foldlM_cons

/-- Every pair that qualifies has its driver in the list. -/
def Ahead (nl : Netlist) (rule : PairRule) (ids : List CellId) : Prop :=
  ∀ d l, Qualifies nl rule d l → d ∈ ids

/-- A driver can be passed if no pair with it qualifies afterwards. -/
theorem Ahead.tail {ids : List CellId} (h : Ahead nl rule (driver :: ids))
    (hqualified : ∀ d l, Qualifies nl₁ rule d l → Qualifies nl rule d l)
    (hpassed : ∀ l, ¬Qualifies nl₁ rule driver l) : Ahead nl₁ rule ids := by
  intro d l hq
  refine (List.mem_cons.mp (h d l (hqualified d l hq))).resolve_left ?_
  rintro rfl
  exact hpassed l hq

section Pass

variable {ids : List CellId} (hw : nl.WellFormed) (hlive : ∀ id ∈ ids, (nl.cell? id).isSome)
include hw hlive

/-- Unless the sinks are placed on the drivers, no pair fails.  A driver that has been visited is
without a partner from then on, so the pairs that qualify are those of the drivers ahead. -/
theorem scan_matched (names : Names) (log : Log) (hoffset : rule.offset ≠ .zero)
    (hahead : Ahead nl rule ids) (built : Nat) : ∃ pairs nl',
      scan rule ids built ⟨names, nl, log⟩ = .ok (built + pairs.length) ⟨names, nl', log⟩ ∧
      Matched rule pairs nl nl' := by
  induction ids generalizing nl built with
  | nil => exact ⟨[], nl, rfl, .nil fun d l h => nomatch hahead d l h⟩
  | cons driver ids ih =>
    obtain ⟨hdriver, hrest⟩ := List.forall_mem_cons.mp hlive
    rw [scan_cons]
    by_cases hpartner : ∃ load, Qualifies nl rule driver load
    · obtain ⟨load, hq⟩ := hpartner
      obtain ⟨nl₁, hstep, hpaired, hw₁⟩ := constrainPair_paired names hw hq hoffset built
      have hpassed : ∀ l, ¬Qualifies nl₁ rule driver l := fun l h =>
        (hpaired.qualifies h).2.1 List.mem_cons_self
      obtain ⟨rest, nl', hrun, hmatched⟩ := ih hw₁ (fun id hid => hpaired.live id ▸ hrest id hid)
        (hahead.tail (fun d l h => (hpaired.qualifies h).1) hpassed) (built + 1)
      refine ⟨(driver, load) :: rest, nl', ?_, .cons hq hpaired hmatched⟩
      rw [bind_of_ok (Packing.edit_ok.mpr ⟨nl₁, hstep, rfl⟩), hrun, List.length_cons,
        Nat.add_right_comm, Nat.add_assoc]
    · have hpassed := not_exists.mp hpartner
      have hstep := constrainPair_idle names hw hdriver hpassed built
      obtain ⟨pairs, nl', hrun, hmatched⟩ := ih hw hrest (hahead.tail (fun _ _ => id) hpassed) built
      refine ⟨pairs, nl', ?_, hmatched⟩
      rw [bind_of_ok (Packing.edit_ok.mpr ⟨nl, hstep, rfl⟩), hrun]

/-- If the sinks are placed on the drivers, the first pair fails. -/
theorem scan_zero (names : Names) (log : Log) (hoffset : rule.offset = .zero) (built : Nat) :
    ((∀ d ∈ ids, ∀ l, ¬Qualifies nl rule d l) ∧
      scan rule ids built ⟨names, nl, log⟩ = .ok built ⟨names, nl, log⟩) ∨
      (∃ d l, Qualifies nl rule d l) ∧ ∃ e,
        scan rule ids built ⟨names, nl, log⟩ = .error e ⟨names, nl, log⟩ ∧ e.Collision := by
  induction ids with
  | nil => exact Or.inl ⟨nofun, rfl⟩
  | cons driver ids ih =>
    obtain ⟨hdriver, hrest⟩ := List.forall_mem_cons.mp hlive
    rw [scan_cons]
    by_cases hpartner : ∃ load, Qualifies nl rule driver load
    · obtain ⟨load, hq⟩ := hpartner
      obtain ⟨e, hstep, hcollision⟩ := constrainPair_refused names hw hq hoffset built
      refine Or.inr ⟨⟨driver, load, hq⟩, e, ?_, hcollision⟩
      exact bind_error.mpr (Or.inl (Packing.edit_error.mpr ⟨nl, hstep, rfl⟩))
    · have hstep := constrainPair_idle names hw hdriver (not_exists.mp hpartner) built
      rw [bind_of_ok (Packing.edit_ok.mpr ⟨nl, hstep, rfl⟩)]
      refine (ih hrest).imp_left fun ⟨hnone, hrun⟩ => ⟨?_, hrun⟩
      exact List.forall_mem_cons.mpr ⟨not_exists.mp hpartner, hnone⟩

end Pass

theorem ahead_cellIds : Ahead nl rule nl.cellIds := by
  intro d l h
  obtain ⟨c, hc, -⟩ := h.at_driver
  rw [mem_cellIds, bare_isSome, hc]
  rfl

/-- After the pass the count is reported and nothing else is done. -/
theorem constrainPairs_of_scan {s s₁ : Session} {n : Nat}
    (h : scan rule s.netlist.cellIds 0 s = .ok n s₁) :
    ∃ s', constrainPairs rule s = .ok n s' ∧ s'.netlist = s₁.netlist := by
  show ∃ s', (Packing.netlist >>= fun nl => scan rule nl.cellIds 0 >>= _) s = .ok n s' ∧ _
  rw [bind_of_ok (Packing.netlist_ok.mpr ⟨rfl, rfl⟩), bind_of_ok h]
  split
  · exact ⟨_, rfl, rfl⟩
  · exact ⟨s₁, rfl, rfl⟩

theorem constrainPairs_cases (rule : PairRule) {s : Session} (hw : s.netlist.WellFormed) :
    (¬(rule.offset = .zero ∧ ∃ d l, Qualifies s.netlist rule d l) ∧
      ∃ pairs s', constrainPairs rule s = .ok pairs.length s' ∧
        Matched rule pairs s.netlist s'.netlist) ∨
    (rule.offset = .zero ∧ ∃ d l, Qualifies s.netlist rule d l) ∧
      ∃ e, constrainPairs rule s = .error e s ∧ e.Collision := by
  have hlive : ∀ id ∈ s.netlist.cellIds, (s.netlist.cell? id).isSome := fun _ =>
    live_of_mem_cellIds
  by_cases hoffset : rule.offset = .zero
  · rcases scan_zero hw hlive s.names s.log hoffset 0 with
      ⟨hnone, hrun⟩ | ⟨hpair, e, hrun, hcollision⟩
    · have hleft : ∀ d l, ¬Qualifies s.netlist rule d l := fun d l h =>
        hnone d (ahead_cellIds d l h) l h
      obtain ⟨s', hok, hsame⟩ := constrainPairs_of_scan hrun
      refine Or.inl ⟨fun ⟨_, d, l, h⟩ => hleft d l h, [], s', hok, ?_⟩
      rw [hsame]
      exact .nil hleft
    · refine Or.inr ⟨⟨hoffset, hpair⟩, e, ?_, hcollision⟩
      exact bind_error.mpr (Or.inr ⟨_, s, rfl, bind_error.mpr (Or.inl hrun)⟩)
  · obtain ⟨pairs, nl', hrun, hmatched⟩ := scan_matched hw hlive s.names s.log
      hoffset ahead_cellIds 0
    rw [Nat.zero_add] at hrun
    obtain ⟨s', hok, hsame⟩ := constrainPairs_of_scan hrun
    refine Or.inl ⟨fun h => hoffset h.1, pairs, s', hok, ?_⟩
    rw [hsame]
    exact hmatched

/-- Clustering pairs matches drivers with their only readers.  It fails only if it would place a sink
on its driver, and then before it has changed anything. -/
theorem constrainPairs_exact (rule : PairRule) (s : Session) (hw : s.netlist.WellFormed) :
    (∀ n s', constrainPairs rule s = .ok n s' → ∃ pairs : List (CellId × CellId),
      pairs.length = n ∧ Matched rule pairs s.netlist s'.netlist ∧
      ∀ id c, s.netlist.cell? id = some c → c.cluster.root ≠ none → s'.netlist.cell? id = some c) ∧
    (∀ e s', constrainPairs rule s = .error e s' → s' = s ∧ e.Collision) ∧
    ((∃ e s', constrainPairs rule s = .error e s') ↔
      rule.offset = .zero ∧ ∃ driver load, Qualifies s.netlist rule driver load) := by
  rcases constrainPairs_cases rule hw with
    ⟨hnot, pairs, s₁, hrun, hmatched⟩ | ⟨hzero, e₁, hrun, hcollision⟩
  · rw [hrun]
    refine ⟨?_, ?_, ?_, fun h => absurd h hnot⟩
    · rintro _ _ ⟨⟩
      exact ⟨pairs, rfl, hmatched, fun id c hc hclustered => hmatched.kept hc hclustered⟩
    · rintro _ _ ⟨⟩
    · rintro ⟨_, _, ⟨⟩⟩
  · rw [hrun]
    refine ⟨?_, ?_, fun _ => hzero, fun _ => ⟨e₁, s, rfl⟩⟩
    · rintro _ _ ⟨⟩
    · rintro _ _ ⟨⟩
      exact ⟨rfl, hcollision⟩

namespace Series

/-- Three cells in a row, each of which drives the next one.  The port numbered 1 is the input, 2 the
output. -/
def session : Session := (Session.start .empty).after
  [.createCell ⟨0⟩ "x", .createCell ⟨0⟩ "y", .createCell ⟨0⟩ "z", .createNet "xy", .createNet "yz",
    .addPort ⟨0⟩ ⟨2⟩ .output, .addPort ⟨1⟩ ⟨1⟩ .input, .addPort ⟨1⟩ ⟨2⟩ .output,
    .addPort ⟨2⟩ ⟨1⟩ .input, .connect ⟨0⟩ ⟨2⟩ ⟨0⟩, .connect ⟨1⟩ ⟨1⟩ ⟨0⟩, .connect ⟨1⟩ ⟨2⟩ ⟨1⟩,
    .connect ⟨2⟩ ⟨1⟩ ⟨1⟩]

/-- Every cell may drive and every cell may be driven. -/
def anyCells (offset : Offset) : PairRule := ⟨⟨2⟩, fun _ => true, ⟨1⟩, fun _ => true, offset⟩

/-- The second cell is the sink of a pair, so it is not the driver of another one. -/
theorem series_pairs : session.netlist.WellFormed ∧
    (∃ pairs s', constrainPairs (anyCells ⟨0, 1, 0, false⟩) session = .ok 1 s' ∧ pairs.length = 1 ∧
      Matched (anyCells ⟨0, 1, 0, false⟩) pairs session.netlist s'.netlist) ∧
    ∃ e s', constrainPairs (anyCells .zero) session = .error e s' := by
  have hw : session.netlist.WellFormed := wellFormed_of_operations .empty _
  obtain ⟨s', hrun⟩ : ∃ s', constrainPairs (anyCells ⟨0, 1, 0, false⟩) session = .ok 1 s' :=
    exists_ok_of_returned (by decide +kernel)
  obtain ⟨pairs, hlength, hmatched, -⟩ :=
    (constrainPairs_exact (anyCells ⟨0, 1, 0, false⟩) session hw).1 1 s' hrun
  have hfirst : Qualifies session.netlist (anyCells .zero) ⟨0⟩ ⟨1⟩ :=
    { distinct := by decide
      at_driver := ⟨_, rfl, rfl, rfl⟩
      at_load := ⟨_, rfl, rfl, rfl⟩
      exclusive := ⟨⟨0⟩, _, rfl, rfl, rfl⟩ }
  exact ⟨hw, ⟨pairs, s', hrun, hlength, hmatched⟩,
    (constrainPairs_exact (anyCells .zero) session hw).2.2.mpr ⟨rfl, ⟨0⟩, ⟨1⟩, hfirst⟩⟩

end Series

end Cluster
end FpgaPacking
