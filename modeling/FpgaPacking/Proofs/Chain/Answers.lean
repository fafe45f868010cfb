import FpgaPacking.Proofs.Chain.Greedy

/-!
# What planning asks for after an edit

Planning asks about three nets of a cell at most: whether the one on its chain
input is driven, and whether the one on its chain output is read, or read by more
than the next cell.  An edit that does not move the port in question changes none
of these answers.  A driver that has moved leaves a new one behind, and so does a
reader, unless the driver of its net has moved as well.  So a chain of which no
port is moved has the same plan before and after the edit.
-/

namespace FpgaPacking
namespace Chain

open Netlist

variable {f : Fabric} {nl nl' : Netlist} {moved : List PortRef} {id p c : CellId} {k : NetId}

/-! ## Answers in terms of the views -/

theorem used_iff (hw : nl.WellFormed) : used f nl id = true ↔
    ∃ k, nl.wire ⟨id, f.chainOut⟩ = some k ∧ ∃ q, nl.wire q = some k ∧ nl.dir q ≠ some .output := by
  unfold used
  rw [Option.any_eq_true]
  refine exists_congr fun k => and_congr_right fun hk => ?_
  obtain ⟨n, hn⟩ := Option.isSome_iff_exists.mp (hw.wired.wire_live ⟨id, f.chainOut⟩ k hk)
  rw [hn, Option.any_some, Bool.not_eq_true', List.isEmpty_eq_false_iff_exists_mem]
  exact exists_congr fun q => hw.wired.sink_iff k n q hn

theorem forks_iff (hw : nl.WellFormed) : forks f nl p c = true ↔
    ∃ k, nl.wire ⟨p, f.chainOut⟩ = some k ∧
      ∃ q, q ≠ ⟨c, f.chainIn⟩ ∧ nl.wire q = some k ∧ nl.dir q ≠ some .output := by
  unfold forks
  rw [Option.any_eq_true]
  refine exists_congr fun k => and_congr_right fun hk => ?_
  obtain ⟨n, hn⟩ := Option.isSome_iff_exists.mp (hw.wired.wire_live ⟨p, f.chainOut⟩ k hk)
  rw [hn, Option.any_some, List.any_eq_true]
  refine exists_congr fun q => ?_
  rw [hw.wired.sink_iff k n q hn, decide_eq_true_eq, and_comm]

theorem driver_isSome_iff (hw : nl.WellFormed) {n : Net} (hn : nl.net? k = some n) :
    n.driver.isSome = true ↔ ∃ q, nl.wire q = some k ∧ nl.dir q = some .output := by
  rw [Option.isSome_iff_exists]
  exact exists_congr fun q => hw.wired.driver_iff k n q hn

namespace Edited

variable (he : Edited moved nl nl') (hw : nl.WellFormed)
include he hw

/-! ## Nets after an edit -/

omit hw in
theorem exists_driver_iff (hk : (nl.tag k).isSome) :
    (∃ q, nl'.wire q = some k ∧ nl'.dir q = some .output) ↔
      ∃ q, nl.wire q = some k ∧ nl.dir q = some .output := by
  constructor
  · rintro ⟨q, hq, hd⟩
    rcases he.of_wire hk hq with ⟨hq', -, hsame⟩ | ⟨q', -, hq', hsame⟩
    · exact ⟨q, hq', hsame ▸ hd⟩
    · exact ⟨q', hq', hsame.mpr hd⟩
  · rintro ⟨q, hq, hd⟩
    by_cases hm : q ∈ moved
    · rcases he.refilled q hm k hq hk with ⟨q', -, hq', hsame⟩ | ⟨hreads, -⟩
      · exact ⟨q', hq', hsame.mp hd⟩
      · exact absurd hd hreads
    · have hlive := bare_isSome_of_wire hq
      exact ⟨q, (he.still q hm hlive).trans hq, (he.dir hlive).trans hd⟩

/-- A net whose driver stays has a reader of some kind exactly if it had one, when moved ports and
new ports are of that kind. -/
theorem exists_reader_iff {driver : PortRef} {kind : PortRef → Prop}
    (hk : nl.wire driver = some k) (hd : nl.dir driver = some .output) (hstays : driver ∉ moved)
    (hmoved : ∀ q ∈ moved, kind q) (hnew : ∀ q, nl.bare q.cell = none → kind q) :
    (∃ q, kind q ∧ nl'.wire q = some k ∧ nl'.dir q ≠ some .output) ↔
      ∃ q, kind q ∧ nl.wire q = some k ∧ nl.dir q ≠ some .output := by
  have hlive := hw.wired.tag_isSome_of_wire hk
  constructor
  · rintro ⟨q, hkind, hq, hreads⟩
    rcases he.of_wire hlive hq with ⟨hq', -, hsame⟩ | ⟨q', hm, hq', hsame⟩
    · exact ⟨q, hkind, hq', hsame ▸ hreads⟩
    · exact ⟨q', hmoved q' hm, hq', fun hd' => hreads (hsame.mp hd')⟩
  · rintro ⟨q, hkind, hq, hreads⟩
    by_cases hm : q ∈ moved
    · rcases he.refilled q hm k hq hlive with ⟨q', hfresh, hq', hsame⟩ | ⟨-, d, hdm, hdk, hdd⟩
      · exact ⟨q', hnew q' hfresh, hq', fun hd' => hreads (hsame.mpr hd')⟩
      · obtain rfl := Origin.driver_unique hw hdk hdd hk hd
        exact absurd hdm hstays
    · have hold := bare_isSome_of_wire hq
      exact ⟨q, hkind, (he.still q hm hold).trans hq, (he.dir hold).symm ▸ hreads⟩

/-! ## The same answers -/

omit hw in
theorem netOf_eq {port : Ident} (hlive : (nl.bare id).isSome) (hstays : ⟨id, port⟩ ∉ moved) :
    nl'.netOf id port = nl.netOf id port := he.still ⟨id, port⟩ hstays hlive

omit hw in
theorem name_eq {c : Cell} (hc : nl.cell? id = some c) :
    ∃ c', nl'.cell? id = some c' ∧ c'.name = c.name := by
  obtain ⟨m, hm⟩ := he.cells id _ (bare_of_cell? hc)
  obtain ⟨c', hc', hsame⟩ := Option.map_eq_some_iff.mp hm
  have hname : c'.unwired.name = _ := congrArg Cell.name hsame
  exact ⟨c', hc', hname⟩

theorem outputUsed_eq (hid : ChainCell f nl id) (hstays : ⟨id, f.chainOut⟩ ∉ moved) :
    outputUsed nl' f id = outputUsed nl f id := by
  have hreaders : ∀ k, nl.wire ⟨id, f.chainOut⟩ = some k →
      ((∃ q, nl'.wire q = some k ∧ nl'.dir q ≠ some .output) ↔
        ∃ q, nl.wire q = some k ∧ nl.dir q ≠ some .output) := by
    intro k hk
    have hall : ∀ q : PortRef, (fun _ => True) q := fun _ => trivial
    have hsame := he.exists_reader_iff hw hk (hid.dir_chainOut hk) hstays (fun q _ => hall q)
      fun q _ => hall q
    simpa only [true_and] using hsame
  rw [Chain.outputUsed_eq hw, Chain.outputUsed_eq he.wellFormed]
  refine congrArg Except.ok (Bool.eq_iff_iff.mpr ?_)
  rw [used_iff hw, used_iff he.wellFormed, he.still _ hstays hid.live]
  exact exists_congr fun k => and_congr_right (hreaders k)

theorem fansOut_eq (hp : ChainCell f nl p) (hc : ChainCell f nl c)
    (hstays : ⟨p, f.chainOut⟩ ∉ moved) (hnext : ⟨c, f.chainIn⟩ ∉ moved) :
    fansOut nl' f p c = fansOut nl f p c := by
  have hreaders : ∀ k, nl.wire ⟨p, f.chainOut⟩ = some k →
      ((∃ q, q ≠ ⟨c, f.chainIn⟩ ∧ nl'.wire q = some k ∧ nl'.dir q ≠ some .output) ↔
        ∃ q, q ≠ ⟨c, f.chainIn⟩ ∧ nl.wire q = some k ∧ nl.dir q ≠ some .output) := by
    intro k hk
    refine he.exists_reader_iff hw hk (hp.dir_chainOut hk) hstays ?_ ?_
    · rintro q hq rfl
      exact hnext hq
    · rintro q hfresh rfl
      have hlive := hc.live
      simp [hfresh] at hlive
  rw [Chain.fansOut_eq hw, Chain.fansOut_eq he.wellFormed]
  refine congrArg Except.ok (Bool.eq_iff_iff.mpr ?_)
  rw [forks_iff hw, forks_iff he.wellFormed, he.still _ hstays hp.live]
  exact exists_congr fun k => and_congr_right (hreaders k)

/-- Also the warning about an undriven net is the same. -/
theorem needsFeedIn_eq (hid : ChainCell f nl id) (hstays : ⟨id, f.chainIn⟩ ∉ moved) :
    needsFeedIn nl' f id = needsFeedIn nl f id := by
  unfold needsFeedIn
  rw [he.netOf_eq hid.live hstays]
  cases hk : nl.netOf id f.chainIn with
  | none => rfl
  | some k =>
    have hwire : nl.wire ⟨id, f.chainIn⟩ = some k := hk
    obtain ⟨n, hn⟩ := Option.isSome_iff_exists.mp (hw.wired.wire_live _ k hwire)
    obtain ⟨n', hn', hconstant, hname⟩ := he.net? hn
    have hdriver : n'.driver.isSome = n.driver.isSome := by
      rw [Bool.eq_iff_iff, driver_isSome_iff hw hn, driver_isSome_iff he.wellFormed hn']
      exact he.exists_driver_iff (hw.wired.tag_isSome_of_wire hwire)
    obtain ⟨c, hc⟩ := Option.isSome_iff_exists.mp (Netlist.bare_isSome ▸ hid.live)
    obtain ⟨c', hc', hcname⟩ := he.name_eq hc
    have hwarning : undrivenWarning c' n' = undrivenWarning c n := by
      unfold undrivenWarning
      rw [hname, hcname]
    simp only [net_eq_ok.mpr hn, net_eq_ok.mpr hn', cell_eq_ok.mpr hc, cell_eq_ok.mpr hc']
    show (if n'.constant.isSome then .ok (false, []) else if n'.driver.isSome then .ok (true, [])
      else .ok (false, [undrivenWarning c' n']) : Except Fault (Bool × List Diagnostic)) = _
    rw [hconstant, hdriver, hwarning]
    rfl

omit hw in
theorem tooLong_eq (hlive : (nl.bare id).isSome) : tooLong nl' f id = tooLong nl f id := by
  obtain ⟨c, hc⟩ := Option.isSome_iff_exists.mp (Netlist.bare_isSome ▸ hlive)
  obtain ⟨c', hc', hname⟩ := he.name_eq hc
  rw [Chain.tooLong_eq hc, Chain.tooLong_eq hc', hname]

end Edited

/-! ## The same plan -/

theorem compatible_congr {cells : List CellId}
    (h : ∀ port ∈ f.compatPorts, ∀ a ∈ cells, nl'.netOf a port = nl.netOf a port) :
    f.compatible nl' cells = f.compatible nl cells := by
  cases cells with
  | nil => rfl
  | cons first rest =>
    simp only [Fabric.compatible]
    rw [Bool.eq_iff_iff]
    simp only [List.all_eq_true, decide_eq_true_eq]
    refine forall₂_congr fun port hport => forall₂_congr fun a ha => ?_
    rw [h port hport first List.mem_cons_self, h port hport a (List.mem_cons_of_mem _ ha)]

variable {segment : OpenSegment}

theorem extend_congr (hbefore : boundaryBefore nl' f segment id = boundaryBefore nl f segment id)
    (hused : outputUsed nl' f id = outputUsed nl f id)
    (hcompatible : f.compatible nl' (segment.cells ++ [id]) =
      f.compatible nl (segment.cells ++ [id])) :
    extend nl' f segment id = extend nl f segment id := by
  unfold extend
  simp only [hbefore, hused, hcompatible]

theorem boundaryBefore_congr
    (hfeed : segment.cells.getLast? = none → needsFeedIn nl' f id = needsFeedIn nl f id)
    (hforks : ∀ p, segment.cells.getLast? = some p → fansOut nl' f p id = fansOut nl f p id) :
    boundaryBefore nl' f segment id = boundaryBefore nl f segment id := by
  unfold boundaryBefore
  cases hlast : segment.cells.getLast? with
  | none =>
    dsimp only
    rw [hfeed hlast]
  | some p =>
    dsimp only
    rw [hforks p hlast]

theorem finish_congr
    (hused : ∀ p, segment.cells.getLast? = some p → outputUsed nl' f p = outputUsed nl f p) :
    finish nl' f segment = finish nl f segment := by
  unfold finish
  cases hlast : segment.cells.getLast? with
  | none => rfl
  | some p =>
    dsimp only
    rw [hused p hlast]

namespace Edited

variable (he : Edited moved nl nl') (hw : nl.WellFormed) {chain rest : List CellId}
include he hw

theorem extend_eq (hcells : ∀ c ∈ chain, ChainCell f nl c)
    (haway : ∀ c ∈ chain, ∀ port, ⟨c, port⟩ ∉ moved) (hsegment : ∀ c ∈ segment.cells, c ∈ chain)
    (hid : id ∈ chain) : extend nl' f segment id = extend nl f segment id := by
  refine extend_congr (boundaryBefore_congr (fun _ => ?_) fun p hp => ?_) ?_ ?_
  · exact he.needsFeedIn_eq hw (hcells id hid) (haway id hid _)
  · have hmem := hsegment p (List.mem_of_getLast? hp)
    exact he.fansOut_eq hw (hcells p hmem) (hcells id hid) (haway p hmem _) (haway id hid _)
  · exact he.outputUsed_eq hw (hcells id hid) (haway id hid _)
  · refine compatible_congr fun port _ a ha => ?_
    have hmem : a ∈ chain := by
      rcases List.mem_append.mp ha with ha | ha
      · exact hsegment a ha
      · exact List.mem_singleton.mp ha ▸ hid
    exact he.netOf_eq (hcells a hmem).live (haway a hmem port)

/-- A chain of which no port is moved has the same plan, its warnings included. -/
theorem scan_eq (hcells : ∀ c ∈ chain, ChainCell f nl c)
    (haway : ∀ c ∈ chain, ∀ port, ⟨c, port⟩ ∉ moved) (hsegment : ∀ c ∈ segment.cells, c ∈ chain)
    (hrest : ∀ c ∈ rest, c ∈ chain) : scan nl' f segment rest = scan nl f segment rest := by
  induction rest generalizing segment with
  | nil =>
    have hfinish : finish nl' f segment = finish nl f segment := finish_congr fun p hp => by
      have hmem := hsegment p (List.mem_of_getLast? hp)
      exact he.outputUsed_eq hw (hcells p hmem) (haway p hmem _)
    unfold scan
    rw [hfinish]
  | cons id rest ih =>
    have hid := hrest id List.mem_cons_self
    have hlater : ∀ {other : OpenSegment} {joined : Extension}, (∀ c ∈ other.cells, c ∈ chain) →
        extend nl f other id = .ok joined →
        scan nl' f joined.segment rest = scan nl f joined.segment rest := by
      intro other joined hother hextend
      refine ih (fun c hc => ?_) fun c hc => hrest c (List.mem_cons_of_mem id hc)
      rw [cells_of_extend hextend] at hc
      rcases List.mem_append.mp hc with hc | hc
      · exact hother c hc
      · exact List.mem_singleton.mp hc ▸ hid
    have hnone : ∀ c ∈ OpenSegment.none.cells, c ∈ chain := fun c hc => absurd hc List.not_mem_nil
    unfold scan
    rw [he.extend_eq hw hcells haway hsegment hid, he.extend_eq hw hcells haway hnone hid,
      he.tooLong_eq (hcells id hid).live]
    cases hjoined : extend nl f segment id with
    | error e => rfl
    | ok joined =>
      cases halone : extend nl f .none id with
      | error e => simp only [hlater hsegment hjoined]
      | ok alone => simp only [hlater hsegment hjoined, hlater hnone halone]

theorem plan_eq (hcells : ∀ c ∈ chain, ChainCell f nl c)
    (haway : ∀ c ∈ chain, ∀ port, ⟨c, port⟩ ∉ moved) : plan nl' f chain = plan nl f chain :=
  he.scan_eq hw hcells haway nofun fun _ hc => hc

end Edited

end Chain
end FpgaPacking
