import FpgaPacking.Fabric.Basic
import FpgaPacking.Proofs.Chain.Edited

/-!
# Origins of signals

The signal of a net comes from its driver.  Where the driver is a boundary cell,
which only passes its input on, the signal comes from the net on that input, and
so on until the driver is an ordinary cell or there is none.

An edit that puts a boundary cell between a driver and its readers changes the
driver of every net concerned.  It keeps the origin of each old net, and a reader
that is moved to a new net reads the same origin there.
-/

namespace FpgaPacking

/-- Where a signal comes from. -/
inductive Source where
  | constant (value : ConstValue)
  | undriven
  | port (r : PortRef)
deriving DecidableEq, Repr

/-- The net's signal comes from the source, through any number of boundary cells. -/
inductive Origin (f : Fabric) (nl : Netlist) : NetId → Source → Prop
  | constant {k : NetId} {n : Net} {v : ConstValue} (hn : nl.net? k = some n)
      (hv : n.constant = some v) : Origin f nl k (.constant v)
  | undriven {k : NetId} {n : Net} (hn : nl.net? k = some n) (hv : n.constant = none)
      (hd : n.driver = none) : Origin f nl k .undriven
  | port {k : NetId} {n : Net} {r : PortRef} {c : Cell} (hn : nl.net? k = some n)
      (hv : n.constant = none) (hd : n.driver = some r) (hc : nl.cell? r.cell = some c)
      (hrole : c.role = .normal) : Origin f nl k (.port r)
  | through {k : NetId} {n : Net} {r : PortRef} {c : Cell} {t : BoundaryTemplate} {k' : NetId}
      {o : Source} (hn : nl.net? k = some n) (hv : n.constant = none) (hd : n.driver = some r)
      (hc : nl.cell? r.cell = some c) (ht : f.boundary c.role = some t)
      (hnet : c.netOf t.input = some k') (h : Origin f nl k' o) : Origin f nl k o

namespace Origin

variable {f : Fabric} {nl nl' : Netlist} {k : NetId} {o o' : Source}

/-- The way back to the origin never forks. -/
theorem unique (h : Origin f nl k o) (h' : Origin f nl k o') : o = o' := by
  induction h generalizing o' with
  | constant hn hv =>
    cases h' with
    | constant hn' hv' => simp_all
    | undriven hn' hv' _ => simp_all
    | port hn' hv' _ _ _ => simp_all
    | through hn' hv' _ _ _ _ _ => simp_all
  | undriven hn hv hd =>
    cases h' with
    | constant hn' hv' => simp_all
    | undriven _ _ _ => rfl
    | port hn' _ hd' _ _ => simp_all
    | through hn' _ hd' _ _ _ _ => simp_all
  | port hn hv hd hc hrole =>
    cases h' with
    | constant hn' hv' => simp_all
    | undriven hn' _ hd' => simp_all
    | port hn' _ hd' _ _ => simp_all
    | through hn' _ hd' hc' ht' _ _ =>
      obtain rfl := Option.some.inj (hn.symm.trans hn')
      obtain rfl := Option.some.inj (hd.symm.trans hd')
      obtain rfl := Option.some.inj (hc.symm.trans hc')
      rw [hrole] at ht'
      cases ht'
  | through hn hv hd hc ht hnet _ ih =>
    cases h' with
    | constant hn' hv' => simp_all
    | undriven hn' _ hd' => simp_all
    | port hn' _ hd' hc' hrole' =>
      obtain rfl := Option.some.inj (hn.symm.trans hn')
      obtain rfl := Option.some.inj (hd.symm.trans hd')
      obtain rfl := Option.some.inj (hc.symm.trans hc')
      rw [hrole'] at ht
      cases ht
    | through hn' _ hd' hc' ht' hnet' h' =>
      obtain rfl := Option.some.inj (hn.symm.trans hn')
      obtain rfl := Option.some.inj (hd.symm.trans hd')
      obtain rfl := Option.some.inj (hc.symm.trans hc')
      obtain rfl := Option.some.inj (ht.symm.trans ht')
      obtain rfl := Option.some.inj (hnet.symm.trans hnet')
      exact ih h'

/-! ## Origins in terms of the views -/

variable {r : PortRef} {c : Cell} {t : BoundaryTemplate} {k' : NetId}

theorem driver_of_wire (hw : nl.WellFormed) (hr : nl.wire r = some k)
    (hd : nl.dir r = some .output) :
    ∃ n, nl.net? k = some n ∧ n.constant = none ∧ n.driver = some r := by
  obtain ⟨n, hn⟩ := Option.isSome_iff_exists.mp (hw.wired.wire_live r k hr)
  have hdriver : n.driver = some r := (hw.wired.driver_iff k n r hn).mpr ⟨hr, hd⟩
  refine ⟨n, hn, ?_, hdriver⟩
  cases hv : n.constant with
  | none => rfl
  | some v =>
    have := hw.constant_undriven k n hn (by simp [hv])
    simp [this] at hdriver

theorem driver_unique {q : PortRef} (hw : nl.WellFormed) (hq : nl.wire q = some k)
    (hdq : nl.dir q = some .output) (hr : nl.wire r = some k) (hdr : nl.dir r = some .output) :
    q = r := by
  obtain ⟨n, hn, -, hdriver⟩ := driver_of_wire hw hr hdr
  have hdriver' := (hw.wired.driver_iff k n q hn).mpr ⟨hq, hdq⟩
  exact Option.some.inj (hdriver'.symm.trans hdriver)

theorem of_driver (hw : nl.WellFormed) (hr : nl.wire r = some k) (hd : nl.dir r = some .output)
    (hc : nl.bare r.cell = some c) (hrole : c.role = .normal) : Origin f nl k (.port r) := by
  obtain ⟨n, hn, hv, hdriver⟩ := driver_of_wire hw hr hd
  obtain ⟨d, hcell, rfl⟩ := Option.map_eq_some_iff.mp hc
  exact .port hn hv hdriver hcell hrole

theorem of_boundary (hw : nl.WellFormed) (hr : nl.wire r = some k) (hd : nl.dir r = some .output)
    (hc : nl.bare r.cell = some c) (ht : f.boundary c.role = some t)
    (hin : nl.wire ⟨r.cell, t.input⟩ = some k') (h : Origin f nl k' o) : Origin f nl k o := by
  obtain ⟨n, hn, hv, hdriver⟩ := driver_of_wire hw hr hd
  obtain ⟨d, hcell, rfl⟩ := Option.map_eq_some_iff.mp hc
  have hnet : d.netOf t.input = some k' := by
    have hwire : (nl.cell? r.cell).bind (fun c => c.netOf t.input) = some k' := hin
    rw [hcell] at hwire
    exact hwire
  exact .through hn hv hdriver hcell ht hnet h

end Origin

namespace Chain

variable {f : Fabric} {nl nl' nl'' : Netlist} {moved : List PortRef}

/-! ## Origins after an edit -/

theorem Edited.net? (he : Edited moved nl nl') {k : NetId} {n : Net} (hn : nl.net? k = some n) :
    ∃ n', nl'.net? k = some n' ∧ n'.constant = n.constant ∧ n'.name = n.name := by
  have htag : nl.tag k = some (n.name, n.constant) := by simp [Netlist.tag, hn]
  obtain ⟨n', hn', heq⟩ := Option.map_eq_some_iff.mp (he.nets k _ htag)
  exact ⟨n', hn', congrArg Prod.snd heq, congrArg Prod.fst heq⟩

/-- A driver of an old net has the place of an old driver. -/
theorem Edited.driver_none (he : Edited moved nl nl') (hw : nl.WellFormed) {k : NetId}
    {n n' : Net} (hn : nl.net? k = some n) (hn' : nl'.net? k = some n') (hd : n.driver = none) :
    n'.driver = none := by
  have hundriven : ∀ q, nl.wire q = some k → nl.dir q ≠ some .output := by
    intro q hq hdq
    have hdriver := (hw.wired.driver_iff k n q hn).mpr ⟨hq, hdq⟩
    rw [hd] at hdriver
    cases hdriver
  cases hdriver : n'.driver with
  | none => rfl
  | some q =>
    obtain ⟨hq, hdq⟩ := (he.wellFormed.wired.driver_iff k n' q hn').mp hdriver
    have hlive : (nl.tag k).isSome := by simp [Netlist.tag, hn]
    rcases he.of_wire hlive hq with ⟨hqk, -, hqd⟩ | ⟨q', -, hqk, hqd⟩
    · exact absurd (hqd ▸ hdq) (hundriven q hqk)
    · exact absurd (hqd.mpr hdq) (hundriven q' hqk)

/-- An edit that moves ports of ordinary cells only keeps the origins of the nets,
if the nets that moved drivers have left still come from them. -/
theorem Edited.origin (he : Edited moved nl nl') (hw : nl.WellFormed)
    (hnormal : ∀ r ∈ moved, ∀ c, nl.bare r.cell = some c → c.role = .normal)
    (hdrivers : ∀ r ∈ moved, ∀ k, nl.wire r = some k → nl.dir r = some .output →
      Origin f nl' k (.port r)) {k : NetId} {o : Source} (h : Origin f nl k o) :
    Origin f nl' k o := by
  induction h with
  | constant hn hv =>
    obtain ⟨n', hn', hv', -⟩ := he.net? hn
    exact .constant hn' (hv'.trans hv)
  | undriven hn hv hd =>
    obtain ⟨n', hn', hv', -⟩ := he.net? hn
    exact .undriven hn' (hv'.trans hv) (he.driver_none hw hn hn' hd)
  | @port k n r c hn hv hd hc hrole =>
    obtain ⟨hr, hdr⟩ := (hw.wired.driver_iff k n r hn).mp hd
    by_cases hm : r ∈ moved
    · exact hdrivers r hm k hr hdr
    · have hbare : nl.bare r.cell = some c.unwired := by simp [Netlist.bare, hc]
      have hlive : (nl.bare r.cell).isSome := by simp [hbare]
      obtain ⟨m, hm'⟩ := he.cells r.cell _ hbare
      refine Origin.of_driver he.wellFormed ((he.still r hm hlive).trans hr)
        ((he.dir hlive).trans hdr) hm' ?_
      exact hrole
  | @through k n r c t k' o hn hv hd hc ht hnet _ ih =>
    obtain ⟨hr, hdr⟩ := (hw.wired.driver_iff k n r hn).mp hd
    have hbare : nl.bare r.cell = some c.unwired := by simp [Netlist.bare, hc]
    have hlive : (nl.bare r.cell).isSome := by simp [hbare]
    have hunmoved : ∀ q : PortRef, q.cell = r.cell → q ∉ moved := by
      intro q hq hm
      have hrole : c.role = .normal := hnormal q hm c.unwired (hq ▸ hbare)
      rw [hrole] at ht
      cases ht
    obtain ⟨m, hm'⟩ := he.cells r.cell _ hbare
    have hin : nl.wire ⟨r.cell, t.input⟩ = some k' := by
      show (nl.cell? r.cell).bind (fun c => c.netOf t.input) = some k'
      rw [hc]
      exact hnet
    have hin' : nl'.wire ⟨r.cell, t.input⟩ = some k' :=
      (he.still ⟨r.cell, t.input⟩ (hunmoved _ rfl) hlive).trans hin
    exact Origin.of_boundary he.wellFormed ((he.still r (hunmoved r rfl) hlive).trans hr)
      ((he.dir hlive).trans hdr) hm' ht hin' ih

/-- Every net has an origin. -/
def Rooted (f : Fabric) (nl : Netlist) : Prop := ∀ k, (nl.tag k).isSome → ∃ o, Origin f nl k o

/-- Nets keep their origin, and so do the signals that ports read. -/
structure SameOrigins (f : Fabric) (nl nl' : Netlist) : Prop where
  nets : ∀ k o, Origin f nl k o → Origin f nl' k o
  readers : ∀ r k o, nl.wire r = some k → nl.dir r ≠ some .output → Origin f nl k o →
    ∃ k', nl'.wire r = some k' ∧ Origin f nl' k' o
  rooted : Rooted f nl → Rooted f nl'

/-- In a netlist of ordinary cells the origin of a net is at the net itself. -/
theorem rooted_of_normal (h : nl.WellFormed)
    (hnormal : ∀ id c, nl.cell? id = some c → c.role = .normal) : Rooted f nl := by
  intro k hk
  rw [Netlist.tag_isSome] at hk
  obtain ⟨n, hn⟩ := Option.isSome_iff_exists.mp hk
  cases hv : n.constant with
  | some v => exact ⟨.constant v, .constant hn hv⟩
  | none =>
    cases hd : n.driver with
    | none => exact ⟨.undriven, .undriven hn hv hd⟩
    | some r =>
      obtain ⟨p, hp, -⟩ := h.driver_port k n r hn hd
      obtain ⟨c, hc, -⟩ := Option.bind_eq_some_iff.mp hp
      exact ⟨.port r, .port hn hv hd hc (hnormal _ c hc)⟩

namespace SameOrigins

theorem refl : SameOrigins f nl nl where
  nets _ _ ho := ho
  readers _ k _ hr _ ho := ⟨k, hr, ho⟩
  rooted hroot := hroot

theorem trans (h : SameOrigins f nl nl') (h' : SameOrigins f nl' nl'')
    (he : Edited moved nl nl') : SameOrigins f nl nl'' where
  nets k o ho := h'.nets k o (h.nets k o ho)
  readers r k o hr hd ho := by
    obtain ⟨k', hr', ho'⟩ := h.readers r k o hr hd ho
    have hdir : nl'.dir r = nl.dir r := he.dir (Netlist.bare_isSome_of_wire hr)
    exact h'.readers r k' o hr' (hdir ▸ hd) ho'
  rooted hroot := h'.rooted (h.rooted hroot)

/-- What is to be shown of an edit that moves ports of ordinary cells only: the
nets that moved drivers have left still come from them, and the new nets come
from where old ones come from. -/
theorem of_edited (hw : nl.WellFormed) (he : Edited moved nl nl')
    (hnormal : ∀ r ∈ moved, ∀ c, nl.bare r.cell = some c → c.role = .normal)
    (hdrivers : ∀ r ∈ moved, ∀ k, nl.wire r = some k → nl.dir r = some .output →
      Origin f nl' k (.port r))
    (hreaders : ∀ r ∈ moved, ∀ k, nl.wire r = some k → nl.dir r ≠ some .output →
      ∃ k', nl'.wire r = some k' ∧ ∀ o, Origin f nl' k o → Origin f nl' k' o)
    (hnew : ∀ k, nl.tag k = none → (nl'.tag k).isSome →
      ∃ k', (nl.tag k').isSome ∧ ∀ o, Origin f nl' k' o → Origin f nl' k o) :
    SameOrigins f nl nl' := by
  have hnets : ∀ k o, Origin f nl k o → Origin f nl' k o := fun k o ho =>
    he.origin hw hnormal hdrivers ho
  refine ⟨hnets, ?_, ?_⟩
  · intro r k o hr hd ho
    by_cases hm : r ∈ moved
    · obtain ⟨k', hk', hsame⟩ := hreaders r hm k hr hd
      exact ⟨k', hk', hsame o (hnets k o ho)⟩
    · exact ⟨k, (he.still r hm (Netlist.bare_isSome_of_wire hr)).trans hr, hnets k o ho⟩
  · intro hroot k hk
    cases ht : nl.tag k with
    | some t =>
      obtain ⟨o, ho⟩ := hroot k (by simp [ht])
      exact ⟨o, hnets k o ho⟩
    | none =>
      obtain ⟨k', hk', hsame⟩ := hnew k ht hk
      obtain ⟨o, ho⟩ := hroot k' hk'
      exact ⟨o, hsame o (hnets k' o ho)⟩

end SameOrigins
end Chain
end FpgaPacking
