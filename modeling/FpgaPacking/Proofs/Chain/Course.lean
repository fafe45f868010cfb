import FpgaPacking.Chain.Trace
import FpgaPacking.Proofs.Chain.Insertion
import Mathlib.Data.List.Chain

/-!
# The course of a signal

The signal of a chain leaves a cell on one net and enters the cells that read this
net on the port for it.  In a course the signals of some of its cells, the sole ones,
enter the next cell in the list and no other.  Every insertion puts its boundary cell
into the courses at its place, and does not touch the other steps of a course.
-/

namespace FpgaPacking
namespace Chain

open Netlist

variable {f : Fabric} {nl nl' : Netlist} {moved : List PortRef} {r s : PortRef} {k link : NetId}
  {id a b c p : CellId} {o : Option CellId} {cell : Cell} {t : BoundaryTemplate}

/-! ## Where the signal of a cell goes -/

/-- The net by which the signal leaves a cell. -/
def signal (f : Fabric) (nl : Netlist) (id : CellId) : Option NetId :=
  (nl.cell? id).bind (signalOut f)

/-- The cell has a part in carrying a signal: it is a chain cell or a boundary cell. -/
def Carries (f : Fabric) (nl : Netlist) (id : CellId) : Prop :=
  ∃ c, nl.bare id = some c ∧ (f.isChainCell c = true ∨ ∃ t, f.boundary c.role = some t)

/-- A signal enters its cell on this port: the chain input of a chain cell or the input of a
boundary cell. -/
def Enters (f : Fabric) (nl : Netlist) (r : PortRef) : Prop :=
  ∃ c, nl.bare r.cell = some c ∧ (f.isChainCell c = true ∧ r.port = f.chainIn ∨
    ∃ t, f.boundary c.role = some t ∧ t.input = r.port)

/-- The signal of the first cell enters the second. -/
def Sends (f : Fabric) (nl : Netlist) (a b : CellId) : Prop :=
  ∃ k port, signal f nl a = some k ∧ nl.wire ⟨b, port⟩ = some k ∧
    nl.dir ⟨b, port⟩ ≠ some .output ∧ Enters f nl ⟨b, port⟩

/-- The signal of the cell enters the other cell only, or none. -/
def GoesTo (f : Fabric) (nl : Netlist) (a : CellId) (o : Option CellId) : Prop :=
  ∀ b, Sends f nl a b ↔ o = some b

theorem role_of_isChainCell (h : f.isChainCell cell = true) : cell.role = .normal :=
  of_decide_eq_true (Bool.and_eq_true_iff.mp h).1

theorem signal_normal (hc : nl.bare id = some cell) (hrole : cell.role = .normal) :
    signal f nl id = nl.wire ⟨id, f.chainOut⟩ := by
  obtain ⟨d, hd, rfl⟩ := Option.map_eq_some_iff.mp hc
  have hrole' : d.role = .normal := hrole
  simp [signal, signalOut, wire, netOf, hd, hrole']

theorem signal_boundary (hc : nl.bare id = some cell) (ht : f.boundary cell.role = some t) :
    signal f nl id = (t.chainOutput.bind fun port => nl.wire ⟨id, port⟩).or
      (t.fabricOutput.bind fun port => nl.wire ⟨id, port⟩) := by
  obtain ⟨d, hd, rfl⟩ := Option.map_eq_some_iff.mp hc
  have ht' : f.boundary d.role = some t := ht
  have hwire : ∀ port, nl.wire ⟨id, port⟩ = d.netOf port := by simp [wire, netOf, hd]
  simp only [hwire, signal, hd, Option.bind_some]
  unfold signalOut
  cases hrole : d.role with
  | normal =>
    rw [hrole] at ht'
    cases ht'
  | feedIn =>
    rw [hrole] at ht'
    simp [ht']
  | passThrough =>
    rw [hrole] at ht'
    simp [ht']
  | passOut =>
    rw [hrole] at ht'
    simp [ht']

/-! ## Ports on which signals enter -/

theorem Carries.live (h : Carries f nl id) : (nl.bare id).isSome := by
  obtain ⟨c, hc, -⟩ := h
  simp [hc]

theorem Enters.chainIn (h : Enters f nl r) (hc : nl.bare r.cell = some cell)
    (hrole : cell.role = .normal) : r.port = f.chainIn := by
  obtain ⟨d, hd, ⟨-, hport⟩ | ⟨t, ht, -⟩⟩ := h
  · exact hport
  · obtain rfl := Option.some.inj (hc.symm.trans hd)
    rw [hrole] at ht
    cases ht

theorem Carries.enters (h : Carries f nl id) (hc : nl.bare id = some cell)
    (hrole : cell.role = .normal) : Enters f nl ⟨id, f.chainIn⟩ := by
  obtain ⟨d, hd, hchain | ⟨t, ht⟩⟩ := h
  · exact ⟨d, hd, Or.inl ⟨hchain, rfl⟩⟩
  · obtain rfl := Option.some.inj (hc.symm.trans hd)
    rw [hrole] at ht
    cases ht

/-- A cell has one port at most on which signals enter. -/
theorem Enters.port_unique (hr : Enters f nl r) (hs : Enters f nl s) (h : r.cell = s.cell) :
    r = s := by
  obtain ⟨c, hc, hr⟩ := hr
  obtain ⟨d, hd, hs⟩ := hs
  rw [h] at hc
  obtain rfl := Option.some.inj (hc.symm.trans hd)
  have hport : r.port = s.port := by
    rcases hr with ⟨hchain, hrport⟩ | ⟨t, ht, hrport⟩
    · rcases hs with ⟨-, hsport⟩ | ⟨u, hu, -⟩
      · exact hrport.trans hsport.symm
      · rw [role_of_isChainCell hchain] at hu
        cases hu
    · rcases hs with ⟨hchain, -⟩ | ⟨u, hu, hsport⟩
      · rw [role_of_isChainCell hchain] at ht
        cases ht
      · obtain rfl := Option.some.inj (ht.symm.trans hu)
        exact hrport.symm.trans hsport
  obtain ⟨rcell, rport⟩ := r
  obtain ⟨scell, sport⟩ := s
  obtain rfl : rcell = scell := h
  obtain rfl : rport = sport := hport
  rfl

section Edited

variable (he : Edited moved nl nl')
include he

theorem Edited.carries (h : Carries f nl id) : Carries f nl' id := by
  obtain ⟨c, hc, hcarries⟩ := h
  obtain ⟨m, hm⟩ := he.cells id c hc
  exact ⟨_, hm, hcarries⟩

theorem Edited.enters_iff (hlive : (nl.bare r.cell).isSome) : Enters f nl' r ↔ Enters f nl r := by
  obtain ⟨c, hc⟩ := Option.isSome_iff_exists.mp hlive
  obtain ⟨m, hm⟩ := he.cells r.cell c hc
  constructor
  · rintro ⟨d, hd, henters⟩
    obtain rfl := Option.some.inj (hm.symm.trans hd)
    exact ⟨c, hc, henters⟩
  · rintro ⟨d, hd, henters⟩
    obtain rfl := Option.some.inj (hc.symm.trans hd)
    exact ⟨_, hm, henters⟩

/-- Edits move ports of ordinary cells only, so the signal of a cell whose chain output is not
moved leaves it where it did. -/
theorem Edited.signal_eq (hcarries : Carries f nl id) (hout : ⟨id, f.chainOut⟩ ∉ moved)
    (hnormal : ∀ r ∈ moved, ∀ c, nl.bare r.cell = some c → c.role = .normal) :
    signal f nl' id = signal f nl id := by
  obtain ⟨c, hc, hcarries⟩ := hcarries
  obtain ⟨m, hm⟩ := he.cells id c hc
  have hlive : (nl.bare id).isSome := by simp [hc]
  rcases hcarries with hchain | ⟨t, ht⟩
  · have hrole := role_of_isChainCell hchain
    rw [signal_normal hc hrole, signal_normal hm hrole]
    exact he.still _ hout hlive
  · have hstill : ∀ port, nl'.wire ⟨id, port⟩ = nl.wire ⟨id, port⟩ := by
      intro port
      refine he.still _ (fun hmem => ?_) hlive
      rw [hnormal _ hmem c hc] at ht
      cases ht
    have ht' : f.boundary ({ c with cluster := m } : Cell).role = some t := ht
    rw [signal_boundary hc ht, signal_boundary hm ht']
    simp only [hstill]

end Edited

theorem wire_of_signal (h : signal f nl id = some k) : ∃ port, nl.wire ⟨id, port⟩ = some k := by
  obtain ⟨c, hc, hout⟩ := Option.bind_eq_some_iff.mp h
  have hport : ∃ port, c.netOf port = some k := by
    unfold signalOut at hout
    split at hout
    · exact ⟨_, hout⟩
    · obtain ⟨t, -, hout⟩ := Option.bind_eq_some_iff.mp hout
      rcases Option.or_eq_some_iff.mp hout with hchain | ⟨-, hfabric⟩
      · obtain ⟨port, -, hk⟩ := Option.bind_eq_some_iff.mp hchain
        exact ⟨port, hk⟩
      · obtain ⟨port, -, hk⟩ := Option.bind_eq_some_iff.mp hfabric
        exact ⟨port, hk⟩
  obtain ⟨port, hk⟩ := hport
  exact ⟨port, Option.bind_eq_some_iff.mpr ⟨c, hc, hk⟩⟩

namespace GoesTo

theorem eq_none (h : GoesTo f nl a o) (hno : ∀ b, ¬Sends f nl a b) : o = none :=
  Option.eq_none_iff_forall_ne_some.mpr fun b hb => hno b ((h b).mpr hb)

/-- A signal goes to the only reader of its net. -/
theorem of_linked (hl : Linked nl r s) (hsignal : signal f nl a = nl.wire r) (hs : Enters f nl s) :
    GoesTo f nl a (some s.cell) := by
  obtain ⟨k, hr, -, hsk, hds, honly⟩ := hl
  intro b
  constructor
  · rintro ⟨k', port, hk', hb, hd, -⟩
    obtain rfl := Option.some.inj ((hsignal.trans hr).symm.trans hk')
    rw [← honly ⟨b, port⟩ hb hd]
  · rintro ⟨⟩
    exact ⟨k, s.port, hsignal.trans hr, hsk, hds, hs⟩

/-- A signal still goes where it went if neither the port by which it leaves nor the one on which it
enters is moved. -/
theorem edited (h : GoesTo f nl a o) (hw : nl.WellFormed) (he : Edited moved nl nl')
    (hcarries : Carries f nl a) (hout : ⟨a, f.chainOut⟩ ∉ moved)
    (hnormal : ∀ r ∈ moved, ∀ c, nl.bare r.cell = some c → c.role = .normal)
    (hmoved : ∀ r ∈ moved, nl.dir r ≠ some .output → Enters f nl r ∧ o ≠ some r.cell) :
    GoesTo f nl' a o := by
  have hsignal := he.signal_eq hcarries hout hnormal
  intro b
  rw [← h b]
  constructor
  · rintro ⟨k, port, hk, hb, hd, henters⟩
    rw [hsignal] at hk
    obtain ⟨q, hq⟩ := wire_of_signal hk
    rcases he.of_wire (hw.wired.tag_isSome_of_wire hq) hb with ⟨hold, -, hdir⟩ | ⟨q, hq, hqk, hdir⟩
    · have hlive : (nl.bare b).isSome := bare_isSome_of_wire hold
      exact ⟨k, port, hk, hold, hdir ▸ hd, (he.enters_iff hlive).mp henters⟩
    · -- A new reader would have taken the place of the cell to which the signal goes.
      have hread : nl.dir q ≠ some .output := fun e => hd (hdir.mp e)
      obtain ⟨hqenters, hne⟩ := hmoved q hq hread
      exact absurd ((h q.cell).mp ⟨k, q.port, hk, hqk, hread, hqenters⟩) hne
  · rintro hsends
    have ho := (h b).mp hsends
    obtain ⟨k, port, hk, hb, hd, henters⟩ := hsends
    have hlive : (nl.bare b).isSome := bare_isSome_of_wire hb
    have hstays : (⟨b, port⟩ : PortRef) ∉ moved := fun hmem => (hmoved _ hmem hd).2 ho
    refine ⟨k, port, hsignal.trans hk, (he.still _ hstays hlive).trans hb, ?_, ?_⟩
    · rw [he.dir hlive]
      exact hd
    · exact (he.enters_iff hlive).mpr henters

end GoesTo

/-! ## Courses -/

/-- The cell before a place in a list of cells, which may be closed to a ring. -/
def cellBefore (closed : Bool) (before after : List CellId) : Option CellId :=
  before.getLast?.or (if closed then after.getLast? else none)

/-- The cell after a place in a list of cells, which may be closed to a ring. -/
def cellAfter (closed : Bool) (before after : List CellId) : Option CellId :=
  after.head?.or (if closed then before.head? else none)

/-- Cells in a row, or in a ring, where the signal of a sole cell enters the next one only.  The
last cell of a row has none after it. -/
structure Course (f : Fabric) (nl : Netlist) (sole : CellId → Prop) (closed : Bool)
    (cells : List CellId) : Prop where
  nodup : cells.Nodup
  carries : ∀ id ∈ cells, Carries f nl id
  links : cells.IsChain fun a b => sole a → GoesTo f nl a (some b)
  last : ∀ z, cells.getLast? = some z → sole z →
    GoesTo f nl z (if closed then cells.head? else none)

variable {sole sole' : CellId → Prop} {closed : Bool} {cells before after : List CellId}

/-- In a list of different elements no neighbours begin with its last element or end with its first. -/
theorem imp_of_inner {α : Type} {R S : α → α → Prop} {l : List α} (hnodup : l.Nodup)
    (hlinks : l.IsChain R) (h : ∀ a b, a ∈ l → b ∈ l → l.getLast? ≠ some a → l.head? ≠ some b →
      R a b → S a b) : l.IsChain S := by
  induction hlinks with
  | nil => exact .nil
  | singleton a => exact .singleton a
  | @cons_cons a b l hab hlinks ih =>
    obtain ⟨ha, hnodup⟩ := List.nodup_cons.mp hnodup
    refine .cons_cons (h a b (by simp) (by simp) ?_ ?_ hab) (ih hnodup fun c d hc hd hlast _ => ?_)
    · rw [List.getLast?_cons_cons]
      exact fun hlast => ha (List.mem_of_getLast? hlast)
    · rintro ⟨⟩
      exact ha List.mem_cons_self
    · refine h c d (List.mem_cons_of_mem a hc) (List.mem_cons_of_mem a hd) ?_ ?_
      · rwa [List.getLast?_cons_cons]
      · rintro ⟨⟩
        exact ha hd

/-- The cell before a place is the last one of its part of the list. -/
theorem cellBefore_ne (hnodup : (before ++ after).Nodup) (ha : a ∈ before ∧ before.getLast? ≠ some a ∨
    a ∈ after ∧ after.getLast? ≠ some a) : cellBefore closed before after ≠ some a := by
  intro hcell
  obtain ⟨-, -, hdisjoint⟩ := List.nodup_append.mp hnodup
  rcases Option.or_eq_some_iff.mp hcell with hlast | ⟨hnone, hlast⟩
  · rcases ha with ⟨-, hne⟩ | ⟨hmem, -⟩
    · exact hne hlast
    · exact hdisjoint a (List.mem_of_getLast? hlast) a hmem rfl
  · rcases ha with ⟨hmem, -⟩ | ⟨-, hne⟩
    · rw [List.getLast?_eq_none_iff.mp hnone] at hmem
      cases hmem
    · cases closed with
      | false => cases hlast
      | true => exact hne hlast

/-- The cell after a place is the first one of its part of the list. -/
theorem cellAfter_ne (hnodup : (before ++ after).Nodup) (hb : b ∈ before ∧ before.head? ≠ some b ∨
    b ∈ after ∧ after.head? ≠ some b) : cellAfter closed before after ≠ some b := by
  intro hcell
  obtain ⟨-, -, hdisjoint⟩ := List.nodup_append.mp hnodup
  rcases Option.or_eq_some_iff.mp hcell with hhead | ⟨hnone, hhead⟩
  · rcases hb with ⟨hmem, -⟩ | ⟨-, hne⟩
    · exact hdisjoint b hmem b (List.mem_of_head? hhead) rfl
    · exact hne hhead
  · rcases hb with ⟨-, hne⟩ | ⟨hmem, -⟩
    · cases closed with
      | false => cases hhead
      | true => exact hne hhead
    · rw [List.head?_eq_none_iff.mp hnone] at hmem
      cases hmem

theorem mem_of_cellBefore (h : cellBefore closed before after = some a) : a ∈ before ++ after := by
  rcases Option.or_eq_some_iff.mp h with hlast | ⟨-, hlast⟩
  · exact List.mem_append_left _ (List.mem_of_getLast? hlast)
  · cases closed with
    | false => cases hlast
    | true => exact List.mem_append_right _ (List.mem_of_getLast? hlast)

namespace Course

theorem mono (h : Course f nl sole closed cells) (hsole : ∀ a, sole' a → sole a) :
    Course f nl sole' closed cells where
  nodup := h.nodup
  carries := h.carries
  links := h.links.imp fun _ _ hlink ha => hlink (hsole _ ha)
  last z hz hzsole := h.last z hz (hsole z hzsole)

/-- The signal of the cell before a place goes to the cell after it. -/
theorem goesTo_next (h : Course f nl sole closed (before ++ after))
    (ha : cellBefore closed before after = some a) (hsole : sole a) :
    GoesTo f nl a (cellAfter closed before after) := by
  obtain ⟨-, -, hlink⟩ := List.isChain_append.mp h.links
  rcases Option.or_eq_some_iff.mp ha with hbefore | ⟨hbefore, hafter⟩
  · cases after with
    | nil => simpa [cellAfter] using h.last a (by simpa using hbefore) hsole
    | cons c rest => simpa [cellAfter] using hlink a hbefore c rfl hsole
  · obtain rfl := List.getLast?_eq_none_iff.mp hbefore
    cases closed with
    | false => cases hafter
    | true => simpa [cellAfter] using h.last a hafter hsole

/-- The links of a course on the two sides of a place. -/
theorem links_aside (h : Course f nl sole closed (before ++ after)) {S : CellId → CellId → Prop}
    (hS : ∀ a ∈ before ++ after, ∀ b, cellBefore closed before after ≠ some a →
      cellAfter closed before after ≠ some b → (sole a → GoesTo f nl a (some b)) → S a b) :
    before.IsChain S ∧ after.IsChain S := by
  obtain ⟨hbefore, hafter, -⟩ := List.nodup_append.mp h.nodup
  obtain ⟨hlinks, hlinks', -⟩ := List.isChain_append.mp h.links
  constructor
  · refine imp_of_inner hbefore hlinks fun a b ha hb hlast hhead hlink => ?_
    exact hS a (List.mem_append_left _ ha) b (cellBefore_ne h.nodup (Or.inl ⟨ha, hlast⟩))
      (cellAfter_ne h.nodup (Or.inl ⟨hb, hhead⟩)) hlink
  · refine imp_of_inner hafter hlinks' fun a b ha hb hlast hhead hlink => ?_
    exact hS a (List.mem_append_right _ ha) b (cellBefore_ne h.nodup (Or.inr ⟨ha, hlast⟩))
      (cellAfter_ne h.nodup (Or.inr ⟨hb, hhead⟩)) hlink

/-- The signal of the cell before a place is found to enter the cell after it only. -/
theorem settle (h : Course f nl sole closed (before ++ c :: after)) (ha : before.getLast? = some a)
    (hgoes : GoesTo f nl a (some c)) :
    Course f nl (fun b => sole b ∨ some a = some b) closed (before ++ c :: after) := by
  have hcell : cellBefore closed before (c :: after) = some a := by simp [cellBefore, ha]
  obtain ⟨hlinks, hlinks'⟩ := h.links_aside (S := fun d b => sole d ∨ some a = some d →
    GoesTo f nl d (some b)) fun d _ b hd _ hlink hsole =>
      hlink (hsole.resolve_right fun e => hd (hcell.trans e))
  refine ⟨h.nodup, h.carries, List.isChain_append.mpr ⟨hlinks, hlinks', ?_⟩, fun z hz hsole => ?_⟩
  · rintro p hp _ ⟨⟩ -
    obtain rfl := Option.some.inj (ha.symm.trans hp)
    exact hgoes
  · refine h.last z hz (hsole.resolve_right ?_)
    rintro ⟨⟩
    have hmem : a ∈ c :: after := List.mem_of_getLast? (by simpa using hz)
    exact (List.nodup_append.mp h.nodup).2.2 a (List.mem_of_getLast? ha) a hmem rfl

/-- A new cell takes its place in a course if the signal of the cell before it enters it, its own
goes on to the cell after it, and the other signals go where they went. -/
theorem insert (h : Course f nl sole closed (before ++ after)) (hne : before ++ after ≠ [])
    (hfresh : nl.bare id = none) (hnew : Carries f nl' id)
    (hold : ∀ a, Carries f nl a → Carries f nl' a)
    (hsole : ∀ a, cellBefore closed before after ≠ some a → sole' a → sole a)
    (hbefore : ∀ a, cellBefore closed before after = some a → sole' a → GoesTo f nl' a (some id))
    (hafter : GoesTo f nl' id (cellAfter closed before after))
    (hother : ∀ a ∈ before ++ after, cellBefore closed before after ≠ some a → ∀ o,
      cellAfter closed before after ≠ o → GoesTo f nl a o → GoesTo f nl' a o) :
    Course f nl' sole' closed (before ++ id :: after) := by
  have hid : id ∉ before ++ after := fun hmem => by
    have hlive := (h.carries id hmem).live
    simp [hfresh] at hlive
  obtain ⟨hlinks, hlinks'⟩ := h.links_aside (S := fun a b => sole' a → GoesTo f nl' a (some b))
    fun a ha b hplace hnext hlink hsole' =>
      hother a ha hplace (some b) hnext (hlink (hsole a hplace hsole'))
  refine ⟨?_, fun a ha => ?_, List.isChain_append.mpr ⟨hlinks, .cons hlinks' ?_, ?_⟩, fun z hz => ?_⟩
  · exact List.nodup_middle.mpr (List.nodup_cons.mpr ⟨hid, h.nodup⟩)
  · rcases List.mem_cons.mp (List.perm_middle.mem_iff.mp ha) with rfl | ha
    · exact hnew
    · exact hold a (h.carries a ha)
  · intro c hc _
    rw [Option.mem_def] at hc
    simpa [cellAfter, hc] using hafter
  · rintro p hp _ ⟨⟩
    rw [Option.mem_def] at hp
    exact hbefore p (by simp [cellBefore, hp])
  · -- Which cell is the last is decided after the place, which one is the first before it.
    cases after with
    | nil =>
      obtain rfl : id = z := by simpa using hz
      cases before with
      | nil => exact absurd rfl hne
      | cons first before => exact fun _ => by simpa [cellAfter] using hafter
    | cons c rest =>
      have hlast : (c :: rest).getLast? = some z := by simpa using hz
      have hmem : z ∈ c :: rest := List.mem_of_getLast? hlast
      have hmem' : z ∈ before ++ c :: rest := List.mem_append_right _ hmem
      have hgoes := h.last z (by simp [hlast])
      intro hzsole
      cases before with
      | nil =>
        cases closed with
        | false => exact hother z hmem' nofun none nofun (hgoes (hsole z nofun hzsole))
        | true => exact hbefore z (by simp [cellBefore, hlast]) hzsole
      | cons first before =>
        have hplace : cellBefore closed (first :: before) (c :: rest) ≠ some z := by
          intro hcell
          have hbefore : z ∈ first :: before := List.mem_of_getLast? (by simpa [cellBefore] using hcell)
          exact (List.nodup_append.mp h.nodup).2.2 z hbefore z hmem rfl
        refine hother z hmem' hplace _ ?_ (hgoes (hsole z hplace hzsole))
        cases closed with
        | false => nofun
        | true =>
          rintro ⟨⟩
          simpa using h.nodup

end Course

/-- The new cell takes its place in every course that leads over the place between the two cells,
or only over the one that is given.  Between the two the signal of the first enters the new cell
only; without a second one it must have gone on as the course does. -/
def TakesPlace (f : Fabric) (nl nl' : Netlist) (id : CellId) (prev next : Option CellId) : Prop :=
  ∀ (sole : CellId → Prop) closed before after,
    (∀ p, prev = some p → before.getLast? = some p ∧ (next = none → sole p)) →
    (∀ c, next = some c → after.head? = some c) → Course f nl sole closed (before ++ after) →
      Course f nl' (fun a => sole a ∨ prev = some a) closed (before ++ id :: after)

/-! ## Insertions -/

namespace Extended

variable {links : List NetId} {role : Role} {output : Ident}

theorem carries_new (h : Extended f role id t links nl nl') : Carries f nl' id := by
  obtain ⟨c, hbare, ht, -⟩ := h.cell
  exact ⟨c, by rw [hbare, Function.update_self], Or.inr ⟨t, ht⟩⟩

theorem enters_new (h : Extended f role id t links nl nl') : Enters f nl' ⟨id, t.input⟩ := by
  obtain ⟨c, hbare, ht, -⟩ := h.cell
  exact ⟨c, by rw [hbare, Function.update_self], Or.inr ⟨t, ht, rfl⟩⟩

theorem signal_new (h : Extended f role id t links nl nl') : signal f nl' id =
    (t.chainOutput.bind fun port => nl'.wire ⟨id, port⟩).or
      (t.fabricOutput.bind fun port => nl'.wire ⟨id, port⟩) := by
  obtain ⟨c, hbare, ht, -⟩ := h.cell
  exact signal_boundary (by rw [hbare, Function.update_self]) ht

theorem signal_chainOutput (h : Extended f role id t links nl nl') (hout : t.chainOutput = some output)
    (hk : nl'.wire ⟨id, output⟩ = some k) : signal f nl' id = some k := by
  rw [h.signal_new, hout, Option.bind_some, hk]
  rfl

end Extended

variable {output routed : Ident} {entry exit : NetId}

namespace FedIn

variable (h : FedIn f id t ⟨c, f.chainIn⟩ output k link nl nl')
include h

theorem moved_normal : ∀ r ∈ [(⟨c, f.chainIn⟩ : PortRef)], ∀ d, nl.bare r.cell = some d →
    d.role = .normal := by
  intro r hr
  rw [List.mem_singleton.mp hr]
  exact h.normal

theorem chainOut_unmoved (hc : ChainCell f nl c) (a : CellId) :
    (⟨a, f.chainOut⟩ : PortRef) ∉ [(⟨c, f.chainIn⟩ : PortRef)] := by
  intro hmem
  have hsame := List.mem_singleton.mp hmem
  obtain rfl : a = c := congrArg PortRef.cell hsame
  exact hc.ports_ne (by simp [h.on_net]) hsame

/-- The signal of the feed-in enters the head. -/
theorem goesTo_head (hc : ChainCell f nl c) (hcarries : Carries f nl c) :
    GoesTo f nl' id (some c) := by
  obtain ⟨d, hd, hrole⟩ := (hc.edited h.edited).normal
  refine .of_linked h.linked ?_ ((h.edited.carries hcarries).enters hd hrole)
  rw [h.signal_chainOutput h.chain_output h.wire_output, h.wire_output]

/-- What entered the head enters the feed-in. -/
theorem goesTo_new (hc : ChainCell f nl c) (hcarries : Carries f nl a)
    (hgoes : GoesTo f nl a (some c)) : GoesTo f nl' a (some id) := by
  have hsignal := h.edited.signal_eq hcarries (h.chainOut_unmoved hc a) h.moved_normal
  obtain ⟨k', port, hk, hread, -, henters⟩ := (hgoes c).mpr rfl
  obtain ⟨d, hd, hrole⟩ := hc.normal
  obtain rfl : port = f.chainIn := henters.chainIn hd hrole
  obtain rfl := Option.some.inj (h.on_net.symm.trans hread)
  intro b
  constructor
  · rintro ⟨k', port, hk', hb, hdir, hb'⟩
    obtain rfl := Option.some.inj ((hsignal.trans hk).symm.trans hk')
    rw [h.wires] at hb
    split at hb
    · obtain rfl := Option.some.inj hb
      exact absurd h.on_net (h.wire_ne (List.mem_singleton_self _) _)
    · next hends =>
      split at hb
      · next hinput => exact congrArg some (congrArg PortRef.cell hinput).symm
      · have hlive : (nl.bare b).isSome := bare_isSome_of_wire hb
        rw [h.edited.dir hlive] at hdir
        have henters' := (h.edited.enters_iff hlive).mp hb'
        obtain rfl := Option.some.inj ((hgoes b).mp ⟨k, port, hk, hb, hdir, henters'⟩)
        exact absurd (Or.inl (henters'.port_unique henters rfl)) hends
  · rintro ⟨⟩
    exact ⟨k, t.input, hsignal.trans hk, h.wire_input, by simp [h.input], h.enters_new⟩

/-- Other signals go where they went. -/
theorem goesTo_other (hc : ChainCell f nl c) (hcarries : Carries f nl a) (ho : o ≠ some c)
    (hcell : Carries f nl c) (hgoes : GoesTo f nl a o) : GoesTo f nl' a o := by
  refine hgoes.edited h.before h.edited hcarries (h.chainOut_unmoved hc a) h.moved_normal ?_
  intro r hr _
  obtain ⟨d, hd, hrole⟩ := hc.normal
  rw [List.mem_singleton.mp hr]
  exact ⟨hcell.enters hd hrole, ho⟩

theorem takesPlace (hc : ChainCell f nl c) : TakesPlace f nl nl' id none (some c) := by
  intro sole closed before after _ hhead hcourse
  have hafter : cellAfter closed before after = some c := by simp [cellAfter, hhead c rfl]
  have hmem : c ∈ before ++ after := List.mem_append_right _ (List.mem_of_head? (hhead c rfl))
  have hcarries := hcourse.carries c hmem
  refine hcourse.insert (List.ne_nil_of_mem hmem) h.fresh h.carries_new
    (fun a ha => h.edited.carries ha) (fun a _ hsole => hsole.resolve_right nofun)
    (fun a ha hsole => ?_) (hafter ▸ h.goesTo_head hc hcarries)
    fun a ha _ o ho hgoes => h.goesTo_other hc (hcourse.carries a ha) (hafter ▸ ho.symm) hcarries hgoes
  have hgoes := hcourse.goesTo_next ha (hsole.resolve_right nofun)
  exact h.goesTo_new hc (hcourse.carries a (mem_of_cellBefore ha)) (hafter ▸ hgoes)

end FedIn

namespace PassedOut

variable (h : PassedOut f id t ⟨p, f.chainOut⟩ routed k link nl nl')
include h

theorem goesTo_tail (hp : ChainCell f nl p) : GoesTo f nl' p (some id) := by
  obtain ⟨d, hd, hrole⟩ := (hp.edited h.edited).normal
  exact .of_linked h.linked (signal_normal hd hrole) h.enters_new

/-- The pass-out leads its signal to its output to general routing. -/
theorem signal_new : signal f nl' id = some k := by
  rw [h.toExtended.signal_new, h.fabric_output, Option.bind_some, h.wire_routed]
  cases hout : t.chainOutput with
  | none => rfl
  | some output =>
    rw [Option.bind_some]
    by_cases hsame : output = routed
    · rw [hsame, h.wire_routed]
      rfl
    · have hdir := h.outputs output (Or.inl hout)
      have hinput : output ≠ t.input := by
        rintro rfl
        rw [h.input] at hdir
        cases hdir
      have htail : (⟨id, output⟩ : PortRef) ≠ ⟨p, f.chainOut⟩ := fun e =>
        h.cell_ne h.on_net (congrArg PortRef.cell e).symm
      rw [h.wires, if_neg (by simp [htail, hinput]), if_neg (by simp [hsame]),
        wire_eq_none_of_bare h.fresh]
      rfl

/-- The signal of the pass-out goes where that of the tail went. -/
theorem goesTo_new (hp : ChainCell f nl p) (hgoes : GoesTo f nl p o) : GoesTo f nl' id o := by
  obtain ⟨d, hd, hrole⟩ := hp.normal
  have hsignal : signal f nl p = some k := (signal_normal hd hrole).trans h.on_net
  intro b
  rw [← hgoes b]
  constructor
  · rintro ⟨k', port, hk', hb, hdir, henters⟩
    obtain rfl := Option.some.inj (h.signal_new.symm.trans hk')
    rw [h.wires] at hb
    split at hb
    · obtain rfl := Option.some.inj hb
      exact absurd h.on_net (h.wire_ne (List.mem_singleton_self _) _)
    · split at hb
      · next hrouted =>
        rw [hrouted] at hdir
        exact absurd h.drives hdir
      · have hlive : (nl.bare b).isSome := bare_isSome_of_wire hb
        rw [h.edited.dir hlive] at hdir
        exact ⟨k, port, hsignal, hb, hdir, (h.edited.enters_iff hlive).mp henters⟩
  · rintro ⟨k', port, hk', hb, hdir, henters⟩
    obtain rfl := Option.some.inj (hsignal.symm.trans hk')
    have hlive : (nl.bare b).isSome := bare_isSome_of_wire hb
    have htail : (⟨b, port⟩ : PortRef) ∉ [(⟨p, f.chainOut⟩ : PortRef)] := by
      intro hmem
      rw [List.mem_singleton.mp hmem] at hdir
      exact hdir h.driver
    refine ⟨k, port, h.signal_new, (h.edited.still _ htail hlive).trans hb, ?_, ?_⟩
    · rw [h.edited.dir hlive]
      exact hdir
    · exact (h.edited.enters_iff hlive).mpr henters

theorem goesTo_other (hcarries : Carries f nl a) (ha : a ≠ p) (hgoes : GoesTo f nl a o) :
    GoesTo f nl' a o := by
  refine hgoes.edited h.before h.edited hcarries (by simp [ha]) ?_ ?_
  · intro r hr
    rw [List.mem_singleton.mp hr]
    exact h.normal
  · intro r hr hread
    rw [List.mem_singleton.mp hr] at hread
    exact absurd h.driver hread

theorem takesPlace (hp : ChainCell f nl p) : TakesPlace f nl nl' id (some p) none := by
  intro sole closed before after hprev _ hcourse
  obtain ⟨hlast, hsole⟩ := hprev p rfl
  have hbefore : cellBefore closed before after = some p := by simp [cellBefore, hlast]
  have hgoes := hcourse.goesTo_next hbefore (hsole rfl)
  refine hcourse.insert (List.ne_nil_of_mem (mem_of_cellBefore hbefore)) h.fresh h.carries_new
    (fun a ha => h.edited.carries ha) (fun a hne ha => ha.resolve_right fun e => hne (hbefore.trans e))
    (fun a ha _ => ?_) (h.goesTo_new hp hgoes)
    fun a ha hne o _ hother => h.goesTo_other (hcourse.carries a ha) ?_ hother
  · obtain rfl := Option.some.inj (hbefore.symm.trans ha)
    exact h.goesTo_tail hp
  · rintro rfl
    exact hne hbefore

end PassedOut

namespace PassedThrough

variable (h : PassedThrough f id t ⟨p, f.chainOut⟩ ⟨c, f.chainIn⟩ output routed k entry exit nl nl')
include h

theorem goesTo_prev (hp : ChainCell f nl p) : GoesTo f nl' p (some id) := by
  obtain ⟨d, hd, hrole⟩ := (hp.edited h.edited).normal
  exact .of_linked h.linked_prev (signal_normal hd hrole) h.enters_new

theorem goesTo_next (hc : ChainCell f nl c) (hcarries : Carries f nl c) :
    GoesTo f nl' id (some c) := by
  obtain ⟨d, hd, hrole⟩ := (hc.edited h.edited).normal
  refine .of_linked h.linked_next ?_ ((h.edited.carries hcarries).enters hd hrole)
  rw [h.signal_chainOutput h.chain_output h.wire_output, h.wire_output]

theorem goesTo_other (hc : ChainCell f nl c) (hcell : Carries f nl c) (hcarries : Carries f nl a)
    (ha : a ≠ p) (ho : o ≠ some c) (hgoes : GoesTo f nl a o) : GoesTo f nl' a o := by
  refine hgoes.edited h.before h.edited hcarries ?_ ?_ ?_
  · simp only [List.mem_cons, List.not_mem_nil, or_false, not_or]
    refine ⟨fun e => ha (congrArg PortRef.cell e), fun e => ?_⟩
    obtain rfl : a = c := congrArg PortRef.cell e
    exact hc.ports_ne (by simp [h.next_on_net]) e
  · intro r hr
    simp only [List.mem_cons, List.not_mem_nil, or_false] at hr
    rcases hr with rfl | rfl
    · exact h.prev_normal
    · exact h.next_normal
  · intro r hr hread
    simp only [List.mem_cons, List.not_mem_nil, or_false] at hr
    rcases hr with rfl | rfl
    · exact absurd h.driver hread
    · obtain ⟨d, hd, hrole⟩ := hc.normal
      exact ⟨hcell.enters hd hrole, ho⟩

theorem takesPlace (hp : ChainCell f nl p) (hc : ChainCell f nl c) :
    TakesPlace f nl nl' id (some p) (some c) := by
  intro sole closed before after hprev hhead hcourse
  obtain ⟨hlast, -⟩ := hprev p rfl
  have hbefore : cellBefore closed before after = some p := by simp [cellBefore, hlast]
  have hafter : cellAfter closed before after = some c := by simp [cellAfter, hhead c rfl]
  have hmem : c ∈ before ++ after := List.mem_append_right _ (List.mem_of_head? (hhead c rfl))
  have hcarries := hcourse.carries c hmem
  refine hcourse.insert (List.ne_nil_of_mem hmem) h.fresh h.carries_new
    (fun a ha => h.edited.carries ha) (fun a hne ha => ha.resolve_right fun e => hne (hbefore.trans e))
    (fun a ha _ => ?_) (hafter ▸ h.goesTo_next hc hcarries)
    fun a ha hne o ho hother =>
      h.goesTo_other hc hcarries (hcourse.carries a ha) ?_ (hafter ▸ ho.symm) hother
  · obtain rfl := Option.some.inj (hbefore.symm.trans ha)
    exact h.goesTo_prev hp
  · rintro rfl
    exact hne hbefore

end PassedThrough

end Chain
end FpgaPacking
