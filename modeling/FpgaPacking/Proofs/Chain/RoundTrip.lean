import FpgaPacking.Proofs.Chain.Idempotence

/-!
# Tracing a legalized chain

At every net a trace goes on to a cell that the signal enters.  Where this is one
cell at most, the trace goes along the course of the signal.  A discovered chain is
a course.  Legalization puts boundary cells into it and keeps its order, and inside
segments it makes the signals enter the next cells only.  So the trace leads through
the chain again if no second chain cell reads a net at which a segment ends.  Where
one does, the trace may take the wrong one.
-/

namespace FpgaPacking
namespace Chain

open Netlist

variable {f : Fabric} {nl nl' : Netlist} {k : NetId} {r : PortRef} {a b c d first : CellId}
  {o : Option CellId} {cell : Cell} {sole : CellId → Prop} {closed : Bool}
  {cells chain rest unvisited : List CellId}

/-! ## One step of a trace -/

/-- A search with a test that does not fail ends at a place where the test holds, or it goes through. -/
theorem findM?_cases {α ε : Type} (test : α → Except ε Bool) (l : List α)
    (h : ∀ x ∈ l, ∃ v, test x = .ok v) :
    (∃ x ∈ l, test x = .ok true ∧ l.findM? test = .ok (some x)) ∨
      (∀ x ∈ l, test x = .ok false) ∧ l.findM? test = .ok none := by
  induction l with
  | nil => exact Or.inr ⟨nofun, rfl⟩
  | cons x l ih =>
    obtain ⟨⟨v, hv⟩, hl⟩ := List.forall_mem_cons.mp h
    cases v with
    | true => exact Or.inl ⟨x, List.mem_cons_self, hv, by rw [List.findM?, hv]; rfl⟩
    | false =>
      have hskip : (x :: l).findM? test = l.findM? test := by rw [List.findM?, hv]; rfl
      rcases ih hl with ⟨y, hy, htest, hfound⟩ | ⟨hnone, hfound⟩
      · exact Or.inl ⟨y, List.mem_cons_of_mem x hy, htest, hskip.trans hfound⟩
      · exact Or.inr ⟨List.forall_mem_cons.mpr ⟨hv, hnone⟩, hskip.trans hfound⟩

theorem entersChain_of_cell? (h : nl.cell? r.cell = some cell) :
    entersChain nl f r = .ok (decide (r.port = f.chainIn) && f.isChainCell cell) := by
  unfold entersChain
  rw [cell_eq_ok.mpr h]
  by_cases hport : r.port = f.chainIn
  · simp [hport, bind, Except.bind, pure, Except.pure]
  · simp [hport, pure, Except.pure]

theorem entersBoundary_of_cell? (h : nl.cell? r.cell = some cell) :
    entersBoundary nl f r = .ok ((f.boundary cell.role).any fun t => t.input = r.port) := by
  unfold entersBoundary
  rw [cell_eq_ok.mpr h]
  rfl

/-- The two tests of a trace together tell whether a signal enters its cell on a port. -/
theorem enters_iff (h : nl.cell? r.cell = some cell) :
    Enters f nl r ↔ entersChain nl f r = .ok true ∨ entersBoundary nl f r = .ok true := by
  have hbare : nl.bare r.cell = some cell.unwired := bare_of_cell? h
  rw [entersChain_of_cell? h, entersBoundary_of_cell? h]
  simp only [Enters, hbare, Option.some.injEq, exists_eq_left', Except.ok.injEq, Bool.and_eq_true,
    decide_eq_true_eq, Option.any_eq_true]
  exact or_congr_left And.comm

/-- The signal of a net goes on to a cell that it enters, if there is one. -/
theorem follower_cases (hw : nl.WellFormed) (hk : (nl.net? k).isSome) :
    (∃ r, nl.wire r = some k ∧ nl.dir r ≠ some .output ∧ Enters f nl r ∧
        follower nl f k = .ok (some r.cell)) ∨
      (∀ r, nl.wire r = some k → nl.dir r ≠ some .output → ¬Enters f nl r) ∧
        follower nl f k = .ok none := by
  obtain ⟨n, hn⟩ := Option.isSome_iff_exists.mp hk
  have hsink := fun r => hw.wired.sink_iff k n r hn
  have hcell : ∀ r ∈ n.sinks, ∃ cell, nl.cell? r.cell = some cell := by
    intro r hr
    obtain ⟨cell, hcell, -⟩ := Option.bind_eq_some_iff.mp ((hsink r).mp hr).1
    exact ⟨cell, hcell⟩
  have hchain := findM?_cases (entersChain nl f) n.sinks fun r hr => by
    obtain ⟨cell, hc⟩ := hcell r hr
    exact ⟨_, entersChain_of_cell? hc⟩
  have hboundary := findM?_cases (entersBoundary nl f) n.sinks fun r hr => by
    obtain ⟨cell, hc⟩ := hcell r hr
    exact ⟨_, entersBoundary_of_cell? hc⟩
  unfold follower
  rw [net_eq_ok.mpr hn]
  rcases hchain with ⟨r, hr, htest, hfound⟩ | ⟨hnochain, hfound⟩
  · obtain ⟨cell, hc⟩ := hcell r hr
    obtain ⟨hread, hdir⟩ := (hsink r).mp hr
    refine Or.inl ⟨r, hread, hdir, (enters_iff hc).mpr (Or.inl htest), ?_⟩
    simp [hfound, bind, Except.bind, pure, Except.pure]
  rcases hboundary with ⟨r, hr, htest, hfound'⟩ | ⟨hnoboundary, hfound'⟩
  · obtain ⟨cell, hc⟩ := hcell r hr
    obtain ⟨hread, hdir⟩ := (hsink r).mp hr
    refine Or.inl ⟨r, hread, hdir, (enters_iff hc).mpr (Or.inr htest), ?_⟩
    simp [hfound, hfound', bind, Except.bind, pure, Except.pure]
  · refine Or.inr ⟨fun r hread hdir henters => ?_, ?_⟩
    · have hr := (hsink r).mpr ⟨hread, hdir⟩
      obtain ⟨cell, hc⟩ := hcell r hr
      rcases (enters_iff hc).mp henters with htest | htest
      · rw [hnochain r hr] at htest
        cases htest
      · rw [hnoboundary r hr] at htest
        cases htest
    · simp [hfound, hfound', bind, Except.bind, pure, Except.pure]

theorem follower_of_goesTo (hw : nl.WellFormed) (hk : signal f nl a = some k)
    (h : GoesTo f nl a o) : follower nl f k = .ok o := by
  obtain ⟨port, hwire⟩ := wire_of_signal hk
  rcases follower_cases hw (hw.wired.wire_live _ k hwire) with
    ⟨r, hread, hdir, henters, hrun⟩ | ⟨hnone, hrun⟩
  · rw [(h r.cell).mp ⟨k, r.port, hk, hread, hdir, henters⟩]
    exact hrun
  · have hend : o = none := by
      refine h.eq_none fun b hsends => ?_
      obtain ⟨k', port, hk', hread, hdir, henters⟩ := hsends
      obtain rfl := Option.some.inj (hk.symm.trans hk')
      exact hnone _ hread hdir henters
    rw [hend]
    exact hrun

/-- Whether the cell is an ordinary one. -/
def isOrdinary (nl : Netlist) (id : CellId) : Bool := (nl.bare id).any fun c => c.role = .normal

theorem traceFrom_of_visited (hc : nl.cell? a = some cell) (ha : a ∉ unvisited) :
    traceFrom nl f unvisited a = .ok [] := by
  rw [traceFrom, cell_eq_ok.mpr hc]
  simp [ha, bind, Except.bind, pure, Except.pure]

/-- One step of a trace. -/
theorem traceFrom_of_goesTo (hw : nl.WellFormed) (hc : nl.cell? a = some cell)
    (ha : a ∈ unvisited) (h : GoesTo f nl a o) :
    traceFrom nl f unvisited a = match o with
      | none => .ok ([a].filter (isOrdinary nl))
      | some b => (traceFrom nl f (unvisited.erase a) b).map ([a].filter (isOrdinary nl) ++ ·) := by
  have hhere : (if cell.role = .normal then [a] else []) = [a].filter (isOrdinary nl) := by
    simp [isOrdinary, bare_of_cell? hc, Cell.unwired, List.filter_cons]
  have hsignal : signal f nl a = signalOut f cell := by simp [signal, hc]
  have hfollower : (signalOut f cell).mapM (follower nl f) = .ok ((signalOut f cell).map fun _ => o) := by
    cases hk : signalOut f cell with
    | none => rfl
    | some k =>
      rw [Option.mapM_some, follower_of_goesTo hw (hsignal.trans hk) h]
      rfl
  have hnone : signalOut f cell = none → o = none := by
    intro hk
    refine h.eq_none fun b hsends => ?_
    obtain ⟨k, port, hk', -⟩ := hsends
    rw [hsignal, hk] at hk'
    cases hk'
  rw [traceFrom, cell_eq_ok.mpr hc]
  simp only [bind, Except.bind, ha, if_true, hhere, hfollower]
  cases o with
  | none => cases signalOut f cell <;> rfl
  | some b =>
    cases hk : signalOut f cell with
    | none => cases hnone hk
    | some k =>
      simp only [Option.map_some]
      cases traceFrom nl f (unvisited.erase a) b <;> rfl

/-- A trace goes along a course, up to its end or to a cell that was visited. -/
theorem traceFrom_of_links (hw : nl.WellFormed) (hlinks : (a :: cells).IsChain fun a b =>
    GoesTo f nl a (some b)) (hnodup : (a :: cells).Nodup) (hvisit : ∀ id ∈ a :: cells, id ∈ unvisited)
    (hlive : ∀ id ∈ a :: cells, (nl.cell? id).isSome)
    (hlast : ∀ z, (a :: cells).getLast? = some z → GoesTo f nl z o)
    (hend : ∀ b, o = some b → (nl.cell? b).isSome ∧ b ∉ unvisited.diff (a :: cells)) :
    traceFrom nl f unvisited a = .ok ((a :: cells).filter (isOrdinary nl)) := by
  -- The cells that are passed are taken out of the unvisited ones, which `List.diff` does as well.
  induction cells generalizing a unvisited with
  | nil =>
    obtain ⟨cell, hc⟩ := Option.isSome_iff_exists.mp (hlive a List.mem_cons_self)
    rw [traceFrom_of_goesTo hw hc (hvisit a List.mem_cons_self) (hlast a rfl)]
    cases o with
    | none => rfl
    | some b =>
      obtain ⟨hb, hvisited⟩ := hend b rfl
      obtain ⟨d, hd⟩ := Option.isSome_iff_exists.mp hb
      rw [List.diff_cons, List.diff_nil] at hvisited
      simp only [traceFrom_of_visited hd hvisited]
      simp [Except.map]
  | cons b cells ih =>
    obtain ⟨cell, hc⟩ := Option.isSome_iff_exists.mp (hlive a List.mem_cons_self)
    obtain ⟨hgoes, hlinks⟩ := List.isChain_cons_cons.mp hlinks
    obtain ⟨hab, hnodup⟩ := List.nodup_cons.mp hnodup
    rw [traceFrom_of_goesTo hw hc (hvisit a List.mem_cons_self) hgoes]
    have hleft : ∀ id ∈ b :: cells, id ∈ unvisited.erase a := by
      intro id hid
      have hne : id ≠ a := by
        rintro rfl
        exact hab hid
      exact (List.mem_erase_of_ne hne).mpr (hvisit id (List.mem_cons_of_mem a hid))
    have hrest : traceFrom nl f (unvisited.erase a) b = .ok ((b :: cells).filter (isOrdinary nl)) :=
      ih hlinks hnodup hleft (fun id hid => hlive id (List.mem_cons_of_mem a hid))
        (fun z hz => hlast z (by simpa using hz)) (by simpa only [List.diff_cons] using hend)
    simp only [hrest]
    exact congrArg Except.ok (List.filter_append [a] (b :: cells)).symm

/-- The trace from the first ordinary cell of a course of sole cells leads through all ordinary ones. -/
theorem Course.trace (hw : nl.WellFormed) (h : Course f nl sole closed cells)
    (hsole : ∀ id ∈ cells, sole id) (hcells : cells.filter (isOrdinary nl) = first :: rest) :
    trace nl f first = .ok (first :: rest) := by
  obtain ⟨before, after, rfl, hbefore, -, hafter⟩ := List.filter_eq_cons_iff.mp hcells
  have hlive : ∀ id ∈ before ++ first :: after, (nl.cell? id).isSome := fun id hid =>
    bare_isSome ▸ (h.carries id hid).live
  have hlisted : ∀ id ∈ before ++ first :: after, id ∈ nl.cellIds := fun id hid =>
    mem_cellIds.mpr (h.carries id hid).live
  have hnone : before.filter (isOrdinary nl) = [] := List.filter_eq_nil_iff.mpr hbefore
  rw [List.filter_append, hnone, List.nil_append] at hcells
  have hgoes : (before ++ first :: after).IsChain fun a b => GoesTo f nl a (some b) :=
    h.links.imp_of_mem_imp fun a b ha _ hlink => hlink (hsole a ha)
  have hend : ∀ z, (before ++ first :: after).getLast? = some z →
      GoesTo f nl z (if closed then (before ++ first :: after).head? else none) := fun z hz =>
    h.last z hz (hsole z (List.mem_of_getLast? hz))
  obtain ⟨hlinks, hlinks', hlink⟩ := List.isChain_append.mp hgoes
  unfold Chain.trace
  cases closed with
  | false =>
    have hsub : ∀ id ∈ first :: after, id ∈ before ++ first :: after := fun id hid =>
      List.mem_append_right _ hid
    rw [← hcells]
    exact traceFrom_of_links hw hlinks' h.nodup.of_append_right (fun id hid => hlisted id (hsub id hid))
      (fun id hid => hlive id (hsub id hid)) (fun z hz => hend z (by simp [hz])) nofun
  | true =>
    -- The signal comes back to the boundary cells before the first ordinary cell, and to this cell.
    have hsub : ∀ id ∈ first :: (after ++ before), id ∈ before ++ first :: after := fun id hid =>
      List.mem_append.mpr (List.mem_append.mp hid).symm
    have hround : (first :: (after ++ before)).IsChain fun a b => GoesTo f nl a (some b) := by
      refine List.isChain_append.mpr ⟨hlinks', hlinks, fun z hz b hb => ?_⟩
      have hlast := hend z (by simp [Option.mem_def.mp hz])
      simpa [Option.mem_def.mp hb] using hlast
    have hordinary : (first :: (after ++ before)).filter (isOrdinary nl) = first :: rest := by
      rw [← List.cons_append, List.filter_append, hcells, hnone, List.append_nil]
    rw [← hordinary]
    refine traceFrom_of_links hw hround (List.nodup_append_comm.mp h.nodup)
      (fun id hid => hlisted id (hsub id hid)) (fun id hid => hlive id (hsub id hid)) (o := some first)
      ?_ ?_
    · intro z hz
      cases before with
      | nil => simpa using hend z (by simpa using hz)
      | cons b before =>
        rw [← List.cons_append, List.getLast?_append_of_ne_nil _ (List.cons_ne_nil b before)] at hz
        exact hlink z hz first rfl
    · rintro _ ⟨⟩
      refine ⟨hlive first (hsub first List.mem_cons_self), fun hmem => ?_⟩
      exact (nl.cells.nodup_ids.mem_sdiff_iff.mp hmem).2 List.mem_cons_self

/-! ## Discovered chains -/

/-- The chain inputs of chain cells that read a net. -/
def chainReaders (f : Fabric) (nl : Netlist) (n : Net) : List PortRef :=
  n.sinks.filter fun r => r.port = f.chainIn && (nl.cell? r.cell).any f.isChainCell

/-- The net on the chain output of the cell is read by one chain cell at most. -/
def Unshared (f : Fabric) (nl : Netlist) (d : CellId) : Prop :=
  ∀ k ∈ nl.netOf d f.chainOut, ∀ n ∈ nl.net? k, (chainReaders f nl n).length ≤ 1

instance (f : Fabric) (nl : Netlist) (d : CellId) : Decidable (Unshared f nl d) :=
  inferInstanceAs (Decidable (∀ k ∈ nl.netOf d f.chainOut, ∀ n ∈ nl.net? k,
    (chainReaders f nl n).length ≤ 1))

theorem unshared_of_bare (h : nl.bare d = none) : Unshared f nl d := by
  intro k hk
  have hwire : nl.wire ⟨d, f.chainOut⟩ = some k := hk
  rw [wire_eq_none_of_bare h] at hwire
  cases hwire

/-- Without boundary cells signals enter chain cells only. -/
theorem Packable.sends_iff (hs : Packable f nl) (hd : nl.cell? d = some cell) : Sends f nl d b ↔
    ∃ k n, nl.netOf d f.chainOut = some k ∧ nl.net? k = some n ∧
      ⟨b, f.chainIn⟩ ∈ chainReaders f nl n := by
  have hsignal : signal f nl d = nl.wire ⟨d, f.chainOut⟩ :=
    signal_normal (bare_of_cell? hd) (hs.normal d cell hd)
  constructor
  · rintro ⟨k, port, hk, hread, hdir, c, hc, henters⟩
    obtain ⟨cell, hcell, rfl⟩ := Option.map_eq_some_iff.mp hc
    have hrole : cell.role = .normal := hs.normal b cell hcell
    rcases henters with ⟨hchain, hport⟩ | ⟨t, ht, -⟩
    · obtain rfl : port = f.chainIn := hport
      obtain ⟨n, hn⟩ := Option.isSome_iff_exists.mp (hs.wellFormed.wired.wire_live _ k hread)
      have hsink := (hs.wellFormed.wired.sink_iff k n _ hn).mpr ⟨hread, hdir⟩
      have hchain' : f.isChainCell cell = true := hchain
      exact ⟨k, n, hsignal.symm.trans hk, hn, List.mem_filter.mpr ⟨hsink, by simp [hcell, hchain']⟩⟩
    · have ht' : f.boundary cell.role = some t := ht
      rw [hrole] at ht'
      cases ht'
  · rintro ⟨k, n, hk, hn, hreads⟩
    obtain ⟨hsink, htest⟩ := List.mem_filter.mp hreads
    obtain ⟨hread, hdir⟩ := (hs.wellFormed.wired.sink_iff k n _ hn).mp hsink
    obtain ⟨cell, hcell, hchain⟩ := any_eq_true.mp (Bool.and_eq_true_iff.mp htest).2
    exact ⟨k, f.chainIn, hsignal.trans hk, hread, hdir, cell.unwired, bare_of_cell? hcell,
      Or.inl ⟨hchain, rfl⟩⟩

/-- A cell whose net is not shared leads to the cell that its signal enters. -/
theorem Unshared.goesTo (h : Unshared f nl d) (hs : Packable f nl)
    (hleads : Leads nl f.chainIn f.chainOut f.isChainCell d c) : GoesTo f nl d (some c) := by
  obtain ⟨⟨cell, hd, -⟩, k, n, before, after, hk, hn, hsinks, hc, -⟩ := hleads
  have hreads : ⟨c, f.chainIn⟩ ∈ chainReaders f nl n :=
    List.mem_filter.mpr ⟨by simp [hsinks], by simp [any_eq_true.mpr hc]⟩
  intro b
  rw [hs.sends_iff hd]
  constructor
  · rintro ⟨k', n', hk', hn', hb⟩
    obtain rfl := Option.some.inj (hk.symm.trans hk')
    obtain rfl := Option.some.inj (hn.symm.trans hn')
    obtain ⟨r, hr⟩ := List.length_eq_one_iff.mp
      (Nat.le_antisymm (h k hk n hn) (List.length_pos_of_mem hreads))
    rw [hr, List.mem_singleton] at hreads hb
    exact congrArg (some ·.cell) (hreads.trans hb.symm)
  · rintro ⟨⟩
    exact ⟨k, n, hk, hn, hreads⟩

/-- The signal of a cell that leads nowhere enters no cell. -/
theorem Packable.goesTo_none (hs : Packable f nl) (hd : Satisfies nl f.isChainCell d)
    (hleads : ∀ c, ¬Leads nl f.chainIn f.chainOut f.isChainCell d c) : GoesTo f nl d none := by
  obtain ⟨cell, hcell, hchain⟩ := hd
  intro b
  rw [hs.sends_iff hcell]
  refine iff_of_false ?_ nofun
  rintro ⟨k, n, hk, hn, hreads⟩
  obtain ⟨hsink, htest⟩ := List.mem_filter.mp hreads
  obtain ⟨z, -, -, hz, -⟩ := exists_leads ⟨cell, hcell, hchain⟩ hk hn
    (any_eq_true.mp (Bool.and_eq_true_iff.mp htest).2) hsink
  exact hleads z hz

/-- A discovered chain is the course of a signal, in which the cells with unshared nets are sole
ones. -/
theorem Packable.course (hs : Packable f nl) {minLength : Nat}
    (hchain : chain ∈ find nl f.isChainCell
      (carryNavigation nl f.chainIn f.chainOut f.isChainCell) minLength) :
    ∃ closed, Course f nl (Unshared f nl) closed chain := by
  have hexact := find_exact f.chainIn minLength hs.wellFormed hs.chain_out
  obtain ⟨hnodup, hsatisfies⟩ := find_spec.1 chain hchain
  have hcarries : ∀ id ∈ chain, Carries f nl id := by
    intro id hid
    obtain ⟨cell, hcell, hcc⟩ := hsatisfies id hid
    exact ⟨cell.unwired, bare_of_cell? hcell, Or.inl hcc⟩
  have hlinks : chain.IsChain (Leads nl f.chainIn f.chainOut f.isChainCell) →
      chain.IsChain fun a b => Unshared f nl a → GoesTo f nl a (some b) := fun h =>
    h.imp fun _ _ hleads hunshared => hunshared.goesTo hs hleads
  rcases hexact.shape chain hchain with hpath | ⟨⟨hlinked, a, z, ha, hz, hclosed⟩, -⟩
  · refine ⟨false, hnodup, hcarries, hlinks hpath.linked, fun z hz _ => ?_⟩
    exact hs.goesTo_none (hsatisfies z (List.mem_of_getLast? hz)) (hpath.last z hz)
  · refine ⟨true, hnodup, hcarries, hlinks hlinked, fun y hy hunshared => ?_⟩
    obtain rfl := Option.some.inj (hz.symm.trans hy)
    rw [if_pos rfl, ha]
    exact hunshared.goesTo hs hclosed

/-! ## Legalized chains -/

/-- The ordinary cells among what a chain has become are the cells of the chain. -/
theorem CarriedOut.filter_isOrdinary {last : Option CellId} {ids : List CellId} {segment : Segment}
    {segments : List Segment} {moved : List PortRef}
    (h : CarriedOut f nl nl' chain last rest segment segments moved ids)
    (hrest : ∀ id ∈ rest, ChainCell f nl id) : ids.filter (isOrdinary nl') = rest := by
  rw [← h.added.live]
  refine List.filter_congr fun id hid => ?_
  rw [Bool.eq_iff_iff, isOrdinary, Option.any_eq_true]
  constructor
  · rintro ⟨c, hc, hrole⟩
    by_contra hnew
    rw [Option.not_isSome_iff_eq_none] at hnew
    exact h.edited.created id c hnew hc (of_decide_eq_true hrole)
  · intro hlive
    obtain ⟨c, hc, hrole⟩ := ((hrest id ((h.added.mem_iff hlive).mp hid)).edited h.edited).normal
    exact ⟨c, hc, decide_eq_true hrole⟩

/-- Legalizing a discovered chain and tracing it from its first cell gives the chain, if no net at
which a segment ends is shared. -/
theorem trace_legalized {config : Config} {names names' : Names} {minLength : Nat} {s s' : Session}
    {segments : List Segment} (hf : Fabric.ofConfig config names = (.ok f, names'))
    (hs : Packable f s.netlist)
    (hchain : chain ∈ find s.netlist f.isChainCell
      (carryNavigation s.netlist f.chainIn f.chainOut f.isChainCell) minLength)
    (h : legalize f chain s = .ok segments s')
    (hunshared : ∀ t ∈ segments, ∀ d, t.tail? chain = some d → Unshared f s.netlist d) :
    ∃ first, chain.head? = some first ∧ trace s'.netlist f first = .ok chain := by
  obtain ⟨hnodup, hsatisfies⟩ := find_spec.1 chain hchain
  have hcells : ∀ id ∈ chain, ChainCell f s.netlist id := by
    intro id hid
    obtain ⟨cell, hcell, hcc⟩ := hsatisfies id hid
    exact hs.directed.chainCell hcell hcc
  obtain ⟨closed, hcourse⟩ := hs.course hchain
  obtain ⟨moved, ids, hcarried⟩ :=
    legalize_ok (Fabric.declared_of_config hf) hs.wellFormed hcells hnodup h
  have hcourse' := hcarried.course _ closed [] nofun rfl hunshared hcourse
  have hsole : ∀ id ∈ ids, Unshared f s.netlist id ∨ id ∈ chain := by
    intro id hid
    cases hlive : s.netlist.bare id with
    | none => exact Or.inl (unshared_of_bare hlive)
    | some c => exact Or.inr ((hcarried.added.mem_iff (by simp [hlive])).mp hid)
  have hordinary := hcarried.filter_isOrdinary hcells
  cases chain with
  | nil =>
    have hlong := (find_exact f.chainIn minLength hs.wellFormed hs.chain_out).long [] hchain
    simp at hlong
  | cons first rest =>
    exact ⟨first, rfl, hcourse'.trace hcarried.edited.wellFormed hsole hordinary⟩

namespace Adder

/-- A third carry cell reads the net between the other two. -/
def shared : Session := session.after [
  .createCell ⟨2⟩ "other", .addPort ⟨4⟩ ⟨0⟩ .input, .addPort ⟨4⟩ ⟨1⟩ .output,
  .connect ⟨4⟩ ⟨0⟩ ⟨1⟩]

/-- A fourth one comes after them. -/
def lengthened : Session := shared.after [
  .createCell ⟨2⟩ "top", .addPort ⟨5⟩ ⟨0⟩ .input, .addPort ⟨5⟩ ⟨1⟩ .output,
  .connect ⟨5⟩ ⟨0⟩ ⟨2⟩]

/-- A shared net inside a segment does not lead the trace astray. -/
theorem lengthened_traced : ¬Unshared fabric lengthened.netlist ⟨1⟩ ∧
    ∃ s', legalize fabric [⟨1⟩, ⟨2⟩, ⟨5⟩] lengthened =
        .ok [⟨[⟨6⟩, ⟨1⟩, ⟨7⟩, ⟨2⟩, ⟨8⟩], 2⟩, ⟨[⟨9⟩, ⟨5⟩], 1⟩] s' ∧
      ∃ first, [⟨1⟩, ⟨2⟩, ⟨5⟩].head? = some first ∧
        trace s'.netlist fabric first = .ok [⟨1⟩, ⟨2⟩, ⟨5⟩] := by
  obtain ⟨s', h⟩ : ∃ s', legalize fabric [⟨1⟩, ⟨2⟩, ⟨5⟩] lengthened =
      .ok [⟨[⟨6⟩, ⟨1⟩, ⟨7⟩, ⟨2⟩, ⟨8⟩], 2⟩, ⟨[⟨9⟩, ⟨5⟩], 1⟩] s' :=
    exists_ok_of_returned (by decide +kernel)
  have hwellFormed : shared.netlist.WellFormed :=
    Session.wellFormed_after_of_wellFormed packable.wellFormed _
  have hpackable : Packable fabric lengthened.netlist :=
    .of_entries (Session.wellFormed_after_of_wellFormed hwellFormed _) (by decide +kernel)
  have hfound : [⟨1⟩, ⟨2⟩, ⟨5⟩] ∈ find lengthened.netlist fabric.isChainCell
      (carryNavigation lengthened.netlist fabric.chainIn fabric.chainOut fabric.isChainCell) 1 := by
    decide +kernel
  have htails : ∀ t ∈ [(⟨[⟨6⟩, ⟨1⟩, ⟨7⟩, ⟨2⟩, ⟨8⟩], 2⟩ : Segment), ⟨[⟨9⟩, ⟨5⟩], 1⟩],
      ∀ d ∈ t.tail? [⟨1⟩, ⟨2⟩, ⟨5⟩], Unshared fabric lengthened.netlist d := by
    decide +kernel
  exact ⟨by decide +kernel, s', h, trace_legalized ofConfig_config hpackable hfound h htails⟩

/-- The configuration with tiles for one carry cell. -/
def narrowConfig : Config :=
  { config with chain := config.chain.map fun c => { c with tileCapacity := 1 } }

def narrow : Fabric := { fabric with tileCapacity := 1 }

theorem ofConfig_narrowConfig : Fabric.ofConfig narrowConfig .empty = (.ok narrow, names) := by
  have hfabric : (Fabric.ofConfig narrowConfig .empty).1.toOption = some narrow := by decide +kernel
  exact Prod.ext (eq_ok_of_toOption hfabric) (by decide +kernel)

/-- Of the two cells that read the net after the cut the trace takes the wrong one. -/
theorem shared_misread : Fabric.ofConfig narrowConfig .empty = (.ok narrow, names) ∧
    Packable narrow shared.netlist ∧
    (∀ id c, shared.netlist.cell? id = some c → c.isClustered = false) ∧
    [⟨1⟩, ⟨2⟩] ∈ find shared.netlist narrow.isChainCell
      (carryNavigation shared.netlist narrow.chainIn narrow.chainOut narrow.isChainCell) 1 ∧
    ∃ segments s', legalize narrow [⟨1⟩, ⟨2⟩] shared = .ok segments s' ∧
      trace s'.netlist narrow ⟨1⟩ = .ok [⟨1⟩, ⟨4⟩] := by
  have hpackable : Packable narrow shared.netlist :=
    .of_entries (Session.wellFormed_after_of_wellFormed packable.wellFormed _) (by decide +kernel)
  have hfree : ∀ entry ∈ shared.netlist.cells.entries, entry.2.isClustered = false := by
    decide +kernel
  refine ⟨ofConfig_narrowConfig, hpackable, fun id c hc => ?_, by decide +kernel, ?_⟩
  · exact hfree (id, c) ((shared.netlist.cells.mem_entries id c).mpr hc)
  · obtain ⟨s', h⟩ : ∃ s', legalize narrow [⟨1⟩, ⟨2⟩] shared =
        .ok [⟨[⟨5⟩, ⟨1⟩, ⟨6⟩], 1⟩, ⟨[⟨7⟩, ⟨2⟩, ⟨8⟩], 1⟩] s' := exists_ok_of_returned (by decide +kernel)
    have htrace : (trace (finalState (legalize narrow [⟨1⟩, ⟨2⟩] shared)).netlist narrow
        ⟨1⟩).toOption = some [⟨1⟩, ⟨4⟩] := by decide +kernel
    rw [h] at htrace
    exact ⟨_, s', h, eq_ok_of_toOption htrace⟩

end Adder

end Chain
end FpgaPacking
