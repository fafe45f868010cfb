import FpgaPacking.Proofs.Chain.InsertionRuns

/-!
# What a plan promises

Planning reads the netlist before any edit.  `Layout` says what the netlist is
like where a plan does without a boundary cell: a cell that starts a segment
without a feed-in has no driver on its chain input, neighbours without a
pass-through are alone on their net, and the last cell of a segment without a
pass-out is not read.  Edits that stay away from the ports of the remaining cells
leave the promise of the remaining plan in force.
-/

namespace FpgaPacking
namespace Chain

variable {f : Fabric} {nl nl' : Netlist} {id prev next : CellId} {k : NetId}

/-! ## Single answers -/

theorem cell_eq_ok {c : Cell} : nl.cell id = .ok c ↔ nl.cell? id = some c := by
  unfold Netlist.cell
  cases nl.cell? id with
  | none => simp
  | some d => simp

theorem net_eq_ok {n : Net} : nl.net k = .ok n ↔ nl.net? k = some n := by
  unfold Netlist.net
  cases nl.net? k with
  | none => simp
  | some m => simp

theorem unread_of_outputUsed (hw : nl.WellFormed) (h : outputUsed nl f id = .ok false) :
    Unread nl ⟨id, f.chainOut⟩ := by
  intro k q hk hq
  have hnet : nl.netOf id f.chainOut = some k := hk
  unfold outputUsed at h
  rw [hnet] at h
  obtain ⟨n, hn⟩ := Option.isSome_iff_exists.mp (hw.wired.wire_live _ k hk)
  simp only [net_eq_ok.mpr hn] at h
  have hempty : n.sinks = [] := by simpa using Except.ok.inj h
  by_contra hd
  have hmem := (hw.wired.sink_iff k n q hn).mpr ⟨hq, hd⟩
  rw [hempty] at hmem
  cases hmem

theorem linked_of_fansOut (hw : nl.WellFormed) (h : fansOut nl f prev next = .ok false)
    (hk : nl.wire ⟨prev, f.chainOut⟩ = some k) (hknext : nl.wire ⟨next, f.chainIn⟩ = some k)
    (hdprev : nl.dir ⟨prev, f.chainOut⟩ = some .output)
    (hd : nl.dir ⟨next, f.chainIn⟩ ≠ some .output) :
    Linked nl ⟨prev, f.chainOut⟩ ⟨next, f.chainIn⟩ := by
  refine ⟨k, hk, hdprev, hknext, hd, fun q hq hdq => ?_⟩
  have hnet : nl.netOf prev f.chainOut = some k := hk
  unfold fansOut at h
  rw [hnet] at h
  obtain ⟨n, hn⟩ := Option.isSome_iff_exists.mp (hw.wired.wire_live _ k hk)
  simp only [net_eq_ok.mpr hn] at h
  have hall : (n.sinks.any fun s => decide (s ≠ ⟨next, f.chainIn⟩)) = false := Except.ok.inj h
  have hmem := (hw.wired.sink_iff k n q hn).mpr ⟨hq, hdq⟩
  have hq' := List.any_eq_false.mp hall q hmem
  simpa using hq'

theorem unfed_of_needsFeedIn (hw : nl.WellFormed) {warnings : List Diagnostic}
    (h : needsFeedIn nl f id = .ok (false, warnings)) : Unfed nl ⟨id, f.chainIn⟩ := by
  intro k q hk hq hd
  have hnet : nl.netOf id f.chainIn = some k := hk
  obtain ⟨n, hn⟩ := Option.isSome_iff_exists.mp (hw.wired.wire_live _ k hk)
  have hdriver : n.driver = some q := (hw.wired.driver_iff k n q hn).mpr ⟨hq, hd⟩
  have hconstant : n.constant.isSome = false := by
    cases hc : n.constant with
    | none => rfl
    | some v =>
      have := hw.constant_undriven k n hn (by simp [hc])
      simp [this] at hdriver
  unfold needsFeedIn at h
  rw [hnet] at h
  simp only [net_eq_ok.mpr hn] at h
  have hrun : (if n.constant.isSome then (.ok (false, []) : Except Fault (Bool × List Diagnostic))
      else if n.driver.isSome then .ok (true, [])
      else do return (false, [undrivenWarning (← nl.cell id) n])) = .ok (false, warnings) := h
  rw [hconstant, hdriver] at hrun
  simp at hrun

theorem wired_of_outputUsed (h : outputUsed nl f id = .ok true) :
    (nl.wire ⟨id, f.chainOut⟩).isSome := by
  show (nl.netOf id f.chainOut).isSome
  unfold outputUsed at h
  cases hk : nl.netOf id f.chainOut with
  | some k => rfl
  | none =>
    rw [hk] at h
    cases h

theorem wired_of_needsFeedIn {warnings : List Diagnostic}
    (h : needsFeedIn nl f id = .ok (true, warnings)) : (nl.wire ⟨id, f.chainIn⟩).isSome := by
  show (nl.netOf id f.chainIn).isSome
  unfold needsFeedIn at h
  cases hk : nl.netOf id f.chainIn with
  | some k => rfl
  | none =>
    rw [hk] at h
    cases h

/-! ## Layouts -/

/-- Neighbours in the list share a net between their chain ports. -/
def Together (f : Fabric) (nl : Netlist) (p c : CellId) : Prop :=
  ∃ k, nl.wire ⟨p, f.chainOut⟩ = some k ∧ nl.wire ⟨c, f.chainIn⟩ = some k

/-- The steps for the cells of a chain that are left after the cell that was
scanned last, if there is one in the open segment. -/
inductive Layout (f : Fabric) (nl : Netlist) : Option CellId → List CellId → List Step → Prop
  | done : Layout f nl none [] []
  | start {c : CellId} {rest : List CellId} {steps : List Step} (hunfed : Unfed nl ⟨c, f.chainIn⟩)
      (h : Layout f nl (some c) rest steps) : Layout f nl none (c :: rest) (.member c :: steps)
  | startFed {c : CellId} {rest : List CellId} {steps : List Step}
      (hfed : (nl.wire ⟨c, f.chainIn⟩).isSome)
      (h : Layout f nl (some c) rest steps) :
      Layout f nl none (c :: rest) (.feedIn c :: .member c :: steps)
  | join {p c : CellId} {rest : List CellId} {steps : List Step}
      (hlinked : Linked nl ⟨p, f.chainOut⟩ ⟨c, f.chainIn⟩) (h : Layout f nl (some c) rest steps) :
      Layout f nl (some p) (c :: rest) (.member c :: steps)
  | joinThrough {p c : CellId} {rest : List CellId} {steps : List Step}
      (htogether : Together f nl p c) (h : Layout f nl (some c) rest steps) :
      Layout f nl (some p) (c :: rest) (.passThrough p c :: .member c :: steps)
  | split {p c : CellId} {rest : List CellId} {steps : List Step}
      (htogether : Together f nl p c) (h : Layout f nl none (c :: rest) steps) :
      Layout f nl (some p) (c :: rest) (.passOut p :: .close :: steps)
  | finish {p : CellId} (hunread : Unread nl ⟨p, f.chainOut⟩) : Layout f nl (some p) [] [.close]
  | finishOut {p : CellId} (hwired : (nl.wire ⟨p, f.chainOut⟩).isSome) :
      Layout f nl (some p) [] [.passOut p, .close]

theorem Together.edited {moved : List PortRef} (h : Together f nl prev next) (he : Edited moved nl nl')
    (hprev : ⟨prev, f.chainOut⟩ ∉ moved) (hnext : ⟨next, f.chainIn⟩ ∉ moved) :
    Together f nl' prev next := by
  obtain ⟨k, hp, hn⟩ := h
  refine ⟨k, ?_, ?_⟩
  · rw [he.still _ hprev (Netlist.bare_isSome_of_wire hp)]
    exact hp
  · rw [he.still _ hnext (Netlist.bare_isSome_of_wire hn)]
    exact hn

/-- A layout stays one when no port of the remaining cells moves, nor the chain
output of the last cell. -/
theorem Layout.edited {moved : List PortRef} {last : Option CellId} {rest : List CellId}
    {steps : List Step} (h : Layout f nl last rest steps) (hw : nl.WellFormed)
    (he : Edited moved nl nl')
    (hlast : ∀ p, last = some p → (nl.bare p).isSome ∧ ⟨p, f.chainOut⟩ ∉ moved)
    (hrest : ∀ c ∈ rest, (nl.bare c).isSome ∧ ∀ port, ⟨c, port⟩ ∉ moved) :
    Layout f nl' last rest steps := by
  have hnext : ∀ {c : CellId} {rest : List CellId},
      (∀ d ∈ c :: rest, (nl.bare d).isSome ∧ ∀ port, ⟨d, port⟩ ∉ moved) →
      ∀ p, some c = some p → (nl.bare p).isSome ∧ ⟨p, f.chainOut⟩ ∉ moved := by
    rintro c rest hrest p ⟨⟩
    exact ⟨(hrest c List.mem_cons_self).1, (hrest c List.mem_cons_self).2 _⟩
  induction h with
  | done => exact .done
  | @start c rest steps hunfed _ ih =>
    obtain ⟨hlive, hc⟩ := hrest c List.mem_cons_self
    refine .start (hunfed.edited hw he hlive (hc _)) ?_
    exact ih (hnext hrest) fun d hd => hrest d (List.mem_cons_of_mem c hd)
  | @startFed c rest steps hfed _ ih =>
    obtain ⟨hlive, hc⟩ := hrest c List.mem_cons_self
    refine .startFed ?_ (ih (hnext hrest) fun d hd => hrest d (List.mem_cons_of_mem c hd))
    rw [he.still _ (hc _) hlive]
    exact hfed
  | @join p c rest steps hlinked _ ih =>
    obtain ⟨-, hc⟩ := hrest c List.mem_cons_self
    refine .join (hlinked.edited hw he (hlast p rfl).2 (hc _)) ?_
    exact ih (hnext hrest) fun d hd => hrest d (List.mem_cons_of_mem c hd)
  | @joinThrough p c rest steps htogether _ ih =>
    obtain ⟨-, hc⟩ := hrest c List.mem_cons_self
    refine .joinThrough (htogether.edited he (hlast p rfl).2 (hc _)) ?_
    exact ih (hnext hrest) fun d hd => hrest d (List.mem_cons_of_mem c hd)
  | @split p c rest steps htogether _ ih =>
    obtain ⟨-, hc⟩ := hrest c List.mem_cons_self
    exact .split (htogether.edited he (hlast p rfl).2 (hc _)) (ih nofun hrest)
  | @finish p hunread =>
    obtain ⟨hplive, hp⟩ := hlast p rfl
    exact .finish (hunread.edited hw he hplive hp)
  | @finishOut p hwired =>
    obtain ⟨hplive, hp⟩ := hlast p rfl
    refine .finishOut ?_
    rw [he.still _ hp hplive]
    exact hwired

/-! ## Planning -/

theorem isChain_of_checkLinks {chain : List CellId} (h : checkLinks nl f chain = .ok ()) :
    chain.IsChain (Together f nl) := by
  induction chain with
  | nil => exact .nil
  | cons a rest ih =>
    cases rest with
    | nil => exact .singleton a
    | cons b rest =>
      unfold checkLinks at h
      cases hlink : checkLink nl f a b with
      | error e =>
        rw [hlink] at h
        cases h
      | ok u =>
        rw [hlink] at h
        refine .cons_cons ?_ (ih h)
        unfold checkLink at hlink
        dsimp only at hlink
        split at hlink
        · next hcond =>
          obtain ⟨k, hk⟩ := Option.isSome_iff_exists.mp hcond.1
          exact ⟨k, hk, (hcond.2.symm.trans hk)⟩
        · obtain ⟨a', -, hlink⟩ := except_bind_ok.mp hlink
          obtain ⟨b', -, hlink⟩ := except_bind_ok.mp hlink
          cases hlink

/-- Where a segment ends and what comes next, as planning knows it. -/
def Follows (f : Fabric) (nl : Netlist) (last : Option CellId) (c : CellId) : Prop :=
  ∀ p, last = some p → Together f nl p c

theorem cells_of_extend {segment : OpenSegment} {joined : Extension}
    (h : extend nl f segment id = .ok joined) : joined.segment.cells = segment.cells ++ [id] := by
  unfold extend at h
  obtain ⟨before, -, h⟩ := except_bind_ok.mp h
  obtain ⟨used, -, h⟩ := except_bind_ok.mp h
  obtain rfl := Except.ok.inj h
  rfl

theorem last_of_extend {segment : OpenSegment} {joined : Extension}
    (h : extend nl f segment id = .ok joined) : joined.segment.cells.getLast? = some id := by
  rw [cells_of_extend h, List.getLast?_concat]

theorem layout_of_extend (hw : nl.WellFormed) {segment : OpenSegment} {joined : Extension}
    {rest : List CellId} {steps : List Step} (h : extend nl f segment id = .ok joined)
    (hlastcell : ∀ p, segment.cells.getLast? = some p → Linkable f nl p)
    (hcell : Linkable f nl id) (hfollows : Follows f nl segment.cells.getLast? id)
    (hlayout : Layout f nl (some id) rest steps) :
    Layout f nl segment.cells.getLast? (id :: rest) (joined.steps ++ steps) := by
  unfold extend at h
  obtain ⟨⟨before, warnings⟩, hbefore, h⟩ := except_bind_ok.mp h
  obtain ⟨used, -, h⟩ := except_bind_ok.mp h
  obtain rfl := Except.ok.inj h
  show Layout f nl _ _ ((before ++ [.member id]) ++ steps)
  rw [List.append_assoc, List.singleton_append]
  unfold boundaryBefore at hbefore
  cases hlast : segment.cells.getLast? with
  | none =>
    rw [hlast] at hbefore
    obtain ⟨⟨needed, warnings'⟩, hneeded, hbefore⟩ := except_bind_ok.mp hbefore
    obtain ⟨rfl, -⟩ := Prod.mk.inj (Except.ok.inj hbefore)
    cases needed with
    | true => exact .startFed (wired_of_needsFeedIn hneeded) hlayout
    | false => exact .start (unfed_of_needsFeedIn hw hneeded) hlayout
  | some p =>
    rw [hlast] at hbefore
    obtain ⟨forks, hforks, hbefore⟩ := except_bind_ok.mp hbefore
    obtain ⟨rfl, -⟩ := Prod.mk.inj (Except.ok.inj hbefore)
    cases forks with
    | true => exact .joinThrough (hfollows p hlast) hlayout
    | false =>
      obtain ⟨k, hp, hid⟩ := hfollows p hlast
      have hdp := (hlastcell p hlast).dir_chainOut hp
      exact .join (linked_of_fansOut hw hforks hp hid hdp hcell.chainIn) hlayout

theorem layout_of_finish (hw : nl.WellFormed) {segment : OpenSegment} {steps : List Step}
    (h : finish nl f segment = .ok steps) : Layout f nl segment.cells.getLast? [] steps := by
  unfold finish at h
  cases hlast : segment.cells.getLast? with
  | none =>
    rw [hlast] at h
    obtain rfl := Except.ok.inj h
    exact .done
  | some p =>
    rw [hlast] at h
    obtain ⟨used, hused, h⟩ := except_bind_ok.mp h
    obtain rfl := Except.ok.inj h
    cases used with
    | true => exact .finishOut (wired_of_outputUsed hused)
    | false => exact .finish (unread_of_outputUsed hw hused)

theorem Plan.outcome_after {steps steps' : List Step} {warnings : List Diagnostic} {p : Plan}
    (h : (p.after steps warnings).outcome = .ok steps') :
    ∃ rest, p.outcome = .ok rest ∧ steps' = steps ++ rest := by
  unfold Plan.after at h
  cases hp : p.outcome with
  | error e =>
    rw [hp] at h
    cases h
  | ok rest =>
    rw [hp] at h
    exact ⟨rest, rfl, (Except.ok.inj h).symm⟩

/-- The steps of a plan are laid out for the netlist it was made for. -/
theorem layout_of_scan (hw : nl.WellFormed) {rest : List CellId} {segment : OpenSegment}
    {steps : List Step} (h : (scan nl f segment rest).outcome = .ok steps)
    (hlastcell : ∀ p, segment.cells.getLast? = some p → Linkable f nl p)
    (hcells : ∀ c ∈ rest, Linkable f nl c) (hchain : rest.IsChain (Together f nl))
    (hfollows : ∀ c, rest.head? = some c → Follows f nl segment.cells.getLast? c) :
    Layout f nl segment.cells.getLast? rest steps := by
  induction rest generalizing segment steps with
  | nil =>
    unfold scan at h
    cases hfinish : finish nl f segment with
    | error e =>
      rw [hfinish] at h
      cases h
    | ok ending =>
      rw [hfinish] at h
      obtain rfl := Except.ok.inj h
      exact layout_of_finish hw hfinish
  | cons id rest ih =>
    have hid := hcells id List.mem_cons_self
    have hrest : ∀ c ∈ rest, Linkable f nl c := fun c hc => hcells c (List.mem_cons_of_mem id hc)
    -- Whatever segment ends with `id`, the rest is laid out after it.
    have hlater : ∀ {other : OpenSegment} {joined : Extension} {later : List Step},
        extend nl f other id = .ok joined → (scan nl f joined.segment rest).outcome = .ok later →
        Layout f nl (some id) rest later := by
      intro other joined later hextend hscan
      have hlast := last_of_extend hextend
      have hlayout := ih hscan (fun p hp => Option.some.inj (hlast.symm.trans hp) ▸ hid) hrest
        hchain.of_cons fun c hc p hp => by
        obtain rfl := Option.some.inj (hlast.symm.trans hp)
        obtain ⟨tail, rfl⟩ := List.head?_eq_some_iff.mp hc
        exact (List.isChain_cons_cons.mp hchain).1
      rw [hlast] at hlayout
      exact hlayout
    unfold scan at h
    cases hextend : extend nl f segment id with
    | error e =>
      rw [hextend] at h
      cases h
    | ok joined =>
      rw [hextend] at h
      dsimp only at h
      by_cases hfits : joined.fits
      · rw [if_pos hfits] at h
        obtain ⟨later, hscan, rfl⟩ := Plan.outcome_after h
        exact layout_of_extend hw hextend hlastcell hid (hfollows id rfl) (hlater hextend hscan)
      · rw [if_neg hfits] at h
        cases hlast : segment.cells.getLast? with
        | none =>
          rw [hlast] at h
          cases h
        | some p =>
          rw [hlast] at h
          dsimp only at h
          cases halone : extend nl f .none id with
          | error e =>
            rw [halone] at h
            cases h
          | ok alone =>
            rw [halone] at h
            dsimp only at h
            by_cases hfitsalone : alone.fits
            · rw [if_pos hfitsalone] at h
              obtain ⟨later, hscan, rfl⟩ := Plan.outcome_after h
              exact .split (hfollows id rfl p hlast)
                (layout_of_extend hw halone nofun hid nofun (hlater halone hscan))
            · rw [if_neg hfitsalone] at h
              cases h

end Chain
end FpgaPacking
