import FpgaPacking.Proofs.Chain.Discovered

/-!
# Discovery by any navigation

Nothing is asked of a navigation here but that it stays among the live cells.  Its
two functions may disagree, merge and run in circles.  What remains of the notion
of a chain is that each cell leads to the next, and that the last one leads
nowhere, back into its chain or into an earlier one.

A walk back goes through cells each of which leads to the one passed before it.
The walk on from where it ends therefore comes by the cell at which it began, so
no visited cell is lost.
-/

namespace FpgaPacking
namespace Chain

variable {nl : Netlist} {p : Cell → Bool} {nav : Navigation} {minLength : Nat}
  {available seen ids : List CellId} {id x : CellId} {chain : List CellId}

/-! ## The chain through a cell -/

theorem mem_walk_self (h : id ∈ available) : id ∈ walk nav available id := by
  cases hnext : nav.next id with
  | none => simp [walk_of_none h hnext]
  | some after => simp [walk_of_some h hnext]

/-- With more cells available, a walk comes by the same cells and perhaps goes on. -/
theorem mem_walk_mono {more : List CellId} (hnodup : available.Nodup) (hsub : available ⊆ more)
    (h : x ∈ walk nav available id) : x ∈ walk nav more id := by
  induction available, id using walk.induct nav generalizing more with
  | case1 available id hmem hnone =>
    rw [walk_of_none hmem hnone] at h
    rw [walk_of_none (hsub hmem) hnone]
    exact h
  | case2 available id hmem after hsome ih =>
    rw [walk_of_some hmem hsome] at h
    rw [walk_of_some (hsub hmem) hsome]
    rcases List.mem_cons.mp h with rfl | h
    · exact List.mem_cons_self
    · have hrest : available.erase id ⊆ more.erase id := by
        intro y hy
        have hne : y ≠ id := (hnodup.mem_erase_iff.mp hy).1
        exact (List.mem_erase_of_ne hne).mpr (hsub (List.mem_of_mem_erase hy))
      exact List.mem_cons_of_mem id (ih (hnodup.erase id) hrest h)
  | case3 available id hmem =>
    rw [walk_of_not_mem hmem] at h
    cases h

/-- The walk on from the start of `id` comes by every cell that `id` reaches through cells that have
been passed on the way back. -/
theorem mem_walk_start (hnodup : (seen ++ available).Nodup) (h : x ∈ walk nav seen id) :
    x ∈ walk nav (seen ++ available) (start nav available id) := by
  induction available, id using start.induct nav generalizing seen with
  | case1 available id hnone =>
    rw [start_of_none hnone]
    exact mem_walk_mono hnodup.of_append_left (List.subset_append_left _ _) h
  | case2 available id before hsome hcond ih =>
    rw [start_of_available hsome hcond]
    -- The cell before is passed in its turn, and it leads to the cell passed last.
    have hperm : (before :: seen ++ available.erase before).Perm (seen ++ available) :=
      List.perm_middle.symm.trans ((List.perm_cons_erase hcond.1).symm.append_left seen)
    have hpassed : x ∈ walk nav (before :: seen) before := by
      rw [walk_of_some List.mem_cons_self hcond.2, List.erase_cons_head]
      exact List.mem_cons_of_mem before h
    have hunique := hperm.nodup_iff.mpr hnodup
    exact mem_walk_mono hunique hperm.subset (ih hunique hpassed)
  | case3 available id before hsome hcond =>
    rw [start_of_refused hsome hcond]
    exact mem_walk_mono hnodup.of_append_left (List.subset_append_left _ _) h

theorem mem_through (hnodup : available.Nodup) (hid : id ∈ available) :
    id ∈ through nav available id := by
  have hperm : ([id] ++ available.erase id).Perm available := (List.perm_cons_erase hid).symm
  have hunique := hperm.nodup_iff.mpr hnodup
  have hself : id ∈ walk nav [id] id := mem_walk_self List.mem_cons_self
  exact mem_walk_mono hunique hperm.subset (mem_walk_start hunique hself)

/-- Each cell of a chain leads to the next, and the last one does not lead to a cell that is still
available. -/
theorem through_links (hnodup : available.Nodup) (hid : id ∈ available) :
    ((through nav available id).IsChain fun a b => nav.next a = some b) ∧
      ∀ last after, (through nav available id).getLast? = some last →
        nav.next last = some after → after ∈ through nav available id ∨ after ∉ available := by
  have hself : id ∈ through nav available id := mem_through hnodup hid
  unfold through at hself ⊢
  generalize start nav (available.erase id) id = first at hself ⊢
  have hfirst : first ∈ available := by
    by_contra hnot
    rw [walk_of_not_mem hnot] at hself
    cases hself
  have hnext : ∀ a b, nav.next a = some b ↔ True ∧ nav.next a = some b := fun _ _ => by
    rw [true_and]
  obtain ⟨later, hwalk, hlinked, hend⟩ := walk_spec hnext (fun _ _ _ => trivial) hfirst trivial
  rw [hwalk]
  exact ⟨hlinked, fun last after hlast hafter => hend last hlast after hafter⟩

/-! ## All chains -/

/-- The cells that are in none of the chains. -/
def remaining (available : List CellId) (chains : List (List CellId)) : List CellId :=
  available.filter fun x => !chains.flatten.contains x

theorem mem_remaining {chains : List (List CellId)} :
    x ∈ remaining available chains ↔ x ∈ available ∧ x ∉ chains.flatten := by
  simp [remaining]

theorem remaining_nil : remaining available [] = available := by simp [remaining]

theorem remaining_cons {chains : List (List CellId)} :
    remaining (available.filter fun x => x ∉ chain) chains = remaining available (chain :: chains) := by
  unfold remaining
  rw [List.filter_filter]
  refine List.filter_congr fun x _ => ?_
  rw [List.flatten_cons, List.contains_append, Bool.not_or, Bool.and_comm, decide_not,
    ← List.contains_eq_mem]

theorem chainsThrough_cons : chainsThrough nav minLength available (id :: ids) =
    if id ∈ available then
      if (through nav available id).isEmpty || (through nav available id).length < minLength then
        chainsThrough nav minLength available ids
      else
        through nav available id :: chainsThrough nav minLength
          (available.filter fun c => c ∉ through nav available id) ids
    else
      chainsThrough nav minLength available ids := rfl

/-- Every chain is the chain through some cell among the cells that the earlier chains have left. -/
theorem exists_through {earlier later : List (List CellId)}
    (h : chainsThrough nav minLength available ids = earlier ++ chain :: later) :
    ∃ id ∈ remaining available earlier, chain = through nav (remaining available earlier) id ∧
      max minLength 1 ≤ chain.length := by
  induction ids generalizing available earlier with
  | nil => cases earlier <;> cases h
  | cons id rest ih =>
    rw [chainsThrough_cons] at h
    split at h
    · next hid =>
      split at h
      · exact ih h
      · next hlong =>
        cases earlier with
        | nil =>
          obtain ⟨hchain, -⟩ := List.cons.inj h
          rw [remaining_nil]
          refine ⟨id, hid, hchain.symm, ?_⟩
          rw [← hchain]
          simp only [Bool.or_eq_true, List.isEmpty_iff_length_eq_zero, decide_eq_true_eq] at hlong
          omega
        | cons first earlier =>
          obtain ⟨hfirst, hrest⟩ := List.cons.inj h
          obtain ⟨x, hx, hchain, hlength⟩ := ih hrest
          rw [remaining_cons, hfirst] at hx hchain
          exact ⟨x, hx, hchain, hlength⟩
    · exact ih h

/-- If no chain is too short, every cell that is visited gets into one. -/
theorem mem_chainsThrough (hmin : minLength ≤ 1) (hnodup : available.Nodup) (hx : x ∈ available)
    (hvisited : x ∈ ids) : x ∈ (chainsThrough nav minLength available ids).flatten := by
  induction ids generalizing available with
  | nil => cases hvisited
  | cons id rest ih =>
    rw [chainsThrough_cons]
    split
    · next hid =>
      have hself : id ∈ through nav available id := mem_through hnodup hid
      have hlong : ¬((through nav available id).isEmpty ||
          decide ((through nav available id).length < minLength)) = true := by
        have hpos := List.length_pos_of_mem hself
        simp only [Bool.or_eq_true, List.isEmpty_iff_length_eq_zero, decide_eq_true_eq]
        omega
      rw [if_neg hlong, List.flatten_cons, List.mem_append]
      by_cases hin : x ∈ through nav available id
      · exact Or.inl hin
      · refine Or.inr (ih (hnodup.filter _) (List.mem_filter.mpr ⟨hx, decide_eq_true hin⟩) ?_)
        rcases List.mem_cons.mp hvisited with rfl | hrest
        · exact absurd hself hin
        · exact hrest
    · next hid =>
      rcases List.mem_cons.mp hvisited with rfl | hrest
      · exact absurd hx hid
      · exact ih hnodup hx hrest

/-! ## Discovery -/

/-- The navigation leads from live cells to live cells. -/
structure Within (nl : Netlist) (nav : Navigation) : Prop where
  previous : ∀ a ∈ nl.cellIds, ∀ b ∈ nav.previous a, b ∈ nl.cellIds
  next : ∀ a ∈ nl.cellIds, ∀ b ∈ nav.next a, b ∈ nl.cellIds

/-- The navigation leads from live cells to cells that satisfy `p`. -/
structure Among (nl : Netlist) (p : Cell → Bool) (nav : Navigation) : Prop where
  previous : ∀ a ∈ nl.cellIds, ∀ b ∈ nav.previous a, Satisfies nl p b
  next : ∀ a ∈ nl.cellIds, ∀ b ∈ nav.next a, Satisfies nl p b

/-- What chains are if nothing is known of the navigation. -/
structure Threads (nl : Netlist) (p : Cell → Bool) (nav : Navigation) (minLength : Nat)
    (chains : List (List CellId)) : Prop where
  /-- No cell is in two chains or in one chain twice. -/
  nodup : chains.flatten.Nodup
  live : ∀ x ∈ chains.flatten, x ∈ nl.cellIds
  linked : ∀ chain ∈ chains, chain.IsChain fun a b => nav.next a = some b
  long : ∀ chain ∈ chains, max minLength 1 ≤ chain.length
  /-- A chain ends where it would run into itself or into an earlier one. -/
  ended : ∀ earlier chain later, chains = earlier ++ chain :: later →
    ∀ last ∈ chain.getLast?, ∀ after ∈ nav.next last, after ∈ chain ∨ after ∈ earlier.flatten
  complete : minLength ≤ 1 → ∀ x, Satisfies nl p x → x ∈ chains.flatten

theorem find_threads (hnav : Within nl nav) :
    Threads nl p nav minLength (find nl p nav minLength) := by
  obtain ⟨hchains, hdisjoint⟩ := find_disjoint nl p nav minLength
  have hfound : ∀ earlier chain later, find nl p nav minLength = earlier ++ chain :: later →
      ∃ id ∈ remaining nl.cellIds earlier, chain = through nav (remaining nl.cellIds earlier) id ∧
        max minLength 1 ≤ chain.length := fun _ _ _ h => exists_through h
  have hremaining : ∀ earlier, (remaining nl.cellIds earlier).Nodup := fun _ =>
    nl.cells.nodup_ids.filter _
  refine
    { nodup := List.nodup_flatten.mpr ⟨fun chain h => (hchains chain h).1, hdisjoint⟩
      live := fun x hx => ?_
      linked := fun chain hchain => ?_
      long := fun chain hchain => ?_
      ended := fun earlier chain later h last hlast after hafter => ?_
      complete := fun hmin x hx => ?_ }
  · obtain ⟨chain, hchain, hin⟩ := List.mem_flatten.mp hx
    exact (hchains chain hchain).2 x hin
  · obtain ⟨earlier, later, h⟩ := List.append_of_mem hchain
    obtain ⟨id, hid, rfl, -⟩ := hfound _ _ _ h
    exact (through_links (hremaining _) hid).1
  · obtain ⟨earlier, later, h⟩ := List.append_of_mem hchain
    obtain ⟨id, -, -, hlong⟩ := hfound _ _ _ h
    exact hlong
  · have hchain : chain ∈ find nl p nav minLength := h ▸ by simp
    have hmember := (hchains chain hchain).2 last (List.mem_of_getLast? hlast)
    have hlive : after ∈ nl.cellIds := hnav.next last hmember after hafter
    obtain ⟨id, hid, rfl, -⟩ := hfound _ _ _ h
    rcases (through_links (hremaining _) hid).2 last after hlast hafter with hin | hout
    · exact Or.inl hin
    · refine Or.inr ?_
      by_contra hnew
      exact hout (mem_remaining.mpr ⟨hlive, hnew⟩)
  · exact mem_chainsThrough hmin nl.cells.nodup_ids hx.mem_cellIds (mem_candidates.mpr hx)

theorem flatten_singletons {chains : List (List CellId)} :
    (singletons nl p chains).flatten = (candidates nl p).filter fun x => x ∉ chains.flatten := by
  unfold singletons
  rw [← List.flatMap_def, List.flatMap_singleton']

/-- Chains of cells that satisfy `p` and the singletons beside them share out the cells that
satisfy `p`. -/
theorem shared_out (hnav : Among nl p nav) :
    ((find nl p nav minLength ++ singletons nl p (find nl p nav minLength)).flatten.Nodup) ∧
      ∀ x, x ∈ (find nl p nav minLength ++ singletons nl p (find nl p nav minLength)).flatten ↔
        Satisfies nl p x := by
  obtain ⟨hchains, hdisjoint⟩ := @chainsThrough_spec nav (Satisfies nl p) nl.cellIds minLength
    (candidates nl p) (fun a b ha h => hnav.previous a ha.mem_cellIds b h)
    (fun a b ha h => hnav.next a ha.mem_cellIds b h) nl.cells.nodup_ids
    fun _ h => satisfies_of_mem_candidates h
  have hcandidates : (candidates nl p).Nodup :=
    nl.cells.nodup_ids.sublist (List.Sublist.map _ List.filter_sublist)
  rw [List.flatten_append, flatten_singletons]
  generalize hfound : find nl p nav minLength = chains
  unfold find at hfound
  rw [hfound] at hchains hdisjoint
  constructor
  · refine List.nodup_append.mpr ⟨List.nodup_flatten.mpr ⟨fun chain h => (hchains chain h).1,
      hdisjoint⟩, hcandidates.filter _, ?_⟩
    rintro x hx _ hy rfl
    exact of_decide_eq_true (List.mem_filter.mp hy).2 hx
  · intro x
    rw [List.mem_append, List.mem_filter, mem_candidates, decide_eq_true_eq]
    constructor
    · rintro (hx | ⟨hx, -⟩)
      · obtain ⟨chain, hchain, hin⟩ := List.mem_flatten.mp hx
        exact ((hchains chain hchain).2 x hin).2
      · exact hx
    · intro hx
      by_cases hin : x ∈ chains.flatten
      · exact Or.inl hin
      · exact Or.inr ⟨hx, hin⟩

/-- Discovery ends with chains for every navigation of live cells.  If the navigation does not leave
the cells that satisfy `p`, the chains and the singletons beside them share out these cells. -/
theorem discover_sound (p : Cell → Bool) (nav : Netlist → Navigation) (minLength : Nat)
    (s : Session) (hnav : Within s.netlist (nav s.netlist)) :
    ∃ chains s', discover p nav minLength s = .ok chains s' ∧ s'.netlist = s.netlist ∧
      Threads s.netlist p (nav s.netlist) minLength chains ∧
      (Among s.netlist p (nav s.netlist) →
        (chains ++ singletons s.netlist p chains).flatten.Nodup ∧
          ∀ x, x ∈ (chains ++ singletons s.netlist p chains).flatten ↔ Satisfies s.netlist p x) := by
  obtain ⟨s', hrun, hsame⟩ : ∃ s', discover p nav minLength s =
      .ok (find s.netlist p (nav s.netlist) minLength) s' ∧ s'.netlist = s.netlist :=
    exists_discover nav
  exact ⟨_, s', hrun, hsame, find_threads hnav, shared_out⟩

namespace Lasso

/-- Cell 1 leads to cell 0, which goes round with cell 2.  Cell 3 leads to cell 2 as well.  The way
back is right for cell 0 only. -/
def navigation : Navigation where
  previous id := ([⟨1⟩, ⟨3⟩, ⟨1⟩, ⟨0⟩] : List CellId)[id.index]?
  next id := ([⟨2⟩, ⟨0⟩, ⟨0⟩, ⟨2⟩] : List CellId)[id.index]?

/-- The lasso is one chain, and cell 3 is left over. -/
theorem lasso_found :
    Within Adder.session.netlist navigation ∧
    Among Adder.session.netlist (fun _ => true) navigation ∧
    ∃ chains s', discover (fun _ => true) (fun _ => navigation) 2 Adder.session = .ok chains s' ∧
      chains = [[⟨1⟩, ⟨0⟩, ⟨2⟩]] ∧
      Threads Adder.session.netlist (fun _ => true) navigation 2 chains ∧
      (chains ++ singletons Adder.session.netlist (fun _ => true) chains).flatten.Nodup := by
  have hwithin : Within Adder.session.netlist navigation :=
    ⟨by decide +kernel, by decide +kernel⟩
  have hall : ∀ x ∈ Adder.session.netlist.cellIds,
      Satisfies Adder.session.netlist (fun _ => true) x := by
    have hcandidates : ∀ x ∈ Adder.session.netlist.cellIds,
        x ∈ candidates Adder.session.netlist (fun _ => true) := by decide +kernel
    exact fun x hx => mem_candidates.mp (hcandidates x hx)
  have hamong : Among Adder.session.netlist (fun _ => true) navigation :=
    ⟨fun a ha b h => hall b (hwithin.previous a ha b h),
      fun a ha b h => hall b (hwithin.next a ha b h)⟩
  obtain ⟨chains, s', hrun, -, hthreads, hshared⟩ :=
    discover_sound (fun _ => true) (fun _ => navigation) 2 Adder.session hwithin
  refine ⟨hwithin, hamong, chains, s', hrun, ?_, hthreads, (hshared hamong).1⟩
  have hreturned : returned? (discover (fun _ => true) (fun _ => navigation) 2 Adder.session) =
      some [[⟨1⟩, ⟨0⟩, ⟨2⟩]] := by decide +kernel
  rw [hrun] at hreturned
  exact Option.some.inj hreturned

end Lasso

end Chain
end FpgaPacking
