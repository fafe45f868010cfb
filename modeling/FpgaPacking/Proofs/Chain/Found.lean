import FpgaPacking.Chain.Discovery
import FpgaPacking.Pack
import FpgaPacking.Proofs.Netlist.Wiring

/-!
# Discovered chains

A chain uses up the cells it goes through, so no cell occurs in it twice and no
two chains share one.  Every cell of a chain is live and satisfies the predicate
of the navigation: a walk starts at such a cell and only ever goes to such cells.
-/

namespace FpgaPacking
namespace Chain

variable {nav : Navigation} {q : CellId → Prop} {available : List CellId} {id : CellId}

/-! ## Steps of the two walks -/

theorem start_of_none (h : nav.previous id = none) : start nav available id = id := by
  rw [start, h]

theorem start_of_available {before : CellId} (h : nav.previous id = some before)
    (hcond : before ∈ available ∧ nav.next before = some id) :
    start nav available id = start nav (available.erase before) before := by
  rw [start]
  simp only [h]
  rw [if_pos hcond]

theorem start_of_refused {before : CellId} (h : nav.previous id = some before)
    (hcond : ¬(before ∈ available ∧ nav.next before = some id)) :
    start nav available id = id := by
  rw [start]
  simp only [h]
  rw [if_neg hcond]

theorem walk_of_none (hmem : id ∈ available) (h : nav.next id = none) :
    walk nav available id = [id] := by
  rw [walk, if_pos hmem, h]

theorem walk_of_some {after : CellId} (hmem : id ∈ available) (h : nav.next id = some after) :
    walk nav available id = id :: walk nav (available.erase id) after := by
  rw [walk, if_pos hmem, h]

theorem walk_of_not_mem (hmem : id ∉ available) : walk nav available id = [] := by
  rw [walk, if_neg hmem]

/-! ## Members of chains -/

theorem mem_walk (hnext : ∀ a b, q a → nav.next a = some b → q b) (hid : q id) :
    ∀ x ∈ walk nav available id, x ∈ available ∧ q x := by
  induction available, id using walk.induct nav with
  | case1 available id hmem hnone =>
    rw [walk_of_none hmem hnone]
    intro x hx
    rw [List.mem_singleton.mp hx]
    exact ⟨hmem, hid⟩
  | case2 available id hmem after hsome ih =>
    rw [walk_of_some hmem hsome]
    intro x hx
    rcases List.mem_cons.mp hx with rfl | hx
    · exact ⟨hmem, hid⟩
    · obtain ⟨hin, hq⟩ := ih (hnext id after hid hsome) x hx
      exact ⟨List.mem_of_mem_erase hin, hq⟩
  | case3 available id hmem =>
    rw [walk_of_not_mem hmem]
    exact fun x hx => nomatch hx

theorem nodup_walk (havailable : available.Nodup) : (walk nav available id).Nodup := by
  induction available, id using walk.induct nav with
  | case1 available id hmem hnone =>
    rw [walk_of_none hmem hnone]
    exact List.nodup_singleton id
  | case2 available id hmem after hsome ih =>
    rw [walk_of_some hmem hsome]
    refine List.nodup_cons.mpr ⟨fun hin => ?_, ih (havailable.erase id)⟩
    have hleft := (mem_walk (fun _ _ _ _ => trivial) trivial id hin).1
    exact (havailable.not_mem_erase) hleft
  | case3 available id hmem =>
    rw [walk_of_not_mem hmem]
    exact List.nodup_nil

theorem start_satisfies (hprevious : ∀ a b, q a → nav.previous a = some b → q b) (hid : q id) :
    q (start nav available id) := by
  induction available, id using start.induct nav with
  | case1 available id hnone =>
    rw [start_of_none hnone]
    exact hid
  | case2 available id before hsome hcond ih =>
    rw [start_of_available hsome hcond]
    exact ih (hprevious id before hid hsome)
  | case3 available id before hsome hcond =>
    rw [start_of_refused hsome hcond]
    exact hid

/-- The chains through some cells: without repetition, of cells that are
available and satisfy `q`, and without a common cell. -/
theorem chainsThrough_spec {minLength : Nat} {ids : List CellId}
    (hprevious : ∀ a b, q a → nav.previous a = some b → q b)
    (hnext : ∀ a b, q a → nav.next a = some b → q b) (havailable : available.Nodup)
    (hids : ∀ id ∈ ids, q id) :
    (∀ chain ∈ chainsThrough nav minLength available ids,
      chain.Nodup ∧ ∀ x ∈ chain, x ∈ available ∧ q x) ∧
      (chainsThrough nav minLength available ids).Pairwise List.Disjoint := by
  induction ids generalizing available with
  | nil => exact ⟨nofun, .nil⟩
  | cons id rest ih =>
    have hrest : ∀ id ∈ rest, q id := fun x hx => hids x (List.mem_cons_of_mem id hx)
    unfold chainsThrough
    dsimp only
    split
    · split
      · exact ih havailable hrest
      · -- The chains after this one are made of the cells that it leaves.
        obtain ⟨hlater, hdisjoint⟩ := ih (havailable.filter _) hrest
        have hmem : ∀ x ∈ through nav available id, x ∈ available ∧ q x :=
          mem_walk hnext (start_satisfies hprevious (hids id List.mem_cons_self))
        refine ⟨?_, List.pairwise_cons.mpr ⟨?_, hdisjoint⟩⟩
        · intro chain hchain
          rcases List.mem_cons.mp hchain with rfl | hchain
          · exact ⟨nodup_walk havailable, hmem⟩
          · obtain ⟨hnodup, hx⟩ := hlater chain hchain
            exact ⟨hnodup, fun x hxc => ⟨(List.mem_filter.mp (hx x hxc).1).1, (hx x hxc).2⟩⟩
        · intro chain hchain x hfirst hx
          have hleft := (List.mem_filter.mp ((hlater chain hchain).2 x hx).1).2
          simp [hfirst] at hleft
    · exact ih havailable hrest

/-! ## Chains of a netlist -/

variable {nl : Netlist} {chainIn chainOut : Ident} {p : Cell → Bool}

/-- A live cell that satisfies `p`. -/
def Satisfies (nl : Netlist) (p : Cell → Bool) (id : CellId) : Prop :=
  ∃ c, nl.cell? id = some c ∧ p c = true

theorem satisfies_previous {a b : CellId}
    (h : (carryNavigation nl chainIn chainOut p).previous a = some b) : Satisfies nl p b := by
  obtain ⟨k, -, hdriven⟩ := Option.bind_eq_some_iff.mp h
  obtain ⟨n, -, hdriven⟩ := Option.bind_eq_some_iff.mp hdriven
  obtain ⟨r, -, hdriven⟩ := Option.bind_eq_some_iff.mp hdriven
  obtain ⟨c, hc, hdriven⟩ := Option.bind_eq_some_iff.mp hdriven
  split at hdriven
  · next hcond =>
    obtain rfl := Option.some.inj hdriven
    exact ⟨c, hc, hcond.2⟩
  · cases hdriven

theorem satisfies_next {a b : CellId}
    (h : (carryNavigation nl chainIn chainOut p).next a = some b) : Satisfies nl p b := by
  obtain ⟨k, -, hreader⟩ := Option.bind_eq_some_iff.mp h
  obtain ⟨n, -, hreader⟩ := Option.bind_eq_some_iff.mp hreader
  obtain ⟨sink, hsink, hreader⟩ := Option.bind_eq_some_iff.mp hreader
  obtain rfl := Option.some.inj hreader
  have hfound := List.find?_some hsink
  simp only [Bool.and_eq_true, Option.any_eq_true] at hfound
  obtain ⟨-, c, hc, hp⟩ := hfound
  exact ⟨c, hc, hp⟩

theorem satisfies_of_mem_candidates {id : CellId} (h : id ∈ candidates nl p) :
    Satisfies nl p id := by
  obtain ⟨⟨id', c⟩, hentry, rfl⟩ := List.mem_map.mp h
  obtain ⟨hmem, hp⟩ := List.mem_filter.mp hentry
  exact ⟨c, (nl.cells.mem_entries id' c).mp hmem, hp⟩

/-- Whatever the navigation, chains have no cell twice, share no cell, and consist of live cells. -/
theorem find_disjoint (nl : Netlist) (p : Cell → Bool) (nav : Navigation) (minLength : Nat) :
    (∀ chain ∈ find nl p nav minLength, chain.Nodup ∧ ∀ x ∈ chain, x ∈ nl.cellIds) ∧
      (find nl p nav minLength).Pairwise List.Disjoint := by
  obtain ⟨hchains, hdisjoint⟩ := @chainsThrough_spec nav (fun _ => True) nl.cellIds minLength
    (candidates nl p) (fun _ _ _ _ => trivial) (fun _ _ _ _ => trivial) nl.cells.nodup_ids
    fun _ _ => trivial
  exact ⟨fun chain h => ⟨(hchains chain h).1, fun x hx => ((hchains chain h).2 x hx).1⟩, hdisjoint⟩

/-- Discovered chains have no cell twice, share no cell, and consist of live cells
that satisfy the predicate. -/
theorem find_spec {minLength : Nat} :
    (∀ chain ∈ find nl p (carryNavigation nl chainIn chainOut p) minLength,
      chain.Nodup ∧ ∀ x ∈ chain, Satisfies nl p x) ∧
      (find nl p (carryNavigation nl chainIn chainOut p) minLength).Pairwise List.Disjoint := by
  obtain ⟨hchains, hdisjoint⟩ := @chainsThrough_spec (carryNavigation nl chainIn chainOut p)
    (Satisfies nl p) nl.cellIds minLength (candidates nl p) (fun _ _ _ h => satisfies_previous h)
    (fun _ _ _ h => satisfies_next h) nl.cells.nodup_ids fun _ h => satisfies_of_mem_candidates h
  exact ⟨fun chain h => ⟨(hchains chain h).1, fun x hx => ((hchains chain h).2 x hx).2⟩, hdisjoint⟩

end Chain
end FpgaPacking
