import FpgaPacking.Proofs.Chain.Found
import Mathlib.Logic.Relation
import Mathlib.Data.Set.Card

/-!
# Chains are the components of a partial bijection

A navigation that only goes forward along a relation, and back along it, makes
that relation a partial bijection of cells: its components are paths and cycles.
A walk that has the whole component of a cell available lists it, from the start
of a path or from the cell after the given one round a cycle.  Discovery uses up
whole components, so every component is available or used up as a whole, and the
cell through which it is found first is the earliest of its cells.
-/

namespace FpgaPacking
namespace Chain

open Relation (ReflTransGen EqvGen)

/-- The navigation goes forward and back along `leads`, on cells that satisfy `q`. -/
structure Navigates (nav : Navigation) (q : CellId → Prop) (leads : CellId → CellId → Prop) :
    Prop where
  next_iff : ∀ a b, leads a b ↔ q a ∧ nav.next a = some b
  previous : ∀ a b, leads a b → nav.previous b = some a
  next_mem : ∀ a b, nav.next a = some b → q b
  previous_mem : ∀ a b, nav.previous b = some a → q a

variable {nav : Navigation} {q : CellId → Prop} {leads : CellId → CellId → Prop}
  {available rest : List CellId} {id a b c d : CellId} {chain : List CellId} {minLength : Nat}

namespace Navigates

theorem functional (h : Navigates nav q leads) (hb : leads a b) (hc : leads a c) : b = c := by
  have hnextb := ((h.next_iff a b).mp hb).2
  have hnextc := ((h.next_iff a c).mp hc).2
  exact Option.some.inj (hnextb.symm.trans hnextc)

theorem injective (h : Navigates nav q leads) (ha : leads a c) (hb : leads b c) : a = b :=
  Option.some.inj ((h.previous a c ha).symm.trans (h.previous b c hb))

theorem target (h : Navigates nav q leads) (hab : leads a b) : q b :=
  h.next_mem a b ((h.next_iff a b).mp hab).2

/-! ## Walking back -/

/-- The start from which the walk back arrives: it leads to `last`, and nothing
leads to it unless `last` does.  What is not available is `last` or leads to
something that is not available either, other than the cell the walk is at. -/
theorem start_spec (h : Navigates nav q leads) (last : CellId) {C : CellId → Prop}
    (hback : ∀ d c, leads d c → C c → C d) (hnodup : available.Nodup) (hid : C id)
    (hmem : id ∉ available) (hreach : ReflTransGen leads id last)
    (hused : ∀ d, C d → d ∉ available →
      d = last ∨ ∃ c, leads d c ∧ c ∉ available ∧ c ≠ id) :
    ReflTransGen leads (start nav available id) last ∧
      ∀ d, leads d (start nav available id) → d = last := by
  induction available, id using start.induct nav with
  | case1 available id hnone =>
    rw [start_of_none hnone]
    refine ⟨hreach, fun d hd => ?_⟩
    have hprevious := h.previous d id hd
    rw [hnone] at hprevious
    cases hprevious
  | case2 available id before hsome hcond ih =>
    rw [start_of_available hsome hcond]
    have hbefore : leads before id :=
      (h.next_iff before id).mpr ⟨h.previous_mem before id hsome, hcond.2⟩
    refine ih (hnodup.erase before) (hback before id hbefore hid) hnodup.not_mem_erase
      (.head hbefore hreach) fun d hd hleft => ?_
    by_cases hsame : d = before
    · subst hsame
      refine Or.inr ⟨id, hbefore, fun hin => hmem (List.mem_of_mem_erase hin), ?_⟩
      rintro rfl
      exact hmem hcond.1
    · have hgone : d ∉ available := fun hin => hleft ((List.mem_erase_of_ne hsame).mpr hin)
      rcases hused d hd hgone with rfl | ⟨c, hdc, hc, -⟩
      · exact Or.inl rfl
      · refine Or.inr ⟨c, hdc, fun hin => hc (List.mem_of_mem_erase hin), ?_⟩
        rintro rfl
        exact hc hcond.1
  | case3 available id before hsome hcond =>
    rw [start_of_refused hsome hcond]
    refine ⟨hreach, fun d hd => ?_⟩
    obtain rfl : before = d := Option.some.inj (hsome.symm.trans (h.previous d id hd))
    have hgone : before ∉ available := fun hin => hcond ⟨hin, ((h.next_iff before id).mp hd).2⟩
    rcases hused before (hback before id hd hid) hgone with rfl | ⟨c, hc, -, hne⟩
    · rfl
    · exact absurd (h.functional hc hd) hne

end Navigates

/-! ## Walking on -/

/-- The walk lists cells that lead to one another, up to one that leads nowhere,
back into the walk or to a cell that is not available. -/
theorem walk_spec (hnext : ∀ a b, leads a b ↔ q a ∧ nav.next a = some b)
    (hq : ∀ a b, nav.next a = some b → q b) (hmem : id ∈ available) (hid : q id) :
    ∃ later, walk nav available id = id :: later ∧ (id :: later).IsChain leads ∧
      ∀ last, (id :: later).getLast? = some last → ∀ c, leads last c →
        c ∈ id :: later ∨ c ∉ available := by
  induction available, id using walk.induct nav with
  | case1 available id _ hnone =>
    refine ⟨[], walk_of_none hmem hnone, .singleton id, ?_⟩
    rintro _ ⟨⟩ c hc
    rw [((hnext id c).mp hc).2] at hnone
    cases hnone
  | case2 available id _ after hsome ih =>
    have hwalk := walk_of_some hmem hsome
    have hafter : leads id after := (hnext id after).mpr ⟨hid, hsome⟩
    by_cases hleft : after ∈ available.erase id
    · obtain ⟨later, hlater, hchain, hend⟩ := ih hleft (hq id after hsome)
      refine ⟨after :: later, by rw [hwalk, hlater], .cons_cons hafter hchain, ?_⟩
      intro last hlast c hc
      rw [List.getLast?_cons_cons] at hlast
      rcases hend last hlast c hc with hin | hout
      · exact Or.inl (List.mem_cons_of_mem id hin)
      · by_cases hsame : c = id
        · exact Or.inl (hsame ▸ List.mem_cons_self)
        · exact Or.inr fun hin => hout ((List.mem_erase_of_ne hsame).mpr hin)
    · refine ⟨[], by rw [hwalk, walk_of_not_mem hleft], .singleton id, ?_⟩
      rintro _ ⟨⟩ c hc
      obtain rfl := Option.some.inj (hsome.symm.trans ((hnext id c).mp hc).2)
      by_cases hsame : after = id
      · exact Or.inl (List.mem_singleton.mpr hsame)
      · exact Or.inr fun hin => hleft ((List.mem_erase_of_ne hsame).mpr hin)
  | case3 available id hnot => exact absurd hmem hnot

/-! ## Paths and cycles -/

/-- The cells that are connected to a cell. -/
def Component (leads : CellId → CellId → Prop) (id : CellId) : Set CellId :=
  {x | EqvGen leads id x}

/-- Nothing leads to the first cell and the last leads nowhere. -/
structure IsPath (leads : CellId → CellId → Prop) (chain : List CellId) : Prop where
  linked : chain.IsChain leads
  first : ∀ a, chain.head? = some a → ∀ d, ¬leads d a
  last : ∀ z, chain.getLast? = some z → ∀ c, ¬leads z c

/-- The last cell leads to the first one. -/
structure IsCycle (leads : CellId → CellId → Prop) (chain : List CellId) : Prop where
  linked : chain.IsChain leads
  closed : ∃ a z, chain.head? = some a ∧ chain.getLast? = some z ∧ leads z a

theorem component_eq (h : b ∈ Component leads a) : Component leads b = Component leads a :=
  Set.ext fun _ => ⟨fun hx => .trans _ _ _ h hx, fun hx => .trans _ _ _ (.symm _ _ h) hx⟩

theorem mem_component_of_reach (h : ReflTransGen leads a b) : b ∈ Component leads a := by
  induction h with
  | refl => exact .refl a
  | tail _ hstep ih => exact .trans _ _ _ ih (.rel _ _ hstep)

theorem reach_of_isChain {later : List CellId} (h : (a :: later).IsChain leads) :
    ∀ x ∈ a :: later, ReflTransGen leads a x := by
  induction later generalizing a with
  | nil =>
    intro x hx
    rw [List.mem_singleton.mp hx]
  | cons b later ih =>
    obtain ⟨hab, hrest⟩ := List.isChain_cons_cons.mp h
    intro x hx
    rcases List.mem_cons.mp hx with rfl | hx
    · rfl
    · exact .head hab (ih hrest x hx)

/-- A member of a chain is its last cell or leads to one after the first. -/
theorem last_or_leads {later : List CellId} (h : (a :: later).IsChain leads) {x : CellId}
    (hx : x ∈ a :: later) : (a :: later).getLast? = some x ∨ ∃ y ∈ later, leads x y := by
  induction later generalizing a with
  | nil => exact Or.inl (congrArg some (List.mem_singleton.mp hx).symm)
  | cons b later ih =>
    obtain ⟨hab, hrest⟩ := List.isChain_cons_cons.mp h
    rcases List.mem_cons.mp hx with rfl | hx
    · exact Or.inr ⟨b, List.mem_cons_self, hab⟩
    · rw [List.getLast?_cons_cons]
      rcases ih hrest hx with hlast | ⟨y, hy, hxy⟩
      · exact Or.inl hlast
      · exact Or.inr ⟨y, List.mem_cons_of_mem b hy, hxy⟩

/-- A member of a chain is its first cell or one before the last leads to it. -/
theorem first_or_led {later : List CellId} (h : (a :: later).IsChain leads) {x : CellId}
    (hx : x ∈ a :: later) : x = a ∨ ∃ y ∈ (a :: later).dropLast, leads y x := by
  induction later generalizing a with
  | nil => exact Or.inl (List.mem_singleton.mp hx)
  | cons b later ih =>
    obtain ⟨hab, hrest⟩ := List.isChain_cons_cons.mp h
    rw [List.dropLast_cons_cons]
    rcases List.mem_cons.mp hx with rfl | hx
    · exact Or.inl rfl
    · rcases ih hrest hx with rfl | ⟨y, hy, hyx⟩
      · exact Or.inr ⟨a, List.mem_cons_self, hab⟩
      · exact Or.inr ⟨y, List.mem_cons_of_mem a hy, hyx⟩

theorem not_mem_dropLast (hnodup : chain.Nodup) (h : chain.getLast? = some a) :
    a ∉ chain.dropLast := by
  obtain ⟨before, rfl⟩ := List.getLast?_eq_some_iff.mp h
  rw [List.dropLast_concat]
  exact fun hin => (List.nodup_append.mp hnodup).2.2 a hin a (List.mem_singleton_self a) rfl

namespace Navigates

/-- A walk closes up at its first cell or not at all. -/
theorem first_of_last (h : Navigates nav q leads) {later : List CellId} {last : CellId}
    (hchain : (a :: later).IsChain leads) (hnodup : (a :: later).Nodup)
    (hlast : (a :: later).getLast? = some last) (hc : leads last c) (hmem : c ∈ a :: later) :
    c = a := by
  rcases first_or_led hchain hmem with hfirst | ⟨y, hy, hyc⟩
  · exact hfirst
  · obtain rfl := h.injective hyc hc
    exact absurd hy (not_mem_dropLast hnodup hlast)

/-- A walk that leads to `id`, leads nowhere at its end but to its first cell, and
to whose first cell nothing leads but `id`, lists the component of `id`. -/
theorem mem_walk_iff (h : Navigates nav q leads) {later : List CellId}
    (hchain : (a :: later).IsChain leads) (hreach : ReflTransGen leads a id)
    (hfirst : ∀ d, leads d a → d = id)
    (hlast : ∀ last, (a :: later).getLast? = some last → ∀ c, leads last c → c = a) (x : CellId) :
    x ∈ a :: later ↔ x ∈ Component leads id := by
  have honward : ∀ x ∈ a :: later, ∀ c, leads x c → c ∈ a :: later := by
    intro x hx c hc
    rcases last_or_leads hchain hx with hxlast | ⟨y, hy, hxy⟩
    · exact hlast x hxlast c hc ▸ List.mem_cons_self
    · exact h.functional hxy hc ▸ List.mem_cons_of_mem a hy
  have hid : id ∈ a :: later := by
    clear hfirst
    induction hreach with
    | refl => exact List.mem_cons_self
    | tail _ hstep ih => exact honward _ ih _ hstep
  have hback : ∀ x ∈ a :: later, ∀ d, leads d x → d ∈ a :: later := by
    intro x hx d hd
    rcases first_or_led hchain hx with rfl | ⟨y, hy, hyx⟩
    · exact hfirst d hd ▸ hid
    · exact h.injective hyx hd ▸ List.dropLast_subset _ hy
  have hclosed : ∀ x y, EqvGen leads x y → (x ∈ a :: later ↔ y ∈ a :: later) := by
    intro x y hxy
    induction hxy with
    | rel x y hxy => exact ⟨fun hx => honward x hx y hxy, fun hy => hback y hy x hxy⟩
    | refl x => exact Iff.rfl
    | symm x y _ ih => exact ih.symm
    | trans x y z _ _ hxy hyz => exact hxy.trans hyz
  refine ⟨fun hx => ?_, fun hx => (hclosed id x hx).mp hid⟩
  rw [component_eq (mem_component_of_reach hreach)]
  exact mem_component_of_reach (reach_of_isChain hchain x hx)

/-- The chain through a cell whose component is available lists the component.  On
a cycle the cell itself comes last. -/
theorem through_spec (h : Navigates nav q leads) (hnodup : available.Nodup) (hid : q id)
    (havailable : ∀ x ∈ Component leads id, x ∈ available) :
    (through nav available id).Nodup ∧
      (∀ x, x ∈ through nav available id ↔ x ∈ Component leads id) ∧
      (IsPath leads (through nav available id) ∨
        IsCycle leads (through nav available id) ∧
          (through nav available id).getLast? = some id) := by
  have hback : ∀ d c, leads d c → c ∈ Component leads id → d ∈ Component leads id :=
    fun d c hdc hc => .trans _ _ _ hc (.symm _ _ (.rel _ _ hdc))
  have hused : ∀ d ∈ Component leads id, d ∉ available.erase id → d = id := by
    intro d hd hgone
    by_contra hne
    exact hgone ((List.mem_erase_of_ne hne).mpr (havailable d hd))
  obtain ⟨hreach, hstart⟩ := h.start_spec id hback (hnodup.erase id) (.refl id)
    hnodup.not_mem_erase .refl fun d hd hgone => Or.inl (hused d hd hgone)
  unfold through
  have hfirst : q (start nav (available.erase id) id) :=
    start_satisfies (fun a b _ => h.previous_mem b a) hid
  generalize start nav (available.erase id) id = first at hreach hstart hfirst
  have hsame := component_eq (mem_component_of_reach hreach)
  have hin : first ∈ available := havailable first (hsame ▸ .refl first)
  obtain ⟨later, hwalk, hchain, hend⟩ := walk_spec h.next_iff h.next_mem hin hfirst
  have hunique : (first :: later).Nodup := hwalk ▸ nodup_walk hnodup
  rw [hwalk]
  -- Where the last cell leads is in the component, so the walk has met it.
  have hlast : ∀ last, (first :: later).getLast? = some last → ∀ c, leads last c → c = first := by
    intro last hlast c hc
    have hmem : last ∈ Component leads id := by
      rw [hsame]
      exact mem_component_of_reach (reach_of_isChain hchain last (List.mem_of_getLast? hlast))
    refine h.first_of_last hchain hunique hlast hc ((hend last hlast c hc).resolve_right ?_)
    exact fun hout => hout (havailable c (.trans _ _ _ hmem (.rel _ _ hc)))
  have hmem := h.mem_walk_iff hchain hreach hstart hlast
  refine ⟨hunique, hmem, ?_⟩
  by_cases hled : ∃ d, leads d first
  · obtain ⟨d, hd⟩ := hled
    obtain rfl := hstart d hd
    have hdlast : (first :: later).getLast? = some d := by
      rcases last_or_leads hchain ((hmem d).mpr (.refl d)) with hdlast | ⟨y, hy, hdy⟩
      · exact hdlast
      · obtain rfl := h.functional hdy hd
        exact absurd hy (List.nodup_cons.mp hunique).1
    exact Or.inr ⟨⟨hchain, first, d, rfl, hdlast, hd⟩, hdlast⟩
  · refine Or.inl ⟨hchain, ?_, fun last hz c hc => hled ⟨last, hlast last hz c hc ▸ hc⟩⟩
    rintro _ ⟨⟩ d hd
    exact hled ⟨d, hd⟩

/-! ## Discovery -/

theorem satisfies_iff (h : Navigates nav q leads) (hab : EqvGen leads a b) : q a ↔ q b := by
  induction hab with
  | rel a b hab => exact ⟨fun _ => h.target hab, fun _ => ((h.next_iff a b).mp hab).1⟩
  | refl a => exact Iff.rfl
  | symm a b _ ih => exact ih.symm
  | trans a b c _ _ hab hbc => exact hab.trans hbc

end Navigates

/-- A chain is found of each component of available cells with at least `minLength`
cells, and of no other, in the order of their earliest cells. -/
structure Finds (q : CellId → Prop) (leads : CellId → CellId → Prop) (minLength : Nat)
    (available : List CellId) (chains : List (List CellId)) : Prop where
  nodup : ∀ chain ∈ chains, chain.Nodup
  component : ∀ chain ∈ chains, ∃ x ∈ available, q x ∧ ∀ y, y ∈ chain ↔ y ∈ Component leads x
  shape : ∀ chain ∈ chains, IsPath leads chain ∨ IsCycle leads chain ∧
    ∃ last, chain.getLast? = some last ∧ ∀ x ∈ chain, last.index ≤ x.index
  long : ∀ chain ∈ chains, minLength ≤ chain.length
  complete : ∀ x ∈ available, q x → (minLength : ENat) ≤ (Component leads x).encard →
    ∃ chain ∈ chains, x ∈ chain
  ordered : chains.Pairwise fun a b => ∃ x ∈ a, ∀ y ∈ b, x.index < y.index

theorem encard_eq_length {s : Set CellId} (hnodup : chain.Nodup) (h : ∀ x, x ∈ chain ↔ x ∈ s) :
    s.encard = chain.length := by
  have hset : s = ↑chain.toFinset := by
    ext x
    simp [h x]
  rw [hset, Set.encard_coe_eq_coe_finsetCard, List.toFinset_card_of_nodup hnodup]

/-- What is available is so with its component, and of the available cells in large
components all are still to be visited. -/
structure ToVisit (q : CellId → Prop) (leads : CellId → CellId → Prop) (minLength : Nat)
    (available rest : List CellId) : Prop where
  nodup : available.Nodup
  whole : ∀ x ∈ available, q x → ∀ y ∈ Component leads x, y ∈ available
  satisfies : ∀ x ∈ rest, q x
  sorted : rest.Pairwise fun a b => a.index < b.index
  visits : ∀ x ∈ available, q x → (minLength : ENat) ≤ (Component leads x).encard → x ∈ rest

namespace ToVisit

variable (h : ToVisit q leads minLength available (id :: rest))
include h

/-- A visit that leaves all cells available was to a small component. -/
theorem skip (hshort : id ∈ available → ¬(minLength : ENat) ≤ (Component leads id).encard) :
    ToVisit q leads minLength available rest where
  nodup := h.nodup
  whole := h.whole
  satisfies x hx := h.satisfies x (List.mem_cons_of_mem id hx)
  sorted := (List.pairwise_cons.mp h.sorted).2
  visits x hx hq hlong := by
    rcases List.mem_cons.mp (h.visits x hx hq hlong) with rfl | hin
    · exact absurd hlong (hshort hx)
    · exact hin

variable (hmem : ∀ x, x ∈ chain ↔ x ∈ Component leads id)
include hmem

/-- Using up a component leaves the others whole. -/
theorem take : ToVisit q leads minLength (available.filter fun c => c ∉ chain) rest where
  nodup := h.nodup.filter _
  whole x hx hq y hy := by
    obtain ⟨hin, hout⟩ := List.mem_filter.mp hx
    refine List.mem_filter.mpr ⟨h.whole x hin hq y hy, decide_eq_true fun hychain => ?_⟩
    have hxid : x ∈ Component leads id :=
      .trans _ _ _ ((hmem y).mp hychain) (.symm _ _ hy)
    exact of_decide_eq_true hout ((hmem x).mpr hxid)
  satisfies x hx := h.satisfies x (List.mem_cons_of_mem id hx)
  sorted := (List.pairwise_cons.mp h.sorted).2
  visits x hx hq hlong := by
    obtain ⟨hin, hout⟩ := List.mem_filter.mp hx
    rcases List.mem_cons.mp (h.visits x hin hq hlong) with rfl | hrest
    · exact absurd ((hmem x).mpr (.refl x)) (of_decide_eq_true hout)
    · exact hrest

/-- The first visit of a large component is to its earliest cell. -/
theorem earliest (hin : id ∈ available) (hsame : ∀ x ∈ Component leads id, q x)
    (hlong : (minLength : ENat) ≤ (Component leads id).encard) :
    ∀ x ∈ chain, id.index ≤ x.index := by
  intro x hx
  have hxid := (hmem x).mp hx
  have hxin := h.whole id hin (hsame id (.refl id)) x hxid
  have hvisited := h.visits x hxin (hsame x hxid) (component_eq hxid ▸ hlong)
  rcases List.mem_cons.mp hvisited with rfl | hrest
  · exact Nat.le_refl _
  · exact Nat.le_of_lt ((List.pairwise_cons.mp h.sorted).1 x hrest)

end ToVisit

theorem finds_chainsThrough (h : Navigates nav q leads)
    (hvisit : ToVisit q leads minLength available rest) :
    Finds q leads minLength available (chainsThrough nav minLength available rest) := by
  induction rest generalizing available with
  | nil =>
    refine ⟨nofun, nofun, nofun, nofun, fun x hx hq hlong => ?_, .nil⟩
    cases hvisit.visits x hx hq hlong
  | cons id rest ih =>
    have hid := hvisit.satisfies id List.mem_cons_self
    unfold chainsThrough
    dsimp only
    by_cases hin : id ∈ available
    · rw [if_pos hin]
      obtain ⟨hunique, hmem, hshape⟩ :=
        h.through_spec hvisit.nodup hid (hvisit.whole id hin hid)
      generalize through nav available id = chain at hunique hmem hshape
      have hsize := encard_eq_length hunique hmem
      have hself : id ∈ chain := (hmem id).mpr (.refl id)
      have hne : chain.isEmpty = false := by
        rw [List.isEmpty_eq_false_iff]
        exact List.ne_nil_of_mem hself
      rw [hne, Bool.false_or]
      by_cases hlong : chain.length < minLength
      · rw [if_pos (decide_eq_true hlong)]
        refine ih (hvisit.skip fun _ hle => ?_)
        rw [hsize, Nat.cast_le] at hle
        omega
      rw [if_neg (by simpa using hlong)]
      have hlater := ih (hvisit.take hmem)
      have hlarge : (minLength : ENat) ≤ (Component leads id).encard := by
        rw [hsize, Nat.cast_le]
        omega
      have hsame : ∀ x ∈ Component leads id, q x := fun x hx => (h.satisfies_iff hx).mp hid
      have hearliest := hvisit.earliest hmem hin hsame hlarge
      refine ⟨?_, ?_, ?_, ?_, fun x hx hq hxlong => ?_, ?_⟩
      · exact List.forall_mem_cons.mpr ⟨hunique, hlater.nodup⟩
      · refine List.forall_mem_cons.mpr ⟨⟨id, hin, hid, hmem⟩, fun other hother => ?_⟩
        obtain ⟨x, hx, hq, hxmem⟩ := hlater.component other hother
        exact ⟨x, (List.mem_filter.mp hx).1, hq, hxmem⟩
      · refine List.forall_mem_cons.mpr ⟨?_, hlater.shape⟩
        rcases hshape with hpath | ⟨hcycle, hlast⟩
        · exact Or.inl hpath
        · exact Or.inr ⟨hcycle, id, hlast, hearliest⟩
      · exact List.forall_mem_cons.mpr ⟨by omega, hlater.long⟩
      · by_cases hxchain : x ∈ chain
        · exact ⟨chain, List.mem_cons_self, hxchain⟩
        · obtain ⟨other, hother, hxother⟩ :=
            hlater.complete x (List.mem_filter.mpr ⟨hx, decide_eq_true hxchain⟩) hq hxlong
          exact ⟨other, List.mem_cons_of_mem chain hother, hxother⟩
      · refine List.pairwise_cons.mpr ⟨fun other hother => ⟨id, hself, fun y hy => ?_⟩,
          hlater.ordered⟩
        -- The cells of a chain found later are still to be visited.
        obtain ⟨x, hx, hq, hxmem⟩ := hlater.component other hother
        have hy' := (hxmem y).mp hy
        have hyin := (hvisit.take hmem).whole x hx hq y hy'
        have hylong : (minLength : ENat) ≤ (Component leads y).encard := by
          rw [component_eq hy', encard_eq_length (hlater.nodup other hother) hxmem, Nat.cast_le]
          exact hlater.long other hother
        have hyrest := (hvisit.take hmem).visits y hyin ((h.satisfies_iff hy').mp hq) hylong
        exact (List.pairwise_cons.mp hvisit.sorted).1 y hyrest
    · rw [if_neg hin]
      exact ih (hvisit.skip fun h => absurd h hin)

end Chain
end FpgaPacking
