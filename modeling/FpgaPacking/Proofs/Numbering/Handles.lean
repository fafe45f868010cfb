import FpgaPacking.Proofs.Netlist.Wiring
import FpgaPacking.Proofs.Numbering.Alike

/-!
# Netlists that differ in their handles

A handle is never used twice, so a netlist from which objects have been removed
numbers the others with gaps.  A `Renumbering` says which handle of one netlist
stands for which of another.  It keeps the order of creation, and so the live
objects of the two are paired one by one in the order in which they are listed.

What two cells or nets refer to by handle must be paired as well, unless it is gone
in both netlists.  Identifiers may differ at the same time, by a `Renaming`.
-/

namespace FpgaPacking

/-- Which handles stand for which, in the same order. -/
structure Renumbering (k : Kind) where
  Holds : Id k → Id k → Prop
  ordered : ∀ {i j i' j'}, Holds i i' → Holds j j' → (i'.index < j'.index ↔ i.index < j.index)

namespace Renumbering

variable {k : Kind} {H : Renumbering k} {i j i' j' : Id k}

instance : CoeFun (Renumbering k) fun _ => Id k → Id k → Prop := ⟨Holds⟩

/-- Each handle stands for itself. -/
def same (k : Kind) : Renumbering k where
  Holds := Eq
  ordered := by
    rintro i j _ _ rfl rfl
    rfl

/-- Handles that are listed in pairs, in their order. -/
def ofPairs (pairs : List (Id k × Id k))
    (h : pairs.Pairwise fun p q => p.1.index < q.1.index ∧ p.2.index < q.2.index) : Renumbering k where
  Holds i i' := (i, i') ∈ pairs
  ordered {i j i' j'} hi hj := by
    induction pairs with
    | nil => cases hi
    | cons p pairs ih =>
      obtain ⟨hfirst, hrest⟩ := List.pairwise_cons.mp h
      rw [List.mem_cons] at hi hj
      rcases hi with rfl | hi
      · rcases hj with heq | hj
        · obtain ⟨rfl, rfl⟩ := Prod.mk.inj heq
          simp
        · have hlt := hfirst _ hj
          exact iff_of_true hlt.2 hlt.1
      · rcases hj with rfl | hj
        · have hlt := hfirst _ hi
          exact iff_of_false (Nat.lt_asymm hlt.2) (Nat.lt_asymm hlt.1)
        · exact ih hrest hi hj

theorem right_unique (h : H i i') (h' : H i j') : i' = j' := by
  have hlt := H.ordered h h'
  have hgt := H.ordered h' h
  have hindex : i'.index = j'.index := by omega
  cases i'
  exact congrArg Id.mk hindex

theorem left_unique (h : H i i') (h' : H j i') : i = j := by
  have hlt := H.ordered h h'
  have hgt := H.ordered h' h
  have hindex : i.index = j.index := by omega
  cases i
  exact congrArg Id.mk hindex

end Renumbering

/-! ## Arenas -/

namespace Arena

variable {k : Kind} {α β : Type} {H : Renumbering k} {V : α → β → Prop} {a : Arena k α} {b : Arena k β}
  {id id' : Id k}

/-- Arenas that hold related objects under the handles that stand for each other. -/
structure Renumbered (H : Renumbering k) (V : α → β → Prop) (a : Arena k α) (b : Arena k β) : Prop where
  forth : ∀ id item, a.get? id = some item →
    ∃ id' item', H id id' ∧ V item item' ∧ b.get? id' = some item'
  back : ∀ id', (b.get? id').isSome → ∃ id, H id id' ∧ (a.get? id).isSome

/-- The handles stand for each other, or both refer to nothing. -/
def Meets (H : Renumbering k) (a : Arena k α) (b : Arena k β) (id id' : Id k) : Prop :=
  H id id' ∨ a.get? id = none ∧ b.get? id' = none

namespace Renumbered

theorem get? (h : a.Renumbered H V b) (hid : H id id') : Option.Rel V (a.get? id) (b.get? id') := by
  cases hitem : a.get? id with
  | some item =>
    obtain ⟨other, item', hother, hV, hitem'⟩ := h.forth id item hitem
    rw [H.right_unique hid hother, hitem']
    exact .some hV
  | none =>
    cases hitem' : b.get? id' with
    | none => exact .none
    | some item' =>
      obtain ⟨other, hother, hlive⟩ := h.back id' (by rw [hitem']; rfl)
      rw [← H.left_unique hid hother, hitem] at hlive
      cases hlive

theorem get?_of_meets (h : a.Renumbered H V b) (hid : a.Meets H b id id') :
    Option.Rel V (a.get? id) (b.get? id') := by
  rcases hid with hid | ⟨hnone, hnone'⟩
  · exact h.get? hid
  · rw [hnone, hnone']
    exact .none

end Renumbered

/-- Lists in which partners come in the same order are paired item by item. -/
theorem forall₂_of_ordered {P : Id k × α → Id k × β → Prop} {l : List (Id k × α)} {l' : List (Id k × β)}
    (hl : l.Pairwise fun e f => e.1.index < f.1.index)
    (hl' : l'.Pairwise fun e f => e.1.index < f.1.index)
    (hordered : ∀ e e' f f', P e e' → P f f' → (e'.1.index < f'.1.index ↔ e.1.index < f.1.index))
    (forth : ∀ e ∈ l, ∃ e' ∈ l', P e e') (back : ∀ e' ∈ l', ∃ e ∈ l, P e e') :
    List.Forall₂ P l l' := by
  induction l generalizing l' with
  | nil =>
    cases l' with
    | nil => exact .nil
    | cons e' l' =>
      obtain ⟨e, he, -⟩ := back e' List.mem_cons_self
      cases he
  | cons e l ih =>
    obtain ⟨hfirst, hl⟩ := List.pairwise_cons.mp hl
    obtain ⟨e', he', hpair⟩ := forth e List.mem_cons_self
    cases l' with
    | nil => cases he'
    | cons f' l' =>
      obtain ⟨hfirst', hl'⟩ := List.pairwise_cons.mp hl'
      -- The partner of the first item is the first: what came before it would have a partner, too.
      have hhead : P e f' := by
        rcases List.mem_cons.mp he' with rfl | he'
        · exact hpair
        · obtain ⟨f, hf, hpair'⟩ := back f' List.mem_cons_self
          have hlt := (hordered f f' e e' hpair' hpair).mp (hfirst' e' he')
          rcases List.mem_cons.mp hf with rfl | hf
          · exact absurd hlt (Nat.lt_irrefl _)
          · exact absurd (hfirst f hf) (Nat.lt_asymm hlt)
      refine .cons hhead (ih hl hl' (fun g hg => ?_) fun g' hg' => ?_)
      · obtain ⟨g', hg', hpair'⟩ := forth g (List.mem_cons_of_mem _ hg)
        have hlt := (hordered e f' g g' hhead hpair').mpr (hfirst g hg)
        rcases List.mem_cons.mp hg' with rfl | hg'
        · exact absurd hlt (Nat.lt_irrefl _)
        · exact ⟨g', hg', hpair'⟩
      · obtain ⟨g, hg, hpair'⟩ := back g' (List.mem_cons_of_mem _ hg')
        have hlt := (hordered e f' g g' hhead hpair').mp (hfirst' g' hg')
        rcases List.mem_cons.mp hg with rfl | hg
        · exact absurd hlt (Nat.lt_irrefl _)
        · exact ⟨g, hg, hpair'⟩

/-- The objects are listed in the same order. -/
theorem Renumbered.entries (h : a.Renumbered H V b) :
    List.Forall₂ (fun e e' => H e.1 e'.1 ∧ V e.2 e'.2) a.entries b.entries := by
  have hsorted : ∀ {γ : Type} (arena : Arena k γ),
      arena.entries.Pairwise fun e f => e.1.index < f.1.index := fun arena => by
    have hids := arena.pairwise_ids
    rwa [ids, List.pairwise_map] at hids
  refine forall₂_of_ordered (hsorted a) (hsorted b) (fun _ _ _ _ he hf => H.ordered he.1 hf.1) ?_ ?_
  · rintro ⟨id, item⟩ hentry
    obtain ⟨id', item', hid, hV, hitem'⟩ := h.forth id item ((a.mem_entries id item).mp hentry)
    exact ⟨(id', item'), (b.mem_entries id' item').mpr hitem', hid, hV⟩
  · rintro ⟨id', item'⟩ hentry
    have hitem' := (b.mem_entries id' item').mp hentry
    obtain ⟨id, hid, hlive⟩ := h.back id' (by rw [hitem']; rfl)
    obtain ⟨item, hitem⟩ := Option.isSome_iff_exists.mp hlive
    have hrel := h.get? hid
    rw [hitem, hitem'] at hrel
    cases hrel with
    | some hV => exact ⟨(id, item), (a.mem_entries id item).mpr hitem, hid, hV⟩

/-- Arenas that list related objects under handles that stand for each other. -/
theorem renumbered_of_entries
    (h : List.Forall₂ (fun e e' => H e.1 e'.1 ∧ V e.2 e'.2) a.entries b.entries) : a.Renumbered H V b := by
  obtain ⟨hlength, hpairs⟩ := List.forall₂_iff_get.mp h
  constructor
  · intro id item hitem
    obtain ⟨i, hi, hentry⟩ := List.mem_iff_getElem.mp ((a.mem_entries id item).mpr hitem)
    have hi' : i < b.entries.length := hlength ▸ hi
    have hpair := hpairs i hi hi'
    simp only [List.get_eq_getElem, hentry] at hpair
    exact ⟨_, _, hpair.1, hpair.2, (b.mem_entries _ _).mp (List.getElem_mem hi')⟩
  · intro id' hlive
    obtain ⟨item', hitem'⟩ := Option.isSome_iff_exists.mp hlive
    obtain ⟨i, hi', hentry⟩ := List.mem_iff_getElem.mp ((b.mem_entries id' item').mpr hitem')
    have hi : i < a.entries.length := hlength.symm ▸ hi'
    have hpair := hpairs i hi hi'
    simp only [List.get_eq_getElem, hentry] at hpair
    exact ⟨_, hpair.1, Option.isSome_iff_exists.mpr ⟨_, (a.mem_entries _ _).mp (List.getElem_mem hi)⟩⟩

/-- Related objects under the same handles. -/
theorem renumbered_same (h : ∀ id, Option.Rel V (a.get? id) (b.get? id)) :
    a.Renumbered (.same k) V b where
  forth id item hitem := by
    have hrel := h id
    rw [hitem] at hrel
    generalize hitem' : b.get? id = found at hrel
    cases hrel with
    | some hV => exact ⟨id, _, rfl, hV, hitem'⟩
  back id hlive := by
    obtain ⟨item', hitem'⟩ := Option.isSome_iff_exists.mp hlive
    have hrel := h id
    rw [hitem'] at hrel
    generalize hitem : a.get? id = found at hrel
    cases hrel with
    | some hV => exact ⟨id, rfl, by rw [hitem]; rfl⟩

end Arena

/-! ## Cells and nets -/

variable {R : Renaming} {C : CellId → CellId → Prop} {N : NetId → NetId → Prop}

/-- Ports that differ in the numbers of their name and their net only. -/
structure Port.Renumbered (R : Renaming) (N : NetId → NetId → Prop) (p p' : Port) : Prop where
  name : R p.name p'.name
  direction : p'.direction = p.direction
  net : Option.Rel N p.net p'.net

/-- Memberships of the same place in clusters of the same cells. -/
structure Membership.Renumbered (C : CellId → CellId → Prop) (m m' : Membership) : Prop where
  root : Option.Rel C m.root m'.root
  offset : m'.offset = m.offset
  children : List.Forall₂ C m.children m'.children

/-- Cells that differ in the numbers of names, cells and nets only. -/
structure Cell.Renumbered (R : Renaming) (C : CellId → CellId → Prop) (N : NetId → NetId → Prop)
    (c c' : Cell) : Prop where
  name : c'.name = c.name
  cellType : R c.cellType c'.cellType
  ports : List.Forall₂ (Port.Renumbered R N) c.ports c'.ports
  params : c.params.Alike R Eq c'.params
  attrs : c.attrs.Alike R Eq c'.attrs
  bel : Option.Rel R.Holds c.bel c'.bel
  role : c'.role = c.role
  cluster : c.cluster.Renumbered C c'.cluster

/-- References to the same port. -/
structure PortRef.Renumbered (R : Renaming) (C : CellId → CellId → Prop) (r r' : PortRef) : Prop where
  cell : C r.cell r'.cell
  port : R r.port r'.port

/-- Nets that differ in the numbers of names and cells only. -/
structure Net.Renumbered (R : Renaming) (C : CellId → CellId → Prop) (n n' : Net) : Prop where
  name : n'.name = n.name
  driver : Option.Rel (PortRef.Renumbered R C) n.driver n'.driver
  sinks : List.Forall₂ (PortRef.Renumbered R C) n.sinks n'.sinks
  constant : n'.constant = n.constant

/-! What has the same handles is renumbered if each handle meets itself. -/

section

variable (hC : ∀ id, C id id)
include hC

theorem Membership.renumbered_self (m : Membership) : m.Renumbered C m where
  root := by
    cases m.root with
    | none => exact .none
    | some root => exact .some (hC root)
  offset := rfl
  children := List.forall₂_same.mpr fun id _ => hC id

theorem PortRef.Alike.renumbered {r r' : PortRef} (h : r.Alike R r') : r.Renumbered R C r' :=
  ⟨h.cell ▸ hC r.cell, h.port⟩

theorem Net.Alike.renumbered {n n' : Net} (h : n.Alike R n') : n.Renumbered R C n' where
  name := h.name
  driver := option_rel_imp (fun _ _ hr => hr.renumbered hC) h.driver
  sinks := h.sinks.imp fun _ _ hr => hr.renumbered hC
  constant := h.constant

theorem Cell.Alike.renumbered (hN : ∀ k, N k k) {c c' : Cell} (h : c.Alike R c') :
    c.Renumbered R C N c' where
  name := h.name
  cellType := h.cellType
  ports := h.ports.imp fun p p' hp => by
    refine ⟨hp.name, hp.direction, ?_⟩
    rw [hp.net]
    cases p.net with
    | none => exact .none
    | some k => exact .some (hN k)
  params := h.params
  attrs := h.attrs
  bel := h.bel
  role := h.role
  cluster := h.cluster ▸ Membership.renumbered_self hC c.cluster

end

/-! ## Netlists -/

namespace Netlist

/-- Netlists with the same live cells and nets in the same order, up to the numbers of names, cells and
nets. -/
structure Renumbered (R : Renaming) (C : Renumbering .cell) (N : Renumbering .net) (nl nl' : Netlist) :
    Prop where
  cells : nl.cells.Renumbered C
    (Cell.Renumbered R (nl.cells.Meets C nl'.cells) (nl.nets.Meets N nl'.nets)) nl'.cells
  nets : nl.nets.Renumbered N (Net.Renumbered R (nl.cells.Meets C nl'.cells)) nl'.nets

/-- Netlists that differ in the numbering of names only have the same handles. -/
theorem Alike.renumbered {nl nl' : Netlist} (h : nl.Alike R nl') :
    nl.Renumbered R (.same .cell) (.same .net) nl' where
  cells := Arena.renumbered_same fun id =>
    option_rel_imp (fun _ _ hc => hc.renumbered (fun _ => .inl rfl) fun _ => .inl rfl) (h.cell? id)
  nets := Arena.renumbered_same fun k =>
    option_rel_imp (fun _ _ hn => hn.renumbered fun _ => .inl rfl) (h.net? k)

end Netlist
end FpgaPacking
