import FpgaPacking.Netlist.Basic
import FpgaPacking.Proofs.Arena.Contents
import Mathlib.Data.List.Forall2
import Mathlib.Data.List.Nodup
import Mathlib.Order.Defs.PartialOrder

/-!
# Netlists that differ in numbering only

An identifier is a number, and the number depends on the moment at which its name
was entered into its table.  Two tables number the same names differently, and
either may hold names that the other one lacks.  A `Renaming` says which
identifier of the one stands for which of the other.

Netlists are alike under a renaming if they agree in everything but their
identifiers, and the identifiers stand for each other.  Ports, nets and handles
then come in the same order in both.  The parameters and attributes of a cell do
not, because their tables are ordered by number.  What a netlist answers when it
is asked for an identifier, the other one answers for the identifier's partner.
-/

namespace FpgaPacking

/-- Which identifiers stand for which.  None has two partners. -/
structure Renaming where
  Holds : Ident → Ident → Prop
  left_unique : ∀ {i j k}, Holds i k → Holds j k → i = j
  right_unique : ∀ {i j k}, Holds i j → Holds i k → j = k

namespace Renaming

instance : CoeFun Renaming fun _ => Ident → Ident → Prop := ⟨Holds⟩

/-- A greater renaming has more pairs. -/
instance : Preorder Renaming where
  le R S := ∀ i j, R i j → S i j
  le_refl _ _ _ h := h
  le_trans _ _ _ h h' i j hij := h' i j (h i j hij)

/-- The renaming seen from the other side. -/
def symm (R : Renaming) : Renaming where
  Holds i j := R j i
  left_unique hi hj := R.right_unique hi hj
  right_unique hj hk := R.left_unique hj hk

theorem symm_le_symm {R S : Renaming} (h : R ≤ S) : R.symm ≤ S.symm := fun i j hij => h j i hij

theorem eq_iff {R : Renaming} {i j i' j' : Ident} (hi : R i i') (hj : R j j') :
    i' = j' ↔ i = j :=
  ⟨fun h => R.left_unique hi (h ▸ hj), fun h => R.right_unique hi (h ▸ hj)⟩

end Renaming

/-! ## Names -/

namespace Names

variable (a b : Names) {i j : Ident} {name : String}

theorem eq_of_entered {a : Names} (hi : a.entered[i.index]? = some name)
    (hj : a.entered[j.index]? = some name) : i = j := by
  rw [← Array.getElem?_toList] at hi hj
  have hlt : i.index < a.entered.toList.length := (List.getElem?_eq_some_iff.mp hi).1
  have hindex : i.index = j.index := (List.getElem?_inj hlt a.nodup).mp (hi.trans hj.symm)
  cases i
  cases j
  exact congrArg Ident.mk hindex

/-- The identifiers of two tables that stand for the same name. -/
def matching : Renaming where
  Holds i j := ∃ name, a.entered[i.index]? = some name ∧ b.entered[j.index]? = some name
  left_unique := by
    rintro i j k ⟨name, hi, hk⟩ ⟨other, hj, hk'⟩
    obtain rfl : name = other := Option.some.inj (hk.symm.trans hk')
    exact eq_of_entered hi hj
  right_unique := by
    rintro i j k ⟨name, hi, hj⟩ ⟨other, hi', hk⟩
    obtain rfl : name = other := Option.some.inj (hi.symm.trans hi')
    exact eq_of_entered hj hk

variable {a b}

theorem symm_matching_le : (a.matching b).symm ≤ b.matching a :=
  fun _ _ ⟨name, hj, hi⟩ => ⟨name, hi, hj⟩

theorem resolve_of_entered (h : a.entered[i.index]? = some name) : a.resolve i = name := by
  unfold resolve
  rw [Array.getD_eq_getD_getElem?, h]
  rfl

theorem resolve_of_matching (h : a.matching b i j) : b.resolve j = a.resolve i := by
  obtain ⟨name, hi, hj⟩ := h
  rw [resolve_of_entered hi, resolve_of_entered hj]

/-- The identifier of a name stands at its place once the name is entered. -/
theorem entered_intern (a : Names) (name : String) :
    (a.intern name).2.entered[(a.intern name).1.index]? = some name := by
  unfold intern
  split
  · next h =>
    obtain ⟨i, hi⟩ : ∃ i, a.entered.finIdxOf? name = some i :=
      Option.isSome_iff_exists.mp (by simpa [Array.isSome_finIdxOf?] using h)
    have hname : a.entered[i] = name := (Array.finIdxOf?_eq_some_iff.mp hi).1
    simpa [find?, hi] using hname
  · simp [size]

theorem entered_intern_of_entered {other : String} (h : a.entered[i.index]? = some other) :
    (a.intern name).2.entered[i.index]? = some other := by
  unfold intern
  split
  · exact h
  · have hlt : i.index < a.entered.size := (Array.getElem?_eq_some_iff.mp h).1
    rw [Array.getElem?_push, if_neg (Nat.ne_of_lt hlt), h]

/-- Entering one name into both tables keeps what stood for the same name and pairs the
identifiers of the new one. -/
theorem matching_intern (a b : Names) (name : String) :
    a.matching b ≤ (a.intern name).2.matching (b.intern name).2 ∧
      (a.intern name).2.matching (b.intern name).2 (a.intern name).1 (b.intern name).1 := by
  constructor
  · rintro i j ⟨other, hi, hj⟩
    exact ⟨other, entered_intern_of_entered hi, entered_intern_of_entered hj⟩
  · exact ⟨name, entered_intern a name, entered_intern b name⟩

end Names

/-! ## Related answers -/

section

variable {ε δ α β γ α' β' : Type} {V : α → β → Prop} {W : α' → β' → Prop}

theorem option_rel_map {f : α → α'} {g : β → β'} (hfg : ∀ a b, V a b → W (f a) (g b)) {o : Option α}
    {o' : Option β} (h : Option.Rel V o o') : Option.Rel W (o.map f) (o'.map g) := by
  cases h with
  | none => exact .none
  | some h => exact .some (hfg _ _ h)

theorem option_rel_imp {W : α → β → Prop} (hVW : ∀ a b, V a b → W a b) {o : Option α}
    {o' : Option β} (h : Option.Rel V o o') : Option.Rel W o o' := by
  cases h with
  | none => exact .none
  | some h => exact .some (hVW _ _ h)

/-- Answers with related values, or with the same fault. -/
inductive Agree (V : α → β → Prop) : Except ε α → Except ε β → Prop where
  | ok {a : α} {b : β} (h : V a b) : Agree V (.ok a) (.ok b)
  | error (e : ε) : Agree V (.error e) (.error e)

namespace Agree

variable {x : Except ε α} {y : Except ε β}

theorem same (x : Except ε α) : Agree Eq x x := by
  cases x with
  | ok a => exact .ok rfl
  | error e => exact .error e

theorem bind_eq (h : Agree V x y) {f : α → Except ε γ} {g : β → Except ε γ}
    (hfg : ∀ a b, V a b → g b = f a) : y >>= g = x >>= f := by
  cases h with
  | ok h => exact hfg _ _ h
  | error e => rfl

theorem mapError (h : Agree V x y) (f : ε → δ) : Agree V (x.mapError f) (y.mapError f) := by
  cases h with
  | ok h => exact .ok h
  | error e => exact .error (f e)

end Agree

/-! ## Related lists -/

variable {l : List α} {l' : List β}

theorem map_eq_of_forall₂ {f : α → γ} {g : β → γ} (hfg : ∀ a b, V a b → g b = f a)
    (h : List.Forall₂ V l l') : l'.map g = l.map f := by
  induction h with
  | nil => rfl
  | cons hab _ ih => rw [List.map_cons, List.map_cons, hfg _ _ hab, ih]

theorem any_eq_of_forall₂ {p : α → Bool} {q : β → Bool} (hpq : ∀ a b, V a b → q b = p a)
    (h : List.Forall₂ V l l') : l'.any q = l.any p := by
  induction h with
  | nil => rfl
  | cons hab _ ih => rw [List.any_cons, List.any_cons, hpq _ _ hab, ih]

/-- The first items that pass a test are found at the same place. -/
theorem find?_of_forall₂ {p : α → Bool} {q : β → Bool} (hpq : ∀ a b, V a b → q b = p a)
    (h : List.Forall₂ V l l') : Option.Rel V (l.find? p) (l'.find? q) := by
  induction h with
  | nil => exact .none
  | cons hab _ ih =>
    rw [List.find?_cons, List.find?_cons, hpq _ _ hab]
    split
    · exact .some hab
    · exact ih

end

/-! ## Tables -/

namespace Table

variable {ν μ : Type} {R S : Renaming} {V : ν → μ → Prop} {t : Table Ident ν} {t' : Table Ident μ}
  {key key' : Ident} {value : ν} {value' : μ}

/-- Every entry of the first table has a partner in the second. -/
def Covered (R : Renaming) (V : ν → μ → Prop) (t : Table Ident ν) (t' : Table Ident μ) : Prop :=
  ∀ key value, t.find? key = some value →
    ∃ key' value', R key key' ∧ V value value' ∧ t'.find? key' = some value'

theorem Covered.insert (h : t.Covered R V t') (hkey : R key key') (hvalue : V value value') :
    (t.insert key value).Covered R V (t'.insert key' value') := by
  intro other found hfound
  rw [find?_insert] at hfound
  by_cases hother : other = key
  · obtain rfl : value = found := by simpa [hother] using hfound
    exact ⟨key', value', hother ▸ hkey, hvalue, by simp [find?_insert]⟩
  · have hold : t.find? other = some found := by simpa [hother] using hfound
    obtain ⟨other', found', hR, hV, hold'⟩ := h other found hold
    have hother' : other' ≠ key' := mt (R.eq_iff hR hkey).mp hother
    exact ⟨other', found', hR, hV, by simpa [find?_insert, hother'] using hold'⟩

theorem Covered.mono (hRS : R ≤ S) {W : ν → μ → Prop}
    (hVW : ∀ value value', V value value' → W value value') (h : t.Covered R V t') :
    t.Covered S W t' := by
  intro key value hfound
  obtain ⟨key', value', hkey, hvalue, hfound'⟩ := h key value hfound
  exact ⟨key', value', hRS _ _ hkey, hVW _ _ hvalue, hfound'⟩

/-- The entries of two tables are partners of each other. -/
structure Alike (R : Renaming) (V : ν → μ → Prop) (t : Table Ident ν) (t' : Table Ident μ) :
    Prop where
  forth : t.Covered R V t'
  back : t'.Covered R.symm (fun value' value => V value value') t

namespace Alike

theorem find? (h : t.Alike R V t') (hkey : R key key') :
    Option.Rel V (t.find? key) (t'.find? key') := by
  cases hfound : t.find? key with
  | some value =>
    obtain ⟨other, value', hother, hvalue, hfound'⟩ := h.forth key value hfound
    rw [R.right_unique hkey hother, hfound']
    exact .some hvalue
  | none =>
    cases hfound' : t'.find? key' with
    | none => exact .none
    | some value' =>
      obtain ⟨other, value, hother, hvalue, hfound''⟩ := h.back key' value' hfound'
      rw [R.left_unique hkey hother, hfound''] at hfound
      cases hfound

theorem contains (h : t.Alike R V t') (hkey : R key key') : t'.contains key' = t.contains key := by
  unfold Table.contains
  match t.find? key, t'.find? key', h.find? hkey with
  | _, _, .none => rfl
  | _, _, .some _ => rfl

theorem empty : (empty : Table Ident ν).Alike R V .empty := ⟨nofun, nofun⟩

theorem insert (h : t.Alike R V t') (hkey : R key key') (hvalue : V value value') :
    (t.insert key value).Alike R V (t'.insert key' value') :=
  ⟨h.forth.insert hkey hvalue, h.back.insert hkey hvalue⟩

theorem insertAll {pairs : List (Ident × ν)} {pairs' : List (Ident × μ)} (h : t.Alike R V t')
    (hpairs : List.Forall₂ (fun p p' => R p.1 p'.1 ∧ V p.2 p'.2) pairs pairs') :
    (pairs.foldl (fun t p => t.insert p.1 p.2) t).Alike R V
      (pairs'.foldl (fun t p => t.insert p.1 p.2) t') := by
  induction hpairs generalizing t t' with
  | nil => exact h
  | cons hpair _ ih => exact ih (h.insert hpair.1 hpair.2)

theorem ofList {pairs : List (Ident × ν)} {pairs' : List (Ident × μ)}
    (h : List.Forall₂ (fun p p' => R p.1 p'.1 ∧ V p.2 p'.2) pairs pairs') :
    (ofList pairs).Alike R V (.ofList pairs') :=
  insertAll .empty h

theorem mono (hRS : R ≤ S) {W : ν → μ → Prop} (hVW : ∀ value value', V value value' → W value value')
    (h : t.Alike R V t') : t.Alike S W t' where
  forth := h.forth.mono hRS hVW
  back := h.back.mono (Renaming.symm_le_symm hRS) fun value' value => hVW value value'

end Alike
end Table

/-! ## Cells -/

variable {R S : Renaming} {i i' : Ident}

/-- Ports that differ in the number of their name only. -/
structure Port.Alike (R : Renaming) (p p' : Port) : Prop where
  name : R p.name p'.name
  direction : p'.direction = p.direction
  net : p'.net = p.net

theorem Port.Alike.mono (hRS : R ≤ S) {p p' : Port} (h : p.Alike R p') : p.Alike S p' :=
  ⟨hRS _ _ h.name, h.direction, h.net⟩

/-- Cells that differ in numbering only. -/
structure Cell.Alike (R : Renaming) (c c' : Cell) : Prop where
  name : c'.name = c.name
  cellType : R c.cellType c'.cellType
  ports : List.Forall₂ (Port.Alike R) c.ports c'.ports
  params : c.params.Alike R Eq c'.params
  attrs : c.attrs.Alike R Eq c'.attrs
  bel : Option.Rel R.Holds c.bel c'.bel
  role : c'.role = c.role
  cluster : c'.cluster = c.cluster

namespace Cell.Alike

variable {c c' : Cell}

theorem port? (h : c.Alike R c') (hi : R i i') :
    Option.Rel (Port.Alike R) (c.port? i) (c'.port? i') :=
  find?_of_forall₂ (fun _ _ hp => decide_eq_decide.mpr (R.eq_iff hp.name hi)) h.ports

theorem netOf (h : c.Alike R c') (hi : R i i') : c'.netOf i' = c.netOf i := by
  unfold Cell.netOf
  match c.port? i, c'.port? i', h.port? hi with
  | _, _, .none => rfl
  | _, _, .some hp => exact hp.net

/-- The outputs come in the same order and are on the same nets. -/
theorem outputs (h : c.Alike R c') :
    List.Forall₂ (fun o o' => R o.1 o'.1 ∧ o'.2 = o.2) c.outputs c'.outputs := by
  refine List.rel_filterMap ?_ h.ports
  intro p p' hp
  dsimp only
  rw [hp.direction, hp.net]
  split
  · cases p.net with
    | none => exact .none
    | some k => exact .some ⟨hp.name, rfl⟩
  · exact .none

theorem isEmpty_outputs (h : c.Alike R c') : c'.outputs.isEmpty = c.outputs.isEmpty := by
  match c.outputs, c'.outputs, h.outputs with
  | _, _, .nil => rfl
  | _, _, .cons _ _ => rfl

theorem hasOutput (h : c.Alike R c') : c'.hasOutput = c.hasOutput := by
  refine any_eq_of_forall₂ (fun p p' hp => ?_) h.ports
  rw [hp.direction]

theorem isClustered (h : c.Alike R c') : c'.isClustered = c.isClustered := by
  unfold Cell.isClustered
  rw [h.cluster]

theorem create (hi : R i i') (name : String) : (Cell.create i name).Alike R (.create i' name) :=
  ⟨rfl, hi, .nil, .empty, .empty, .none, rfl, rfl⟩

theorem addPort (h : c.Alike R c') {p p' : Port} (hp : p.Alike R p') :
    (c.addPort p).Alike R (c'.addPort p') :=
  { h with ports := List.rel_append h.ports (.cons hp .nil) }

theorem setNet (h : c.Alike R c') (hi : R i i') (net : Option NetId) :
    (c.setNet i net).Alike R (c'.setNet i' net) := by
  refine { h with ports := ?_ }
  show List.Forall₂ _ (Port.modifyFirst i _ c.ports) (Port.modifyFirst i' _ c'.ports)
  have hports := h.ports
  generalize c.ports = ports, c'.ports = ports' at hports ⊢
  induction hports with
  | nil => exact .nil
  | @cons p p' ports ports' hp hrest ih =>
    have hiff : p'.name = i' ↔ p.name = i := R.eq_iff hp.name hi
    unfold Port.modifyFirst
    by_cases hname : p.name = i
    · rw [if_pos hname, if_pos (hiff.mpr hname)]
      exact .cons ⟨hp.name, hp.direction, rfl⟩ hrest
    · rw [if_neg hname, if_neg (mt hiff.mp hname)]
      exact .cons hp ih

theorem mono (hRS : R ≤ S) (h : c.Alike R c') : c.Alike S c' where
  name := h.name
  cellType := hRS _ _ h.cellType
  ports := h.ports.imp fun _ _ => Port.Alike.mono hRS
  params := h.params.mono hRS fun _ _ => id
  attrs := h.attrs.mono hRS fun _ _ => id
  bel := option_rel_imp hRS h.bel
  role := h.role
  cluster := h.cluster

end Cell.Alike

/-! ## Nets -/

/-- References to ports that differ in the number of the port's name only. -/
structure PortRef.Alike (R : Renaming) (r r' : PortRef) : Prop where
  cell : r'.cell = r.cell
  port : R r.port r'.port

namespace PortRef.Alike

variable {q q' r r' : PortRef}

theorem eq_iff (hq : q.Alike R q') (hr : r.Alike R r') : q' = r' ↔ q = r := by
  have hport : q'.port = r'.port ↔ q.port = r.port := R.eq_iff hq.port hr.port
  have hcell : q'.cell = r'.cell ↔ q.cell = r.cell := by rw [hq.cell, hr.cell]
  cases q
  cases r
  cases q'
  cases r'
  simp_all

theorem mono (hRS : R ≤ S) (h : r.Alike R r') : r.Alike S r' := ⟨h.cell, hRS _ _ h.port⟩

end PortRef.Alike

/-- Nets that differ in numbering only. -/
structure Net.Alike (R : Renaming) (n n' : Net) : Prop where
  name : n'.name = n.name
  driver : Option.Rel (PortRef.Alike R) n.driver n'.driver
  sinks : List.Forall₂ (PortRef.Alike R) n.sinks n'.sinks
  constant : n'.constant = n.constant

namespace Net.Alike

variable {n n' : Net} {r r' : PortRef}

theorem isSome_driver (h : n.Alike R n') : n'.driver.isSome = n.driver.isSome := by
  match n.driver, n'.driver, h.driver with
  | _, _, .none => rfl
  | _, _, .some _ => rfl

theorem isEmpty_sinks (h : n.Alike R n') : n'.sinks.isEmpty = n.sinks.isEmpty := by
  match n.sinks, n'.sinks, h.sinks with
  | _, _, .nil => rfl
  | _, _, .cons _ _ => rfl

theorem isFloating (h : n.Alike R n') : n'.isFloating = n.isFloating := by
  unfold Net.isFloating
  rw [← Option.not_isSome, ← Option.not_isSome, h.isSome_driver, h.isEmpty_sinks]

theorem degree (h : n.Alike R n') : n'.degree = n.degree := by
  unfold Net.degree
  rw [h.isSome_driver, h.sinks.length_eq]

theorem create (name : String) : (Net.create name).Alike R (.create name) :=
  ⟨rfl, .none, .nil, rfl⟩

theorem createConstant (v : ConstValue) : (Net.createConstant v).Alike R (.createConstant v) :=
  ⟨rfl, .none, .nil, rfl⟩

theorem drive (h : n.Alike R n') (hr : r.Alike R r') : (n.drive r).Alike R (n'.drive r') :=
  { h with driver := .some hr }

theorem addSink (h : n.Alike R n') (hr : r.Alike R r') : (n.addSink r).Alike R (n'.addSink r') :=
  { h with sinks := List.rel_append h.sinks (.cons hr .nil) }

theorem detach (h : n.Alike R n') (hr : r.Alike R r') : (n.detach r).Alike R (n'.detach r') := by
  refine { h with driver := ?_, sinks := ?_ }
  · show Option.Rel _ (if n.driver = some r then none else n.driver)
      (if n'.driver = some r' then none else n'.driver)
    match n.driver, n'.driver, h.driver with
    | _, _, .none => exact .none
    | _, _, .some hd =>
      simp only [Option.some.injEq, hd.eq_iff hr]
      split
      · exact .none
      · exact .some hd
  · refine List.rel_filter ?_ h.sinks
    intro s s' hs
    simpa using not_congr (hs.eq_iff hr).symm

theorem mono (hRS : R ≤ S) (h : n.Alike R n') : n.Alike S n' where
  name := h.name
  driver := option_rel_imp (fun _ _ => PortRef.Alike.mono hRS) h.driver
  sinks := h.sinks.imp fun _ _ => PortRef.Alike.mono hRS
  constant := h.constant

end Net.Alike

/-! ## Arenas -/

namespace Arena

variable {k : Kind} {α β : Type} {V : α → β → Prop} {a : Arena k α} {a' : Arena k β}

/-- Arenas that gave out the same handles and hold related objects under them. -/
structure Alike (V : α → β → Prop) (a : Arena k α) (a' : Arena k β) : Prop where
  size : a'.slots.size = a.slots.size
  live : a'.live = a.live
  get? : ∀ id, Option.Rel V (a.get? id) (a'.get? id)

namespace Alike

theorem contains (h : a.Alike V a') (id : Id k) : a'.contains id = a.contains id := by
  unfold Arena.contains
  match a.get? id, a'.get? id, h.get? id with
  | _, _, .none => rfl
  | _, _, .some _ => rfl

theorem alloc_fst (h : a.Alike V a') (item : α) (item' : β) :
    (a'.alloc item').1 = (a.alloc item).1 :=
  congrArg Id.mk h.size

theorem alloc (h : a.Alike V a') {item : α} {item' : β} (hitem : V item item') :
    (a.alloc item).2.Alike V (a'.alloc item').2 where
  size := by simp [Arena.alloc, h.size]
  live := by simp [Arena.alloc, h.live]
  get? id := by
    rw [get?_alloc, get?_alloc, h.alloc_fst item item']
    split
    · exact .some hitem
    · exact h.get? id

theorem modify (h : a.Alike V a') {f : α → α} {f' : β → β}
    (hf : ∀ item item', V item item' → V (f item) (f' item')) (id : Id k) :
    (a.modify id f).Alike V (a'.modify id f') where
  size := by simp [Arena.modify, h.size]
  live := h.live
  get? other := by
    rw [get?_modify, get?_modify]
    split
    · exact option_rel_map hf (h.get? id)
    · exact h.get? other

theorem remove (h : a.Alike V a') (id : Id k) : (a.remove id).2.Alike V (a'.remove id).2 where
  size := by
    unfold Arena.remove
    match a.get? id, a'.get? id, h.get? id with
    | _, _, .none => exact h.size
    | _, _, .some _ => simp [h.size]
  live := by
    unfold Arena.remove
    match a.get? id, a'.get? id, h.get? id with
    | _, _, .none => exact h.live
    | _, _, .some _ => exact congrArg (· - 1) h.live
  get? other := by
    rw [get?_remove, get?_remove]
    split
    · exact .none
    · exact h.get? other

/-- The objects are listed in the same order and under the same handles. -/
theorem entries (h : a.Alike V a') :
    List.Forall₂ (fun e e' => e'.1 = e.1 ∧ V e.2 e'.2) a.entries a'.entries := by
  have hgiven : a'.given = a.given := congrArg (fun n => (List.range n).map Id.mk) h.size
  rw [entries_eq_filterMap, entries_eq_filterMap, hgiven]
  refine List.rel_filterMap ?_ (List.forall₂_same.mpr fun _ _ => rfl)
  rintro id _ rfl
  exact option_rel_map (fun _ _ hitem => ⟨rfl, hitem⟩) (h.get? id)

theorem ids (h : a.Alike V a') : a'.ids = a.ids :=
  map_eq_of_forall₂ (fun _ _ he => he.1) h.entries

theorem mono {W : α → β → Prop} (hVW : ∀ item item', V item item' → W item item')
    (h : a.Alike V a') : a.Alike W a' where
  size := h.size
  live := h.live
  get? id := option_rel_imp hVW (h.get? id)

end Alike
end Arena

/-! ## Netlists -/

/-- Netlists that differ in numbering only. -/
structure Netlist.Alike (R : Renaming) (nl nl' : Netlist) : Prop where
  cells : nl.cells.Alike (Cell.Alike R) nl'.cells
  nets : nl.nets.Alike (Net.Alike R) nl'.nets
  queue : nl'.queue = nl.queue
  tiedLow : nl'.tiedLow = nl.tiedLow
  tiedHigh : nl'.tiedHigh = nl.tiedHigh
  nameCounter : nl'.nameCounter = nl.nameCounter

namespace Netlist.Alike

variable {nl nl' : Netlist}

theorem empty : Netlist.empty.Alike R .empty where
  cells := ⟨rfl, rfl, fun _ => .none⟩
  nets := ⟨rfl, rfl, fun _ => .none⟩
  queue := rfl
  tiedLow := rfl
  tiedHigh := rfl
  nameCounter := rfl

theorem mono (hRS : R ≤ S) (h : nl.Alike R nl') : nl.Alike S nl' :=
  { h with
    cells := h.cells.mono fun _ _ => Cell.Alike.mono hRS
    nets := h.nets.mono fun _ _ => Net.Alike.mono hRS }

theorem cell? (h : nl.Alike R nl') (id : CellId) :
    Option.Rel (Cell.Alike R) (nl.cell? id) (nl'.cell? id) := h.cells.get? id

theorem net? (h : nl.Alike R nl') (k : NetId) :
    Option.Rel (Net.Alike R) (nl.net? k) (nl'.net? k) := h.nets.get? k

theorem cell (h : nl.Alike R nl') (id : CellId) :
    Agree (Cell.Alike R) (nl.cell id) (nl'.cell id) := by
  unfold Netlist.cell
  match nl.cell? id, nl'.cell? id, h.cell? id with
  | _, _, .none => exact .error _
  | _, _, .some hc => exact .ok hc

theorem net (h : nl.Alike R nl') (k : NetId) : Agree (Net.Alike R) (nl.net k) (nl'.net k) := by
  unfold Netlist.net
  match nl.net? k, nl'.net? k, h.net? k with
  | _, _, .none => exact .error _
  | _, _, .some hn => exact .ok hn

theorem cellIds (h : nl.Alike R nl') : nl'.cellIds = nl.cellIds := h.cells.ids

theorem netName (h : nl.Alike R nl') (k : NetId) : nl'.netName k = nl.netName k := by
  unfold Netlist.netName
  match nl.net? k, nl'.net? k, h.net? k with
  | _, _, .none => rfl
  | _, _, .some hn => exact hn.name

theorem constantNet? (h : nl.Alike R nl') (v : ConstValue) :
    nl'.constantNet? v = nl.constantNet? v := by
  cases v with
  | zero => exact h.tiedLow
  | one => exact h.tiedHigh

theorem isMarked (h : nl.Alike R nl') (id : CellId) : nl'.isMarked id = nl.isMarked id := by
  unfold Netlist.isMarked
  rw [h.queue]

theorem netOf (h : nl.Alike R nl') (id : CellId) (hi : R i i') : nl'.netOf id i' = nl.netOf id i := by
  unfold Netlist.netOf
  match nl.cell? id, nl'.cell? id, h.cell? id with
  | _, _, .none => rfl
  | _, _, .some hc => exact hc.netOf hi

theorem constValue (h : nl.Alike R nl') (k : NetId) : nl'.constValue k = nl.constValue k := by
  unfold Netlist.constValue
  match nl.net? k, nl'.net? k, h.net? k with
  | _, _, .none => rfl
  | _, _, .some hn => exact hn.constant

variable {p p' : Cell → Bool}

theorem drivenBy (h : nl.Alike R nl') (hp : ∀ c c', c.Alike R c' → p' c' = p c) (k : NetId)
    (hi : R i i') : nl'.drivenBy k p' i' = nl.drivenBy k p i := by
  unfold Netlist.drivenBy
  match nl.net? k, nl'.net? k, h.net? k with
  | _, _, .none => rfl
  | some n, some n', .some hn =>
    show n'.driver.bind _ = n.driver.bind _
    match n.driver, n'.driver, hn.driver with
    | _, _, .none => rfl
    | some d, some d', .some hd =>
      show (nl'.cell? d'.cell).bind _ = (nl.cell? d.cell).bind _
      rw [hd.cell]
      match nl.cell? d.cell, nl'.cell? d.cell, h.cell? d.cell with
      | _, _, .none => rfl
      | some c, some c', .some hc =>
        show (if d'.port = i' ∧ p' c' = true then _ else _) = if d.port = i ∧ p c = true then _ else _
        simp only [hp c c' hc, R.eq_iff hd.port hi]

theorem firstReader (h : nl.Alike R nl') (hp : ∀ c c', c.Alike R c' → p' c' = p c) (k : NetId)
    (hi : R i i') : nl'.firstReader k p' i' = nl.firstReader k p i := by
  have htest : ∀ s s' : PortRef, s.Alike R s' →
      (s'.port = i' && (nl'.cell? s'.cell).any p' : Bool) =
        (s.port = i && (nl.cell? s.cell).any p) := by
    intro s s' hs
    have hport : decide (s'.port = i') = decide (s.port = i) :=
      decide_eq_decide.mpr (R.eq_iff hs.port hi)
    have hcell : (nl'.cell? s'.cell).any p' = (nl.cell? s.cell).any p := by
      rw [hs.cell]
      match nl.cell? s.cell, nl'.cell? s.cell, h.cell? s.cell with
      | _, _, .none => rfl
      | _, _, .some hc => exact hp _ _ hc
    rw [hport, hcell]
  unfold Netlist.firstReader
  match nl.net? k, nl'.net? k, h.net? k with
  | _, _, .none => rfl
  | some n, some n', .some hn =>
    show (n'.sinks.find? _).bind (fun sink => some sink.cell) =
      (n.sinks.find? _).bind fun sink => some sink.cell
    match n.sinks.find? _, n'.sinks.find? _, find?_of_forall₂ htest hn.sinks with
    | _, _, .none => rfl
    | _, _, .some hs => exact congrArg some hs.cell

end Netlist.Alike

end FpgaPacking
