import FpgaPacking.Proofs.Config
import FpgaPacking.Proofs.Normalize.Options
import FpgaPacking.Proofs.Numbering.Alike
import FpgaPacking.Proofs.Retarget.Values
import FpgaPacking.Retarget.Rule

/-!
# Growing tables of names

A table of names only grows at its end.  What an identifier of the table stands
for is therefore settled: later tables resolve it to the same name, find it under
this name, and give it out again when the name is entered once more.  The
identifiers of a configuration belong to the table that its names have been entered
into.
-/

namespace FpgaPacking

namespace Names

variable {names a b c : Names} {i j : Ident} {name : String}

/-- The identifier belongs to the table. -/
def Knows (names : Names) (i : Ident) : Prop := i.index < names.size

/-- The names of the first table stand at the beginning of the second. -/
def Grows (a b : Names) : Prop := a.entered.toList <+: b.entered.toList

theorem knows_iff : names.Knows i ↔ names.entered[i.index]? = some (names.resolve i) := by
  unfold Knows resolve size
  constructor
  · intro h
    rw [Array.getElem?_eq_getElem h, Array.getD_eq_getD_getElem?, Array.getElem?_eq_getElem h]
    rfl
  · intro h
    exact (Array.getElem?_eq_some_iff.mp h).1

theorem knows_of_entered (h : names.entered[i.index]? = some name) : names.Knows i :=
  (Array.getElem?_eq_some_iff.mp h).1

/-- Different identifiers of a table stand for different names. -/
theorem Knows.resolve_inj (hi : names.Knows i) (hj : names.Knows j)
    (h : names.resolve i = names.resolve j) : i = j := by
  have hj' := knows_iff.mp hj
  rw [← h] at hj'
  exact eq_of_entered (knows_iff.mp hi) hj'

theorem find?_eq_some : names.find? name = some i ↔ names.entered[i.index]? = some name := by
  unfold find?
  constructor
  · intro h
    obtain ⟨n, hn, rfl⟩ := Option.map_eq_some_iff.mp h
    have hname : names.entered[n] = name := (Array.finIdxOf?_eq_some_iff.mp hn).1
    simpa using hname
  · intro h
    obtain ⟨n, hn⟩ : ∃ n, names.entered.finIdxOf? name = some n :=
      Option.isSome_iff_exists.mp (by
        rw [Array.isSome_finIdxOf?, Array.contains_iff_mem]
        exact Array.mem_of_getElem? h)
    have hname : names.entered[n] = name := (Array.finIdxOf?_eq_some_iff.mp hn).1
    rw [hn, Option.map_some]
    refine congrArg some (eq_of_entered ?_ h)
    simpa using hname

theorem intern_of_entered (h : names.entered[i.index]? = some name) : names.intern name = (i, names) := by
  unfold intern
  rw [dif_pos (Array.mem_of_getElem? h), find?_eq_some.mpr h]
  rfl

namespace Grows

theorem refl (names : Names) : names.Grows names := List.prefix_refl _

theorem trans (h : a.Grows b) (h' : b.Grows c) : a.Grows c := List.IsPrefix.trans h h'

theorem intern (names : Names) (name : String) : names.Grows (names.intern name).2 := by
  unfold Names.intern
  split
  · exact .refl names
  · exact ⟨[name], (Array.toList_push ..).symm⟩

theorem entered (h : a.Grows b) (hi : a.entered[i.index]? = some name) :
    b.entered[i.index]? = some name := by
  rw [← Array.getElem?_toList] at hi ⊢
  obtain ⟨rest, hrest⟩ := h
  rw [← hrest, List.getElem?_append_left (List.getElem?_eq_some_iff.mp hi).1]
  exact hi

theorem knows (h : a.Grows b) (hi : a.Knows i) : b.Knows i :=
  knows_of_entered (h.entered (knows_iff.mp hi))

theorem resolve (h : a.Grows b) (hi : a.Knows i) : b.resolve i = a.resolve i :=
  resolve_of_entered (h.entered (knows_iff.mp hi))

theorem find? (h : a.Grows b) (hi : a.find? name = some i) : b.find? name = some i :=
  find?_eq_some.mpr (h.entered (find?_eq_some.mp hi))

end Grows

/-! Identifiers of two tables stand for each other if they resolve to the same name. -/

theorem matching_of_resolve (hi : a.Knows i) (hj : b.Knows j) (h : b.resolve j = a.resolve i) :
    a.matching b i j :=
  ⟨a.resolve i, knows_iff.mp hi, h ▸ knows_iff.mp hj⟩

theorem matching_of_grows (ha : names.Grows a) (hb : names.Grows b) (hi : names.Knows i) :
    a.matching b i i :=
  ⟨names.resolve i, ha.entered (knows_iff.mp hi), hb.entered (knows_iff.mp hi)⟩

theorem forall₂_matching {l l' : List Ident} (hl : ∀ i ∈ l, a.Knows i) (hl' : ∀ i ∈ l', b.Knows i)
    (h : l'.map b.resolve = l.map a.resolve) : List.Forall₂ (a.matching b) l l' := by
  induction l generalizing l' with
  | nil =>
    rw [List.map_eq_nil_iff.mp h]
    exact .nil
  | cons i l ih =>
    obtain ⟨j, l', rfl, hname, hrest⟩ := List.map_eq_cons_iff.mp h
    obtain ⟨hi, hl⟩ := List.forall_mem_cons.mp hl
    obtain ⟨hj, hl'⟩ := List.forall_mem_cons.mp hl'
    exact .cons (matching_of_resolve hi hj hname) (ih hl hl' hrest)

end Names

/-- A table with known keys is alike to itself in all later tables of names. -/
theorem Table.All.alike {ν : Type} {table : Table Ident ν} {names a b : Names}
    (h : table.All fun key _ => names.Knows key) (ha : names.Grows a) (hb : names.Grows b) :
    table.Alike (a.matching b) Eq table where
  forth key value hfound :=
    ⟨key, value, Names.matching_of_grows ha hb (h key value hfound), rfl, hfound⟩
  back key value hfound :=
    ⟨key, value, Names.matching_of_grows ha hb (h key value hfound), rfl, hfound⟩

/-! ## Constructions that enter names -/

variable {α β : Type}

/-- The construction does nothing to the table but to add names. -/
def Naming.Adds (x : Naming α) : Prop := ∀ names : Names, names.Grows (x names).2

namespace Naming.Adds

theorem enter (name : String) : Naming.Adds (naming name) := fun names =>
  .intern names name

theorem pure (a : α) : Naming.Adds (Pure.pure a : Naming α) := fun names => .refl names

theorem bind {x : Naming α} {f : α → Naming β} (hx : Naming.Adds x) (hf : ∀ a, Naming.Adds (f a)) :
    Naming.Adds (x >>= f) := fun names => (hx names).trans (hf _ _)

theorem mapM {f : α → Naming β} (hf : ∀ a, Naming.Adds (f a)) (l : List α) :
    Naming.Adds (l.mapM f) := by
  induction l with
  | nil => exact pure []
  | cons a l ih =>
    rw [List.mapM_cons]
    exact bind (hf a) fun b => bind ih fun bs => pure (b :: bs)

/-- What a list of constructions gives is given by one of them, and later ones only add names. -/
theorem mem_mapM {f : α → Naming β} (hf : ∀ a, Naming.Adds (f a)) {l : List α} {names : Names} {b : β}
    (h : b ∈ (l.mapM f names).1) :
    ∃ a ∈ l, ∃ before, (f a before).1 = b ∧ (f a before).2.Grows (l.mapM f names).2 := by
  induction l generalizing names with
  | nil => cases h
  | cons a l ih =>
    rw [List.mapM_cons] at h ⊢
    rcases List.mem_cons.mp h with rfl | h
    · exact ⟨a, List.mem_cons_self, names, rfl, mapM hf l _⟩
    · obtain ⟨a', ha', before, hb, hgrows⟩ := ih h
      exact ⟨a', List.mem_cons_of_mem a ha', before, hb, hgrows⟩

theorem entry {item : α → Naming β} (hitem : ∀ a, Naming.Adds (item a)) (e : String × α) :
    Naming.Adds (do
      let ident ← naming e.1
      return (ident, ← item e.2)) :=
  bind (enter e.1) fun _ => bind (hitem e.2) fun _ => pure _

theorem named {item : α → Naming β} (hitem : ∀ a, Naming.Adds (item a)) (table : Table String α) :
    Naming.Adds (table.named item) :=
  bind (mapM (entry hitem) table.entries) fun _ => pure _

/-- A value of a table that is given by a configuration is given by one of its items. -/
theorem find?_named {item : α → Naming β} (hitem : ∀ a, Naming.Adds (item a))
    {table : Table String α} {names : Names} {key : Ident} {b : β}
    (h : (table.named item names).1.find? key = some b) :
    ∃ a before, (item a before).1 = b ∧ (item a before).2.Grows (table.named item names).2 := by
  obtain ⟨e, -, before, hentry, hgrows⟩ := mem_mapM (entry hitem) (Table.mem_of_find?_ofList h)
  exact ⟨e.2, (before.intern e.1).2, congrArg Prod.snd hentry, hgrows⟩

/-- The keys of a table that is given by a configuration belong to the table of names. -/
theorem knows_key_named {item : α → Naming β} (hitem : ∀ a, Naming.Adds (item a))
    {table : Table String α} {names : Names} {key : Ident} {b : β}
    (h : (table.named item names).1.find? key = some b) : (table.named item names).2.Knows key := by
  obtain ⟨e, -, before, hentry, hgrows⟩ := mem_mapM (entry hitem) (Table.mem_of_find?_ofList h)
  obtain rfl : (before.intern e.1).1 = key := congrArg Prod.fst hentry
  exact hgrows.knows ((hitem e.2 _).knows (Names.knows_of_entered (Names.entered_intern before e.1)))

end Naming.Adds

/-- The type of a cell and the names of its ports belong to the table.  An identifier of another table
does not name anything. -/
structure Cell.Known (names : Names) (c : Cell) : Prop where
  cellType : names.Knows c.cellType
  ports : ∀ p ∈ c.ports, names.Knows p.name

theorem Cell.Known.grows {a b : Names} {c : Cell} (h : c.Known a) (hgrows : a.Grows b) : c.Known b where
  cellType := hgrows.knows h.cellType
  ports p hp := hgrows.knows (h.ports p hp)

/-- All identifiers of the cell belong to the table. -/
structure Cell.Entered (names : Names) (c : Cell) : Prop extends Cell.Known names c where
  params : c.params.All fun key _ => names.Knows key
  attrs : c.attrs.All fun key _ => names.Knows key
  bel : ∀ i, c.bel = some i → names.Knows i

namespace RetargetRule

/-- The new type and the new names of ports belong to the table. -/
structure Known (names : Names) (rule : RetargetRule) : Prop where
  newType : names.Knows rule.newType
  portRename : ∀ old new, rule.portRename.find? old = some new → names.Knows new
  portFanoutRename : ∀ old l, rule.portFanoutRename.find? old = some l → ∀ new ∈ l, names.Knows new

theorem Known.grows {a b : Names} {rule : RetargetRule} (h : rule.Known a) (hgrows : a.Grows b) :
    rule.Known b where
  newType := hgrows.knows h.newType
  portRename old new hnew := hgrows.knows (h.portRename old new hnew)
  portFanoutRename old l hl new hnew := hgrows.knows (h.portFanoutRename old l hl new hnew)

/-- All identifiers that the rule gives to cells belong to the table. -/
structure Entered (names : Names) (rule : RetargetRule) : Prop extends Known names rule where
  paramRename : ∀ old new, rule.paramRename.find? old = some new → names.Knows new
  fixedAttrs : rule.fixedAttrs.All fun key _ => names.Knows key
  fixedParams : rule.fixedParams.All fun key _ => names.Knows key
  defaultParams : rule.defaultParams.All fun key _ => names.Knows key

theorem Entered.grows {a b : Names} {rule : RetargetRule} (h : rule.Entered a) (hgrows : a.Grows b) :
    rule.Entered b where
  toKnown := h.toKnown.grows hgrows
  paramRename old new hnew := hgrows.knows (h.paramRename old new hnew)
  fixedAttrs key value hvalue := hgrows.knows (h.fixedAttrs key value hvalue)
  fixedParams key value hvalue := hgrows.knows (h.fixedParams key value hvalue)
  defaultParams key value hvalue := hgrows.knows (h.defaultParams key value hvalue)

theorem knows_naming (name : String) (names : Names) :
    (naming name names).2.Knows (naming name names).1 :=
  Names.knows_of_entered (Names.entered_intern names name)

theorem knows_mapM_naming {l : List String} {names : Names} {i : Ident}
    (h : i ∈ (l.mapM naming names).1) : (l.mapM naming names).2.Knows i := by
  obtain ⟨name, -, before, rfl, hgrows⟩ := Naming.Adds.mem_mapM .enter h
  exact hgrows.knows (knows_naming name before)

theorem adds_value (p : Config.Param) : Naming.Adds (pure p.value : Naming ParamValue) := .pure _

theorem adds_portNames (ports : List String) : Naming.Adds (ports.mapM naming) := .mapM .enter ports

theorem adds_ofConfig (rule : Config.Rule) : Naming.Adds (ofConfig rule) := by
  refine .bind (.enter _) fun _ => .bind (.named .enter _) fun _ => ?_
  refine .bind (.named adds_portNames _) fun _ => .bind (.named .enter _) fun _ => ?_
  refine .bind (.named adds_value _) fun _ => .bind (.named adds_value _) fun _ => ?_
  exact .bind (.named adds_value _) fun _ => .pure _

theorem entered_ofConfig (rule : Config.Rule) (names : Names) :
    (ofConfig rule names).1.Entered (ofConfig rule names).2 := by
  -- The tables after each of the parts, in the order in which they are entered.
  let typed := (naming rule.newType names).2
  let renamed := (rule.portRename.named naming typed).2
  let fanned := (rule.portFanoutRename.named (fun ports => ports.mapM naming) renamed).2
  let copied := (rule.paramRename.named naming fanned).2
  let noted := (Config.paramTable rule.fixedAttrs copied).2
  let fixed := (Config.paramTable rule.fixedParams noted).2
  let filled := (Config.paramTable rule.defaultParams fixed).2
  have hfilled : fixed.Grows filled := Naming.Adds.named adds_value _ fixed
  have hfixed : noted.Grows filled := (Naming.Adds.named adds_value _ noted).trans hfilled
  have hnoted : copied.Grows filled := (Naming.Adds.named adds_value _ copied).trans hfixed
  have hcopied : fanned.Grows filled := (Naming.Adds.named .enter _ fanned).trans hnoted
  have hfanned : renamed.Grows filled := (Naming.Adds.named adds_portNames _ renamed).trans hcopied
  have hrenamed : typed.Grows filled := (Naming.Adds.named .enter _ typed).trans hfanned
  have htype : typed.Knows (naming rule.newType names).1 := knows_naming rule.newType names
  refine
    { newType := hrenamed.knows htype
      portRename := fun old new h => ?_
      portFanoutRename := fun old l h i hi => ?_
      paramRename := fun old new h => ?_
      fixedAttrs := fun key value h => hfixed.knows (Naming.Adds.knows_key_named adds_value h)
      fixedParams := fun key value h => hfilled.knows (Naming.Adds.knows_key_named adds_value h)
      defaultParams := fun key value h => Naming.Adds.knows_key_named adds_value h }
  · obtain ⟨name, before, rfl, hgrows⟩ := Naming.Adds.find?_named .enter h
    exact hfanned.knows (hgrows.knows (knows_naming name before))
  · obtain ⟨ports, before, rfl, hgrows⟩ := Naming.Adds.find?_named adds_portNames h
    exact hcopied.knows (hgrows.knows (knows_mapM_naming hi))
  · obtain ⟨name, before, rfl, hgrows⟩ := Naming.Adds.find?_named .enter h
    exact hnoted.knows (hgrows.knows (knows_naming name before))

end RetargetRule

namespace RuleSet

variable {config : Config} {names names' : Names} {rules : RuleSet} {cellType : Ident}
  {rule : RetargetRule}

/-- The identifiers of configured rules belong to the table. -/
theorem entered_ofConfig (h : RuleSet.ofConfig config names = (rules, names'))
    (hrule : rules.find? cellType = some rule) : rule.Entered names' := by
  obtain rfl : (RuleSet.ofConfig config names).1 = rules := congrArg Prod.fst h
  obtain rfl : (RuleSet.ofConfig config names).2 = names' := congrArg Prod.snd h
  obtain ⟨described, before, rfl, hgrows⟩ :=
    Naming.Adds.find?_named RetargetRule.adds_ofConfig hrule
  exact (RetargetRule.entered_ofConfig described before).grows hgrows

theorem known_ofConfig (h : RuleSet.ofConfig config names = (rules, names'))
    (hrule : rules.find? cellType = some rule) : rule.Known names' :=
  (entered_ofConfig h hrule).toKnown

end RuleSet

end FpgaPacking
