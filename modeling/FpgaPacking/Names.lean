/-
The names table.

Cell types, ports, parameters and attributes are named by `Ident`s, positions in
a table of distinct strings that only grows.  Comparing two names is comparing
two numbers, and identifiers order by the moment their name was first entered.
`Naming` is the monad of constructions that enter names.
-/
namespace FpgaPacking

/-- A name, as its position in a names table. -/
structure Ident where
  /-- How many names were entered before this one. -/
  index : Nat
deriving DecidableEq, Repr

/-- Identifiers order by first entry. -/
instance : Ord Ident := ⟨fun a b => compare a.index b.index⟩

instance : Std.TransOrd Ident := inferInstanceAs (Std.TransCmp (compareOn Ident.index))

instance : Std.LawfulEqOrd Ident where
  compare_self {a} := Nat.compare_eq_eq.mpr (Eq.refl a.index)
  eq_of_compare {a b} h := by
    have : a.index = b.index := Nat.compare_eq_eq.mp h
    cases a; cases b; exact congrArg Ident.mk this

/-- The distinct names entered so far, in order of entry. -/
structure Names where
  /-- The name of the identifier with index `i` stands at position `i`. -/
  entered : Array String
  /-- No name has two identifiers. -/
  nodup : entered.toList.Nodup
deriving DecidableEq

namespace Names

/-- The table with no names. -/
def empty : Names := ⟨#[], List.nodup_nil⟩

instance : Inhabited Names := ⟨empty⟩

/-- The number of names. -/
def size (names : Names) : Nat := names.entered.size

/-- The identifier of a name that was entered before. -/
def find? (names : Names) (name : String) : Option Ident :=
  (names.entered.finIdxOf? name).map fun i => ⟨i.val⟩

/-- The name behind an identifier of this table.  Identifiers do not carry over from one table to
another: that of another table may stand for a different name here, or past the end for the empty
one. -/
def resolve (names : Names) (ident : Ident) : String := names.entered.getD ident.index ""

/-- Appending a name that is missing keeps the names distinct. -/
theorem nodup_push {entered : Array String} (h : entered.toList.Nodup) {name : String}
    (hname : name ∉ entered) : (entered.push name).toList.Nodup := by
  rw [Array.toList_push, List.nodup_append]
  refine ⟨h, by simp, fun a ha b hb => ?_⟩
  rw [List.mem_singleton.mp hb]
  exact fun e => hname (Array.mem_def.mpr (e ▸ ha))

/-- The identifier of `name`, which is entered at the end of the table if it is new. -/
def intern (names : Names) (name : String) : Ident × Names :=
  if h : name ∈ names.entered then
    (((names.find? name).getD ⟨names.size⟩), names)
  else
    (⟨names.size⟩, ⟨names.entered.push name, nodup_push names.nodup h⟩)

/-- A name that was entered resolves to itself. -/
theorem resolve_intern (names : Names) (name : String) :
    (names.intern name).2.resolve (names.intern name).1 = name := by
  unfold intern
  split
  · next h =>
    obtain ⟨i, hi⟩ : ∃ i, names.entered.finIdxOf? name = some i :=
      Option.isSome_iff_exists.mp (by simpa [Array.isSome_finIdxOf?] using h)
    have hname : names.entered[i] = name := (Array.finIdxOf?_eq_some_iff.mp hi).1
    simpa [find?, hi, resolve] using hname
  · simp [resolve, size]

/-- Entering a name keeps what identifiers resolve to. -/
theorem resolve_intern_of_lt (names : Names) (name : String) {ident : Ident}
    (h : ident.index < names.size) :
    (names.intern name).2.resolve ident = names.resolve ident := by
  unfold intern
  split
  · rfl
  · simp only [resolve, Array.getD_eq_getD_getElem?]
    rw [Array.getElem?_push, if_neg (Nat.ne_of_lt (show ident.index < names.entered.size from h))]

/-- The number of names on one line. -/
def summary (names : Names) : String := s!"Interner \x7b len: {names.size} \x7d"

end Names

/-- A construction that may enter names. -/
abbrev Naming := StateM Names

/-- Enters one name. -/
def naming (name : String) : Naming Ident := modifyGet fun names => names.intern name

end FpgaPacking
