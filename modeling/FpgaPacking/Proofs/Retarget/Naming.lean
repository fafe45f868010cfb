import FpgaPacking.Proofs.Names
import FpgaPacking.Proofs.Retarget.Atomicity

/-!
# The new names of ports

Finding out the new names of a cell's ports may enter some of them, and nothing
else changes.  They are the same in every later table of names, so it makes sense
to speak of the new names of a port without saying when.  Two of them are one
identifier exactly if they are the same text, and there is a collision exactly if
two of them are.
-/

namespace FpgaPacking
namespace Retarget

variable {rule : RetargetRule} {names earlier later after : Names} {old : Ident} {s t : Session}
  {ports : List Port} {named : List (Port × List Ident)}

/-- The names a port gets under the names of a table. -/
def newNames (rule : RetargetRule) (names : Names) (old : Ident) : List Ident :=
  (newPortNames rule old names).1

/-- The names a port gets, as texts. -/
def newTexts (rule : RetargetRule) (names : Names) (old : Ident) : List String :=
  match rule.portFanoutRename.find? old with
  | some new => new.map names.resolve
  | none =>
    match rule.portRename.find? old with
    | some new => [names.resolve new]
    | none => [stripBrackets (names.resolve old)]

/-! ## One port -/

/-- There is a fan-out, there is a new name, or the old one is stripped. -/
theorem newPortNames_cases (rule : RetargetRule) (old : Ident) :
    (∃ new, rule.portFanoutRename.find? old = some new ∧ ∀ names,
      newPortNames rule old names = (new, names) ∧
      newTexts rule names old = new.map names.resolve) ∨
    (∃ new, rule.portRename.find? old = some new ∧ ∀ names,
      newPortNames rule old names = ([new], names) ∧ newTexts rule names old = [names.resolve new]) ∨
    ∀ names, newPortNames rule old names =
      ([(names.intern (stripBrackets (names.resolve old))).1],
        (names.intern (stripBrackets (names.resolve old))).2) ∧
      newTexts rule names old = [stripBrackets (names.resolve old)] := by
  unfold newPortNames newTexts
  cases hfanout : rule.portFanoutRename.find? old with
  | some new => exact Or.inl ⟨new, rfl, fun _ => ⟨rfl, rfl⟩⟩
  | none =>
    cases hrename : rule.portRename.find? old with
    | some new => exact Or.inr (Or.inl ⟨new, rfl, fun _ => ⟨rfl, rfl⟩⟩)
    | none => exact Or.inr (Or.inr fun _ => ⟨rfl, rfl⟩)

theorem adds_newPortNames (rule : RetargetRule) (old : Ident) :
    Naming.Adds (newPortNames rule old) := by
  intro names
  rcases newPortNames_cases rule old with ⟨new, -, h⟩ | ⟨new, -, h⟩ | h
  · rw [(h names).1]
    exact .refl names
  · rw [(h names).1]
    exact .refl names
  · rw [(h names).1]
    exact .intern names _

/-- What is entered for the new names of a port is in every later table. -/
theorem newNames_settled (hrule : rule.Known names) (hold : names.Knows old)
    (hgrows : (newPortNames rule old names).2.Grows later) :
    newNames rule later old = newNames rule names old ∧
      (∀ new ∈ newNames rule later old, later.Knows new) ∧
      (newNames rule later old).map later.resolve = newTexts rule names old := by
  have hall : names.Grows later := (adds_newPortNames rule old names).trans hgrows
  unfold newNames
  rcases newPortNames_cases rule old with ⟨new, hnew, h⟩ | ⟨new, hnew, h⟩ | h
  · rw [(h later).1, (h names).1, (h names).2]
    have hknown := hrule.portFanoutRename old new hnew
    exact ⟨rfl, fun i hi => hall.knows (hknown i hi), List.map_congr_left fun i hi =>
      hall.resolve (hknown i hi)⟩
  · rw [(h later).1, (h names).1, (h names).2]
    have hknown := hrule.portRename old new hnew
    refine ⟨rfl, fun i hi => List.mem_singleton.mp hi ▸ hall.knows hknown, ?_⟩
    exact congrArg (fun text => [text]) (hall.resolve hknown)
  · rw [(h names).1] at hgrows
    have hentered := hgrows.entered (Names.entered_intern names (stripBrackets (names.resolve old)))
    rw [(h later).1, (h names).1, (h names).2, hall.resolve hold, Names.intern_of_entered hentered]
    refine ⟨rfl, fun i hi => List.mem_singleton.mp hi ▸ Names.knows_of_entered hentered, ?_⟩
    exact congrArg (fun text => [text]) (Names.resolve_of_entered hentered)

theorem newTexts_grows (hrule : rule.Known names) (hold : names.Knows old) (hgrows : names.Grows later) :
    newTexts rule later old = newTexts rule names old := by
  rcases newPortNames_cases rule old with ⟨new, hnew, h⟩ | ⟨new, hnew, h⟩ | h
  · rw [(h later).2, (h names).2]
    exact List.map_congr_left fun i hi => hgrows.resolve (hrule.portFanoutRename old new hnew i hi)
  · rw [(h later).2, (h names).2, hgrows.resolve (hrule.portRename old new hnew)]
  · rw [(h later).2, (h names).2, hgrows.resolve hold]

/-! ## All ports of a cell -/

/-- The new names of the ports have been found between the two tables. -/
structure Settled (rule : RetargetRule) (names later : Names) (ports : List Port) : Prop where
  grows : names.Grows later
  found : ∀ p ∈ ports, ∃ mid, names.Grows mid ∧ (newPortNames rule p.name mid).2.Grows later

namespace Settled

variable (h : Settled rule names later ports) (hrule : rule.Known names)
  (hports : ∀ p ∈ ports, names.Knows p.name)
include h

theorem since (hgrows : earlier.Grows names) : Settled rule earlier later ports where
  grows := hgrows.trans h.grows
  found p hp := by
    obtain ⟨mid, hmid, hlater⟩ := h.found p hp
    exact ⟨mid, hgrows.trans hmid, hlater⟩

theorem grown (hgrows : later.Grows after) : Settled rule names after ports where
  grows := h.grows.trans hgrows
  found p hp := by
    obtain ⟨mid, hmid, hlater⟩ := h.found p hp
    exact ⟨mid, hmid, hlater.trans hgrows⟩

include hrule hports

theorem newNames_eq (hgrows : later.Grows after) {p : Port} (hp : p ∈ ports) :
    newNames rule after p.name = newNames rule later p.name := by
  obtain ⟨mid, hmid, hlater⟩ := h.found p hp
  have hknown := hrule.grows hmid
  have hold := hmid.knows (hports p hp)
  rw [(newNames_settled hknown hold (hlater.trans hgrows)).1, (newNames_settled hknown hold hlater).1]

theorem knows {p : Port} (hp : p ∈ ports) : ∀ new ∈ newNames rule later p.name, later.Knows new := by
  obtain ⟨mid, hmid, hlater⟩ := h.found p hp
  exact (newNames_settled (hrule.grows hmid) (hmid.knows (hports p hp)) hlater).2.1

theorem texts {p : Port} (hp : p ∈ ports) :
    (newNames rule later p.name).map later.resolve = newTexts rule names p.name := by
  obtain ⟨mid, hmid, hlater⟩ := h.found p hp
  rw [(newNames_settled (hrule.grows hmid) (hmid.knows (hports p hp)) hlater).2.2]
  exact newTexts_grows hrule (hports p hp) hmid

/-- Different new names are different texts. -/
theorem nodup_iff : (ports.flatMap fun p => newNames rule later p.name).Nodup ↔
    (ports.flatMap fun p => newTexts rule names p.name).Nodup := by
  have htexts : (ports.flatMap fun p => newTexts rule names p.name) =
      (ports.flatMap fun p => newNames rule later p.name).map later.resolve := by
    rw [List.map_flatMap]
    exact List.flatMap_congr fun p hp => (h.texts hrule hports hp).symm
  have hknown : ∀ i ∈ ports.flatMap fun p => newNames rule later p.name, later.Knows i := by
    intro i hi
    obtain ⟨p, hp, hi⟩ := List.mem_flatMap.mp hi
    exact h.knows hrule hports hp i hi
  rw [htexts]
  refine ⟨fun hnodup => hnodup.map_on fun i hi j hj => ?_, List.Nodup.of_map _⟩
  exact (hknown i hi).resolve_inj (hknown j hj)

end Settled

theorem settled_of_named (h : (ports.mapM fun p => return (p, ← newPortNames rule p.name) :
      Packing (List (Port × List Ident))) s = .ok named t) (hrule : rule.Known s.names)
    (hports : ∀ p ∈ ports, s.names.Knows p.name) :
    Settled rule s.names t.names ports ∧ t.netlist = s.netlist ∧
      named = ports.map fun p => (p, newNames rule t.names p.name) := by
  induction ports generalizing s named with
  | nil =>
    obtain ⟨rfl, rfl⟩ := pure_ok.mp h
    exact ⟨⟨.refl _, nofun⟩, rfl, rfl⟩
  | cons p ports ih =>
    obtain ⟨hp, hports⟩ := List.forall_mem_cons.mp hports
    rw [List.mapM_cons] at h
    obtain ⟨entry, s₁, hfirst, h⟩ := bind_ok.mp h
    obtain ⟨rest, s₂, hrest, h⟩ := bind_ok.mp h
    obtain ⟨rfl, rfl⟩ := pure_ok.mp h
    obtain ⟨new, s₃, hnew, hfirst⟩ := bind_ok.mp hfirst
    obtain ⟨rfl, rfl⟩ := pure_ok.mp hfirst
    obtain ⟨hnew, hsame, -⟩ := Packing.name_ok.mp hnew
    have hgrows : s.names.Grows s₃.names := by
      have hadds := adds_newPortNames rule p.name s.names
      rwa [hnew] at hadds
    obtain ⟨hsettled, hkept, rfl⟩ := ih hrest (hrule.grows hgrows) fun q hq => hgrows.knows (hports q hq)
    have hlater : (newPortNames rule p.name s.names).2.Grows s₂.names := by
      rw [hnew]
      exact hsettled.grows
    refine ⟨⟨hgrows.trans hsettled.grows, List.forall_mem_cons.mpr ⟨⟨s.names, .refl _, hlater⟩, ?_⟩⟩,
      hkept.trans hsame, ?_⟩
    · intro q hq
      obtain ⟨mid, hmid, hfound⟩ := hsettled.found q hq
      exact ⟨mid, hgrows.trans hmid, hfound⟩
    · rw [List.map_cons, (newNames_settled hrule hp hlater).1, newNames, hnew]

/-! ## Collisions -/

theorem collision?_of_nodup {taken pairs : List (Ident × Ident)} (hnodup : (pairs.map (·.1)).Nodup)
    (hfree : ∀ pair ∈ pairs, taken.lookup pair.1 = none) : collision? taken pairs = none := by
  induction pairs generalizing taken with
  | nil => rfl
  | cons pair rest ih =>
    obtain ⟨new, old⟩ := pair
    obtain ⟨hfirst, hrest⟩ := List.nodup_cons.mp hnodup
    unfold collision?
    rw [hfree (new, old) List.mem_cons_self]
    refine ih hrest fun pair hpair => ?_
    have hne : pair.1 ≠ new := fun heq => hfirst (List.mem_map.mpr ⟨pair, hpair, heq⟩)
    rw [List.lookup_cons, beq_eq_false_iff_ne.mpr hne]
    exact hfree pair (List.mem_cons_of_mem _ hpair)

theorem collision?_eq_none {pairs : List (Ident × Ident)} :
    collision? [] pairs = none ↔ (pairs.map (·.1)).Nodup :=
  ⟨fun h => (nodup_of_collision? h).1, fun h => collision?_of_nodup h fun _ _ => rfl⟩

end Retarget
end FpgaPacking
