import FpgaPacking.Proofs.Chain.Layout
import Mathlib.Data.List.Chain

/-!
# Segments that are carried out

Carrying out a plan makes segments whose members are joined one to the next.  A
link is made, or found in place, when the plan reaches it, and from then on no
step moves a port of it: every chain input and every chain output is moved once
at most.  So the links hold when the chain is finished, and also when the chains
after it are.  A signal that went through the chain goes through all its segments.
-/

namespace FpgaPacking
namespace Chain

variable {f : Fabric} {nl nl' : Netlist} {moved : List PortRef} {chain members : List CellId}
  {a b : CellId}

/-- A link between two members survives edits that leave the first alone and move
no input of the second. -/
theorem Joined.edited (h : Joined f nl a b) (hw : nl.WellFormed) (he : Edited moved nl nl')
    (ha : ∀ r ∈ moved, r.cell ≠ a) (hb : ∀ r ∈ moved, r.cell = b → nl.dir r = some .output) :
    Joined f nl' a b := by
  obtain ⟨ca, cb, output, input, hca, hcb, hout, hin, hlinked⟩ := h
  obtain ⟨ma, hma⟩ := he.cells a ca hca
  obtain ⟨mb, hmb⟩ := he.cells b cb hcb
  refine ⟨_, _, output, input, hma, hmb, hout, hin, hlinked.edited hw he ?_ ?_⟩
  · exact fun hm => ha _ hm rfl
  · intro hm
    obtain ⟨k, -, -, -, hd, -⟩ := hlinked
    exact hd (hb _ hm rfl)

/-- The members from some cell of a segment on: joined to the end, and the end is
not read.  The cells are those of the chain and boundary cells. -/
structure SoundFrom (f : Fabric) (nl : Netlist) (chain members : List CellId) : Prop where
  joined : members.IsChain (Joined f nl)
  last : ∀ id c, members.getLast? = some id → nl.bare id = some c → c.role = .normal →
    Unread nl ⟨id, f.chainOut⟩
  live : ∀ id ∈ members, (nl.bare id).isSome
  within : ∀ id c, id ∈ members → nl.bare id = some c → id ∈ chain ∨ c.role ≠ .normal

/-- The members of a whole segment, the first of which is not fed. -/
structure Sound (f : Fabric) (nl : Netlist) (chain members : List CellId) : Prop
    extends SoundFrom f nl chain members where
  head : ∀ id c, members.head? = some id → nl.bare id = some c → c.role = .normal →
    Unfed nl ⟨id, f.chainIn⟩

/-- The role of a cell is the same before and after an edit. -/
theorem Edited.role_eq (he : Edited moved nl nl') {id : CellId} {c : Cell}
    (hlive : (nl.bare id).isSome) (hc : nl'.bare id = some c) :
    ∃ d, nl.bare id = some d ∧ d.role = c.role := by
  obtain ⟨d, hd⟩ := Option.isSome_iff_exists.mp hlive
  obtain ⟨m, hm⟩ := he.cells id d hd
  obtain rfl := Option.some.inj (hm.symm.trans hc)
  exact ⟨d, hd, rfl⟩

theorem Sound.edited (h : Sound f nl chain members) (hw : nl.WellFormed)
    (he : Edited moved nl nl') (hclear : ∀ r ∈ moved, r.cell ∉ members) :
    Sound f nl' chain members where
  joined := by
    refine h.joined.imp_of_mem_imp fun a b ha hb hj => hj.edited hw he ?_ ?_
    · rintro r hr rfl
      exact hclear r hr ha
    · rintro r hr rfl
      exact absurd hb (hclear r hr)
  last id c hid hc hrole := by
    have hmem : id ∈ members := List.mem_of_getLast? hid
    obtain ⟨d, hd, hdrole⟩ := he.role_eq (h.live id hmem) hc
    exact (h.last id d hid hd (hdrole.trans hrole)).edited hw he (h.live id hmem)
      fun hm => hclear _ hm hmem
  live id hid := he.bare_isSome (h.live id hid)
  within id c hid hc := by
    obtain ⟨d, hd, hdrole⟩ := he.role_eq (h.live id hid) hc
    rw [← hdrole]
    exact h.within id d hid hd
  head id c hid hc hrole := by
    have hmem : id ∈ members := List.mem_of_head? hid
    obtain ⟨d, hd, hdrole⟩ := he.role_eq (h.live id hmem) hc
    exact (h.head id d hid hd (hdrole.trans hrole)).edited hw he (h.live id hmem)
      fun hm => hclear _ hm hmem

namespace SoundFrom

/-- A chain cell whose output is not read ends a segment. -/
theorem singleton (hid : a ∈ chain) (hlive : (nl.bare a).isSome)
    (hunread : Unread nl ⟨a, f.chainOut⟩) : SoundFrom f nl chain [a] where
  joined := .singleton a
  last id c h _ _ := by
    obtain rfl : a = id := by simpa using h
    exact hunread
  live id h := by
    rw [List.mem_singleton.mp h]
    exact hlive
  within id c h _ := Or.inl (List.mem_singleton.mp h ▸ hid)

/-- A boundary cell ends a segment. -/
theorem singleton_boundary {c : Cell} (hc : nl.bare a = some c) (hrole : c.role ≠ .normal) :
    SoundFrom f nl chain [a] where
  joined := .singleton a
  last id d h hd hdrole := by
    obtain rfl : a = id := by simpa using h
    obtain rfl := Option.some.inj (hc.symm.trans hd)
    exact absurd hdrole hrole
  live id h := by
    rw [List.mem_singleton.mp h]
    simp [hc]
  within id d h hd := by
    rw [List.mem_singleton.mp h, hc] at hd
    obtain rfl := Option.some.inj hd
    exact Or.inr hrole

theorem cons (h : SoundFrom f nl chain (b :: members)) (hj : Joined f nl a b)
    (ha : ∀ c, nl.bare a = some c → a ∈ chain ∨ c.role ≠ .normal) :
    SoundFrom f nl chain (a :: b :: members) where
  joined := .cons_cons hj h.joined
  last id c hid hc hrole := h.last id c (by simpa using hid) hc hrole
  live id hid := by
    rcases List.mem_cons.mp hid with rfl | hid
    · obtain ⟨ca, _, _, _, hca, -⟩ := hj
      simp [hca]
    · exact h.live id hid
  within id c hid hc := by
    rcases List.mem_cons.mp hid with rfl | hid
    · exact ha c hc
    · exact h.within id c hid hc

theorem sound_of_boundary (h : SoundFrom f nl chain (a :: members)) {c : Cell}
    (hc : nl.bare a = some c) (hrole : c.role ≠ .normal) : Sound f nl chain (a :: members) where
  toSoundFrom := h
  head id d hid hd hdrole := by
    obtain rfl : a = id := by simpa using hid
    obtain rfl := Option.some.inj (hc.symm.trans hd)
    exact absurd hdrole hrole

theorem sound_of_unfed (h : SoundFrom f nl chain (a :: members))
    (hunfed : Unfed nl ⟨a, f.chainIn⟩) : Sound f nl chain (a :: members) where
  toSoundFrom := h
  head id d hid _ _ := by
    obtain rfl : a = id := by simpa using hid
    exact hunfed

end SoundFrom

/-! ## What is put into segments -/

/-- What is put into segments: the cells `rest` in their order, and new ones. -/
structure Added (nl : Netlist) (rest ids : List CellId) : Prop where
  live : ids.filter (fun id => (nl.bare id).isSome) = rest
  nodup : ids.Nodup

namespace Added

variable {rest ids rest' ids' : List CellId} {nl₁ : Netlist}

theorem nil : Added nl [] [] := ⟨rfl, .nil⟩

theorem of_live (h : (nl.bare a).isSome) : Added nl [a] [a] := ⟨by simp [h], List.nodup_singleton a⟩

theorem of_new (h : nl.bare a = none) : Added nl [] [a] := ⟨by simp [h], List.nodup_singleton a⟩

theorem mem_iff (h : Added nl rest ids) (ha : (nl.bare a).isSome) : a ∈ ids ↔ a ∈ rest := by
  rw [← h.live, List.mem_filter]
  exact ⟨fun hmem => ⟨hmem, ha⟩, And.left⟩

theorem isSome (h : Added nl rest ids) (ha : a ∈ rest) : (nl.bare a).isSome := by
  rw [← h.live] at ha
  exact (List.mem_filter.mp ha).2

/-- What is added after some edits, as seen before them. -/
theorem before (h : Added nl₁ rest ids) (hkept : ∀ id, (nl.bare id).isSome → (nl₁.bare id).isSome)
    (hlive : ∀ c ∈ rest, (nl.bare c).isSome) : Added nl rest ids := by
  refine ⟨?_, h.nodup⟩
  rw [← h.live]
  refine List.filter_congr fun id hid => ?_
  rw [Bool.eq_iff_iff]
  exact ⟨hkept id, fun hid' => hlive id ((h.mem_iff hid').mp hid)⟩

theorem append (h : Added nl rest ids) (h' : Added nl₁ rest' ids')
    (hkept : ∀ id, (nl.bare id).isSome → (nl₁.bare id).isSome)
    (hmade : ∀ id ∈ ids, (nl₁.bare id).isSome) (hlive : ∀ c ∈ rest', (nl.bare c).isSome)
    (hdisjoint : rest.Disjoint rest') : Added nl (rest ++ rest') (ids ++ ids') := by
  refine ⟨?_, h.nodup.append h'.nodup fun id hid hid' => ?_⟩
  · rw [List.filter_append, h.live, (h'.before hkept hlive).live]
  · -- What is there after the first edits is added later only if it is old.
    have hrest' := (h'.mem_iff (hmade id hid)).mp hid'
    exact hdisjoint ((h.mem_iff (hlive id hrest')).mp hid) hrest'

end Added

/-! ## Carrying out the rest of a plan -/

/-- The cell of the chain at which a segment ends.  A pass-out may come after it. -/
def Segment.tail? (chain : List CellId) (s : Segment) : Option CellId :=
  (s.members.filter chain.contains).getLast?

theorem Segment.tail?_of_getLast? {s : Segment} (h : s.members.getLast? = some a) (ha : a ∈ chain) :
    s.tail? chain = some a := by
  obtain ⟨before, hmembers⟩ := List.getLast?_eq_some_iff.mp h
  simp [tail?, hmembers, ha]

theorem Segment.tail?_addBoundary {s : Segment} (ha : a ∉ chain) :
    (s.addBoundary a).tail? chain = s.tail? chain := by
  simp [tail?, addBoundary, ha]

/-- The ports that the rest of a plan may move: inputs of the cells that are left,
and outputs of these and of the last cell before them. -/
def Movable (f : Fabric) (nl : Netlist) (last : Option CellId) (rest : List CellId)
    (r : PortRef) : Prop :=
  r.port = f.chainIn ∧ r.cell ∈ rest ∨
    r.port = f.chainOut ∧ nl.dir r = some .output ∧ (r.cell ∈ rest ∨ last = some r.cell)

/-- What the rest of a plan makes of an open segment: all segments are sound, the
open one from its last cell on. -/
def Completed (f : Fabric) (nl : Netlist) (chain : List CellId) (segment : Segment)
    (segments : List Segment) : Option CellId → Prop
  | none => segment.members = [] → ∀ s ∈ segments, Sound f nl chain s.members
  | some p => ∃ tail n others, segments = ⟨segment.members ++ tail, n⟩ :: others ∧
      SoundFrom f nl chain (p :: tail) ∧ ∀ s ∈ others, Sound f nl chain s.members

/-- What carrying out the rest of a plan does to the netlist and makes of an open
segment. -/
structure CarriedOut (f : Fabric) (nl nl' : Netlist) (chain : List CellId) (last : Option CellId)
    (rest : List CellId) (segment : Segment) (segments : List Segment) (moved : List PortRef)
    (ids : List CellId) : Prop where
  edited : Edited moved nl nl'
  origins : SameOrigins f nl nl'
  movable : ∀ r ∈ moved, Movable f nl last rest r
  completed : Completed f nl' chain segment segments last
  added : Added nl rest ids
  /-- A course through what is left goes through what is added, if the cells at which segments end
  are sole ones.  All the others then are. -/
  course : ∀ (sole : CellId → Prop) closed before, (∀ p, last = some p → before.getLast? = some p) →
    segment.members.getLast? = last → (∀ t ∈ segments, ∀ a, t.tail? chain = some a → sole a) →
    Course f nl sole closed (before ++ rest) →
      Course f nl' (fun a => sole a ∨ a ∈ last.toList ++ rest) closed (before ++ ids)
  /-- The open segment and those after it consist of what was there and what is added. -/
  members : segment.members.getLast? = last →
    segments.flatMap (·.members) = segment.members ++ ids ∧ ∀ t ∈ segments, t.members ≠ []

theorem Movable.cell {last : Option CellId} {rest : List CellId} {r : PortRef}
    (h : Movable f nl last rest r) : r.cell ∈ rest ∨ last = some r.cell := by
  rcases h with ⟨-, h⟩ | ⟨-, -, h⟩
  · exact Or.inl h
  · exact h

/-- Of the last cell only an output may be moved. -/
theorem Movable.dir {last : Option CellId} {rest : List CellId} {r : PortRef}
    (h : Movable f nl last rest r) (hr : r.cell ∉ rest) : nl.dir r = some .output := by
  rcases h with ⟨-, h⟩ | ⟨-, hd, -⟩
  · exact absurd h hr
  · exact hd

/-- An edit, and after it the rest of a plan. -/
theorem moves_trans {nl₁ : Netlist} {moved' : List PortRef} (last : Option CellId)
    (rest : List CellId) {last' : Option CellId} {rest' : List CellId}
    (he : Edited moved nl nl₁) (he' : Edited moved' nl₁ nl')
    (hm : ∀ r ∈ moved, Movable f nl last rest r) (hm' : ∀ r ∈ moved', Movable f nl₁ last' rest' r)
    (hrest : ∀ c ∈ rest', c ∈ rest) (hlast : ∀ p, last' = some p → p ∈ rest)
    (hlive : ∀ c ∈ rest, (nl.bare c).isSome) :
    Edited (moved ++ moved') nl nl' ∧ ∀ r ∈ moved ++ moved', Movable f nl last rest r := by
  have hcell : ∀ r ∈ moved', r.cell ∈ rest := by
    intro r hr
    rcases (hm' r hr).cell with h | h
    · exact hrest _ h
    · exact hlast _ h
  refine ⟨he.trans he' fun r hr => hlive _ (hcell r hr), fun r hr => ?_⟩
  rcases List.mem_append.mp hr with hr | hr
  · exact hm r hr
  · have hmem := hcell r hr
    rcases hm' r hr with ⟨hport, -⟩ | ⟨hport, hd, -⟩
    · exact Or.inl ⟨hport, hmem⟩
    · rw [he.dir (hlive _ hmem)] at hd
      exact Or.inr ⟨hport, hd, Or.inl hmem⟩

/-- A link made before the rest of a plan extends what the rest makes to the left. -/
theorem SoundFrom.cons_edited (h : SoundFrom f nl' chain (b :: members)) (hw : nl.WellFormed)
    (he : Edited moved nl nl') (hj : Joined f nl a b) (ha : ∀ r ∈ moved, r.cell ≠ a)
    (hb : ∀ r ∈ moved, r.cell = b → nl.dir r = some .output)
    (hrole : ∀ c, nl.bare a = some c → a ∈ chain ∨ c.role ≠ .normal) :
    SoundFrom f nl' chain (a :: b :: members) := by
  refine h.cons (hj.edited hw he ha hb) fun c hc => ?_
  obtain ⟨ca, _, _, _, hca, -⟩ := hj
  obtain ⟨d, hd, hdrole⟩ := he.role_eq (by simp [hca]) hc
  rw [← hdrole]
  exact hrole d hd

theorem NewBoundary.ne (h : NewBoundary nl nl' a) (hb : (nl.bare b).isSome) : b ≠ a := by
  rintro rfl
  rw [h.1] at hb
  cases hb

/-- Directly linked chain cells are joined. -/
theorem ChainCell.joined (ha : ChainCell f nl a) (hb : ChainCell f nl b)
    (hl : Linked nl ⟨a, f.chainOut⟩ ⟨b, f.chainIn⟩) : Joined f nl a b := by
  obtain ⟨ca, hca, harole⟩ := ha.normal
  obtain ⟨cb, hcb, hbrole⟩ := hb.normal
  exact ⟨ca, cb, f.chainOut, f.chainIn, hca, hcb, by rw [harole]; rfl, by rw [hbrole]; rfl, hl⟩

/-- The signal of a chain cell enters the one that it is directly linked to. -/
theorem ChainCell.goesTo (ha : ChainCell f nl a) (hb : ChainCell f nl b) (hcarries : Carries f nl b)
    (hl : Linked nl ⟨a, f.chainOut⟩ ⟨b, f.chainIn⟩) : GoesTo f nl a (some b) := by
  obtain ⟨ca, hca, harole⟩ := ha.normal
  obtain ⟨cb, hcb, hbrole⟩ := hb.normal
  exact .of_linked hl (signal_normal hca harole) (hcarries.enters hcb hbrole)

/-! ### What is left of a chain -/

/-- What is left of a chain, and the last cell before it, which is not among the
cells that are left: all are ordinary cells of the chain. -/
structure Pending (f : Fabric) (nl : Netlist) (chain : List CellId) (last : Option CellId)
    (rest : List CellId) : Prop where
  of_last : ∀ p, last = some p → ChainCell f nl p ∧ p ∈ chain ∧ p ∉ rest
  of_rest : ∀ c ∈ rest, ChainCell f nl c ∧ c ∈ chain
  of_chain : ∀ c ∈ chain, (nl.bare c).isSome
  nodup : rest.Nodup

section Steps

variable {nl₁ : Netlist} {p c i : CellId} {last : Option CellId} {rest : List CellId}
  {segment : Segment} {segments : List Segment} {steps : List Step}

namespace Pending

/-- All cells of a chain are left at first. -/
theorem all (hcells : ∀ c ∈ chain, ChainCell f nl c) (hnodup : chain.Nodup) :
    Pending f nl chain none chain where
  of_last := nofun
  of_rest c hc := ⟨hcells c hc, hc⟩
  of_chain c hc := (hcells c hc).live
  nodup := hnodup

theorem live (h : Pending f nl chain last rest) : ∀ c ∈ rest, (nl.bare c).isSome :=
  fun c hc => (h.of_rest c hc).1.live

theorem edited (h : Pending f nl chain last rest) (he : Edited moved nl nl') :
    Pending f nl' chain last rest where
  of_last p hp := by
    obtain ⟨hcell, hother⟩ := h.of_last p hp
    exact ⟨hcell.edited he, hother⟩
  of_rest c hc := by
    obtain ⟨hcell, hchain⟩ := h.of_rest c hc
    exact ⟨hcell.edited he, hchain⟩
  of_chain c hc := he.bare_isSome (h.of_chain c hc)
  nodup := h.nodup

theorem close (h : Pending f nl chain last rest) : Pending f nl chain none rest where
  of_last := nofun
  of_rest := h.of_rest
  of_chain := h.of_chain
  nodup := h.nodup

theorem next (h : Pending f nl chain last (c :: rest)) : Pending f nl chain (some c) rest where
  of_last p hp := by
    obtain rfl := Option.some.inj hp
    obtain ⟨hcell, hchain⟩ := h.of_rest c List.mem_cons_self
    exact ⟨hcell, hchain, (List.nodup_cons.mp h.nodup).1⟩
  of_rest d hd := h.of_rest d (List.mem_cons_of_mem c hd)
  of_chain := h.of_chain
  nodup := (List.nodup_cons.mp h.nodup).2

/-- A segment ends at its last cell, also when a new boundary cell comes after it. -/
theorem tail?_addBoundary (h : Pending f nl chain (some p) rest) (hnew : NewBoundary nl nl₁ i)
    (hlast : segment.members.getLast? = some p) :
    (segment.addBoundary i).tail? chain = some p := by
  rw [Segment.tail?_addBoundary fun hi => hnew.ne (h.of_chain i hi) rfl]
  exact Segment.tail?_of_getLast? hlast (h.of_last p rfl).2.1

/-- The next cell is put into a segment. -/
theorem added_next {ids : List CellId} (h : Pending f nl chain last (c :: rest))
    (hadded : Added nl rest ids) : Added nl (c :: rest) (c :: ids) := by
  obtain ⟨hc, -, hcrest⟩ := h.next.of_last c rfl
  refine (Added.of_live hc.live).append hadded (fun _ hid => hid) ?_ h.next.live ?_
  · rintro id hid
    rw [List.mem_singleton.mp hid]
    exact hc.live
  · exact List.singleton_disjoint.mpr hcrest

/-- A new boundary cell is put into a segment before the cells that are left. -/
theorem added_boundary {ids : List CellId} (h : Pending f nl chain last rest)
    (he : Edited moved nl nl₁) (hnew : NewBoundary nl nl₁ i) (hadded : Added nl₁ rest ids) :
    Added nl rest (i :: ids) := by
  obtain ⟨hfresh, d, hd, -⟩ := hnew
  refine (Added.of_new hfresh).append hadded (fun _ => he.bare_isSome) ?_ h.live
    (List.disjoint_nil_left rest)
  rintro id hid
  rw [List.mem_singleton.mp hid, hd]
  rfl

/-- A pass-out after the last cell leaves the layout of the rest in force. -/
theorem layout_close (h : Pending f nl chain (some p) rest) (hlay : Layout f nl none rest steps)
    (hw : nl.WellFormed) (he : Edited [⟨p, f.chainOut⟩] nl nl₁) : Layout f nl₁ none rest steps := by
  refine hlay.edited hw he nofun fun d hd => ⟨h.live d hd, fun port hm => ?_⟩
  obtain rfl : d = p := congrArg PortRef.cell (List.mem_singleton.mp hm)
  exact (h.of_last d rfl).2.2 hd

/-- A boundary cell before the cell `c` leaves the layout after `c` in force. -/
theorem layout_next (h : Pending f nl chain last (c :: rest))
    (hlay : Layout f nl (some c) rest steps) (hw : nl.WellFormed) (he : Edited moved nl nl₁)
    (hinput : ⟨c, f.chainIn⟩ ∈ moved)
    (hmoved : ∀ r ∈ moved, r = ⟨c, f.chainIn⟩ ∨ last = some r.cell) :
    Layout f nl₁ (some c) rest steps := by
  obtain ⟨hc, -, hcrest⟩ := h.next.of_last c rfl
  refine hlay.edited hw he ?_ fun d hd => ⟨h.next.live d hd, fun port hm => ?_⟩
  · rintro p ⟨⟩
    refine ⟨hc.live, fun hm => ?_⟩
    rcases hmoved _ hm with hsame | hlast
    · exact hc.ports_ne (he.moved_from _ hinput) hsame
    · exact (h.of_last c hlast).2.2 List.mem_cons_self
  · rcases hmoved _ hm with hsame | hlast
    · obtain rfl : d = c := congrArg PortRef.cell hsame
      exact hcrest hd
    · exact (h.of_last d hlast).2.2 (List.mem_cons_of_mem c hd)

theorem layout_startFed (h : Pending f nl chain last (c :: rest))
    (hlay : Layout f nl (some c) rest steps) (hw : nl.WellFormed)
    (he : Edited [⟨c, f.chainIn⟩] nl nl₁) : Layout f nl₁ (some c) rest steps :=
  h.layout_next hlay hw he (List.mem_singleton_self _) fun _ hr => Or.inl (List.mem_singleton.mp hr)

theorem layout_joinThrough (h : Pending f nl chain (some p) (c :: rest))
    (hlay : Layout f nl (some c) rest steps) (hw : nl.WellFormed)
    (he : Edited [⟨p, f.chainOut⟩, ⟨c, f.chainIn⟩] nl nl₁) : Layout f nl₁ (some c) rest steps := by
  refine h.layout_next hlay hw he (by simp) fun r hr => ?_
  rcases List.mem_cons.mp hr with rfl | hr
  · exact Or.inr rfl
  · exact Or.inl (List.mem_singleton.mp hr)

end Pending

/-! ### One step before the rest -/

theorem movable_chainOut (hp : ChainCell f nl p) (hmem : p ∈ rest ∨ last = some p)
    (he : Edited moved nl nl₁) (hm : (⟨p, f.chainOut⟩ : PortRef) ∈ moved) :
    Movable f nl last rest ⟨p, f.chainOut⟩ := by
  obtain ⟨k, hk⟩ := Option.isSome_iff_exists.mp (he.moved_from _ hm)
  exact Or.inr ⟨rfl, hp.dir_chainOut hk, hmem⟩

/-- The rest of a plan after the cell `c` moves no input of `c`. -/
theorem dir_of_movable (hc : c ∉ rest) {r : PortRef} (hr : Movable f nl (some c) rest r)
    (hrc : r.cell = c) : nl.dir r = some .output :=
  hr.dir (hrc ▸ hc)

/-- The rest of a plan after the cell `c` stays away from other cells before it. -/
theorem cell_ne_of_movable (ha : a ∉ c :: rest) {r : PortRef} (hr : Movable f nl (some c) rest r) :
    r.cell ≠ a := by
  rintro rfl
  rcases hr.cell with h | h
  · exact ha (List.mem_cons_of_mem c h)
  · exact ha (Option.some.inj h ▸ List.mem_cons_self)

theorem movable_cons {r : PortRef} (hr : Movable f nl (some c) rest r) :
    Movable f nl last (c :: rest) r := by
  have hmem : r.cell ∈ c :: rest := by
    rcases hr.cell with h | h
    · exact List.mem_cons_of_mem c h
    · rw [Option.some.inj h]
      exact List.mem_cons_self
  rcases hr with ⟨hport, -⟩ | ⟨hport, hd, -⟩
  · exact Or.inl ⟨hport, hmem⟩
  · exact Or.inr ⟨hport, hd, Or.inl hmem⟩

theorem CarriedOut.finish (hw : nl.WellFormed) (hpending : Pending f nl chain (some p) [])
    (hunread : Unread nl ⟨p, f.chainOut⟩) :
    CarriedOut f nl nl chain (some p) [] segment [segment] [] [] where
  edited := .refl hw
  origins := .refl
  movable := nofun
  completed := by
    obtain ⟨hp, hchain, -⟩ := hpending.of_last p rfl
    exact ⟨[], segment.chainCells, [], by simp, .singleton hchain hp.live hunread, nofun⟩
  added := .nil
  course sole _ _ _ hopen hsole h := by
    have hp := hsole segment (List.mem_singleton_self _) p
      (Segment.tail?_of_getLast? hopen (hpending.of_last p rfl).2.1)
    refine h.mono fun a ha => ha.elim id fun hmem => ?_
    rw [List.mem_singleton.mp hmem]
    exact hp
  members hlast := by
    have hne : segment.members ≠ [] := List.ne_nil_of_mem (List.mem_of_getLast? hlast)
    simpa using hne

theorem CarriedOut.finishOut (hpending : Pending f nl chain (some p) [])
    (hi : Inserted f .passOut [⟨p, f.chainOut⟩] (some p) none nl nl₁ i) :
    CarriedOut f nl nl₁ chain (some p) [] segment [segment.addBoundary i] [⟨p, f.chainOut⟩] [i] where
  edited := hi.edited
  origins := hi.origins
  movable r hr := by
    obtain rfl := List.mem_singleton.mp hr
    exact movable_chainOut (hpending.of_last p rfl).1 (Or.inr rfl) hi.edited hr
  completed := by
    obtain ⟨-, hchain, -⟩ := hpending.of_last p rfl
    obtain ⟨-, d, hd, hrole⟩ := hi.new
    refine ⟨[i], segment.chainCells, [], rfl, ?_, nofun⟩
    exact (SoundFrom.singleton_boundary hd hrole).cons (hi.joined_prev p rfl) fun _ _ => Or.inl hchain
  added := .of_new hi.new.1
  course sole closed before hlast hopen hsole h := by
    have hp := hsole _ (List.mem_singleton_self _) p (hpending.tail?_addBoundary hi.new hopen)
    have hplaced := hi.takesPlace sole closed before []
      (by rintro _ ⟨⟩; exact ⟨hlast p rfl, fun _ => hp⟩) nofun h
    refine hplaced.mono fun a ha => ?_
    simpa [eq_comm] using ha
  members _ := by simp [Segment.addBoundary]

theorem CarriedOut.split {ids : List CellId} (hpending : Pending f nl chain (some p) rest)
    (hi : Inserted f .passOut [⟨p, f.chainOut⟩] (some p) none nl nl₁ i)
    (h : CarriedOut f nl₁ nl' chain none rest .empty segments moved ids) :
    CarriedOut f nl nl' chain (some p) rest segment (segment.addBoundary i :: segments)
      (⟨p, f.chainOut⟩ :: moved) (i :: ids) := by
  obtain ⟨hp, hchain, hprest⟩ := hpending.of_last p rfl
  obtain ⟨hedited, hmoves⟩ := moves_trans (some p) rest hi.edited h.edited (fun r hr => by
    obtain rfl := List.mem_singleton.mp hr
    exact movable_chainOut hp (Or.inr rfl) hi.edited hr) h.movable (fun _ h => h) nofun hpending.live
  have haway : ∀ r ∈ moved, r.cell ∈ rest := fun r hr => (h.movable r hr).cell.resolve_right nofun
  obtain ⟨d, hd, hrole⟩ := hi.new.2
  obtain ⟨m, hm⟩ := h.edited.cells i d hd
  refine ⟨hedited, hi.origins.trans h.origins hi.edited, hmoves, ?_,
    hpending.added_boundary hi.edited hi.new h.added, ?_, ?_⟩
  · refine ⟨[i], segment.chainCells, segments, rfl, ?_, h.completed rfl⟩
    refine (SoundFrom.singleton_boundary hm hrole).cons_edited hi.edited.wellFormed h.edited
      (hi.joined_prev p rfl) ?_ ?_ ?_
    · rintro r hr rfl
      exact hprest (haway r hr)
    · intro r hr hri
      exact absurd hri (hi.new.ne (hpending.live _ (haway r hr)))
    · exact fun _ _ => Or.inl hchain
  · intro sole closed before hlast hopen hsole hold
    obtain ⟨hpsole, hothers⟩ := List.forall_mem_cons.mp hsole
    have hp := hpsole p (hpending.tail?_addBoundary hi.new hopen)
    have hplaced := hi.takesPlace sole closed before rest
      (by rintro _ ⟨⟩; exact ⟨hlast p rfl, fun _ => hp⟩) nofun hold
    rw [List.append_cons before i] at hplaced ⊢
    refine (h.course _ closed (before ++ [i]) nofun rfl (fun t ht a ha => Or.inl (hothers t ht a ha))
      hplaced).mono fun a ha => ?_
    simpa [or_assoc, eq_comm] using ha
  · intro _
    obtain ⟨hflat, hne⟩ := h.members rfl
    refine ⟨?_, List.forall_mem_cons.mpr ⟨by simp [Segment.addBoundary], hne⟩⟩
    rw [List.flatMap_cons, hflat]
    simp [Segment.addBoundary, Segment.empty]

/-- The next cell is put at its place in a course. -/
theorem CarriedOut.course_cons {ids : List CellId} {sole : CellId → Prop} {closed : Bool}
    {before : List CellId}
    (h : CarriedOut f nl nl' chain (some c) rest (segment.addChainCell c) segments moved ids)
    (hsole : ∀ t ∈ segments, ∀ a, t.tail? chain = some a → sole a)
    (hold : Course f nl sole closed (before ++ c :: rest)) :
    Course f nl' (fun a => sole a ∨ a ∈ c :: rest) closed (before ++ c :: ids) := by
  rw [List.append_cons before c] at hold ⊢
  exact h.course sole closed (before ++ [c]) (by simp) (by simp [Segment.addChainCell]) hsole hold

/-- The next cell and a boundary cell before it are put at their places in a course. -/
theorem CarriedOut.course_inserted {ids : List CellId} {prev : Option CellId}
    {sole : CellId → Prop} {closed : Bool} {before : List CellId}
    (hi : TakesPlace f nl nl₁ i prev (some c))
    (h : CarriedOut f nl₁ nl' chain (some c) rest ((segment.addBoundary i).addChainCell c) segments
      moved ids)
    (hprev : ∀ p, prev = some p → before.getLast? = some p)
    (hsole : ∀ t ∈ segments, ∀ a, t.tail? chain = some a → sole a)
    (hold : Course f nl sole closed (before ++ c :: rest)) :
    Course f nl' (fun a => sole a ∨ a ∈ prev.toList ++ c :: rest) closed
      (before ++ i :: c :: ids) := by
  have hplaced := hi sole closed before (c :: rest) (fun p hp => ⟨hprev p hp, nofun⟩)
    (by rintro _ ⟨⟩; rfl) hold
  rw [List.append_cons before i] at hplaced ⊢
  refine (h.course_cons (fun t ht a ha => Or.inl (hsole t ht a ha)) hplaced).mono fun a ha => ?_
  simpa [or_assoc, eq_comm] using ha

theorem CarriedOut.start {ids : List CellId} (hpending : Pending f nl chain none (c :: rest))
    (hw : nl.WellFormed) (hunfed : Unfed nl ⟨c, f.chainIn⟩)
    (h : CarriedOut f nl nl' chain (some c) rest (segment.addChainCell c) segments moved ids) :
    CarriedOut f nl nl' chain none (c :: rest) segment segments moved (c :: ids) := by
  obtain ⟨hc, -, hcrest⟩ := hpending.next.of_last c rfl
  refine ⟨h.edited, h.origins, fun r hr => movable_cons (h.movable r hr), fun hempty s hs => ?_,
    hpending.added_next h.added, fun _ _ _ _ _ => h.course_cons, fun _ => ?_⟩
  · obtain ⟨tail, n, others, rfl, hsound, hothers⟩ := h.completed
    rcases List.mem_cons.mp hs with rfl | hs
    · show Sound f nl' chain ((segment.members ++ [c]) ++ tail)
      rw [hempty]
      refine hsound.sound_of_unfed (hunfed.edited hw h.edited hc.live fun hmoved => ?_)
      exact hc.chainIn (dir_of_movable hcrest (h.movable _ hmoved) rfl)
    · exact hothers s hs
  · simpa [Segment.addChainCell] using h.members (by simp [Segment.addChainCell])

/-- A boundary cell that drives `c` extends to the left what is made from `c` on. -/
theorem SoundFrom.cons_boundary {role : Role} {prev : Option CellId}
    (hpending : Pending f nl chain last (c :: rest))
    (hi : Inserted f role moved prev (some c) nl nl₁ i) {moved' : List PortRef}
    (he : Edited moved' nl₁ nl')
    (hm : ∀ r ∈ moved', Movable f nl₁ (some c) rest r) {tail : List CellId}
    (hsound : SoundFrom f nl' chain (c :: tail)) :
    SoundFrom f nl' chain (i :: c :: tail) ∧ (∀ r ∈ moved', r.cell ≠ i) ∧
      ∃ d, nl'.bare i = some d ∧ d.role ≠ .normal := by
  obtain ⟨d, hd, hrole⟩ := hi.new.2
  obtain ⟨m, hlater⟩ := he.cells i d hd
  have hout : i ∉ c :: rest := fun hmem => hi.new.ne (hpending.live i hmem) rfl
  have haway : ∀ r ∈ moved', r.cell ≠ i := fun r hr => cell_ne_of_movable hout (hm r hr)
  have hcrest := (hpending.next.of_last c rfl).2.2
  refine ⟨?_, haway, _, hlater, hrole⟩
  refine hsound.cons_edited hi.edited.wellFormed he (hi.joined_next c rfl) haway
    (fun r hr => dir_of_movable hcrest (hm r hr)) fun e he₁ => ?_
  obtain rfl := Option.some.inj (hd.symm.trans he₁)
  exact Or.inr hrole

theorem CarriedOut.startFed {ids : List CellId} (hpending : Pending f nl chain none (c :: rest))
    (hi : Inserted f .feedIn [⟨c, f.chainIn⟩] none (some c) nl nl₁ i)
    (h : CarriedOut f nl₁ nl' chain (some c) rest ((segment.addBoundary i).addChainCell c) segments
      moved ids) :
    CarriedOut f nl nl' chain none (c :: rest) segment segments (⟨c, f.chainIn⟩ :: moved)
      (i :: c :: ids) := by
  obtain ⟨hedited, hmoves⟩ := moves_trans none (c :: rest) hi.edited h.edited (fun r hr => by
    obtain rfl := List.mem_singleton.mp hr
    exact Or.inl ⟨rfl, List.mem_cons_self⟩) h.movable (fun d hd => List.mem_cons_of_mem c hd)
    (by rintro p ⟨⟩; exact List.mem_cons_self) hpending.live
  refine ⟨hedited, hi.origins.trans h.origins hi.edited, hmoves, fun hempty s hs => ?_,
    hpending.added_boundary hi.edited hi.new ((hpending.edited hi.edited).added_next h.added),
    fun _ _ _ hlast _ => h.course_inserted hi.takesPlace hlast, fun _ => ?_⟩
  · obtain ⟨tail, n, others, rfl, hsound, hothers⟩ := h.completed
    rcases List.mem_cons.mp hs with rfl | hs
    · show Sound f nl' chain (((segment.members ++ [i]) ++ [c]) ++ tail)
      rw [hempty]
      obtain ⟨hfrom, -, d, hd, hrole⟩ := hsound.cons_boundary hpending hi h.edited h.movable
      exact hfrom.sound_of_boundary hd hrole
    · exact hothers s hs
  · simpa [Segment.addChainCell, Segment.addBoundary] using
      h.members (by simp [Segment.addChainCell])

theorem CarriedOut.join {ids : List CellId} (hpending : Pending f nl chain (some p) (c :: rest))
    (hw : nl.WellFormed) (hl : Linked nl ⟨p, f.chainOut⟩ ⟨c, f.chainIn⟩)
    (h : CarriedOut f nl nl' chain (some c) rest (segment.addChainCell c) segments moved ids) :
    CarriedOut f nl nl' chain (some p) (c :: rest) segment segments moved (c :: ids) := by
  obtain ⟨hp, hchain, hprest⟩ := hpending.of_last p rfl
  obtain ⟨hc, -, hcrest⟩ := hpending.next.of_last c rfl
  refine ⟨h.edited, h.origins, fun r hr => movable_cons (h.movable r hr), ?_,
    hpending.added_next h.added, ?_, fun _ => ?_⟩
  · obtain ⟨tail, n, others, rfl, hsound, hothers⟩ := h.completed
    refine ⟨c :: tail, n, others, by simp [Segment.addChainCell], ?_, hothers⟩
    exact hsound.cons_edited hw h.edited (hp.joined hc hl)
      (fun r hr => cell_ne_of_movable hprest (h.movable r hr))
      (fun r hr => dir_of_movable hcrest (h.movable r hr)) fun _ _ => Or.inl hchain
  · intro sole closed before hlast _ hsole hold
    have hgoes : GoesTo f nl p (some c) := hp.goesTo hc (hold.carries c (by simp)) hl
    have hsettled := hold.settle (hlast p rfl) hgoes
    refine (h.course_cons (fun t ht a ha => Or.inl (hsole t ht a ha)) hsettled).mono fun a ha => ?_
    simpa [or_assoc, eq_comm] using ha
  · simpa [Segment.addChainCell] using h.members (by simp [Segment.addChainCell])

theorem CarriedOut.joinThrough {ids : List CellId}
    (hpending : Pending f nl chain (some p) (c :: rest))
    (hi : Inserted f .passThrough [⟨p, f.chainOut⟩, ⟨c, f.chainIn⟩] (some p) (some c) nl nl₁ i)
    (h : CarriedOut f nl₁ nl' chain (some c) rest ((segment.addBoundary i).addChainCell c) segments
      moved ids) :
    CarriedOut f nl nl' chain (some p) (c :: rest) segment segments
      (⟨p, f.chainOut⟩ :: ⟨c, f.chainIn⟩ :: moved) (i :: c :: ids) := by
  obtain ⟨hp, hchain, hprest⟩ := hpending.of_last p rfl
  obtain ⟨hedited, hmoves⟩ := moves_trans (some p) (c :: rest) hi.edited h.edited (fun r hr => by
    rcases List.mem_cons.mp hr with rfl | hr'
    · exact movable_chainOut hp (Or.inr rfl) hi.edited hr
    · obtain rfl := List.mem_singleton.mp hr'
      exact Or.inl ⟨rfl, List.mem_cons_self⟩) h.movable (fun d hd => List.mem_cons_of_mem c hd)
    (by rintro p ⟨⟩; exact List.mem_cons_self) hpending.live
  refine ⟨hedited, hi.origins.trans h.origins hi.edited, hmoves, ?_,
    hpending.added_boundary hi.edited hi.new ((hpending.edited hi.edited).added_next h.added),
    fun _ _ _ hlast _ => h.course_inserted hi.takesPlace hlast, fun _ => ?_⟩
  · obtain ⟨tail, n, others, rfl, hsound, hothers⟩ := h.completed
    obtain ⟨hfrom, haway, -⟩ := hsound.cons_boundary hpending hi h.edited h.movable
    refine ⟨i :: c :: tail, n, others, by simp [Segment.addChainCell, Segment.addBoundary], ?_,
      hothers⟩
    exact hfrom.cons_edited hi.edited.wellFormed h.edited (hi.joined_prev p rfl)
      (fun r hr => cell_ne_of_movable hprest (h.movable r hr))
      (fun r hr hri => absurd hri (haway r hr)) fun _ _ => Or.inl hchain
  · simpa [Segment.addChainCell, Segment.addBoundary] using
      h.members (by simp [Segment.addChainCell])

end Steps

/-- A run that carries out the rest of a plan, one step of its layout after the other. -/
inductive Execution (f : Fabric) (chain : List CellId) : Session → Option CellId → List CellId →
    Segment → List Step → List Segment → Session → Prop
  | done {s : Session} {segment : Segment} (hw : s.netlist.WellFormed) :
      Execution f chain s none [] segment [] [] s
  | finish {s : Session} {p : CellId} {segment : Segment} (hw : s.netlist.WellFormed)
      (hpending : Pending f s.netlist chain (some p) [])
      (hunread : Unread s.netlist ⟨p, f.chainOut⟩) :
      Execution f chain s (some p) [] segment [.close] [segment] s
  | finishOut {s s' : Session} {p i : CellId} {segment : Segment}
      (hpending : Pending f s.netlist chain (some p) [])
      (hi : Inserted f .passOut [⟨p, f.chainOut⟩] (some p) none s.netlist s'.netlist i) :
      Execution f chain s (some p) [] segment [.passOut p, .close] [segment.addBoundary i] s'
  | split {s s₁ s' : Session} {p i : CellId} {rest : List CellId} {segment : Segment}
      {steps : List Step} {segments : List Segment}
      (hpending : Pending f s.netlist chain (some p) rest)
      (hi : Inserted f .passOut [⟨p, f.chainOut⟩] (some p) none s.netlist s₁.netlist i)
      (h : Execution f chain s₁ none rest .empty steps segments s') :
      Execution f chain s (some p) rest segment (.passOut p :: .close :: steps)
        (segment.addBoundary i :: segments) s'
  | start {s s' : Session} {c : CellId} {rest : List CellId} {segment : Segment}
      {steps : List Step} {segments : List Segment} (hw : s.netlist.WellFormed)
      (hpending : Pending f s.netlist chain none (c :: rest))
      (hunfed : Unfed s.netlist ⟨c, f.chainIn⟩)
      (h : Execution f chain s (some c) rest (segment.addChainCell c) steps segments s') :
      Execution f chain s none (c :: rest) segment (.member c :: steps) segments s'
  | startFed {s s₁ s' : Session} {c i : CellId} {rest : List CellId} {segment : Segment}
      {steps : List Step} {segments : List Segment}
      (hpending : Pending f s.netlist chain none (c :: rest))
      (hi : Inserted f .feedIn [⟨c, f.chainIn⟩] none (some c) s.netlist s₁.netlist i)
      (h : Execution f chain s₁ (some c) rest ((segment.addBoundary i).addChainCell c) steps
        segments s') :
      Execution f chain s none (c :: rest) segment (.feedIn c :: .member c :: steps) segments s'
  | join {s s' : Session} {p c : CellId} {rest : List CellId} {segment : Segment}
      {steps : List Step} {segments : List Segment} (hw : s.netlist.WellFormed)
      (hpending : Pending f s.netlist chain (some p) (c :: rest))
      (hlinked : Linked s.netlist ⟨p, f.chainOut⟩ ⟨c, f.chainIn⟩)
      (h : Execution f chain s (some c) rest (segment.addChainCell c) steps segments s') :
      Execution f chain s (some p) (c :: rest) segment (.member c :: steps) segments s'
  | joinThrough {s s₁ s' : Session} {p c i : CellId} {rest : List CellId} {segment : Segment}
      {steps : List Step} {segments : List Segment}
      (hpending : Pending f s.netlist chain (some p) (c :: rest))
      (hi : Inserted f .passThrough [⟨p, f.chainOut⟩, ⟨c, f.chainIn⟩] (some p) (some c) s.netlist
        s₁.netlist i)
      (h : Execution f chain s₁ (some c) rest ((segment.addBoundary i).addChainCell c) steps
        segments s') :
      Execution f chain s (some p) (c :: rest) segment (.passThrough p c :: .member c :: steps)
        segments s'

/-- Every regular run that carries out the rest of a plan is an execution of its layout. -/
theorem execution_of_carryOut (hf : f.Declared) (steps : List Step) {last : Option CellId}
    {rest : List CellId} {segment : Segment} {segments : List Segment} {s s' : Session}
    (hw : s.netlist.WellFormed) (hlayout : Layout f s.netlist last rest steps)
    (hpending : Pending f s.netlist chain last rest)
    (h : carryOut f segment steps s = .ok segments s') :
    Execution f chain s last rest segment steps segments s' := by
  induction hn : steps.length using Nat.strongRecOn generalizing steps last rest segment segments s with
  | ind n ih =>
    cases hlayout with
    | done =>
      obtain ⟨rfl, rfl⟩ := pure_ok.mp h
      exact .done hw
    | @finish p hunread =>
      obtain ⟨others, s₁, hothers, h⟩ := bind_ok.mp h
      obtain ⟨rfl, rfl⟩ := pure_ok.mp hothers
      obtain ⟨rfl, rfl⟩ := pure_ok.mp h
      exact .finish hw hpending hunread
    | @finishOut p hwired =>
      obtain ⟨i, s₁, hinsert, h⟩ := bind_ok.mp h
      obtain ⟨others, s₂, hothers, h⟩ := bind_ok.mp h
      obtain ⟨rfl, rfl⟩ := pure_ok.mp hothers
      obtain ⟨rfl, rfl⟩ := pure_ok.mp h
      exact .finishOut hpending (insertPassOut_ok hf hw (hpending.of_last p rfl).1 hinsert)
    | @split p c rest steps htogether hlay =>
      obtain ⟨i, s₁, hinsert, h⟩ := bind_ok.mp h
      obtain ⟨others, s₂, hothers, h⟩ := bind_ok.mp h
      obtain ⟨rfl, rfl⟩ := pure_ok.mp h
      have hi := insertPassOut_ok hf hw (hpending.of_last p rfl).1 hinsert
      exact .split hpending hi (ih steps.length (by simp only [← hn, List.length_cons]; omega) steps
        hi.edited.wellFormed (hpending.layout_close hlay hw hi.edited)
        (hpending.close.edited hi.edited) hothers rfl)
    | @start c rest steps hunfed hlay =>
      exact .start hw hpending hunfed (ih steps.length
        (by simp only [← hn, List.length_cons]; omega) steps hw hlay hpending.next h rfl)
    | @startFed c rest steps hfed hlay =>
      obtain ⟨i, s₁, hinsert, h⟩ := bind_ok.mp h
      obtain ⟨hc, -⟩ := hpending.next.of_last c rfl
      have hi := insertFeedIn_ok hf hw hc hinsert
      have hlay₁ := hpending.layout_startFed hlay hw hi.edited
      exact .startFed hpending hi (ih steps.length
        (by simp only [← hn, List.length_cons]; omega) steps hi.edited.wellFormed hlay₁
        (hpending.next.edited hi.edited) h rfl)
    | @join p c rest steps hlinked hlay =>
      exact .join hw hpending hlinked (ih steps.length
        (by simp only [← hn, List.length_cons]; omega) steps hw hlay hpending.next h rfl)
    | @joinThrough p c rest steps htogether hlay =>
      obtain ⟨i, s₁, hinsert, h⟩ := bind_ok.mp h
      obtain ⟨hp, -⟩ := hpending.of_last p rfl
      obtain ⟨hc, -⟩ := hpending.next.of_last c rfl
      obtain ⟨k, hk, hk'⟩ := htogether
      have hi := insertPassThrough_ok hf hw hp hc (hk.trans hk'.symm) hinsert
      have hlay₁ := hpending.layout_joinThrough hlay hw hi.edited
      exact .joinThrough hpending hi (ih steps.length
        (by simp only [← hn, List.length_cons]; omega) steps hi.edited.wellFormed hlay₁
        (hpending.next.edited hi.edited) h rfl)

/-- What an execution of the rest of a plan does and makes. -/
theorem Execution.carriedOut {last : Option CellId} {rest : List CellId} {segment : Segment}
    {steps : List Step} {segments : List Segment} {s s' : Session}
    (h : Execution f chain s last rest segment steps segments s') :
    ∃ moved ids, CarriedOut f s.netlist s'.netlist chain last rest segment segments moved ids := by
  induction h with
  | done hw =>
    refine ⟨[], [], .refl hw, .refl, nofun, fun _ => nofun, .nil,
      fun _ _ _ _ _ _ h => h.mono fun _ ha => ha.resolve_right nofun, fun hlast => ?_⟩
    simp [List.getLast?_eq_none_iff.mp hlast]
  | finish hw hpending hunread => exact ⟨_, _, .finish hw hpending hunread⟩
  | finishOut hpending hi => exact ⟨_, _, .finishOut hpending hi⟩
  | split hpending hi _ ih =>
    obtain ⟨moved, ids, hcarried⟩ := ih
    exact ⟨_, _, .split hpending hi hcarried⟩
  | start hw hpending hunfed _ ih =>
    obtain ⟨moved, ids, hcarried⟩ := ih
    exact ⟨_, _, .start hpending hw hunfed hcarried⟩
  | startFed hpending hi _ ih =>
    obtain ⟨moved, ids, hcarried⟩ := ih
    exact ⟨_, _, .startFed hpending hi hcarried⟩
  | join hw hpending hlinked _ ih =>
    obtain ⟨moved, ids, hcarried⟩ := ih
    exact ⟨_, _, .join hpending hw hlinked hcarried⟩
  | joinThrough hpending hi _ ih =>
    obtain ⟨moved, ids, hcarried⟩ := ih
    exact ⟨_, _, .joinThrough hpending hi hcarried⟩

/-- What the rest of a plan makes, by its layout. -/
theorem carryOut_ok (hf : f.Declared) (steps : List Step) {last : Option CellId}
    {rest : List CellId} {segment : Segment} {segments : List Segment} {s s' : Session}
    (hw : s.netlist.WellFormed) (hlayout : Layout f s.netlist last rest steps)
    (hpending : Pending f s.netlist chain last rest)
    (h : carryOut f segment steps s = .ok segments s') :
    ∃ moved ids, CarriedOut f s.netlist s'.netlist chain last rest segment segments moved ids :=
  (execution_of_carryOut hf steps hw hlayout hpending h).carriedOut

end Chain
end FpgaPacking
