import FpgaPacking.Chain.Legalize
import FpgaPacking.Proofs.Chain.Origin
import FpgaPacking.Proofs.Config

/-!
# Inserting boundary cells

Each of the three insertions creates a boundary cell, moves one or two ports of
the chain to new nets, and connects the new cell to them and to the net they have
left.  The wires after an insertion are given in full; that the insertion is an
edit, which links it makes and that it keeps origins follows from the wires.
-/

namespace FpgaPacking

/-! ## Templates -/

/-- The template declares its input and its outputs, and nothing else. -/
def BoundaryTemplate.Declared (t : BoundaryTemplate) : Prop :=
  t.cell.ports = (t.input, .input) ::
    (t.chainOutput.toList ++ t.fabricOutput.toList).map fun p => (p, .output)

/-- All boundary templates of the fabric are declared. -/
def Fabric.Declared (f : Fabric) : Prop := ∀ role t, f.boundary role = some t → t.Declared

theorem Fabric.declared_of_config {config : Config} {names names' : Names} {f : Fabric}
    (h : Fabric.ofConfig config names = (.ok f, names')) : f.Declared := by
  intro role t ht
  obtain ⟨b, given, rfl⟩ := Fabric.template_of_config h ht
  exact rfl

namespace Chain

variable {f : Fabric} {nl nl' : Netlist} {k link : NetId} {id : CellId} {c : Cell}
  {t : BoundaryTemplate} {role : Role} {moved : List PortRef}

/-! ## The wires after an insertion -/

/-- The second netlist has one new cell of the given boundary role, which has the
given template, and some new nets. -/
structure Extended (f : Fabric) (role : Role) (id : CellId) (t : BoundaryTemplate) (links : List NetId)
    (nl nl' : Netlist) : Prop where
  before : nl.WellFormed
  wellFormed : nl'.WellFormed
  fresh : nl.bare id = none
  cell : ∃ c, nl'.bare = Function.update nl.bare id (some c) ∧ f.boundary c.role = some t ∧
    c.role = role
  nets : ∀ k x, nl.tag k = some x → nl'.tag k = some x
  links_fresh : ∀ k ∈ links, nl.tag k = none
  links_only : ∀ k, nl.tag k = none → (nl'.tag k).isSome → k ∈ links
  input : nl'.dir ⟨id, t.input⟩ = some .input
  outputs : ∀ p, t.chainOutput = some p ∨ t.fabricOutput = some p →
    nl'.dir ⟨id, p⟩ = some .output

namespace Extended

variable {links : List NetId}

theorem cell_ne (h : Extended f role id t links nl nl') {r : PortRef} (hr : nl.wire r = some k) :
    r.cell ≠ id := by
  rintro rfl
  rw [Netlist.wire_eq_none_of_bare h.fresh] at hr
  cases hr

theorem dir (h : Extended f role id t links nl nl') {r : PortRef} (hr : r.cell ≠ id) :
    nl'.dir r = nl.dir r := by
  obtain ⟨c, hbare, -⟩ := h.cell
  refine Netlist.dir_congr ?_
  rw [hbare, Function.update_of_ne hr]

theorem wire_ne (h : Extended f role id t links nl nl') (hk : k ∈ links) (r : PortRef) :
    nl.wire r ≠ some k :=
  h.before.wired.wire_ne_of_tag (h.links_fresh k hk)

theorem bare_of_ne (h : Extended f role id t links nl nl') {other : CellId} {d : Cell}
    (hd : nl.bare other = some d) : nl'.bare other = some d := by
  obtain ⟨c, hbare, -⟩ := h.cell
  have hne : other ≠ id := by
    rintro rfl
    rw [h.fresh] at hd
    cases hd
  rw [hbare, Function.update_of_ne hne]
  exact hd

theorem has_role (h : Extended f role id t links nl nl') :
    ∃ c, nl'.bare id = some c ∧ c.role = role := by
  obtain ⟨c, hbare, -, hrole⟩ := h.cell
  exact ⟨c, by rw [hbare, Function.update_self], hrole⟩

/-- It remains to say what becomes of the moved ports and of the ports of the new cell. -/
theorem edited (h : Extended f role id t links nl nl')
    (hstill : ∀ r, r ∉ moved → r.cell ≠ id → nl'.wire r = nl.wire r)
    (hmoved : ∀ r ∈ moved, (nl.wire r).isSome ∧ ∃ k ∈ links, nl'.wire r = some k)
    (hnew : ∀ r k, r.cell = id → nl'.wire r = some k → k ∉ links →
      ∃ q ∈ moved, nl.wire q = some k ∧ (nl.dir q = some .output ↔ nl'.dir r = some .output))
    (hleft : ∀ r ∈ moved, ∀ k, nl.wire r = some k →
      (∃ p, nl'.wire ⟨id, p⟩ = some k ∧ (nl.dir r = some .output ↔ nl'.dir ⟨id, p⟩ = some .output)) ∨
      nl.dir r ≠ some .output ∧ ∃ q ∈ moved, nl.wire q = some k ∧ nl.dir q = some .output)
    (horder : Netlist.KeepsOrder moved nl nl') : Edited moved nl nl' where
  wellFormed := h.wellFormed
  cells other d hd := ⟨d.cluster, h.bare_of_ne hd⟩
  created other d hnone hsome := by
    obtain ⟨c, hbare, ht, -⟩ := h.cell
    rw [hbare] at hsome
    by_cases ho : other = id
    · rw [ho, Function.update_self] at hsome
      obtain rfl := Option.some.inj hsome
      intro hrole
      rw [hrole] at ht
      cases ht
    · rw [Function.update_of_ne ho, hnone] at hsome
      cases hsome
  nets := h.nets
  still r hr hlive := by
    refine hstill r hr ?_
    rintro rfl
    rw [h.fresh] at hlive
    cases hlive
  moved_from r hr := (hmoved r hr).1
  moved_to r hr := by
    obtain ⟨-, k, hk, hwire⟩ := hmoved r hr
    exact ⟨k, hwire, h.links_fresh k hk⟩
  replaced r k hnone hr hk := by
    by_cases hid : r.cell = id
    · refine hnew r k hid hr fun hlink => ?_
      rw [h.links_fresh k hlink] at hk
      cases hk
    · have hunmoved : r ∉ moved := fun hm => by
        obtain ⟨hsome, -⟩ := hmoved r hm
        rw [Netlist.wire_eq_none_of_bare hnone] at hsome
        cases hsome
      rw [hstill r hunmoved hid, Netlist.wire_eq_none_of_bare hnone] at hr
      cases hr
  refilled r hr k hrk _ := by
    rcases hleft r hr k hrk with ⟨p, hpk, hd⟩ | hdriver
    · exact Or.inl ⟨⟨id, p⟩, h.fresh, hpk, hd⟩
    · exact Or.inr hdriver
  order := horder

/-- A boundary cell passes on the origin of the net it reads. -/
theorem origin_through (h : Extended f role id t links nl nl') {port : Ident} {k' : NetId} {o : Source}
    (hout : nl'.wire ⟨id, port⟩ = some k') (hd : nl'.dir ⟨id, port⟩ = some .output)
    (hin : nl'.wire ⟨id, t.input⟩ = some k) (ho : Origin f nl' k o) : Origin f nl' k' o := by
  obtain ⟨c, hbare, ht, -⟩ := h.cell
  have hc : nl'.bare id = some c := by rw [hbare, Function.update_self]
  exact Origin.of_boundary h.wellFormed hout hd hc ht hin ho

end Extended

variable {head tail prev next : PortRef} {output routed : Ident} {entry exit : NetId}

/-! ## Feed-ins -/

/-- A feed-in has taken the place of the head's input `head` on the net `k` and
drives the new net `link`, which the head reads. -/
structure FedIn (f : Fabric) (id : CellId) (t : BoundaryTemplate) (head : PortRef) (output : Ident)
    (k link : NetId) (nl nl' : Netlist) : Prop extends Extended f .feedIn id t [link] nl nl' where
  chain_output : t.chainOutput = some output
  on_net : nl.wire head = some k
  reads : nl.dir head ≠ some .output
  normal : ∀ c, nl.bare head.cell = some c → c.role = .normal
  drives : nl'.dir ⟨id, output⟩ = some .output
  wires : ∀ q, nl'.wire q =
    if q = head ∨ q = ⟨id, output⟩ then some link
    else if q = ⟨id, t.input⟩ then some k
    else nl.wire q
  order : Netlist.KeepsOrder [head] nl nl'

namespace FedIn

theorem wire_head (h : FedIn f id t head output k link nl nl') : nl'.wire head = some link := by
  simp [h.wires]

theorem wire_output (h : FedIn f id t head output k link nl nl') :
    nl'.wire ⟨id, output⟩ = some link := by
  simp [h.wires]

theorem wire_input (h : FedIn f id t head output k link nl nl') :
    nl'.wire ⟨id, t.input⟩ = some k := by
  have houtput : (⟨id, t.input⟩ : PortRef) ≠ ⟨id, output⟩ := by
    intro e
    have hdrives := h.drives
    rw [← e, h.input] at hdrives
    cases hdrives
  have hhead : (⟨id, t.input⟩ : PortRef) ≠ head := fun e => h.cell_ne h.on_net (e ▸ rfl)
  simp [h.wires, houtput, hhead]

theorem edited (h : FedIn f id t head output k link nl nl') : Edited [head] nl nl' := by
  refine h.toExtended.edited ?_ ?_ ?_ ?_ h.order
  · intro r hr hid
    have hrhead : r ≠ head := fun e => hr (e ▸ List.mem_singleton_self head)
    have hrnew : ∀ p, r ≠ ⟨id, p⟩ := fun p e => hid (e ▸ rfl)
    simp [h.wires, hrhead, hrnew]
  · intro r hr
    obtain rfl := List.mem_singleton.mp hr
    exact ⟨by simp [h.on_net], link, List.mem_singleton_self link, h.wire_head⟩
  · intro r k' hid hr hold
    have hrhead : r ≠ head := fun e => h.cell_ne h.on_net (e ▸ hid)
    have hrout : r ≠ ⟨id, output⟩ := by
      rintro rfl
      obtain rfl := Option.some.inj (h.wire_output.symm.trans hr)
      exact hold (List.mem_singleton_self _)
    by_cases hrin : r = ⟨id, t.input⟩
    · subst hrin
      obtain rfl := Option.some.inj (h.wire_input.symm.trans hr)
      exact ⟨head, List.mem_singleton_self head, h.on_net, by simp [h.reads, h.input]⟩
    · rw [h.wires, if_neg (by simp [hrhead, hrout]), if_neg hrin] at hr
      exact absurd hid (h.cell_ne hr)
  · intro r hr k' hrk
    obtain rfl := List.mem_singleton.mp hr
    obtain rfl := Option.some.inj (h.on_net.symm.trans hrk)
    exact Or.inl ⟨t.input, h.wire_input, by simp [h.reads, h.input]⟩

theorem sameOrigins (h : FedIn f id t head output k link nl nl') : SameOrigins f nl nl' := by
  have hthrough : ∀ o, Origin f nl' k o → Origin f nl' link o := fun o ho =>
    h.origin_through h.wire_output h.drives h.wire_input ho
  refine SameOrigins.of_edited h.before h.edited ?_ ?_ ?_ ?_
  · intro r hr d hd
    obtain rfl := List.mem_singleton.mp hr
    exact h.normal d hd
  · intro r hr k' _ hd
    obtain rfl := List.mem_singleton.mp hr
    exact absurd hd h.reads
  · intro r hr k' hrk _
    obtain rfl := List.mem_singleton.mp hr
    obtain rfl := Option.some.inj (h.on_net.symm.trans hrk)
    exact ⟨link, h.wire_head, hthrough⟩
  · intro k' hnone hsome
    obtain rfl := List.mem_singleton.mp (h.links_only k' hnone hsome)
    exact ⟨k, h.before.wired.tag_isSome_of_wire h.on_net, hthrough⟩

theorem linked (h : FedIn f id t head output k link nl nl') : Linked nl' ⟨id, output⟩ head := by
  refine .of_only h.wire_output h.drives h.wire_head ?_ fun q hq => ?_
  · rw [h.dir (h.cell_ne h.on_net)]
    exact h.reads
  · rw [h.wires] at hq
    split at hq
    · next hends => exact hends.symm
    · split at hq
      · obtain rfl := Option.some.inj hq
        exact absurd h.on_net (h.wire_ne (List.mem_singleton_self _) head)
      · exact absurd hq (h.wire_ne (List.mem_singleton_self _) q)

end FedIn

/-! ## Pass-outs -/

/-- A pass-out has taken the place of the tail's output `tail` on the net `k`, and
reads the new net `link`, which the tail drives. -/
structure PassedOut (f : Fabric) (id : CellId) (t : BoundaryTemplate) (tail : PortRef)
    (routed : Ident) (k link : NetId) (nl nl' : Netlist) : Prop
    extends Extended f .passOut id t [link] nl nl' where
  fabric_output : t.fabricOutput = some routed
  on_net : nl.wire tail = some k
  driver : nl.dir tail = some .output
  normal : ∀ c, nl.bare tail.cell = some c → c.role = .normal
  drives : nl'.dir ⟨id, routed⟩ = some .output
  wires : ∀ q, nl'.wire q =
    if q = tail ∨ q = ⟨id, t.input⟩ then some link
    else if q = ⟨id, routed⟩ then some k
    else nl.wire q
  order : Netlist.KeepsOrder [tail] nl nl'

namespace PassedOut

theorem wire_tail (h : PassedOut f id t tail routed k link nl nl') : nl'.wire tail = some link := by
  simp [h.wires]

theorem dir_tail (h : PassedOut f id t tail routed k link nl nl') :
    nl'.dir tail = some .output :=
  (h.dir (h.cell_ne h.on_net)).trans h.driver

theorem wire_input (h : PassedOut f id t tail routed k link nl nl') :
    nl'.wire ⟨id, t.input⟩ = some link := by
  simp [h.wires]

theorem wire_routed (h : PassedOut f id t tail routed k link nl nl') :
    nl'.wire ⟨id, routed⟩ = some k := by
  have hinput : (⟨id, routed⟩ : PortRef) ≠ ⟨id, t.input⟩ := by
    intro e
    have hdrives := h.drives
    rw [e, h.input] at hdrives
    cases hdrives
  have htail : (⟨id, routed⟩ : PortRef) ≠ tail := fun e => h.cell_ne h.on_net (e ▸ rfl)
  simp [h.wires, hinput, htail]

theorem edited (h : PassedOut f id t tail routed k link nl nl') : Edited [tail] nl nl' := by
  refine h.toExtended.edited ?_ ?_ ?_ ?_ h.order
  · intro r hr hid
    have hrtail : r ≠ tail := fun e => hr (e ▸ List.mem_singleton_self tail)
    have hrnew : ∀ p, r ≠ ⟨id, p⟩ := fun p e => hid (e ▸ rfl)
    simp [h.wires, hrtail, hrnew]
  · intro r hr
    obtain rfl := List.mem_singleton.mp hr
    exact ⟨by simp [h.on_net], link, List.mem_singleton_self link, h.wire_tail⟩
  · intro r k' hid hr hold
    have hrtail : r ≠ tail := fun e => h.cell_ne h.on_net (e ▸ hid)
    have hrin : r ≠ ⟨id, t.input⟩ := by
      rintro rfl
      obtain rfl := Option.some.inj (h.wire_input.symm.trans hr)
      exact hold (List.mem_singleton_self _)
    by_cases hrout : r = ⟨id, routed⟩
    · subst hrout
      obtain rfl := Option.some.inj (h.wire_routed.symm.trans hr)
      exact ⟨tail, List.mem_singleton_self tail, h.on_net, by simp [h.driver, h.drives]⟩
    · rw [h.wires, if_neg (by simp [hrtail, hrin]), if_neg hrout] at hr
      exact absurd hid (h.cell_ne hr)
  · intro r hr k' hrk
    obtain rfl := List.mem_singleton.mp hr
    obtain rfl := Option.some.inj (h.on_net.symm.trans hrk)
    exact Or.inl ⟨routed, h.wire_routed, by simp [h.driver, h.drives]⟩

theorem sameOrigins (h : PassedOut f id t tail routed k link nl nl') : SameOrigins f nl nl' := by
  obtain ⟨c, hc⟩ := Option.isSome_iff_exists.mp (Netlist.bare_isSome_of_wire h.on_net)
  have horigin : Origin f nl' link (.port tail) :=
    Origin.of_driver h.wellFormed h.wire_tail h.dir_tail (h.bare_of_ne hc) (h.normal c hc)
  have hold : Origin f nl' k (.port tail) :=
    h.origin_through h.wire_routed h.drives h.wire_input horigin
  refine SameOrigins.of_edited h.before h.edited ?_ ?_ ?_ ?_
  · intro r hr d hd
    obtain rfl := List.mem_singleton.mp hr
    exact h.normal d hd
  · intro r hr k' hrk _
    obtain rfl := List.mem_singleton.mp hr
    obtain rfl := Option.some.inj (h.on_net.symm.trans hrk)
    exact hold
  · intro r hr k' _ hd
    obtain rfl := List.mem_singleton.mp hr
    exact absurd h.driver hd
  · intro k' hnone hsome
    obtain rfl := List.mem_singleton.mp (h.links_only k' hnone hsome)
    refine ⟨k, h.before.wired.tag_isSome_of_wire h.on_net, fun o ho => ?_⟩
    rw [ho.unique hold]
    exact horigin

theorem linked (h : PassedOut f id t tail routed k link nl nl') :
    Linked nl' tail ⟨id, t.input⟩ := by
  refine .of_only h.wire_tail h.dir_tail h.wire_input (by simp [h.input]) fun q hq => ?_
  rw [h.wires] at hq
  split at hq
  · next hends => exact hends
  · split at hq
    · obtain rfl := Option.some.inj hq
      exact absurd h.on_net (h.wire_ne (List.mem_singleton_self _) tail)
    · exact absurd hq (h.wire_ne (List.mem_singleton_self _) q)

end PassedOut

/-! ## Pass-throughs -/

/-- A pass-through has taken the place of the output `prev` on the net `k`, reads
the new net `entry`, which `prev` drives, and drives the new net `exit`, to
which the input `next` has moved. -/
structure PassedThrough (f : Fabric) (id : CellId) (t : BoundaryTemplate) (prev next : PortRef)
    (output routed : Ident) (k entry exit : NetId) (nl nl' : Netlist) : Prop
    extends Extended f .passThrough id t [entry, exit] nl nl' where
  chain_output : t.chainOutput = some output
  links_ne : entry ≠ exit
  on_net : nl.wire prev = some k
  next_on_net : nl.wire next = some k
  driver : nl.dir prev = some .output
  reads : nl.dir next ≠ some .output
  prev_normal : ∀ c, nl.bare prev.cell = some c → c.role = .normal
  next_normal : ∀ c, nl.bare next.cell = some c → c.role = .normal
  drives : nl'.dir ⟨id, output⟩ = some .output
  drives_routed : nl'.dir ⟨id, routed⟩ = some .output
  outputs_ne : routed ≠ output
  wires : ∀ q, nl'.wire q =
    if q = next ∨ q = ⟨id, output⟩ then some exit
    else if q = prev ∨ q = ⟨id, t.input⟩ then some entry
    else if q = ⟨id, routed⟩ then some k
    else nl.wire q
  order : Netlist.KeepsOrder [prev, next] nl nl'

namespace PassedThrough

variable (h : PassedThrough f id t prev next output routed k entry exit nl nl')
include h

theorem new_ne_prev (p : Ident) : (⟨id, p⟩ : PortRef) ≠ prev := fun e =>
  h.cell_ne h.on_net (e ▸ rfl)

theorem new_ne_next (p : Ident) : (⟨id, p⟩ : PortRef) ≠ next := fun e =>
  h.cell_ne h.next_on_net (e ▸ rfl)

theorem input_ne {p : Ident} (hp : nl'.dir ⟨id, p⟩ = some .output) : t.input ≠ p := by
  rintro rfl
  rw [h.input] at hp
  cases hp

theorem wire_next : nl'.wire next = some exit := by simp [h.wires]

theorem wire_output : nl'.wire ⟨id, output⟩ = some exit := by simp [h.wires]

theorem wire_prev : nl'.wire prev = some entry := by
  have hends : prev ≠ next := fun e => h.reads (e ▸ h.driver)
  simp [h.wires, hends, Ne.symm (h.new_ne_prev _)]

theorem wire_input : nl'.wire ⟨id, t.input⟩ = some entry := by
  simp [h.wires, h.new_ne_next, h.input_ne h.drives]

theorem wire_routed : nl'.wire ⟨id, routed⟩ = some k := by
  simp [h.wires, h.new_ne_next, h.new_ne_prev, h.outputs_ne, Ne.symm (h.input_ne h.drives_routed)]

theorem dir_prev : nl'.dir prev = some .output := (h.dir (h.cell_ne h.on_net)).trans h.driver

theorem edited : Edited [prev, next] nl nl' := by
  refine h.toExtended.edited ?_ ?_ ?_ ?_ h.order
  · intro r hr hid
    simp only [List.mem_cons, List.not_mem_nil, or_false, not_or] at hr
    have hrnew : ∀ p, r ≠ ⟨id, p⟩ := fun p e => hid (e ▸ rfl)
    simp [h.wires, hr, hrnew]
  · intro r hr
    simp only [List.mem_cons, List.not_mem_nil, or_false] at hr
    rcases hr with rfl | rfl
    · exact ⟨by simp [h.on_net], entry, by simp, h.wire_prev⟩
    · exact ⟨by simp [h.next_on_net], exit, by simp, h.wire_next⟩
  · intro r k' hid hr hold
    have hrprev : r ≠ prev := fun e => h.cell_ne h.on_net (e ▸ hid)
    have hrnext : r ≠ next := fun e => h.cell_ne h.next_on_net (e ▸ hid)
    have hrin : r ≠ ⟨id, t.input⟩ := by
      rintro rfl
      obtain rfl := Option.some.inj (h.wire_input.symm.trans hr)
      exact hold (by simp)
    have hrout : r ≠ ⟨id, output⟩ := by
      rintro rfl
      obtain rfl := Option.some.inj (h.wire_output.symm.trans hr)
      exact hold (by simp)
    by_cases hrr : r = ⟨id, routed⟩
    · subst hrr
      obtain rfl := Option.some.inj (h.wire_routed.symm.trans hr)
      exact ⟨prev, by simp, h.on_net, by simp [h.driver, h.drives_routed]⟩
    · rw [h.wires, if_neg (by simp [hrnext, hrout]), if_neg (by simp [hrprev, hrin]),
        if_neg hrr] at hr
      exact absurd hid (h.cell_ne hr)
  · intro r hr k' hrk
    simp only [List.mem_cons, List.not_mem_nil, or_false] at hr
    rcases hr with rfl | rfl
    · obtain rfl := Option.some.inj (h.on_net.symm.trans hrk)
      exact Or.inl ⟨routed, h.wire_routed, by simp [h.driver, h.drives_routed]⟩
    · obtain rfl := Option.some.inj (h.next_on_net.symm.trans hrk)
      exact Or.inr ⟨h.reads, prev, by simp, h.on_net, h.driver⟩

theorem sameOrigins : SameOrigins f nl nl' := by
  obtain ⟨c, hc⟩ := Option.isSome_iff_exists.mp (Netlist.bare_isSome_of_wire h.on_net)
  have hentry : Origin f nl' entry (.port prev) :=
    Origin.of_driver h.wellFormed h.wire_prev h.dir_prev (h.bare_of_ne hc) (h.prev_normal c hc)
  have hold : Origin f nl' k (.port prev) :=
    h.origin_through h.wire_routed h.drives_routed h.wire_input hentry
  have hexit : Origin f nl' exit (.port prev) :=
    h.origin_through h.wire_output h.drives h.wire_input hentry
  refine SameOrigins.of_edited h.before h.edited ?_ ?_ ?_ ?_
  · intro r hr d hd
    simp only [List.mem_cons, List.not_mem_nil, or_false] at hr
    rcases hr with rfl | rfl
    · exact h.prev_normal d hd
    · exact h.next_normal d hd
  · intro r hr k' hrk hd
    simp only [List.mem_cons, List.not_mem_nil, or_false] at hr
    rcases hr with rfl | rfl
    · obtain rfl := Option.some.inj (h.on_net.symm.trans hrk)
      exact hold
    · exact absurd hd h.reads
  · intro r hr k' hrk hd
    simp only [List.mem_cons, List.not_mem_nil, or_false] at hr
    rcases hr with rfl | rfl
    · exact absurd h.driver hd
    · obtain rfl := Option.some.inj (h.next_on_net.symm.trans hrk)
      refine ⟨exit, h.wire_next, fun o ho => ?_⟩
      rw [ho.unique hold]
      exact hexit
  · intro k' hnone hsome
    refine ⟨k, h.before.wired.tag_isSome_of_wire h.on_net, fun o ho => ?_⟩
    rw [ho.unique hold]
    have hlink := h.links_only k' hnone hsome
    simp only [List.mem_cons, List.not_mem_nil, or_false] at hlink
    rcases hlink with rfl | rfl
    · exact hentry
    · exact hexit

/-- A port that is on one of the new nets is on it by the insertion. -/
theorem of_wire_link {q : PortRef} {link : NetId} (hlink : link ∈ [entry, exit])
    (hq : nl'.wire q = some link) :
    link = exit ∧ (q = next ∨ q = ⟨id, output⟩) ∨ link = entry ∧ (q = prev ∨ q = ⟨id, t.input⟩) := by
  rw [h.wires] at hq
  split at hq
  · next hends => exact Or.inl ⟨(Option.some.inj hq).symm, hends⟩
  · split at hq
    · next hends => exact Or.inr ⟨(Option.some.inj hq).symm, hends⟩
    · split at hq
      · obtain rfl := Option.some.inj hq
        exact absurd h.on_net (h.wire_ne hlink prev)
      · exact absurd hq (h.wire_ne hlink q)

theorem linked_prev : Linked nl' prev ⟨id, t.input⟩ := by
  refine .of_only h.wire_prev h.dir_prev h.wire_input (by simp [h.input]) fun q hq => ?_
  rcases h.of_wire_link (by simp) hq with ⟨hsame, -⟩ | ⟨-, hends⟩
  · exact absurd hsame h.links_ne
  · exact hends

theorem linked_next : Linked nl' ⟨id, output⟩ next := by
  refine .of_only h.wire_output h.drives h.wire_next ?_ fun q hq => ?_
  · rw [h.dir (h.cell_ne h.next_on_net)]
    exact h.reads
  · rcases h.of_wire_link (by simp) hq with ⟨-, hends⟩ | ⟨hsame, -⟩
    · exact hends.symm
    · exact absurd hsame.symm h.links_ne

end PassedThrough

/-! ## Joined members -/

variable {cell : CellId} {links : List NetId}

/-- The port by which a member of a segment drives the next one. -/
def chainSideOutput (f : Fabric) : Role → Option Ident
  | .normal => some f.chainOut
  | role => (f.boundary role).bind (·.chainOutput)

/-- The port on which a member of a segment reads the one before. -/
def chainSideInput (f : Fabric) : Role → Option Ident
  | .normal => some f.chainIn
  | role => (f.boundary role).map (·.input)

theorem chainSideOutput_of_boundary {role : Role} (h : f.boundary role = some t) :
    chainSideOutput f role = t.chainOutput := by
  cases role with
  | normal => cases h
  | feedIn => exact congrArg (Option.bind · _) h
  | passThrough => exact congrArg (Option.bind · _) h
  | passOut => exact congrArg (Option.bind · _) h

theorem chainSideInput_of_boundary {role : Role} (h : f.boundary role = some t) :
    chainSideInput f role = some t.input := by
  cases role with
  | normal => cases h
  | feedIn => exact congrArg (Option.map _) h
  | passThrough => exact congrArg (Option.map _) h
  | passOut => exact congrArg (Option.map _) h

/-- The first cell drives the second through a net that nothing else reads. -/
def Joined (f : Fabric) (nl : Netlist) (a b : CellId) : Prop :=
  ∃ ca cb output input, nl.bare a = some ca ∧ nl.bare b = some cb ∧
    chainSideOutput f ca.role = some output ∧ chainSideInput f cb.role = some input ∧
    Linked nl ⟨a, output⟩ ⟨b, input⟩

/-- An ordinary cell whose chain ports have the directions of a chain. -/
structure ChainCell (f : Fabric) (nl : Netlist) (id : CellId) : Prop where
  normal : ∃ c, nl.bare id = some c ∧ c.role = .normal
  chainIn : nl.dir ⟨id, f.chainIn⟩ ≠ some .output
  chainOut : ∀ d, nl.dir ⟨id, f.chainOut⟩ = some d → d = .output

/-- A live cell of any role whose chain ports have the directions of a chain. -/
structure Linkable (f : Fabric) (nl : Netlist) (id : CellId) : Prop where
  live : (nl.bare id).isSome
  chainIn : nl.dir ⟨id, f.chainIn⟩ ≠ some .output
  chainOut : ∀ d, nl.dir ⟨id, f.chainOut⟩ = some d → d = .output

/-- A cell that the first netlist does not have and the second has in a boundary role. -/
def NewBoundary (nl nl' : Netlist) (id : CellId) : Prop :=
  nl.bare id = none ∧ ∃ c, nl'.bare id = some c ∧ c.role ≠ .normal

theorem Extended.newBoundary (h : Extended f role id t links nl nl') :
    NewBoundary nl nl' id := by
  obtain ⟨c, hbare, ht, -⟩ := h.cell
  refine ⟨h.fresh, c, by rw [hbare, Function.update_self], ?_⟩
  intro hrole
  rw [hrole] at ht
  cases ht

namespace Linkable

theorem dir_chainOut (h : Linkable f nl id) (hk : nl.wire ⟨id, f.chainOut⟩ = some k) :
    nl.dir ⟨id, f.chainOut⟩ = some .output := by
  obtain ⟨d, hd⟩ := Option.isSome_iff_exists.mp (Netlist.dir_isSome_of_wire hk)
  rw [hd, h.chainOut d hd]

/-- An insertion does not touch the cells that were there before. -/
theorem extended {links : List NetId} (h : Linkable f nl cell)
    (hext : Extended f role id t links nl nl') : Linkable f nl' cell := by
  obtain ⟨c, hc⟩ := Option.isSome_iff_exists.mp h.live
  have hne : cell ≠ id := by
    rintro rfl
    rw [hext.fresh] at hc
    cases hc
  refine ⟨by rw [hext.bare_of_ne hc]; rfl, ?_, fun d hd => ?_⟩
  · rw [hext.dir (r := ⟨cell, f.chainIn⟩) hne]
    exact h.chainIn
  · rw [hext.dir (r := ⟨cell, f.chainOut⟩) hne] at hd
    exact h.chainOut d hd

end Linkable

namespace ChainCell

theorem role_normal (h : ChainCell f nl id) (hc : nl.bare id = some c) :
    c.role = .normal := by
  obtain ⟨d, hd, hrole⟩ := h.normal
  obtain rfl := Option.some.inj (hd.symm.trans hc)
  exact hrole

theorem live (h : ChainCell f nl id) : (nl.bare id).isSome := by
  obtain ⟨c, hc, -⟩ := h.normal
  simp [hc]

theorem linkable (h : ChainCell f nl id) : Linkable f nl id := ⟨h.live, h.chainIn, h.chainOut⟩

theorem dir_chainOut (h : ChainCell f nl id) (hk : nl.wire ⟨id, f.chainOut⟩ = some k) :
    nl.dir ⟨id, f.chainOut⟩ = some .output :=
  h.linkable.dir_chainOut hk

/-- A connected chain input is not the chain output. -/
theorem ports_ne (h : ChainCell f nl id) (hk : (nl.wire ⟨id, f.chainIn⟩).isSome) :
    (⟨id, f.chainOut⟩ : PortRef) ≠ ⟨id, f.chainIn⟩ := by
  intro e
  obtain ⟨k, hk⟩ := Option.isSome_iff_exists.mp hk
  rw [← e] at hk
  have hd := h.dir_chainOut hk
  rw [e] at hd
  exact h.chainIn hd

theorem edited (h : ChainCell f nl id)
    (he : Edited moved nl nl') : ChainCell f nl' id := by
  refine ⟨?_, ?_, ?_⟩
  · obtain ⟨c, hc, hrole⟩ := h.normal
    obtain ⟨m, hm⟩ := he.cells id c hc
    exact ⟨_, hm, hrole⟩
  · rw [he.dir h.live]
    exact h.chainIn
  · intro d hd
    rw [he.dir h.live] at hd
    exact h.chainOut d hd

/-- A boundary cell drives a chain cell. -/
theorem joined_of_boundary (h : ChainCell f nl' cell)
    (hext : Extended f role id t links nl nl') (hout : t.chainOutput = some output)
    (hl : Linked nl' ⟨id, output⟩ ⟨cell, f.chainIn⟩) : Joined f nl' id cell := by
  obtain ⟨c, hbare, ht, -⟩ := hext.cell
  obtain ⟨d, hd, hrole⟩ := h.normal
  refine ⟨c, d, output, f.chainIn, by rw [hbare, Function.update_self], hd, ?_, by rw [hrole]; rfl, hl⟩
  rw [chainSideOutput_of_boundary ht]
  exact hout

/-- A chain cell drives a boundary cell. -/
theorem joined_to_boundary (h : ChainCell f nl' cell)
    (hext : Extended f role id t links nl nl') (hl : Linked nl' ⟨cell, f.chainOut⟩ ⟨id, t.input⟩) :
    Joined f nl' cell id := by
  obtain ⟨c, hbare, ht, -⟩ := hext.cell
  obtain ⟨d, hd, hrole⟩ := h.normal
  exact ⟨d, c, f.chainOut, t.input, hd, by rw [hbare, Function.update_self], by rw [hrole]; rfl,
    chainSideInput_of_boundary ht, hl⟩

end ChainCell

end Chain
end FpgaPacking
