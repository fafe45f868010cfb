import FpgaPacking.Proofs.Chain.Complete
import FpgaPacking.Proofs.Chain.Greedy
import FpgaPacking.Proofs.Netlist.Progress

/-!
# Legalization does not get stuck

On a complete fabric every linked chain can be legalized.  A cell by itself fits
between a feed-in and a pass-out, so there is a plan.  The plan asks only for
templates that the fabric has, and it names a port to be moved only if the port
is connected.  A moved output was the only driver of its net, which is therefore
free for the boundary cell, and the other nets to be driven are new.
-/

namespace FpgaPacking
namespace Chain

open Netlist

variable {f : Fabric} {s s' : Session} {nl : Netlist} {role : Role} {id cell : CellId}
  {t : BoundaryTemplate}
  {links : List NetId} {moved : List PortRef} {wire : PortRef → Option NetId} {port : Ident} {k : NetId}

/-! ## Steps of an insertion -/

theorem returns_linkNet (hlive : (s.netlist.bare cell).isSome) :
    Returns (liftM (linkNet cell) : Packing NetId) s :=
  Packing.returns_edit (Edit.returns_bind _ (Edit.returns_cell _ hlive) fun _ _ _ => ⟨_, _, rfl⟩)

namespace Inserting

variable (hs : Inserting f nl role id t links moved wire s)
include hs

theorem returns_detach (hk : wire ⟨cell, port⟩ = some k) :
    Returns (liftM (Chain.detach cell port) : Packing NetId) s := by
  have hw := hs.extended.wellFormed
  have hwire : s.netlist.wire ⟨cell, port⟩ = some k := hs.wire ▸ hk
  obtain ⟨onNet, nl₁, hrun⟩ :=
    Edit.returns_disconnect s.names hw (dir_isSome_of_wire hwire)
  have hsame : s.netlist.wire ⟨cell, port⟩ = onNet := (Edit.disconnect_ok hw hrun).2.2.2.2
  obtain rfl := hwire.symm.trans hsame
  refine Packing.returns_edit ?_
  unfold Chain.detach
  exact Edit.returns_bind _ (.of_ok hrun) fun a nl₂ hagain => by
    have hboth := hrun.symm.trans hagain
    cases hboth
    exact .pure k nl₁

theorem returns_disconnect (hdir : (s.netlist.dir ⟨cell, port⟩).isSome) :
    Returns (liftM (Edit.disconnect cell port) : Packing (Option NetId)) s :=
  Packing.returns_edit (Edit.returns_disconnect _ hs.extended.wellFormed hdir)

/-- A port that reads can be connected to any net. -/
theorem returns_read (hreads : (s.netlist.dir ⟨cell, port⟩).isSome ∧
      s.netlist.dir ⟨cell, port⟩ ≠ some .output) (hfree : wire ⟨cell, port⟩ = none)
    (hnet : (s.netlist.tag k).isSome) :
    Returns (liftM (Edit.connect cell port k) : Packing Unit) s := by
  obtain ⟨hlive, hreads⟩ := hreads
  obtain ⟨d, hd⟩ := Option.isSome_iff_exists.mp hlive
  refine Packing.returns_edit (Edit.returns_connect _ hs.extended.wellFormed hd (hs.wire ▸ hfree)
    hnet fun hout => ?_)
  exact absurd (hout ▸ hd) hreads

/-- An output can be connected to a net that nothing drives. -/
theorem returns_drive (hdrives : s.netlist.dir ⟨cell, port⟩ = some .output)
    (hfree : wire ⟨cell, port⟩ = none) (htag : ∃ name, s.netlist.tag k = some (name, none))
    (hundriven : ∀ q, wire q = some k → s.netlist.dir q ≠ some .output) :
    Returns (liftM (Edit.connect cell port k) : Packing Unit) s := by
  obtain ⟨name, htag⟩ := htag
  refine Packing.returns_edit (Edit.returns_connect _ hs.extended.wellFormed hdrives
    (hs.wire ▸ hfree) (by simp [htag]) fun _ => ⟨name, htag, ?_⟩)
  rw [hs.wire]
  exact hundriven

theorem tag_link (hk : k ∈ links) : (s.netlist.tag k).isSome := by
  obtain ⟨name, hname⟩ := hs.linked k hk
  simp [hname]

/-- The ports of the new cell were on no net. -/
theorem wire_new (port : Ident) : nl.wire ⟨id, port⟩ = none :=
  wire_eq_none_of_bare hs.extended.fresh

/-- Cells that were there before still are. -/
theorem bare_isSome (hlive : (nl.bare cell).isSome) : (s.netlist.bare cell).isSome := by
  obtain ⟨c, hc⟩ := Option.isSome_iff_exists.mp hlive
  rw [hs.extended.bare_of_ne hc]
  rfl

theorem bare_new : (s.netlist.bare id).isSome := by
  obtain ⟨c, hbare, -⟩ := hs.extended.cell
  rw [hbare, Function.update_self]
  rfl

theorem input_reads : (s.netlist.dir ⟨id, t.input⟩).isSome ∧
    s.netlist.dir ⟨id, t.input⟩ ≠ some .output := by
  rw [hs.extended.input]
  exact ⟨rfl, nofun⟩

theorem input_ne (hd : s.netlist.dir ⟨id, port⟩ = some .output) : t.input ≠ port := by
  rintro rfl
  exact hs.input_reads.2 hd

theorem dir_old {r : PortRef} (hr : nl.wire r = some k) : s.netlist.dir r = nl.dir r :=
  hs.extended.dir (hs.extended.cell_ne hr)

theorem tag_old {r : PortRef} (hr : nl.wire r = some k) : (s.netlist.tag k).isSome := by
  obtain ⟨x, hx⟩ := Option.isSome_iff_exists.mp (hs.extended.before.wired.tag_isSome_of_wire hr)
  simp [hs.extended.nets k x hx]

theorem tag_driven {r : PortRef} (hr : nl.wire r = some k) (hd : nl.dir r = some .output) :
    ∃ name, s.netlist.tag k = some (name, none) := by
  obtain ⟨n, hn, hconstant, -⟩ := Origin.driver_of_wire hs.extended.before hr hd
  exact ⟨n.name, hs.extended.nets k _ (by simp [tag, hn, hconstant])⟩

omit hs in
/-- A net has lost its driver once the new cell reads the driver on a link. -/
theorem undriven_old {r : PortRef} {link : NetId}
    (hs : Inserting f nl role id t links moved (Function.update (Function.update
      (Function.update nl.wire r none) r (some link)) ⟨id, t.input⟩ (some link)) s)
    (hr : nl.wire r = some k) (hd : nl.dir r = some .output) (hlink : link ∈ links) :
    ∀ q, Function.update (Function.update (Function.update nl.wire r none) r (some link))
      ⟨id, t.input⟩ (some link) q = some k → s.netlist.dir q ≠ some .output := by
  intro q hq hdq
  have hk : link ≠ k := by
    rintro rfl
    exact hs.extended.wire_ne hlink r hr
  have hqin : q ≠ ⟨id, t.input⟩ := by
    rintro rfl
    rw [Function.update_self] at hq
    exact hk (Option.some.inj hq)
  have hqr : q ≠ r := by
    rintro rfl
    rw [Function.update_of_ne hqin, Function.update_self] at hq
    exact hk (Option.some.inj hq)
  rw [Function.update_of_ne hqin, Function.update_of_ne hqr, Function.update_of_ne hqr] at hq
  rw [hs.dir_old hq] at hdq
  exact hqr (Origin.driver_unique hs.extended.before hq hdq hr hd)

end Inserting

/-! ## Boundary cells -/

theorem returns_boundaryCell {anchor : CellId} (hf : f.Provides role) (hw : s.netlist.WellFormed)
    (hanchor : (s.netlist.bare anchor).isSome) : Returns (boundaryCell f role anchor) s := by
  obtain ⟨t, ht, hcomplete⟩ := hf
  unfold boundaryCell
  refine Returns.bind (Packing.returns_check s (boundaryTemplate_ok.mpr ht)) fun t' s₁ htemplate => ?_
  obtain ⟨hsame, rfl⟩ := Packing.check_ok.mp htemplate
  obtain rfl := Option.some.inj (ht.symm.trans (boundaryTemplate_ok.mp hsame))
  refine Returns.bind (Packing.returns_edit (Edit.returns_cell _ hanchor)) fun c s₂ hcell => ?_
  obtain ⟨nl₂, hrun₂, rfl⟩ := Packing.edit_ok.mp hcell
  obtain ⟨-, rfl⟩ := Edit.cell_ok hrun₂
  refine Returns.bind (Packing.returns_edit ⟨_, _, rfl⟩) fun name s₃ hname => ?_
  obtain ⟨nl₃, hrun₃, rfl⟩ := Packing.edit_ok.mp hname
  have hw₃ : nl₃.WellFormed := (Edit.keeps_uniqueName _).of_ok hrun₃ hw
  refine Returns.bind (Packing.returns_edit (Edit.returns_instantiate _ hcomplete.distinct))
    fun id s₄ hnew => ?_
  obtain ⟨nl₄, hrun₄, rfl⟩ := Packing.edit_ok.mp hnew
  obtain ⟨-, -, -, rfl, d, hbare, -⟩ := Edit.instantiate_ok hw₃ hrun₄
  refine Returns.bind ⟨_, _, rfl⟩ fun key s₅ hkey => ?_
  obtain ⟨-, hsame₅, -⟩ := Packing.name_ok.mp hkey
  refine Returns.bind (Packing.returns_edit (Edit.returns_updateCell _ ?_)) fun _ _ _ => .pure _ _
  rw [hsame₅, hbare, Function.update_self]
  rfl

theorem complete_of_boundaryCell {anchor : CellId} (hf : f.Provides role)
    (h : boundaryCell f role anchor s = .ok (id, t) s') : t.Complete role := by
  obtain ⟨t', ht', hcomplete⟩ := hf
  obtain rfl := Option.some.inj ((template_of_boundaryCell h).symm.trans ht')
  exact hcomplete

theorem requiredPort_eq {role : Role} {description : String} {port? : Option Ident}
    (h : port?.isSome) : ∃ port, requiredPort f role description port? = .ok port := by
  obtain ⟨port, rfl⟩ := Option.isSome_iff_exists.mp h
  exact ⟨port, rfl⟩

theorem returns_requiredPort {role : Role} {description : String} {port? : Option Ident}
    (h : port?.isSome) : Returns (liftM (requiredPort f role description port?) : Packing Ident) s := by
  obtain ⟨port, hport⟩ := requiredPort_eq h
  exact Packing.returns_check s hport

/-! ## The three insertions -/

theorem returns_insertFeedIn {head : CellId} (hf : f.Declared) (hrole : f.Provides .feedIn)
    (hw : s.netlist.WellFormed)
    (hhead : Linkable f s.netlist head) (hfed : (s.netlist.wire ⟨head, f.chainIn⟩).isSome) :
    Returns (insertFeedIn f head) s := by
  obtain ⟨k, hk⟩ := Option.isSome_iff_exists.mp hfed
  unfold insertFeedIn
  refine (returns_boundaryCell hrole hw hhead.live).bind fun ⟨id, t⟩ s₁ hnew => ?_
  have hcomplete := complete_of_boundaryCell hrole hnew
  have h₁ := boundaryCell_ok hf hw hnew
  have hnewhead : ∀ p, (⟨id, p⟩ : PortRef) ≠ ⟨head, f.chainIn⟩ := fun p e =>
    h₁.extended.cell_ne hk (congrArg PortRef.cell e).symm
  refine (returns_requiredPort (hcomplete.chainOutput nofun)).bind fun output s₂ houtput => ?_
  obtain ⟨hout, rfl⟩ := requiredPort_ok houtput
  refine (h₁.returns_detach hk).bind fun external s₃ hdetach => ?_
  obtain ⟨h₃, hexternal⟩ := h₁.detach hdetach
  obtain rfl := Option.some.inj (hk.symm.trans hexternal)
  refine (h₃.returns_read h₃.input_reads ?_ (h₃.tag_old hk)).bind fun _ s₄ hinput => ?_
  · simp [hnewhead, h₃.wire_new]
  obtain ⟨h₄, -⟩ := h₃.connect hinput
  refine (returns_linkNet h₄.bare_new).bind fun link s₅ hlink => ?_
  obtain ⟨h₅, -, hfresh⟩ := h₄.linkNet hlink
  have hdrives := h₅.extended.outputs output (Or.inl hout)
  refine (h₅.returns_drive hdrives ?_ (h₅.linked link (by simp)) fun q hq =>
    absurd hq (hfresh q)).bind fun _ s₆ hdrive => ?_
  · simp [hnewhead, h₅.wire_new, Ne.symm (h₅.input_ne hdrives)]
  obtain ⟨h₆, -⟩ := h₅.connect hdrive
  refine (h₆.returns_read ?_ ?_ (h₆.tag_link (by simp))).bind fun _ s₇ _ => .pure _ _
  · rw [h₆.dir_old hk]
    exact ⟨dir_isSome_of_wire hk, hhead.chainIn⟩
  · simp [Ne.symm (hnewhead _)]

theorem returns_insertPassOut {tail : CellId} (hf : f.Declared) (hrole : f.Provides .passOut)
    (hw : s.netlist.WellFormed)
    (htail : Linkable f s.netlist tail) (hwired : (s.netlist.wire ⟨tail, f.chainOut⟩).isSome) :
    Returns (insertPassOut f tail) s := by
  obtain ⟨k, hk⟩ := Option.isSome_iff_exists.mp hwired
  have hdtail := htail.dir_chainOut hk
  unfold insertPassOut
  refine (returns_boundaryCell hrole hw htail.live).bind fun ⟨id, t⟩ s₁ hnew => ?_
  have hcomplete := complete_of_boundaryCell hrole hnew
  have h₁ := boundaryCell_ok hf hw hnew
  have hnewtail : ∀ p, (⟨id, p⟩ : PortRef) ≠ ⟨tail, f.chainOut⟩ := fun p e =>
    h₁.extended.cell_ne hk (congrArg PortRef.cell e).symm
  refine (returns_requiredPort (hcomplete.fabricOutput nofun)).bind fun routed s₂ hrouted => ?_
  obtain ⟨hout, rfl⟩ := requiredPort_ok hrouted
  refine (h₁.returns_detach hk).bind fun signal s₃ hdetach => ?_
  obtain ⟨h₃, hsignal⟩ := h₁.detach hdetach
  obtain rfl := Option.some.inj (hk.symm.trans hsignal)
  refine (returns_linkNet (h₃.bare_isSome htail.live)).bind fun link s₄ hlink => ?_
  obtain ⟨h₄, -, hfresh⟩ := h₃.linkNet hlink
  refine (h₄.returns_drive ((h₄.dir_old hk).trans hdtail) (by simp) (h₄.linked link (by simp))
    fun q hq => absurd hq (hfresh q)).bind fun _ s₅ hdrive => ?_
  obtain ⟨h₅, -⟩ := h₄.connect hdrive
  refine (h₅.returns_read h₅.input_reads ?_ (h₅.tag_link (by simp))).bind fun _ s₆ hinput => ?_
  · simp [hnewtail, h₅.wire_new]
  obtain ⟨h₆, -⟩ := h₅.connect hinput
  have hdrives := h₆.extended.outputs routed (Or.inr hout)
  refine (h₆.returns_drive hdrives ?_ (h₆.tag_driven hk hdtail)
    (h₆.undriven_old hk hdtail (by simp))).bind fun _ s₇ _ => .pure _ _
  simp [hnewtail, h₆.wire_new, Ne.symm (h₆.input_ne hdrives)]

theorem returns_insertPassThrough {prev next : CellId} (hf : f.Declared)
    (hrole : f.Provides .passThrough) (hw : s.netlist.WellFormed) (hprev : Linkable f s.netlist prev)
    (hnext : Linkable f s.netlist next) (hwired : (s.netlist.wire ⟨prev, f.chainOut⟩).isSome)
    (hfed : (s.netlist.wire ⟨next, f.chainIn⟩).isSome) :
    Returns (insertPassThrough f prev next) s := by
  obtain ⟨k, hk⟩ := Option.isSome_iff_exists.mp hwired
  obtain ⟨kn, hknext⟩ := Option.isSome_iff_exists.mp hfed
  have hdprev := hprev.dir_chainOut hk
  unfold insertPassThrough
  refine (returns_boundaryCell hrole hw hprev.live).bind fun ⟨id, t⟩ s₁ hnew => ?_
  have hcomplete := complete_of_boundaryCell hrole hnew
  have h₁ := boundaryCell_ok hf hw hnew
  have hnewprev : ∀ p, (⟨id, p⟩ : PortRef) ≠ ⟨prev, f.chainOut⟩ := fun p e =>
    h₁.extended.cell_ne hk (congrArg PortRef.cell e).symm
  have hnewnext : ∀ p, (⟨id, p⟩ : PortRef) ≠ ⟨next, f.chainIn⟩ := fun p e =>
    h₁.extended.cell_ne hknext (congrArg PortRef.cell e).symm
  refine (returns_requiredPort (hcomplete.chainOutput nofun)).bind fun output s₂ houtput => ?_
  obtain ⟨hout, rfl⟩ := requiredPort_ok houtput
  refine (returns_requiredPort (hcomplete.fabricOutput nofun)).bind fun routed s₃ hrouted => ?_
  obtain ⟨houtr, rfl⟩ := requiredPort_ok hrouted
  refine (h₁.returns_detach hk).bind fun signal s₄ hdetach => ?_
  obtain ⟨h₄, hsignal⟩ := h₁.detach hdetach
  obtain rfl := Option.some.inj (hk.symm.trans hsignal)
  refine (returns_linkNet (h₄.bare_isSome hprev.live)).bind fun before s₅ hbefore => ?_
  obtain ⟨h₅, -, hfresh⟩ := h₄.linkNet hbefore
  refine (h₅.returns_drive ((h₅.dir_old hk).trans hdprev) (by simp) (h₅.linked before (by simp))
    fun q hq => absurd hq (hfresh q)).bind fun _ s₆ hdrive => ?_
  obtain ⟨h₆, -⟩ := h₅.connect hdrive
  refine (h₆.returns_read h₆.input_reads ?_ (h₆.tag_link (by simp))).bind fun _ s₇ hinput => ?_
  · simp [hnewprev, h₆.wire_new]
  obtain ⟨h₇, -⟩ := h₆.connect hinput
  have hdrouted := h₇.extended.outputs routed (Or.inr houtr)
  refine (h₇.returns_drive hdrouted ?_ (h₇.tag_driven hk hdprev)
    (h₇.undriven_old hk hdprev (by simp))).bind fun _ s₈ hroute => ?_
  · simp [hnewprev, h₇.wire_new, Ne.symm (h₇.input_ne hdrouted)]
  obtain ⟨h₈, -⟩ := h₇.connect hroute
  refine (h₈.returns_disconnect ?_).bind fun onNet s₉ hdisconnect => ?_
  · rw [h₈.dir_old hknext]
    exact dir_isSome_of_wire hknext
  have h₉ := h₈.disconnect hdisconnect
  refine (returns_linkNet h₉.bare_new).bind fun after s₁₀ hafter => ?_
  obtain ⟨h₁₀, -, hfresh'⟩ := h₉.linkNet hafter
  have hdout := h₁₀.extended.outputs output (Or.inl hout)
  have hports : output ≠ routed :=
    hcomplete.outputs_ne (hf _ _ (template_of_boundaryCell hnew)) hout houtr
  refine (h₁₀.returns_drive hdout ?_ (h₁₀.linked after (by simp)) fun q hq =>
    absurd hq (hfresh' q)).bind fun _ s₁₁ hpass => ?_
  · simp [hnewprev, hnewnext, h₁₀.wire_new, hports, Ne.symm (h₁₀.input_ne hdout)]
  obtain ⟨h₁₁, -⟩ := h₁₀.connect hpass
  refine (h₁₁.returns_read ?_ ?_ (h₁₁.tag_link (by simp))).bind fun _ s₁₂ _ => .pure _ _
  · rw [h₁₁.dir_old hknext]
    exact ⟨dir_isSome_of_wire hknext, hnext.chainIn⟩
  · simp [Ne.symm (hnewnext _)]

/-! ## Steps that can be carried out -/

/-- What an insertion does not take away: cells that can be linked, and connected ports. -/
structure Retains (f : Fabric) (nl nl' : Netlist) : Prop where
  wellFormed : nl'.WellFormed
  linkable : ∀ id, Linkable f nl id → Linkable f nl' id
  wired : ∀ r, (nl.wire r).isSome → (nl'.wire r).isSome

theorem isSome_update {q r : PortRef} (h : q ≠ r → (wire q).isSome) :
    (Function.update wire r (some k) q).isSome := by
  by_cases hq : q = r
  · simp [hq]
  · rw [Function.update_of_ne hq]
    exact h hq

theorem Inserting.retains (hs : Inserting f nl role id t links moved wire s)
    (hwired : ∀ r, (nl.wire r).isSome → (wire r).isSome) : Retains f nl s.netlist where
  wellFormed := hs.extended.wellFormed
  linkable _ h := h.extended hs.extended
  wired r hr := hs.wire ▸ hwired r hr

theorem retains_of_feedIn {head : CellId} (hf : f.Declared) (hw : s.netlist.WellFormed)
    (h : insertFeedIn f head s = .ok id s') : Retains f s.netlist s'.netlist := by
  obtain ⟨t, output, k, link, -, -, hs'⟩ := inserting_of_feedIn hf hw h
  refine hs'.retains fun r hr => isSome_update fun hhead => ?_
  refine isSome_update fun _ => isSome_update fun _ => ?_
  rw [Function.update_of_ne hhead]
  exact hr

theorem retains_of_passOut {tail : CellId} (hf : f.Declared) (hw : s.netlist.WellFormed)
    (h : insertPassOut f tail s = .ok id s') : Retains f s.netlist s'.netlist := by
  obtain ⟨t, routed, k, link, -, -, hs'⟩ := inserting_of_passOut hf hw h
  refine hs'.retains fun r hr => isSome_update fun _ => ?_
  refine isSome_update fun _ => isSome_update fun htail => ?_
  rw [Function.update_of_ne htail]
  exact hr

theorem retains_of_passThrough {prev next : CellId} (hf : f.Declared) (hw : s.netlist.WellFormed)
    (h : insertPassThrough f prev next s = .ok id s') : Retains f s.netlist s'.netlist := by
  obtain ⟨t, output, routed, k, entry, exit, -, -, -, -, -, hs'⟩ := inserting_of_passThrough hf hw h
  refine hs'.retains fun r hr => isSome_update fun hnext => isSome_update fun _ => ?_
  unfold wiresThrough
  rw [Function.update_of_ne hnext]
  refine isSome_update fun _ => isSome_update fun _ => isSome_update fun hprev => ?_
  rw [Function.update_of_ne hprev]
  exact hr

/-- The cells of a step can be linked, and the ports that it moves are connected. -/
def Step.Movable (f : Fabric) (nl : Netlist) : Step → Prop
  | .feedIn head => Linkable f nl head ∧ (nl.wire ⟨head, f.chainIn⟩).isSome
  | .passThrough prev next => Linkable f nl prev ∧ Linkable f nl next ∧
      (nl.wire ⟨prev, f.chainOut⟩).isSome ∧ (nl.wire ⟨next, f.chainIn⟩).isSome
  | .passOut tail => Linkable f nl tail ∧ (nl.wire ⟨tail, f.chainOut⟩).isSome
  | .member _ | .close => True

theorem Step.Movable.retained {step : Step} (h : step.Movable f nl) {nl' : Netlist}
    (hg : Retains f nl nl') : step.Movable f nl' := by
  cases step with
  | feedIn head => exact ⟨hg.linkable _ h.1, hg.wired _ h.2⟩
  | passThrough prev next =>
    obtain ⟨hprev, hnext, hwired, hfed⟩ := h
    exact ⟨hg.linkable _ hprev, hg.linkable _ hnext, hg.wired _ hwired, hg.wired _ hfed⟩
  | passOut tail => exact ⟨hg.linkable _ h.1, hg.wired _ h.2⟩
  | member | close => trivial

/-! ## Carrying out a plan -/

variable {chain : List CellId} {steps : List Step}

/-- The fabric has the boundary cells that the steps insert. -/
def Serves (f : Fabric) (steps : List Step) : Prop :=
  ∀ step ∈ steps, ∀ role, step.role? = some role → f.Provides role

theorem Serves.tail {step : Step} (h : Serves f (step :: steps)) : Serves f steps :=
  fun other hother => h other (List.mem_cons_of_mem step hother)

theorem Serves.head {step : Step} (h : Serves f (step :: steps)) (hrole : step.role? = some role) :
    f.Provides role := h step List.mem_cons_self role hrole

/-- The steps of a layout move connected ports. -/
theorem movable_of_layout {last : Option CellId} {rest : List CellId}
    (h : Layout f nl last rest steps) (hlast : ∀ p, last = some p → Linkable f nl p)
    (hrest : ∀ c ∈ rest, Linkable f nl c) : ∀ step ∈ steps, step.Movable f nl := by
  have hnext : ∀ {c : CellId} {rest : List CellId}, (∀ d ∈ c :: rest, Linkable f nl d) →
      ∀ p, some c = some p → Linkable f nl p := by
    rintro c rest hrest p ⟨⟩
    exact hrest c List.mem_cons_self
  induction h with
  | done => exact nofun
  | start _ _ ih | join _ _ ih =>
    exact List.forall_mem_cons.mpr ⟨trivial, ih (hnext hrest) (List.forall_mem_cons.mp hrest).2⟩
  | startFed hfed _ ih =>
    obtain ⟨hc, hrest'⟩ := List.forall_mem_cons.mp hrest
    exact List.forall_mem_cons.mpr
      ⟨⟨hc, hfed⟩, List.forall_mem_cons.mpr ⟨trivial, ih (hnext hrest) hrest'⟩⟩
  | @joinThrough p c _ _ htogether _ ih =>
    obtain ⟨hc, hrest'⟩ := List.forall_mem_cons.mp hrest
    obtain ⟨k, hk, hk'⟩ := htogether
    have hstep : (Step.passThrough p c).Movable f nl :=
      ⟨hlast p rfl, hc, by simp [hk], by simp [hk']⟩
    exact List.forall_mem_cons.mpr
      ⟨hstep, List.forall_mem_cons.mpr ⟨trivial, ih (hnext hrest) hrest'⟩⟩
  | @split p _ _ _ htogether _ ih =>
    obtain ⟨k, hk, -⟩ := htogether
    have hstep : (Step.passOut p).Movable f nl := ⟨hlast p rfl, by simp [hk]⟩
    exact List.forall_mem_cons.mpr ⟨hstep, List.forall_mem_cons.mpr ⟨trivial, ih nofun hrest⟩⟩
  | finish => exact List.forall_mem_cons.mpr ⟨trivial, nofun⟩
  | @finishOut p hwired =>
    have hstep : (Step.passOut p).Movable f nl := ⟨hlast p rfl, hwired⟩
    exact List.forall_mem_cons.mpr ⟨hstep, List.forall_mem_cons.mpr ⟨trivial, nofun⟩⟩

/-- Steps that move connected ports can be carried out: none of them disconnects what a later one
is to move. -/
theorem returns_carryOut (hf : f.Declared) (hserves : Serves f steps) {segment : Segment}
    (hw : s.netlist.WellFormed) (hmovable : ∀ step ∈ steps, step.Movable f s.netlist) :
    Returns (carryOut f segment steps) s := by
  induction steps generalizing segment s with
  | nil => exact .pure _ _
  | cons step steps ih =>
    obtain ⟨hstep, hrest⟩ := List.forall_mem_cons.mp hmovable
    have hlater : ∀ {segment : Segment} {s₁ : Session}, Retains f s.netlist s₁.netlist →
        Returns (carryOut f segment steps) s₁ := fun hg =>
      ih hserves.tail hg.wellFormed fun other hother => (hrest other hother).retained hg
    cases step with
    | feedIn head =>
      refine (returns_insertFeedIn hf (hserves.head rfl) hw hstep.1 hstep.2).bind fun i s₁ h => ?_
      exact hlater (retains_of_feedIn hf hw h)
    | passThrough prev next =>
      obtain ⟨hprev, hnext, hwired, hfed⟩ := hstep
      refine (returns_insertPassThrough hf (hserves.head rfl) hw hprev hnext hwired hfed).bind
        fun i s₁ h => ?_
      exact hlater (retains_of_passThrough hf hw h)
    | passOut tail =>
      refine (returns_insertPassOut hf (hserves.head rfl) hw hstep.1 hstep.2).bind fun i s₁ h => ?_
      exact hlater (retains_of_passOut hf hw h)
    | member id => exact ih hserves.tail hw hrest
    | close => exact Returns.bind (ih hserves.tail hw hrest) fun _ _ _ => .pure _ _

/-! ## Legalization -/

/-- A cell by itself fits between a feed-in and a pass-out. -/
theorem fitsTile_singleton (hf : f.Complete) (nl : Netlist) (id : CellId) : FitsTile f nl [id] where
  capacity := hf.capacity
  compatible port _ a ha b hb := by rw [List.mem_singleton.mp ha, List.mem_singleton.mp hb]
  length := by
    have hfeed := Bool.toNat_le (fed f nl id)
    have hreserve := Bool.toNat_le (used f nl id)
    have hlimit := hf.length
    rw [openLength_singleton, List.getLast?_singleton, Option.any_some]
    omega

theorem exists_plan (hf : f.Complete) (hw : nl.WellFormed)
    (hlive : ∀ id ∈ chain, (nl.cell? id).isSome) :
    ∃ steps, (plan nl f chain).outcome = .ok steps := by
  have hplan : Optimal f nl chain (plan nl f chain).outcome :=
    optimal_scan hw hlive (OpenSegment.measured_none f nl) nofun
  cases houtcome : (plan nl f chain).outcome with
  | ok steps => exact ⟨steps, rfl⟩
  | error e =>
    have hcut : IsCut (FitsTile f nl) chain (chain.map fun id => [id]) := by
      refine ⟨by simp [← List.flatMap_def], fun b hb => ?_⟩
      obtain ⟨id, -, rfl⟩ := List.mem_map.mp hb
      exact ⟨nofun, fitsTile_singleton hf nl id⟩
    obtain ⟨hempty, -⟩ := hplan.uncuttable e houtcome
    exact absurd ⟨_, hcut, rfl⟩ (Set.eq_empty_iff_forall_notMem.mp hempty _)

/-- No step asks for a boundary cell of the ordinary role. -/
theorem Step.role_ne_normal {step : Step} (h : step.role? = some role) : role ≠ .normal := by
  rintro rfl
  cases step <;> cases h

/-- A complete fabric has what every step of a plan needs. -/
theorem serves_of_complete (hf : f.Complete) (steps : List Step) : Serves f steps :=
  fun _ _ role hrole => hf.boundary role (Step.role_ne_normal hrole)

theorem checkTemplate_eq {step : Step} (h : ∀ role, step.role? = some role → f.Provides role) :
    checkTemplate f step = .ok () := by
  unfold checkTemplate
  cases hrole : step.role? with
  | none => rfl
  | some role =>
    obtain ⟨t, ht, hcomplete⟩ := h role hrole
    refine except_bind_ok.mpr ⟨t, boundaryTemplate_ok.mpr ht, ?_⟩
    by_cases hout : role = .passOut
    · subst hout
      obtain ⟨routed, hrouted⟩ := requiredPort_eq (hcomplete.fabricOutput nofun)
      exact except_bind_ok.mpr ⟨routed, hrouted, rfl⟩
    · obtain ⟨output, houtput⟩ := requiredPort_eq (hcomplete.chainOutput hout)
      rw [if_pos hout]
      refine except_bind_ok.mpr ⟨output, houtput, ?_⟩
      by_cases hfeed : role = .feedIn
      · rw [if_neg (not_not_intro hfeed)]
        rfl
      · obtain ⟨routed, hrouted⟩ := requiredPort_eq (hcomplete.fabricOutput hfeed)
        rw [if_pos hfeed]
        exact except_bind_ok.mpr ⟨routed, hrouted, rfl⟩

/-- There is nothing else to be prepared than a plan for which the fabric has the boundary cells. -/
theorem exists_prepare (hchain : chain.IsChain (Together f s.netlist))
    (hplan : (plan s.netlist f chain).outcome = .ok steps) (hserves : Serves f steps) :
    ∃ s', prepare f chain s = .ok steps s' := by
  obtain ⟨s₁, hwarnings⟩ := exists_forM_ok (l := (plan s.netlist f chain).warnings)
    (fun d _ t => ⟨_, Packing.emit_ok.mpr rfl⟩) s
  obtain ⟨s₂, htemplates⟩ := exists_forM_ok (l := steps)
    (fun step hstep t => ⟨t, Packing.check_ok.mpr ⟨checkTemplate_eq (hserves step hstep), rfl⟩⟩) s₁
  have hlinks : (liftM (checkLinks s.netlist f chain) : Packing Unit) s = .ok () s :=
    Packing.check_ok.mpr ⟨checkLinks_of_isChain hchain, rfl⟩
  refine ⟨s₂, bind_ok.mpr ⟨_, s, Packing.netlist_ok.mpr ⟨rfl, rfl⟩, ?_⟩⟩
  refine bind_ok.mpr ⟨_, s, hlinks, bind_ok.mpr ⟨_, s₁, hwarnings, ?_⟩⟩
  refine bind_ok.mpr ⟨steps, s₁, Packing.check_ok.mpr ⟨hplan, rfl⟩, ?_⟩
  exact bind_ok.mpr ⟨_, s₂, htemplates, pure_ok.mpr ⟨rfl, rfl⟩⟩

/-- Once a plan is prepared for which the fabric has the boundary cells, nothing stands in the way
of carrying it out. -/
theorem returns_of_prepare (hf : f.Declared) (hw : s.netlist.WellFormed)
    (hcells : ∀ c ∈ chain, Linkable f s.netlist c) (hprepare : prepare f chain s = .ok steps s')
    (hserves : Serves f steps) : Returns (carryOut f .empty steps) s' ∧ Returns (legalize f chain) s := by
  obtain ⟨hsame, hlayout⟩ := prepare_ok hw hcells hprepare
  rw [← hsame] at hw hcells hlayout
  have hcarries : Returns (carryOut f .empty steps) s' :=
    returns_carryOut hf hserves hw (movable_of_layout hlayout nofun hcells)
  refine ⟨hcarries, (Returns.of_ok hprepare).bind fun steps₁ s₁ hagain => ?_⟩
  have hboth := hprepare.symm.trans hagain
  cases hboth
  refine hcarries.bind fun segments s₂ hcarry => ?_
  cases hhead : chain.head? with
  | none => exact .pure _ _
  | some head =>
    have hlive := (hcells head (List.mem_of_head? hhead)).live
    rw [bare_isSome] at hlive
    have hkept := ((Cluster.routing_live head).splicing f).keeps_carryOut steps .empty s' hlive
    rw [hcarry] at hkept
    refine (Packing.returns_edit (Edit.returns_cell _ (bare_isSome ▸ hkept))).bind fun c s₃ _ => ?_
    exact Returns.bind ⟨_, _, rfl⟩ fun _ _ _ => .pure _ _

/-- A linked chain with a plan for which the fabric has the boundary cells can be legalized. -/
theorem returns_legalize_of_plan (hf : f.Declared) (hw : s.netlist.WellFormed)
    (hcells : ∀ c ∈ chain, Linkable f s.netlist c) (hchain : chain.IsChain (Together f s.netlist))
    (hplan : (plan s.netlist f chain).outcome = .ok steps) (hserves : Serves f steps) :
    Returns (legalize f chain) s := by
  obtain ⟨s', hprepare⟩ := exists_prepare hchain hplan hserves
  exact (returns_of_prepare hf hw hcells hprepare hserves).2

/-- A linked chain of a complete fabric can be legalized. -/
theorem returns_legalize (hf : f.Complete) (hw : s.netlist.WellFormed)
    (hcells : ∀ c ∈ chain, Linkable f s.netlist c) (hchain : chain.IsChain (Together f s.netlist)) :
    Returns (legalize f chain) s := by
  obtain ⟨steps, hplan⟩ := exists_plan hf hw fun id hid => by
    rw [← bare_isSome]
    exact (hcells id hid).live
  exact returns_legalize_of_plan hf.declared hw hcells hchain hplan (serves_of_complete hf steps)

end Chain
end FpgaPacking
