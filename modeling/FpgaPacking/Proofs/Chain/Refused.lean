import FpgaPacking.Proofs.Chain.Independence

/-!
# When a chain is refused

Legalization makes three checks before it edits anything: that neighbours are
linked, that each cell can at least start a segment of its own, and that the
fabric has a template for each boundary role of the plan.  `Refused` lists the
failures of these checks, each with the first link, cell or step that fails it.
They are all the failures there are.  A plan that has passed moves connected ports
only, so every insertion goes through.
-/

namespace FpgaPacking

/-! ## The first of a list -/

/-- The first element of the list that satisfies the predicate. -/
def IsFirst {α : Type} (P : α → Prop) (l : List α) (a : α) : Prop :=
  ∃ before after, l = before ++ a :: after ∧ (∀ b ∈ before, ¬P b) ∧ P a

namespace IsFirst

variable {α : Type} {P : α → Prop} {l : List α} {a b : α}

theorem not_nil : ¬IsFirst P [] a := by
  rintro ⟨before, after, h, -⟩
  exact absurd (List.append_eq_nil_iff.mp h.symm).2 nofun

theorem cons_of_pos (ha : P a) : IsFirst P (a :: l) b ↔ b = a := by
  constructor
  · rintro ⟨before, after, h, hbefore, -⟩
    cases before with
    | nil => exact (List.cons.inj h).1.symm
    | cons c before =>
      obtain rfl := (List.cons.inj h).1
      exact absurd ha (hbefore a List.mem_cons_self)
  · rintro rfl
    exact ⟨[], l, rfl, nofun, ha⟩

theorem cons_of_neg (ha : ¬P a) : IsFirst P (a :: l) b ↔ IsFirst P l b := by
  constructor
  · rintro ⟨before, after, h, hbefore, hb⟩
    cases before with
    | nil =>
      obtain rfl := (List.cons.inj h).1
      exact absurd hb ha
    | cons c before =>
      obtain ⟨rfl, rfl⟩ := List.cons.inj h
      exact ⟨before, after, rfl, fun d hd => hbefore d (List.mem_cons_of_mem a hd), hb⟩
  · rintro ⟨before, after, rfl, hbefore, hb⟩
    exact ⟨a :: before, after, rfl, List.forall_mem_cons.mpr ⟨ha, hbefore⟩, hb⟩

end IsFirst

namespace Chain

/-- Why a chain cannot be legalized. -/
inductive Refused (f : Fabric) (nl : Netlist) (chain : List CellId) : Failure → Prop
  /-- Two neighbours are not linked. -/
  | broken {p c : CellId} {a b : Cell}
      (hlink : IsFirst (fun link => ¬Together f nl link.1 link.2) (chain.zip chain.tail) (p, c))
      (ha : nl.cell? p = some a) (hb : nl.cell? c = some b) :
      Refused f nl chain (.violation (.brokenLink a.name b.name))
  /-- All neighbours are linked, but a cell cannot start a segment of its own. -/
  | tooLong {c : CellId} {a : Cell} (hlinked : chain.IsChain (Together f nl))
      (hcell : IsFirst (fun id => ¬FitsTile f nl [id]) chain c) (ha : nl.cell? c = some a) :
      Refused f nl chain (.rejected (.chainTooLong a.name f.tileCapacity f.maxChainLength))
  /-- There is a plan, but no template for a boundary role that it uses. -/
  | noTemplate {steps : List Step} {step : Step} {role : Role} (hlinked : chain.IsChain (Together f nl))
      (hplan : (plan nl f chain).outcome = .ok steps)
      (hstep : IsFirst (fun step => ∃ role, step.role? = some role ∧ f.boundary role = none) steps
        step) (hrole : step.role? = some role) :
      Refused f nl chain (.violation (.noBoundaryCell f.family role))

variable {f : Fabric} {s s' : Session} {nl : Netlist} {chain rest : List CellId} {e : Failure}
  {steps : List Step}

/-! ## Links -/

theorem checkLink_eq_ok {p c : CellId} (h : Together f nl p c) : checkLink nl f p c = .ok () := by
  obtain ⟨k, hp, hc⟩ := h
  have hnp : nl.netOf p f.chainOut = some k := hp
  have hnc : nl.netOf c f.chainIn = some k := hc
  unfold checkLink
  rw [hnp, hnc]
  exact if_pos ⟨rfl, rfl⟩

theorem checkLink_eq_error {p c : CellId} {a b : Cell} (ha : nl.cell? p = some a)
    (hb : nl.cell? c = some b) (h : ¬Together f nl p c) :
    checkLink nl f p c = .error (.violation (.brokenLink a.name b.name)) := by
  unfold checkLink
  dsimp only
  split
  · next hcond =>
    obtain ⟨k, hk⟩ := Option.isSome_iff_exists.mp hcond.1
    exact absurd ⟨k, hk, hcond.2.symm.trans hk⟩ h
  · rw [cell_eq_ok.mpr ha, cell_eq_ok.mpr hb]
    rfl

/-- The check of the links fails at the first one that is broken. -/
theorem checkLinks_error_iff (hlive : ∀ id ∈ chain, (nl.cell? id).isSome) :
    checkLinks nl f chain = .error e ↔
      ∃ p c a b, IsFirst (fun link => ¬Together f nl link.1 link.2) (chain.zip chain.tail) (p, c) ∧
        nl.cell? p = some a ∧ nl.cell? c = some b ∧
        e = .violation (.brokenLink a.name b.name) := by
  induction chain with
  | nil => exact ⟨nofun, fun ⟨_, _, _, _, h, _⟩ => absurd h IsFirst.not_nil⟩
  | cons p rest ih =>
    cases rest with
    | nil => exact ⟨nofun, fun ⟨_, _, _, _, h, _⟩ => absurd h IsFirst.not_nil⟩
    | cons c rest =>
      obtain ⟨hp, hrest⟩ := List.forall_mem_cons.mp hlive
      unfold checkLinks
      rw [List.tail_cons, List.zip_cons_cons]
      by_cases hlink : Together f nl p c
      · rw [checkLink_eq_ok hlink]
        refine (ih hrest).trans ?_
        simp only [IsFirst.cons_of_neg (a := (p, c)) (P := fun link => ¬Together f nl link.1 link.2)
          (not_not_intro hlink)]
        rfl
      · obtain ⟨a, ha⟩ := Option.isSome_iff_exists.mp hp
        obtain ⟨b, hb⟩ := Option.isSome_iff_exists.mp (hrest c List.mem_cons_self)
        rw [checkLink_eq_error ha hb hlink]
        simp only [IsFirst.cons_of_pos (a := (p, c)) (P := fun link => ¬Together f nl link.1 link.2)
          hlink]
        constructor
        · rintro ⟨⟩
          exact ⟨p, c, a, b, rfl, ha, hb, rfl⟩
        · rintro ⟨_, _, a', b', ⟨⟩, ha', hb', rfl⟩
          obtain rfl := Option.some.inj (ha.symm.trans ha')
          obtain rfl := Option.some.inj (hb.symm.trans hb')
          rfl

/-! ## Planning -/

theorem FitsTile.last {cells : List CellId} {id : CellId} (h : FitsTile f nl (cells ++ [id])) :
    FitsTile f nl [id] := by
  induction cells with
  | nil => exact h
  | cons a cells ih => exact ih (shortenable_fitsTile.tail a _ (by simp) h)

theorem Plan.after_error {p : Plan} {later : List Step} {warnings : List Diagnostic} :
    (p.after later warnings).outcome = .error e ↔ p.outcome = .error e := by
  unfold Plan.after
  cases p.outcome with
  | error e' => exact Iff.rfl
  | ok rest => exact ⟨nofun, nofun⟩

theorem scan_of_fits (rest : List CellId) (hw : nl.WellFormed) {segment : OpenSegment}
    (hlength : segment.Measured f nl) {id : CellId} (hfits : FitsTile f nl [id]) :
    ∃ later : OpenSegment, later.Measured f nl ∧
      ∃ steps warnings,
        scan nl f segment (id :: rest) = (scan nl f later rest).after steps warnings := by
  obtain ⟨joined, hextend, hjoined, -, -, hiff⟩ := extend_eq hw hlength id
  rw [scan, hextend]
  dsimp only
  by_cases hjoins : joined.fits
  · rw [if_pos hjoins]
    exact ⟨joined.segment, hjoined, _, _, rfl⟩
  · rw [if_neg hjoins]
    cases hlast : segment.cells.getLast? with
    | none =>
      rw [List.getLast?_eq_none_iff.mp hlast, List.nil_append] at hiff
      exact absurd (hiff.mpr hfits) hjoins
    | some p =>
      obtain ⟨alone, hstart, halone, -, -, hiff'⟩ := extend_eq hw (OpenSegment.measured_none f nl) id
      dsimp only
      rw [hstart]
      dsimp only
      rw [if_pos (hiff'.mpr hfits)]
      exact ⟨alone.segment, halone, _, _, rfl⟩

theorem scan_of_not_fits (hw : nl.WellFormed) {segment : OpenSegment}
    (hlength : segment.Measured f nl) {id : CellId} (hfits : ¬FitsTile f nl [id]) :
    (scan nl f segment (id :: rest)).outcome = .error (tooLong nl f id) := by
  obtain ⟨joined, hextend, -, -, -, hiff⟩ := extend_eq hw hlength id
  unfold scan
  rw [hextend]
  dsimp only
  rw [if_neg fun hjoins => hfits (hiff.mp hjoins).last]
  cases hlast : segment.cells.getLast? with
  | none => rfl
  | some p =>
    obtain ⟨alone, hstart, -, -, -, hiff'⟩ := extend_eq hw (OpenSegment.measured_none f nl) id
    dsimp only
    rw [hstart]
    dsimp only
    rw [if_neg fun hstarts => hfits (hiff'.mp hstarts)]
    rfl

/-- Planning fails at the first cell that cannot start a segment of its own, whatever segment is
open when it is reached. -/
theorem scan_error_iff (rest : List CellId) (e : Failure) (hw : nl.WellFormed) {segment : OpenSegment}
    (hlength : segment.Measured f nl) : (scan nl f segment rest).outcome = .error e ↔
      ∃ c, IsFirst (fun id => ¬FitsTile f nl [id]) rest c ∧ e = tooLong nl f c := by
  induction rest generalizing segment with
  | nil =>
    unfold scan
    rw [finish_eq hw]
    constructor
    · intro h
      cases h
    · rintro ⟨c, h, -⟩
      exact absurd h IsFirst.not_nil
  | cons id rest ih =>
    by_cases hfits : FitsTile f nl [id]
    · obtain ⟨later, hlater, steps, warnings, heq⟩ := scan_of_fits rest hw hlength hfits
      rw [heq, Plan.after_error, ih hlater]
      simp only [IsFirst.cons_of_neg (a := id) (P := fun id => ¬FitsTile f nl [id])
        (not_not_intro hfits)]
    · rw [scan_of_not_fits hw hlength hfits]
      simp only [IsFirst.cons_of_pos (a := id) (P := fun id => ¬FitsTile f nl [id]) hfits,
        exists_eq_left]
      exact ⟨fun h => (Except.error.inj h).symm, fun h => congrArg Except.error h.symm⟩

/-! ## Templates -/

/-- The check of a step fails only for want of the template. -/
theorem checkTemplate_error_iff (hf : f.Serviceable) {step : Step} :
    checkTemplate f step = .error e ↔ ∃ role, step.role? = some role ∧ f.boundary role = none ∧
      e = .violation (.noBoundaryCell f.family role) := by
  cases hrole : step.role? with
  | none =>
    rw [checkTemplate_eq (by simp [hrole])]
    exact ⟨nofun, fun ⟨_, h, _⟩ => nomatch h⟩
  | some role =>
    cases ht : f.boundary role with
    | none =>
      unfold checkTemplate boundaryTemplate
      rw [hrole]
      simp only [ht]
      constructor
      · rintro ⟨⟩
        exact ⟨role, rfl, ht, rfl⟩
      · rintro ⟨_, ⟨⟩, -, rfl⟩
        rfl
    | some t =>
      have hprovides : ∀ r, step.role? = some r → f.Provides r := by
        rintro r hr
        obtain rfl := Option.some.inj (hrole.symm.trans hr)
        exact ⟨t, ht, hf.complete role t ht⟩
      rw [checkTemplate_eq hprovides]
      refine ⟨nofun, ?_⟩
      rintro ⟨_, ⟨⟩, hnone, -⟩
      exact absurd (ht.symm.trans hnone) nofun

/-- The steps are checked up to the first for whose role there is no template. -/
theorem checkTemplates_error_iff (hf : f.Serviceable) :
    (steps.forM (checkTemplate f) : Except Failure PUnit) = .error e ↔
      ∃ step role, IsFirst (fun step => ∃ role, step.role? = some role ∧ f.boundary role = none) steps
          step ∧ step.role? = some role ∧ e = .violation (.noBoundaryCell f.family role) := by
  induction steps with
  | nil => exact ⟨nofun, fun ⟨_, _, h, _⟩ => absurd h IsFirst.not_nil⟩
  | cons step steps ih =>
    have hcons : ((step :: steps).forM (checkTemplate f) : Except Failure PUnit) =
        (checkTemplate f step >>= fun _ => steps.forM (checkTemplate f)) := rfl
    rw [hcons]
    by_cases hmissing : ∃ role, step.role? = some role ∧ f.boundary role = none
    · obtain ⟨role, hrole, hnone⟩ := hmissing
      have hstep := (checkTemplate_error_iff hf).mpr ⟨role, hrole, hnone, rfl⟩
      rw [hstep]
      simp only [IsFirst.cons_of_pos (a := step) (P := fun step => ∃ role, step.role? = some role ∧
        f.boundary role = none) ⟨role, hrole, hnone⟩]
      constructor
      · rintro ⟨⟩
        exact ⟨step, role, rfl, hrole, rfl⟩
      · rintro ⟨_, role', rfl, hrole', rfl⟩
        obtain rfl := Option.some.inj (hrole.symm.trans hrole')
        rfl
    · have hstep : checkTemplate f step = .ok () := by
        cases hcheck : checkTemplate f step with
        | ok u => rfl
        | error e' =>
          obtain ⟨role, hrole, hnone, -⟩ := (checkTemplate_error_iff hf).mp hcheck
          exact absurd ⟨role, hrole, hnone⟩ hmissing
      rw [hstep]
      simp only [IsFirst.cons_of_neg (a := step) (P := fun step => ∃ role, step.role? = some role ∧
        f.boundary role = none) hmissing]
      exact ih

/-! ## Preparation -/

theorem prepare_error_of_links (h : checkLinks s.netlist f chain = .error e) :
    prepare f chain s = .error e s := by
  have hlinks : (liftM (checkLinks s.netlist f chain) : Packing Unit) s = .error e s := by
    rw [h]
    rfl
  exact bind_error.mpr (Or.inr ⟨_, s, Packing.netlist_ok.mpr ⟨rfl, rfl⟩, bind_error.mpr (Or.inl hlinks)⟩)

/-- Preparation fails for no reason but the links and the plan. -/
theorem prepare_refuses (hf : f.Serviceable) (h : prepare f chain s = .error e s') :
    checkLinks s.netlist f chain = .error e ∨
      chain.IsChain (Together f s.netlist) ∧ verdict f s.netlist chain = .error e := by
  cases hlinks : checkLinks s.netlist f chain with
  | error e' =>
    have hagain := h.symm.trans (prepare_error_of_links hlinks)
    cases hagain
    exact Or.inl rfl
  | ok u =>
    have hlinked := isChain_of_checkLinks hlinks
    refine Or.inr ⟨hlinked, ?_⟩
    cases hverdict : verdict f s.netlist chain with
    | error e' =>
      obtain ⟨s₁, hprepare, -⟩ := prepare_error hlinked hverdict
      have hagain := h.symm.trans hprepare
      cases hagain
      rfl
    | ok made =>
      obtain ⟨steps, houtcome, hchecked⟩ := except_bind_ok.mp hverdict
      obtain ⟨u, hchecked, -⟩ := except_bind_ok.mp hchecked
      obtain ⟨s₁, hprepare⟩ := exists_prepare hlinked houtcome (serves_of_checked hf hchecked)
      exact absurd (h.symm.trans hprepare) nofun

theorem serves_of_prepare (hf : f.Serviceable) (h : prepare f chain s = .ok steps s') :
    Serves f steps := by
  unfold prepare at h
  obtain ⟨nl, s₁, -, h⟩ := bind_ok.mp h
  obtain ⟨u, s₂, -, h⟩ := bind_ok.mp h
  obtain ⟨u', s₃, -, h⟩ := bind_ok.mp h
  obtain ⟨steps', s₄, -, h⟩ := bind_ok.mp h
  obtain ⟨u'', s₅, htemplates, h⟩ := bind_ok.mp h
  obtain ⟨rfl, -⟩ := pure_ok.mp h
  rw [forM_check] at htemplates
  refine serves_of_checked hf ?_
  cases hchecked : (steps'.forM (checkTemplate f) : Except Failure PUnit) with
  | ok u => rfl
  | error e =>
    rw [hchecked] at htemplates
    cases htemplates

theorem verdict_error : verdict f nl chain = .error e ↔
    (plan nl f chain).outcome = .error e ∨ ∃ steps, (plan nl f chain).outcome = .ok steps ∧
      (steps.forM (checkTemplate f) : Except Failure PUnit) = .error e := by
  unfold verdict
  rw [except_bind_error]
  refine or_congr_right (exists_congr fun steps => and_congr_right fun _ => ?_)
  rw [except_bind_error]
  exact or_iff_left fun ⟨_, _, h⟩ => nomatch h

theorem refused_iff (hf : f.Serviceable) (hw : nl.WellFormed)
    (hlive : ∀ id ∈ chain, (nl.cell? id).isSome) : Refused f nl chain e ↔
      checkLinks nl f chain = .error e ∨
        chain.IsChain (Together f nl) ∧ verdict f nl chain = .error e := by
  have hplan := scan_error_iff chain e hw (OpenSegment.measured_none f nl)
  constructor
  · rintro (@⟨p, c, a, b, hlink, ha, hb⟩ | @⟨c, a, hlinked, hcell, ha⟩ |
      @⟨steps, step, role, hlinked, houtcome, hstep, hrole⟩)
    · exact Or.inl ((checkLinks_error_iff hlive).mpr ⟨p, c, a, b, hlink, ha, hb, rfl⟩)
    · refine Or.inr ⟨hlinked, verdict_error.mpr (Or.inl (hplan.mpr ⟨c, hcell, ?_⟩))⟩
      exact (tooLong_eq ha).symm
    · refine Or.inr ⟨hlinked, verdict_error.mpr (Or.inr ⟨steps, houtcome, ?_⟩)⟩
      exact (checkTemplates_error_iff hf).mpr ⟨step, role, hstep, hrole, rfl⟩
  · rintro (h | ⟨hlinked, h⟩)
    · obtain ⟨p, c, a, b, hlink, ha, hb, rfl⟩ := (checkLinks_error_iff hlive).mp h
      exact .broken hlink ha hb
    · rcases verdict_error.mp h with h | ⟨steps, houtcome, h⟩
      · obtain ⟨c, hcell, rfl⟩ := hplan.mp h
        obtain ⟨before, after, rfl, -⟩ := id hcell
        obtain ⟨a, ha⟩ := Option.isSome_iff_exists.mp (hlive c (by simp))
        rw [tooLong_eq ha]
        exact .tooLong hlinked hcell ha
      · obtain ⟨step, role, hstep, hrole, rfl⟩ := (checkTemplates_error_iff hf).mp h
        exact .noTemplate hlinked houtcome hstep hrole

/-! ## Legalization -/

/-- Legalizing a chain fails if one of its links is broken, or else a cell cannot start a segment of
its own, or else there is no template for a boundary role of the plan, and for no other reason.  It
leaves the netlist as it was then.  After the preparation nothing fails any more. -/
theorem legalize_refused_iff {config : Config} {names names' : Names}
    (hvalid : config.validate = .ok ()) (hf : Fabric.ofConfig config names = (.ok f, names'))
    (hw : s.netlist.WellFormed) (hcells : ∀ id ∈ chain, Linkable f s.netlist id) :
    (∀ e, (∃ s', legalize f chain s = .error e s') ↔ Refused f s.netlist chain e) ∧
    (∀ e s', legalize f chain s = .error e s' → s'.netlist = s.netlist) ∧
    ∀ steps s₁, prepare f chain s = .ok steps s₁ → s₁.netlist = s.netlist ∧
      Returns (carryOut f .empty steps) s₁ ∧ Returns (legalize f chain) s := by
  have hserviceable := Fabric.serviceable_of_config hvalid hf
  have hreturns : ∀ steps s₁, prepare f chain s = .ok steps s₁ →
      Returns (carryOut f .empty steps) s₁ ∧ Returns (legalize f chain) s := fun steps s₁ h =>
    returns_of_prepare hserviceable.declared hw hcells h (serves_of_prepare hserviceable h)
  have herror : ∀ e s', legalize f chain s = .error e s' → prepare f chain s = .error e s' := by
    intro e s' h
    rcases bind_error.mp h with hprepare | ⟨steps, s₁, hprepare, -⟩
    · exact hprepare
    · obtain ⟨-, segments, s₂, hrun⟩ := hreturns steps s₁ hprepare
      exact absurd (h.symm.trans hrun) nofun
  have hlive : ∀ id ∈ chain, (s.netlist.cell? id).isSome := fun id hid => by
    rw [← Netlist.bare_isSome]
    exact (hcells id hid).live
  refine ⟨fun e => ⟨?_, fun h => ?_⟩, fun e s' h => ?_, fun steps s₁ h => ?_⟩
  · rintro ⟨s', h⟩
    rw [refused_iff hserviceable hw hlive]
    exact prepare_refuses hserviceable (herror e s' h)
  · rcases (refused_iff hserviceable hw hlive).mp h with hlinks | ⟨hlinked, hverdict⟩
    · exact ⟨s, bind_error.mpr (Or.inl (prepare_error_of_links hlinks))⟩
    · obtain ⟨s₁, hprepare, -⟩ := prepare_error hlinked hverdict
      exact ⟨s₁, bind_error.mpr (Or.inl hprepare)⟩
  · have hkept := keeps_prepare (I := fun nl => nl = s.netlist) f chain s rfl
    rw [herror e s' h] at hkept
    exact hkept
  · exact ⟨(plan_of_prepare h).2.2, hreturns steps s₁ h⟩

namespace Adder

def openConfig : Config := { config with boundary := { config.boundary with passOut := none } }

def openFabric : Fabric := { fabric with passOut := none }

theorem exists_openFabric : ∃ names', Fabric.ofConfig openConfig .empty = (.ok openFabric, names') := by
  have hfabric : (Fabric.ofConfig openConfig .empty).1.toOption = some openFabric := by
    decide +kernel
  exact ⟨_, Prod.ext (eq_ok_of_toOption hfabric) rfl⟩

/-- The chain of the two carry cells needs a pass-out.  The wrong way round it is not linked, which
is found first. -/
theorem open_refused :
    (∃ s', legalize openFabric [⟨1⟩, ⟨2⟩] session =
        .error (.violation (.noBoundaryCell "CARRY" .passOut)) s' ∧
      s'.netlist = session.netlist ∧
      Refused openFabric session.netlist [⟨1⟩, ⟨2⟩] (.violation (.noBoundaryCell "CARRY" .passOut))) ∧
    ∃ s', legalize openFabric [⟨2⟩, ⟨1⟩] session = .error (.violation (.brokenLink "high" "low")) s' ∧
      s'.netlist = session.netlist := by
  have hlinkable : ∀ id ∈ [⟨1⟩, ⟨2⟩], Linkable openFabric session.netlist id := fun id hid =>
    ⟨by revert id; decide +kernel, by revert id; decide +kernel, by revert id; decide +kernel⟩
  obtain ⟨names', hf⟩ := exists_openFabric
  obtain ⟨s₁, hmissing⟩ : ∃ s', legalize openFabric [⟨1⟩, ⟨2⟩] session =
      .error (.violation (.noBoundaryCell "CARRY" .passOut)) s' :=
    exists_error_of_failure (by decide +kernel)
  obtain ⟨s₂, hbroken⟩ : ∃ s', legalize openFabric [⟨2⟩, ⟨1⟩] session =
      .error (.violation (.brokenLink "high" "low")) s' :=
    exists_error_of_failure (by decide +kernel)
  obtain ⟨hrefused, hkept, -⟩ :=
    legalize_refused_iff (by rfl : openConfig.validate = .ok ()) hf packable.wellFormed hlinkable
  obtain ⟨-, hkept', -⟩ :=
    legalize_refused_iff (by rfl : openConfig.validate = .ok ()) hf packable.wellFormed
      (fun id hid => hlinkable id (by simpa [or_comm] using hid) : ∀ id ∈ [⟨2⟩, ⟨1⟩], _)
  exact ⟨⟨s₁, hmissing, hkept _ s₁ hmissing, (hrefused _).mp ⟨s₁, hmissing⟩⟩,
    s₂, hbroken, hkept' _ s₂ hbroken⟩

end Adder

end Chain
end FpgaPacking
