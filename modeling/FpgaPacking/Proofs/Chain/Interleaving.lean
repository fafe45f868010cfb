import FpgaPacking.Proofs.Chain.Behind
import FpgaPacking.Proofs.Chain.Progress
import FpgaPacking.Proofs.Chain.RoundTrip

/-!
# Planning first or editing at once

Legalization decides on all steps before the first edit.  The alternative is to
go over the chain once and to carry out each step as soon as it is decided on, so
that every later decision is made on the edited netlist.  The two agree, because
the edits lie behind the scan and do not change the answers to later questions.
-/

namespace FpgaPacking

/-! ## Steps that have nothing to do with the log -/

/-- Regular runs of the step neither read nor write the log. -/
def Packing.Silent {α : Type} (x : Packing α) : Prop :=
  ∀ s a s', x s = .ok a s' → s'.log = s.log ∧ ∀ log, x { s with log } = .ok a { s' with log }

namespace Packing.Silent

variable {α β : Type}

theorem pure (a : α) : Silent (Pure.pure a : Packing α) := by
  intro s b s' h
  obtain ⟨rfl, rfl⟩ := pure_ok.mp h
  exact ⟨rfl, fun _ => rfl⟩

theorem bind {x : Packing α} {f : α → Packing β} (hx : Silent x) (hf : ∀ a, Silent (f a)) :
    Silent (x >>= f) := by
  intro s b s'' h
  obtain ⟨a, s', hfirst, hrest⟩ := bind_ok.mp h
  obtain ⟨hlog, hfirst⟩ := hx s a s' hfirst
  obtain ⟨hlog', hrest⟩ := hf a s' b s'' hrest
  exact ⟨hlog'.trans hlog, fun log => bind_ok.mpr ⟨a, _, hfirst log, hrest log⟩⟩

theorem edit (x : Edit α) : Silent (liftM x : Packing α) := by
  intro s a s' h
  obtain ⟨nl, hrun, rfl⟩ := edit_ok.mp h
  exact ⟨rfl, fun log => edit_ok.mpr ⟨nl, hrun, rfl⟩⟩

theorem name (x : Naming α) : Silent (liftM x : Packing α) := by
  rintro ⟨names, netlist, log⟩ a s' ⟨⟩
  exact ⟨rfl, fun _ => rfl⟩

theorem check (x : Except Failure α) : Silent (liftM x : Packing α) := by
  intro s a s' h
  obtain ⟨hx, rfl⟩ := check_ok.mp h
  exact ⟨rfl, fun log => check_ok.mpr ⟨hx, rfl⟩⟩

end Packing.Silent

namespace Chain

open Netlist

variable {f : Fabric} {nl₀ nl nl' : Netlist} {s s' s₁ : Session} {id p : CellId}
  {chain rest window : List CellId} {moved moved' : List PortRef} {segment segment' : Segment}
  {steps later : List Step} {open₁ : OpenSegment}

theorem silent_boundaryCell (f : Fabric) (role : Role) (anchor : CellId) :
    Packing.Silent (boundaryCell f role anchor) := by
  refine Packing.Silent.bind (.check _) fun t => ?_
  refine Packing.Silent.bind (.edit _) fun c => Packing.Silent.bind (.edit _) fun name => ?_
  refine Packing.Silent.bind (.edit _) fun id => Packing.Silent.bind (.name _) fun key => ?_
  exact Packing.Silent.bind (.edit _) fun _ => .pure _

theorem silent_insertFeedIn (f : Fabric) (head : CellId) :
    Packing.Silent (insertFeedIn f head) := by
  refine Packing.Silent.bind (silent_boundaryCell f .feedIn head) fun made => ?_
  refine Packing.Silent.bind (.check _) fun output => Packing.Silent.bind (.edit _) fun external => ?_
  refine Packing.Silent.bind (.edit _) fun _ => Packing.Silent.bind (.edit _) fun link => ?_
  exact Packing.Silent.bind (.edit _) fun _ => Packing.Silent.bind (.edit _) fun _ => .pure _

theorem silent_insertPassThrough (f : Fabric) (prev next : CellId) :
    Packing.Silent (insertPassThrough f prev next) := by
  refine Packing.Silent.bind (silent_boundaryCell f .passThrough prev) fun made => ?_
  refine Packing.Silent.bind (.check _) fun output => Packing.Silent.bind (.check _) fun routed => ?_
  refine Packing.Silent.bind (.edit _) fun signal => Packing.Silent.bind (.edit _) fun before => ?_
  refine Packing.Silent.bind (.edit _) fun _ => Packing.Silent.bind (.edit _) fun _ => ?_
  refine Packing.Silent.bind (.edit _) fun _ => Packing.Silent.bind (.edit _) fun _ => ?_
  refine Packing.Silent.bind (.edit _) fun after => Packing.Silent.bind (.edit _) fun _ => ?_
  exact Packing.Silent.bind (.edit _) fun _ => .pure _

theorem silent_insertPassOut (f : Fabric) (tail : CellId) :
    Packing.Silent (insertPassOut f tail) := by
  refine Packing.Silent.bind (silent_boundaryCell f .passOut tail) fun made => ?_
  refine Packing.Silent.bind (.check _) fun routed => Packing.Silent.bind (.edit _) fun signal => ?_
  refine Packing.Silent.bind (.edit _) fun link => Packing.Silent.bind (.edit _) fun _ => ?_
  exact Packing.Silent.bind (.edit _) fun _ => Packing.Silent.bind (.edit _) fun _ => .pure _

theorem silent_carryOut (f : Fabric) (steps : List Step) : ∀ segment : Segment,
    Packing.Silent (carryOut f segment steps) := by
  induction steps with
  | nil => exact fun _ => .pure _
  | cons step rest ih =>
    intro segment
    cases step with
    | feedIn head => exact Packing.Silent.bind (silent_insertFeedIn f head) fun _ => ih _
    | passThrough prev next =>
      exact Packing.Silent.bind (silent_insertPassThrough f prev next) fun _ => ih _
    | member id => exact ih _
    | passOut tail => exact Packing.Silent.bind (silent_insertPassOut f tail) fun _ => ih _
    | close => exact Packing.Silent.bind (ih _) fun _ => .pure _

/-! ## The interleaved algorithm -/

/-- Performs a step, which puts its cell into the open segment. -/
def perform (f : Fabric) (segment : Segment) : Step → Packing Segment
  | .feedIn head => return segment.addBoundary (← insertFeedIn f head)
  | .passThrough prev next => return segment.addBoundary (← insertPassThrough f prev next)
  | .member id => return segment.addChainCell id
  | .passOut tail => return segment.addBoundary (← insertPassOut f tail)
  | .close => return segment

/-- What becomes of the rest of a chain that is scanned and edited together. -/
structure Interleaved where
  /-- The warnings on the way, in order. -/
  warnings : List Diagnostic
  /-- The steps that were decided on, also before the chain was rejected. -/
  decisions : List Step
  /-- The open segment, completed, and those after it, or why the chain is rejected. -/
  outcome : Except Failure (List Segment)

namespace Interleaved

/-- What becomes of a chain after the given decisions. -/
def after (warnings : List Diagnostic) (decisions : List Step) (r : Interleaved) : Interleaved :=
  { r with warnings := warnings ++ r.warnings, decisions := decisions ++ r.decisions }

/-- What becomes of a chain after a segment that a pass-out completes. -/
def completing (tail : CellId) (segment : Segment) (r : Interleaved) : Interleaved :=
  { r with
    decisions := .passOut tail :: .close :: r.decisions
    outcome := r.outcome.map (segment :: ·) }

end Interleaved

/-- Scans the rest of a chain and performs each step as soon as it is decided on.  All questions are
put to the netlist as it stands. -/
def interleave (f : Fabric) (window : OpenSegment) (segment : Segment) :
    List CellId → Packing Interleaved
  | [] => do
    match window.cells.getLast? with
    | none => return ⟨[], [], .ok []⟩
    | some _ => do
      let steps ← finish (← Packing.netlist) f window
      let segment ← steps.foldlM (perform f) segment
      return ⟨[], steps, .ok [segment]⟩
  | id :: rest => do
    let joined ← extend (← Packing.netlist) f window id
    if joined.fits then do
      let segment ← joined.steps.foldlM (perform f) segment
      let later ← interleave f joined.segment segment rest
      return later.after joined.warnings joined.steps
    else
      match window.cells.getLast? with
      | none => return ⟨joined.warnings, [], .error (tooLong (← Packing.netlist) f id)⟩
      | some prev => do
        let full ← perform f segment (.passOut prev)
        let alone ← extend (← Packing.netlist) f .none id
        if alone.fits then do
          let segment ← alone.steps.foldlM (perform f) .empty
          let later ← interleave f alone.segment segment rest
          return (later.after alone.warnings alone.steps).completing prev full
        else
          return .completing prev full ⟨alone.warnings, [], .error (tooLong (← Packing.netlist) f id)⟩

section Runs

variable {joined alone : Extension} {full : Segment} {later : Interleaved}
  (hjoined : extend s.netlist f open₁ id = .ok joined)
include hjoined

theorem interleave_join (hfits : joined.fits = true)
    (hperform : joined.steps.foldlM (perform f) segment s = .ok segment' s₁)
    (hlater : interleave f joined.segment segment' rest s₁ = .ok later s') :
    interleave f open₁ segment (id :: rest) s = .ok (later.after joined.warnings joined.steps) s' := by
  unfold interleave
  refine bind_ok.mpr ⟨_, s, Packing.netlist_ok.mpr ⟨rfl, rfl⟩, ?_⟩
  refine bind_ok.mpr ⟨_, s, Packing.lookup_ok.mpr ⟨hjoined, rfl⟩, ?_⟩
  rw [if_pos hfits]
  exact bind_ok.mpr ⟨segment', s₁, hperform, bind_ok.mpr ⟨later, s', hlater, rfl⟩⟩

theorem interleave_reject (hfits : ¬joined.fits = true) (hlast : open₁.cells.getLast? = none) :
    interleave f open₁ segment (id :: rest) s =
      .ok ⟨joined.warnings, [], .error (tooLong s.netlist f id)⟩ s := by
  unfold interleave
  refine bind_ok.mpr ⟨_, s, Packing.netlist_ok.mpr ⟨rfl, rfl⟩, ?_⟩
  refine bind_ok.mpr ⟨_, s, Packing.lookup_ok.mpr ⟨hjoined, rfl⟩, ?_⟩
  rw [if_neg hfits, hlast]
  rfl

variable (hfits : ¬joined.fits = true) (hlast : open₁.cells.getLast? = some p)
  (hpassOut : perform f segment (.passOut p) s = .ok full s₁)
  (halone : extend s₁.netlist f .none id = .ok alone)
include hfits hlast hpassOut halone

theorem interleave_split {s₂ : Session} (hstarts : alone.fits = true)
    (hperform : alone.steps.foldlM (perform f) .empty s₁ = .ok segment' s₂)
    (hlater : interleave f alone.segment segment' rest s₂ = .ok later s') :
    interleave f open₁ segment (id :: rest) s =
      .ok ((later.after alone.warnings alone.steps).completing p full) s' := by
  unfold interleave
  refine bind_ok.mpr ⟨_, s, Packing.netlist_ok.mpr ⟨rfl, rfl⟩, ?_⟩
  refine bind_ok.mpr ⟨_, s, Packing.lookup_ok.mpr ⟨hjoined, rfl⟩, ?_⟩
  rw [if_neg hfits, hlast]
  refine bind_ok.mpr ⟨full, s₁, hpassOut, ?_⟩
  refine bind_ok.mpr ⟨_, s₁, Packing.netlist_ok.mpr ⟨rfl, rfl⟩, ?_⟩
  refine bind_ok.mpr ⟨_, s₁, Packing.lookup_ok.mpr ⟨halone, rfl⟩, ?_⟩
  rw [if_pos hstarts]
  exact bind_ok.mpr ⟨segment', s₂, hperform, bind_ok.mpr ⟨later, s', hlater, rfl⟩⟩

theorem interleave_reject_split (hstarts : ¬alone.fits = true) :
    interleave f open₁ segment (id :: rest) s =
      .ok (.completing p full ⟨alone.warnings, [], .error (tooLong s₁.netlist f id)⟩) s₁ := by
  unfold interleave
  refine bind_ok.mpr ⟨_, s, Packing.netlist_ok.mpr ⟨rfl, rfl⟩, ?_⟩
  refine bind_ok.mpr ⟨_, s, Packing.lookup_ok.mpr ⟨hjoined, rfl⟩, ?_⟩
  rw [if_neg hfits, hlast]
  refine bind_ok.mpr ⟨full, s₁, hpassOut, ?_⟩
  refine bind_ok.mpr ⟨_, s₁, Packing.netlist_ok.mpr ⟨rfl, rfl⟩, ?_⟩
  refine bind_ok.mpr ⟨_, s₁, Packing.lookup_ok.mpr ⟨halone, rfl⟩, ?_⟩
  rw [if_neg hstarts]
  rfl

end Runs

/-- The steps that planning decides on, also before it rejects the chain. -/
def decided (nl : Netlist) (f : Fabric) (window : OpenSegment) : List CellId → List Step
  | [] =>
    match finish nl f window with
    | .ok steps => steps
    | .error _ => []
  | id :: rest =>
    match extend nl f window id with
    | .error _ => []
    | .ok joined =>
      if joined.fits then
        joined.steps ++ decided nl f joined.segment rest
      else
        match window.cells.getLast? with
        | none => []
        | some prev =>
          match extend nl f .none id with
          | .error _ => [.passOut prev, .close]
          | .ok alone =>
            if alone.fits then
              .passOut prev :: .close :: alone.steps ++ decided nl f alone.segment rest
            else
              [.passOut prev, .close]

/-- If planning does not reject the chain, its steps are all that it has decided on. -/
theorem decided_of_outcome (h : (scan nl f open₁ rest).outcome = .ok steps) :
    decided nl f open₁ rest = steps := by
  induction rest generalizing open₁ steps with
  | nil =>
    unfold scan at h
    unfold decided
    cases hfinish : finish nl f open₁ with
    | error e =>
      rw [hfinish] at h
      cases h
    | ok ending =>
      rw [hfinish] at h
      exact Except.ok.inj h
  | cons id rest ih =>
    unfold scan at h
    unfold decided
    cases hjoined : extend nl f open₁ id with
    | error e =>
      rw [hjoined] at h
      cases h
    | ok joined =>
      rw [hjoined] at h
      dsimp only at h ⊢
      by_cases hfits : joined.fits
      · rw [if_pos hfits] at h ⊢
        obtain ⟨later, hscan, rfl⟩ := Plan.outcome_after h
        rw [ih hscan]
      · rw [if_neg hfits] at h ⊢
        cases hlast : open₁.cells.getLast? with
        | none =>
          rw [hlast] at h
          cases h
        | some prev =>
          rw [hlast] at h
          dsimp only at h ⊢
          cases halone : extend nl f .none id with
          | error e =>
            rw [halone] at h
            cases h
          | ok alone =>
            rw [halone] at h
            dsimp only at h ⊢
            by_cases hstarts : alone.fits
            · rw [if_pos hstarts] at h ⊢
              obtain ⟨later, hscan, rfl⟩ := Plan.outcome_after h
              rw [ih hscan]
            · rw [if_neg hstarts] at h
              cases h

/-! ## Performing what was decided on -/

theorem exists_extend (hw : nl.WellFormed) (f : Fabric) (window : OpenSegment) (id : CellId) :
    ∃ joined, extend nl f window id = .ok joined := by
  obtain ⟨warnings, hbefore⟩ := boundaryBefore_eq hw f window id
  unfold extend
  simp only [hbefore, Chain.outputUsed_eq hw]
  exact ⟨_, rfl⟩

/-- The steps by which a cell joins a segment, and why there is one for a boundary cell. -/
theorem steps_of_extend {joined : Extension} (h : extend nl f open₁ id = .ok joined) :
    joined.steps = [.member id] ∨
      (nl.wire ⟨id, f.chainIn⟩).isSome ∧ joined.steps = [.feedIn id, .member id] ∨
      ∃ p, open₁.cells.getLast? = some p ∧ joined.steps = [.passThrough p id, .member id] := by
  unfold extend at h
  obtain ⟨⟨before, warnings⟩, hbefore, h⟩ := except_bind_ok.mp h
  obtain ⟨used, -, h⟩ := except_bind_ok.mp h
  obtain rfl := Except.ok.inj h
  unfold boundaryBefore at hbefore
  cases hlast : open₁.cells.getLast? with
  | none =>
    rw [hlast] at hbefore
    obtain ⟨⟨needed, warnings'⟩, hneeded, hbefore⟩ := except_bind_ok.mp hbefore
    obtain ⟨rfl, -⟩ := Prod.mk.inj (Except.ok.inj hbefore)
    cases needed with
    | true => exact Or.inr (Or.inl ⟨wired_of_needsFeedIn hneeded, rfl⟩)
    | false => exact Or.inl rfl
  | some p =>
    rw [hlast] at hbefore
    obtain ⟨forks, -, hbefore⟩ := except_bind_ok.mp hbefore
    obtain ⟨rfl, -⟩ := Prod.mk.inj (Except.ok.inj hbefore)
    cases forks with
    | true => exact Or.inr (Or.inr ⟨p, rfl, rfl⟩)
    | false => exact Or.inl rfl

/-- Performing steps that do not end the segment begins what carrying out a plan with them does. -/
theorem carryOut_of_perform (hclose : .close ∉ steps)
    (h : steps.foldlM (perform f) segment s = .ok segment' s₁) :
    carryOut f segment (steps ++ later) s = carryOut f segment' later s₁ := by
  induction steps generalizing segment s with
  | nil =>
    obtain ⟨rfl, rfl⟩ := pure_ok.mp h
    rfl
  | cons step steps ih =>
    rw [List.mem_cons, not_or] at hclose
    rw [List.foldlM_cons] at h
    obtain ⟨t, s₂, hstep, h⟩ := bind_ok.mp h
    have hlater := ih hclose.2 h
    cases step with
    | feedIn head =>
      obtain ⟨i, s₃, hinsert, hstep⟩ := bind_ok.mp hstep
      obtain ⟨rfl, rfl⟩ := pure_ok.mp hstep
      exact (bind_of_ok hinsert).trans hlater
    | passThrough prev next =>
      obtain ⟨i, s₃, hinsert, hstep⟩ := bind_ok.mp hstep
      obtain ⟨rfl, rfl⟩ := pure_ok.mp hstep
      exact (bind_of_ok hinsert).trans hlater
    | member c =>
      obtain ⟨rfl, rfl⟩ := pure_ok.mp hstep
      exact hlater
    | passOut tail =>
      obtain ⟨i, s₃, hinsert, hstep⟩ := bind_ok.mp hstep
      obtain ⟨rfl, rfl⟩ := pure_ok.mp hstep
      exact (bind_of_ok hinsert).trans hlater
    | close => exact absurd rfl hclose.1

section Runs

variable (hf : f.Declared) (hroles : ∀ role, role ≠ .normal → f.Provides role)
include hf hroles

/-- A cell can join the segment, and the scan goes on after it. -/
theorem Behind.exists_join {joined : Extension}
    (h : Behind f nl₀ s.netlist open₁.cells (id :: rest) moved)
    (hextend : extend s.netlist f open₁ id = .ok joined) (segment : Segment) :
    ∃ segment' s₁ moved', joined.steps.foldlM (perform f) segment s = .ok segment' s₁ ∧
      Behind f nl₀ s₁.netlist joined.segment.cells rest moved' := by
  have hw := h.edited.wellFormed
  have hid := h.cell_id.edited h.edited
  rw [cells_of_extend hextend]
  rcases steps_of_extend hextend with hsteps | ⟨hfed, hsteps⟩ | ⟨p, hp, hsteps⟩
  · exact ⟨segment.addChainCell id, s, _, by rw [hsteps]; rfl, h.next (.refl hw) nofun⟩
  · obtain ⟨i, s₁, hinsert⟩ := returns_insertFeedIn hf (hroles .feedIn nofun) hw hid.linkable hfed
    have he := (insertFeedIn_ok hf hw hid hinsert).edited
    refine ⟨(segment.addBoundary i).addChainCell id, s₁, _, ?_,
      h.next he fun r hr => Or.inl (List.mem_singleton.mp hr)⟩
    rw [hsteps]
    exact bind_ok.mpr ⟨segment.addBoundary i, s₁, bind_ok.mpr ⟨i, s₁, hinsert, rfl⟩, rfl⟩
  · have hcell := (h.cells p (List.mem_append_left _ (List.mem_of_getLast? hp))).edited h.edited
    have htogether : Together f s.netlist p id :=
      (h.together hp).edited h.edited (h.output p hp) (h.ahead id List.mem_cons_self _)
    obtain ⟨k, hk, hk'⟩ := htogether
    obtain ⟨i, s₁, hinsert⟩ := returns_insertPassThrough hf (hroles .passThrough nofun) hw
      hcell.linkable hid.linkable (by simp [hk]) (by simp [hk'])
    have he := (insertPassThrough_ok hf hw hcell hid (hk.trans hk'.symm) hinsert).edited
    refine ⟨(segment.addBoundary i).addChainCell id, s₁, _, ?_, h.next he fun r hr => ?_⟩
    · rw [hsteps]
      exact bind_ok.mpr ⟨segment.addBoundary i, s₁, bind_ok.mpr ⟨i, s₁, hinsert, rfl⟩, rfl⟩
    · rcases List.mem_cons.mp hr with rfl | hr
      · exact Or.inr ⟨p, hp, rfl⟩
      · exact Or.inl (List.mem_singleton.mp hr)

/-- The last cell of the open segment can get a pass-out. -/
theorem Behind.exists_passOut {rest : List CellId}
    (h : Behind f nl₀ s.netlist window rest moved) (hp : window.getLast? = some p)
    (hwired : (s.netlist.wire ⟨p, f.chainOut⟩).isSome) (segment : Segment) :
    ∃ i s₁, perform f segment (.passOut p) s = .ok (segment.addBoundary i) s₁ ∧
      Edited [⟨p, f.chainOut⟩] s.netlist s₁.netlist := by
  have hw := h.edited.wellFormed
  have hcell := (h.cells p (List.mem_append_left _ (List.mem_of_getLast? hp))).edited h.edited
  obtain ⟨i, s₁, hinsert⟩ := returns_insertPassOut hf (hroles .passOut nofun) hw hcell.linkable hwired
  exact ⟨i, s₁, bind_ok.mpr ⟨i, s₁, hinsert, rfl⟩, (insertPassOut_ok hf hw hcell hinsert).edited⟩

end Runs

/-! ## Following the plan -/

/-- A step by which a cell joins a segment does not end the segment. -/
theorem close_notMem_steps {joined : Extension} (h : extend nl f open₁ id = .ok joined) :
    .close ∉ joined.steps := by
  rcases steps_of_extend h with hsteps | ⟨-, hsteps⟩ | ⟨p, -, hsteps⟩ <;> simp [hsteps]

theorem Plan.after_after (p : Plan) (first later : List Step) (warnings warnings' : List Diagnostic) :
    (p.after later warnings').after first warnings =
      p.after (first ++ later) (warnings ++ warnings') := by
  cases houtcome : p.outcome <;> simp [Plan.after, houtcome, Except.map]

/-- What became of a chain in a run of the interleaved algorithm is what its plan says. -/
structure Adheres (f : Fabric) (p : Plan) (decisions : List Step) (segment : Segment)
    (s s' : Session) (result : Interleaved) : Prop where
  warnings : result.warnings = p.warnings
  decisions : result.decisions = decisions
  rejected : ∀ e, p.outcome = .error e → result.outcome = .error e
  carried : ∀ steps, p.outcome = .ok steps →
    ∃ segments, result.outcome = .ok segments ∧ carryOut f segment steps s = .ok segments s'

/-- A chain that is rejected where its plan is. -/
theorem Adheres.fail (f : Fabric) (warnings : List Diagnostic) (e : Failure) (segment : Segment)
    (s s' : Session) : Adheres f (.fail warnings e) [] segment s s' ⟨warnings, [], .error e⟩ where
  warnings := rfl
  decisions := rfl
  rejected _ he := by
    obtain rfl := Except.error.inj he
    rfl
  carried := nofun

/-- A run that begins with the plan's steps and follows the plan afterwards follows it throughout. -/
theorem Adheres.after {p : Plan} {result : Interleaved} {decisions : List Step}
    {warnings : List Diagnostic} (h : Adheres f p decisions segment' s₁ s' result)
    (hsteps : ∀ later, carryOut f segment (steps ++ later) s = carryOut f segment' later s₁) :
    Adheres f (p.after steps warnings) (steps ++ decisions) segment s s'
      (result.after warnings steps) where
  warnings := congrArg (warnings ++ ·) h.warnings
  decisions := congrArg (steps ++ ·) h.decisions
  rejected e he := by
    cases houtcome : p.outcome with
    | ok later =>
      simp [Plan.after, houtcome, Except.map] at he
    | error e' =>
      have hrejected := h.rejected e' houtcome
      simp [Plan.after, houtcome, Except.map] at he
      exact he ▸ hrejected
  carried all hall := by
    obtain ⟨later, hlater, rfl⟩ := Plan.outcome_after hall
    obtain ⟨segments, hresult, hcarry⟩ := h.carried later hlater
    exact ⟨segments, hresult, (hsteps later).trans hcarry⟩

/-- A segment that a pass-out completes comes before those of a run that follows the plan. -/
theorem Adheres.completing {p : Plan} {result : Interleaved} {decisions : List Step} {tail : CellId}
    {full : Segment} (h : Adheres f p decisions .empty s₁ s' result)
    (hfull : perform f segment (.passOut tail) s = .ok full s₁) :
    Adheres f (p.after [.passOut tail, .close] []) (.passOut tail :: .close :: decisions) segment s s'
      (result.completing tail full) where
  warnings := h.warnings
  decisions := by
    rw [← h.decisions]
    rfl
  rejected e he := by
    cases houtcome : p.outcome with
    | ok later => simp [Plan.after, houtcome, Except.map] at he
    | error e' =>
      simp only [Plan.after, houtcome, Except.map, Except.error.injEq] at he
      subst he
      simp [Interleaved.completing, h.rejected e' houtcome, Except.map]
  carried all hall := by
    obtain ⟨later, hlater, rfl⟩ := Plan.outcome_after hall
    obtain ⟨segments, hresult, hcarry⟩ := h.carried later hlater
    refine ⟨full :: segments, ?_, ?_⟩
    · simp [Interleaved.completing, hresult, Except.map]
    · have hbegun : carryOut f segment ([.passOut tail] ++ .close :: later) s = _ :=
        carryOut_of_perform (by simp) (bind_ok.mpr ⟨full, s₁, hfull, rfl⟩)
      exact hbegun.trans (bind_ok.mpr ⟨segments, s', hcarry, rfl⟩)

section Runs

variable (hf : f.Declared) (hroles : ∀ role, role ≠ .normal → f.Provides role)
include hf hroles

/-- The open segment can be completed, with a pass-out if its output is used. -/
theorem Behind.exists_last (h : Behind f nl₀ s.netlist open₁.cells [] moved)
    (hp : open₁.cells.getLast? = some p) (segment : Segment) :
    ∃ steps full s', finish s.netlist f open₁ = .ok (steps ++ [.close]) ∧ .close ∉ steps ∧
      steps.foldlM (perform f) segment s = .ok full s' := by
  have hused : outputUsed s.netlist f p = .ok (used f s.netlist p) :=
    Chain.outputUsed_eq h.edited.wellFormed
  have hfinish : finish s.netlist f open₁ =
      .ok ((if used f s.netlist p then [.passOut p] else []) ++ [.close]) := by
    unfold finish
    rw [hp]
    simp only [hused]
    rfl
  by_cases hneeded : used f s.netlist p = true
  · rw [if_pos hneeded] at hfinish
    rw [hneeded] at hused
    obtain ⟨i, s₁, hperform, -⟩ := h.exists_passOut hf hroles hp (wired_of_outputUsed hused) segment
    exact ⟨_, _, s₁, hfinish, by simp, bind_ok.mpr ⟨_, s₁, hperform, rfl⟩⟩
  · rw [if_neg hneeded] at hfinish
    exact ⟨[], segment, s, hfinish, List.not_mem_nil, rfl⟩

/-- At the end of a chain the open segment is completed. -/
theorem Behind.exists_finish (h : Behind f nl₀ s.netlist open₁.cells [] moved) (segment : Segment) :
    ∃ result s', interleave f open₁ segment [] s = .ok result s' ∧
      Adheres f (scan nl₀ f open₁ []) (decided nl₀ f open₁ []) segment s s' result := by
  have hsame : finish s.netlist f open₁ = finish nl₀ f open₁ := finish_congr fun q hq =>
    h.edited.outputUsed_eq h.before (h.cells q (List.mem_append_left _ (List.mem_of_getLast? hq)))
      (h.output q hq)
  unfold interleave scan decided
  rw [← hsame]
  cases hlast : open₁.cells.getLast? with
  | none =>
    have hfinish : finish s.netlist f open₁ = .ok [] := by
      unfold finish
      rw [hlast]
      rfl
    rw [hfinish]
    refine ⟨⟨[], [], .ok []⟩, s, rfl, rfl, rfl, fun e he => ?_, fun steps hsteps => ?_⟩
    · cases he
    · cases hsteps
      exact ⟨[], rfl, rfl⟩
  | some p =>
    obtain ⟨steps, full, s', hfinish, hclose, hperform⟩ := h.exists_last hf hroles hlast segment
    have hperformed : (steps ++ [Step.close]).foldlM (perform f) segment s = .ok full s' := by
      rw [List.foldlM_append]
      exact bind_ok.mpr ⟨full, s', hperform, rfl⟩
    rw [hfinish]
    refine ⟨⟨[], steps ++ [.close], .ok [full]⟩, s', ?_, rfl, rfl, fun e he => ?_, fun _ hok => ?_⟩
    · refine bind_ok.mpr ⟨_, s, Packing.netlist_ok.mpr ⟨rfl, rfl⟩, ?_⟩
      refine bind_ok.mpr ⟨_, s, Packing.lookup_ok.mpr ⟨hfinish, rfl⟩, ?_⟩
      exact bind_ok.mpr ⟨full, s', hperformed, rfl⟩
    · cases he
    · cases hok
      exact ⟨[full], rfl, carryOut_of_perform hclose hperform⟩

/-- A chain that is scanned and edited together fares as planned on the netlist before the edits. -/
theorem Behind.exists_interleave (hin : f.chainIn ∉ f.compatPorts)
    (h : Behind f nl₀ s.netlist open₁.cells rest moved) (segment : Segment) :
    ∃ result s', interleave f open₁ segment rest s = .ok result s' ∧
      Adheres f (scan nl₀ f open₁ rest) (decided nl₀ f open₁ rest) segment s s' result := by
  -- The invariant holds of the netlist as edited so far, so each question gets its planned answer.
  induction rest generalizing open₁ segment s moved with
  | nil => exact h.exists_finish hf hroles segment
  | cons id rest ih =>
    obtain ⟨joined, hjoined⟩ := exists_extend h.edited.wellFormed f open₁ id
    have hplanned := (h.extend_eq hin rfl).symm.trans hjoined
    unfold scan decided
    rw [hplanned]
    dsimp only
    by_cases hfits : joined.fits
    · obtain ⟨segment', s₁, moved', hperform, hnext⟩ := h.exists_join hf hroles hjoined segment
      obtain ⟨later, s', hlater, hadheres⟩ := ih hnext segment'
      rw [if_pos hfits, if_pos hfits]
      exact ⟨_, s', interleave_join hjoined hfits hperform hlater, hadheres.after fun _ =>
        carryOut_of_perform (close_notMem_steps hjoined) hperform⟩
    rw [if_neg hfits, if_neg hfits]
    cases hlast : open₁.cells.getLast? with
    | none =>
      refine ⟨_, s, interleave_reject hjoined hfits hlast, ?_⟩
      rw [h.edited.tooLong_eq h.cell_id.live]
      exact .fail ..
    | some p =>
      obtain ⟨k, hk, -⟩ := (h.together hlast).edited h.edited (h.output p hlast)
        (h.ahead id List.mem_cons_self _)
      obtain ⟨i, s₁, hpassOut, he⟩ :=
        h.exists_passOut hf hroles hlast (Option.isSome_of_eq_some hk) segment
      have hsplit := h.split he hlast
      obtain ⟨alone, halone⟩ := exists_extend he.wellFormed f .none id
      have hplanned' := (hsplit.extend_eq hin rfl).symm.trans halone
      rw [hplanned']
      dsimp only
      by_cases hstarts : alone.fits
      · obtain ⟨segment', s₂, moved', hperform, hnext⟩ := hsplit.exists_join hf hroles halone .empty
        obtain ⟨later, s', hlater, hadheres⟩ := ih hnext segment'
        have hstarted : Adheres f (Plan.after alone.steps alone.warnings _) _ .empty s₁ s' _ :=
          hadheres.after fun _ => carryOut_of_perform (close_notMem_steps halone) hperform
        have hboth := hstarted.completing hpassOut
        rw [Plan.after_after] at hboth
        rw [if_pos hstarts, if_pos hstarts]
        exact ⟨_, s',
          interleave_split hjoined hfits hlast hpassOut halone hstarts hperform hlater, hboth⟩
      · rw [if_neg hstarts, if_neg hstarts]
        refine ⟨_, s₁,
          interleave_reject_split hjoined hfits hlast hpassOut halone hstarts, ?_⟩
        rw [hsplit.edited.tooLong_eq h.cell_id.live]
        exact (Adheres.fail f alone.warnings _ .empty s₁ s₁).completing hpassOut

end Runs

/-! ## Planning first -/

/-- Preparation writes to the log only. -/
theorem prepare_logs (h : prepare f chain s = .ok steps s') : s' = { s with log := s'.log } := by
  let I (t : Session) : Prop := t.names = s.names ∧ t.netlist = s.netlist
  have hcheck : ∀ {α : Type} (x : Except Failure α), Invariant I (liftM x : Packing α) := by
    intro α x
    cases x <;> exact fun _ ht => ht
  have hlogs : Invariant I (prepare f chain) := by
    refine Invariant.bind (fun _ ht => ht) fun nl => Invariant.bind (hcheck _) fun _ => ?_
    refine Invariant.bind (.forM (fun d t ht => ht) _) fun _ => ?_
    refine Invariant.bind (hcheck _) fun steps => ?_
    exact Invariant.bind (.forM (fun step => hcheck _) steps) fun _ => .pure _
  have hend := hlogs s ⟨rfl, rfl⟩
  rw [h] at hend
  obtain ⟨hnames, hnetlist⟩ : s'.names = s.names ∧ s'.netlist = s.netlist := hend
  calc s' = ⟨s'.names, s'.netlist, s'.log⟩ := rfl
    _ = { s with log := s'.log } := by rw [hnames, hnetlist]

/-- Legalization carries out what it has prepared, and otherwise writes to the log only. -/
theorem exists_legalize {segments : List Segment} {s₂ : Session}
    (hprepare : prepare f chain s = .ok steps s₁)
    (hcarry : carryOut f .empty steps s = .ok segments s₂)
    (hlive : ∀ head, chain.head? = some head → (s₂.netlist.bare head).isSome) :
    ∃ s', legalize f chain s = .ok segments s' ∧ s'.netlist = s₂.netlist ∧ s'.names = s₂.names := by
  have hcarry₁ := (silent_carryOut f steps .empty s segments s₂ hcarry).2 s₁.log
  rw [← prepare_logs hprepare] at hcarry₁
  unfold legalize
  cases hhead : chain.head? with
  | none =>
    exact ⟨_, bind_ok.mpr ⟨steps, s₁, hprepare, bind_ok.mpr ⟨segments, _, hcarry₁, rfl⟩⟩, rfl, rfl⟩
  | some head =>
    obtain ⟨c, s₃, hcell⟩ := Packing.returns_edit (s := { s₂ with log := s₁.log })
      (Edit.returns_cell s₂.names (hlive head hhead))
    obtain ⟨nl, hread, rfl⟩ := Packing.edit_ok.mp hcell
    obtain ⟨-, rfl⟩ := Edit.cell_ok hread
    let note := legalizedNote c.name chain.length segments.length steps
    have hnoted : (do Packing.emit note; return segments : Packing (List Segment))
        { s₂ with log := s₁.log } = .ok segments { s₂ with log := s₁.log.emit note } := rfl
    exact ⟨_, bind_ok.mpr ⟨steps, s₁, hprepare, bind_ok.mpr ⟨segments, _, hcarry₁,
      bind_ok.mpr ⟨c, _, hcell, hnoted⟩⟩⟩, rfl, rfl⟩

/-- Scanning and editing a chain together leads to the decisions and the warnings of its plan.  The
chain is rejected for the same reason as by legalization, or the segments and the netlist are the
same in the end. -/
theorem interleaving_follows_plan {config : Config} {names names' : Names}
    (hvalid : config.validate = .ok ()) (hf : Fabric.ofConfig config names = (.ok f, names'))
    (hfeed : config.boundary.feedIn.isSome) (hthrough : config.boundary.passThrough.isSome)
    (hout : config.boundary.passOut.isSome) (hin : f.chainIn ∉ f.compatPorts)
    (hw : s.netlist.WellFormed) (hchain : Intact f s.netlist chain) :
    ∃ result s', interleave f .none .empty chain s = .ok result s' ∧
      result.warnings = (plan s.netlist f chain).warnings ∧
      result.decisions = decided s.netlist f .none chain ∧
      ((∃ e s'', result.outcome = .error e ∧ legalize f chain s = .error e s'') ∨
        ∃ segments s'', result.outcome = .ok segments ∧
          (plan s.netlist f chain).outcome = .ok result.decisions ∧
          legalize f chain s = .ok segments s'' ∧
          s''.netlist = s'.netlist ∧ s''.names = s'.names) := by
  have hdeclared := Fabric.declared_of_config hf
  have hprovides := Fabric.provides_of_config hvalid hf hfeed hthrough hout
  have hstart : Behind f s.netlist s.netlist OpenSegment.none.cells chain [] := .start hw hchain
  obtain ⟨result, s', hrun, hadheres⟩ :=
    hstart.exists_interleave hdeclared hprovides hin .empty
  refine ⟨result, s', hrun, hadheres.warnings, hadheres.decisions, ?_⟩
  cases houtcome : (plan s.netlist f chain).outcome with
  | error e =>
    obtain ⟨s'', hreject⟩ := legalize_error_of_outcome hchain.linked houtcome
    exact Or.inl ⟨e, s'', hadheres.rejected e houtcome, hreject⟩
  | ok steps =>
    obtain ⟨segments, hresult, hcarry⟩ := hadheres.carried steps houtcome
    have hdecisions : result.decisions = steps :=
      hadheres.decisions.trans (decided_of_outcome houtcome)
    obtain ⟨s₁, hprepare⟩ := exists_prepare hchain.linked houtcome fun step _ role hrole =>
      hprovides role (Step.role_ne_normal hrole)
    obtain ⟨-, hlayout⟩ := prepare_ok hw (fun c hc => (hchain.cells c hc).linkable) hprepare
    obtain ⟨moved, ids, hcarried⟩ := carryOut_ok hdeclared steps hw hlayout
      (.all hchain.cells hchain.nodup) hcarry
    obtain ⟨s'', hlegalize, hsame⟩ := exists_legalize hprepare hcarry fun head hhead =>
      hcarried.edited.bare_isSome (hchain.cells head (List.mem_of_head? hhead)).live
    exact Or.inr ⟨segments, s'', hresult, congrArg Except.ok hdecisions.symm, hlegalize, hsame⟩

namespace Adder

/-- The cut between the two carry cells is decided on when the first one has its feed-in already, and
the feed-in of the second when the net between them has got a new driver. -/
theorem shared_interleaved : ∃ result s' s'',
    interleave narrow .none .empty [⟨1⟩, ⟨2⟩] shared = .ok result s' ∧
    result.decisions = [.feedIn ⟨1⟩, .member ⟨1⟩, .passOut ⟨1⟩, .close,
      .feedIn ⟨2⟩, .member ⟨2⟩, .passOut ⟨2⟩, .close] ∧
    result.outcome = .ok [⟨[⟨5⟩, ⟨1⟩, ⟨6⟩], 1⟩, ⟨[⟨7⟩, ⟨2⟩, ⟨8⟩], 1⟩] ∧
    legalize narrow [⟨1⟩, ⟨2⟩] shared =
      .ok [⟨[⟨5⟩, ⟨1⟩, ⟨6⟩], 1⟩, ⟨[⟨7⟩, ⟨2⟩, ⟨8⟩], 1⟩] s'' ∧
    s''.netlist = s'.netlist := by
  have hpackable : Packable narrow shared.netlist :=
    .of_entries (Session.wellFormed_after_of_wellFormed packable.wellFormed _) (by decide +kernel)
  have hchain : [⟨1⟩, ⟨2⟩] ∈ find shared.netlist narrow.isChainCell
      (carryNavigation shared.netlist narrow.chainIn narrow.chainOut narrow.isChainCell) 1 := by
    decide +kernel
  obtain ⟨t, h⟩ : ∃ t, legalize narrow [⟨1⟩, ⟨2⟩] shared =
      .ok [⟨[⟨5⟩, ⟨1⟩, ⟨6⟩], 1⟩, ⟨[⟨7⟩, ⟨2⟩, ⟨8⟩], 1⟩] t := exists_ok_of_returned (by decide +kernel)
  obtain ⟨result, s', hrun, -, hdecisions, ⟨e, s'', -, hreject⟩ | ⟨segments, s'', hok, -, hlegalize,
    hsame, -⟩⟩ := interleaving_follows_plan rfl ofConfig_narrowConfig rfl rfl rfl (by decide)
      hpackable.wellFormed (hpackable.directed.intact (fun _ hc => hc) hchain)
  · rw [h] at hreject
    cases hreject
  · have hdecided : decided shared.netlist narrow .none [⟨1⟩, ⟨2⟩] =
        [.feedIn ⟨1⟩, .member ⟨1⟩, .passOut ⟨1⟩, .close,
          .feedIn ⟨2⟩, .member ⟨2⟩, .passOut ⟨2⟩, .close] := by decide +kernel
    have hboth := h.symm.trans hlegalize
    cases hboth
    exact ⟨result, s', t, hrun, hdecisions.trans hdecided, hok, h, hsame⟩

end Adder

end Chain
end FpgaPacking
