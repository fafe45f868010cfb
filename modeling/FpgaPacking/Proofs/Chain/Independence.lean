import FpgaPacking.Proofs.Chain.RoundTrip
import FpgaPacking.Proofs.Chain.Shapes

/-!
# Chains are legalized independently

Legalizing a chain moves ports of its own cells only.  So every other chain that
was discovered with it stays linked and keeps its plan, whatever nets the two
share.  What becomes of a chain, the shapes of its segments or the reason why it
is rejected, can be read off the netlist before any of them is legalized, and the
order in which they are does not matter.
-/

namespace FpgaPacking
namespace Chain

variable {f : Fabric} {nl nl' : Netlist} {s s' : Session} {chain : List CellId} {steps : List Step}
  {segments : List Segment} {moved : List PortRef}

/-- What becomes of a chain according to its plan: the shapes of its segments, or why it is rejected. -/
def verdict (f : Fabric) (nl : Netlist) (chain : List CellId) : Except Failure (List Shape) := do
  let steps ← (plan nl f chain).outcome
  steps.forM (checkTemplate f)
  return shapes .empty steps

/-- A step that returns its failure instead of failing. -/
def attempt {α : Type} (x : Packing α) : Packing (Except Failure α) := fun s =>
  match x s with
  | .ok a s' => .ok (.ok a) s'
  | .error e s' => .ok (.error e) s'

/-! ## One chain -/

/-- A list of checks fails as soon as one of them does, and changes nothing. -/
theorem forM_check {α : Type} (x : α → Except Failure PUnit) (l : List α) (s : Session) :
    (l.forM fun a => (liftM (x a) : Packing PUnit)) s =
      match (l.forM x : Except Failure PUnit) with
      | .ok _ => .ok ⟨⟩ s
      | .error e => .error e s := by
  induction l with
  | nil => rfl
  | cons a l ih =>
    unfold List.forM
    cases hx : x a with
    | ok u => exact ih
    | error e => rfl

/-- Preparation fails where the verdict does. -/
theorem prepare_error {e : Failure} (hchain : chain.IsChain (Together f s.netlist))
    (h : verdict f s.netlist chain = .error e) :
    ∃ s', prepare f chain s = .error e s' ∧ s'.netlist = s.netlist := by
  obtain ⟨s₁, hwarnings⟩ := exists_forM_ok (l := (plan s.netlist f chain).warnings)
    (fun d _ t => ⟨_, Packing.emit_ok.mpr rfl⟩) s
  have hlinks : (liftM (checkLinks s.netlist f chain) : Packing Unit) s = .ok () s :=
    Packing.check_ok.mpr ⟨checkLinks_of_isChain hchain, rfl⟩
  have hrun : prepare f chain s = .error e s₁ := by
    refine bind_error.mpr (Or.inr ⟨_, s, Packing.netlist_ok.mpr ⟨rfl, rfl⟩, ?_⟩)
    refine bind_error.mpr (Or.inr ⟨_, s, hlinks, bind_error.mpr (Or.inr ⟨_, s₁, hwarnings, ?_⟩)⟩)
    unfold verdict at h
    cases houtcome : (plan s.netlist f chain).outcome with
    | error e' =>
      rw [houtcome] at h
      obtain rfl : e' = e := Except.error.inj h
      rfl
    | ok steps =>
      rw [houtcome] at h
      refine bind_error.mpr (Or.inr ⟨steps, s₁, rfl, bind_error.mpr (Or.inl ?_)⟩)
      rw [forM_check]
      cases hchecked : (steps.forM (checkTemplate f) : Except Failure PUnit) with
      | ok u =>
        have hok : (steps.forM (checkTemplate f) >>= fun _ => pure (shapes .empty steps) :
          Except Failure (List Shape)) = .error e := h
        rw [hchecked] at hok
        cases hok
      | error e' =>
        have herror : (steps.forM (checkTemplate f) >>= fun _ => pure (shapes .empty steps) :
          Except Failure (List Shape)) = .error e := h
        rw [hchecked] at herror
        obtain rfl : e' = e := Except.error.inj herror
        rfl
  refine ⟨s₁, hrun, ?_⟩
  have hkept := keeps_prepare (I := fun nl => nl = s.netlist) f chain s rfl
  rw [hrun] at hkept
  exact hkept

/-- Steps that pass their checks are served by a fabric whose boundary cells can serve their roles. -/
theorem serves_of_checked (hf : f.Serviceable)
    (h : (steps.forM (checkTemplate f) : Except Failure PUnit) = .ok ⟨⟩) : Serves f steps := by
  induction steps with
  | nil => exact nofun
  | cons step steps ih =>
    obtain ⟨u, hstep, hrest⟩ := except_bind_ok.mp h
    refine List.forall_mem_cons.mpr ⟨fun role hrole => ?_, ih hrest⟩
    unfold checkTemplate at hstep
    rw [hrole] at hstep
    obtain ⟨t, ht, -⟩ := except_bind_ok.mp hstep
    exact ⟨t, boundaryTemplate_ok.mp ht, hf.complete role t (boundaryTemplate_ok.mp ht)⟩

/-- An attempt to legalize a chain follows the verdict, and moves ports of the chain only. -/
structure Attempted (f : Fabric) (nl nl' : Netlist) (chain : List CellId)
    (result : Except Failure (List Segment)) (moved : List PortRef) : Prop where
  edited : Edited moved nl nl'
  own : ∀ r ∈ moved, r.cell ∈ chain
  live : ∀ made, result = .ok made → ∀ t ∈ made, ∀ id ∈ t.members, (nl'.bare id).isSome
  shapes : result.map (·.map (Segment.shape nl')) = verdict f nl chain

theorem attempt_legalize (hf : f.Serviceable) (hw : s.netlist.WellFormed)
    (hchain : Intact f s.netlist chain) :
    ∃ result s' moved, attempt (legalize f chain) s = .ok result s' ∧
      Attempted f s.netlist s'.netlist chain result moved := by
  unfold attempt
  cases hverdict : verdict f s.netlist chain with
  | error e =>
    obtain ⟨s', hprepare, hsame⟩ := prepare_error hchain.linked hverdict
    have hrun : legalize f chain s = .error e s' := bind_error.mpr (Or.inl hprepare)
    rw [hrun]
    refine ⟨.error e, s', [], rfl, ?_⟩
    rw [hsame]
    exact ⟨.refl hw, nofun, nofun, hverdict.symm⟩
  | ok made =>
    have hplan := hverdict
    unfold verdict at hplan
    obtain ⟨steps, houtcome, hplan⟩ := except_bind_ok.mp hplan
    obtain ⟨u, hchecked, hplan⟩ := except_bind_ok.mp hplan
    obtain ⟨segments, s', hrun⟩ := returns_legalize_of_plan hf.declared hw
      (fun c hc => (hchain.cells c hc).linkable) hchain.linked houtcome (serves_of_checked hf hchecked)
    rw [hrun]
    obtain ⟨moved, ids, hcarried⟩ := legalize_ok hf.declared hw hchain.cells hchain.nodup hrun
    obtain ⟨steps', houtcome', hshapes⟩ := shapes_of_legalize hf.declared hw hchain hrun
    obtain rfl : steps = steps' := Except.ok.inj (houtcome.symm.trans houtcome')
    refine ⟨.ok segments, s', moved, rfl, ⟨hcarried.edited, fun r hr => ?_, ?_, ?_⟩⟩
    · exact (hcarried.movable r hr).cell.resolve_right nofun
    · rintro _ ⟨⟩ t ht
      exact (hcarried.completed rfl t ht).live
    · rw [hverdict]
      exact congrArg Except.ok (hshapes.trans (Except.ok.inj hplan))

/-! ## Another chain -/

/-- A chain of which no port is moved has the same verdict afterwards. -/
theorem Edited.verdict_eq (he : Edited moved nl nl') (hw : nl.WellFormed)
    (hchain : Intact f nl chain) (haway : ∀ c ∈ chain, ∀ port, (⟨c, port⟩ : PortRef) ∉ moved) :
    verdict f nl' chain = verdict f nl chain := by
  unfold verdict
  rw [he.plan_eq hw hchain.cells haway]

/-- Legalization of a chain leaves every disjoint chain intact, with the plan that it had. -/
theorem legalize_keeps_plan (hf : f.Declared) (hw : s.netlist.WellFormed)
    (hchain : Intact f s.netlist chain) {other : List CellId} (hother : Intact f s.netlist other)
    (hdisjoint : chain.Disjoint other) (h : legalize f chain s = .ok segments s') :
    Intact f s'.netlist other ∧ plan s'.netlist f other = plan s.netlist f other := by
  obtain ⟨moved, ids, hcarried⟩ := legalize_ok hf hw hchain.cells hchain.nodup h
  have haway : ∀ c ∈ other, ∀ port, (⟨c, port⟩ : PortRef) ∉ moved := fun c hc port hm =>
    hdisjoint ((hcarried.movable _ hm).cell.resolve_right nofun) hc
  exact ⟨hother.edited hcarried.edited haway, hcarried.edited.plan_eq hw hother.cells haway⟩

/-! ## All chains -/

/-- Attempts to legalize disjoint chains one after the other follow the verdicts before the first. -/
theorem attempt_all (hf : f.Serviceable) (hw : s.netlist.WellFormed) {order : List (List CellId)}
    (horder : ∀ chain ∈ order, Intact f s.netlist chain) (hdisjoint : order.Pairwise List.Disjoint) :
    ∃ results s' moved, (order.mapM fun chain => attempt (legalize f chain)) s = .ok results s' ∧
      Edited moved s.netlist s'.netlist ∧ (∀ r ∈ moved, ∃ chain ∈ order, r.cell ∈ chain) ∧
      results.map (·.map (·.map (Segment.shape s'.netlist))) = order.map (verdict f s.netlist) := by
  induction order generalizing s with
  | nil => exact ⟨[], s, [], rfl, .refl hw, nofun, rfl⟩
  | cons chain order ih =>
    obtain ⟨hchain, horder⟩ := List.forall_mem_cons.mp horder
    obtain ⟨hfirst, hdisjoint⟩ := List.pairwise_cons.mp hdisjoint
    obtain ⟨result, s₁, moved, hrun, hattempted⟩ := attempt_legalize hf hw hchain
    have he := hattempted.edited
    have haway : ∀ other ∈ order, ∀ c ∈ other, ∀ port, (⟨c, port⟩ : PortRef) ∉ moved :=
      fun other hother c hc port hm => hfirst other hother (hattempted.own _ hm) hc
    obtain ⟨results, s', moved', hruns, he', hown, hshapes⟩ := ih he.wellFormed
      (fun other hother => (horder other hother).edited he (haway other hother)) hdisjoint
    have hlive : ∀ r ∈ moved', (s.netlist.bare r.cell).isSome := by
      intro r hr
      obtain ⟨other, hother, hmem⟩ := hown r hr
      exact ((horder other hother).cells _ hmem).live
    refine ⟨result :: results, s', moved ++ moved', ?_, he.trans he' hlive, fun r hr => ?_, ?_⟩
    · rw [List.mapM_cons]
      exact bind_ok.mpr ⟨result, s₁, hrun, bind_ok.mpr ⟨results, s', hruns, rfl⟩⟩
    · rcases List.mem_append.mp hr with hr | hr
      · exact ⟨chain, List.mem_cons_self, hattempted.own r hr⟩
      · obtain ⟨other, hother, hmem⟩ := hown r hr
        exact ⟨other, List.mem_cons_of_mem chain hother, hmem⟩
    · rw [List.map_cons, List.map_cons, hshapes, ← hattempted.shapes]
      congr 1
      · -- The later edits leave the segments of the first chain in their shapes.
        cases hresult : result with
        | error e => rfl
        | ok made =>
          refine congrArg Except.ok (List.map_congr_left fun t ht => ?_)
          exact he'.shape_eq (hattempted.live made hresult t ht)
      · exact List.map_congr_left fun other hother =>
          he.verdict_eq hw (horder other hother) (haway other hother)

/-- Legalizing one discovered chain leaves the links and the plan of every other as they were.  In
whatever order the chains are legalized, each is cut into segments of the same shapes, or rejected
for the same reason. -/
theorem legalization_independent {config : Config} {names names' : Names}
    (hvalid : config.validate = .ok ()) (hf : Fabric.ofConfig config names = (.ok f, names'))
    (hs : Directed f s.netlist) {p : Cell → Bool} (hp : ∀ c, p c = true → f.isChainCell c = true)
    {minLength : Nat} {chains : List (List CellId)}
    (hchains : chains = find s.netlist p (carryNavigation s.netlist f.chainIn f.chainOut p) minLength) :
    (∀ a ∈ chains, ∀ b ∈ chains, a ≠ b → ∀ segments s', legalize f a s = .ok segments s' →
      plan s'.netlist f b = plan s.netlist f b ∧
        checkLinks s.netlist f b = .ok () ∧ checkLinks s'.netlist f b = .ok ()) ∧
    ∀ order : List (List CellId), order.Perm chains → ∃ results s',
      (order.mapM fun chain => attempt (legalize f chain)) s = .ok results s' ∧
      results.map (·.map (·.map (Segment.shape s'.netlist))) = order.map (verdict f s.netlist) := by
  subst hchains
  have hserviceable := Fabric.serviceable_of_config hvalid hf
  have hintact : ∀ chain ∈ find s.netlist p (carryNavigation s.netlist f.chainIn f.chainOut p)
      minLength, Intact f s.netlist chain := fun chain hchain => hs.intact hp hchain
  have hdisjoint := (@find_spec s.netlist f.chainIn f.chainOut p minLength).2
  have : Std.Symm (List.Disjoint (α := CellId)) := ⟨fun _ _ => List.Disjoint.symm⟩
  refine ⟨fun a ha b hb hne segments s' h => ?_, fun order horder => ?_⟩
  · obtain ⟨hlater, hplan⟩ := legalize_keeps_plan hserviceable.declared hs.wellFormed (hintact a ha)
      (hintact b hb) (hdisjoint.forall ha hb hne) h
    exact ⟨hplan, checkLinks_of_isChain (hintact b hb).linked, checkLinks_of_isChain hlater.linked⟩
  · obtain ⟨results, s', moved, hrun, -, -, hshapes⟩ := attempt_all hserviceable hs.wellFormed
      (fun chain hchain => hintact chain (horder.mem_iff.mp hchain))
      ((horder.pairwise_iff List.Disjoint.symm).mpr hdisjoint)
    exact ⟨results, s', hrun, hshapes⟩

namespace Adder

/-- With tiles for one cell, the third carry cell is packed by itself, before the other two or after
them, although it reads the net at which these are cut apart. -/
theorem shared_independent : ∃ segments s',
    legalize narrow [⟨1⟩, ⟨2⟩] shared = .ok segments s' ∧
    plan s'.netlist narrow [⟨4⟩] = plan shared.netlist narrow [⟨4⟩] ∧
    ∃ results s'', ([[⟨4⟩], [⟨1⟩, ⟨2⟩]].mapM fun chain => attempt (legalize narrow chain)) shared =
        .ok results s'' ∧
      results.map (·.map (·.map (Segment.shape s''.netlist))) =
        [.ok [⟨[.boundary .feedIn, .cell ⟨4⟩], 1⟩],
          .ok [⟨[.boundary .feedIn, .cell ⟨1⟩, .boundary .passOut], 1⟩,
            ⟨[.boundary .feedIn, .cell ⟨2⟩, .boundary .passOut], 1⟩]] := by
  have hpackable : Packable narrow shared.netlist :=
    .of_entries (Session.wellFormed_after_of_wellFormed packable.wellFormed _) (by decide +kernel)
  have hchains : [[⟨1⟩, ⟨2⟩], [⟨4⟩]] = find shared.netlist narrow.isChainCell
      (carryNavigation shared.netlist narrow.chainIn narrow.chainOut narrow.isChainCell) 1 := by
    decide +kernel
  obtain ⟨s', h⟩ : ∃ s', legalize narrow [⟨1⟩, ⟨2⟩] shared =
      .ok [⟨[⟨5⟩, ⟨1⟩, ⟨6⟩], 1⟩, ⟨[⟨7⟩, ⟨2⟩, ⟨8⟩], 1⟩] s' := exists_ok_of_returned (by decide +kernel)
  obtain ⟨hkept, hordered⟩ := legalization_independent rfl ofConfig_narrowConfig hpackable.directed
    (fun _ hc => hc) hchains
  obtain ⟨results, s'', hrun, hshapes⟩ := hordered [[⟨4⟩], [⟨1⟩, ⟨2⟩]] (.swap _ _ _)
  refine ⟨_, s', h, (hkept _ (by decide) _ (by decide) (by decide) _ s' h).1, results, s'', hrun, ?_⟩
  have hfirst : verdict narrow shared.netlist [⟨4⟩] =
      .ok [⟨[.boundary .feedIn, .cell ⟨4⟩], 1⟩] := eq_ok_of_toOption (by decide +kernel)
  have hsecond : verdict narrow shared.netlist [⟨1⟩, ⟨2⟩] =
      .ok [⟨[.boundary .feedIn, .cell ⟨1⟩, .boundary .passOut], 1⟩,
        ⟨[.boundary .feedIn, .cell ⟨2⟩, .boundary .passOut], 1⟩] :=
    eq_ok_of_toOption (by decide +kernel)
  rw [hshapes, List.map_cons, List.map_singleton, hfirst, hsecond]

end Adder

end Chain
end FpgaPacking
