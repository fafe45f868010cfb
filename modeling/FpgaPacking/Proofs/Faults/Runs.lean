import FpgaPacking.Proofs.Failures
import FpgaPacking.Proofs.Netlist.Regular

/-!
# Runs without faults

A run that is `Faultless` reports what it fails with, if it fails at all.  Whether
it does depends on the state it starts from, since plain lookups fault where an
object is missing.  So the rules for steps that follow each other say of the later
ones only what is needed where the earlier ones end, and the rules for loops carry
an invariant of what is left to be gone through.  Checked lookups never fault, and
neither do the operations that rely on them.
-/

namespace FpgaPacking

variable {σ α β : Type}

/-- The failure is an error that is reported, not a fault. -/
def Failure.Reported (e : Failure) : Prop := ∀ fault, e ≠ .fault fault

theorem Failure.reported_rejected (error : PackError) : (Failure.rejected error).Reported := nofun

theorem Failure.reported_violation (v : Violation) : (Failure.violation v).Reported := nofun

/-- The run from `s` does not end in a fault. -/
def Faultless (x : EStateM Failure σ α) (s : σ) : Prop := ∀ e s', x s = .error e s' → e.Reported

namespace Faultless

variable {s s' : σ}

theorem of_ok {x : EStateM Failure σ α} {a : α} (h : x s = .ok a s') : Faultless x s := by
  intro e s'' he
  rw [h] at he
  cases he

theorem of_error {x : EStateM Failure σ α} {e : Failure} (h : x s = .error e s')
    (he : e.Reported) : Faultless x s := by
  intro e' s'' hrun
  rw [h] at hrun
  cases hrun
  exact he

theorem pure (a : α) (s : σ) : Faultless (Pure.pure a : EStateM Failure σ α) s := of_ok rfl

theorem throw {e : Failure} (he : e.Reported) (s : σ) :
    Faultless (MonadExcept.throw e : EStateM Failure σ α) s :=
  of_error rfl he

theorem bind {x : EStateM Failure σ α} {f : α → EStateM Failure σ β} (hx : Faultless x s)
    (hf : ∀ a s', x s = .ok a s' → Faultless (f a) s') : Faultless (x >>= f) s := by
  intro e s'' h
  rcases bind_error.mp h with h | ⟨a, s', ha, h⟩
  · exact hx e s'' h
  · exact hf a s' ha e s'' h

theorem bind_of_ok {x : EStateM Failure σ α} {f : α → EStateM Failure σ β} {a : α}
    (hx : x s = .ok a s') (hf : Faultless (f a) s') : Faultless (x >>= f) s := by
  unfold Faultless
  rw [FpgaPacking.bind_of_ok hx]
  exact hf

/-! The list in `P` is what is left to be gone through. -/

theorem foldlM (P : List α → σ → Prop) {f : β → α → EStateM Failure σ β}
    (hf : ∀ a l b s, P (a :: l) s → Faultless (f b a) s)
    (step : ∀ a l b s b' s', P (a :: l) s → f b a s = .ok b' s' → P l s') :
    ∀ {l : List α} (b : β) {s : σ}, P l s → Faultless (l.foldlM f b) s
  | [], b, s, _ => pure b s
  | a :: l, b, s, hP => by
    rw [List.foldlM_cons]
    exact bind (hf a l b s hP) fun b' s' hhead => foldlM P hf step b' (step a l b s b' s' hP hhead)

theorem forM (P : List α → σ → Prop) {f : α → EStateM Failure σ PUnit}
    (hf : ∀ a l s, P (a :: l) s → Faultless (f a) s)
    (step : ∀ a l s u s', P (a :: l) s → f a s = .ok u s' → P l s') :
    ∀ {l : List α} {s : σ}, P l s → Faultless (l.forM f) s
  | [], s, _ => pure PUnit.unit s
  | a :: l, s, hP =>
    bind (hf a l s hP) fun u s' hhead => forM P hf step (step a l s u s' hP hhead)

theorem forM_of_all {f : α → EStateM Failure σ PUnit} (hf : ∀ a s, Faultless (f a) s) (l : List α)
    (s : σ) : Faultless (l.forM f) s :=
  forM (fun _ _ => True) (fun a _ s _ => hf a s) (fun _ _ _ _ _ _ _ => trivial) trivial

theorem mapM (P : List α → σ → Prop) {f : α → EStateM Failure σ β}
    (hf : ∀ a l s, P (a :: l) s → Faultless (f a) s)
    (step : ∀ a l s b s', P (a :: l) s → f a s = .ok b s' → P l s') {l : List α} {s : σ}
    (hP : P l s) : Faultless (l.mapM f) s := by
  induction l generalizing s with
  | nil => exact of_ok (a := []) rfl
  | cons a l ih =>
    rw [List.mapM_cons]
    refine bind (hf a l s hP) fun b s' hhead => ?_
    exact bind (ih (step a l s b s' hP hhead)) fun bs s'' _ => pure (b :: bs) s''

/-! Often all steps keep what each of them needs, of the state and of the element it is about. -/

section Kept

variable {I : σ → Prop} {Q : α → σ → Prop}

theorem foldlM_kept {f : β → α → EStateM Failure σ β}
    (hf : ∀ b a s, I s → Q a s → Faultless (f b a) s) (hI : ∀ b a, Invariant I (f b a))
    (hQ : ∀ other b a, Invariant (Q other) (f b a)) {l : List α} (b : β) {s : σ} (hs : I s)
    (hl : ∀ a ∈ l, Q a s) : Faultless (l.foldlM f b) s := by
  refine foldlM (fun l s => I s ∧ ∀ a ∈ l, Q a s) (fun a l b s h => ?_)
    (fun a l b s b' s' h hrun => ⟨?_, fun other hother => ?_⟩) b ⟨hs, hl⟩
  · exact hf b a s h.1 (h.2 a List.mem_cons_self)
  · exact (hI b a).of_ok hrun h.1
  · exact (hQ other b a).of_ok hrun (h.2 other (List.mem_cons_of_mem a hother))

theorem forM_kept {f : α → EStateM Failure σ PUnit} (hf : ∀ a s, I s → Q a s → Faultless (f a) s)
    (hI : ∀ a, Invariant I (f a)) (hQ : ∀ other a, Invariant (Q other) (f a)) {l : List α} {s : σ}
    (hs : I s) (hl : ∀ a ∈ l, Q a s) : Faultless (l.forM f) s := by
  refine forM (fun l s => I s ∧ ∀ a ∈ l, Q a s) (fun a l s h => ?_)
    (fun a l s u s' h hrun => ⟨?_, fun other hother => ?_⟩) ⟨hs, hl⟩
  · exact hf a s h.1 (h.2 a List.mem_cons_self)
  · exact (hI a).of_ok hrun h.1
  · exact (hQ other a).of_ok hrun (h.2 other (List.mem_cons_of_mem a hother))

theorem mapM_kept {f : α → EStateM Failure σ β} (hf : ∀ a s, I s → Q a s → Faultless (f a) s)
    (hI : ∀ a, Invariant I (f a)) (hQ : ∀ other a, Invariant (Q other) (f a)) {l : List α} {s : σ}
    (hs : I s) (hl : ∀ a ∈ l, Q a s) : Faultless (l.mapM f) s := by
  refine mapM (fun l s => I s ∧ ∀ a ∈ l, Q a s) (fun a l s h => ?_)
    (fun a l s b s' h hrun => ⟨?_, fun other hother => ?_⟩) ⟨hs, hl⟩
  · exact hf a s h.1 (h.2 a List.mem_cons_self)
  · exact (hI a).of_ok hrun h.1
  · exact (hQ other a).of_ok hrun (h.2 other (List.mem_cons_of_mem a hother))

end Kept

end Faultless

/-! What follows a step may need to know what the step has led to. -/

/-- The run from `s` does not end in a fault, and where it ends regularly, `Q` holds. -/
def EndsIn (Q : α → σ → Prop) (x : EStateM Failure σ α) (s : σ) : Prop :=
  Faultless x s ∧ ∀ a s', x s = .ok a s' → Q a s'

namespace EndsIn

variable {s : σ} {Q : α → σ → Prop} {R : β → σ → Prop}

theorem pure {a : α} (h : Q a s) : EndsIn Q (Pure.pure a : EStateM Failure σ α) s := by
  refine ⟨.pure a s, ?_⟩
  rintro _ _ ⟨⟩
  exact h

theorem bind {x : EStateM Failure σ α} {f : α → EStateM Failure σ β} (hx : EndsIn Q x s)
    (hf : ∀ a s', Q a s' → EndsIn R (f a) s') : EndsIn R (x >>= f) s := by
  refine ⟨hx.1.bind fun a s' ha => (hf a s' (hx.2 a s' ha)).1, fun b s'' hrun => ?_⟩
  obtain ⟨a, s', ha, hb⟩ := bind_ok.mp hrun
  exact (hf a s' (hx.2 a s' ha)).2 b s'' hb

theorem mono {R : α → σ → Prop} {x : EStateM Failure σ α} (hx : EndsIn Q x s)
    (h : ∀ a s', Q a s' → R a s') : EndsIn R x s :=
  ⟨hx.1, fun a s' hrun => h a s' (hx.2 a s' hrun)⟩

/-- A step that keeps an invariant. -/
theorem of_invariant {I : σ → Prop} {x : EStateM Failure σ α} (hx : Faultless x s)
    (hI : Invariant I x) (hs : I s) : EndsIn (fun _ => I) x s :=
  ⟨hx, fun _ _ hrun => hI.of_ok hrun hs⟩

end EndsIn

/-! ## Edits -/

namespace Edit

open Netlist

variable {nl nl' : Netlist} {id : CellId} {port : Ident} {k : NetId} (names : Names)

theorem faultless_bind {x : Edit α} {f : α → Edit β} (hx : Faultless (x names) nl)
    (hf : ∀ a nl', x names nl = .ok a nl' → Faultless (f a names) nl') :
    Faultless ((x >>= f) names) nl :=
  Faultless.bind hx hf

theorem faultless_bind_of_ok {x : Edit α} {f : α → Edit β} {a : α} (hx : x names nl = .ok a nl')
    (hf : Faultless (f a names) nl') : Faultless ((x >>= f) names) nl :=
  Faultless.bind_of_ok (x := x names) (f := fun a => f a names) hx hf

theorem faultless_violate (v : Violation) : Faultless ((violate v : Edit α) names) nl :=
  Faultless.throw (Failure.reported_violation v) nl

theorem faultless_foldlM (P : List α → Netlist → Prop) {f : β → α → Edit β}
    (hf : ∀ a l b nl, P (a :: l) nl → Faultless (f b a names) nl)
    (step : ∀ a l b nl b' nl', P (a :: l) nl → f b a names nl = .ok b' nl' → P l nl')
    {l : List α} (b : β) (hP : P l nl) : Faultless (l.foldlM f b names) nl := by
  rw [foldlM_run]
  exact Faultless.foldlM P hf step b hP

theorem faultless_forM (P : List α → Netlist → Prop) {f : α → Edit PUnit}
    (hf : ∀ a l nl, P (a :: l) nl → Faultless (f a names) nl)
    (step : ∀ a l nl u nl', P (a :: l) nl → f a names nl = .ok u nl' → P l nl')
    {l : List α} (hP : P l nl) : Faultless (l.forM f names) nl := by
  rw [forM_run]
  exact Faultless.forM P hf step hP

/-- Selecting from a list by a test that changes nothing. -/
theorem faultless_filterM {f : α → Edit Bool} {l : List α}
    (hf : ∀ a ∈ l, ∃ b, f a names nl = .ok b nl) : Faultless (l.filterM f names) nl := by
  have haux : ∀ (l acc : List α), (∀ a ∈ l, ∃ b, f a names nl = .ok b nl) →
      Faultless (l.filterAuxM f acc names) nl := by
    intro l
    induction l with
    | nil => exact fun acc _ => Faultless.pure acc nl
    | cons a l ih =>
      intro acc hf
      obtain ⟨⟨b, hb⟩, hl⟩ := List.forall_mem_cons.mp hf
      exact faultless_bind_of_ok names hb (ih (cond b (a :: acc) acc) hl)
  exact faultless_bind names (haux l [] hf) fun acc nl' _ => Faultless.pure acc.reverse nl'

/-! ## Lookups -/

theorem lookup_of_ok {x : Except Fault α} {a : α} (h : x = .ok a) :
    (liftM x : Edit α) names nl = .ok a nl := by
  rw [h]
  rfl

theorem faultless_updateCell {f : Cell → Cell} (h : (nl.cell? id).isSome) :
    Faultless (updateCell id f names) nl := by
  obtain ⟨c, hc⟩ := Option.isSome_iff_exists.mp h
  exact faultless_bind_of_ok names (cell_of_some names hc) (Faultless.of_ok rfl)

/-! ## Operations -/

/-- An edit that relies on checked lookups never faults. -/
theorem Fails.faultless {x : Edit α} (h : Fails Failure.Reported x) : Faultless (x names) nl :=
  h names nl

theorem faultless_disconnect : Faultless (disconnect id port names) nl :=
  (fails_disconnect Failure.reported_violation).faultless names

theorem faultless_removeNet : Faultless (removeNet k names) nl :=
  (fails_removeNet Failure.reported_violation).faultless names

/-- A port that is on another net already is on a live one, which the message names. -/
theorem faultless_connect (hw : nl.WellFormed) : Faultless (connect id port k names) nl := by
  refine faultless_bind names ((fails_portChecked Failure.reported_violation).faultless names)
    fun found nl' hfound => ?_
  have hcases : (∃ e, portChecked id port names nl = .error e nl) ∨
      ∃ c p, nl.cell? id = some c ∧ c.port? port = some p ∧
        portChecked id port names nl = .ok (c, p) nl := portChecked_cases names
  obtain ⟨e, hrun⟩ | ⟨c, p, hc, hp, hrun⟩ := hcases
  · rw [hrun] at hfound
    cases hfound
  rw [hrun] at hfound
  cases hfound
  dsimp only
  cases hnet : p.net with
  | some existing =>
    dsimp only
    split
    · exact Faultless.pure _ _
    · have hwire : nl.wire ⟨id, port⟩ = some existing := by
        rw [wire_eq, Netlist.port?, hc]
        show (c.port? port).bind _ = _
        rw [hp]
        exact hnet
      obtain ⟨n, hn⟩ := Option.isSome_iff_exists.mp (hw.wired.wire_live _ _ hwire)
      refine faultless_bind_of_ok names (a := names.resolve port) rfl ?_
      refine faultless_bind_of_ok names (net_of_some names hn) ?_
      exact Faultless.throw (Failure.reported_rejected _) _
  | none =>
    refine faultless_bind names ((fails_netChecked Failure.reported_violation).faultless names)
      fun n nl' _ => ?_
    cases p.direction with
    | input => exact Faultless.of_ok rfl
    | inout => exact Faultless.of_ok rfl
    | output =>
      dsimp only
      split
      · rintro _ _ ⟨⟩
        exact Failure.reported_violation _
      · split
        · rintro _ _ ⟨⟩
          exact Failure.reported_violation _
        · exact Faultless.of_ok rfl

end Edit

/-! ## Packing steps -/

namespace Packing

variable {I : Netlist → Prop} {s s' : Session}

theorem faultless_edit {x : Edit α} (h : Faultless (x s.names) s.netlist) :
    Faultless (liftM x : Packing α) s := by
  intro e s' he
  obtain ⟨nl, hrun, -⟩ := edit_error.mp he
  exact h e nl hrun

theorem faultless_check {x : Except Failure α} (h : Refuses Failure.Reported x) :
    Faultless (liftM x : Packing α) s := by
  cases x with
  | ok a => exact Faultless.pure a s
  | error e => exact Faultless.throw (h e rfl) s

/-- Going through all cells does not fault if no visit to a live cell does. -/
theorem faultless_visits {visit : β → CellId → Packing β}
    (hvisit : ∀ b id s, I s.netlist → (s.netlist.cell? id).isSome → Faultless (visit b id) s)
    (hI : ∀ b id, Keeps I (visit b id))
    (hlive : ∀ other b id, Keeps (fun nl => (nl.cell? other).isSome) (visit b id)) (b : β)
    (h : I s.netlist) : Faultless (s.netlist.cellIds.foldlM visit b) s :=
  Faultless.foldlM_kept (I := fun s : Session => I s.netlist)
    (Q := fun id (s : Session) => (s.netlist.cell? id).isSome)
    (fun b id s => hvisit b id s) hI hlive b h fun _ hid => Netlist.live_of_mem_cellIds hid

end Packing
end FpgaPacking
