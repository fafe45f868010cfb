import FpgaPacking.Proofs.Numbering.Alike
import FpgaPacking.Proofs.Runs

/-!
# Two runs beside each other

`RunAlike S V x y` says that two runs which start from states related by `S` keep
step: both end regularly, with results related by `V`, or both fail with the same
failure, and either way they end in related states.  It is closed under the ways
in which steps are put together, so that only the elementary steps need a proof of
their own.

For edits the states are netlists that differ in numbering only.  For packing
steps they are sessions.  A packing step may enter names, so its renaming grows;
what was paired before stays paired.
-/

namespace FpgaPacking

section

variable {ε σ τ α β α' β' γ δ : Type}

/-- Two ends of runs with related results and states, or with the same failure and related states. -/
inductive EndAlike (S : σ → τ → Prop) (V : α → β → Prop) :
    EStateM.Result ε σ α → EStateM.Result ε τ β → Prop where
  | ok {a : α} {b : β} {s : σ} {t : τ} (hV : V a b) (hS : S s t) : EndAlike S V (.ok a s) (.ok b t)
  | error (e : ε) {s : σ} {t : τ} (hS : S s t) : EndAlike S V (.error e s) (.error e t)

theorem EndAlike.imp {S S' : σ → τ → Prop} {V V' : α → β → Prop} {r : EStateM.Result ε σ α}
    {r' : EStateM.Result ε τ β} (hS : ∀ s t, S s t → S' s t) (hV : ∀ a b, V a b → V' a b)
    (h : EndAlike S V r r') : EndAlike S' V' r r' := by
  cases h with
  | ok h hs => exact .ok (hV _ _ h) (hS _ _ hs)
  | error e hs => exact .error e (hS _ _ hs)

/-- Runs from related states end alike. -/
def RunAlike (S : σ → τ → Prop) (V : α → β → Prop) (x : EStateM ε σ α) (y : EStateM ε τ β) : Prop :=
  ∀ s t, S s t → EndAlike S V (x s) (y t)

namespace RunAlike

variable {S : σ → τ → Prop} {V : α → β → Prop} {W : α' → β' → Prop} {P : γ → δ → Prop}

theorem pure {a : α} {b : β} (h : V a b) :
    RunAlike S V (Pure.pure a : EStateM ε σ α) (Pure.pure b) := fun _ _ hs => .ok h hs

theorem throw (e : ε) :
    RunAlike S V (MonadExcept.throw e : EStateM ε σ α) (MonadExcept.throw e) :=
  fun _ _ hs => .error e hs

theorem bind {x : EStateM ε σ α} {y : EStateM ε τ β} {f : α → EStateM ε σ α'}
    {g : β → EStateM ε τ β'} (hxy : RunAlike S V x y)
    (hfg : ∀ a b, V a b → RunAlike S W (f a) (g b)) : RunAlike S W (x >>= f) (y >>= g) := by
  intro s t hst
  show EndAlike S W (EStateM.bind x f s) (EStateM.bind y g t)
  unfold EStateM.bind
  match x s, y t, hxy s t hst with
  | _, _, .ok hab hst' => exact hfg _ _ hab _ _ hst'
  | _, _, .error e hst' => exact .error e hst'

theorem forM {f : γ → EStateM ε σ PUnit} {g : δ → EStateM ε τ PUnit}
    {l : List γ} {l' : List δ} (hl : List.Forall₂ P l l')
    (hfg : ∀ c d, P c d → RunAlike S Eq (f c) (g d)) : RunAlike S Eq (l.forM f) (l'.forM g) := by
  induction hl with
  | nil => exact pure rfl
  | cons hcd _ ih => exact (hfg _ _ hcd).bind fun _ _ _ => ih

theorem foldlM {f : α → γ → EStateM ε σ α} {g : β → δ → EStateM ε τ β}
    {l : List γ} {l' : List δ} (hl : List.Forall₂ P l l') {a : α} {b : β} (hab : V a b)
    (hfg : ∀ a b c d, V a b → P c d → RunAlike S V (f a c) (g b d)) :
    RunAlike S V (l.foldlM f a) (l'.foldlM g b) := by
  induction hl generalizing a b with
  | nil => exact pure hab
  | cons hcd _ ih =>
    rw [List.foldlM_cons, List.foldlM_cons]
    exact (hfg _ _ _ _ hab hcd).bind fun _ _ hab' => ih hab'

theorem mapM {f : γ → EStateM ε σ α} {g : δ → EStateM ε τ β}
    {l : List γ} {l' : List δ} (hl : List.Forall₂ P l l')
    (hfg : ∀ c d, P c d → RunAlike S V (f c) (g d)) :
    RunAlike S (List.Forall₂ V) (l.mapM f) (l'.mapM g) := by
  induction hl with
  | nil => exact pure .nil
  | cons hcd _ ih =>
    rw [List.mapM_cons, List.mapM_cons]
    exact (hfg _ _ hcd).bind fun _ _ hab => ih.bind fun _ _ habs => pure (.cons hab habs)

end RunAlike
end

variable {R : Renaming} {α β α' β' γ δ : Type}

/-! ## Edits -/

namespace Edit

/-- Edits that keep step on netlists that differ in numbering only. -/
def Alike (R : Renaming) (V : α → β → Prop) (x : Edit α) (y : Edit β) : Prop :=
  ∀ names names', names.matching names' = R → RunAlike (Netlist.Alike R) V (x names) (y names')

namespace Alike

variable {V : α → β → Prop} {W : α' → β' → Prop} {P : γ → δ → Prop} {x : Edit α} {y : Edit β}

theorem pure {a : α} {b : β} (h : V a b) : Alike R V (Pure.pure a) (Pure.pure b) :=
  fun _ _ _ => RunAlike.pure h

theorem throw (e : Failure) : Alike R V (MonadExcept.throw e) (MonadExcept.throw e) :=
  fun _ _ _ => RunAlike.throw e

theorem violate (v : Violation) : Alike R V (Edit.violate v) (Edit.violate v) := throw _

theorem get : Alike R (Netlist.Alike R) MonadState.get MonadState.get :=
  fun _ _ _ _ _ h => .ok h h

theorem resolve {i j : Ident} (h : R i j) : Alike R Eq (Edit.resolve i) (Edit.resolve j) := by
  rintro names names' rfl nl nl' hnl
  exact .ok (Names.resolve_of_matching h).symm hnl

theorem modifyGet {f : Netlist → α × Netlist} {g : Netlist → β × Netlist}
    (h : ∀ nl nl', nl.Alike R nl' → V (f nl).1 (g nl').1 ∧ (f nl).2.Alike R (g nl').2) :
    Alike R V (MonadStateOf.modifyGet f) (MonadStateOf.modifyGet g) :=
  fun _ _ _ nl nl' hnl => .ok (h nl nl' hnl).1 (h nl nl' hnl).2

theorem modify {f g : Netlist → Netlist} (h : ∀ nl nl', nl.Alike R nl' → (f nl).Alike R (g nl')) :
    Alike R Eq (modify f) (modify g) := fun _ _ _ nl nl' hnl => .ok rfl (h nl nl' hnl)

theorem lookup {x : Except Fault α} {y : Except Fault β} (h : Agree V x y) :
    Alike R V (liftM x) (liftM y) := by
  cases h with
  | ok h => exact pure h
  | error e => exact throw _

theorem bind {f : α → Edit α'} {g : β → Edit β'} (hxy : Alike R V x y)
    (hfg : ∀ a b, V a b → Alike R W (f a) (g b)) : Alike R W (x >>= f) (y >>= g) :=
  fun names names' h => (hxy names names' h).bind fun a b hab => hfg a b hab names names' h

/-- After a step with equal results. -/
theorem bind_same {γ : Type} {x y : Edit γ} {f : γ → Edit α'} {g : γ → Edit β'} (hxy : Alike R Eq x y)
    (hfg : ∀ c, Alike R W (f c) (g c)) : Alike R W (x >>= f) (y >>= g) := by
  refine hxy.bind ?_
  rintro c _ rfl
  exact hfg c

theorem imp {V' : α → β → Prop} (hV : ∀ a b, V a b → V' a b) (h : Alike R V x y) :
    Alike R V' x y :=
  fun names names' hn nl nl' hnl => (h names names' hn nl nl' hnl).imp (fun _ _ => id) hV

theorem forM {f : γ → Edit PUnit} {g : δ → Edit PUnit} {l : List γ} {l' : List δ}
    (hl : List.Forall₂ P l l') (hfg : ∀ c d, P c d → Alike R Eq (f c) (g d)) :
    Alike R Eq (l.forM f) (l'.forM g) := by
  intro names names' h
  rw [forM_run, forM_run]
  exact RunAlike.forM hl fun c d hcd => hfg c d hcd names names' h

theorem foldlM {f : α → γ → Edit α} {g : β → δ → Edit β}
    {l : List γ} {l' : List δ} (hl : List.Forall₂ P l l') {a : α} {b : β} (hab : V a b)
    (hfg : ∀ a b c d, V a b → P c d → Alike R V (f a c) (g b d)) :
    Alike R V (l.foldlM f a) (l'.foldlM g b) := by
  intro names names' h
  rw [foldlM_run, foldlM_run]
  exact RunAlike.foldlM hl hab fun a b c d hab hcd => hfg a b c d hab hcd names names' h

theorem filterM {f : γ → Edit Bool} {g : δ → Edit Bool} {l : List γ} {l' : List δ}
    (hl : List.Forall₂ P l l') (hfg : ∀ c d, P c d → Alike R Eq (f c) (g d)) :
    Alike R (List.Forall₂ P) (l.filterM f) (l'.filterM g) := by
  -- The loop collects in reverse, so the induction is on the loop with what is kept so far.
  have hloop : ∀ kept kept', List.Forall₂ P kept kept' →
      Alike R (List.Forall₂ P) (l.filterAuxM f kept) (l'.filterAuxM g kept') := by
    induction hl with
    | nil => exact fun _ _ h => pure h
    | cons hcd _ ih =>
      intro kept kept' hkept
      refine (hfg _ _ hcd).bind fun keep _ hkeep => ?_
      subst hkeep
      cases keep with
      | true => exact ih _ _ (.cons hcd hkept)
      | false => exact ih _ _ hkept
  exact (hloop [] [] .nil).bind fun _ _ h => pure (List.rel_reverse h)

/-- Loops over the same list. -/
theorem foldlM_same {α : Type} {f g : α → γ → Edit α}
    (l : List γ) (hfg : ∀ a c, Alike R Eq (f a c) (g a c)) (a : α) :
    Alike R Eq (l.foldlM f a) (l.foldlM g a) := by
  have hl : List.Forall₂ Eq l l := List.forall₂_same.mpr fun _ _ => rfl
  refine foldlM hl rfl ?_
  rintro a _ c _ rfl rfl
  exact hfg a c

theorem forM_same {f g : γ → Edit PUnit} (l : List γ) (hfg : ∀ c, Alike R Eq (f c) (g c)) :
    Alike R Eq (l.forM f) (l.forM g) := by
  have hl : List.Forall₂ Eq l l := List.forall₂_same.mpr fun _ _ => rfl
  refine forM hl ?_
  rintro c _ rfl
  exact hfg c

end Alike
end Edit

/-! ## Packing steps -/

/-- Sessions that differ in numbering only.  Their tables pair what `R` pairs, and maybe more. -/
structure Session.Alike (R : Renaming) (s s' : Session) : Prop where
  matching : R ≤ s.names.matching s'.names
  netlist : s.netlist.Alike (s.names.matching s'.names) s'.netlist
  log : s'.log = s.log

theorem Session.Alike.mono {S : Renaming} (hRS : R ≤ S) {s s' : Session} (h : s.Alike S s') :
    s.Alike R s' := ⟨le_trans hRS h.matching, h.netlist, h.log⟩

/-- Constructions that pair the identifiers of the names they enter.  What they build is related
under the renaming that results. -/
def Naming.Alike (R : Renaming) (V : Renaming → α → β → Prop) (x : Naming α) (y : Naming β) : Prop :=
  ∀ names names', R ≤ names.matching names' →
    names.matching names' ≤ (x names).2.matching (y names').2 ∧
      V ((x names).2.matching (y names').2) (x names).1 (y names').1

namespace Packing

/-- Packing steps that keep step on sessions that differ in numbering only. -/
def Alike (R : Renaming) (V : α → β → Prop) (x : Packing α) (y : Packing β) : Prop :=
  RunAlike (Session.Alike R) V x y

namespace Alike

variable {V : α → β → Prop} {W : α' → β' → Prop} {P : γ → δ → Prop}

theorem pure {a : α} {b : β} (h : V a b) : Alike R V (Pure.pure a) (Pure.pure b) := RunAlike.pure h

theorem throw (e : Failure) : Alike R V (MonadExcept.throw e) (MonadExcept.throw e) :=
  RunAlike.throw e

theorem bind {x : Packing α} {y : Packing β} {f : α → Packing α'} {g : β → Packing β'}
    (hxy : Alike R V x y) (hfg : ∀ a b, V a b → Alike R W (f a) (g b)) :
    Alike R W (x >>= f) (y >>= g) := RunAlike.bind hxy hfg

/-- After a step with equal results. -/
theorem bind_same {x y : Packing γ} {f : γ → Packing α'} {g : γ → Packing β'}
    (hxy : Alike R Eq x y) (hfg : ∀ c, Alike R W (f c) (g c)) : Alike R W (x >>= f) (y >>= g) := by
  refine hxy.bind ?_
  rintro c _ rfl
  exact hfg c

/-- An edit that keeps step under every renaming with the pairs of `R` does so in a packing step. -/
theorem edit {x : Edit α} {y : Edit β} (h : ∀ S, R ≤ S → Edit.Alike S V x y) :
    Alike R V (liftM x) (liftM y) := by
  rintro ⟨names, nl, log⟩ ⟨names', nl', log'⟩ hs
  show EndAlike _ V (Packing.edit x _) (Packing.edit y _)
  unfold Packing.edit
  dsimp only
  match x names nl, y names' nl', h _ hs.matching names names' rfl nl nl' hs.netlist with
  | _, _, .ok hV hnl => exact .ok hV ⟨hs.matching, hnl, hs.log⟩
  | _, _, .error e hnl => exact .error e ⟨hs.matching, hnl, hs.log⟩

/-- After a construction the steps go on under the renaming that results. -/
theorem name_bind {U : Renaming → γ → δ → Prop} {x : Naming γ} {y : Naming δ} {f : γ → Packing α}
    {g : δ → Packing β} (hxy : Naming.Alike R U x y)
    (hfg : ∀ S, R ≤ S → ∀ c d, U S c d → Alike S V (f c) (g d)) :
    Alike R V (liftM x >>= f) (liftM y >>= g) := by
  intro s s' hs
  obtain ⟨hle, hU⟩ := hxy s.names s'.names hs.matching
  -- The rest starts from tables that pair at least what `s` and `s'` pair, so the netlists and
  -- everything that was built before carry over.
  have hnext : EndAlike _ V (f (x s.names).1 ⟨(x s.names).2, s.netlist, s.log⟩)
      (g (y s'.names).1 ⟨(y s'.names).2, s'.netlist, s'.log⟩) :=
    hfg _ (le_trans hs.matching hle) _ _ hU _ _ ⟨le_refl _, hs.netlist.mono hle, hs.log⟩
  exact hnext.imp (fun _ _ => Session.Alike.mono (le_trans hs.matching hle)) fun _ _ => id

theorem netlist :
    Alike R (fun nl nl' => ∃ S, R ≤ S ∧ nl.Alike S nl') Packing.netlist Packing.netlist :=
  fun _ _ hs => .ok ⟨_, hs.matching, hs.netlist⟩ hs

theorem emit (d : Diagnostic) : Alike R Eq (Packing.emit d) (Packing.emit d) :=
  fun _ _ hs => .ok rfl ⟨hs.matching, hs.netlist, congrArg (·.emit d) hs.log⟩

theorem lookup {x : Except Fault α} {y : Except Fault β} (h : Agree V x y) :
    Alike R V (liftM x) (liftM y) := by
  cases h with
  | ok h => exact pure h
  | error e => exact throw _

theorem check {x : Except Failure α} {y : Except Failure β} (h : Agree V x y) :
    Alike R V (liftM x) (liftM y) := by
  cases h with
  | ok h => exact pure h
  | error e => exact throw e

theorem forM {f : γ → Packing PUnit} {g : δ → Packing PUnit}
    {l : List γ} {l' : List δ} (hl : List.Forall₂ P l l')
    (hfg : ∀ c d, P c d → Alike R Eq (f c) (g d)) : Alike R Eq (l.forM f) (l'.forM g) :=
  RunAlike.forM hl hfg

theorem mapM {f : γ → Packing α} {g : δ → Packing β} {l : List γ} {l' : List δ}
    (hl : List.Forall₂ P l l') (hfg : ∀ c d, P c d → Alike R V (f c) (g d)) :
    Alike R (List.Forall₂ V) (l.mapM f) (l'.mapM g) := RunAlike.mapM hl hfg

theorem forM_same {f g : γ → Packing PUnit} (l : List γ) (hfg : ∀ c, Alike R Eq (f c) (g c)) :
    Alike R Eq (l.forM f) (l.forM g) := by
  have hl : List.Forall₂ Eq l l := List.forall₂_same.mpr fun _ _ => rfl
  refine forM hl ?_
  rintro c _ rfl
  exact hfg c

theorem mapM_same {f g : γ → Packing α} (l : List γ) (hfg : ∀ c, Alike R Eq (f c) (g c)) :
    Alike R Eq (l.mapM f) (l.mapM g) := by
  have hl : List.Forall₂ Eq l l := List.forall₂_same.mpr fun _ _ => rfl
  have hmapM : Alike R (List.Forall₂ Eq) (l.mapM f) (l.mapM g) := by
    refine mapM hl ?_
    rintro c _ rfl
    exact hfg c
  rwa [List.forall₂_eq_eq_eq] at hmapM

end Alike
end Packing

end FpgaPacking
