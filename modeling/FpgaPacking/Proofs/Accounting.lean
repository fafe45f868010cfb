import FpgaPacking.Pass
import FpgaPacking.Proofs.Runs

/-!
# Error accounting

A log keeps its totals apart from what is pending, so the totals count every
diagnostic that was ever emitted, whoever has taken it since.  Hence the
difference of two totals is what was emitted in between, and the errors that a
pass is charged with are its own: neither those reported before it nor those
that it has taken from the log itself make a difference.
-/

namespace FpgaPacking

/-! ## The history of a log -/

namespace Log

/-- What can be done with a log. -/
inductive Action where
  | emit (d : Diagnostic)
  /-- Takes the pending diagnostics. -/
  | take
  /-- Reads the pending diagnostics. -/
  | look

namespace Action

/-- The diagnostic that is emitted, if one is. -/
def emitted? : Action → Option Diagnostic
  | .emit d => some d
  | .take | .look => none

end Action

variable (log : Log)

/-- The log after an action. -/
def act : Action → Log
  | .emit d => log.emit d
  | .take => log.take.2
  | .look => log

/-- What the one who acts takes out of the log. -/
def takenBy : Action → List Diagnostic
  | .take => log.take.1
  | .emit _ | .look => []

/-- The log after actions, one after the other. -/
def after (actions : List Action) : Log := actions.foldl act log

/-- What is taken out of the log by actions, one after the other. -/
def taken (log : Log) : List Action → List Diagnostic
  | [] => []
  | action :: rest => log.takenBy action ++ (log.act action).taken rest

/-- The diagnostics that actions emit, in order. -/
def emitted (actions : List Action) : List Diagnostic := actions.filterMap Action.emitted?

/-- How many of the diagnostics that actions emit have the severity. -/
def reported (severity : Severity) (actions : List Action) : Nat :=
  (emitted actions).countP fun d => d.severity = severity

theorem emitted_cons (action : Action) (rest : List Action) :
    emitted (action :: rest) = emitted [action] ++ emitted rest := by
  unfold emitted
  rw [← List.filterMap_append, List.singleton_append]

theorem reported_cons (severity : Severity) (action : Action) (rest : List Action) :
    reported severity (action :: rest) = reported severity [action] + reported severity rest := by
  unfold reported
  rw [emitted_cons, List.countP_append]

theorem count_act (severity : Severity) (action : Action) :
    (log.act action).count severity = log.count severity + reported severity [action] := by
  cases action with
  | emit d =>
    show (log.emit d).count severity = _
    rw [count_emit]
    by_cases hd : d.severity = severity
    · simp [reported, emitted, Action.emitted?, hd]
    · simp [reported, emitted, Action.emitted?, hd]
  | take => exact count_take log severity
  | look => rfl

theorem takenBy_append_pending (action : Action) :
    log.takenBy action ++ (log.act action).pending = log.pending ++ emitted [action] := by
  cases action with
  | emit d => exact pending_emit log d
  | take => rfl
  | look => exact (List.append_nil _).symm

/-- The totals count what was emitted, taken or not. -/
theorem count_after (severity : Severity) (actions : List Action) :
    (log.after actions).count severity = log.count severity + reported severity actions := by
  induction actions generalizing log with
  | nil => rfl
  | cons action rest ih =>
    show ((log.act action).after rest).count severity = _
    rw [ih, count_act, reported_cons severity action rest, Nat.add_assoc]

/-- What was taken and what is pending is what was emitted, in this order. -/
theorem taken_append_pending (actions : List Action) :
    log.taken actions ++ (log.after actions).pending = log.pending ++ emitted actions := by
  induction actions generalizing log with
  | nil => exact (List.append_nil _).symm
  | cons action rest ih =>
    show log.takenBy action ++ (log.act action).taken rest ++
      ((log.act action).after rest).pending = _
    rw [List.append_assoc, ih, ← List.append_assoc, takenBy_append_pending, List.append_assoc,
      ← emitted_cons]

end Log

/-! ## One pass -/

namespace Pass

open Log

variable {pass : Pass} {s s' : Session}

/-- The account tells for every session what the pass does with the log. -/
def Accounted (account : Session → List Action) (pass : Pass) : Prop :=
  ∀ s, (finalState (pass.run s)).log = s.log.after (account s)

/-- The pass ends a run of passes by the failure: its own, or that of having reported errors. -/
inductive Stops (account : Session → List Action) (pass : Pass) (s : Session) :
    Failure → Session → Prop
  | failed {e : Failure} {s' : Session} (h : pass.run s = .error e s') : Stops account pass s e s'
  | reported {changed : Bool} {s' : Session} (h : pass.run s = .ok changed s')
      (hreported : 0 < reported .error (account s)) :
      Stops account pass s (.rejected (.passFailed pass.name (reported .error (account s)))) s'

variable {account : Session → List Action}

theorem runChecked_of_error {e : Failure} (h : pass.run s = .error e s') :
    pass.runChecked s = .error e s' := by
  have hbefore : errorCount s = .ok (s.log.count .error) s := rfl
  unfold runChecked
  rw [bind_of_ok hbefore, bind_of_error h]

/-- The errors that a pass is charged with are those that it emits. -/
theorem runChecked_of_ok (haccount : pass.Accounted account) {changed : Bool}
    (h : pass.run s = .ok changed s') :
    pass.runChecked s = if 0 < reported .error (account s) then
      .error (.rejected (.passFailed pass.name (reported .error (account s)))) s'
    else .ok changed s' := by
  have hlog := haccount s
  rw [h] at hlog
  -- Taking leaves the totals alone, so their difference counts what the pass has taken itself too.
  have herrors : s'.log.count .error - s.log.count .error = reported .error (account s) := by
    change s'.log = _ at hlog
    rw [hlog, count_after]
    omega
  have hbefore : errorCount s = .ok (s.log.count .error) s := rfl
  have hafter : errorCount s' = .ok (s'.log.count .error) s' := rfl
  unfold runChecked
  rw [bind_of_ok hbefore, bind_of_ok h, bind_of_ok hafter, herrors]
  by_cases hpositive : 0 < reported .error (account s)
  · rw [if_pos hpositive, if_pos hpositive]
    rfl
  · rw [if_neg hpositive, if_neg hpositive]
    rfl

theorem runChecked_of_silent (haccount : pass.Accounted account) {changed : Bool}
    (h : pass.run s = .ok changed s') (hsilent : reported .error (account s) = 0) :
    pass.runChecked s = .ok changed s' := by
  rw [runChecked_of_ok haccount h, if_neg (Nat.not_lt.mpr (Nat.le_of_eq hsilent))]

theorem runChecked_of_stops (haccount : pass.Accounted account) {e : Failure}
    (h : Stops account pass s e s') : pass.runChecked s = .error e s' := by
  cases h with
  | failed h => exact runChecked_of_error h
  | reported h hreported => rw [runChecked_of_ok haccount h, if_pos hreported]

end Pass

/-! ## Runs of passes -/

open Log

section Runs

variable {account : Pass → Session → List Action} {pass : Pass} {passes rest : List Pass}
  {verdicts : List Bool} {s s' : Session}

/-- The passes lead from one session to the other, and each says whether it changed anything.  None
of them ends the run. -/
inductive Clean (account : Pass → Session → List Action) :
    Session → List Pass → List Bool → Session → Prop
  | nil (s : Session) : Clean account s [] [] s
  | cons {pass : Pass} {passes : List Pass} {changed : Bool} {verdicts : List Bool}
      {s s₁ s₂ : Session} (h : pass.run s = .ok changed s₁)
      (hsilent : reported .error (account pass s) = 0)
      (hrest : Clean account s₁ passes verdicts s₂) :
      Clean account s (pass :: passes) (changed :: verdicts) s₂

/-- Either all passes run, or there is a first one that ends the run. -/
theorem clean_or_stops (account : Pass → Session → List Action) (passes : List Pass) (s : Session) :
    (∃ verdicts s', Clean account s passes verdicts s') ∨
      ∃ done pass rest verdicts s₁ e s₂, passes = done ++ pass :: rest ∧
        Clean account s done verdicts s₁ ∧ Pass.Stops (account pass) pass s₁ e s₂ := by
  induction passes generalizing s with
  | nil => exact .inl ⟨[], s, .nil s⟩
  | cons pass passes ih =>
    cases hrun : pass.run s with
    | error e s₁ =>
      exact .inr ⟨[], pass, passes, [], s, e, s₁, rfl, .nil s, .failed hrun⟩
    | ok changed s₁ =>
      -- A regular end is not enough: the pass may still be charged with errors.
      by_cases hreported : 0 < reported .error (account pass s)
      · exact .inr ⟨[], pass, passes, [], s, _, s₁, rfl, .nil s, .reported hrun hreported⟩
      · have hsilent : reported .error (account pass s) = 0 := Nat.eq_zero_of_not_pos hreported
        rcases ih s₁ with ⟨verdicts, s', hclean⟩ |
          ⟨done, last, rest, verdicts, s₂, e, s₃, rfl, hclean, hstops⟩
        · exact .inl ⟨changed :: verdicts, s', .cons hrun hsilent hclean⟩
        · exact .inr ⟨pass :: done, last, rest, changed :: verdicts, s₂, e, s₃, rfl,
            .cons hrun hsilent hclean, hstops⟩

theorem runPasses_cons_of_error {e : Failure} (h : pass.runChecked s = .error e s') :
    runPasses (pass :: rest) s = .error e s' :=
  bind_of_error h

theorem runPasses_of_clean (haccount : ∀ pass ∈ passes, pass.Accounted (account pass))
    (h : Clean account s passes verdicts s') : runPasses passes s = .ok (verdicts.any id) s' := by
  induction h with
  | nil s => rfl
  | cons hrun hsilent hrest ih =>
    obtain ⟨hfirst, hothers⟩ := List.forall_mem_cons.mp haccount
    unfold runPasses
    rw [bind_of_ok (Pass.runChecked_of_silent hfirst hrun hsilent), bind_of_ok (ih hothers),
      List.any_cons, Bool.or_comm]
    rfl

/-- What ends a run after passes that do not end it ends the run with them. -/
theorem runPasses_append_of_error {done : List Pass} {e : Failure} {s'' : Session}
    (haccount : ∀ pass ∈ done, pass.Accounted (account pass))
    (h : Clean account s done verdicts s') (hrest : runPasses rest s' = .error e s'') :
    runPasses (done ++ rest) s = .error e s'' := by
  induction h with
  | nil s => exact hrest
  | cons hrun hsilent _ ih =>
    obtain ⟨hfirst, hothers⟩ := List.forall_mem_cons.mp haccount
    rw [List.cons_append]
    unfold runPasses
    rw [bind_of_ok (Pass.runChecked_of_silent hfirst hrun hsilent), bind_of_error (ih hothers hrest)]

/-- The passes are run up to the first that fails or emits an error, and the answer is its failure,
or its name with the number of the errors that it has emitted.  If there is none, all passes are run,
and the answer is whether any of them changed something.  Whatever is done with a log, its totals
count what was emitted, and what was taken and what is pending is what was emitted, in order. -/
theorem accounting_exact (haccount : ∀ pass ∈ passes, pass.Accounted (account pass)) (s : Session)
    (actions : List Action) :
    ((∃ verdicts s', Clean account s passes verdicts s' ∧
        runPasses passes s = .ok (verdicts.any id) s') ∨
      ∃ done pass rest verdicts s₁ e s₂, passes = done ++ pass :: rest ∧
        Clean account s done verdicts s₁ ∧ Pass.Stops (account pass) pass s₁ e s₂ ∧
        ∀ others, runPasses (done ++ pass :: others) s = .error e s₂) ∧
    (∀ severity, (Log.empty.after actions).count severity = reported severity actions) ∧
    Log.empty.taken actions ++ (Log.empty.after actions).pending = emitted actions := by
  refine ⟨?_, fun severity => ?_, Log.empty.taken_append_pending actions⟩
  · rcases clean_or_stops account passes s with ⟨verdicts, s', hclean⟩ |
      ⟨done, pass, rest, verdicts, s₁, e, s₂, rfl, hclean, hstops⟩
    · exact .inl ⟨verdicts, s', hclean, runPasses_of_clean haccount hclean⟩
    · obtain ⟨hdone, hlast⟩ := List.forall_mem_append.mp haccount
      obtain ⟨hpass, -⟩ := List.forall_mem_cons.mp hlast
      have hchecked := Pass.runChecked_of_stops hpass hstops
      exact .inr ⟨done, pass, rest, verdicts, s₁, e, s₂, rfl, hclean, hstops, fun others =>
        runPasses_append_of_error hdone hclean (runPasses_cons_of_error hchecked)⟩
  · have hzero : Log.empty.count severity = 0 := by cases severity <;> rfl
    rw [count_after, hzero, Nat.zero_add]

end Runs

/-! ## A pass that takes its own complaints -/

namespace Pass.Complaining

/-- A pass that acts on the log and has changed something. -/
def acting (name : String) (actions : List Action) : Pass where
  name := name
  run := do
    modify fun s => { s with log := s.log.after actions }
    return true

def full : Diagnostic := .warning .cluster 9 "tile 3 is full"

def exhausted : Diagnostic :=
  { Diagnostic.note .cluster 9 "slot map exhausted" with severity := .error }

def quietly : List Action := [.emit full, .take, .emit full]

/-- One of the errors is no longer pending when the pass ends. -/
def loudly : List Action := [.emit exhausted, .take, .look, .emit full, .emit exhausted]

def passes : List Pass :=
  [acting "quiet" quietly, acting "complaining" loudly, acting "last" quietly]

def account (pass : Pass) (_ : Session) : List Action :=
  if pass.name = "complaining" then loudly else quietly

/-- An error was reported before. -/
def session : Session :=
  { Session.start .empty with log := Log.empty.after [.emit exhausted, .take] }

/-- The session in which the run ends, before the last pass. -/
def charged : Session := { session with log := (session.log.after quietly).after loudly }

theorem accounted_passes : ∀ pass ∈ passes, pass.Accounted (account pass) := by
  rintro pass (_ | ⟨_, _ | ⟨_, _ | ⟨_, ⟨⟩⟩⟩⟩)
  · exact fun _ => rfl
  · exact fun _ => rfl
  · exact fun _ => rfl

/-- The second pass is charged with its two errors, the pending one and the one that it took. -/
theorem charged_with_both : (∀ pass ∈ passes, pass.Accounted (account pass)) ∧
    (∃ pass s, Stops (account pass) pass s (.rejected (.passFailed "complaining" 2)) charged) ∧
    runPasses passes session = .error (.rejected (.passFailed "complaining" 2)) charged ∧
    Log.empty.taken loudly ++ (Log.empty.after loudly).pending = [exhausted, full, exhausted] := by
  have hrun : runPasses passes session =
    .error (.rejected (.passFailed "complaining" 2)) charged := rfl
  obtain ⟨hend, -, hhistory⟩ := accounting_exact accounted_passes session loudly
  refine ⟨accounted_passes, ?_, hrun, hhistory⟩
  rcases hend with ⟨verdicts, s', -, hok⟩ |
    ⟨done, pass, rest, verdicts, s₁, e, s₂, hpasses, -, hstops, hfailed⟩
  · rw [hrun] at hok
    cases hok
  · have hfailed := hfailed rest
    rw [← hpasses, hrun] at hfailed
    cases hfailed
    exact ⟨pass, s₁, hstops⟩

end Pass.Complaining
end FpgaPacking
