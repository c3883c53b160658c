import Joinery.Assembly.Assemble
import Joinery.Proofs.Assembly.Contract

/-!
# The verdict of an assembly

## The report that is carried along

An assembly validates its files several times and carries the last report with it.
Every phase either leaves the files as they are, or replaces the report, or throws it
away; so the report, where there is one, always describes the files of the moment.
The verdict is read off this report, or off a fresh one where none is left.
-/

namespace Joinery
namespace Assembly

open Run

variable {ε : Type} {company : Company ε} {config : Config} {request : AssemblyRequest}

def Current (config : Config) (request : AssemblyRequest) (p : Progress) : Prop :=
  forall report, p.report = some report -> report = reportOn config request p.files.files

theorem Current.addPhase {p : Progress} (h : Current config request p) (phase : PhaseResult) :
    Current config request (p.addPhase phase) :=
  h

theorem current_of_report {p : Progress}
    (h : p.report = some (reportOn config request p.files.files)) : Current config request p := by
  intro report hreport
  rw [h] at hreport
  cases hreport
  rfl

theorem current_of_none {p : Progress} (h : p.report = none) : Current config request p := by
  intro report hreport
  rw [h] at hreport
  cases hreport

/-!
# Phases
-/

theorem skip_current {label : String} {p : Progress} (h : Current config request p) :
    Yields (skip company label p) (Current config request) := by
  unfold skip
  apply Yields.andThen
  intro _
  exact Yields.ret (h.addPhase _)

theorem unlessLate_current {label : String} {p : Progress} {phase : Run ε Progress}
    (h : Current config request p) (hphase : Yields phase (Current config request)) :
    Yields (unlessLate company request label p phase) (Current config request) := by
  unfold unlessLate
  apply Yields.andThen
  intro late
  exact Yields.ite (fun _ => skip_current h) fun _ => hphase

theorem applyPhase_current {group : PhaseGroup} {p : Progress} (h : Current config request p) :
    Yields (applyPhase company config request group p) (Current config request) := by
  unfold applyPhase
  apply unlessLate_current h
  apply Yields.andThen
  intro _
  apply Yields.andThen
  rintro ⟨files, count⟩
  apply Yields.andThen
  intro _
  exact Yields.ret (current_of_report rfl)

theorem applyPhases_current (groups : List PhaseGroup) {p : Progress}
    (h : Current config request p) :
    Yields (applyPhases company config request groups p) (Current config request) := by
  induction groups generalizing p with
  | nil =>
      exact Yields.ret h
  | cons group rest ih =>
      unfold applyPhases
      exact Yields.bind (applyPhase_current h) fun _ hnext => ih hnext

/-- Without plural duplicates the files are the same ones; otherwise the report is dropped. -/
theorem dropPlurals_current {options : Options} {p : Progress} (h : Current config request p) :
    Yields (dropPlurals company config options p) (Current config request) := by
  unfold dropPlurals
  refine Yields.ite (fun _ => ?_) fun _ => Yields.ret h
  apply Yields.andThen
  intro _
  apply Yields.ret
  cases hremoved : FileSet.pluralDuplicates config.resolver.extensions p.files.paths with
  | nil =>
      intro report hreport
      simp only [List.foldl_nil, List.isEmpty_nil, if_true] at hreport ⊢
      exact h report hreport
  | cons path rest =>
      apply current_of_none
      simp

theorem dependencyPhase_current {options : Options} {p : Progress}
    (h : Current config request p) :
    Yields (dependencyPhase company config request options p) (Current config request) := by
  unfold dependencyPhase
  refine Yields.ite (fun _ => ?_) fun _ => Yields.ret h
  apply unlessLate_current h
  apply Yields.andThen
  intro _
  apply Yields.andThen
  intro _
  apply Yields.andThen
  intro _
  apply Yields.ret
  exact h

theorem passes_current (left : Nat) (start : RepairState) :
    Yields (Repair.passes company config request left start)
      (fun done => done.report = reportOn config request done.state.files.files) := by
  induction left generalizing start with
  | zero =>
      unfold Repair.passes
      apply Yields.andThen
      intro _
      exact Yields.ite (fun _ => Yields.ret rfl) fun _ => Yields.ret rfl
  | succ left ih =>
      unfold Repair.passes
      apply Yields.andThen
      intro _
      refine Yields.ite (fun _ => Yields.ret rfl) fun _ => ?_
      apply Yields.andThen
      intro late
      refine Yields.ite (fun _ => Yields.ret rfl) fun _ => ?_
      apply Yields.andThen
      rintro ⟨generated, fixes⟩
      refine Yields.ite (fun _ => Yields.ret rfl) fun _ => ?_
      apply Yields.andThen
      intro next
      exact ih next

theorem validationPhase_current {options : Options} {p : Progress}
    (h : Current config request p) :
    Yields (validationPhase company config request options p) (Current config request) := by
  unfold validationPhase
  refine Yields.ite (fun _ => ?_) fun _ => Yields.ret h
  apply unlessLate_current h
  apply Yields.andThen
  intro _
  refine Yields.bind (passes_current _ _) ?_
  intro mended hmended
  apply Yields.andThen
  intro _
  exact Yields.ret (current_of_report (congrArg some hmended))

/-!
# The result
-/

/-- What a result says of the files that it holds. -/
structure Describes (config : Config) (request : AssemblyRequest) (result : AssemblyResult) :
    Prop where
  diagnostics :
    result.diagnostics = (reportOn config request result.files).diagnostics
  success : result.success = (reportOn config request result.files).passes
  totalFiles : result.stats.totalFiles = result.files.size

theorem resultOf_describes {p : Progress} (h : Current config request p) :
    Describes config request (resultOf config request p) := by
  have hreport : p.report.getD (reportOn config request p.files.files) =
      reportOn config request p.files.files := by
    cases hp : p.report with
    | none =>
        rfl
    | some report =>
        exact h report hp
  exact
    { diagnostics := congrArg Report.diagnostics hreport
      success := congrArg Report.passes hreport
      totalFiles := rfl }

theorem run_describes : Yields (run company config request) (Describes config request) := by
  unfold run
  dsimp only
  cases FileSet.seed (request.optionsIn config).strictContent request.existing with
  | error e =>
      exact Contract.fail fun _ hlog => hlog
  | ok files =>
      have hstart : Current config request { files := files } := current_of_none rfl
      refine Yields.bind (applyPhases_current _ hstart) fun applied happlied => ?_
      refine Yields.bind (dropPlurals_current happlied) fun single hsingle => ?_
      refine Yields.bind (dependencyPhase_current hsingle) fun listed hlisted => ?_
      refine Yields.bind (validationPhase_current hlisted) fun validated hvalidated => ?_
      exact Yields.ret (resultOf_describes hvalidated)

theorem run_of_assemble {locks : Locks} {result : AssemblyResult}
    (h : (assemble company config locks request).result = .ok result) :
    exists later, run company config request {} = (later, .ok result) := by
  unfold assemble at h
  cases hlock : locks.acquire request.projectId with
  | none =>
      rw [hlock] at h
      cases h
  | some held =>
      rw [hlock] at h
      cases hrun : run company config request {} with
      | mk later outcome =>
          simp only [hrun] at h
          cases outcome with
          | error e =>
              cases h
          | ok r =>
              cases h
              exact ⟨later, rfl⟩

theorem passes_iff_no_error (report : Report) :
    report.passes = true <-> forall d, d ∈ report.diagnostics -> d.severity ≠ .error := by
  simp [Report.passes, Report.errors, Diagnostic.isError, List.filter_eq_nil_iff]

/--
Whatever the collaborators write, wherever the deadline strikes and however the passes end, the
verdict of an assembly is the verdict on the files that it returns.
-/
theorem assemble_describes_files {locks : Locks} {result : AssemblyResult}
    (h : (assemble company config locks request).result = .ok result) :
    result.diagnostics =
        ((config.validatorFor (config.resolverFor request.aliases result.files)
          (request.optionsIn config)).validate result.files).diagnostics ∧
      (result.success = true <->
        forall d, d ∈ result.diagnostics -> d.severity ≠ .error) ∧
      result.stats.totalFiles = result.files.size := by
  obtain ⟨later, hrun⟩ := run_of_assemble h
  have hdescribes := run_describes.of_eq hrun
  refine ⟨hdescribes.diagnostics, ?_, hdescribes.totalFiles⟩
  rw [hdescribes.success, hdescribes.diagnostics]
  exact passes_iff_no_error _

/--
A plural duplicate goes after the only validation, and the deadline skips all that follows, so
that an import has lost its file, which is still reported.
-/
def lateRequest : AssemblyRequest :=
  { projectId := "late"
    workOrders :=
      [{ id := "1"
         files :=
          [{ path := "a.ts", action := .create, content := some "import { b } from './bs'" },
            { path := "b.ts", action := .create, content := some "export const b = 1" },
            { path := "bs.ts", action := .create, content := some "export const b = 1" }] }]
    options := some { deduplicatePlurals := true }
    deadline := some fun look => decide (1 ≤ look) }

theorem assemble_describes_files_late :
    exists result,
      (assemble Company.silent {} {} lateRequest : Outcome Unit).result = .ok result ∧
      result.diagnostics =
        ((Config.validatorFor {} (Config.resolverFor {} lateRequest.aliases result.files)
          (lateRequest.optionsIn {})).validate result.files).diagnostics ∧
      (result.success = true <-> forall d, d ∈ result.diagnostics -> d.severity ≠ .error) ∧
      result.stats.totalFiles = result.files.size := by
  have hends : (assemble Company.silent {} {} lateRequest : Outcome Unit).result.isOk = true := by
    decide +kernel
  obtain ⟨result, hresult⟩ := exists_of_isOk hends
  exact ⟨result, hresult, assemble_describes_files hresult⟩

end Assembly
end Joinery
