import Joinery.Proofs.Assembly.Passes
import Joinery.Proofs.Assembly.Unaided
import Joinery.Proofs.FileSet.Stable
import Joinery.Proofs.Validation.Depth
import Joinery.QuickCheck

/-!
# Quick validations and assemblies

## One look and a whole run

A quick validation looks at the files of a project under the aliases and the extensions of
its configuration, but always at depth one.  An assembly that has nothing to write looks
at the same files at the depth that is configured.  It finds the same warnings, and of the
errors those that stay when star re-exports are followed so far.
-/

namespace Joinery

open Assembly

variable {ε : Type} {company : Company ε} {config : Config} {request : AssemblyRequest}
  {files : Table String}

theorem Config.make_resolverFor (config : Config) (given : Option (Table String))
    (files : Table String) :
    Resolver.make (some (config.resolverFor given files).aliases)
      (config.resolverFor given files).extensions = config.resolverFor given files := by
  unfold Config.resolverFor Resolver.make
  cases config.resolver.extensions <;> rfl

def quickValidator (resolver : Resolver) : Validator :=
  { resolver := resolver }

theorem validator_inspects (hinspects : request.Inspects config files) (snapshot : Table String) :
    request.validator config snapshot =
      (quickValidator (config.resolverFor none snapshot)).atDepth
        config.resolver.reexportDepth := by
  unfold AssemblyRequest.validator Config.validatorFor
  rw [hinspects.aliases, hinspects.imports, hinspects.exports]
  rfl

theorem check_eq {s : FileSet}
    (hseed : FileSet.seed false (files.entries.map fun entry => (entry.1, some entry.2)) = .ok s)
    (config : Config) :
    QuickResult.check (files.entries.map fun entry => (entry.1, some entry.2))
        (some (config.resolverFor none files).aliases) (config.resolverFor none files).extensions =
      .ok
        { diagnostics :=
            ((quickValidator (config.resolverFor none files)).validate s.files).diagnostics
          fileCount := s.size
          importCount :=
            ((quickValidator (config.resolverFor none files)).validate s.files).importCount } := by
  unfold QuickResult.check
  rw [hseed]
  dsimp only
  rw [Config.make_resolverFor]
  rfl

theorem check_of_error {e : InputError}
    (hseed : FileSet.seed false (files.entries.map fun entry => (entry.1, some entry.2)) = .error e)
    (aliases : Option (Table String)) (extensions : List String) :
    QuickResult.check (files.entries.map fun entry => (entry.1, some entry.2)) aliases extensions =
      .error e := by
  unfold QuickResult.check
  rw [hseed]

theorem QuickResult.valid_iff (r : QuickResult) :
    r.valid = true <-> r.diagnostics.filter Diagnostic.isError = [] := by
  simp [QuickResult.valid, List.filter_eq_nil_iff]

def missedBy (config : Config) (files : Table String) : List MissingExport :=
  ((quickValidator (config.resolverFor none files)).validate files).missingExports

def exportedBy (config : Config) (files : Table String) (m : MissingExport) : Bool :=
  (quickValidator (config.resolverFor none files)).findsAt config.resolver.reexportDepth files m

/-- What an assembly finds of the findings of a quick validation. -/
structure Refines (config : Config) (r : QuickResult) (result : AssemblyResult) : Prop where
  diagnostics : result.diagnostics.Sublist r.diagnostics
  warnings : result.warnings = r.diagnostics.filter Diagnostic.isWarning
  missed :
    r.diagnostics.filter Diagnostic.isError =
      (missedBy config result.files).map MissingExport.diagnostic
  errors :
    result.errors =
      ((missedBy config result.files).filter fun m => !exportedBy config result.files m).map
        MissingExport.diagnostic
  valid_iff : r.valid = true <-> missedBy config result.files = []
  success_iff :
    result.success = true <->
      forall m, m ∈ missedBy config result.files -> exportedBy config result.files m = true
  same_iff :
    result.diagnostics = r.diagnostics <->
      forall m, m ∈ missedBy config result.files -> exportedBy config result.files m = false
  same_of_depth : config.resolver.reexportDepth ≤ 1 ->
    result.diagnostics = r.diagnostics ∧ result.success = r.valid

theorem refines_of_describes (hinspects : request.Inspects config files) {r : QuickResult}
    {result : AssemblyResult} (hdescribes : Describes config request result)
    (hcheck : r.diagnostics =
      ((quickValidator (config.resolverFor none result.files)).validate result.files).diagnostics) :
    Refines config r result := by
  have hreport : reportOn config request result.files =
      ((quickValidator (config.resolverFor none result.files)).atDepth
        config.resolver.reexportDepth).validate result.files := by
    unfold reportOn
    rw [validator_inspects hinspects]
  have hdepth : (quickValidator (config.resolverFor none result.files)).depth - 1 ≤
      config.resolver.reexportDepth - 1 := Nat.zero_le _
  have hmissed : r.diagnostics.filter Diagnostic.isError =
      (missedBy config result.files).map MissingExport.diagnostic := by
    rw [hcheck]
    exact Validator.errors_eq _ _
  have herrors : result.diagnostics.filter Diagnostic.isError =
      ((missedBy config result.files).filter fun m => !exportedBy config result.files m).map
        MissingExport.diagnostic := by
    rw [hdescribes.diagnostics, hreport]
    exact Validator.errors_deeper hdepth _
  have hsuccess : result.success = true <-> result.diagnostics.filter Diagnostic.isError = [] := by
    rw [hdescribes.success, hdescribes.diagnostics]
    exact List.isEmpty_iff
  refine ⟨?_, ?_, hmissed, herrors, ?_, ?_, ?_, ?_⟩
  · rw [hdescribes.diagnostics, hreport, hcheck]
    exact Validator.diagnostics_deeper_sublist hdepth _
  · unfold AssemblyResult.warnings
    rw [hdescribes.diagnostics, hreport, hcheck]
    exact Validator.warnings_deeper _ _ _
  · rw [QuickResult.valid_iff, hmissed, List.map_eq_nil_iff]
  · rw [hsuccess, herrors, List.map_eq_nil_iff, List.filter_eq_nil_iff]
    simp only [Bool.not_eq_true', Bool.not_eq_false]
  · rw [hdescribes.diagnostics, hreport, hcheck]
    exact Validator.diagnostics_deeper_eq_iff hdepth _
  · intro hone
    have hsame : result.diagnostics = r.diagnostics := by
      rw [hdescribes.diagnostics, hreport, hcheck]
      exact Validator.diagnostics_of_depth_le_one (Nat.le_refl 1) hone _
    refine ⟨hsame, ?_⟩
    rw [Bool.eq_iff_iff, hsuccess, QuickResult.valid_iff, hsame]

/--
An assembly that has nothing to write refuses the files that a quick validation under its
configuration refuses, and for the same reason.  Of all other files it finds, if the project's own
aliases are found among the files as they are kept, the same warnings, and of the errors those that
are left when star re-exports are followed up to the configured depth.
-/
theorem assemble_refines_check (hcompany : company.Unaided)
    (hinspects : request.Inspects config files) {locks : Locks}
    (hfree : locks.isLocked request.projectId = false) :
    match QuickResult.check (files.entries.map fun entry => (entry.1, some entry.2))
      (some (config.resolverFor none files).aliases) (config.resolverFor none files).extensions with
    | .error e => (assemble company config locks request).result = .error (.failed (.input e))
    | .ok r => exists result, (assemble company config locks request).result = .ok result ∧
        r.fileCount = result.files.size ∧ (Keyed files -> result.files = files) ∧
        (config.aliasesFor none result.files = config.aliasesFor none files ->
          Refines config r result) := by
  cases hseed : FileSet.seed false (files.entries.map fun entry => (entry.1, some entry.2)) with
  | error e =>
      rw [check_of_error hseed]
      exact assemble_inspects_of_error hinspects hseed hfree
  | ok s =>
      rw [check_eq hseed config]
      obtain ⟨result, hresult, hfiles, hdescribes⟩ :=
        assemble_inspects hcompany hinspects hseed hfree
      refine ⟨result, hresult, ?_, ?_, ?_⟩
      · rw [hfiles]
        rfl
      · intro hkeyed
        rw [FileSet.seed_entries hkeyed.canonical hkeyed.nonempty] at hseed
        cases hseed
        exact hfiles
      · intro haliases
        refine refines_of_describes hinspects hdescribes ?_
        have hresolver : config.resolverFor none result.files = config.resolverFor none files := by
          unfold Config.resolverFor
          rw [haliases]
        rw [hresolver, hfiles]

/-- Star re-exports are followed by one step. -/
def followingConfig : Config :=
  { resolver := { reexportDepth := 2 } }

def inspection (files : Table String) : AssemblyRequest :=
  { projectId := "p"
    existing := files.entries.map fun entry => (entry.1, some entry.2)
    options := some { autoFixExports := false, maxPasses := 5, extractDependencies := false }
    deadline := some fun look => decide (3 ≤ look) }

def barrelFiles : Table String where
  entries :=
    [("src/t.ts", "export const x = 1\n"), ("src/b.ts", "export * from './t'\n"),
      ("src/a.ts", "import \x7b x, y \x7d from './b'\nimport z from './gone'\n")]

theorem assemble_refines_check_barrel :
    let resolver := followingConfig.resolverFor none barrelFiles
    (Company.silent : Company Unit).Unaided ∧
      (inspection barrelFiles).Inspects followingConfig barrelFiles ∧
      (({} : Locks).isLocked (inspection barrelFiles).projectId = false) ∧
      exists r result,
        QuickResult.check (barrelFiles.entries.map fun entry => (entry.1, some entry.2))
          (some resolver.aliases) resolver.extensions = .ok r ∧
        (assemble (Company.silent : Company Unit) followingConfig {}
          (inspection barrelFiles)).result = .ok result ∧
        Refines followingConfig r result ∧ r.diagnostics.length = 3 ∧
        result.diagnostics.length = 2 := by
  intro resolver
  have hcompany : (Company.silent : Company Unit).Unaided := ⟨rfl, rfl, fun _ => rfl⟩
  have hinspects : (inspection barrelFiles).Inspects followingConfig barrelFiles :=
    ⟨rfl, rfl, rfl, rfl, rfl, rfl, rfl⟩
  have hfree : ({} : Locks).isLocked (inspection barrelFiles).projectId = false := rfl
  have hkeyed : Keyed barrelFiles := ⟨by decide, by decide⟩
  have hfound : (QuickResult.check (barrelFiles.entries.map fun entry => (entry.1, some entry.2))
      (some resolver.aliases) resolver.extensions).toOption.map (·.diagnostics.length) =
        some 3 := by
    decide +kernel
  have hleft : (assemble (Company.silent : Company Unit) followingConfig {}
      (inspection barrelFiles)).result.toOption.map (·.diagnostics.length) = some 2 := by
    decide +kernel
  obtain ⟨r, hcheck, hthree⟩ := exists_of_toOption_map hfound
  have h := assemble_refines_check hcompany hinspects hfree
  rw [hcheck] at h
  obtain ⟨result, hresult, -, hfiles, hrefines⟩ := h
  rw [hresult] at hleft
  exact ⟨hcompany, hinspects, hfree, r, result, hcheck, hresult, hrefines (by rw [hfiles hkeyed]),
    hthree, Option.some.inj hleft⟩

/-- The only name that is asked for comes through a barrel. -/
def passedOnFiles : Table String where
  entries :=
    [("src/t.ts", "export const x = 1\n"), ("src/b.ts", "export * from './t'\n"),
      ("src/a.ts", "import \x7b x \x7d from './b'\n")]

/-- A project file under a key that is not in canonical form. -/
def dottedFiles : Table String where
  entries :=
    [("./tsconfig.json",
        "\x7b\"compilerOptions\": \x7b\"paths\": \x7b\"lib/*\": [\"src/*\"]\x7d\x7d\x7d"),
      ("src/b.ts", "export const x = 1\n"), ("src/a.ts", "import \x7b y \x7d from 'lib/b'\n")]

def verdicts (config : Config) (files : Table String) : Option Bool × Option Bool :=
  let resolver := config.resolverFor none files
  ((QuickResult.check (files.entries.map fun entry => (entry.1, some entry.2))
      (some resolver.aliases) resolver.extensions).toOption.map (·.valid),
    (assemble (Company.silent : Company Unit) config {}
      (inspection files)).result.toOption.map (·.success))

/-- Both verdicts may differ, in one direction by the depth and in the other one by the aliases. -/
theorem verdicts_differ :
    verdicts followingConfig passedOnFiles = (some false, some true) ∧
      verdicts {} dottedFiles = (some true, some false) := by
  constructor <;> decide +kernel

end Joinery
