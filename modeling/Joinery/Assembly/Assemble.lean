import Joinery.Assembly.Repair
import Joinery.Dependencies
import Joinery.FileSet.Plurals
import Joinery.Locks

/-!
# Assembling a project

## From work orders to a result

An assembly applies the work orders phase by phase and validates the files after
each phase, lists the external packages, and then validates and repairs the files.
A deadline is looked at before each phase; a phase that it overtakes is skipped.
-/

namespace Joinery

structure Progress where
  files : FileSet
  phases : List PhaseResult := []
  /-- the validation of the files, if it still describes them -/
  report : Option Report := none
  dependencies : List String := []
  generated : Nat := 0
  passes : Nat := 0
  errorsFixed : Nat := 0

namespace Progress

def addPhase (p : Progress) (phase : PhaseResult) : Progress :=
  { p with phases := p.phases ++ [phase] }

end Progress

namespace Assembly

def dependencyLabel : String :=
  "extract_dependencies"

def validationLabel : String :=
  "validation"

def statusOf (report : Report) : PhaseStatus :=
  if report.passes then .success else .incomplete

def skip (company : Company ε) (label : String) (p : Progress) : Run ε Progress := do
  Run.emit company (.error ("Deadline passed before phase " ++ label))
  pure (p.addPhase { phase := label, status := .failed })

def unlessLate (company : Company ε) (request : AssemblyRequest) (label : String)
    (p : Progress) (phase : Run ε Progress) : Run ε Progress := do
  if <- Run.deadlinePassed request.deadline then skip company label p else phase

def reportOn (config : Config) (request : AssemblyRequest) (files : Table String) : Report :=
  (request.validator config files).validate files

def applyPhase (company : Company ε) (config : Config) (request : AssemblyRequest)
    (group : PhaseGroup) (p : Progress) : Run ε Progress :=
  unlessLate company request group.label p do
    Run.emit company (.phaseStart group.label)
    let (files, count) <- Run.applyOrders company p.files 0 group.orders
    let report := reportOn config request files.files
    let status := statusOf report
    Run.emit company (.phaseComplete group.label status)
    pure
      ({ p with files := files, report := some report }.addPhase
        { phase := group.label
          status := status
          filesProcessed := count
          diagnostics := report.diagnostics })

def applyPhases (company : Company ε) (config : Config) (request : AssemblyRequest) :
    List PhaseGroup -> Progress -> Run ε Progress
  | [], p => pure p
  | group :: rest, p => do
      let next <- applyPhase company config request group p
      applyPhases company config request rest next

def dropPlurals (company : Company ε) (config : Config) (options : Options) (p : Progress) :
    Run ε Progress := do
  if options.deduplicatePlurals then
    let (files, removed) := p.files.removePlurals config.resolver.extensions
    Run.emitAll company (removed.map fun path => .fileProcessed path (.applied .delete))
    pure { p with files := files, report := if removed.isEmpty then p.report else none }
  else pure p

def dependencyPhase (company : Company ε) (config : Config) (request : AssemblyRequest)
    (options : Options) (p : Progress) : Run ε Progress := do
  if options.extractDependencies then
    unlessLate company request dependencyLabel p do
      Run.emit company (.phaseStart dependencyLabel)
      let resolver := config.resolverFor request.aliases p.files.files
      let modules := scanAll resolver p.files.files
      let packages := Dependencies.packages resolver modules
      Run.emit company (.dependencyExtracted packages.length)
      Run.emit company (.phaseComplete dependencyLabel .success)
      pure
        ({ p with dependencies := packages }.addPhase
          { phase := dependencyLabel, status := .success, filesProcessed := modules.size })
  else pure p

def validationPhase (company : Company ε) (config : Config) (request : AssemblyRequest)
    (options : Options) (p : Progress) : Run ε Progress := do
  if options.validateImports || options.validateExports then
    unlessLate company request validationLabel p do
      Run.emit company (.phaseStart validationLabel)
      let mended <- Repair.allPasses company config request p.files
      let report := mended.report
      let state := mended.state
      let status := statusOf report
      Run.emit company (.phaseComplete validationLabel status)
      let dependencies :=
        if options.extractDependencies && state.repaired then
          Dependencies.packages (config.resolverFor request.aliases state.files.files)
            report.modules
        else p.dependencies
      pure
        ({ p with
            files := state.files
            report := some report
            dependencies := dependencies
            generated := state.generated
            passes := state.pass
            errorsFixed := state.errorsFixed }.addPhase
          { phase := validationLabel
            status := status
            filesProcessed := state.files.size
            diagnostics := report.diagnostics })
  else pure p

def resultOf (config : Config) (request : AssemblyRequest) (p : Progress) : AssemblyResult :=
  let report := p.report.getD (reportOn config request p.files.files)
  { success := report.passes
    projectId := request.projectId
    files := p.files.files
    dependencies := p.dependencies
    diagnostics := report.diagnostics
    stats :=
      { totalFiles := p.files.size
        filesCreated := p.files.counts.created
        filesModified := p.files.counts.modified
        filesDeleted := p.files.counts.deleted
        missingFilesGenerated := p.generated
        validationPasses := p.passes
        errorsFixed := p.errorsFixed }
    phases := p.phases }

def run (company : Company ε) (config : Config) (request : AssemblyRequest) :
    Run ε AssemblyResult := do
  let options := request.optionsIn config
  match FileSet.seed options.strictContent request.existing with
  | .error e => Run.fail (.input e)
  | .ok files =>
      let groups := PhaseGroup.group request.workOrders (request.phases.getD config.phases)
      let applied <- applyPhases company config request groups { files := files }
      let single <- dropPlurals company config options applied
      let listed <- dependencyPhase company config request options single
      let validated <- validationPhase company config request options listed
      pure (resultOf config request validated)

inductive Error (ε : Type) where
  /-- the project is being assembled already -/
  | concurrent (projectId : String)
  | failed (failure : Failure ε)
deriving DecidableEq, Repr

structure Outcome (ε : Type) where
  result : Except (Error ε) AssemblyResult
  log : Log
  locks : Locks

def assemble (company : Company ε) (config : Config) (locks : Locks) (request : AssemblyRequest) :
    Outcome ε :=
  match locks.acquire request.projectId with
  | none => { result := .error (.concurrent request.projectId), log := {}, locks := locks }
  | some held =>
      let (log, result) := run company config request {}
      { result := result.mapError .failed
        log := log
        locks := held.release request.projectId }

end Assembly
end Joinery
