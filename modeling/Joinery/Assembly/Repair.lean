import Joinery.Assembly.Result
import Joinery.Assembly.Run

/-!
# Validation and repair

## Passes that find and mend

A pass validates the files as they are.  If something is missing that a
collaborator may write, or an error is left that may be repaired, the work orders of
the collaborators are applied and another pass follows, up to a limit.
-/

namespace Joinery

structure AssemblyRequest where
  projectId : String
  workOrders : List WorkOrder := []
  projectName : String := ""
  existing : List (String × Option String) := []
  options : Option Options := none
  phases : Option (List String) := none
  aliases : Option (Table String) := none
  /-- has the deadline passed when the clock is looked at for the n-th time? -/
  deadline : Option (Nat -> Bool) := none

namespace AssemblyRequest

def optionsIn (request : AssemblyRequest) (config : Config) : Options :=
  request.options.getD config.options

def validator (request : AssemblyRequest) (config : Config) (files : Table String) : Validator :=
  config.validatorFor (config.resolverFor request.aliases files) (request.optionsIn config)

end AssemblyRequest

structure RepairState where
  files : FileSet
  pass : Nat := 0
  /-- the errors of the last pass -/
  previous : Option (List DiagnosticKey) := none
  errorsFixed : Nat := 0
  generated : Nat := 0
  /-- some work orders were applied -/
  repaired : Bool := false

structure Repaired where
  state : RepairState
  report : Report

namespace Repair

/-- The number of errors that a pass no longer finds. -/
def fixedCount (previous : Option (List DiagnosticKey)) (current : List DiagnosticKey) : Nat :=
  match previous with
  | none => 0
  | some old => (old.eraseDups.filter fun key => !current.contains key).length

def fixesFor (company : Company ε) (options : Options) (request : FixRequest) :
    Run ε (List WorkOrder) :=
  match company.fixes with
  | some given => Run.askFixes given request
  | none => pure (if options.autoFixExports then ExportFix.ordersFor request else [])

def generatorFor (company : Company ε) (options : Options) :
    Option (Nat -> List MissingFile -> Table String -> Except ε (List WorkOrder)) :=
  if options.generateMissingFiles then company.generate else none

def generatedEvents (orders : List WorkOrder) : List Event :=
  orders.flatMap fun order =>
    (order.files.filter fun op => op.action ≠ .delete).map fun op =>
      .missingFileGenerated op.path

def collect (company : Company ε) (options : Options) (pass : Nat) (files : Table String)
    (report : Report) (missing : List MissingFile) : Run ε (List WorkOrder × List WorkOrder) := do
  let generated <-
    match generatorFor company options with
    | none => pure []
    | some generate => if missing.isEmpty then pure [] else Run.askMissing generate missing files
  let fixes <-
    if report.passes then pure []
    else
      fixesFor company options
        { pass := pass
          errors := report.errors
          missingExports := report.missingExports
          files := files
          missingFiles := missing }
  pure (generated, fixes)

def applyCollected (company : Company ε) (state : RepairState)
    (generated fixes : List WorkOrder) : Run ε RepairState := do
  let (written, _) <- Run.applyOrders company state.files 0 generated
  Run.emitAll company (generatedEvents generated)
  let (mended, _) <- Run.applyOrders company written 0 fixes
  pure
    { state with
        files := mended
        generated := state.generated + (written.counts.created - state.files.counts.created)
        repaired := true }

def observe (state : RepairState) (report : Report) : RepairState :=
  let current := report.errors.map Diagnostic.key
  { state with
      pass := state.pass + 1
      previous := some current
      errorsFixed := state.errorsFixed + fixedCount state.previous current }

def passes (company : Company ε) (config : Config) (request : AssemblyRequest) :
    Nat -> RepairState -> Run ε Repaired
  | left, start => do
      let options := request.optionsIn config
      let files := start.files.files
      let validator := request.validator config files
      let report := validator.validate files
      let state := observe start report
      Run.emit company
        (.validationPass state.pass report.errors.length report.warnings.length)
      let missing :=
        if (generatorFor company options).isSome then
          MissingFile.find validator.resolver report.unresolved
        else []
      let finished : Repaired := { state := state, report := report }
      if report.passes && missing.isEmpty then pure finished
      else
        match left with
        | 0 => pure finished
        | left + 1 => do
            if <- Run.deadlinePassed request.deadline then pure finished
            else
              let (generated, fixes) <- collect company options state.pass files report missing
              if generated.isEmpty && fixes.isEmpty then pure finished
              else
                let next <- applyCollected company state generated fixes
                passes company config request left next

def allPasses (company : Company ε) (config : Config) (request : AssemblyRequest)
    (files : FileSet) : Run ε Repaired :=
  passes company config request ((request.optionsIn config).maxPasses - 1) { files := files }

end Repair
end Joinery
