import Joinery.Assembly.Event
import Joinery.Table
import Joinery.Validation.Diagnostic
import Joinery.Value.Binary64

/-!
# Results of an assembly

## Files, verdict and account

A result holds the files that were put together, what is still wrong with them, how
each phase went and how often each kind of operation took place.
-/

namespace Joinery

structure PhaseResult where
  phase : String
  status : PhaseStatus
  filesProcessed : Int := 0
  diagnostics : List Diagnostic := []
deriving DecidableEq, Repr

namespace PhaseResult

def errorCount (p : PhaseResult) : Nat :=
  (p.diagnostics.filter Diagnostic.isError).length

end PhaseResult

structure Stats where
  totalFiles : Int := 0
  filesCreated : Int := 0
  filesModified : Int := 0
  filesDeleted : Int := 0
  missingFilesGenerated : Int := 0
  validationPasses : Int := 0
  errorsFixed : Int := 0
  timeMs : Binary64 := .finite false 0 Binary64.leastExponent
deriving DecidableEq, Repr

structure AssemblyResult where
  success : Bool
  projectId : String
  files : Table String := Table.empty
  dependencies : List String := []
  diagnostics : List Diagnostic := []
  stats : Stats := {}
  phases : List PhaseResult := []
deriving DecidableEq, Repr

namespace AssemblyResult

def errors (r : AssemblyResult) : List Diagnostic :=
  r.diagnostics.filter Diagnostic.isError

def warnings (r : AssemblyResult) : List Diagnostic :=
  r.diagnostics.filter Diagnostic.isWarning

end AssemblyResult
end Joinery
