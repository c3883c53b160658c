import Joinery.WorkOrder

/-!
# Events of an assembly

## What a run tells its listener

A run reports the start and the end of each phase, every file operation, each
validation pass and what goes wrong on the way.
-/

namespace Joinery

/-- How a phase ended; a phase that leaves errors behind is incomplete. -/
inductive PhaseStatus where
  | success
  | incomplete
  | failed
deriving DecidableEq, Repr

namespace PhaseStatus

def text : PhaseStatus -> String
  | .success => "success"
  | .incomplete => "partial"
  | .failed => "failed"

end PhaseStatus

inductive FileActivity where
  | applied (action : FileAction)
  | validated
deriving DecidableEq, Repr

namespace FileActivity

def text : FileActivity -> String
  | .applied action => action.text
  | .validated => "validate"

end FileActivity

inductive Event where
  | phaseStart (phase : String)
  | phaseComplete (phase : String) (status : PhaseStatus)
  | fileProcessed (path : String) (activity : FileActivity)
  | validationPass (pass errors warnings : Int)
  | dependencyExtracted (count : Int)
  | missingFileGenerated (path : String)
  | error (message : String)
deriving DecidableEq, Repr

end Joinery
