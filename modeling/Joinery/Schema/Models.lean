import Joinery.Assembly.Result
import Joinery.Schema.Decode
import Joinery.WorkOrder

/-!
# The form of records

## Work orders, diagnostics, results and events as data

Each record is read from a mapping with a field for each of its parts.  Fields that
are not known are passed over.
-/

namespace Joinery

open Decode

namespace FileAction

def words : List (String × FileAction) :=
  [("create", .create), ("modify", .modify), ("delete", .delete)]

end FileAction

namespace FileOperation

def decode : Decoder FileOperation :=
  model "WorkOrderFile" fun fields =>
    FileOperation.mk <$> required fields "path" string
      <*> required fields "action" (enumeration FileAction.words)
      <*> defaulted fields "content" none (nullable string)
      <*> defaulted fields "description" none (nullable string)

end FileOperation

namespace WorkOrder

def decode : Decoder WorkOrder :=
  model "WorkOrder" fun fields =>
    WorkOrder.mk <$> required fields "id" string
      <*> defaulted fields "title" "" string
      <*> defaulted fields "description" "" string
      <*> defaulted fields "files" [] (Decode.list FileOperation.decode)
      <*> defaulted fields "order" none (nullable integer)
      <*> defaulted fields "phase" none (nullable string)
      <*> defaulted fields "dependencies" [] (Decode.list string)

end WorkOrder

namespace Severity

def words : List (String × Severity) :=
  [("error", .error), ("warning", .warning)]

end Severity

namespace Diagnostic

def decode : Decoder Diagnostic :=
  model "Diagnostic" fun fields =>
    Diagnostic.mk <$> required fields "file" string
      <*> defaulted fields "line" 0 integer
      <*> required fields "message" string
      <*> required fields "severity" (enumeration Severity.words)
      <*> defaulted fields "fixable" false bool

end Diagnostic

namespace PhaseStatus

def words : List (String × PhaseStatus) :=
  [("success", .success), ("partial", .incomplete), ("failed", .failed)]

end PhaseStatus

namespace PhaseResult

def decode : Decoder PhaseResult :=
  model "PhaseResult" fun fields =>
    PhaseResult.mk <$> required fields "phase" string
      <*> required fields "status" (enumeration PhaseStatus.words)
      <*> defaulted fields "files_processed" 0 integer
      <*> defaulted fields "errors" [] (Decode.list Diagnostic.decode)

end PhaseResult

namespace Stats

def decode : Decoder Stats :=
  model "AssemblyStats" fun fields =>
    Stats.mk <$> defaulted fields "total_files" 0 integer
      <*> defaulted fields "files_created" 0 integer
      <*> defaulted fields "files_modified" 0 integer
      <*> defaulted fields "files_deleted" 0 integer
      <*> defaulted fields "missing_files_generated" 0 integer
      <*> defaulted fields "validation_passes" 0 integer
      <*> defaulted fields "errors_fixed" 0 integer
      <*> defaulted fields "time_ms" ({} : Stats).timeMs real

end Stats

namespace AssemblyResult

def decode : Decoder AssemblyResult :=
  model "AssemblyResult" fun fields =>
    AssemblyResult.mk <$> required fields "success" bool
      <*> required fields "project_id" string
      <*> (defaulted fields "files" [] (mappingOf string)).map Table.ofList
      <*> defaulted fields "dependencies" [] (Decode.list string)
      <*> defaulted fields "validation_errors" [] (Decode.list Diagnostic.decode)
      <*> defaulted fields "stats" {} Stats.decode
      <*> defaulted fields "phases" [] (Decode.list PhaseResult.decode)

end AssemblyResult

namespace FileActivity

def words : List (String × FileActivity) :=
  [("create", .applied .create), ("modify", .applied .modify), ("delete", .applied .delete),
    ("validate", .validated)]

end FileActivity

namespace Event

def kind : Event -> String
  | .phaseStart .. => "phase_start"
  | .phaseComplete .. => "phase_complete"
  | .fileProcessed .. => "file_processed"
  | .validationPass .. => "validation_pass"
  | .dependencyExtracted .. => "dependency_extracted"
  | .missingFileGenerated .. => "missing_file_generated"
  | .error .. => "error"

def tagged (name : String) (fields : Fields) (rest : Decoded Event) : Decoded Event :=
  (Decoded.both (defaulted fields "type" () (literal [(name, ())])) rest).map (·.2)

def decode (name : String) (fields : Fields) : Option (Decoded Event) :=
  let body : Option (Decoded Event) :=
    match name with
    | "phase_start" => some (phaseStart <$> required fields "phase" string)
    | "phase_complete" =>
        some
          (phaseComplete <$> required fields "phase" string
            <*> required fields "status" (enumeration PhaseStatus.words))
    | "file_processed" =>
        some
          (fileProcessed <$> required fields "path" string
            <*> required fields "action" (literal FileActivity.words))
    | "validation_pass" =>
        some
          (validationPass <$> required fields "pass_number" integer
            <*> required fields "errors" integer
            <*> defaulted fields "warnings" 0 integer)
    | "dependency_extracted" =>
        some (dependencyExtracted <$> required fields "count" integer)
    | "missing_file_generated" =>
        some (missingFileGenerated <$> required fields "path" string)
    | "error" => some (error <$> required fields "message" string)
    | _ => none
  body.map (tagged name fields)

end Event
end Joinery
