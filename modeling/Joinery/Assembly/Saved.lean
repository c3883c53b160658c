import Joinery.Assembly.Result
import Joinery.Json.Printer
import Joinery.Json.Reader
import Joinery.Obstacle
import Joinery.Schema.Models

/-!
# Saved results

## A result as a JSON text, and back

A result is written with its keys in order and two spaces of indentation for each level.
Reading it again gives the same result, the files in the order of their paths.
-/

namespace Joinery

open Config (mapping tableValue)

namespace Diagnostic

def toValue (d : Diagnostic) : Value :=
  mapping
    [("file", .text d.file), ("line", .int d.line), ("message", .text d.message),
      ("severity", .text d.severity.text), ("fixable", .bool d.fixable)]

end Diagnostic

namespace PhaseResult

def toValue (p : PhaseResult) : Value :=
  mapping
    [("phase", .text p.phase), ("status", .text p.status.text),
      ("files_processed", .int p.filesProcessed),
      ("errors", .list (p.diagnostics.map Diagnostic.toValue))]

end PhaseResult

namespace Stats

def toValue (s : Stats) : Value :=
  mapping
    [("total_files", .int s.totalFiles), ("files_created", .int s.filesCreated),
      ("files_modified", .int s.filesModified), ("files_deleted", .int s.filesDeleted),
      ("missing_files_generated", .int s.missingFilesGenerated),
      ("validation_passes", .int s.validationPasses), ("errors_fixed", .int s.errorsFixed),
      ("time_ms", .real s.timeMs)]

end Stats

namespace AssemblyResult

def toValue (r : AssemblyResult) : Value :=
  mapping
    [("success", .bool r.success), ("project_id", .text r.projectId),
      ("files", tableValue r.files), ("dependencies", .list (r.dependencies.map .text)),
      ("validation_errors", .list (r.diagnostics.map Diagnostic.toValue)),
      ("stats", r.stats.toValue), ("phases", .list (r.phases.map PhaseResult.toValue))]

def sorted (r : AssemblyResult) : AssemblyResult :=
  { r with files := .ofList r.files.sortedEntries }

def savedText? (r : AssemblyResult) : Option String :=
  let v := r.toValue
  if Json.isWritable v then some (Json.indented 0 (Json.sortKeys v)) else none

def ofText (text : String) : Except Obstacle AssemblyResult :=
  match Json.parse .rounded text.toList with
  | none => .error .notJson
  | some v => (decode v).toExcept.mapError .invalid

def save (d : Disk) (l : Location) (r : AssemblyResult) : Disk.Changed Obstacle Unit :=
  ((d.writeWithin l ByteArray.empty).mapError .disk).andThen fun opened _ =>
    match r.savedText? with
    | none => { disk := opened, outcome := .error .wideInteger }
    | some text => (opened.after (opened.write l (Utf8.encode text))).mapError .disk

def load (d : Disk) (l : Location) : Except Obstacle AssemblyResult := do
  let bytes <- (d.read l).mapError .disk
  match Utf8.decode bytes with
  | .error _ => .error .notJson
  | .ok text => ofText text

end AssemblyResult
end Joinery
