import Joinery.Assembly.Result
import Joinery.MissingFile
import Joinery.Obstacle
import Joinery.QuickCheck

/-!
# The console

## What commands print

A command prints lines with marks for colours, tables and framed texts.  Each kind of
event has its line, or none.
-/

namespace Joinery

inductive Printed where
  | line (markup : String)
  | table (title : String) (columns : List String) (rows : List (List String))
  | panel (text title border : String)
  /-- where an obstacle was met -/
  | trace (obstacle : Obstacle)
deriving DecidableEq, Repr

namespace Printed

def coloured (colour text : String) : String :=
  "[" ++ colour ++ "]" ++ text ++ "[/" ++ colour ++ "]"

def statusColour : PhaseStatus -> String
  | .success => "green"
  | .incomplete => "yellow"
  | .failed => "red"

def ofEvent : Event -> List Printed
  | .phaseStart phase => [.line (coloured "cyan" ("▶ " ++ phase))]
  | .phaseComplete _ status => [.line ("  " ++ coloured (statusColour status) status.text)]
  | .dependencyExtracted count => [.line ("  " ++ toString count ++ " dependencies")]
  | .validationPass pass errors warnings =>
      [.line ("  pass " ++ toString pass ++ ": " ++ toString errors ++ " errors, " ++
        toString warnings ++ " warnings")]
  | .error message => [.line ("  " ++ coloured "red" message)]
  | .fileProcessed _ _ => []
  | .missingFileGenerated _ => []

def severityColour : Severity -> String
  | .error => "red"
  | .warning => "yellow"

def diagnosticsTable (diagnostics : List Diagnostic) : Printed :=
  .table "Diagnostics" ["Severity", "File", "Line", "Message"]
    (diagnostics.map fun d =>
      [coloured (severityColour d.severity) d.severity.text, d.file, toString d.line, d.message])

def joinedOr (nothing : String) (texts : List String) : String :=
  let joined := ", ".intercalate texts
  if joined.isEmpty then nothing else joined

def missingTable (missing : List MissingFile) : Printed :=
  .table "Missing Files" ["Path", "Required Exports", "Imported By"]
    (missing.map fun info =>
      [info.suggestedPath,
        joinedOr "-" info.requiredExports,
        "\n".intercalate info.importedBy])

def wholeText : Binary64 -> String
  | .finite negative significand exponent =>
      let (num, den) := Binary64.scaled 2 significand 1 exponent
      (if negative then "-" else "") ++ toString (Binary64.roundHalfEven num den)
  | .infinite negative => if negative then "-inf" else "inf"
  | .undefined => "nan"

def summary (r : AssemblyResult) : List String :=
  let stats := r.stats
  let entry (label text : String) : String := coloured "bold cyan" (label ++ ":") ++ " " ++ text
  let status :=
    if r.success then coloured "bold green" "success" else coloured "bold red" "failed"
  let count (n : Int) (word : String) : String := toString n ++ " " ++ word
  [entry "Project" r.projectId,
    entry "Status" status,
    entry "Files" (toString stats.totalFiles ++ " (" ++
      ", ".intercalate
        [count stats.filesCreated "created", count stats.filesModified "modified",
          count stats.filesDeleted "deleted"] ++ ")"),
    entry "Validation passes"
      (toString stats.validationPasses ++ " (" ++ count stats.errorsFixed "errors fixed" ++ ")"),
    entry "Dependencies" (joinedOr "none" r.dependencies),
    entry "Time" (wholeText stats.timeMs ++ "ms")]

def ofResult (r : AssemblyResult) : List Printed :=
  .panel ("\n".intercalate (summary r)) "Assembly Result"
      (if r.success then "bold green" else "bold red") ::
    (if r.diagnostics.isEmpty then [] else [diagnosticsTable r.diagnostics])

def verdict (r : QuickResult) : Printed :=
  let errors := (r.diagnostics.filter Diagnostic.isError).length
  let counts :=
    toString r.fileCount ++ " files, " ++ toString r.importCount ++ " internal imports, " ++
      toString errors ++ " errors"
  if r.valid then .line ("\n" ++ coloured "green" "✓" ++ " Valid: " ++ counts)
  else .line ("\n" ++ coloured "red" "✗" ++ " Invalid: " ++ counts)

def done (text : String) : Printed :=
  .line (coloured "green" "✓" ++ " " ++ text)

/-!
## Plain text
-/

def marks : List (List Char) :=
  ["cyan", "green", "yellow", "red", "bold cyan", "bold green", "bold red"].flatMap fun colour =>
    [("[" ++ colour ++ "]").toList, ("[/" ++ colour ++ "]").toList]

def unmarked (skip : Nat) : List Char -> List Char
  | [] => []
  | c :: rest =>
      match skip with
      | skip + 1 => unmarked skip rest
      | 0 =>
          match marks.find? fun mark => mark.isPrefixOf (c :: rest) with
          | some mark => unmarked (mark.length - 1) rest
          | none => c :: unmarked 0 rest

def plainLine (text : String) : String :=
  String.ofList (unmarked 0 text.toList)

def plain : Printed -> List String
  | .line markup => [plainLine markup]
  | .table title columns rows =>
      title :: (columns :: rows).map fun row => "  ".intercalate (row.map plainLine)
  | .panel text title _ => [title, plainLine text]
  | .trace obstacle => [obstacle.message]

end Printed
end Joinery
