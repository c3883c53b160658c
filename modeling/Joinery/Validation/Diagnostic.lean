/-!
# Diagnostics

## Problems found in a file set

A diagnostic names a file, a line and what is wrong there.  Errors stand in the way
of success; warnings are only reported.
-/

namespace Joinery

inductive Severity where
  | error
  | warning
deriving DecidableEq, Repr

namespace Severity

def text : Severity -> String
  | .error => "error"
  | .warning => "warning"

end Severity

/-- A problem found in the files; line 0 stands for the file as a whole. -/
structure Diagnostic where
  file : String
  line : Int := 0
  message : String
  severity : Severity
  fixable : Bool := false
deriving DecidableEq, Repr

structure DiagnosticKey where
  file : String
  line : Int
  message : String
  severity : Severity
deriving DecidableEq, Repr

namespace Diagnostic

def key (d : Diagnostic) : DiagnosticKey :=
  { file := d.file, line := d.line, message := d.message, severity := d.severity }

def isError (d : Diagnostic) : Bool :=
  d.severity = .error

def isWarning (d : Diagnostic) : Bool :=
  d.severity = .warning

end Diagnostic
end Joinery
