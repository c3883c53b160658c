import Joinery.FileSet.Basic
import Joinery.Tsconfig.Aliases
import Joinery.Validation.Report

/-!
# Quick validation

## One look at a file map

The imports and exports of a file map are checked once, without work orders, phases
or repairs.
-/

namespace Joinery

structure QuickResult where
  diagnostics : List Diagnostic
  fileCount : Nat
  importCount : Nat
deriving DecidableEq, Repr

namespace QuickResult

def valid (r : QuickResult) : Bool :=
  !r.diagnostics.any Diagnostic.isError

def check (files : List (String × Option String)) (aliases : Option (Table String))
    (extensions : List String) : Except InputError QuickResult :=
  match FileSet.seed false files with
  | .error e => .error e
  | .ok s =>
      let used := match aliases with
        | some given => some given
        | none => Tsconfig.projectAliases s.files
      let report := ({ resolver := Resolver.make used extensions } : Validator).validate s.files
      .ok
        { diagnostics := report.diagnostics
          fileCount := s.size
          importCount := report.importCount }

end QuickResult
end Joinery
