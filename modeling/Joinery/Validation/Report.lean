import Joinery.Validation.Diagnostic
import Joinery.Validation.ExportIndex

/-!
# Validation of a snapshot

## Imports against the files and exports that are there

Every import of a source file that is no package should lead to a file, and every
name that it asks for should be exported there.  An import that leads nowhere is a
warning, since the file may still be written; a name that is missing is an error.
-/

namespace Joinery

structure UnresolvedImport where
  file : String
  line : Int
  source : String
  candidates : List String
  requested : List String := []
deriving DecidableEq, Repr

structure MissingExport where
  file : String
  line : Int
  target : String
  name : String
deriving DecidableEq, Repr

structure Validator where
  resolver : Resolver
  reportsImports : Bool := true
  checksExports : Bool := true
  depth : Nat := 1
deriving DecidableEq, Repr

structure Report where
  diagnostics : List Diagnostic := []
  unresolved : List UnresolvedImport := []
  missingExports : List MissingExport := []
  modules : ModuleTable := Table.empty
  importCount : Nat := 0
deriving DecidableEq, Repr

namespace Report

def errors (r : Report) : List Diagnostic :=
  r.diagnostics.filter Diagnostic.isError

def warnings (r : Report) : List Diagnostic :=
  r.diagnostics.filter Diagnostic.isWarning

def passes (r : Report) : Bool :=
  r.errors.isEmpty

def append (r s : Report) : Report :=
  { diagnostics := r.diagnostics ++ s.diagnostics
    unresolved := r.unresolved ++ s.unresolved
    missingExports := r.missingExports ++ s.missingExports
    modules := r.modules
    importCount := r.importCount + s.importCount }

end Report

namespace UnresolvedImport

def diagnostic (u : UnresolvedImport) : Diagnostic :=
  { file := u.file
    line := u.line
    message := "Unresolved import: " ++ u.source
    severity := .warning }

end UnresolvedImport

namespace MissingExport

def diagnostic (m : MissingExport) : Diagnostic :=
  { file := m.file
    line := m.line
    message := "Named import '" ++ m.name ++ "' not found in exports of " ++ m.target
    severity := .error
    fixable := true }

end MissingExport

namespace Validator

def missingNames (exported : List String) (record : Import) : List String :=
  record.requested.eraseDups.filter fun name =>
    name ≠ defaultExport && !exported.contains name

def checkImport (v : Validator) (index : ExportIndex) (path : String) (record : Import) : Report :=
  if v.resolver.isExternal record.source then {}
  else
    let candidates := v.resolver.candidates record.source path
    match candidates.find? index.available with
    | none =>
        let found : UnresolvedImport :=
          { file := path
            line := record.line
            source := record.source
            candidates := candidates
            requested := record.requested }
        { diagnostics := if v.reportsImports then [found.diagnostic] else []
          unresolved := [found]
          importCount := 1 }
    | some target =>
        if v.checksExports && v.resolver.isSourceFile target then
          let missing := (missingNames (index.names target) record).map fun name =>
            { file := path, line := record.line, target := target, name := name : MissingExport }
          { diagnostics := missing.map MissingExport.diagnostic
            missingExports := missing
            importCount := 1 }
        else { importCount := 1 }

def exportIndex (v : Validator) (files : Table String) : ExportIndex :=
  { modules := scanAll v.resolver files
    resolver := v.resolver
    available := files.contains
    depth := v.depth }

def validate (v : Validator) (files : Table String) : Report :=
  let index := v.exportIndex files
  let checks := index.modules.entries.flatMap fun file =>
    file.2.imports.map fun record => v.checkImport index file.1 record
  checks.foldl Report.append { modules := index.modules }

end Validator
end Joinery
