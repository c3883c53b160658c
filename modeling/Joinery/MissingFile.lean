import Joinery.Validation.Report

/-!
# Missing files

## What a file that is not there would have to provide

Unresolved imports that mean the same path are gathered into one entry, which says
where the file should be written, which names it should export and who asks for
them.
-/

namespace Joinery

structure MissingFile where
  path : String
  suggestedPath : String
  requiredExports : List String := []
  importedBy : List String := []
deriving DecidableEq, Repr

namespace MissingFile

def request (info : MissingFile) (item : UnresolvedImport) : MissingFile :=
  { info with
      requiredExports := (info.requiredExports ++ item.requested).eraseDups
      importedBy := (info.importedBy ++ [item.file]).eraseDups }

def gather (resolver : Resolver) (known : Table MissingFile) (item : UnresolvedImport) :
    Table MissingFile :=
  match item.candidates with
  | [] => known
  | path :: _ =>
      let info := (known.get? path).getD
        { path := path, suggestedPath := resolver.suggestedPath path }
      known.insert path (info.request item)

def find (resolver : Resolver) (unresolved : List UnresolvedImport) : List MissingFile :=
  (unresolved.foldl (gather resolver) Table.empty).entries.map (·.2)

end MissingFile
end Joinery
