import Joinery.Resolver.Basic
import Joinery.SourceModule.Exports

/-!
# Export sets

## Own names and names passed on

A module exports the names that its own text declares.  A star re-export adds the
names of another module, all but its default; how many such steps are followed is
bounded by a depth.  At depth 1 none is.
-/

namespace Joinery

abbrev ModuleTable : Type :=
  Table SourceModule

def scanAll (resolver : Resolver) (files : Table String) : ModuleTable :=
  (files.filterKeys resolver.isSourceFile).mapValues SourceModule.scan

structure ExportIndex where
  modules : ModuleTable
  resolver : Resolver
  available : String -> Bool
  depth : Nat

namespace ExportIndex

def starTargets (index : ExportIndex) (path : String) : List String :=
  match index.modules.get? path with
  | none => []
  | some m =>
      m.exports.starSources.filterMap fun source =>
        index.resolver.resolve source path index.available

/-- The files that some steps lead to; it is enough to stop once nothing new is found. -/
def reachable (next : String -> List String) : Nat -> List String -> List String
  | 0, seen => seen
  | steps + 1, seen =>
      let wider := (seen ++ seen.flatMap next).eraseDups
      if wider.length = seen.length then seen else reachable next steps wider

def ownNames (index : ExportIndex) (path : String) : List String :=
  match index.modules.get? path with
  | none => []
  | some m => m.exports.names

def names (index : ExportIndex) (path : String) : List String :=
  match index.modules.get? path with
  | none => []
  | some m =>
      let others := (reachable index.starTargets (index.depth - 1) [path]).filter fun p => p ≠ path
      m.exports.names ++
        (others.flatMap index.ownNames).filter fun name => name ≠ defaultExport

end ExportIndex
end Joinery
