import Joinery.Sorting
import Joinery.Validation.ExportIndex

/-!
# External packages

## The packages that a project takes from outside

Every source that is neither relative nor an alias belongs to a package.  The
packages are named by their roots, each once and in order.
-/

namespace Joinery
namespace Dependencies

def sourcesOf (m : SourceModule) : List String :=
  m.imports.map (·.source) ++ m.reexports.map (·.source)

def packageOf? (resolver : Resolver) (source : String) : Option String :=
  if resolver.isExternal source then
    let root := Resolver.packageRoot source
    if root.isEmpty then none else some root
  else none

def packages (resolver : Resolver) (modules : ModuleTable) : List String :=
  let sources := modules.entries.flatMap fun entry => sourcesOf entry.2
  sortBy (fun a b => decide (a ≤ b)) (sources.filterMap (packageOf? resolver)).eraseDups

end Dependencies
end Joinery
