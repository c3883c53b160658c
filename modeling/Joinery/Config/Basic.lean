import Joinery.Resolver.Basic

/-!
# Configuration

## What a project can settle in advance

A configuration names the project, says how sources are resolved, which steps an
assembly takes, and in which order the phases of its work orders come.
-/

namespace Joinery

/-- How import sources are resolved and re-exports followed. -/
structure ResolverConfig where
  aliases : Table String := Resolver.defaultAliases
  extensions : List String := Resolver.defaultExtensions
  reexportDepth : Nat := 1
  /-- the aliases of the project's own file are preferred -/
  usesTsconfig : Bool := true
deriving DecidableEq, Repr

/-- The steps that an assembly takes. -/
structure Options where
  validateImports : Bool := true
  validateExports : Bool := true
  extractDependencies : Bool := true
  generateMissingFiles : Bool := true
  autoFixExports : Bool := true
  maxPasses : Nat := 3
  strictContent : Bool := true
  deduplicatePlurals : Bool := false
deriving DecidableEq, Repr

def defaultPhases : List String :=
  ["scaffold", "models", "services", "components", "pages", "integration"]

structure Config where
  projectName : String := "codeweld_project"
  resolver : ResolverConfig := {}
  options : Options := {}
  phases : List String := defaultPhases
  logLevel : String := "INFO"
deriving DecidableEq, Repr

end Joinery
