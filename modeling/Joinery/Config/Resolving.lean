import Joinery.Config.Basic
import Joinery.MissingFile
import Joinery.Tsconfig.Aliases

/-!
# Resolving under a configuration

## Which aliases are in force

Aliases that are given for a snapshot win.  Otherwise those of the project's own
file are in force, if it has some and they are wanted, and last the configured ones.
-/

namespace Joinery
namespace Config

def aliasesFor (config : Config) (given : Option (Table String)) (files : Table String) :
    Table String :=
  match given with
  | some aliases => aliases
  | none =>
      if config.resolver.usesTsconfig then
        (Tsconfig.projectAliases files).getD config.resolver.aliases
      else config.resolver.aliases

def resolverFor (config : Config) (given : Option (Table String)) (files : Table String) :
    Resolver :=
  Resolver.make (some (config.aliasesFor given files)) config.resolver.extensions

def validatorFor (config : Config) (resolver : Resolver) (options : Options) : Validator :=
  { resolver := resolver
    reportsImports := options.validateImports
    checksExports := options.validateExports
    depth := config.resolver.reexportDepth }

def missingFiles (config : Config) (given : Option (Table String)) (files : Table String) :
    List MissingFile :=
  let resolver := config.resolverFor given files
  let report := (config.validatorFor resolver config.options).validate files
  MissingFile.find resolver report.unresolved

end Config
end Joinery
