import Joinery.Config.Basic
import Joinery.Schema.Decode

/-!
# Configurations as data

## Reading, writing and overriding

A configuration is read from a mapping, section by section, and written back as one.
An override changes the written form and reads it again, so that an overridden
configuration has passed the same checks as any other.
-/

namespace Joinery

open Decode

namespace ResolverConfig

def aliasFault? (name : String) : Option FaultKind :=
  if name.isEmpty then some (.rule "alias prefixes must be non-empty")
  else if name.toList.head? = some '.' then
    some (.rule ("alias prefix '" ++ name ++ "' collides with relative imports"))
  else none

def readAliases : Decoder (Table String) :=
  fun v => (mappingOf string v).check fun entries =>
    let table := Table.ofList entries
    match table.keys.findSome? aliasFault? with
    | some kind => Decoded.fault kind
    | none => .value table

def dotted (extension : String) : String :=
  if extension.toList.head? = some '.' then extension else "." ++ extension

def readExtensions : Decoder (List String) :=
  fun v => (Decode.list string v).check fun given =>
    if given.isEmpty then Decoded.fault (.rule "at least one source extension is required")
    else .value (given.map dotted)

def deepest : Int :=
  16

def readDepth : Decoder Nat :=
  fun v => (atMost deepest (atLeast 1 integer) v).map Int.toNat

def decode : Decoder ResolverConfig :=
  model "ResolverConfig" fun fields =>
    ResolverConfig.mk <$> defaulted fields "aliases" Resolver.defaultAliases readAliases
      <*> defaulted fields "source_extensions" Resolver.defaultExtensions readExtensions
      <*> defaulted fields "max_reexport_depth" 1 readDepth
      <*> defaulted fields "use_tsconfig_paths" true bool

end ResolverConfig

namespace Options

def readPasses : Decoder Nat :=
  fun v => (atLeast 1 integer v).map Int.toNat

def decode : Decoder Options :=
  model "AssemblyOptions" fun fields =>
    Options.mk <$> defaulted fields "validate_imports" true bool
      <*> defaulted fields "validate_exports" true bool
      <*> defaulted fields "extract_dependencies" true bool
      <*> defaulted fields "generate_missing_files" true bool
      <*> defaulted fields "auto_fix_exports" true bool
      <*> defaulted fields "max_validation_passes" 3 readPasses
      <*> defaulted fields "strict_content" true bool
      <*> defaulted fields "deduplicate_plurals" false bool

end Options

namespace Config

def readName : Decoder String :=
  model "ProjectConfig" fun fields => defaulted fields "name" ({} : Config).projectName string

def readPhases : Decoder (List String) :=
  fun v => (Decode.list string v).check fun labels =>
    if labels.eraseDups.length = labels.length then .value labels
    else Decoded.fault (.rule "phase labels must be unique")

def decode : Decoder Config :=
  model "CodeWeldConfig" fun fields =>
    Config.mk <$> defaulted fields "project" ({} : Config).projectName readName
      <*> defaulted fields "resolver" {} ResolverConfig.decode
      <*> defaulted fields "assembly" {} Options.decode
      <*> defaulted fields "phases" defaultPhases readPhases
      <*> defaulted fields "log_level" ({} : Config).logLevel string

/-!
# Writing and overriding
-/

def mapping (fields : List (String × Value)) : Value :=
  .mapping (fields.map fun f => (.text f.1, f.2))

def tableValue (table : Table String) : Value :=
  mapping (table.entries.map fun e => (e.1, .text e.2))

def resolverFields (r : ResolverConfig) : List (String × Value) :=
  [("aliases", tableValue r.aliases),
    ("source_extensions", .list (r.extensions.map .text)),
    ("max_reexport_depth", .int r.reexportDepth),
    ("use_tsconfig_paths", .bool r.usesTsconfig)]

def optionFields (o : Options) : List (String × Value) :=
  [("validate_imports", .bool o.validateImports),
    ("validate_exports", .bool o.validateExports),
    ("extract_dependencies", .bool o.extractDependencies),
    ("generate_missing_files", .bool o.generateMissingFiles),
    ("auto_fix_exports", .bool o.autoFixExports),
    ("max_validation_passes", .int o.maxPasses),
    ("strict_content", .bool o.strictContent),
    ("deduplicate_plurals", .bool o.deduplicatePlurals)]

def valueOf (config : Config) (resolver options : List (String × Value)) : Value :=
  mapping
    [("project", mapping [("name", .text config.projectName)]),
      ("resolver", mapping resolver),
      ("assembly", mapping options),
      ("phases", .list (config.phases.map .text)),
      ("log_level", .text config.logLevel)]

def toValue (config : Config) : Value :=
  valueOf config (resolverFields config.resolver) (optionFields config.options)

def replaced (name : String) (value : Value) (fields : List (String × Value)) :
    List (String × Value) :=
  fields.map fun f => if f.1 = name then (name, value) else f

def given? (fields : Fields) (name : String) : Option Value :=
  match Value.entry? name fields with
  | none => none
  | some .null => none
  | some v => some v

def overrideBy (config : Config) (settings : Fields) : Decoded Config :=
  let resolver := resolverFields config.resolver
  let resolver :=
    match given? settings "aliases" with
    | none => resolver
    | some aliases =>
        replaced "use_tsconfig_paths" (.bool false) (replaced "aliases" aliases resolver)
  let options := optionFields config.options
  let options :=
    match given? settings "max_validation_passes" with
    | none => options
    | some passes => replaced "max_validation_passes" passes options
  decode (valueOf config resolver options)

def settingsOf (aliases : Option (Table String)) (passes : Option Int) : Fields :=
  (aliases.toList.map fun table => (.text "aliases", tableValue table)) ++
    passes.toList.map fun n => (.text "max_validation_passes", .int n)

def override (config : Config) (aliases : Option (Table String)) (passes : Option Int) :
    Decoded Config :=
  config.overrideBy (settingsOf aliases passes)

/-!
# Flat settings

Settings can also be given side by side instead of in sections.  The sections are
then checked one after the other, and the first that has faults ends the reading.
-/

def optionNames : List String :=
  (optionFields {}).map (·.1)

def unlessVacant (fields : Fields) (name : String) (default : Value) : Value :=
  match Value.entry? name fields with
  | none => default
  | some v => if v.isVacant then default else v

def ofSettings (fields : Fields) : Decoded Config :=
  let aliases := given? fields "aliases"
  let own (name : String) (default : Value) : Value :=
    (Value.entry? name fields).getD default
  let resolver := ResolverConfig.decode <| mapping
    [("aliases", aliases.getD (tableValue Resolver.defaultAliases)),
      ("source_extensions",
        unlessVacant fields "source_extensions" (.list (Resolver.defaultExtensions.map .text))),
      ("max_reexport_depth", own "max_reexport_depth" (.int 1)),
      ("use_tsconfig_paths", own "use_tsconfig_paths" (.bool aliases.isNone))]
  let steps := optionNames.filterMap fun name =>
    let value := if name = "max_validation_passes" then given? fields name
      else Value.entry? name fields
    value.map fun v => (name, v)
  let project := mapping
    [("name", unlessVacant fields "project_name" (.text ({} : Config).projectName))]
  resolver.check fun resolver =>
    (readName project).check fun projectName =>
      (Options.decode (mapping steps)).check fun options =>
        let rest :=
          ("phases", unlessVacant fields "phases" (.list (defaultPhases.map .text))) ::
            ((Value.entry? "log_level" fields).toList.map fun v => ("log_level", v))
        (decode (mapping rest)).map fun config =>
          { config with projectName := projectName, resolver := resolver, options := options }

end Config

/-!
# Aliases as arguments
-/

inductive AliasFault where
  | noTarget (argument : String)
  | noPrefix (argument : String)
deriving DecidableEq, Repr

namespace AliasFault

def message : AliasFault -> String
  | .noTarget argument =>
      "Invalid alias '" ++ argument ++ "'. Expected PREFIX=DIRECTORY (e.g. @/=src/)"
  | .noPrefix argument => "Invalid alias '" ++ argument ++ "': empty prefix"

end AliasFault

def aliasOfArgument (argument : String) : Except AliasFault (String × String) :=
  let start := argument.toList.takeWhile fun c => c != '='
  match argument.toList.drop start.length with
  | [] => .error (.noTarget argument)
  | _ :: target =>
      if start.isEmpty then .error (.noPrefix argument)
      else .ok (String.ofList start, String.ofList target)

def aliasesOfArguments (arguments : List String) : Except AliasFault (Option (Table String)) :=
  if arguments.isEmpty then .ok none
  else (arguments.mapM aliasOfArgument).map fun entries => some (Table.ofList entries)

end Joinery
