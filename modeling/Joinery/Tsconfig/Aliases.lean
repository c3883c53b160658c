import Joinery.Json.Reader
import Joinery.Resolver.Basic
import Joinery.Tsconfig.Relaxed
import Joinery.Value.Display

/-!
# Aliases of a project file

## Path patterns

The compiler options of `tsconfig.json` or `jsconfig.json` can map path patterns to
directories.  A pattern that ends in a star becomes an alias for the text before the
star; of several targets the first one counts, below the base directory.
-/

namespace Joinery
namespace Tsconfig

def fileNames : List String :=
  ["tsconfig.json", "jsconfig.json"]

/-- Why a project file cannot be read. -/
inductive Fault where
  | invalidJson
  | notAnObject
deriving DecidableEq, Repr

namespace Fault

/-- What is said about the fault; the reader's own explanation follows the colon. -/
def message : Fault -> String
  | .invalidJson => "Invalid tsconfig JSON:"
  | .notAnObject => "tsconfig must contain a JSON object"

end Fault

def withoutStar (pattern : String) : String :=
  match pattern.toList.reverse with
  | '*' :: rest => String.ofList rest.reverse
  | _ => pattern

def targetDirectory (base target : String) : String :=
  let plain := withoutStar target
  let below := if Resolver.beginsWith "./" plain then Resolver.dropLength "./" plain else plain
  if base.isEmpty then below else Path.join base below

def baseDirectory (options : Value) : String :=
  let given := (options.get? "baseUrl").getD .null
  let normal := Path.normal (if given.isVacant then "." else given.display)
  if normal = "." then "" else normal

def aliasOf? (base : String) (pattern : Value) (targets : Value) : Option (String × String) :=
  match pattern, targets with
  | .text pattern, .list (.text target :: _) =>
      let start := withoutStar pattern
      if start.isEmpty || start.toList.head? = some '.' then none
      else some (start, targetDirectory base target)
  | _, _ => none

def aliasesOf (data : Value) : Table String :=
  let options := (data.get? "compilerOptions").getD .null
  match options.get? "paths" with
  | some (.mapping patterns) =>
      Table.ofList (patterns.filterMap fun entry =>
        aliasOf? (baseDirectory options) entry.1 entry.2)
  | _ => Table.empty

def parse (text : String) : Except Fault (Table String) :=
  match Json.parse .rounded (toJson text.toList) with
  | none => .error .invalidJson
  | some (.mapping entries) => .ok (aliasesOf (.mapping entries))
  | some _ => .error .notAnObject

/--
The aliases that a project's own file gives.  A file that cannot be read or gives none counts
as absent, and the file of the other name is not looked at in its place.
-/
def projectAliases (files : Table String) : Option (Table String) :=
  match fileNames.findSome? files.get? with
  | none => none
  | some text =>
      match parse text with
      | .ok aliases => if aliases.entries.isEmpty then none else some aliases
      | .error _ => none

end Tsconfig
end Joinery
