import Joinery.Path.Normal
import Joinery.Table

/-!
# Resolving import sources

## From the source of an import to the paths it may mean

A source is relative to the importing file, begins with an alias of a project
directory, or names an external package.  For the first two kinds the resolver
lists candidate paths, the most specific first, and the first candidate that the
project has is what the import means.
-/

namespace Joinery

inductive SourceKind where
  | aliased
  | relative
  | external
deriving DecidableEq, Repr

/-- The aliases of a project and the extensions of its source files. -/
structure Resolver where
  aliases : Table String
  extensions : List String
deriving DecidableEq, Repr

namespace Resolver

def defaultAliases : Table String :=
  { entries := [("@/", "src/")] }

def defaultExtensions : List String :=
  [".ts", ".tsx", ".js", ".jsx"]

/-- Files that are imported with their extension although they hold no source text. -/
def assetExtensions : List String :=
  [".css", ".scss", ".sass", ".less", ".json", ".svg", ".png", ".jpg", ".jpeg", ".gif", ".webp",
    ".md"]

def make (aliases : Option (Table String)) (extensions : List String) : Resolver :=
  { aliases := aliases.getD defaultAliases
    extensions := if extensions.isEmpty then defaultExtensions else extensions }

def beginsWith (start text : String) : Bool :=
  start.toList.isPrefixOf text.toList

def dropLength (start text : String) : String :=
  String.ofList (text.toList.drop start.toList.length)

def isRelative (source : String) : Bool :=
  source == "." || source == ".." || beginsWith "./" source || beginsWith "../" source

def longestAlias (source : String) : List (String × String) -> Option (String × String)
  | [] => none
  | entry :: rest =>
      match longestAlias source rest with
      | none => if beginsWith entry.1 source then some entry else none
      | some best =>
          if beginsWith entry.1 source && best.1.toList.length ≤ entry.1.toList.length then
            some entry
          else some best

def aliasOf (r : Resolver) (source : String) : Option (String × String) :=
  longestAlias source r.aliases.entries

def classify (r : Resolver) (source : String) : SourceKind :=
  if isRelative source then .relative
  else if (r.aliasOf source).isSome then .aliased
  else .external

def isExternal (r : Resolver) (source : String) : Bool :=
  r.classify source == .external

def projectPath (path : String) : String :=
  if path.isEmpty then path
  else
    let normal := Path.normal path
    if normal = "." then "" else normal

def basePath (r : Resolver) (source file : String) : Option String :=
  if isRelative source then some (projectPath (Path.join (Path.directory file) source))
  else
    (r.aliasOf source).map fun entry => projectPath (entry.2 ++ dropLength entry.1 source)

def indexName : String :=
  "index"

def candidatesOfBase (extensions : List String) (base : String) : List String :=
  let index := if base.isEmpty then indexName else Path.join base indexName
  (if base.isEmpty then [] else [base]) ++ extensions.map (base ++ ·) ++
    extensions.map (index ++ ·)

def candidates (r : Resolver) (source file : String) : List String :=
  match r.basePath source file with
  | none => []
  | some base => candidatesOfBase r.extensions base

def resolve (r : Resolver) (source file : String) (available : String -> Bool) :
    Option String :=
  (r.candidates source file).find? available

def suggestedPath (r : Resolver) (path : String) : String :=
  if Path.hasExtension (r.extensions ++ assetExtensions) path then path
  else path ++ r.extensions.headD ""

def isSourceFile (r : Resolver) (path : String) : Bool :=
  Path.hasExtension r.extensions path

def packageRoot (source : String) : String :=
  let parts := List.splitOn '/' source.toList
  let count := if source.toList.head? = some '@' then 2 else 1
  String.ofList (['/'].intercalate (parts.take count))

end Resolver
end Joinery
