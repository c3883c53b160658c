import Joinery.FileSet.Basic
import Joinery.Path.Normal
import Joinery.Sorting

/-!
# Plural duplicates

## Modules written under two names

The same module is sometimes written under a singular and a plural name.  A source
file is a plural duplicate if its stem ends in a single `s` and its directory holds
a source file with the stem that lacks it.
-/

namespace Joinery
namespace FileSet

def directoryAndStem (path : String) : String × String :=
  (Path.parentText path, Path.stem (Path.fileName path))

def singular? (stem : String) : Option String :=
  match stem.toList.reverse with
  | 's' :: rest => if rest.head? = some 's' then none else some (String.ofList rest.reverse)
  | _ => none

def hasSourceName (extensions : List String) (path : String) : Bool :=
  Path.hasExtension extensions (Path.fileName path)

def pluralDuplicates (extensions paths : List String) : List String :=
  let sources := paths.filter (hasSourceName extensions)
  let known := sources.map directoryAndStem
  let sorted := sortBy (fun a b => decide (a ≤ b)) sources
  sorted.filter fun path =>
    let (directory, stem) := directoryAndStem path
    match singular? stem with
    | none => false
    | some single => known.contains (directory, single)

def removePlurals (s : FileSet) (extensions : List String) : FileSet × List String :=
  let removed := pluralDuplicates extensions s.paths
  ({ s with
      files := removed.foldl (fun files path => files.erase path) s.files
      counts := { s.counts with deleted := s.counts.deleted + removed.length } },
    removed)

end FileSet
end Joinery
