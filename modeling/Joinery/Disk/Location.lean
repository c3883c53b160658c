import Joinery.Path.Normal
import Joinery.Value.Display

/-!
# Locations

## Paths to files and directories as they are given

A location is a list of names, from the root or from the working directory on.  Empty
names and single dots are dropped when it is read; double dots are kept, since what
they mean depends on the directories that are there.  A location at the root keeps its
slash, or its two slashes, though both mean the same place.
-/

namespace Joinery

structure Location where
  /-- how many slashes it begins with; with none the names begin at the working directory -/
  slashes : Nat
  names : List String
deriving DecidableEq, Repr

namespace Location

def namesOf (path : String) : List String :=
  ((List.splitOn '/' path.toList).map String.ofList).filter fun n => n ≠ "" && n ≠ "."

def ofText (path : String) : Location :=
  { slashes := Path.leadingSlashes path.toList, names := namesOf path }

def isRooted (l : Location) : Bool :=
  0 < l.slashes

def text (l : Location) : String :=
  let names := "/".intercalate l.names
  if l.isRooted then String.ofList (List.replicate l.slashes '/') ++ names
  else if l.names.isEmpty then "."
  else names

def holdsNull (l : Location) : Bool :=
  l.names.any fun n => n.toList.contains '\x00'

def parent (l : Location) : Location :=
  { l with names := l.names.dropLast }

/-- Where the names lead from some directory, step by step; nothing lies above the root. -/
def follow (start : List String) (names : List String) : List String :=
  names.foldl (fun place name => if name = ".." then place.dropLast else place ++ [name]) start

def absolute (workingDirectory : List String) (l : Location) : List String :=
  follow (if l.isRooted then [] else workingDirectory) l.names

def rooted (names : List String) : Location :=
  { slashes := 1, names := names }

def extension (l : Location) : String :=
  match l.names.getLast? with
  | none => ""
  | some name =>
      let letters := name.toList
      let tail := letters.reverse.takeWhile fun c => c != '.'
      let before := letters.length - tail.length
      if tail.isEmpty || before ≤ 1 then ""
      else String.ofList ('.' :: tail.reverse)

end Location
end Joinery
