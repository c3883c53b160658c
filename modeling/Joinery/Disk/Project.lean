import Joinery.Obstacle
import Joinery.Path.Canonical
import Joinery.Path.Normal
import Joinery.Sorting
import Joinery.Table
import Joinery.Tsconfig.Aliases

/-!
# Projects on a disk

## Reading a tree of files and writing one

The files of a project are read in the order of their names, without the directories
that tools fill and without files that are no text.  Files are written below one
directory, and nothing is written if one of them would lie outside of it.
-/

namespace Joinery
namespace Disk

def skippedNames : List String :=
  ["node_modules", ".git", ".next", "dist", "build", ".turbo"]

def isWanted (extensions included : List String) (names : List String) : Bool :=
  !names.any skippedNames.contains &&
    (extensions.isEmpty || Path.hasExtension extensions (names.getLast?.getD "") ||
      included.contains ("/".intercalate names))

def projectFile? (file : List String × ByteArray) : Option (String × String) :=
  match Utf8.decode file.2 with
  | .ok text =>
      some (Path.canonical ("/".intercalate file.1),
        String.ofList (Text.unifyLineEnds text.toList))
  | .error _ => none

def loadProject (d : Disk) (root : Location) (extensions : List String)
    (included : List String := Tsconfig.fileNames) : Table String :=
  match d.reach root with
  | .error _ => Table.empty
  | .ok names =>
      let wanted := (d.filesBelow names).filter fun f => isWanted extensions included f.1
      let inOrder := sortBy (fun a b => decide (¬b.1 < a.1)) wanted
      Table.ofList (inOrder.filterMap projectFile?)

def targetOf (base : List String) (path : String) : List String :=
  let l := Location.ofText (Path.canonical path)
  Location.follow (if l.isRooted then [] else base) l.names

def nullFault (l : Location) : Obstacle :=
  .disk (faultAt l .nullCharacter)

def targets (directory : Location) (base : List String) :
    List (String × String) -> Except Obstacle (List (List String × String))
  | [] => .ok []
  | (path, content) :: rest =>
      let target := targetOf base path
      let given := Location.ofText path
      if given.holdsNull then .error (nullFault given)
      else if base.isPrefixOf target then
        (targets directory base rest).map fun others => (target, content) :: others
      else .error (.outside directory.text path)

def writeTarget (d : Disk) (target : List String) (content : String) : Changed DiskError Unit :=
  d.writeWithin (Location.rooted target) (Utf8.encode content)

def writeTargets (d : Disk) (done : List (List String)) :
    List (List String × String) -> Changed Obstacle (List (List String))
  | [] => { disk := d, outcome := .ok done.reverse }
  | (target, content) :: rest =>
      ((d.writeTarget target content).mapError .disk).andThen fun next _ =>
        writeTargets next (target :: done) rest

def writeProject (d : Disk) (directory : Location) (files : Table String) :
    Changed Obstacle (List (List String)) :=
  let base := directory.absolute d.workingDirectory
  if directory.holdsNull then { disk := d, outcome := .error (nullFault directory) }
  else
    match targets directory base files.entries with
    | .error e => { disk := d, outcome := .error e }
    | .ok found => writeTargets d [] found

end Disk
end Joinery
