import Joinery.Disk.Location
import Joinery.Table
import Joinery.Text.Utf8

/-!
# Disks

## Files and directories as a value

A disk is a list of what lies on it, each thing under its names from the root on.
Looking something up goes from directory to directory, and a file in the middle of a
path is an obstacle.  Nothing is ever deleted.  A change of several steps that fails half
way leaves the disk as the steps before have made it.
-/

namespace Joinery

inductive DiskItem where
  | file (content : ByteArray)
  | directory

/-- Why a location cannot be used. -/
inductive DiskFault where
  | notFound
  | alreadyThere
  | notDirectory
  | isDirectory
  | nameTooLong
  /-- no name holds a null character, so nothing can be looked for -/
  | nullCharacter
deriving DecidableEq, Repr

namespace DiskFault

def text : DiskFault -> String
  | .notFound => "[Errno 2] No such file or directory"
  | .alreadyThere => "[Errno 17] File exists"
  | .notDirectory => "[Errno 20] Not a directory"
  | .isDirectory => "[Errno 21] Is a directory"
  | .nameTooLong => "[Errno 36] File name too long"
  | .nullCharacter => "embedded null byte"

end DiskFault

structure DiskError where
  fault : DiskFault
  path : String
deriving DecidableEq, Repr

namespace DiskError

def message (e : DiskError) : String :=
  if e.fault = .nullCharacter then e.fault.text
  else e.fault.text ++ ": " ++ Value.quotedText e.path.toList

end DiskError

/-- The things on a disk, in the order in which they came there. -/
structure Disk where
  workingDirectory : List String
  items : List (List String × DiskItem)

namespace Disk

def blank (workingDirectory : List String) : Disk :=
  { workingDirectory := workingDirectory
    items := [(workingDirectory, .directory)] }

def item? (d : Disk) (names : List String) : Option DiskItem :=
  if names.isEmpty then some .directory else d.items.lookup names

def put (d : Disk) (names : List String) (item : DiskItem) : Disk :=
  { d with items := Entries.write names item d.items }

def nameLimit : Nat :=
  255

/-- The greatest number of bytes of a location as it is written. -/
def pathLimit : Nat :=
  4095

def walk (d : Disk) (start : List String) : List String -> Except DiskFault (List String)
  | [] => .ok start
  | name :: rest =>
      match d.item? start with
      | none => .error .notFound
      | some (.file _) => .error .notDirectory
      | some .directory =>
          if nameLimit < name.utf8ByteSize then .error .nameTooLong
          else walk d (if name = ".." then start.dropLast else start ++ [name]) rest

def reach (d : Disk) (l : Location) : Except DiskFault (List String) :=
  if l.holdsNull then .error .nullCharacter
  else if pathLimit < l.text.utf8ByteSize then .error .nameTooLong
  else d.walk (if l.isRooted then [] else d.workingDirectory) l.names

def at? (d : Disk) (l : Location) : Except DiskFault (Option DiskItem) :=
  (d.reach l).map d.item?

def faultAt (l : Location) (fault : DiskFault) : DiskError :=
  { fault := fault, path := l.text }

/-- Does anything lie at a location?  Where the way to it is blocked nothing does, but a name that
is too long is an error even so. -/
def holds (d : Disk) (l : Location) : Except DiskError Bool :=
  match d.at? l with
  | .ok item => .ok item.isSome
  | .error .nameTooLong => .error (faultAt l .nameTooLong)
  | .error _ => .ok false

def isDirectory (d : Disk) (l : Location) : Bool :=
  match d.at? l with
  | .ok (some .directory) => true
  | _ => false

def read (d : Disk) (l : Location) : Except DiskError ByteArray :=
  match d.at? l with
  | .error fault => .error (faultAt l fault)
  | .ok none => .error (faultAt l .notFound)
  | .ok (some .directory) => .error (faultAt l .isDirectory)
  | .ok (some (.file content)) => .ok content

def write (d : Disk) (l : Location) (content : ByteArray) : Except DiskError Disk :=
  match d.reach l with
  | .error fault => .error (faultAt l fault)
  | .ok names =>
      match d.item? names with
      | some .directory => .error (faultAt l .isDirectory)
      | _ => .ok (d.put names (.file content))

def makeDirectory (d : Disk) (l : Location) : Except DiskFault Disk :=
  match d.reach l with
  | .error fault => .error fault
  | .ok names =>
      match d.item? names with
      | some _ => .error .alreadyThere
      | none => .ok (d.put names .directory)

/-- A disk after a change, and how the change ended.  One that failed may have got half way. -/
structure Changed (ε α : Type) where
  disk : Disk
  outcome : Except ε α

namespace Changed

def andThen (c : Changed ε α) (next : Disk -> α -> Changed ε β) : Changed ε β :=
  match c.outcome with
  | .ok a => next c.disk a
  | .error e => { disk := c.disk, outcome := .error e }

def mapError (f : ε -> ε') (c : Changed ε α) : Changed ε' α :=
  { disk := c.disk, outcome := c.outcome.mapError f }

end Changed

def after (d : Disk) : Except ε Disk -> Changed ε Unit
  | .ok changed => { disk := changed, outcome := .ok () }
  | .error e => { disk := d, outcome := .error e }

def ensureLast (d : Disk) (l : Location) : Changed DiskError Unit :=
  match d.makeDirectory l with
  | .ok made => { disk := made, outcome := .ok () }
  | .error fault =>
      { disk := d
        outcome := if d.isDirectory l then .ok () else .error (faultAt l fault) }

def ensureWithin (d : Disk) (l : Location) : Nat -> Changed DiskError Unit
  | 0 => { disk := d, outcome := .error (faultAt l .notFound) }
  | depth + 1 =>
      match d.makeDirectory l with
      | .error .notFound =>
          (d.ensureWithin l.parent depth).andThen fun below _ => below.ensureLast l
      | _ => d.ensureLast l

def ensureDirectory (d : Disk) (l : Location) : Changed DiskError Unit :=
  d.ensureWithin l (l.names.length + 1)

def writeWithin (d : Disk) (l : Location) (content : ByteArray) : Changed DiskError Unit :=
  (d.ensureDirectory l.parent).andThen fun made _ => made.after (made.write l content)

/-!
## What lies there after a change
-/

@[simp] theorem item?_put_self (d : Disk) {names : List String} (h : names ≠ [])
    (item : DiskItem) : (d.put names item).item? names = some item := by
  simp [item?, put, h]

@[simp] theorem item?_put_other (d : Disk) {names other : List String} (h : names ≠ other)
    (item : DiskItem) : (d.put names item).item? other = d.item? other := by
  simp [item?, put, h]

/-!
## Files below a directory
-/

def below? (directory names : List String) : Option (List String) :=
  if directory.isPrefixOf names && directory.length < names.length then
    some (names.drop directory.length)
  else none

def filesBelow (d : Disk) (directory : List String) : List (List String × ByteArray) :=
  d.items.filterMap fun e =>
    match below? directory e.1, e.2 with
    | some names, .file content => some (names, content)
    | _, _ => none

end Disk
end Joinery
