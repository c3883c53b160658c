import Joinery.Path.Canonical
import Joinery.Table
import Joinery.WorkOrder

/-!
# File sets

## Files under canonical keys

A file set holds the text of every file of a project under the canonical form of
its path.  Work orders change it one operation at a time, later operations win.  A
work order is checked as a whole first, so that a refused one changes nothing.
-/

namespace Joinery

/-- The numbers of operations applied. -/
structure Counts where
  created : Nat := 0
  modified : Nat := 0
  deleted : Nat := 0
deriving DecidableEq, Repr

namespace Counts

def total (c : Counts) : Nat :=
  c.created + c.modified + c.deleted

def add (c d : Counts) : Counts :=
  { created := c.created + d.created
    modified := c.modified + d.modified
    deleted := c.deleted + d.deleted }

def one : FileAction -> Counts
  | .create => { created := 1 }
  | .modify => { modified := 1 }
  | .delete => { deleted := 1 }

end Counts

/-- Why a work order is refused. -/
inductive OrderFault where
  | noFiles
  | emptyPath
  | noContent (action : FileAction) (path : String)
deriving DecidableEq, Repr

/-- Why files or work orders are refused. -/
inductive InputError where
  | emptyExistingPath
  | order (id : String) (fault : OrderFault)
deriving DecidableEq, Repr

namespace InputError

def located (message : String) (order path : Option String) : String :=
  let place (label : String) (name : Option String) : List String :=
    match name with
    | none => []
    | some n => if n.isEmpty then [] else [label ++ " '" ++ n ++ "'"]
  let places := place "work order" order ++ place "file" path
  if places.isEmpty then message
  else message ++ " (" ++ ", ".intercalate places ++ ")"

def workOrderId : InputError -> Option String
  | .emptyExistingPath => none
  | .order id _ => some id

def path : InputError -> Option String
  | .order _ (.noContent _ path) => some path
  | _ => none

def message (e : InputError) : String :=
  let text :=
    match e with
    | .emptyExistingPath => "Existing file has an empty path"
    | .order _ .noFiles => "Work order references no files"
    | .order _ .emptyPath => "File operation has an empty path"
    | .order _ (.noContent action _) => "No content provided for " ++ action.text ++ " action"
  located text e.workOrderId e.path

end InputError

structure FileSet where
  files : Table String := Table.empty
  counts : Counts := {}
  /-- operations that write must carry their content -/
  strict : Bool := true
deriving DecidableEq, Repr

namespace FileSet

def seed (strict : Bool) (existing : List (String × Option String)) :
    Except InputError FileSet :=
  let write (files : Table String) (entry : String × Option String) :
      Except InputError (Table String) :=
    let key := Path.canonical entry.1
    if key.isEmpty then .error .emptyExistingPath
    else .ok (files.insert key (entry.2.getD ""))
  match existing.foldlM write Table.empty with
  | .error e => .error e
  | .ok files => .ok { files := files, strict := strict }

def faultOf (strict : Bool) (op : FileOperation) : Option OrderFault :=
  if (Path.canonical op.path).isEmpty then some .emptyPath
  else if op.action ≠ .delete && op.content.isNone && strict then
    some (.noContent op.action op.path)
  else none

def orderFault (strict : Bool) (order : WorkOrder) : Option OrderFault :=
  if order.files.isEmpty then some .noFiles else order.files.findSome? (faultOf strict)

def applyOperation (files : Table String) (op : FileOperation) : Table String :=
  let key := Path.canonical op.path
  match op.action with
  | .delete => files.erase key
  | _ => files.insert key (op.content.getD "")

def countOf (ops : List FileOperation) : Counts :=
  ops.foldl (fun counts op => counts.add (.one op.action)) {}

def apply (s : FileSet) (order : WorkOrder) : Except InputError (FileSet × Counts) :=
  match orderFault s.strict order with
  | some fault => .error (.order order.id fault)
  | none =>
      let counts := countOf order.files
      .ok
        ({ s with
            files := order.files.foldl applyOperation s.files
            counts := s.counts.add counts },
          counts)

/-- A file set after some work orders, and how the last of them ended. -/
structure Applied where
  result : FileSet
  outcome : Except InputError Counts

def applyFrom (s : FileSet) (counts : Counts) : List WorkOrder -> Applied
  | [] => { result := s, outcome := .ok counts }
  | order :: rest =>
      match s.apply order with
      | .error e => { result := s, outcome := .error e }
      | .ok (next, applied) => applyFrom next (counts.add applied) rest

def applyAll (s : FileSet) (orders : List WorkOrder) : Applied :=
  s.applyFrom {} orders

def ofWorkOrders (strict : Bool) (existing : List (String × Option String))
    (orders : List WorkOrder) : Except InputError FileSet :=
  match seed strict existing with
  | .error e => .error e
  | .ok s =>
      let applied := s.applyAll orders
      match applied.outcome with
      | .error e => .error e
      | .ok _ => .ok applied.result

def get? (s : FileSet) (path : String) : Option String :=
  s.files.get? (Path.canonical path)

def contains (s : FileSet) (path : String) : Bool :=
  s.files.contains (Path.canonical path)

def paths (s : FileSet) : List String :=
  s.files.keys

def size (s : FileSet) : Nat :=
  s.files.size

end FileSet
end Joinery
