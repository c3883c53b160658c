import Joinery.Yaml.Document
import Joinery.Yaml.Merge
import Joinery.Yaml.Scalar

/-!
# The content of nodes

## From nodes to values

Every node has one content, however often it is named.  Scalars get their values at
once; a collection is only opened, and waits to be filled until all those that were
opened before it are filled.  So of several faults the one in the outer collection
comes first.  In a mapping a key that comes again keeps its place and takes the last
value, and a collection cannot be a key.
-/

namespace Joinery
namespace Yaml

/-- What became of a node; members are numbers of nodes. -/
inductive Built where
  | scalar (value : Value)
  /-- the one undefined number that `.nan` stands for -/
  | noNumber
  | list (items : List Nat)
  | pairs (items : List (Nat × Nat))
  | set (members : List Nat)
  | mapping (entries : List (Nat × Nat))
deriving Repr

/-- The nodes, what has become of them, and the collections that wait, last one first. -/
structure Filling where
  graph : Graph
  built : Array (Option Built)
  waiting : List Nat
deriving Repr

/-!
## Keys
-/

def integerKey? : Value -> Option Int
  | .int i => some i
  | .bool b => some (if b then 1 else 0)
  | .real r => r.toInt?
  | _ => none

/-- Are two keys the same?  Numbers are the same if they are equal, moments if they stand for the
same, and an undefined number is not even equal to itself. -/
def isSameKey (a b : Value) : Bool :=
  match integerKey? a, integerKey? b with
  | some i, some j => i == j
  | none, none =>
      match a, b with
      | .null, .null => true
      | .real r, .real s => r == s && r != .undefined
      | .text s, .text t => s == t
      | .halves s, .halves t => s == t
      | .bytes s, .bytes t => s == t
      | .moment m, .moment n => m.isSame n
      | _, _ => false
  | _, _ => false

namespace Filling

def get? (s : Filling) (i : Nat) : Option Built :=
  (s.built[i]?).join

def set (s : Filling) (i : Nat) (b : Built) : Filling :=
  { s with built := s.built.setIfInBounds i (some b) }

def opened (s : Filling) (i : Nat) (b : Built) : Filling :=
  { s.set i b with waiting := i :: s.waiting }

def isKey (s : Filling) (i : Nat) : Bool :=
  match s.get? i with
  | some (.scalar _) => true
  | some .noNumber => true
  | _ => false

def isSame (s : Filling) (i j : Nat) : Bool :=
  i == j ||
    match s.get? i, s.get? j with
    | some (.scalar a), some (.scalar b) => isSameKey a b
    | some .noNumber, some .noNumber => true
    | _, _ => false

def putEntry (s : Filling) (key value : Nat) : List (Nat × Nat) -> List (Nat × Nat)
  | [] => [(key, value)]
  | e :: rest =>
      if s.isSame e.1 key then (e.1, value) :: rest else e :: s.putEntry key value rest

/-!
## Building and filling
-/

def build (s : Filling) (i : Nat) : Except Fault Filling :=
  if (s.get? i).isSome then .ok s
  else
    match s.graph.kind i with
    | .list => .ok (s.opened i (.list []))
    | .pairs => .ok (s.opened i (.pairs []))
    | .set => .ok (s.opened i (.set []))
    | .mapping => .ok (s.opened i (.mapping []))
    | .real => do
        let value <- s.graph.scalar i
        let letters <- s.graph.text i
        let isOne := (realBody letters).2 = .ofText ".nan".toList
        return s.set i (if isOne then .noNumber else .scalar value)
    | _ => do
        let value <- s.graph.scalar i
        return s.set i (.scalar value)

def buildEntries (s : Filling) (known : List (Nat × Nat)) :
    List (Nat × Nat) -> Except Fault (List (Nat × Nat) × Filling)
  | [] => .ok (known, s)
  | (key, value) :: rest => do
      let s <- s.build key
      if !s.isKey key then .error .malformed
      else
        let s <- s.build value
        s.buildEntries (s.putEntry key value known) rest

def buildPairs (s : Filling) : List Nat -> Except Fault (List (Nat × Nat) × Filling)
  | [] => .ok ([], s)
  | item :: rest =>
      match s.graph.content item with
      | .mapping [(key, value)] => do
          let s <- s.build key
          let s <- s.build value
          let (pairs, s) <- s.buildPairs rest
          return ((key, value) :: pairs, s)
      | _ => .error .malformed

def buildMapping (s : Filling) (i : Nat) : Except Fault (List (Nat × Nat) × Filling) :=
  match s.graph.content i with
  | .mapping _ => do
      let graph <- s.graph.merge i
      ({ s with graph := graph }).buildEntries [] (graph.entries i)
  | _ => .error .malformed

def fill (s : Filling) (i : Nat) : Except Fault Filling :=
  match s.graph.kind i, s.graph.content i with
  | .list, .sequence items => do
      let s <- items.foldlM build s
      return s.set i (.list items)
  | .pairs, .sequence items => do
      let (pairs, s) <- s.buildPairs items
      return s.set i (.pairs pairs)
  | .set, _ => do
      let (entries, s) <- s.buildMapping i
      return s.set i (.set (entries.map (·.1)))
  | .mapping, _ => do
      let (entries, s) <- s.buildMapping i
      return s.set i (.mapping entries)
  | _, _ => .error .malformed

def fillAll : Nat -> Filling -> Except Fault Filling
  | 0, _ => .error .malformed
  | rounds + 1, s =>
      if s.waiting.isEmpty then .ok s
      else do
        let next <- s.waiting.reverse.foldlM fill { s with waiting := [] }
        fillAll rounds next

/-- What becomes of the nodes of a document.  No collection is opened twice, so there are no more
rounds than nodes. -/
def ofDocument (d : Document) : Except Fault Filling := do
  let start : Filling :=
    { graph := d.graph, built := Array.replicate d.graph.size none, waiting := [] }
  fillAll (d.graph.size + 1) (<- start.build d.root)

/-!
## Values
-/

def valueFrom (values : Array Value) : Option Built -> Value
  | none => .null
  | some b =>
      let value (i : Nat) : Value := values.getD i .null
      match b with
      | .scalar v => v
      | .noNumber => .real .undefined
      | .list items => .list (items.map value)
      | .pairs items => .list (items.map fun e => .list [value e.1, value e.2])
      | .set members => .set (members.map value)
      | .mapping entries => .mapping (entries.map fun e => (value e.1, value e.2))

/-- The values of all nodes, followed so many levels down. -/
def values (s : Filling) : Nat -> Array Value
  | 0 => s.built.map fun _ => .null
  | depth + 1 =>
      let below := s.values depth
      s.built.map (valueFrom below)

end Filling

/-- The number of levels to which values are followed.  What is read from a file lies far above
the last of them, and a value that lies in itself ends there. -/
def depthLimit : Nat :=
  64

def Document.value (d : Document) : Except Fault Value := do
  let filled <- Filling.ofDocument d
  return (filled.values depthLimit).getD d.root .null

def parse (text : List Char) (ending : Option Fault) : Except Fault Value := do
  match <- Document.ofTokens (tokens text ending) with
  | none => return .null
  | some d => d.value

end Yaml
end Joinery
