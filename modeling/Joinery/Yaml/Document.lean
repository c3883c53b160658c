import Joinery.Yaml.Layout
import Joinery.Yaml.Node

/-!
# Documents

## The graph that a sequence of tokens writes

A document is read from its tokens node by node.  Every node that is written gets a
number of its own, a collection before its members, so that an alias inside of it can
name it.  Reading stops at the first token that does not fit, and where the tokens
break off.
-/

namespace Joinery
namespace Yaml

/-- Nodes, and the number of the outermost one. -/
structure Document where
  graph : Graph
  root : Nat
deriving Repr

/-- What is left to read, with the nodes and the names so far. -/
structure Tree where
  tokens : List Token
  handles : List (String × String)
  graph : Graph
  anchors : List (String × Nat)
deriving Repr

/-- What stands before the content of a node. -/
structure Properties where
  anchor : Option String
  tag : Option String
deriving DecidableEq, Repr

namespace Tree

def on (t : Tree) (tokens : List Token) : Tree :=
  { t with tokens := tokens }

def commonHandles : List (String × String) :=
  [("!", "!"), ("!!", Kind.tagStart)]

def fullTag (t : Tree) : Option String -> String -> Except Fault String
  | none, rest => .ok rest
  | some handle, rest =>
      match t.handles.lookup handle with
      | none => .error .malformed
      | some start => .ok (start ++ rest)

def stuck (t : Tree) : Except Fault α :=
  match t.tokens with
  | .broken fault :: _ => .error fault
  | _ => .error .malformed

def properties (t : Tree) : Except Fault (Properties × Tree) :=
  match t.tokens with
  | .anchor name :: .tag handle rest :: tokens => do
      let tag <- t.fullTag handle rest
      return ({ anchor := some name, tag := some tag }, t.on tokens)
  | .tag handle rest :: .anchor name :: tokens => do
      let tag <- t.fullTag handle rest
      return ({ anchor := some name, tag := some tag }, t.on tokens)
  | .tag _ _ :: .broken fault :: _ => .error fault
  | .tag handle rest :: tokens => do
      let tag <- t.fullTag handle rest
      return ({ anchor := none, tag := some tag }, t.on tokens)
  | .anchor name :: tokens =>
      .ok ({ anchor := some name, tag := none }, t.on tokens)
  | _ => .ok ({ anchor := none, tag := none }, t)

def add (t : Tree) (anchor : Option String) (node : Node) : Nat × Tree :=
  let number := t.graph.size
  let names := (anchor.map fun name => (name, number)).toList
  (number, { t with graph := t.graph.add node, anchors := names ++ t.anchors })

def addEmpty (t : Tree) : Nat × Tree :=
  t.add none .empty

def collectionKind (tag : Option String) (usual : Kind) : Kind :=
  match tag with
  | none => usual
  | some "!" => usual
  | some tag => .ofTag tag

def scalarKind (tag : Option String) (isPlain : Bool) (text : Letters) : Kind :=
  let byForm := (text.text?.map fun cs => Kind.ofPlain (String.ofList cs)).getD .text
  match tag with
  | none => if isPlain then byForm else .text
  | some "!" => byForm
  | some tag => .ofTag tag

def addScalar (t : Tree) (given : Properties) (isPlain : Bool) (text : Letters) : Nat × Tree :=
  t.add given.anchor { kind := scalarKind given.tag isPlain text, content := .scalar text }

def addBare (t : Tree) (given : Properties) : Except Fault (Nat × Tree) :=
  if given.anchor.isSome || given.tag.isSome then .ok (t.addScalar given given.tag.isNone [])
  else t.stuck

def collection (t : Tree) (anchor : Option String) (kind : Kind) (make : List α -> Content)
    (read : Tree -> Except Fault (List α × Tree)) : Except Fault (Nat × Tree) := do
  let (number, t) := t.add anchor { kind := kind, content := make [] }
  let (members, t) <- read t
  return (number, { t with graph := t.graph.setContent number (make members) })

def startsWith (ends : Token -> Bool) (t : Tree) : Bool :=
  match t.tokens with
  | [] => true
  | token :: _ => !ends token

def endsBlockEntry : Token -> Bool
  | .blockEntry => true
  | .blockEnd => true
  | _ => false

def endsIndentlessEntry : Token -> Bool
  | .blockEntry => true
  | .key => true
  | .value => true
  | .blockEnd => true
  | _ => false

def endsBlockPart : Token -> Bool
  | .key => true
  | .value => true
  | .blockEnd => true
  | _ => false

def endsListKey : Token -> Bool
  | .value => true
  | .flowEntry => true
  | .flowSequenceEnd => true
  | _ => false

def endsListValue : Token -> Bool
  | .flowEntry => true
  | .flowSequenceEnd => true
  | _ => false

def endsMappingKey : Token -> Bool
  | .value => true
  | .flowEntry => true
  | .flowMappingEnd => true
  | _ => false

def endsMappingValue : Token -> Bool
  | .flowEntry => true
  | .flowMappingEnd => true
  | _ => false

def unlessEnds (ends : Token -> Bool) (read : Tree -> Except Fault (Nat × Tree)) (t : Tree) :
    Except Fault (Nat × Tree) :=
  if t.startsWith ends then read t else .ok t.addEmpty

def afterColon (ends : Token -> Bool) (read : Tree -> Except Fault (Nat × Tree)) (t : Tree) :
    Except Fault (Nat × Tree) :=
  match t.tokens with
  | .value :: rest => unlessEnds ends read (t.on rest)
  | _ => .ok t.addEmpty

def afterComma (isFirst : Bool) (t : Tree) : Except Fault Tree :=
  match isFirst, t.tokens with
  | true, _ => .ok t
  | false, .flowEntry :: rest => .ok (t.on rest)
  | false, _ => t.stuck

mutual

/-- The node that stands here.  Lists and mappings by layout are read in `block` only, and a
list without an indentation of its own where `indentless` says so. -/
def node (block indentless : Bool) : Nat -> Tree -> Except Fault (Nat × Tree)
  | 0, _ => .error .malformed
  | fuel + 1, t =>
      match t.tokens with
      | .reference name :: rest =>
          match t.anchors.lookup name with
          | none => .error .malformed
          | some number => .ok (number, t.on rest)
      | _ => do
          let (given, t) <- t.properties
          let isTaken := given.anchor.any fun name => (t.anchors.lookup name).isSome
          let listKind := collectionKind given.tag .list
          let mappingKind := collectionKind given.tag .mapping
          match t.tokens with
          | [] => if isTaken then .error .malformed else t.addBare given
          | .broken fault :: _ => .error fault
          | token :: rest =>
              let inner := t.on rest
              if isTaken then .error .malformed
              else
                match token with
                | .scalar text isPlain => return inner.addScalar given isPlain text
                | .flowSequence =>
                    inner.collection given.anchor listKind .sequence (flowItems true fuel)
                | .flowMapping =>
                    inner.collection given.anchor mappingKind .mapping (flowEntries true fuel)
                | _ =>
                    if indentless && token = .blockEntry then
                      t.collection given.anchor listKind .sequence (indentlessItems fuel)
                    else if block && token = .blockSequence then
                      inner.collection given.anchor listKind .sequence (blockItems fuel)
                    else if block && token = .blockMapping then
                      inner.collection given.anchor mappingKind .mapping (blockEntries fuel)
                    else t.addBare given

def blockItems : Nat -> Tree -> Except Fault (List Nat × Tree)
  | 0, _ => .error .malformed
  | fuel + 1, t =>
      match t.tokens with
      | .blockEntry :: rest => do
          let (item, t) <-
            unlessEnds endsBlockEntry (node true false fuel) (t.on rest)
          let (items, t) <- blockItems fuel t
          return (item :: items, t)
      | .blockEnd :: rest => .ok ([], t.on rest)
      | _ => t.stuck

def indentlessItems : Nat -> Tree -> Except Fault (List Nat × Tree)
  | 0, _ => .error .malformed
  | fuel + 1, t =>
      match t.tokens with
      | .blockEntry :: rest => do
          let (item, t) <-
            unlessEnds endsIndentlessEntry (node true false fuel) (t.on rest)
          let (items, t) <- indentlessItems fuel t
          return (item :: items, t)
      | _ => .ok ([], t)

def blockEntries : Nat -> Tree -> Except Fault (List (Nat × Nat) × Tree)
  | 0, _ => .error .malformed
  | fuel + 1, t =>
      match t.tokens with
      | .key :: rest => do
          let (key, t) <-
            unlessEnds endsBlockPart (node true true fuel) (t.on rest)
          let (value, t) <- afterColon endsBlockPart (node true true fuel) t
          let (entries, t) <- blockEntries fuel t
          return ((key, value) :: entries, t)
      | .blockEnd :: rest => .ok ([], t.on rest)
      | _ => t.stuck

def flowItems (isFirst : Bool) : Nat -> Tree -> Except Fault (List Nat × Tree)
  | 0, _ => .error .malformed
  | fuel + 1, t =>
      match t.tokens with
      | .flowSequenceEnd :: rest => .ok ([], t.on rest)
      | _ => do
          let t <- afterComma isFirst t
          match t.tokens with
          | .flowSequenceEnd :: rest => return ([], t.on rest)
          | .key :: rest =>
              let (item, t) <-
                (t.on rest).collection none .mapping .mapping fun t => do
                  let (key, t) <- unlessEnds endsListKey (node false false fuel) t
                  let (value, t) <- afterColon endsListValue (node false false fuel) t
                  return ([(key, value)], t)
              let (items, t) <- flowItems false fuel t
              return (item :: items, t)
          | _ =>
              let (item, t) <- node false false fuel t
              let (items, t) <- flowItems false fuel t
              return (item :: items, t)

def flowEntries (isFirst : Bool) : Nat -> Tree -> Except Fault (List (Nat × Nat) × Tree)
  | 0, _ => .error .malformed
  | fuel + 1, t =>
      match t.tokens with
      | .flowMappingEnd :: rest => .ok ([], t.on rest)
      | _ => do
          let t <- afterComma isFirst t
          match t.tokens with
          | .flowMappingEnd :: rest => return ([], t.on rest)
          | .key :: rest =>
              let (key, t) <-
                unlessEnds endsMappingKey (node false false fuel) (t.on rest)
              let (value, t) <- afterColon endsMappingValue (node false false fuel) t
              let (entries, t) <- flowEntries false fuel t
              return ((key, value) :: entries, t)
          | _ =>
              let (key, t) <- node false false fuel t
              let (value, t) := t.addEmpty
              let (entries, t) <- flowEntries false fuel t
              return ((key, value) :: entries, t)

end

/-!
## Documents
-/

def directives (version : Bool) (handles : List (String × String)) :
    List Token -> Except Fault (List (String × String) × List Token)
  | .directive (.version major _) :: rest =>
      if version || major ≠ 1 then .error .malformed else directives true handles rest
  | .directive (.tagHandle handle start) :: rest =>
      if (handles.lookup handle).isSome then .error .malformed
      else directives version ((handle, start) :: handles) rest
  | .directive (.other _) :: rest => directives version handles rest
  | rest => .ok (handles ++ commonHandles, rest)

def isDocumentMark : Token -> Bool
  | .directive _ => true
  | .documentStart => true
  | .documentEnd => true
  | _ => false

/-- Nothing but ends of documents may stand after a document.  Directives after it are read
before it is clear that there is one document too many. -/
def checkEnd (t : Tree) : Except Fault Unit :=
  match t.tokens.dropWhile (· == .documentEnd) with
  | [] => .ok ()
  | rest => do
      let (_, rest) <- directives false [] rest
      (t.on rest).stuck

def document (isMarked : Bool) (handles : List (String × String)) (tokens : List Token) :
    Except Fault Document := do
  let fuel := 2 * tokens.length + 2
  let t : Tree := { tokens := tokens, handles := handles, graph := #[], anchors := [] }
  let (root, t) <-
    if isMarked && tokens.head?.all isDocumentMark then pure t.addEmpty
    else node true false fuel t
  t.checkEnd
  return { graph := t.graph, root := root }

end Tree

namespace Document

def ofTokens (tokens : List Token) : Except Fault (Option Document) :=
  match tokens with
  | [] => .ok none
  | .documentStart :: rest => some <$> Tree.document true Tree.commonHandles rest
  | .directive _ :: _ => do
      let (handles, rest) <- Tree.directives false [] tokens
      match rest with
      | .documentStart :: rest => some <$> Tree.document true handles rest
      | .broken fault :: _ => .error fault
      | _ => .error .malformed
  | _ => some <$> Tree.document false Tree.commonHandles tokens

end Document
end Yaml
end Joinery
