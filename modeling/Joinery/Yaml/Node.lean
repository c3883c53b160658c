import Joinery.Text.Letter
import Joinery.Yaml.Kind

/-!
# Nodes

## Nodes under numbers

A node is a scalar, a sequence or a mapping, and each has a kind.  An alias stands for
the very node that its anchor names, which may be the one that the alias lies in, so
nodes do not form a tree: they are kept in a graph under their numbers, and a
collection names its members by theirs.
-/

namespace Joinery
namespace Yaml

inductive Content where
  | scalar (text : Letters)
  | sequence (items : List Nat)
  | mapping (entries : List (Nat × Nat))
deriving DecidableEq, Repr

structure Node where
  kind : Kind
  content : Content
deriving DecidableEq, Repr

namespace Node

def empty : Node :=
  { kind := .null, content := .scalar [] }

end Node

abbrev Graph : Type :=
  Array Node

namespace Graph

def node (g : Graph) (i : Nat) : Node :=
  g.getD i .empty

def kind (g : Graph) (i : Nat) : Kind :=
  (g.node i).kind

def content (g : Graph) (i : Nat) : Content :=
  (g.node i).content

def entries (g : Graph) (i : Nat) : List (Nat × Nat) :=
  match g.content i with
  | .mapping entries => entries
  | _ => []

def setKind (g : Graph) (i : Nat) (kind : Kind) : Graph :=
  g.modify i fun n => { n with kind := kind }

def setContent (g : Graph) (i : Nat) (content : Content) : Graph :=
  g.modify i fun n => { n with content := content }

def add (g : Graph) (n : Node) : Graph :=
  g.push n

end Graph
end Yaml
end Joinery
