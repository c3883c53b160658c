import Joinery.Yaml.Fault
import Joinery.Yaml.Node

/-!
# Lent entries

## Mappings that take entries from others

The value under a merge key lends its entries to the mapping around it, before the
mapping's own ones.  Several mappings may lend, the first of which counts most, and
each of them may have been lent entries itself.  A merge key is taken out before its
value is looked at, so a mapping may also lend to itself.
-/

namespace Joinery
namespace Yaml
namespace Graph

def takeMerge (g : Graph) : List (Nat × Nat) -> Option (Nat × List (Nat × Nat))
  | [] => none
  | e :: rest =>
      if g.kind e.1 = .merge then some (e.2, rest)
      else (takeMerge g rest).map fun found => (found.1, e :: found.2)

def plainKeys (g : Graph) (entries : List (Nat × Nat)) : Graph :=
  entries.foldl (fun g e => if g.kind e.1 = .default then g.setKind e.1 .text else g) g

mutual

def merged : Nat -> Graph -> Nat -> Except Fault Graph
  | 0, _, _ => .error .malformed
  | fuel + 1, g, i => do
      let (lent, g) <- lentTo fuel g i
      let own := g.entries i
      return (g.plainKeys own).setContent i (.mapping (lent ++ own))

def lentTo : Nat -> Graph -> Nat -> Except Fault (List (Nat × Nat) × Graph)
  | 0, _, _ => .error .malformed
  | fuel + 1, g, i =>
      match g.takeMerge (g.entries i) with
      | none => .ok ([], g)
      | some (lender, others) => do
          let (lent, g) <- lentBy fuel (g.setContent i (.mapping others)) lender
          let (more, g) <- lentTo fuel g i
          return (lent ++ more, g)

def lentBy : Nat -> Graph -> Nat -> Except Fault (List (Nat × Nat) × Graph)
  | 0, _, _ => .error .malformed
  | fuel + 1, g, i =>
      match g.content i with
      | .mapping _ => do
          let g <- merged fuel g i
          return (g.entries i, g)
      | .sequence items => lentByAll fuel g items
      | .scalar _ => .error .malformed

def lentByAll : Nat -> Graph -> List Nat -> Except Fault (List (Nat × Nat) × Graph)
  | 0, _, _ => .error .malformed
  | _ + 1, g, [] => .ok ([], g)
  | fuel + 1, g, i :: rest =>
      match g.content i with
      | .mapping _ => do
          let g <- merged fuel g i
          let lent := g.entries i
          let (others, g) <- lentByAll fuel g rest
          return (others ++ lent, g)
      | _ => .error .malformed

end

def memberCount (g : Graph) : Nat :=
  g.foldl
    (fun count n =>
      match n.content with
      | .scalar _ => count
      | .sequence items => count + items.length
      | .mapping entries => count + entries.length)
    0

/-- The graph where a mapping has the entries that it is lent.  Each step takes a merge key out or
goes on to the next member of a list, and no merge key ever comes in. -/
def merge (g : Graph) (i : Nat) : Except Fault Graph :=
  let members := g.memberCount + 1
  merged (4 * members * members) g i

end Graph
end Yaml
end Joinery
