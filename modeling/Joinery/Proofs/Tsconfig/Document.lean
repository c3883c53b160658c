import Joinery.Proofs.Json.Tokens
import Joinery.Proofs.Json.Values

/-!
# Relaxed documents

## A grammar of what may be written

Between two tokens of a document may stand blanks and remarks, and behind the last item of a
list or mapping a comma.  One document is written in several layouts: as it is, without its
remarks, without its superfluous commas too, and with nothing between its tokens.
-/

namespace Joinery
namespace Tsconfig

open Json (Scalar StringPart quoted)

/-!
# Gaps between tokens
-/

/-- A piece of what stands between two tokens. -/
inductive Filler where
  | space (c : Char) (hspace : Json.isSpace c = true)
  /-- a remark that ends with its line -/
  | line (remark : List Char) (hline : '\n' ∉ remark)
  /-- a remark between a slash with a star and a star with a slash -/
  | block (remark : List Char) (hblock : ¬ ['*', '/'] <:+: remark)

abbrev Gap := List Filler

/-- How the gaps and the superfluous commas of a document are written. -/
structure Layout where
  filler : Filler -> List Char
  commas : Bool
  /-- the last line, if it is a remark that no line end follows -/
  lastLine : List Char -> List Char

namespace Layout

def full : Layout :=
  { filler := fun f =>
      match f with
      | .space c _ => [c]
      | .line remark _ => '/' :: '/' :: (remark ++ ['\n'])
      | .block remark _ => '/' :: '*' :: (remark ++ ['*', '/'])
    commas := true
    lastLine := fun remark => '/' :: '/' :: remark }

def bare : Layout :=
  { filler := fun f =>
      match f with
      | .space c _ => [c]
      | .line _ _ => ['\n']
      | .block _ _ => []
    commas := true
    lastLine := fun _ => [] }

def strict (l : Layout) : Layout :=
  { l with commas := false }

def dense : Layout :=
  { filler := fun _ => []
    commas := false
    lastLine := fun _ => [] }

def gap (l : Layout) (g : Gap) : List Char :=
  g.flatMap l.filler

@[simp]
theorem gap_nil (l : Layout) : l.gap [] = [] :=
  rfl

@[simp]
theorem gap_cons (l : Layout) (f : Filler) (g : Gap) : l.gap (f :: g) = l.filler f ++ l.gap g :=
  rfl

def comma (l : Layout) : Option Gap -> List Char
  | none => []
  | some g => (if l.commas then [','] else []) ++ l.gap g

end Layout

/-!
# Documents
-/

mutual

inductive Node where
  | scalar (s : Scalar)
  | emptyList (inside : Gap)
  | list (items : Items)
  | emptyMapping (inside : Gap)
  | mapping (entries : Entries)

/-- Items of a list, with the gaps around them; a comma may follow the last one. -/
inductive Items where
  | last (before : Gap) (item : Node) (after : Gap) (comma : Option Gap)
  | more (before : Gap) (item : Node) (after : Gap) (rest : Items)

/-- Entries of a mapping, with the gaps around keys and values. -/
inductive Entries where
  | last (before : Gap) (key : List StringPart) (afterKey : Gap) (beforeItem : Gap) (item : Node)
      (after : Gap) (comma : Option Gap)
  | more (before : Gap) (key : List StringPart) (afterKey : Gap) (beforeItem : Gap) (item : Node)
      (after : Gap) (rest : Entries)

end

mutual

def Node.text (l : Layout) : Node -> List Char
  | .scalar s => s.text
  | .emptyList inside => '[' :: (l.gap inside ++ [']'])
  | .list items => '[' :: (items.text l ++ [']'])
  | .emptyMapping inside => '{' :: (l.gap inside ++ ['}'])
  | .mapping entries => '{' :: (entries.text l ++ ['}'])

def Items.text (l : Layout) : Items -> List Char
  | .last before item after comma =>
      l.gap before ++ item.text l ++ l.gap after ++ l.comma comma
  | .more before item after rest =>
      l.gap before ++ item.text l ++ l.gap after ++ ',' :: rest.text l

def Entries.text (l : Layout) : Entries -> List Char
  | .last before key afterKey beforeItem item after comma =>
      l.gap before ++ quoted key ++ l.gap afterKey ++ ':' ::
        (l.gap beforeItem ++ item.text l ++ l.gap after ++ l.comma comma)
  | .more before key afterKey beforeItem item after rest =>
      l.gap before ++ quoted key ++ l.gap afterKey ++ ':' ::
        (l.gap beforeItem ++ item.text l ++ l.gap after ++ ',' :: rest.text l)

end

mutual

def Node.value? (wide : Json.WideIntegers) : Node -> Option Value
  | .scalar s => s.value? wide
  | .emptyList _ => some (.list [])
  | .list items => (items.values? wide).map .list
  | .emptyMapping _ => some (.mapping [])
  | .mapping entries => (entries.entries? wide).map .mapping

def Items.values? (wide : Json.WideIntegers) : Items -> Option (List Value)
  | .last _ item _ _ => (item.value? wide).map fun v => [v]
  | .more _ item _ rest =>
      (item.value? wide).bind fun v => (rest.values? wide).map (v :: ·)

def Entries.entries? (wide : Json.WideIntegers) : Entries -> Option (List (Value × Value))
  | .last _ key _ _ item _ _ =>
      (StringPart.meaning? key).bind fun k =>
        (item.value? wide).map fun v => [(.text (String.ofList k), v)]
  | .more _ key _ _ item _ rest =>
      (StringPart.meaning? key).bind fun k =>
        (item.value? wide).bind fun v =>
          (rest.entries? wide).map ((.text (String.ofList k), v) :: ·)

end

/-- A document: a value with a gap on each side, and perhaps a remark on its last line. -/
structure Document where
  before : Gap
  node : Node
  after : Gap
  lastLine : Option { remark : List Char // '\n' ∉ remark }

namespace Document

def text (l : Layout) (d : Document) : List Char :=
  l.gap d.before ++ d.node.text l ++ l.gap d.after ++
    (d.lastLine.map fun remark => l.lastLine remark.1).getD []

end Document

end Tsconfig
end Joinery
