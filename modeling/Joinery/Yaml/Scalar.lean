import Joinery.Value.Basic
import Joinery.Yaml.Base64
import Joinery.Yaml.Kind
import Joinery.Yaml.Node
import Joinery.Yaml.Numeral

/-!
# The values of scalars

## A reading for each kind

A scalar is read as its kind says.  A mapping can stand in the place of a scalar: its
text is then the text of the entry whose key says that it stands for the whole.
-/

namespace Joinery
namespace Yaml

def truthOf (letters : Letters) : Except Fault Bool :=
  let word := Text.small letters
  match word.text?.bind fun cs => Kind.truthWords.lookup (String.ofList cs) with
  | some b => .ok b
  | none => .error (.noTruthValue (Value.quotedLetters word))

def momentOf (letters : Letters) : Except Fault Moment :=
  match letters.text?.bind fun cs => MomentText.ofText? (Kind.withoutLineEnd cs) with
  | none => .error .noDate
  | some m =>
      match MomentText.fault? m with
      | some fault => .error fault
      | none => .ok m

def bytesOf (letters : Letters) : Except Fault (List UInt8) :=
  let bytes? :=
    letters.text?.bind fun cs =>
      if cs.all fun c => c.toNat < 128 then Base64.bytes? cs else none
  match bytes? with
  | some bytes => .ok bytes
  | none => .error .malformed

def textOf (letters : Letters) : Value :=
  match letters.text? with
  | some cs => .text (String.ofList cs)
  | none => .halves letters

def scalarValue (kind : Kind) (letters : Letters) : Except Fault Value :=
  match kind with
  | .null => .ok .null
  | .bool => .bool <$> truthOf letters
  | .integer => .int <$> integerOf letters
  | .real => .real <$> realOf letters
  | .bytes => .bytes <$> bytesOf letters
  | .moment => .moment <$> momentOf letters
  | .text => .ok (textOf letters)
  | _ => .error .malformed

namespace Graph

def default? (g : Graph) (entries : List (Nat × Nat)) : Option Nat :=
  (entries.find? fun e => g.kind e.1 = .default).map (·.2)

def textWithin (g : Graph) : Nat -> Nat -> Except Fault Letters
  | 0, _ => .error .endless
  | depth + 1, i =>
      match g.content i with
      | .scalar text => .ok text
      | .sequence _ => .error .malformed
      | .mapping entries =>
          match g.default? entries with
          | none => .error .malformed
          | some value => textWithin g depth value

def text (g : Graph) (i : Nat) : Except Fault Letters :=
  g.textWithin (g.size + 1) i

def scalar (g : Graph) (i : Nat) : Except Fault Value := do
  let letters <- g.text i
  match g.kind i, g.content i with
  | .moment, .mapping _ => .error .notScalar
  | kind, _ => scalarValue kind letters

end Graph
end Yaml
end Joinery
