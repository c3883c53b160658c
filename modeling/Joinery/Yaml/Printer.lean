import Joinery.Yaml.Kind
import Joinery.Value.Basic

/-!
# Writing YAML

## Mappings and lists by layout

Each entry of a mapping and each item of a list stands on a line of its own.  A text
that could be read as something else is put into single quotes.
-/

namespace Joinery
namespace Yaml

/-- May a character stand anywhere in a text without quotes? -/
def isBareChar (c : Char) : Bool :=
  c.isAlphanum || c == '_' || c == '.' || c == '/'

def isBare (text : String) : Bool :=
  text.toList.all isBareChar && Kind.ofPlain text == .text

def writeText (text : String) : String :=
  if isBare text then text
  else
    let letters := text.toList.flatMap fun c => if c = '\'' then ['\'', '\''] else [c]
    "'" ++ String.ofList letters ++ "'"

def writeScalar : Value -> String
  | .bool true => "true"
  | .bool false => "false"
  | .int i => toString i
  | .text s => writeText s
  | .list _ => "[]"
  | .mapping _ => "\x7b\x7d"
  | _ => "null"

def margin (depth : Nat) : String :=
  String.ofList (List.replicate (2 * depth) ' ')

mutual

def writeBelow (depth : Nat) : Value -> String
  | .list (item :: items) => "\n" ++ writeItems depth (item :: items)
  | .mapping (entry :: entries) => "\n" ++ writeEntries (depth + 1) (entry :: entries)
  | v => " " ++ writeScalar v ++ "\n"

def writeItems (depth : Nat) : List Value -> String
  | [] => ""
  | item :: rest => margin depth ++ "-" ++ writeBelow depth item ++ writeItems depth rest

def writeEntries (depth : Nat) : List (Value × Value) -> String
  | [] => ""
  | (key, value) :: rest =>
      margin depth ++ writeScalar key ++ ":" ++ writeBelow depth value ++
        writeEntries depth rest

end

def write : Value -> String
  | .mapping (entry :: entries) => writeEntries 0 (entry :: entries)
  | .list (item :: items) => writeItems 0 (item :: items)
  | v => writeScalar v ++ "\n"

end Yaml
end Joinery
