import Joinery.Text.Letter
import Joinery.Value.Binary64
import Joinery.Value.Moment

/-!
# Values of data files

## Data whose shape is not known yet

What a JSON or YAML file holds, before it is checked against the form that the
reader expects.  A mapping keeps its entries in the order of the file.
-/

namespace Joinery

/-- A piece of data of any shape. -/
inductive Value where
  | null
  | bool (value : Bool)
  | int (value : Int)
  | real (value : Binary64)
  | text (value : String)
  /-- a text that holds halves of pairs -/
  | halves (letters : Letters)
  /-- bytes that stand in a text file in an encoded form -/
  | bytes (value : List UInt8)
  | moment (value : Moment)
  | list (items : List Value)
  /-- members without order and without values -/
  | set (members : List Value)
  | mapping (entries : List (Value × Value))
deriving Repr

namespace Value

def entry? (key : String) (entries : List (Value × Value)) : Option Value :=
  match entries with
  | [] => none
  | (.text k, v) :: rest => if k = key then some v else entry? key rest
  | _ :: rest => entry? key rest

def get? (key : String) : Value -> Option Value
  | .mapping entries => entry? key entries
  | _ => none

end Value
end Joinery
