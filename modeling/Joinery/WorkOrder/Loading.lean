import Joinery.Json.Reader
import Joinery.Schema.Models
import Joinery.Yaml.File

/-!
# Files of work orders

## A list, alone or in a mapping

Work orders come in a JSON file, or in a YAML file if its name says so.  The file holds
a list of them, or a mapping with such a list.  All of them are checked in order.
-/

namespace Joinery
namespace WorkOrder

def yamlExtensions : List String :=
  [".yaml", ".yml"]

def isYamlFile (l : Location) : Bool :=
  yamlExtensions.contains (String.ofList (l.extension.toList.map Char.toLower))

def jsonData (path : String) (bytes : ByteArray) : Except Obstacle Value :=
  let data := match Utf8.decode bytes with
    | .ok text => Json.parse .rounded text.toList
    | .error _ => none
  match data with
  | some v => .ok v
  | none => .error (.orderFile (.notJson path))

def yamlData (path : String) (bytes : ByteArray) : Except Obstacle Value :=
  Yaml.ofFile (.orderFile (.notYaml path)) bytes

def listIn (data : Value) : Option (List Value) :=
  let found := match data with
    | .mapping entries => (Value.entry? "work_orders" entries).getD .null
    | v => v
  match found with
  | .list items => some items
  | _ => none

def decodeAll (path : String) (position : Nat) :
    List Value -> Except OrderFileError (List WorkOrder)
  | [] => .ok []
  | v :: rest =>
      match decode v with
      | .faults faults => .error (.invalid position path faults)
      | .value order => (decodeAll path (position + 1) rest).map fun orders => order :: orders

def ofData (path : String) (data : Value) : Except Obstacle (List WorkOrder) :=
  match listIn data with
  | none => .error (.orderFile (.notList path))
  | some items => (decodeAll path 0 items).mapError .orderFile

def load (d : Disk) (l : Location) : Except Obstacle (List WorkOrder) := do
  let bytes <- (d.read l).mapError .disk
  let data <- if isYamlFile l then yamlData l.text bytes else jsonData l.text bytes
  ofData l.text data

end WorkOrder
end Joinery
