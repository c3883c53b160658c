import Joinery.Yaml.File
import Joinery.Yaml.Printer

/-!
# Configuration files

## Reading a configuration and writing the default one

A configuration file is a YAML mapping with text keys.  The default file sets every
option to its default.
-/

namespace Joinery
namespace Config

def ofDecoded (d : Decoded Config) : Except ConfigError Config :=
  d.toExcept.mapError .invalid

def ofMapping (entries : List (Value × Value)) : Except Obstacle Config :=
  let isText : Value -> Bool
    | .text _ => true
    | .halves _ => true
    | _ => false
  if entries.all fun e => isText e.1 then (ofDecoded (decode (.mapping entries))).mapError .config
  else .error .keyNotText

def ofData : Value -> Except Obstacle Config
  | .null => .error (.config .empty)
  | .mapping entries => ofMapping entries
  | _ => .error (.config .notMapping)

def load (d : Disk) (l : Location) : Except Obstacle Config := do
  if !(<- (d.holds l).mapError .disk) then .error (.config (.notThere l.text))
  else
    let bytes <- (d.read l).mapError .disk
    ofData (<- Yaml.ofFile (.config .notYaml) bytes)

def defaultFileName : String :=
  "my_project"

def defaultText : String :=
  Yaml.write ({ projectName := defaultFileName : Config }).toValue

def saveDefault (d : Disk) (l : Location) : Disk.Changed Obstacle Unit :=
  (d.writeWithin l (Utf8.encode defaultText)).mapError .disk

end Config
end Joinery
