import Joinery.Config.Data
import Joinery.Disk.Basic
import Joinery.FileSet.Basic
import Joinery.Locks
import Joinery.Yaml.Fault

/-!
# Obstacles

## What can keep files from being read or written

Configurations, work orders and results come from files and go to files.  The obstacles
on the way are gathered here, each with its message.
-/

namespace Joinery

inductive ConfigError where
  | argument (fault : AliasFault)
  | notThere (path : String)
  | notYaml
  | empty
  | notMapping
  | invalid (faults : List Fault)
deriving DecidableEq, Repr

namespace ConfigError

def message : ConfigError -> String
  | .argument fault => fault.message
  | .notThere path => "Configuration file not found: " ++ path
  | .notYaml => "Invalid YAML in configuration file:"
  | .empty => "Configuration file is empty"
  | .notMapping => "Configuration file must contain a mapping"
  | .invalid _ => "Configuration validation failed:"

def faults : ConfigError -> List Fault
  | .invalid faults => faults
  | _ => []

end ConfigError

/-- Why a file holds no work orders. -/
inductive OrderFileError where
  | notYaml (path : String)
  | notJson (path : String)
  | notList (path : String)
  | invalid (position : Nat) (path : String) (faults : List Fault)
deriving DecidableEq, Repr

namespace OrderFileError

def message : OrderFileError -> String
  | .notYaml path => "Invalid YAML in " ++ path ++ ":"
  | .notJson path => "Invalid JSON in " ++ path ++ ":"
  | .notList path => path ++ " must contain a list of work orders"
  | .invalid position path _ => "Invalid work order #" ++ toString position ++ " in " ++ path ++ ":"

def faults : OrderFileError -> List Fault
  | .invalid _ _ faults => faults
  | _ => []

end OrderFileError

/-- Why a command cannot go on. -/
inductive Obstacle where
  | config (error : ConfigError)
  | orderFile (error : OrderFileError)
  | input (error : InputError)
  | concurrent (projectId : String)
  /-- a file would be written outside of its directory -/
  | outside (directory path : String)
  | disk (error : DiskError)
  | notText (fault : Utf8.Fault)
  /-- a scalar of a YAML file has no value -/
  | scalar (fault : Yaml.Fault)
  /-- a key of a configuration is no text -/
  | keyNotText
  /-- an integer is too large for a result file -/
  | wideInteger
  | notJson
  | invalid (faults : List Fault)
deriving DecidableEq, Repr

namespace Obstacle

def message : Obstacle -> String
  | .config error => error.message
  | .orderFile error => error.message
  | .input error => error.message
  | .concurrent project => Locks.concurrentMessage project
  | .outside directory path =>
      InputError.located ("Refusing to write outside " ++ directory) none (some path)
  | .disk error => error.message
  | .notText fault => fault.message
  | .scalar fault => fault.message
  | .keyNotText => "keywords must be strings"
  | .wideInteger => "Integer exceeds 64-bit range"
  | .notJson => ""
  | .invalid _ => ""

end Obstacle
end Joinery
