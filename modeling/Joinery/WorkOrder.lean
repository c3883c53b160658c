/-!
# Work orders

## Operations on the files of a project

A work order is a batch of file operations.  It may carry a number that puts it in
order and the label of a phase.
-/

namespace Joinery

inductive FileAction where
  | create
  | modify
  | delete
deriving DecidableEq, Repr

namespace FileAction

def text : FileAction -> String
  | .create => "create"
  | .modify => "modify"
  | .delete => "delete"

end FileAction

structure FileOperation where
  path : String
  action : FileAction
  content : Option String := none
  description : Option String := none
deriving DecidableEq, Repr

structure WorkOrder where
  id : String
  title : String := ""
  description : String := ""
  files : List FileOperation := []
  order : Option Int := none
  phase : Option String := none
  dependencies : List String := []
deriving DecidableEq, Repr

end Joinery
