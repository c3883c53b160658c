/-!
# Source modules

## What a source file says about its neighbours

A module of TypeScript or JavaScript imports names from other modules, exports
names of its own and passes names of other modules on.  This file holds the
records of these statements.
-/

namespace Joinery

inductive Imported where
  /-- the module as a whole, under one name -/
  | whole
  /-- one export; a default import asks for `default` -/
  | named (name : String)
deriving DecidableEq, Repr

structure Binding where
  imported : Imported
  localName : String
  typeOnly : Bool := false
deriving DecidableEq, Repr

/-- One import statement, or a `require` call that takes the place of one. -/
structure Import where
  source : String
  line : Nat
  bindings : List Binding := []
  typeOnly : Bool := false
deriving DecidableEq, Repr

structure Reexport where
  source : String
  line : Nat
  names : List String := []
  star : Bool := false
deriving DecidableEq, Repr

/-- The names that a module exports, each once, and the modules it passes on as a whole. -/
structure Exports where
  names : List String := []
  starSources : List String := []
  commonjs : Bool := false
deriving DecidableEq, Repr

/-- All that one source file says about other modules. -/
structure SourceModule where
  path : String
  imports : List Import := []
  exports : Exports := {}
  reexports : List Reexport := []
deriving DecidableEq, Repr

def defaultExport : String :=
  "default"

namespace Import

def names (i : Import) : List String :=
  i.bindings.map fun b =>
    if b.imported = .named defaultExport then defaultExport else b.localName

def requested (i : Import) : List String :=
  i.bindings.filterMap fun b =>
    match b.imported with
    | .whole => none
    | .named name => some name

end Import

namespace Exports

def hasDefault (e : Exports) : Bool :=
  e.names.contains defaultExport

end Exports
end Joinery
