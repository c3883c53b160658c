import Joinery.SourceModule.Imports

/-!
# Export statements

## The forms of an export

A module exports the name of a declaration, a default value, a list of names in
braces or another module as a whole; older code assigns to `exports`.  Each form
is found on its own, from the start of a line.
-/

namespace Joinery
namespace SourceModule

open Text

def declarationKinds : List (Matcher Unit) :=
  (do
    keyword "const"
    Matcher.word "enum") ::
  ["const", "let", "var", "class", "interface", "type", "enum", "namespace", "function"].map
    Matcher.word

/-- What separates a declaration's kind from its name: a star with blanks, or blanks alone. -/
def declarationGap : Matcher Unit :=
  Matcher.orElse
    (do
      Matcher.blanks
      Matcher.letters ['*']
      Matcher.blanks)
    Matcher.blanks1

def declarationForm : Matcher String := do
  indentation
  keyword "export"
  let _ <- Matcher.optional (keyword "declare")
  let default <- Matcher.optional (keyword "default")
  let _ <- Matcher.optional (keyword "async")
  let _ <- Matcher.optional (keyword "abstract")
  Matcher.anyOf declarationKinds
  declarationGap
  let name <- identifier
  Matcher.give (if default.isSome then defaultExport else name)

def defaultForm : Matcher Unit := do
  indentation
  keyword "export"
  Matcher.word "default"
  Matcher.wordEdge

def bracedForm : Matcher (List String × Option String) := do
  indentation
  keyword "export"
  let _ <- Matcher.optional (keyword "type")
  let clause <- braced
  let source <- Matcher.optional do
    Matcher.blanks
    fromSource
  Matcher.give (exportedNames clause, source)

def starForm : Matcher (Option String × String) := do
  indentation
  keyword "export"
  let _ <- Matcher.optional (keyword "type")
  Matcher.letters ['*']
  Matcher.blanks
  let name <- Matcher.optional do
    keyword "as"
    let name <- identifier
    Matcher.blanks1
    Matcher.give name
  let source <- fromSource
  Matcher.give (name, source)

def assignment : Matcher Unit := do
  Matcher.blanks
  Matcher.letters ['=']
  Matcher.notNext '='

def assignedForm : Matcher String := do
  indentation
  let _ <- Matcher.optional (Matcher.word "module.")
  Matcher.word "exports."
  let name <- identifier
  assignment
  Matcher.give name

def assignedModuleForm : Matcher (List String) := do
  indentation
  Matcher.word "module.exports"
  assignment
  Matcher.blanks
  let clause <- Matcher.optional braced
  Matcher.give ((clause.map objectKeys).getD [])

def exportsOfCode (code : List Char) : Exports :=
  let declared := (findAll declarationForm code).map (·.value)
  let default := if (findAll defaultForm code).isEmpty then [] else [defaultExport]
  let listed := (findAll bracedForm code).flatMap (·.value.1)
  let stars := (findAll starForm code).map (·.value)
  let assigned := (findAll assignedForm code).map (·.value)
  let objects := (findAll assignedModuleForm code).map (·.value)
  let names := declared ++ default ++ listed ++ stars.filterMap (·.1) ++ assigned ++
    objects.flatMap fun keys => defaultExport :: keys
  { names := names.eraseDups
    starSources := stars.filterMap fun star => if star.1.isNone then some star.2 else none
    commonjs := !(assigned.isEmpty && objects.isEmpty) }

def reexportsOfCode (code : List Char) : List Reexport :=
  let listed := (findAll bracedForm code).filterMap fun found =>
    found.value.2.map fun source =>
      { source := source, line := found.place.line, names := found.value.1 : Reexport }
  let stars := (findAll starForm code).map fun found =>
    { source := found.value.2
      line := found.place.line
      names := found.value.1.toList
      star := found.value.1.isNone : Reexport }
  sortBy (fun a b => decide (a.line ≤ b.line)) (listed ++ stars)

def scan (path : String) (text : String) : SourceModule :=
  let code := withoutComments text.toList
  { path := path
    imports := importsOfCode code
    exports := exportsOfCode code
    reexports := reexportsOfCode code }

end SourceModule
end Joinery
