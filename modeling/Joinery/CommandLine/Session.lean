import Joinery.CommandLine.Console

/-!
# Sessions

## Steps of a command

A command works on a disk, prints and asks.  What it has printed and written stays when
it stops.  A question that nobody has answered yet stops it as well; it can be run again
once the answer is there.
-/

namespace Joinery

structure Session where
  disk : Disk
  printed : List Printed := []
  /-- the lines of input that have not been read -/
  answers : List String := []

inductive Stop where
  | exit (code : Nat)
  | obstacle (obstacle : Obstacle)
  /-- the answer to a question is not there -/
  | asks (question : String)
deriving DecidableEq, Repr

def Command (α : Type) : Type :=
  Session -> Session × Except Stop α

namespace Command

instance : Monad Command where
  pure a := fun s => (s, .ok a)
  bind m next := fun s =>
    match m s with
    | (later, .ok a) => next a later
    | (later, .error stop) => (later, .error stop)

def stop (reason : Stop) : Command α :=
  fun s => (s, .error reason)

def exit (code : Nat) : Command α :=
  stop (.exit code)

def refuse : Command α :=
  exit 2

def disk : Command Disk :=
  fun s => (s, .ok s.disk)

def printAll (items : List Printed) : Command Unit :=
  fun s => ({ s with printed := s.printed ++ items }, .ok ())

def print (item : Printed) : Command Unit :=
  printAll [item]

def get (value : Except Obstacle α) : Command α :=
  fun s => (s, value.mapError .obstacle)

def change (c : Disk.Changed Obstacle α) : Command α :=
  fun s => ({ s with disk := c.disk }, c.outcome.mapError .obstacle)

def readAnswer (question : String) : Command String :=
  fun s =>
    match s.answers with
    | [] => (s, .error (.asks question))
    | answer :: rest => ({ s with answers := rest }, .ok answer)

def agreement? (answer : String) : Option Bool :=
  let word := String.ofList (Text.trim (answer.toList.map Char.toLower))
  if word = "y" || word = "yes" then some true
  else if word = "n" || word = "no" || word = "" then some false
  else none

def confirmWithin (question : String) : Nat -> Command Bool
  | 0 => stop (.asks question)
  | left + 1 => do
      let answer <- readAnswer question
      match agreement? answer with
      | some agreed => pure agreed
      | none => confirmWithin question left

def confirm (question : String) : Command Bool :=
  fun s => confirmWithin question (s.answers.length + 1) s

/-!
## Obstacles
-/

def isAssemblyObstacle : Obstacle -> Bool
  | .orderFile _ => true
  | .input _ => true
  | .concurrent _ => true
  | .outside _ _ => true
  | _ => false

/-- Obstacles that the disk reports; a name that cannot be one never reaches it. -/
def isDiskObstacle : Obstacle -> Bool
  | .disk e => e.fault != .nullCharacter
  | _ => false

def report? (reported : Obstacle -> Bool) (obstacle : Obstacle) : Option Printed :=
  let line (label : String) : Printed :=
    .line (Printed.coloured "bold red" (label ++ ":") ++ " " ++ obstacle.message)
  match obstacle with
  | .config _ => some (line "Configuration Error")
  | _ => if reported obstacle then some (line "Error") else none

def guarded (reported : Obstacle -> Bool) (traced : Bool) (c : Command Unit) : Command Unit :=
  fun s =>
    match c s with
    | (later, .error (.obstacle o)) =>
        match report? reported o with
        | none => (later, .error (.obstacle o))
        | some line =>
            let trace := if traced && reported o then [.trace o] else []
            ({ later with printed := later.printed ++ line :: trace }, .error (.exit 1))
    | other => other

end Command
end Joinery
