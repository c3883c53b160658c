/-!
# Arguments

## Options, flags and the words between them

An option has long names with two dashes and short ones with one.  It takes a value, or
it is a flag and stands for one.  Options and words may come in any order; after two
dashes alone there are only words.  Short flags can share a dash.
-/

namespace Joinery

inductive OptionEffect where
  /-- the value that follows is given to a setting -/
  | takes (setting : String)
  /-- a setting gets this value -/
  | gives (setting value : String)
deriving DecidableEq, Repr

abbrev OptionTable :=
  List (String × OptionEffect)

structure Arguments where
  settings : List (String × String) := []
  words : List String := []
deriving DecidableEq, Repr

namespace Arguments

def value? (a : Arguments) (setting : String) : Option String :=
  (a.settings.reverse.lookup setting)

def values (a : Arguments) (setting : String) : List String :=
  (a.settings.filter fun s => s.1 = setting).map (·.2)

def has (a : Arguments) (setting : String) : Bool :=
  (a.value? setting).isSome

def addSetting (setting value : String) (a : Arguments) : Arguments :=
  { a with settings := (setting, value) :: a.settings }

def addWord (word : String) (a : Arguments) : Arguments :=
  { a with words := word :: a.words }

/-- What an argument with a dash says: settings, and perhaps one whose value comes next. -/
structure Said where
  settings : List (String × String)
  waiting : Option String
deriving DecidableEq, Repr

def longOption? (options : OptionTable) (argument : List Char) : Option (Option Said) :=
  let name := argument.takeWhile fun c => c != '='
  let given := argument.drop name.length
  let isLong := ['-', '-'].isPrefixOf name
  match options.lookup (String.ofList name) with
  | none => none
  | some effect =>
      if !isLong then none
      else
        match effect, given with
        | .takes setting, [] => some (some { settings := [], waiting := some setting })
        | .takes setting, _ :: value =>
            some (some { settings := [(setting, String.ofList value)], waiting := none })
        | .gives setting value, [] =>
            some (some { settings := [(setting, value)], waiting := none })
        | .gives _ _, _ :: _ => some none

def shortOptions? (options : OptionTable) : List Char -> Option Said
  | [] => some { settings := [], waiting := none }
  | letter :: rest =>
      match options.lookup (String.ofList ['-', letter]) with
      | none => none
      | some (.gives setting value) =>
          (shortOptions? options rest).map fun said =>
            { said with settings := (setting, value) :: said.settings }
      | some (.takes setting) =>
          if rest.isEmpty then some { settings := [], waiting := some setting }
          else some { settings := [(setting, String.ofList rest)], waiting := none }

def said? (options : OptionTable) (argument : String) : Option Said :=
  let letters := argument.toList
  match longOption? options letters with
  | some said => said
  | none =>
      if ['-', '-'].isPrefixOf letters then none else shortOptions? options (letters.drop 1)

def isOption (argument : String) : Bool :=
  argument.toList.head? = some '-' && 1 < argument.length

def parse (options : OptionTable) : List String -> Option Arguments
  | [] => some {}
  | argument :: rest =>
      if argument = "--" then some { words := rest }
      else if !isOption argument then (parse options rest).map (addWord argument)
      else
        match said? options argument with
        | none => none
        | some said =>
            let after (a : Arguments) : Arguments :=
              { a with settings := said.settings ++ a.settings }
            match said.waiting, rest with
            | none, rest => (parse options rest).map after
            | some _, [] => none
            | some setting, value :: rest =>
                (parse options rest).map fun a => after (a.addSetting setting value)

end Arguments
end Joinery
