import Joinery.Assembly.Assemble
import Joinery.Assembly.Saved
import Joinery.CommandLine.Arguments
import Joinery.CommandLine.Session
import Joinery.Config.Loading
import Joinery.Disk.Project
import Joinery.WorkOrder.Loading

/-!
# Commands

## Assembling and checking from the command line

`assemble` puts work orders together and writes the files.  `validate`, `missing` and
`deps` look at a project as it lies on the disk.  `init` writes a configuration file.
-/

namespace Joinery
namespace Command

/-!
## Configuration
-/

def commonOptions : OptionTable :=
  [("--help", .gives "help" "yes")]

def configOptions : OptionTable :=
  [("--config", .takes "config"), ("-c", .takes "config"), ("--alias", .takes "alias"),
    ("-a", .takes "alias")]

def filled? (a : Arguments) (setting : String) : Option String :=
  (a.value? setting).bind fun text => if text.isEmpty then none else some text

def configOf (d : Disk) (a : Arguments) (projectName : Option String) (passes : Option Int) :
    Except Obstacle Config := do
  let aliases <- (aliasesOfArguments (a.values "alias")).mapError fun f => .config (.argument f)
  match filled? a "config" with
  | some path =>
      let config <- Config.load d (.ofText path)
      (Config.ofDecoded (config.override aliases passes)).mapError .config
  | none =>
      let names : Decode.Fields := projectName.toList.map fun name =>
        (.text "project_name", .text name)
      (Config.ofDecoded (Config.ofSettings (names ++ Config.settingsOf aliases passes))).mapError
        .config

def resolveConfig (a : Arguments) (projectName : Option String) (passes : Option Int) :
    Command Config := do
  let d <- disk
  get (configOf d a projectName passes)

def existing (path : String) : Command Location := do
  let d <- disk
  let l := Location.ofText path
  if <- get ((d.holds l).mapError .disk) then pure l else refuse

def projectFiles (config : Config) (path : String) : Command (Table String) := do
  let l <- existing path
  let d <- disk
  pure (d.loadProject l config.resolver.extensions)

/-!
## Assembling
-/

def alone : Company Empty :=
  { onEvent := fun _ => none, fixes := none, generate := none }

def obstacleOf : Assembly.Error Empty -> Obstacle
  | .concurrent project => .concurrent project
  | .failed (.input e) => .input e
  | .failed (.raised e) => nomatch e

def runAssembly (config : Config) (request : AssemblyRequest) : Command AssemblyResult := do
  let outcome := Assembly.assemble alone config {} request
  printAll (outcome.log.events.flatMap Printed.ofEvent)
  get (outcome.result.mapError obstacleOf)

def writeFiles (directory : String) (r : AssemblyResult) : Command Unit := do
  let d <- disk
  let names <- change (d.writeProject (.ofText directory) r.files)
  print (.line ("\n" ++ Printed.coloured "green" "✓" ++ " Wrote " ++ toString names.length ++
    " files to " ++ directory))

def saveResult (path : String) (r : AssemblyResult) : Command Unit := do
  let d <- disk
  change (r.save d (.ofText path))
  print (Printed.done ("Result saved to " ++ path))

def assembleOptions : OptionTable :=
  commonOptions ++ configOptions ++
    [("--project-id", .takes "project"), ("-p", .takes "project"),
      ("--existing", .takes "existing"), ("-e", .takes "existing"),
      ("--max-passes", .takes "passes"), ("--output", .takes "output"), ("-o", .takes "output"),
      ("--result", .takes "result"), ("-r", .takes "result"),
      ("--verbose", .gives "verbose" "yes"), ("-v", .gives "verbose" "yes")]

def passesOf (a : Arguments) : Command (Option Int) :=
  match a.value? "passes" with
  | none => pure none
  | some text =>
      match (Decode.integer (.text text)).value? with
      | none => refuse
      | some n => pure (some n)

def assembleProject (a : Arguments) (path : String) (passes : Option Int) : Command Unit := do
  let projectId := (a.value? "project").getD "local"
  let config <- resolveConfig a (some projectId) passes
  let l <- existing path
  let d <- disk
  let orders <- get (WorkOrder.load d l)
  let files <-
    match filled? a "existing" with
    | none => pure Table.empty
    | some directory => projectFiles config directory
  let result <- runAssembly config
    { projectId := projectId
      workOrders := orders
      projectName := config.projectName
      existing := files.entries.map fun e => (e.1, some e.2) }
  printAll (Printed.ofResult result)
  match filled? a "output" with
  | none => pure ()
  | some directory => writeFiles directory result
  match filled? a "result" with
  | none => pure ()
  | some path => saveResult path result
  if result.success then pure () else exit 1

def assemble (a : Arguments) (path : String) : Command Unit := do
  let passes <- passesOf a
  guarded (fun o => isAssemblyObstacle o || isDiskObstacle o) (a.has "verbose")
    (assembleProject a path passes)

/-!
## Looking at a project
-/

def lookOptions : OptionTable :=
  commonOptions ++ configOptions

def validateOptions : OptionTable :=
  lookOptions ++
    [("--warnings", .gives "warnings" "yes"), ("--no-warnings", .gives "warnings" "no")]

def validate (a : Arguments) (path : String) : Command Unit :=
  guarded isDiskObstacle false do
    let config <- resolveConfig a none none
    let files <- projectFiles config path
    let resolver := config.resolverFor none files
    let result <- get
      ((QuickResult.check (files.entries.map fun e => (e.1, some e.2)) (some resolver.aliases)
        resolver.extensions).mapError .input)
    let all := (a.value? "warnings").getD "yes" = "yes"
    let shown := result.diagnostics.filter fun d => all || d.isError
    if shown.isEmpty then pure () else print (Printed.diagnosticsTable shown)
    print (Printed.verdict result)
    if result.valid then pure () else exit 1

def missing (a : Arguments) (path : String) : Command Unit :=
  guarded isDiskObstacle false do
    let config <- resolveConfig a none none
    let files <- projectFiles config path
    match config.missingFiles none files with
    | [] => print (Printed.done "No missing files")
    | found => print (Printed.missingTable found)

def deps (a : Arguments) (path : String) : Command Unit :=
  guarded isDiskObstacle false do
    let config <- resolveConfig a none none
    let files <- projectFiles config path
    let resolver := config.resolverFor none files
    match Dependencies.packages resolver (scanAll resolver files) with
    | [] => print (.line (Printed.coloured "yellow" "No external dependencies found"))
    | packages => printAll (packages.map .line)

/-!
## The default configuration
-/

def initOptions : OptionTable :=
  commonOptions ++ [("--output", .takes "output"), ("-o", .takes "output")]

def defaultConfigPath : String :=
  "./codeweld.yaml"

def init (a : Arguments) : Command Unit := do
  let path := (a.value? "output").getD defaultConfigPath
  let l := Location.ofText path
  let d <- disk
  let isThere <- get ((d.holds l).mapError .disk)
  let wanted <-
    if isThere then confirm (path ++ " already exists. Overwrite?") else pure true
  if wanted then
    change (Config.saveDefault d l)
    print (Printed.done ("Generated configuration file: " ++ path))
    print (.line "\nEdit this file to set your import aliases and assembly phases.")
  else do
    print (.line (Printed.coloured "yellow" "Cancelled."))
    exit 1

/-!
## The program
-/

def withArguments (options : OptionTable) (arguments : List String)
    (command : Arguments -> Command Unit) : Command Unit :=
  match Arguments.parse options arguments with
  | none => refuse
  | some a => if a.has "help" then exit 0 else command a

def onPath (command : Arguments -> String -> Command Unit) (a : Arguments) : Command Unit :=
  match a.words with
  | [path] => command a path
  | _ => refuse

def named (name : String) (arguments : List String) : Command Unit :=
  match name with
  | "assemble" => withArguments assembleOptions arguments (onPath assemble)
  | "validate" => withArguments validateOptions arguments (onPath validate)
  | "missing" => withArguments lookOptions arguments (onPath missing)
  | "deps" => withArguments lookOptions arguments (onPath deps)
  | "init" =>
      withArguments initOptions arguments fun a => if a.words.isEmpty then init a else refuse
  | _ => refuse

def onFirst : List String -> Command Unit
  | [] => refuse
  | name :: rest => named name rest

def program (help : Bool) : List String -> Command Unit
  | [] => if help then exit 0 else refuse
  | "--help" :: rest => program true rest
  | "--" :: rest => if help then exit 0 else onFirst rest
  | name :: rest =>
      if Arguments.isOption name then refuse
      else if help then exit 0
      else named name rest

/-- A disk and what was printed after a command, and why it stopped. -/
structure Ended where
  session : Session
  stop : Stop

def run (arguments : List String) (d : Disk) (answers : List String) : Ended :=
  let (session, outcome) := program false arguments { disk := d, answers := answers }
  match outcome with
  | .ok () => { session := session, stop := .exit 0 }
  | .error stop => { session := session, stop := stop }

end Command
end Joinery
