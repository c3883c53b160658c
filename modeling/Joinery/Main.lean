import Joinery.CommandLine.Commands

/-!
# The program

## From the real disk to a disk and back

The program reads the working directory and what its arguments name outside of it, runs
the command on that, prints what the command printed and writes the files that the
command wrote.  It decides nothing itself.
-/

namespace Joinery
namespace Main

partial def itemsAt (names : List String) (entry : IO.FS.DirEntry) :
    IO (List (List String × DiskItem)) := do
  let here := names ++ [entry.fileName]
  if <- entry.path.isDir then
    let below <- (<- entry.path.readDir).toList.mapM (itemsAt here)
    return (here, .directory) :: below.flatten
  else
    let content <- IO.FS.readBinFile entry.path
    return [(here, .file content)]

def above (names : List String) : List (List String × DiskItem) :=
  (List.range names.length).map fun depth => (names.take depth, .directory)

def namedOutside (workingDirectory : List String) (argument : String) :
    IO (List (List String × DiskItem)) := do
  let names := (Location.ofText argument).absolute workingDirectory
  let entry : IO.FS.DirEntry :=
    { root := (Location.rooted names.dropLast).text, fileName := names.getLast?.getD "" }
  if names.isEmpty || workingDirectory.isPrefixOf names then return []
  else if <- entry.path.pathExists then
    return above names ++ (<- itemsAt names.dropLast entry)
  else return []

def readDisk (arguments : List String) : IO Disk := do
  let directory <- IO.currentDir
  let names := Location.namesOf directory.toString
  let inside <- (<- directory.readDir).toList.mapM (itemsAt names)
  let outside <- arguments.mapM (namedOutside names)
  let blank := Disk.blank names
  return { blank with items := blank.items ++ above names ++ inside.flatten ++ outside.flatten }

def changes (before after : Disk) : List (List String × DiskItem) :=
  after.items.filter fun e =>
    match e.2, before.item? e.1 with
    | .file content, some (.file old) => content.data != old.data
    | .file _, _ => true
    | .directory, old => old.isNone

def writeItem (item : List String × DiskItem) : IO Unit := do
  let path := (Location.rooted item.1).text
  match item.2 with
  | .directory => IO.FS.createDirAll path
  | .file content => IO.FS.writeBinFile path content

partial def runWith (arguments : List String) (disk : Disk) (answers : List String) :
    IO Command.Ended := do
  let ended := Command.run arguments disk answers
  match ended.stop with
  | .asks question =>
      IO.print (question ++ " [y/N]: ")
      let line <- (<- IO.getStdin).getLine
      if line.isEmpty then return ended else runWith arguments disk (answers ++ [line])
  | _ => return ended

def exitCode (ended : Command.Ended) : IO UInt32 :=
  match ended.stop with
  | .exit code => return UInt32.ofNat code
  | .asks _ => return 1
  | .obstacle obstacle => do
      IO.eprintln obstacle.message
      return 1

end Main
end Joinery

def main (arguments : List String) : IO UInt32 := do
  let disk <- Joinery.Main.readDisk arguments
  let ended <- Joinery.Main.runWith arguments disk []
  for line in ended.session.printed.flatMap Joinery.Printed.plain do
    IO.println line
  for item in Joinery.Main.changes disk ended.session.disk do
    Joinery.Main.writeItem item
  Joinery.Main.exitCode ended
