import Joinery.Validation.ExportIndex

/-!
# Remembered export sets

## Asking one index many times

A validation asks for the export sets of the same files again and again.  What was
worked out for one question is kept for the next ones: the names of each file that was
asked for, and the links of all star re-exports, which are only worked out once a
question needs them.
-/

namespace Joinery

/-- What earlier questions to an index have left behind. -/
structure ExportMemory where
  /-- where the star re-exports of each module lead, once this was needed -/
  links : Option (Table (List String)) := none
  /-- the names of the files that were asked for -/
  known : Table (List String) := Table.empty
deriving DecidableEq, Repr

namespace ExportIndex

def starLinks (index : ExportIndex) : Table (List String) :=
  index.modules.mapValues fun path m =>
    m.exports.starSources.filterMap fun source =>
      index.resolver.resolve source path index.available

def namesAlong (index : ExportIndex) (links : Table (List String)) (path : String)
    (m : SourceModule) : List String :=
  let next (p : String) := (links.get? p).getD []
  let others := (reachable next (index.depth - 1) [path]).filter fun p => p ≠ path
  m.exports.names ++ (others.flatMap index.ownNames).filter fun name => name ≠ defaultExport

def ask (index : ExportIndex) (memory : ExportMemory) (path : String) :
    List String × ExportMemory :=
  match memory.known.get? path with
  | some names => (names, memory)
  | none =>
      match index.modules.get? path with
      | none => ([], { memory with known := memory.known.insert path [] })
      | some m =>
          if index.depth ≤ 1 then
            (m.exports.names, { memory with known := memory.known.insert path m.exports.names })
          else
            let links := memory.links.getD index.starLinks
            let names := index.namesAlong links path m
            (names, { links := some links, known := memory.known.insert path names })

def askAll (index : ExportIndex) (memory : ExportMemory) :
    List String -> List (List String) × ExportMemory
  | [] => ([], memory)
  | path :: rest =>
      let (names, next) := index.ask memory path
      let (answers, last) := index.askAll next rest
      (names :: answers, last)

end ExportIndex
end Joinery
