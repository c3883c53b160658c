/-!
# Joining and taking paths apart

## Segments, directories and extensions

Paths are cut at slashes.  The normal form has neither empty segments nor single
dots, and no double dots but at its start; of the slashes that a path begins with,
it keeps none, one or, if there are exactly two, both.
-/

namespace Joinery
namespace Path

def pushSegment (rooted : Bool) (segments : List (List Char)) (segment : List Char) :
    List (List Char) :=
  if segment = [] || segment = ['.'] then segments
  else if segment = ['.', '.'] then
    match segments with
    | [] => if rooted then [] else [segment]
    | last :: rest => if last = ['.', '.'] then segment :: segments else rest
  else segment :: segments

def leadingSlashes (path : List Char) : Nat :=
  let count := (path.takeWhile fun c => c == '/').length
  if count = 2 then 2 else min count 1

def normalChars (path : List Char) : List Char :=
  let slashes := leadingSlashes path
  let segments := (List.splitOn '/' path).foldl (pushSegment (decide (0 < slashes))) []
  let joined := List.replicate slashes '/' ++ ['/'].intercalate segments.reverse
  if joined.isEmpty then ['.'] else joined

def normal (path : String) : String :=
  String.ofList (normalChars path.toList)

def join (directory path : String) : String :=
  if path.toList.head? = some '/' then path
  else if directory.isEmpty || directory.toList.getLast? = some '/' then directory ++ path
  else directory ++ "/" ++ path

def splitLast (path : List Char) : List Char × List Char :=
  let name := (path.reverse.takeWhile fun c => c != '/').reverse
  (path.take (path.length - name.length), name)

def directory (path : String) : String :=
  let head := (splitLast path.toList).1
  if head.all fun c => c == '/' then String.ofList head
  else String.ofList (head.reverse.dropWhile fun c => c == '/').reverse

def parentText (path : String) : String :=
  String.ofList ((splitLast path.toList).1.dropLast)

def fileName (path : String) : String :=
  String.ofList (splitLast path.toList).2

def stemChars (name : List Char) : List Char :=
  let tail := (name.reverse.takeWhile fun c => c != '.')
  let head := name.take (name.length - tail.length - 1)
  if tail.length = name.length || head.all fun c => c == '.' then name else head

def stem (name : String) : String :=
  String.ofList (stemChars name.toList)

def hasExtension (extensions : List String) (path : String) : Bool :=
  extensions.any fun e => e.toList.isSuffixOf path.toList

end Path
end Joinery
