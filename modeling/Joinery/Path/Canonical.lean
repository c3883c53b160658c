import Joinery.Text.Blank
import Joinery.Text.Parts

/-!
# Canonical paths

## One key for the ordinary spellings of a path

A file set knows a file under one key.  Blanks around a path, backslashes, leading
`./` and slashes and repeated slashes do not make another key.  Dots inside a path
are left alone.
-/

namespace Joinery
namespace Path

def forwardSlashes (path : List Char) : List Char :=
  path.map fun c => if c = '\\' then '/' else c

def dropDotSlashes : List Char -> List Char
  | '.' :: '/' :: rest => dropDotSlashes rest
  | path => path

def collapseSlashes : List Char -> List Char
  | [] => []
  | c :: rest =>
      if c = '/' && rest.head? = some '/' then collapseSlashes rest
      else c :: collapseSlashes rest

def canonicalChars (path : List Char) : List Char :=
  let trimmed := forwardSlashes (Text.trim path)
  collapseSlashes ((dropDotSlashes trimmed).dropWhile fun c => c == '/')

def canonical (path : String) : String :=
  String.ofList (canonicalChars path.toList)

end Path
end Joinery
