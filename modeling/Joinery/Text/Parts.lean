/-!
# Line ends and parts of a text

Every line end counts as one line feed where it is not told which one was written.
-/

namespace Joinery
namespace Text

def unifyLineEnds : List Char -> List Char
  | [] => []
  | '\r' :: '\n' :: rest => '\n' :: unifyLineEnds rest
  | c :: rest => (if c = '\r' then '\n' else c) :: unifyLineEnds rest

def contains (part : List Char) : List Char -> Bool
  | [] => part.isEmpty
  | c :: rest => part.isPrefixOf (c :: rest) || contains part rest

end Text
end Joinery
