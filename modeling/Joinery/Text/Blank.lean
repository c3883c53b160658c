/-!
# Blank characters

## What separates words

A blank is a space, a control character that moves the print position, or one of
the Unicode separators.  The set is larger than `Char.isWhitespace`: it holds the
information separators U+001C to U+001F and the spaces of Unicode.
-/

namespace Joinery
namespace Text

/-- Spaces, line ends and the Unicode separators. -/
def isBlank (c : Char) : Bool :=
  let n := c.toNat
  (0x09 ≤ n && n ≤ 0x0D) || (0x1C ≤ n && n ≤ 0x20) || n == 0x85 || n == 0xA0 || n == 0x1680 ||
    (0x2000 ≤ n && n ≤ 0x200A) || n == 0x2028 || n == 0x2029 || n == 0x202F || n == 0x205F ||
    n == 0x3000

def dropStart (p : Char -> Bool) (text : List Char) : List Char :=
  text.dropWhile p

def dropEnd (p : Char -> Bool) (text : List Char) : List Char :=
  (text.reverse.dropWhile p).reverse

def trimEnd (text : List Char) : List Char :=
  dropEnd isBlank text

def trim (text : List Char) : List Char :=
  trimEnd (dropStart isBlank text)

end Text
end Joinery
