/-!
# Comments in source text

## Comments that open at the start of a line

Only comments that open at the start of a line are taken out: inside a line the
signs are more often part of a string.  A block comment leaves its line ends
behind, so that what follows stays on its line.
-/

namespace Joinery
namespace SourceModule

def isIndent (c : Char) : Bool :=
  c == ' ' || c == '\t'

def closeOfBlock : List Char -> Option (Nat × List Char)
  | [] => none
  | '*' :: '/' :: rest => some (0, rest)
  | c :: rest =>
      (closeOfBlock rest).map fun close =>
        (if c = '\n' then close.1 + 1 else close.1, close.2)

def leadingBlock (text : List Char) : Option (Nat × List Char) :=
  match text.dropWhile isIndent with
  | '/' :: '*' :: rest => closeOfBlock rest
  | _ => none

theorem closeOfBlock_length {text rest : List Char} {lines : Nat}
    (h : closeOfBlock text = some (lines, rest)) : rest.length < text.length := by
  fun_induction closeOfBlock text generalizing lines rest with
  | case1 =>
      cases h
  | case2 =>
      cases h
      simp only [List.length_cons]
      omega
  | case3 c tail _ ih =>
      obtain ⟨close, hclose, heq⟩ := Option.map_eq_some_iff.mp h
      cases heq
      have hlt := ih hclose
      simp only [List.length_cons]
      omega

theorem dropWhile_length_le (p : Char -> Bool) (text : List Char) :
    (text.dropWhile p).length ≤ text.length :=
  (List.dropWhile_sublist p).length_le

theorem leadingBlock_length {text rest : List Char} {lines : Nat}
    (h : leadingBlock text = some (lines, rest)) : rest.length < text.length := by
  unfold leadingBlock at h
  split at h
  · next tail htail =>
      have hle := dropWhile_length_le isIndent text
      rw [htail] at hle
      have hlt := closeOfBlock_length h
      simp only [List.length_cons] at hle
      omega
  · cases h

def withoutBlocks (atLineStart : Bool) : List Char -> List Char
  | [] => []
  | c :: rest =>
      if atLineStart then
        match h : leadingBlock (c :: rest) with
        | some (lines, tail) =>
            have := leadingBlock_length h
            List.replicate lines '\n' ++ withoutBlocks false tail
        | none => c :: withoutBlocks (c == '\n') rest
      else c :: withoutBlocks (c == '\n') rest
termination_by text => text.length
decreasing_by all_goals (simp only [List.length_cons] at *; omega)

def withoutLineComment (line : List Char) : List Char :=
  if ['/', '/'].isPrefixOf (line.dropWhile isIndent) then [] else line

def withoutComments (text : List Char) : List Char :=
  let lines := List.splitOn '\n' (withoutBlocks true text)
  ['\n'].intercalate (lines.map withoutLineComment)

end SourceModule

def stripComments (text : String) : String :=
  String.ofList (SourceModule.withoutComments text.toList)

end Joinery
