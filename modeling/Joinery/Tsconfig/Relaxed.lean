import Joinery.Text.Blank

/-!
# Relaxed JSON

## Comments and trailing commas

Project files of TypeScript are JSON in which comments may stand between tokens and
a comma may follow the last item.  Both are taken out before the text is read.
What stands inside a string is left alone.
-/

namespace Joinery
namespace Tsconfig

/--
The rest of a string up to and with its closing quote, and what follows it.  A backslash takes
the next character with it; whether that may be a line end is for the caller to say.
-/
def closeOfString (acrossLines : Bool) : List Char -> Option (List Char × List Char)
  | [] => none
  | '"' :: rest => some (['"'], rest)
  | '\\' :: c :: rest =>
      if c = '\n' && !acrossLines then none
      else (closeOfString acrossLines rest).map fun close => ('\\' :: c :: close.1, close.2)
  | c :: rest =>
      if c = '\\' then none
      else (closeOfString acrossLines rest).map fun close => (c :: close.1, close.2)

def afterBlock : List Char -> Option (List Char)
  | [] => none
  | '*' :: '/' :: rest => some rest
  | _ :: rest => afterBlock rest

theorem closeOfString_length {acrossLines : Bool} {text inside rest : List Char}
    (h : closeOfString acrossLines text = some (inside, rest)) : rest.length < text.length := by
  fun_induction closeOfString acrossLines text generalizing inside rest with
  | case1 =>
      cases h
  | case2 =>
      cases h
      simp
  | case3 =>
      cases h
  | case4 c tail _ ih =>
      obtain ⟨close, hclose, heq⟩ := Option.map_eq_some_iff.mp h
      cases heq
      have hlt := ih hclose
      simp only [List.length_cons]
      omega
  | case5 =>
      cases h
  | case6 c tail _ _ _ ih =>
      obtain ⟨close, hclose, heq⟩ := Option.map_eq_some_iff.mp h
      cases heq
      have hlt := ih hclose
      simp only [List.length_cons]
      omega

theorem afterBlock_length {text rest : List Char} (h : afterBlock text = some rest) :
    rest.length < text.length := by
  fun_induction afterBlock text with
  | case1 =>
      cases h
  | case2 =>
      cases h
      simp only [List.length_cons]
      omega
  | case3 c tail _ ih =>
      have hlt := ih h
      simp only [List.length_cons]
      omega

theorem dropWhile_length_lt (p : Char -> Bool) (text : List Char) :
    (text.dropWhile p).length < text.length + 1 :=
  Nat.lt_succ_of_le (List.dropWhile_sublist p).length_le

def withoutRemarks : List Char -> List Char
  | [] => []
  | '"' :: rest =>
      match h : closeOfString true rest with
      | some (inside, after) =>
          have := closeOfString_length h
          '"' :: inside ++ withoutRemarks after
      | none => '"' :: withoutRemarks rest
  | '/' :: '*' :: rest =>
      match h : afterBlock rest with
      | some after =>
          have := afterBlock_length h
          withoutRemarks after
      | none => '/' :: withoutRemarks ('*' :: rest)
  | '/' :: '/' :: rest =>
      have := dropWhile_length_lt (fun c => c != '\n') rest
      withoutRemarks (rest.dropWhile fun c => c != '\n')
  | c :: rest => c :: withoutRemarks rest
termination_by text => text.length
decreasing_by all_goals (simp only [List.length_cons]; omega)

/-- A comma is superfluous if, blanks aside, a closing bracket follows it. -/
def closesNext (rest : List Char) : Bool :=
  match rest.dropWhile Text.isBlank with
  | '}' :: _ => true
  | ']' :: _ => true
  | _ => false

def withoutTrailingCommas : List Char -> List Char
  | [] => []
  | '"' :: rest =>
      match h : closeOfString false rest with
      | some (inside, after) =>
          have := closeOfString_length h
          '"' :: inside ++ withoutTrailingCommas after
      | none => '"' :: withoutTrailingCommas rest
  | c :: rest =>
      if c = ',' && closesNext rest then withoutTrailingCommas rest
      else c :: withoutTrailingCommas rest
termination_by text => text.length
decreasing_by all_goals (simp only [List.length_cons]; omega)

def toJson (text : List Char) : List Char :=
  withoutTrailingCommas (withoutRemarks text)

end Tsconfig
end Joinery
