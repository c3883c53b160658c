import Joinery.Proofs.Json.Lexeme

/-!
# The tokens of a text

## One token after the other

Each token takes a character at least, so that the reader never runs out of fuel.  Blanks
between tokens do not count, and what stands behind a token does not change it.
-/

namespace Joinery
namespace Json

open Text

/-!
# Progress
-/

theorem length_lt_of_map {read : Option (List Char × List Char)} {c : Char} {n : Nat}
    (hread : forall {body rest}, read = some (body, rest) -> rest.length < n)
    {body rest : List Char} (h : (read.map fun body => (c :: body.1, body.2)) = some (body, rest)) :
    rest.length < n := by
  obtain ⟨⟨inside, after⟩, hsome, heq⟩ := Option.map_eq_some_iff.mp h
  cases heq
  exact hread hsome

theorem stringBody_length {text body rest : List Char} (h : stringBody text = some (body, rest)) :
    rest.length < text.length := by
  fun_induction stringBody text generalizing body rest with
  | case1 | case5 | case6 | case8 | case10 | case11 =>
      cases h
  | case2 =>
      cases h
      simp
  | case3 | case4 | case7 | case9 | case12 =>
      rename_i ih
      have hlt := length_lt_of_map ih h
      simp only [List.length_cons] at hlt ⊢
      omega

theorem number_length {wide : WideIntegers} {text rest : List Char} {v : Value}
    (h : number wide text = some (v, rest)) : rest.length < text.length := by
  obtain ⟨n, rfl, _⟩ := Number.exists_of_number h
  obtain ⟨c, tail, htext, _⟩ := n.exists_head_text
  rw [htext]
  simp only [List.cons_append, List.length_cons, List.length_append]
  omega

theorem token_length {wide : WideIntegers} {text rest : List Char} {t : Token}
    (h : token wide text = some (t, rest)) : rest.length < text.length := by
  fun_cases token wide text with
  | case1 | case2 | case3 | case4 | case5 | case6 | case7 | case8 | case9 =>
      rename_i after
      have hafter : after = rest := by
        cases h
        rfl
      rw [hafter]
      simp only [List.length_cons]
      omega
  | case10 after =>
      obtain ⟨⟨body, behind⟩, hread, heq⟩ := Option.map_eq_some_iff.mp h
      cases heq
      have hlt := stringBody_length hread
      simp only [List.length_cons]
      omega
  | case11 =>
      rw [token] at h
      · obtain ⟨⟨v, behind⟩, hread, heq⟩ := Option.map_eq_some_iff.mp h
        cases heq
        exact number_length hread
      all_goals
        assumption

theorem tokensWithin_congr (wide : WideIntegers) {fuel more : Nat} {text : List Char}
    (h : text.length < fuel) (hmore : text.length < more) :
    tokensWithin wide fuel text = tokensWithin wide more text := by
  induction fuel generalizing more text with
  | zero =>
      omega
  | succ fuel ih =>
      cases more with
      | zero =>
          omega
      | succ more =>
          rw [tokensWithin, tokensWithin]
          have hdrop := (List.dropWhile_sublist isSpace (l := text)).length_le
          cases htext : text.dropWhile isSpace with
          | nil =>
              rfl
          | cons c rest =>
              rw [htext] at hdrop
              cases htoken : token wide (c :: rest) with
              | none =>
                  simp only [htoken]
              | some read =>
                  obtain ⟨first, after⟩ := read
                  have hlt := token_length htoken
                  simp only [htoken]
                  refine congrArg _ (ih ?_ ?_) <;> omega

/-!
# One token further
-/

variable {wide : WideIntegers}

@[simp]
theorem tokens_nil : tokens wide [] = some [] :=
  rfl

theorem tokens_spaces {gap : List Char} (h : gap.all isSpace = true) (rest : List Char) :
    tokens wide (gap ++ rest) = tokens wide rest := by
  have hdrop : (gap ++ rest).dropWhile isSpace = rest.dropWhile isSpace :=
    List.dropWhile_append_of_pos (List.all_eq_true.mp h)
  calc
    tokens wide (gap ++ rest) = tokensWithin wide ((gap ++ rest).length + 1) rest := by
      rw [tokens, tokensWithin, tokensWithin, hdrop]
    _ = tokens wide rest := by
      rw [tokens]
      refine tokensWithin_congr wide ?_ (Nat.lt_succ_self _)
      rw [List.length_append]
      omega

theorem tokens_token {text : List Char} (hblank : Stops isSpace text) (hne : text ≠ []) :
    tokens wide text =
      (token wide text).bind fun first => (tokens wide first.2).map (first.1 :: ·) := by
  cases text with
  | nil =>
      exact absurd rfl hne
  | cons c rest =>
      rw [tokens, tokensWithin, List.dropWhile_cons_of_neg (by rw [hblank c rfl]; simp)]
      cases htoken : token wide (c :: rest) with
      | none =>
          simp only [htoken]
          rfl
      | some read =>
          obtain ⟨first, after⟩ := read
          have hlt := token_length htoken
          simp only [htoken]
          rw [tokensWithin_congr wide hlt (Nat.lt_succ_self _)]
          rfl

theorem tokens_mark {c : Char} {t : Token}
    (h : forall rest, token wide (c :: rest) = some (t, rest)) (hc : isSpace c = false)
    (rest : List Char) : tokens wide (c :: rest) = (tokens wide rest).map (t :: ·) := by
  rw [tokens_token (stops_cons hc _) (List.cons_ne_nil _ _), h, Option.bind_some]

theorem tokens_scalar (wide : WideIntegers) (s : Scalar) {rest : List Char}
    (hrest : Stops goesOn rest) :
    tokens wide (s.text ++ rest) =
      (s.value? wide).bind fun v => (tokens wide rest).map (.scalar v :: ·) := by
  obtain ⟨c, tail, htext, hblank, _⟩ := s.exists_head_text
  have hstop : Stops isSpace (s.text ++ rest) := by
    rw [htext]
    refine stops_cons ?_ _
    cases hspace : isSpace c with
    | false =>
        rfl
    | true =>
        rw [isBlank_of_isSpace hspace] at hblank
        cases hblank
  rw [tokens_token hstop (by simp [htext]), Scalar.token_text wide s hrest, Option.bind_map]
  rfl

end Json
end Joinery
