import Joinery.Proofs.Tsconfig.Document
import Joinery.Tsconfig.Relaxed

/-!
# Taking out remarks and commas

## What is left of a document

Remarks are taken out of the gaps and out of nothing else, and a comma goes only where the end
of its list or mapping follows.  What looks like either inside a string stays.
-/

namespace Joinery
namespace Tsconfig

open Json (Scalar StringPart quoted isSpace isBlank_of_isSpace)
open Text

/-!
# What is left where it is
-/

/-- The characters are left where they are, and what follows is treated as if it stood alone. -/
def PassesOver (f : List Char -> List Char) (word : List Char) : Prop :=
  forall rest, f (word ++ rest) = word ++ f rest

section PassesOver

variable {f : List Char -> List Char}

theorem passesOver_word {word : List Char} (h : forall c, c ∈ word -> PassesOver f [c]) :
    PassesOver f word := by
  intro rest
  induction word with
  | nil =>
      rfl
  | cons c word ih =>
      have hfirst := h c List.mem_cons_self (word ++ rest)
      rw [ih fun d hd => h d (List.mem_cons_of_mem _ hd)] at hfirst
      exact hfirst

theorem passesOver_brackets {a b : Char} (ha : PassesOver f [a]) (hb : PassesOver f [b])
    {inside left : List Char}
    (h : forall rest, f (inside ++ b :: rest) = left ++ f (b :: rest)) (rest : List Char) :
    f (a :: (inside ++ [b]) ++ rest) = a :: (left ++ [b]) ++ f rest := by
  calc
    f (a :: (inside ++ [b]) ++ rest) = f ([a] ++ (inside ++ b :: rest)) := by
      simp
    _ = [a] ++ (left ++ f ([b] ++ rest)) := by
      rw [ha, h]
      rfl
    _ = a :: (left ++ [b]) ++ f rest := by
      rw [hb]
      simp

theorem number_char (n : Json.Number) {c : Char} (hc : c ∈ n.text) :
    c ≠ '"' ∧ c ≠ '/' ∧ c ≠ ',' := by
  have hclass := n.text_char hc
  refine ⟨?_, ?_, ?_⟩
  all_goals
    rintro rfl
    revert hclass
    decide

theorem passesOver_scalar (hquoted : forall parts, PassesOver f (quoted parts))
    (hother : forall c, c ≠ '"' ∧ c ≠ '/' ∧ c ≠ ',' -> PassesOver f [c]) (s : Scalar) :
    PassesOver f s.text := by
  have hword : forall word : List Char,
      word.all (fun c => c != '"' && c != '/' && c != ',') = true -> PassesOver f word := by
    intro word h
    refine passesOver_word fun c hc => hother c ?_
    simpa [and_assoc] using List.all_eq_true.mp h c hc
  cases s with
  | null =>
      exact hword _ rfl
  | bool value =>
      cases value with
      | true =>
          exact hword _ rfl
      | false =>
          exact hword _ rfl
  | number n =>
      exact passesOver_word fun c hc => hother c (number_char n hc)
  | string parts =>
      exact hquoted parts

end PassesOver

/-!
# Strings are left alone
-/

theorem closeOfString_cons {c : Char} (hquote : c ≠ '"') (hbackslash : c ≠ '\\')
    (acrossLines : Bool) (rest : List Char) :
    closeOfString acrossLines (c :: rest) =
      (closeOfString acrossLines rest).map fun close => (c :: close.1, close.2) := by
  rw [closeOfString]
  · rw [if_neg hbackslash]
  · exact hquote
  · rintro _ _ rfl
    exact absurd rfl hbackslash

theorem closeOfString_backslash {c : Char} (hline : c ≠ '\n') (acrossLines : Bool)
    (rest : List Char) :
    closeOfString acrossLines ('\\' :: c :: rest) =
      (closeOfString acrossLines rest).map fun close => ('\\' :: c :: close.1, close.2) := by
  rw [closeOfString, if_neg (by simp [hline])]

theorem closeOfString_word {word : List Char} (h : forall c, c ∈ word -> c ≠ '"' ∧ c ≠ '\\')
    (acrossLines : Bool) (rest : List Char) :
    closeOfString acrossLines (word ++ rest) =
      (closeOfString acrossLines rest).map fun close => (word ++ close.1, close.2) := by
  induction word with
  | nil =>
      simp
  | cons c word ih =>
      have hc := h c List.mem_cons_self
      rw [List.cons_append, closeOfString_cons hc.1 hc.2,
        ih fun d hd => h d (List.mem_cons_of_mem _ hd)]
      simp [Function.comp_def]

theorem digits_char (hex : Json.HexCode) {c : Char} (hc : c ∈ hex.digits) :
    c ≠ '"' ∧ c ≠ '\\' := by
  have hdigit := hex.isSome_digit? hc
  refine ⟨?_, ?_⟩
  · rintro rfl
    cases hdigit
  · rintro rfl
    cases hdigit

theorem closeOfString_part (part : StringPart) (acrossLines : Bool) (rest : List Char) :
    closeOfString acrossLines (part.text ++ rest) =
      (closeOfString acrossLines rest).map fun close => (part.text ++ close.1, close.2) := by
  cases part with
  | plain c hquote hbackslash =>
      exact closeOfString_cons hquote hbackslash acrossLines rest
  | short letter c hknown =>
      refine closeOfString_backslash ?_ acrossLines rest
      rintro rfl
      cases hknown
  | coded hex =>
      show closeOfString acrossLines ('\\' :: 'u' :: (hex.digits ++ rest)) = _
      rw [closeOfString_backslash (by decide), closeOfString_word fun _ => digits_char hex]
      simp [Function.comp_def, StringPart.text]

theorem closeOfString_textOf (acrossLines : Bool) (parts : List StringPart) (rest : List Char) :
    closeOfString acrossLines (StringPart.textOf parts ++ '"' :: rest) =
      some (StringPart.textOf parts ++ ['"'], rest) := by
  induction parts with
  | nil =>
      rfl
  | cons part parts ih =>
      rw [StringPart.textOf_cons, List.append_assoc, closeOfString_part, ih]
      simp

/-!
# Taking out remarks
-/

theorem withoutRemarks_quoted (parts : List StringPart) (rest : List Char) :
    withoutRemarks (quoted parts ++ rest) = quoted parts ++ withoutRemarks rest := by
  have hclose := closeOfString_textOf true parts rest
  rw [quoted, List.cons_append, List.append_assoc, List.singleton_append, withoutRemarks]
  split
  · rename_i inside after hsome
    rw [hclose] at hsome
    cases hsome
    rfl
  · rename_i hnone
    rw [hclose] at hnone
    cases hnone

theorem withoutRemarks_cons {c : Char} (hquote : c ≠ '"') (hslash : c ≠ '/') (rest : List Char) :
    withoutRemarks (c :: rest) = c :: withoutRemarks rest := by
  rw [withoutRemarks]
  · exact hquote
  · rintro _ rfl
    exact absurd rfl hslash
  · rintro _ rfl
    exact absurd rfl hslash

theorem withoutRemarks_scalar (s : Scalar) : PassesOver withoutRemarks s.text :=
  passesOver_scalar withoutRemarks_quoted (fun _ hc => withoutRemarks_cons hc.1 hc.2.1) s

theorem withoutRemarks_brackets {a b : Char} (ha : a ≠ '"' ∧ a ≠ '/') (hb : b ≠ '"' ∧ b ≠ '/')
    {inside left : List Char}
    (h : forall rest, withoutRemarks (inside ++ rest) = left ++ withoutRemarks rest)
    (rest : List Char) :
    withoutRemarks (a :: (inside ++ [b]) ++ rest) = a :: (left ++ [b]) ++ withoutRemarks rest :=
  passesOver_brackets (withoutRemarks_cons ha.1 ha.2) (withoutRemarks_cons hb.1 hb.2)
    (fun rest => h (b :: rest)) rest

theorem withoutRemarks_slashes (rest : List Char) :
    withoutRemarks ('/' :: '/' :: rest) =
      withoutRemarks (rest.dropWhile fun c => c != '\n') := by
  rw [withoutRemarks]

theorem afterBlock_remark {remark : List Char} (h : ¬ ['*', '/'] <:+: remark)
    (rest : List Char) : afterBlock (remark ++ '*' :: '/' :: rest) = some rest := by
  induction remark with
  | nil =>
      rfl
  | cons c remark ih =>
      have hinside : ¬ ['*', '/'] <:+: remark := fun hin =>
        h (hin.trans (List.suffix_cons c remark).isInfix)
      rw [List.cons_append, afterBlock]
      · exact ih hinside
      · rintro after rfl heq
        cases remark with
        | nil =>
            cases heq
        | cons next remark =>
            cases (List.cons.inj heq).1
            exact h (List.prefix_append ['*', '/'] remark).isInfix

theorem withoutRemarks_block {remark : List Char} (h : ¬ ['*', '/'] <:+: remark)
    (rest : List Char) :
    withoutRemarks ('/' :: '*' :: (remark ++ '*' :: '/' :: rest)) = withoutRemarks rest := by
  have hafter := afterBlock_remark h rest
  rw [withoutRemarks]
  split
  · rename_i after hsome
    rw [hafter] at hsome
    cases hsome
    rfl
  · rename_i hnone
    rw [hafter] at hnone
    cases hnone

theorem isSpace_char {c : Char} (h : isSpace c = true) : c ≠ '"' ∧ c ≠ '/' := by
  refine ⟨?_, ?_⟩
  · rintro rfl
    cases h
  · rintro rfl
    cases h

theorem all_of_not_mem {remark : List Char} (h : '\n' ∉ remark) :
    remark.all (fun c => c != '\n') = true := by
  rw [List.all_eq_true]
  intro c hc
  rw [bne_iff_ne]
  rintro rfl
  exact h hc

namespace Layout

/-- The gaps hold nothing but blanks, and no remark stands on the last line. -/
structure HasBlanks (l : Layout) : Prop where
  filler : forall f, (l.filler f).all isSpace = true
  lastLine : forall remark, l.lastLine remark = []

/-- A document of the first layout is without its remarks one of the second. -/
structure LosesRemarks (l m : Layout) : Prop where
  filler : forall f rest, withoutRemarks (l.filler f ++ rest) = m.filler f ++ withoutRemarks rest
  commas : l.commas = m.commas
  lastLine : forall remark, '\n' ∉ remark -> withoutRemarks (l.lastLine remark) = m.lastLine remark

variable {l m : Layout} (h : l.LosesRemarks m)

include h

theorem LosesRemarks.gap (g : Gap) (rest : List Char) :
    withoutRemarks (l.gap g ++ rest) = m.gap g ++ withoutRemarks rest := by
  induction g with
  | nil =>
      rfl
  | cons f g ih =>
      rw [gap_cons, gap_cons, List.append_assoc, List.append_assoc, h.filler, ih]

theorem LosesRemarks.comma (comma : Option Gap) (rest : List Char) :
    withoutRemarks (l.comma comma ++ rest) = m.comma comma ++ withoutRemarks rest := by
  cases comma with
  | none =>
      rfl
  | some g =>
      rw [Layout.comma, Layout.comma, <- h.commas]
      cases l.commas with
      | true =>
          show withoutRemarks (',' :: (l.gap g ++ rest)) = ',' :: (m.gap g ++ withoutRemarks rest)
          rw [withoutRemarks_cons (by decide) (by decide), h.gap]
      | false =>
          exact h.gap g rest

mutual

theorem LosesRemarks.node (node : Node) (rest : List Char) :
    withoutRemarks (node.text l ++ rest) = node.text m ++ withoutRemarks rest := by
  match node with
  | .scalar s =>
      exact withoutRemarks_scalar s rest
  | .emptyList inside =>
      exact withoutRemarks_brackets (by decide) (by decide) (h.gap inside) rest
  | .list items =>
      exact withoutRemarks_brackets (by decide) (by decide) (LosesRemarks.items items) rest
  | .emptyMapping inside =>
      exact withoutRemarks_brackets (by decide) (by decide) (h.gap inside) rest
  | .mapping entries =>
      exact withoutRemarks_brackets (by decide) (by decide) (LosesRemarks.entries entries) rest

theorem LosesRemarks.items (items : Items) (rest : List Char) :
    withoutRemarks (items.text l ++ rest) = items.text m ++ withoutRemarks rest := by
  match items with
  | .last before item after comma =>
      simp only [Items.text, List.append_assoc, h.gap, LosesRemarks.node item, h.comma]
  | .more before item after more =>
      simp only [Items.text, List.append_assoc, List.cons_append, h.gap, LosesRemarks.node item]
      rw [withoutRemarks_cons (by decide) (by decide), LosesRemarks.items more]

theorem LosesRemarks.entries (entries : Entries) (rest : List Char) :
    withoutRemarks (entries.text l ++ rest) = entries.text m ++ withoutRemarks rest := by
  match entries with
  | .last before key afterKey beforeItem item after comma =>
      simp only [Entries.text, List.append_assoc, List.cons_append, h.gap, withoutRemarks_quoted]
      rw [withoutRemarks_cons (by decide) (by decide)]
      simp only [h.gap, LosesRemarks.node item, h.comma]
  | .more before key afterKey beforeItem item after more =>
      simp only [Entries.text, List.append_assoc, List.cons_append, h.gap, withoutRemarks_quoted]
      rw [withoutRemarks_cons (by decide) (by decide)]
      simp only [h.gap, LosesRemarks.node item]
      rw [withoutRemarks_cons (by decide) (by decide), LosesRemarks.entries more]

end

theorem LosesRemarks.document (d : Document) : withoutRemarks (d.text l) = d.text m := by
  have hlast : withoutRemarks ((d.lastLine.map fun remark => l.lastLine remark.1).getD []) =
      (d.lastLine.map fun remark => m.lastLine remark.1).getD [] := by
    cases d.lastLine with
    | none =>
        rw [Option.map_none, Option.getD_none, withoutRemarks]
        rfl
    | some remark =>
        exact h.lastLine remark.1 remark.2
  simp only [Document.text, List.append_assoc, h.gap, h.node, hlast]

omit h

theorem full_losesRemarks : full.LosesRemarks bare where
  filler := by
    intro f rest
    cases f with
    | space c hspace =>
        have hc := isSpace_char hspace
        exact withoutRemarks_cons hc.1 hc.2 rest
    | line remark hline =>
        show withoutRemarks ('/' :: '/' :: (remark ++ ['\n'] ++ rest)) = '\n' :: withoutRemarks rest
        have hstop : Stops (fun c => c != '\n') ('\n' :: rest) := stops_cons rfl rest
        rw [withoutRemarks_slashes, List.append_assoc, List.singleton_append,
          dropWhile_stops (all_of_not_mem hline) hstop,
          withoutRemarks_cons (by decide) (by decide)]
    | block remark hblock =>
        show withoutRemarks ('/' :: '*' :: (remark ++ ['*', '/'] ++ rest)) = withoutRemarks rest
        rw [List.append_assoc]
        exact withoutRemarks_block hblock rest
  commas := rfl
  lastLine := by
    intro remark hremark
    show withoutRemarks ('/' :: '/' :: remark) = []
    have hdrop := dropWhile_stops (all_of_not_mem hremark) (stops_nil _)
    rw [List.append_nil] at hdrop
    rw [withoutRemarks_slashes, hdrop, withoutRemarks]

theorem HasBlanks.losesRemarks {l : Layout} (h : l.HasBlanks) : l.LosesRemarks l where
  filler := by
    intro f rest
    refine passesOver_word (fun c hc => ?_) rest
    have hc := isSpace_char (List.all_eq_true.mp (h.filler f) c hc)
    exact withoutRemarks_cons hc.1 hc.2
  commas := rfl
  lastLine := by
    intro remark _
    rw [h.lastLine, withoutRemarks]

end Layout

end Tsconfig
end Joinery
