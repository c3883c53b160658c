import Joinery.Proofs.Tsconfig.Remarks

/-!
# Taking out superfluous commas

## What is left without remarks

Once the gaps hold nothing but blanks, a comma is taken out if the end of its list or mapping
follows.  No other comma is, since an item or a key begins with neither a blank nor a bracket
that closes.
-/

namespace Joinery
namespace Tsconfig

open Json (Scalar StringPart quoted isSpace isBlank_of_isSpace)
open Text

/-!
# Commas, one after the other
-/

theorem withoutTrailingCommas_quoted (parts : List StringPart) (rest : List Char) :
    withoutTrailingCommas (quoted parts ++ rest) =
      quoted parts ++ withoutTrailingCommas rest := by
  have hclose := closeOfString_textOf false parts rest
  rw [quoted, List.cons_append, List.append_assoc, List.singleton_append, withoutTrailingCommas]
  split
  · rename_i inside after hsome
    rw [hclose] at hsome
    cases hsome
    rfl
  · rename_i hnone
    rw [hclose] at hnone
    cases hnone

theorem withoutTrailingCommas_cons {c : Char} (hquote : c ≠ '"') (hcomma : c ≠ ',')
    (rest : List Char) :
    withoutTrailingCommas (c :: rest) = c :: withoutTrailingCommas rest := by
  rw [withoutTrailingCommas]
  · rw [if_neg (by simp [hcomma])]
  · exact hquote

theorem withoutTrailingCommas_comma (rest : List Char) :
    withoutTrailingCommas (',' :: rest) =
      if closesNext rest then withoutTrailingCommas rest
      else ',' :: withoutTrailingCommas rest := by
  rw [withoutTrailingCommas]
  · rfl
  · decide

theorem withoutTrailingCommas_scalar (s : Scalar) : PassesOver withoutTrailingCommas s.text :=
  passesOver_scalar withoutTrailingCommas_quoted
    (fun _ hc => withoutTrailingCommas_cons hc.1 hc.2.2) s

theorem withoutTrailingCommas_brackets {a b : Char} (ha : a ≠ '"' ∧ a ≠ ',')
    (hb : b ≠ '"' ∧ b ≠ ',') {inside left : List Char}
    (h : forall rest, withoutTrailingCommas (inside ++ b :: rest) =
      left ++ withoutTrailingCommas (b :: rest)) (rest : List Char) :
    withoutTrailingCommas (a :: (inside ++ [b]) ++ rest) =
      a :: (left ++ [b]) ++ withoutTrailingCommas rest :=
  passesOver_brackets (withoutTrailingCommas_cons ha.1 ha.2) (withoutTrailingCommas_cons hb.1 hb.2)
    h rest

/-!
# What follows a comma
-/

/-- A character that ends a list or mapping. -/
def IsClose (c : Char) : Prop :=
  c = '}' ∨ c = ']'

theorem closesNext_of_isClose {gap : List Char} (hgap : gap.all isBlank = true) {c : Char}
    (h : IsClose c) (rest : List Char) : closesNext (gap ++ c :: rest) = true := by
  rcases h with rfl | rfl
  · rw [closesNext, dropWhile_stops hgap (stops_cons (by decide) rest)]
    rfl
  · rw [closesNext, dropWhile_stops hgap (stops_cons (by decide) rest)]
    rfl

theorem closesNext_of_not_isClose {gap : List Char} (hgap : gap.all isBlank = true) {c : Char}
    (hblank : isBlank c = false) (h : ¬ IsClose c) (rest : List Char) :
    closesNext (gap ++ c :: rest) = false := by
  rw [closesNext, dropWhile_stops hgap (stops_cons hblank rest)]
  split
  · rename_i heq
    exact absurd (Or.inl (List.cons.inj heq).1) h
  · rename_i heq
    exact absurd (Or.inr (List.cons.inj heq).1) h
  · rfl

theorem Node.exists_head_text (l : Layout) (node : Node) :
    exists c rest, node.text l = c :: rest ∧ isBlank c = false ∧ ¬ IsClose c := by
  cases node with
  | scalar s =>
      obtain ⟨c, rest, htext, hblank, hcurly, hsquare⟩ := s.exists_head_text
      exact ⟨c, rest, htext, hblank, by rintro (h | h); exacts [hcurly h, hsquare h]⟩
  | emptyList inside | list items =>
      exact ⟨'[', _, rfl, by decide, by rintro (h | h) <;> cases h⟩
  | emptyMapping inside | mapping entries =>
      exact ⟨'{', _, rfl, by decide, by rintro (h | h) <;> cases h⟩

namespace Layout

variable {l : Layout} (h : l.HasBlanks)

include h

theorem HasBlanks.gap (g : Gap) : (l.gap g).all isSpace = true := by
  induction g with
  | nil =>
      rfl
  | cons f g ih =>
      rw [gap_cons, List.all_append, h.filler, ih]
      rfl

theorem HasBlanks.gap_isBlank (g : Gap) : (l.gap g).all isBlank = true :=
  List.all_eq_true.mpr fun c hc => isBlank_of_isSpace (List.all_eq_true.mp (h.gap g) c hc)

theorem HasBlanks.withoutTrailingCommas_gap (g : Gap) (rest : List Char) :
    withoutTrailingCommas (l.gap g ++ rest) = l.gap g ++ withoutTrailingCommas rest := by
  refine passesOver_word (fun c hc => ?_) rest
  have hspace := List.all_eq_true.mp (h.gap g) c hc
  refine withoutTrailingCommas_cons (isSpace_char hspace).1 ?_
  rintro rfl
  cases hspace

theorem HasBlanks.withoutTrailingCommas_last (comma : Option Gap) {c : Char} (hc : IsClose c)
    (rest : List Char) :
    withoutTrailingCommas (l.comma comma ++ c :: rest) =
      l.strict.comma comma ++ withoutTrailingCommas (c :: rest) := by
  cases comma with
  | none =>
      rfl
  | some g =>
      have hgap := h.withoutTrailingCommas_gap g (c :: rest)
      rw [Layout.comma]
      cases l.commas with
      | true =>
          show withoutTrailingCommas (',' :: (l.gap g ++ c :: rest)) = _
          rw [withoutTrailingCommas_comma, closesNext_of_isClose (h.gap_isBlank g) hc]
          exact hgap
      | false =>
          exact hgap

theorem HasBlanks.closesNext_node (before : Gap) (item : Node) (rest : List Char) :
    closesNext (l.gap before ++ (item.text l ++ rest)) = false := by
  obtain ⟨c, tail, htext, hblank, hclose⟩ := item.exists_head_text l
  rw [htext]
  exact closesNext_of_not_isClose (h.gap_isBlank before) hblank hclose _

theorem HasBlanks.closesNext_items (items : Items) (rest : List Char) :
    closesNext (items.text l ++ rest) = false := by
  cases items with
  | last before item after comma =>
      simp only [Items.text, List.append_assoc, h.closesNext_node]
  | more before item after more =>
      simp only [Items.text, List.append_assoc, h.closesNext_node]

theorem HasBlanks.closesNext_key (before : Gap) (key : List StringPart) (rest : List Char) :
    closesNext (l.gap before ++ (quoted key ++ rest)) = false :=
  closesNext_of_not_isClose (h.gap_isBlank before) (by decide) (by rintro (h | h) <;> cases h) _

theorem HasBlanks.closesNext_entries (entries : Entries) (rest : List Char) :
    closesNext (entries.text l ++ rest) = false := by
  cases entries with
  | last before key afterKey beforeItem item after comma =>
      simp only [Entries.text, List.append_assoc, h.closesNext_key]
  | more before key afterKey beforeItem item after more =>
      simp only [Entries.text, List.append_assoc, h.closesNext_key]

mutual

theorem HasBlanks.node (node : Node) (rest : List Char) :
    withoutTrailingCommas (node.text l ++ rest) =
      node.text l.strict ++ withoutTrailingCommas rest := by
  match node with
  | .scalar s =>
      exact withoutTrailingCommas_scalar s rest
  | .emptyList inside =>
      exact withoutTrailingCommas_brackets (by decide) (by decide)
        (fun _ => h.withoutTrailingCommas_gap inside _) rest
  | .list items =>
      exact withoutTrailingCommas_brackets (by decide) (by decide)
        (HasBlanks.items items (Or.inr rfl)) rest
  | .emptyMapping inside =>
      exact withoutTrailingCommas_brackets (by decide) (by decide)
        (fun _ => h.withoutTrailingCommas_gap inside _) rest
  | .mapping entries =>
      exact withoutTrailingCommas_brackets (by decide) (by decide)
        (HasBlanks.entries entries (Or.inl rfl)) rest

theorem HasBlanks.items (items : Items) {c : Char} (hc : IsClose c) (rest : List Char) :
    withoutTrailingCommas (items.text l ++ c :: rest) =
      items.text l.strict ++ withoutTrailingCommas (c :: rest) := by
  match items with
  | .last before item after comma =>
      simp only [Items.text, List.append_assoc, h.withoutTrailingCommas_gap,
        HasBlanks.node item, h.withoutTrailingCommas_last comma hc]
      rfl
  | .more before item after more =>
      simp only [Items.text, List.append_assoc, List.cons_append, h.withoutTrailingCommas_gap,
        HasBlanks.node item, withoutTrailingCommas_comma, h.closesNext_items,
        HasBlanks.items more hc]
      rfl

theorem HasBlanks.entries (entries : Entries) {c : Char} (hc : IsClose c) (rest : List Char) :
    withoutTrailingCommas (entries.text l ++ c :: rest) =
      entries.text l.strict ++ withoutTrailingCommas (c :: rest) := by
  match entries with
  | .last before key afterKey beforeItem item after comma =>
      simp only [Entries.text, List.append_assoc, List.cons_append, h.withoutTrailingCommas_gap,
        withoutTrailingCommas_quoted]
      rw [withoutTrailingCommas_cons (by decide) (by decide)]
      simp only [h.withoutTrailingCommas_gap, HasBlanks.node item,
        h.withoutTrailingCommas_last comma hc]
      rfl
  | .more before key afterKey beforeItem item after more =>
      simp only [Entries.text, List.append_assoc, List.cons_append, h.withoutTrailingCommas_gap,
        withoutTrailingCommas_quoted]
      rw [withoutTrailingCommas_cons (by decide) (by decide)]
      simp only [h.withoutTrailingCommas_gap, HasBlanks.node item, withoutTrailingCommas_comma,
        h.closesNext_entries, HasBlanks.entries more hc]
      rfl

end

theorem HasBlanks.lastLine_eq_nil (d : Document) :
    (d.lastLine.map fun remark => l.lastLine remark.1).getD [] = [] := by
  cases d.lastLine with
  | none =>
      rfl
  | some remark =>
      exact h.lastLine remark.1

theorem HasBlanks.document (d : Document) :
    withoutTrailingCommas (d.text l) = d.text l.strict := by
  have hlast := h.lastLine_eq_nil d
  have hstrict : (d.lastLine.map fun remark => l.strict.lastLine remark.1).getD [] = [] := hlast
  have hafter := h.withoutTrailingCommas_gap d.after []
  rw [withoutTrailingCommas, List.append_nil] at hafter
  simp only [Document.text, hlast, hstrict, List.append_nil, List.append_assoc,
    h.withoutTrailingCommas_gap, h.node, hafter]
  rfl

omit h

theorem bare_hasBlanks : bare.HasBlanks where
  filler := by
    intro f
    cases f with
    | space c hspace =>
        show [c].all isSpace = true
        rw [List.all_cons, hspace]
        rfl
    | line remark hline =>
        rfl
    | block remark hblock =>
        rfl
  lastLine := fun _ => rfl

/-- A layout of plain JSON: blanks in its gaps and no superfluous comma. -/
structure IsStrict (l : Layout) : Prop extends HasBlanks l where
  commas : l.commas = false

theorem HasBlanks.isStrict {l : Layout} (h : l.HasBlanks) : l.strict.IsStrict where
  filler := h.filler
  lastLine := h.lastLine
  commas := rfl

theorem dense_isStrict : dense.IsStrict where
  filler := fun _ => rfl
  lastLine := fun _ => rfl
  commas := rfl

theorem IsStrict.strict_eq {l : Layout} (h : l.IsStrict) : l.strict = l := by
  obtain ⟨_, hcommas⟩ := h
  cases l
  cases hcommas
  rfl

end Layout

end Tsconfig
end Joinery
