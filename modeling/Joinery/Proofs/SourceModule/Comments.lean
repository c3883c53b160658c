import Joinery.Proofs.Text.Pieces
import Joinery.SourceModule.Comments
import Joinery.Text.Blank
import Mathlib.Data.List.TakeWhile

/-!
# Comments and the end of a text

## Text that opens and closes no comment

More text without slashes and stars neither opens nor closes a comment.  At the end of
a text it stays as it is, but for the rest of its first line, which may belong to a
comment that is to the end of the line.
-/

namespace Joinery
namespace SourceModule

open Text

/-- No comment begins or ends with these characters. -/
def Plain (more : List Char) : Prop :=
  forall ch, ch ∈ more -> ch ≠ '/' ∧ ch ≠ '*'

variable {more : List Char}

/-!
# Block comments
-/

theorem closeOfBlock_cons {c : Char} {rest : List Char}
    (h : ¬(c = '*' ∧ rest.head? = some '/')) :
    closeOfBlock (c :: rest) =
      (closeOfBlock rest).map fun close =>
        (if c = '\n' then close.1 + 1 else close.1, close.2) := by
  rw [closeOfBlock]
  intro tail hc htail
  refine h ⟨hc, ?_⟩
  rw [htail, List.head?_cons]

theorem closeOfBlock_plain (h : Plain more) : closeOfBlock more = none := by
  induction more with
  | nil =>
      rfl
  | cons c rest ih =>
      have hrest : closeOfBlock rest = none := ih fun ch hch => h ch (List.mem_cons_of_mem c hch)
      rw [closeOfBlock_cons fun hclose => (h c (List.mem_cons_self ..)).2 hclose.1, hrest]
      rfl

theorem closeOfBlock_append (h : Plain more) (text : List Char) :
    closeOfBlock (text ++ more) =
      (closeOfBlock text).map fun close => (close.1, close.2 ++ more) := by
  fun_induction closeOfBlock text with
  | case1 =>
      exact closeOfBlock_plain h
  | case2 rest =>
      rfl
  | case3 c rest hopen ih =>
      have hnot : ¬(c = '*' ∧ (rest ++ more).head? = some '/') := by
        rintro ⟨hc, hslash⟩
        cases rest with
        | nil =>
            exact (h '/' (List.mem_of_head? hslash)).1 rfl
        | cons next rest =>
            cases hslash
            exact hopen rest hc rfl
      rw [List.cons_append, closeOfBlock_cons hnot, ih, Option.map_map, Option.map_map]
      rfl

theorem leadingBlock_append (h : Plain more) (text : List Char) :
    leadingBlock (text ++ more) =
      (leadingBlock text).map fun close => (close.1, close.2 ++ more) := by
  unfold leadingBlock
  rw [List.dropWhile_append]
  cases hdrop : text.dropWhile isIndent with
  | nil =>
      have hsub : Plain (more.dropWhile isIndent) := fun ch hch =>
        h ch ((List.dropWhile_sublist _).subset hch)
      simp only [List.isEmpty_nil, if_true]
      split
      · next rest heq =>
          exact absurd rfl (hsub '/' (by rw [heq]; simp)).1
      · rfl
  | cons first rest =>
      simp only [List.isEmpty_cons, Bool.false_eq_true, if_false, List.cons_append]
      cases rest with
      | nil =>
          split
          · next tail heq =>
              cases heq
              exact absurd rfl (h '*' (by simp)).2
          · split <;> first | rfl | (next heq => cases heq)
      | cons second tail =>
          by_cases hopen : first = '/' ∧ second = '*'
          · obtain ⟨rfl, rfl⟩ := hopen
            exact closeOfBlock_append h tail
          · split
            · next heq =>
                cases heq
                exact absurd ⟨rfl, rfl⟩ hopen
            · split
              · next heq =>
                  cases heq
                  exact absurd ⟨rfl, rfl⟩ hopen
              · rfl

theorem withoutBlocks_of_block {c : Char} {rest tail : List Char} {lines : Nat}
    (h : leadingBlock (c :: rest) = some (lines, tail)) :
    withoutBlocks true (c :: rest) = List.replicate lines '\n' ++ withoutBlocks false tail := by
  rw [withoutBlocks]
  simp only [if_true]
  split
  · next heq =>
      rw [h] at heq
      cases heq
      rfl
  · next heq =>
      rw [h] at heq
      cases heq

theorem withoutBlocks_of_none {atLineStart : Bool} {c : Char} {rest : List Char}
    (h : atLineStart = true -> leadingBlock (c :: rest) = none) :
    withoutBlocks atLineStart (c :: rest) = c :: withoutBlocks (c == '\n') rest := by
  rw [withoutBlocks]
  split
  · next hstart =>
      split
      · next heq =>
          rw [h hstart] at heq
          cases heq
      · rfl
  · rfl

theorem withoutBlocks_plain (h : Plain more) (atLineStart : Bool) :
    withoutBlocks atLineStart more = more := by
  induction more generalizing atLineStart with
  | nil =>
      rw [withoutBlocks]
  | cons c rest ih =>
      have hnone : leadingBlock (c :: rest) = none := by
        simpa [leadingBlock] using leadingBlock_append h []
      rw [withoutBlocks_of_none fun _ => hnone, ih fun ch hch => h ch (List.mem_cons_of_mem c hch)]

theorem withoutBlocks_append (h : Plain more) (atLineStart : Bool) (text : List Char) :
    withoutBlocks atLineStart (text ++ more) = withoutBlocks atLineStart text ++ more := by
  fun_induction withoutBlocks atLineStart text with
  | case1 =>
      exact withoutBlocks_plain h _
  | case2 c rest lines tail hblock hlength ih =>
      have hlonger : leadingBlock (c :: (rest ++ more)) = some (lines, tail ++ more) := by
        rw [<- List.cons_append, leadingBlock_append h, hblock]
        rfl
      rw [List.cons_append, withoutBlocks_of_block hlonger, ih, List.append_assoc]
  | case3 c rest hblock ih =>
      have hlonger : leadingBlock (c :: (rest ++ more)) = none := by
        rw [<- List.cons_append, leadingBlock_append h, hblock]
        rfl
      rw [List.cons_append, withoutBlocks_of_none fun _ => hlonger, ih, List.cons_append]
  | case4 atLineStart c rest hstart ih =>
      rw [List.cons_append, withoutBlocks_of_none fun hc => absurd hc hstart, ih, List.cons_append]

/-!
# Comments to the end of a line
-/

def withoutLineComments (text : List Char) : List Char :=
  ['\n'].intercalate ((List.splitOn '\n' text).map withoutLineComment)

theorem withoutLineComments_line {line : List Char} (h : '\n' ∉ line) :
    withoutLineComments line = withoutLineComment line := by
  rw [withoutLineComments, List.splitOn_eq_singleton h, List.map_singleton,
    List.intercalate_singleton]

theorem withoutLineComments_line_append {line : List Char} (h : '\n' ∉ line) (rest : List Char) :
    withoutLineComments (line ++ '\n' :: rest) =
      withoutLineComment line ++ '\n' :: withoutLineComments rest := by
  rw [withoutLineComments, List.splitOn_append_cons_self_of_not_mem h, withoutLineComments,
    List.map_cons, intercalate_cons '\n' _ (by simp)]

theorem Plain.of_subset {part : List Char} (h : Plain more) (hsub : part ⊆ more) : Plain part :=
  fun ch hch => h ch (hsub hch)

theorem not_opens_of_plain (h : Plain more) :
    ['/', '/'].isPrefixOf (more.dropWhile isIndent) = false := by
  cases hmore : more.dropWhile isIndent with
  | nil =>
      rfl
  | cons first rest =>
      have hfirst : first ∈ more := (List.dropWhile_sublist isIndent).subset
        (by rw [hmore]; exact List.mem_cons_self ..)
      have hne : ('/' == first) = false := by
        simpa using fun heq => (h first hfirst).1 heq.symm
      simp [List.isPrefixOf, hne]

theorem withoutLineComment_append (h : Plain more) (line : List Char) :
    withoutLineComment (line ++ more) = [] ∧ withoutLineComment line = [] ∨
      withoutLineComment (line ++ more) = line ++ more ∧ withoutLineComment line = line := by
  have hopens : ['/', '/'].isPrefixOf ((line ++ more).dropWhile isIndent) =
      ['/', '/'].isPrefixOf (line.dropWhile isIndent) := by
    rw [List.dropWhile_append]
    cases line.dropWhile isIndent with
    | nil =>
        exact not_opens_of_plain h
    | cons first rest =>
        cases rest with
        | nil =>
            cases more with
            | nil =>
                rfl
            | cons second tail =>
                have hne : ('/' == second) = false := by
                  simpa using fun heq => (h second (List.mem_cons_self ..)).1 heq.symm
                simp [List.isPrefixOf, hne]
        | cons second tail =>
            simp [List.isPrefixOf]
  unfold withoutLineComment
  rw [hopens]
  split
  · exact Or.inl ⟨rfl, rfl⟩
  · exact Or.inr ⟨rfl, rfl⟩

theorem withoutLineComments_plain (h : Plain more) : withoutLineComments more = more := by
  have hsame : (List.splitOn '\n' more).map withoutLineComment = List.splitOn '\n' more := by
    refine (List.map_congr_left ?_).trans (List.map_id _)
    intro line hline
    have hplain : Plain line := h.of_subset (subset_of_mem_splitOn hline)
    unfold withoutLineComment
    rw [not_opens_of_plain hplain]
    rfl
  rw [withoutLineComments, hsame, List.intercalate_splitOn]

theorem withoutLineComments_append (h : Plain more) (text : List Char) :
    exists kept, kept <:+ more ∧ (more.head? = some '\n' -> kept = more) ∧
      withoutLineComments (text ++ more) = withoutLineComments text ++ kept := by
  -- the lines of the text are gone through one after the other
  induction hlength : text.length using Nat.strongRecOn generalizing text with
  | ind length ih =>
      by_cases htext : '\n' ∈ text
      · obtain ⟨line, rest, rfl, hline⟩ := List.eq_append_cons_of_mem htext
        obtain ⟨kept, hsuffix, hall, hkept⟩ := ih rest.length (by simp at hlength; omega) rest rfl
        refine ⟨kept, hsuffix, hall, ?_⟩
        rw [List.append_assoc, List.cons_append, withoutLineComments_line_append hline,
          withoutLineComments_line_append hline, hkept, List.append_assoc, List.cons_append]
      · by_cases hmore : '\n' ∈ more
        · obtain ⟨front, rest, rfl, hfront⟩ := List.eq_append_cons_of_mem hmore
          have hplain : Plain front := h.of_subset (List.subset_append_left _ _)
          have hrest : Plain rest := h.of_subset
            (List.subset_append_of_subset_right _ (List.subset_cons_self _ _))
          have hline : '\n' ∉ text ++ front := by simp [htext, hfront]
          rw [<- List.append_assoc, withoutLineComments_line_append hline,
            withoutLineComments_plain hrest, withoutLineComments_line htext]
          rcases withoutLineComment_append hplain text with ⟨hjoined, halone⟩ | ⟨hjoined, halone⟩
          · refine ⟨'\n' :: rest, List.suffix_append _ _, ?_, by rw [hjoined, halone]⟩
            intro hhead
            cases front with
            | nil =>
                rfl
            | cons c front =>
                cases hhead
                exact absurd (List.mem_cons_self ..) hfront
          · refine ⟨front ++ '\n' :: rest, List.suffix_refl _, fun _ => rfl, ?_⟩
            rw [hjoined, halone, List.append_assoc]
        · have hline : '\n' ∉ text ++ more := by simp [htext, hmore]
          rw [withoutLineComments_line hline, withoutLineComments_line htext]
          rcases withoutLineComment_append h text with ⟨hjoined, halone⟩ | ⟨hjoined, halone⟩
          · refine ⟨[], List.nil_suffix, ?_, by rw [hjoined, halone]; rfl⟩
            intro hhead
            exact absurd (List.mem_of_mem_head? hhead) hmore
          · exact ⟨more, List.suffix_refl _, fun _ => rfl, by rw [hjoined, halone]⟩

/-!
# All comments
-/

/-- More text that opens and closes no comment stays, all of it if it starts on a new line. -/
theorem withoutComments_append (h : Plain more) (text : List Char) :
    exists kept, kept <:+ more ∧ (more.head? = some '\n' -> kept = more) ∧
      withoutComments (text ++ more) = withoutComments text ++ kept := by
  have hlines : forall t, withoutComments t = withoutLineComments (withoutBlocks true t) := by
    intro t
    rfl
  rw [hlines, hlines, withoutBlocks_append h]
  exact withoutLineComments_append h _

/-!
# Text without comments
-/

/-- Does no line, after its indentation, begin with a slash?  `fresh` where nothing else stands. -/
def uncommented (fresh : Bool) : List Char -> Bool
  | [] => true
  | c :: rest => !(fresh && c == '/') && uncommented (c == '\n' || fresh && isIndent c) rest

def freshAfter (fresh : Bool) : List Char -> Bool
  | [] => fresh
  | c :: rest => freshAfter (c == '\n' || fresh && isIndent c) rest

theorem uncommented_append (fresh : Bool) (text more : List Char) :
    uncommented fresh (text ++ more) =
      (uncommented fresh text && uncommented (freshAfter fresh text) more) := by
  induction text generalizing fresh with
  | nil =>
      rfl
  | cons c text ih =>
      rw [List.cons_append, uncommented, uncommented, freshAfter, ih, Bool.and_assoc]

theorem uncommented_of_no_slash {text : List Char} (h : '/' ∉ text) (fresh : Bool) :
    uncommented fresh text = true := by
  induction text generalizing fresh with
  | nil =>
      rfl
  | cons c text ih =>
      have hc : (c == '/') = false := by
        simpa using fun heq => h (by rw [heq]; exact List.mem_cons_self ..)
      rw [uncommented, ih fun hmem => h (List.mem_cons_of_mem c hmem), hc]
      simp

theorem uncommented_line {text : List Char} (h : '\n' ∉ text) : uncommented false text = true := by
  induction text with
  | nil =>
      rfl
  | cons c text ih =>
      have hc : (c == '\n') = false := by
        simpa using fun heq => h (by rw [heq]; exact List.mem_cons_self ..)
      simp only [uncommented, hc, Bool.false_and, Bool.false_or, Bool.not_false, Bool.true_and]
      exact ih fun hmem => h (List.mem_cons_of_mem c hmem)

theorem dropWhile_of_uncommented {text : List Char} (h : uncommented true text = true) :
    (text.dropWhile isIndent).head? ≠ some '/' := by
  induction text with
  | nil =>
      exact fun hhead => nomatch hhead
  | cons c text ih =>
      rw [uncommented, Bool.and_eq_true] at h
      cases hc : isIndent c with
      | true =>
          rw [hc, Bool.true_and, Bool.true_and, Bool.or_true] at h
          rw [List.dropWhile_cons, hc]
          exact ih h.2
      | false =>
          rw [List.dropWhile_cons, hc]
          intro hhead
          cases hhead
          exact absurd h.1 (by decide)

theorem leadingBlock_of_uncommented {text : List Char} (h : uncommented true text = true) :
    leadingBlock text = none := by
  have hhead := dropWhile_of_uncommented h
  unfold leadingBlock
  split
  · next rest hdrop =>
      rw [hdrop] at hhead
      exact absurd rfl hhead
  · rfl

theorem withoutBlocks_of_uncommented {fresh atLineStart : Bool} {text : List Char}
    (h : uncommented fresh text = true) (hstart : atLineStart = true -> fresh = true) :
    withoutBlocks atLineStart text = text := by
  induction text generalizing fresh atLineStart with
  | nil =>
      rw [withoutBlocks]
  | cons c text ih =>
      have hnone : atLineStart = true -> leadingBlock (c :: text) = none := by
        intro hline
        rw [hstart hline] at h
        exact leadingBlock_of_uncommented h
      rw [uncommented, Bool.and_eq_true] at h
      rw [withoutBlocks_of_none hnone, ih h.2 fun hc => by rw [hc]; rfl]

theorem withoutLineComment_of_uncommented {line : List Char} (h : uncommented true line = true) :
    withoutLineComment line = line := by
  have hhead := dropWhile_of_uncommented h
  unfold withoutLineComment
  split
  · next hopen =>
      cases hdrop : line.dropWhile isIndent with
      | nil =>
          rw [hdrop] at hopen
          cases hopen
      | cons c rest =>
          rw [hdrop] at hopen hhead
          have hc : c ≠ '/' := fun heq => hhead (by rw [heq]; rfl)
          simp [List.isPrefixOf, hc.symm] at hopen
  · rfl

theorem uncommented_lineEnd (fresh : Bool) (text : List Char) :
    uncommented fresh ('\n' :: text) = uncommented true text := by
  cases fresh <;> rfl

theorem withoutLineComments_of_uncommented {text : List Char} (h : uncommented true text = true) :
    withoutLineComments text = text := by
  have hlines : forall line, line ∈ List.splitOn '\n' text -> withoutLineComment line = line := by
    induction hlength : text.length using Nat.strongRecOn generalizing text with
    | ind length ih =>
        by_cases htext : '\n' ∈ text
        · obtain ⟨line, rest, rfl, hline⟩ := List.eq_append_cons_of_mem htext
          rw [uncommented_append, uncommented_lineEnd, Bool.and_eq_true] at h
          rw [List.splitOn_append_cons_self_of_not_mem hline]
          intro other hother
          rcases List.mem_cons.mp hother with rfl | hother
          · exact withoutLineComment_of_uncommented h.1
          · exact ih rest.length (by simp at hlength; omega) h.2 rfl other hother
        · rw [List.splitOn_eq_singleton htext]
          intro line hline
          rw [List.mem_singleton.mp hline]
          exact withoutLineComment_of_uncommented h
  have hsame : (List.splitOn '\n' text).map withoutLineComment = List.splitOn '\n' text :=
    (List.map_congr_left hlines).trans (List.map_id _)
  rw [withoutLineComments, hsame, List.intercalate_splitOn]

theorem withoutComments_of_uncommented {text : List Char} (h : uncommented true text = true) :
    withoutComments text = text := by
  show withoutLineComments (withoutBlocks true text) = text
  rw [withoutBlocks_of_uncommented h fun _ => rfl, withoutLineComments_of_uncommented h]

theorem uncommented_intercalate {blocks : List (List Char)}
    (h : forall block, block ∈ blocks -> uncommented true block = true) :
    uncommented true (['\n'].intercalate blocks) = true := by
  induction blocks with
  | nil =>
      rfl
  | cons block blocks ih =>
      have hblock := h block (List.mem_cons_self ..)
      have hrest := ih fun other hother => h other (List.mem_cons_of_mem block hother)
      by_cases hnil : blocks = []
      · rwa [hnil, List.intercalate_singleton]
      · rw [intercalate_cons '\n' block hnil, uncommented_append, uncommented_lineEnd, hblock,
          hrest]
        rfl

end SourceModule
end Joinery
