import Joinery.Proofs.SourceModule.Comments
import Joinery.Proofs.SourceModule.EmptyLine

/-!
# Comments on lines of their own

## A comment leaves empty lines

Where no block comment is open, a comment on lines of its own is taken out but for its line
ends.  What a text says about other modules is then the same as without the comment, on lines
further down where it follows the comment.
-/

namespace Joinery

namespace Text

theorem EndsLine.exists_lines {text : List Char} (h : EndsLine text) :
    exists lines : List (List Char), (forall line, line ∈ lines -> '\n' ∉ line) ∧
      text = lines.flatMap fun line => line ++ ['\n'] := by
  induction hlength : text.length using Nat.strongRecOn generalizing text with
  | ind length ih =>
      rcases h with rfl | hlast
      · exact ⟨[], by simp, rfl⟩
      · obtain ⟨line, rest, rfl, hline⟩ := List.eq_append_cons_of_mem (List.mem_of_getLast? hlast)
        have hrest : EndsLine rest := by
          cases rest with
          | nil =>
              exact Or.inl rfl
          | cons ch rest =>
              refine Or.inr ?_
              rwa [List.getLast?_append_cons, List.getLast?_cons_cons] at hlast
        obtain ⟨lines, hlines, hsame⟩ := ih rest.length (by simp at hlength; omega) hrest rfl
        refine ⟨line :: lines, ?_, ?_⟩
        · intro other hother
          rcases List.mem_cons.mp hother with rfl | hother
          · exact hline
          · exact hlines other hother
        · rw [List.flatMap_cons, <- hsame, List.append_assoc, List.singleton_append]

theorem endsLine_lines (lines : List (List Char)) :
    EndsLine (lines.flatMap fun line => line ++ ['\n']) := by
  cases lines.eq_nil_or_concat with
  | inl hnil =>
      exact Or.inl (by rw [hnil]; rfl)
  | inr hlast =>
      obtain ⟨lines, line, rfl⟩ := hlast
      refine Or.inr ?_
      rw [List.concat_eq_append, List.flatMap_append, List.flatMap_singleton, <- List.append_assoc]
      exact List.getLast?_concat

theorem count_lines {lines : List (List Char)} (h : forall line, line ∈ lines -> '\n' ∉ line) :
    (lines.flatMap fun line => line ++ ['\n']).count '\n' = lines.length := by
  induction lines with
  | nil =>
      rfl
  | cons line lines ih =>
      have hline := List.count_eq_zero_of_not_mem (h line (List.mem_cons_self ..))
      rw [List.flatMap_cons, List.count_append, List.count_append, hline,
        ih fun other hother => h other (List.mem_cons_of_mem line hother)]
      simp [Nat.add_comm]

end Text

namespace SourceModule

open Text

/-!
# A comment on lines of its own
-/

/-- A comment, maybe indented, that takes up whole lines. -/
inductive CommentLines where
  /-- `//` and a text to the end of the line -/
  | toLineEnd (indent body : String) (hindent : indent.toList.all isIndent = true)
      (hbody : '\n' ∉ body.toList)
  /-- a text between `/*` and the first `*/`, which ends its last line -/
  | block (indent body : String) (hindent : indent.toList.all isIndent = true)
      (hbody : contains ['*', '/'] (body.toList ++ ['*']) = false)

namespace CommentLines

def text : CommentLines -> String
  | toLineEnd indent body _ _ => indent ++ "//" ++ body ++ "\n"
  | block indent body _ _ => indent ++ "/*" ++ body ++ "*/\n"

def height (comment : CommentLines) : Nat :=
  comment.text.toList.count '\n'

end CommentLines

/-!
# Block comments that close
-/

def opensBlock (text : List Char) : Bool :=
  ['/', '*'].isPrefixOf (text.dropWhile isIndent)

def leavesBlockOpen (atLineStart : Bool) : List Char -> Bool
  | [] => false
  | c :: rest =>
      if atLineStart then
        match h : leadingBlock (c :: rest) with
        | some (_, tail) =>
            have := leadingBlock_length h
            leavesBlockOpen false tail
        | none => opensBlock (c :: rest) || leavesBlockOpen (c == '\n') rest
      else leavesBlockOpen (c == '\n') rest
termination_by text => text.length
decreasing_by all_goals (simp only [List.length_cons] at *; omega)

variable {text rest : List Char}

theorem leadingBlock_of_not_opens (h : opensBlock text = false) : leadingBlock text = none := by
  unfold leadingBlock
  split
  · next tail htext =>
      rw [opensBlock, htext] at h
      cases h
  · rfl

theorem closeOfBlock_append_some {lines : Nat} {tail : List Char}
    (h : closeOfBlock text = some (lines, tail)) (more : List Char) :
    closeOfBlock (text ++ more) = some (lines, tail ++ more) := by
  fun_induction closeOfBlock text generalizing lines tail with
  | case1 =>
      cases h
  | case2 rest =>
      cases h
      rfl
  | case3 c rest hopen ih =>
      obtain ⟨⟨count, left⟩, hclose, heq⟩ := Option.map_eq_some_iff.mp h
      cases heq
      have hlonger := ih hclose
      have hnot : ¬(c = '*' ∧ (rest ++ more).head? = some '/') := by
        rintro ⟨hc, hslash⟩
        cases rest with
        | nil =>
            cases hclose
        | cons next rest =>
            cases hslash
            exact hopen rest hc rfl
      rw [List.cons_append, closeOfBlock_cons hnot, hlonger]
      rfl

theorem exists_of_closeOfBlock {lines : Nat} {tail : List Char}
    (h : closeOfBlock text = some (lines, tail)) :
    exists body, text = body ++ '*' :: '/' :: tail ∧ body.count '\n' = lines := by
  fun_induction closeOfBlock text generalizing lines tail with
  | case1 =>
      cases h
  | case2 rest =>
      cases h
      exact ⟨[], rfl, rfl⟩
  | case3 c rest _ ih =>
      obtain ⟨⟨count, left⟩, hclose, heq⟩ := Option.map_eq_some_iff.mp h
      cases heq
      obtain ⟨body, rfl, hcount⟩ := ih hclose
      refine ⟨c :: body, rfl, ?_⟩
      rw [List.count_cons, hcount]
      by_cases hc : c = '\n'
      · simp [hc]
      · simp [hc]

theorem exists_of_leadingBlock {lines : Nat} {tail : List Char}
    (h : leadingBlock text = some (lines, tail)) :
    exists indent body, (forall ch, ch ∈ indent -> isIndent ch = true) ∧
      text = indent ++ '/' :: '*' :: (body ++ '*' :: '/' :: tail) ∧ body.count '\n' = lines := by
  unfold leadingBlock at h
  split at h
  · next inside hinside =>
      obtain ⟨body, rfl, hcount⟩ := exists_of_closeOfBlock h
      refine ⟨text.takeWhile isIndent, body, fun ch hch => List.mem_takeWhile_imp hch, ?_, hcount⟩
      rw [<- hinside, List.takeWhile_append_dropWhile]
  · cases h

theorem leadingBlock_append_some {lines : Nat} {tail : List Char}
    (h : leadingBlock text = some (lines, tail)) (more : List Char) :
    leadingBlock (text ++ more) = some (lines, tail ++ more) := by
  unfold leadingBlock at h ⊢
  split at h
  · next inside hinside =>
      have hdrop : (text ++ more).dropWhile isIndent = '/' :: '*' :: (inside ++ more) := by
        rw [List.dropWhile_append, hinside]
        rfl
      rw [hdrop]
      exact closeOfBlock_append_some h more
  · cases h

theorem opensBlock_append (hlast : text.getLast? = some '\n') (more : List Char) :
    opensBlock (text ++ more) = opensBlock text := by
  have hend : '\n' ∈ text.dropWhile isIndent := by
    obtain ⟨front, rfl⟩ := List.getLast?_eq_some_iff.mp hlast
    rw [List.dropWhile_append]
    split
    · exact List.mem_singleton_self _
    · exact List.mem_append_right _ (List.mem_singleton_self _)
  unfold opensBlock
  rw [List.dropWhile_append]
  cases hdrop : text.dropWhile isIndent with
  | nil =>
      rw [hdrop] at hend
      cases hend
  | cons first tail =>
      cases tail with
      | nil =>
          rw [hdrop] at hend
          rw [<- List.mem_singleton.mp hend]
          rfl
      | cons second tail =>
          rfl

def EndsLineFrom (atLineStart : Bool) (text : List Char) : Prop :=
  text = [] ∧ atLineStart = true ∨ text.getLast? = some '\n'

theorem EndsLineFrom.of_cons {atLineStart : Bool} {c : Char}
    (h : EndsLineFrom atLineStart (c :: rest)) : EndsLineFrom (c == '\n') rest := by
  rcases h with ⟨hnil, _⟩ | hlast
  · cases hnil
  · cases rest with
    | nil =>
        obtain rfl : c = '\n' := by simpa using hlast
        exact Or.inl ⟨rfl, rfl⟩
    | cons next rest =>
        exact Or.inr (by rwa [List.getLast?_cons_cons] at hlast)

theorem EndsLineFrom.of_block {lines : Nat} {tail : List Char} (h : EndsLineFrom true text)
    (hblock : leadingBlock text = some (lines, tail)) : EndsLineFrom false tail := by
  obtain ⟨indent, body, _, rfl, _⟩ := exists_of_leadingBlock hblock
  rcases h with ⟨hnil, _⟩ | hlast
  · cases indent <;> cases hnil
  · have hsplit : indent ++ '/' :: '*' :: (body ++ '*' :: '/' :: tail) =
        (indent ++ '/' :: '*' :: (body ++ ['*'])) ++ '/' :: tail := by
      simp
    rw [hsplit, List.getLast?_append_of_ne_nil _ (List.cons_ne_nil _ _)] at hlast
    cases tail with
    | nil =>
        cases hlast
    | cons next tail =>
        exact Or.inr (by rwa [List.getLast?_cons_cons] at hlast)

theorem withoutBlocks_append_of_closed {atLineStart : Bool}
    (hopen : leavesBlockOpen atLineStart text = false) (hends : EndsLineFrom atLineStart text)
    (more : List Char) :
    withoutBlocks atLineStart (text ++ more) =
      withoutBlocks atLineStart text ++ withoutBlocks true more := by
  fun_induction leavesBlockOpen atLineStart text with
  | case1 atLineStart =>
      rcases hends with ⟨_, rfl⟩ | hlast
      · rw [withoutBlocks]
        rfl
      · cases hlast
  | case2 c rest lines tail hblock hlength ih =>
      have hlonger : leadingBlock (c :: (rest ++ more)) = some (lines, tail ++ more) :=
        leadingBlock_append_some hblock more
      rw [List.cons_append, withoutBlocks_of_block hlonger, withoutBlocks_of_block hblock,
        ih hopen (hends.of_block hblock), List.append_assoc]
  | case3 c rest hblock ih =>
      obtain ⟨hopens, hrest⟩ := Bool.or_eq_false_iff.mp hopen
      have hlast : (c :: rest).getLast? = some '\n' := by
        rcases hends with ⟨hnil, _⟩ | hlast
        · cases hnil
        · exact hlast
      have hlonger : leadingBlock (c :: (rest ++ more)) = none :=
        leadingBlock_of_not_opens ((opensBlock_append hlast more).trans hopens)
      rw [List.cons_append, withoutBlocks_of_none fun _ => hlonger,
        withoutBlocks_of_none fun _ => hblock, ih hrest hends.of_cons, List.cons_append]
  | case4 atLineStart c rest hstart ih =>
      rw [List.cons_append, withoutBlocks_of_none fun h => absurd h hstart,
        withoutBlocks_of_none fun h => absurd h hstart, ih hopen hends.of_cons, List.cons_append]

theorem count_withoutBlocks (atLineStart : Bool) (text : List Char) :
    (withoutBlocks atLineStart text).count '\n' = text.count '\n' := by
  fun_induction withoutBlocks atLineStart text with
  | case1 =>
      rfl
  | case2 c rest lines tail hblock hlength ih =>
      obtain ⟨indent, body, hindent, htext, hcount⟩ := exists_of_leadingBlock hblock
      have hnone : indent.count '\n' = 0 := by
        refine List.count_eq_zero_of_not_mem fun hmem => ?_
        have hend := hindent _ hmem
        cases hend
      rw [htext, List.count_append, List.count_replicate_self, ih]
      simp [hnone, hcount]
  | case3 c rest hblock ih =>
      rw [List.count_cons, List.count_cons, ih]
  | case4 atLineStart c rest hstart ih =>
      rw [List.count_cons, List.count_cons, ih]

theorem endsLine_withoutBlocks {atLineStart : Bool} (h : EndsLineFrom atLineStart text) :
    EndsLineFrom atLineStart (withoutBlocks atLineStart text) := by
  fun_induction withoutBlocks atLineStart text with
  | case1 =>
      exact h
  | case2 c rest lines tail hblock hlength ih =>
      rcases ih (h.of_block hblock) with ⟨_, hstart⟩ | hlast
      · cases hstart
      · refine Or.inr ?_
        rw [List.getLast?_append, hlast]
        rfl
  | case3 c rest hblock ih =>
      rcases ih h.of_cons with ⟨hnil, hc⟩ | hlast
      · rw [hnil, beq_iff_eq.mp hc]
        exact Or.inr rfl
      · refine Or.inr ?_
        rw [List.getLast?_cons, hlast]
        rfl
  | case4 atLineStart c rest hstart ih =>
      rcases ih h.of_cons with ⟨hnil, hc⟩ | hlast
      · rw [hnil, beq_iff_eq.mp hc]
        exact Or.inr rfl
      · refine Or.inr ?_
        rw [List.getLast?_cons, hlast]
        rfl

/-!
# Comments to the end of a line, line by line
-/

theorem withoutLineComment_no_lineEnd {line : List Char} (h : '\n' ∉ line) :
    '\n' ∉ withoutLineComment line := by
  unfold withoutLineComment
  split
  · exact List.not_mem_nil
  · exact h

theorem withoutLineComments_lines {lines : List (List Char)}
    (h : forall line, line ∈ lines -> '\n' ∉ line) (more : List Char) :
    withoutLineComments (lines.flatMap (fun line => line ++ ['\n']) ++ more) =
      (lines.map withoutLineComment).flatMap (fun line => line ++ ['\n']) ++
        withoutLineComments more := by
  induction lines with
  | nil =>
      rfl
  | cons line lines ih =>
      have hrest := ih fun other hother => h other (List.mem_cons_of_mem line hother)
      rw [List.flatMap_cons, List.append_assoc, List.append_assoc, List.singleton_append,
        withoutLineComments_line_append (h line (List.mem_cons_self ..)), hrest, List.map_cons,
        List.flatMap_cons, List.append_assoc, List.append_assoc, List.singleton_append]

theorem exists_withoutLineComments (h : EndsLine text) :
    exists kept, EndsLine kept ∧ kept.count '\n' = text.count '\n' ∧
      forall more, withoutLineComments (text ++ more) = kept ++ withoutLineComments more := by
  obtain ⟨lines, hlines, rfl⟩ := h.exists_lines
  have hkept : forall line, line ∈ lines.map withoutLineComment -> '\n' ∉ line := by
    intro line hline
    obtain ⟨original, horiginal, rfl⟩ := List.mem_map.mp hline
    exact withoutLineComment_no_lineEnd (hlines original horiginal)
  refine ⟨(lines.map withoutLineComment).flatMap fun line => line ++ ['\n'], endsLine_lines _, ?_,
    withoutLineComments_lines hlines⟩
  rw [count_lines hkept, count_lines hlines, List.length_map]

theorem exists_withoutComments (hends : EndsLine text) (hopen : leavesBlockOpen true text = false) :
    exists kept, EndsLine kept ∧ kept.count '\n' = text.count '\n' ∧
      forall more, withoutComments (text ++ more) = kept ++ withoutComments more := by
  have hfrom : EndsLineFrom true text := hends.imp_left fun hnil => ⟨hnil, rfl⟩
  have hblocks : EndsLine (withoutBlocks true text) :=
    (endsLine_withoutBlocks hfrom).imp_left fun hnil => hnil.1
  obtain ⟨kept, hkept, hcount, happend⟩ := exists_withoutLineComments hblocks
  refine ⟨kept, hkept, hcount.trans (count_withoutBlocks true text), fun more => ?_⟩
  show withoutLineComments (withoutBlocks true (text ++ more)) = _
  rw [withoutBlocks_append_of_closed hopen hfrom, happend]
  rfl

theorem leavesBlockOpen_of_uncommented {fresh atLineStart : Bool}
    (h : uncommented fresh text = true) (hstart : atLineStart = true -> fresh = true) :
    leavesBlockOpen atLineStart text = false := by
  fun_induction leavesBlockOpen atLineStart text generalizing fresh with
  | case1 =>
      rfl
  | case2 c rest lines tail hblock hlength ih =>
      rw [hstart rfl] at h
      rw [leadingBlock_of_uncommented h] at hblock
      cases hblock
  | case3 c rest hblock ih =>
      rw [hstart rfl] at h
      have hhead := dropWhile_of_uncommented h
      have hopens : opensBlock (c :: rest) = false := by
        unfold opensBlock
        cases hdrop : (c :: rest).dropWhile isIndent with
        | nil =>
            rfl
        | cons first tail =>
            rw [hdrop] at hhead
            have hfirst : ('/' == first) = false := by
              simpa using fun heq => hhead (by rw [<- heq]; rfl)
            rw [List.isPrefixOf, hfirst]
            rfl
      rw [uncommented, Bool.and_eq_true] at h
      rw [hopens, ih h.2 fun hc => by rw [hc]; rfl]
      rfl
  | case4 atLineStart c rest hline ih =>
      rw [uncommented, Bool.and_eq_true] at h
      exact ih h.2 fun hc => by rw [hc]; rfl

theorem withoutComments_append_of_uncommented (h : uncommented true text = true)
    (hends : EndsLine text) (more : List Char) :
    withoutComments (text ++ more) = text ++ withoutComments more := by
  obtain ⟨kept, _, _, happend⟩ :=
    exists_withoutComments hends (leavesBlockOpen_of_uncommented h fun _ => rfl)
  have hnone : withoutComments [] = [] := withoutComments_of_uncommented rfl
  have hkept := happend []
  rw [List.append_nil, withoutComments_of_uncommented h, hnone, List.append_nil] at hkept
  rw [happend, hkept]

/-!
# The lines that a comment leaves
-/

theorem closeOfBlock_of_first {body : List Char}
    (h : contains ['*', '/'] (body ++ ['*']) = false) (tail : List Char) :
    closeOfBlock (body ++ '*' :: '/' :: tail) = some (body.count '\n', tail) := by
  induction body with
  | nil =>
      rfl
  | cons c body ih =>
      rw [List.cons_append, contains, Bool.or_eq_false_iff] at h
      have hnot : ¬(c = '*' ∧ (body ++ '*' :: '/' :: tail).head? = some '/') := by
        rintro ⟨rfl, hslash⟩
        cases body with
        | nil =>
            cases hslash
        | cons next body =>
            cases hslash
            simp [List.isPrefixOf] at h
      rw [List.cons_append, closeOfBlock_cons hnot, ih h.2, List.count_cons]
      by_cases hc : c = '\n' <;> simp [hc]

theorem dropWhile_indent {indent : List Char} (h : indent.all isIndent = true) {c : Char}
    (hc : isIndent c = false) (more : List Char) :
    (indent ++ c :: more).dropWhile isIndent = c :: more := by
  rw [List.dropWhile_append_of_pos (List.all_eq_true.mp h), List.dropWhile_cons, hc]
  rfl

theorem withoutBlocks_line {line : List Char} (h : '\n' ∉ line) (more : List Char) :
    withoutBlocks false (line ++ '\n' :: more) = line ++ '\n' :: withoutBlocks true more := by
  induction line with
  | nil =>
      exact withoutBlocks_of_none fun h => absurd h (by decide)
  | cons c line ih =>
      have hc : (c == '\n') = false := by
        simpa using fun heq => h (by rw [heq]; exact List.mem_cons_self ..)
      rw [List.cons_append, withoutBlocks_of_none fun h => absurd h (by decide), hc,
        ih fun hmem => h (List.mem_cons_of_mem c hmem), List.cons_append]

theorem withoutBlocks_plain_line {line : List Char} (h : '\n' ∉ line) (more : List Char)
    (hopens : opensBlock (line ++ '\n' :: more) = false) :
    withoutBlocks true (line ++ '\n' :: more) = line ++ '\n' :: withoutBlocks true more := by
  have hnone := leadingBlock_of_not_opens hopens
  cases line with
  | nil =>
      exact withoutBlocks_of_none fun _ => hnone
  | cons c line =>
      have hc : (c == '\n') = false := by
        simpa using fun heq => h (by rw [heq]; exact List.mem_cons_self ..)
      rw [List.cons_append] at hnone ⊢
      rw [withoutBlocks_of_none fun _ => hnone, hc,
        withoutBlocks_line fun hmem => h (List.mem_cons_of_mem c hmem), List.cons_append]

theorem withoutLineComments_lineEnds (count : Nat) (more : List Char) :
    withoutLineComments (List.replicate count '\n' ++ more) =
      List.replicate count '\n' ++ withoutLineComments more := by
  induction count with
  | zero =>
      rfl
  | succ count ih =>
      rw [List.replicate_succ, List.cons_append, List.cons_append, <- ih]
      exact withoutLineComments_line_append List.not_mem_nil _

theorem indent_no_lineEnd {indent : List Char} (h : indent.all isIndent = true) :
    '\n' ∉ indent := by
  intro hmem
  have hend := List.all_eq_true.mp h _ hmem
  cases hend

theorem withoutComments_toLineEnd {indent body : List Char} (hindent : indent.all isIndent = true)
    (hbody : '\n' ∉ body) (after : List Char) :
    withoutComments (indent ++ '/' :: '/' :: (body ++ '\n' :: after)) =
      '\n' :: withoutComments after := by
  have hline : '\n' ∉ indent ++ '/' :: '/' :: body := by
    simp [indent_no_lineEnd hindent, hbody]
  have hsplit : indent ++ '/' :: '/' :: (body ++ '\n' :: after) =
      (indent ++ '/' :: '/' :: body) ++ '\n' :: after := by
    simp
  have hopens : opensBlock ((indent ++ '/' :: '/' :: body) ++ '\n' :: after) = false := by
    rw [opensBlock, <- hsplit, dropWhile_indent hindent (by decide)]
    rfl
  have hcomment : withoutLineComment (indent ++ '/' :: '/' :: body) = [] := by
    rw [withoutLineComment, dropWhile_indent hindent (by decide)]
    rfl
  show withoutLineComments (withoutBlocks true _) = _
  rw [hsplit, withoutBlocks_plain_line hline _ hopens, withoutLineComments_line_append hline,
    hcomment]
  rfl

theorem withoutComments_emptyLine (after : List Char) :
    withoutComments ('\n' :: after) = '\n' :: withoutComments after := by
  have hblocks := withoutBlocks_plain_line (List.not_mem_nil : '\n' ∉ []) after rfl
  have hlines := withoutLineComments_line_append (List.not_mem_nil : '\n' ∉ [])
  rw [List.nil_append] at hblocks
  show withoutLineComments (withoutBlocks true ('\n' :: after)) = _
  rw [hblocks]
  exact hlines _

theorem withoutBlocks_of_not_opens (h : opensBlock text = false) :
    withoutBlocks false text = withoutBlocks true text := by
  cases text with
  | nil =>
      rw [withoutBlocks, withoutBlocks]
  | cons c text =>
      rw [withoutBlocks_of_none fun _ => leadingBlock_of_not_opens h,
        withoutBlocks_of_none fun _ => leadingBlock_of_not_opens h]

theorem withoutComments_block {indent body after : List Char}
    (hindent : indent.all isIndent = true) (hbody : contains ['*', '/'] (body ++ ['*']) = false)
    (hafter : opensBlock after = false) :
    withoutComments (indent ++ '/' :: '*' :: (body ++ '*' :: '/' :: after)) =
      List.replicate (body.count '\n') '\n' ++ withoutComments after := by
  have hblock : leadingBlock (indent ++ '/' :: '*' :: (body ++ '*' :: '/' :: after)) =
      some (body.count '\n', after) := by
    rw [leadingBlock, dropWhile_indent hindent (by decide)]
    exact closeOfBlock_of_first hbody _
  have hblocks : withoutBlocks true (indent ++ '/' :: '*' :: (body ++ '*' :: '/' :: after)) =
      List.replicate (body.count '\n') '\n' ++ withoutBlocks true after := by
    rw [<- withoutBlocks_of_not_opens hafter]
    cases indent with
    | nil =>
        exact withoutBlocks_of_block hblock
    | cons ch indent =>
        exact withoutBlocks_of_block hblock
  show withoutLineComments (withoutBlocks true _) = _
  rw [hblocks, withoutLineComments_lineEnds]
  rfl

theorem withoutComments_comment (comment : CommentLines) (after : List Char) :
    withoutComments (comment.text.toList ++ after) =
      List.replicate comment.height '\n' ++ withoutComments after := by
  cases comment with
  | toLineEnd indent body hindent hbody =>
      have hheight : (CommentLines.toLineEnd indent body hindent hbody).height = 1 := by
        have hnone := List.count_eq_zero_of_not_mem (indent_no_lineEnd hindent)
        simp [CommentLines.height, CommentLines.text, hnone, List.count_eq_zero_of_not_mem hbody]
      rw [hheight]
      simpa [CommentLines.text] using withoutComments_toLineEnd hindent hbody after
  | block indent body hindent hbody =>
      have hheight : (CommentLines.block indent body hindent hbody).height =
          body.toList.count '\n' + 1 := by
        have hnone := List.count_eq_zero_of_not_mem (indent_no_lineEnd hindent)
        simp [CommentLines.height, CommentLines.text, hnone]
      have hblock := withoutComments_block hindent hbody (rfl : opensBlock ('\n' :: after) = false)
      rw [withoutComments_emptyLine] at hblock
      rw [hheight, List.replicate_succ', List.append_assoc, List.singleton_append, <- hblock]
      simp [CommentLines.text]

/--
A comment on lines of its own, put in where a line begins and no block comment is open, changes
nothing that is said about other modules but the lines of what follows it.
-/
theorem scan_comment_lines (path before after : String) (comment : CommentLines)
    (hbefore : EndsLine before.toList) (hopen : leavesBlockOpen true before.toList = false) :
    scan path (before ++ comment.text ++ after) =
      (scan path (before ++ after)).moved (before.toList.count '\n' + 1) comment.height := by
  obtain ⟨kept, hkept, hcount, happend⟩ := exists_withoutComments hbefore hopen
  have hscan : forall text, scan path text = scanCode path (withoutComments text.toList) :=
    fun _ => rfl
  rw [hscan, hscan, String.toList_append, String.toList_append, String.toList_append,
    List.append_assoc, happend, happend, withoutComments_comment, scanCode_empty_lines path hkept,
    hcount]

theorem scan_comment_lines_within_braces :
    EndsLine "import \x7b\n  a,\n".toList ∧ leavesBlockOpen true "import \x7b\n  a,\n".toList = false ∧
      scan "m.ts" ("import \x7b\n  a,\n" ++
          (CommentLines.block "  " " b,\n \x7d " rfl rfl).text ++
            "  c\n\x7d from './n'\nexport * from './o'\n") =
        { path := "m.ts"
          imports := [⟨"./n", 1, [⟨.named "a", "a", false⟩, ⟨.named "c", "c", false⟩], false⟩]
          exports := { starSources := ["./o"] }
          reexports := [⟨"./o", 7, [], true⟩] } := by
  have hends : EndsLine "import \x7b\n  a,\n".toList := Or.inr rfl
  have hopen : leavesBlockOpen true "import \x7b\n  a,\n".toList = false := by decide +kernel
  refine ⟨hends, hopen, ?_⟩
  rw [scan_comment_lines "m.ts" "import \x7b\n  a,\n" _ _ hends hopen]
  decide +kernel

end SourceModule
end Joinery
