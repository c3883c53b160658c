import Joinery.Proofs.Sorting
import Joinery.Proofs.SourceModule.CommentLines
import Joinery.Proofs.SourceModule.ExportStatements
import Joinery.Proofs.SourceModule.ImportLines
import Joinery.Proofs.Text.Pieces

/-!
# The lines of statements

## Line numbers hold for the text with its comments

Statements are looked for in the text without comments, and their lines are counted there.  Taking
the comments out leaves every line where it was and cuts off its beginning at most.  So the number
of a statement's line is right for the text as it was written, and what is left of this line begins
with the statement.
-/

namespace Joinery

namespace Text

theorem endsLine_of_atLineStart {c : Cursor} (h : c.atLineStart = true) :
    EndsLine c.behind.reverse := by
  obtain ⟨behind, ahead⟩ := c
  cases behind with
  | nil =>
      exact Or.inl rfl
  | cons last before =>
      have hlast : last = '\n' := by
        simpa [Cursor.atLineStart] using h
      apply Or.inr
      rw [List.getLast?_reverse, hlast]
      rfl

theorem getElem?_line {c : Cursor} (h : c.atLineStart = true) :
    (List.splitOn '\n' (c.behind.reverse ++ c.ahead))[c.line - 1]? =
      (List.splitOn '\n' c.ahead).head? := by
  obtain ⟨lines, hlines, hbehind⟩ := (endsLine_of_atLineStart h).exists_lines
  have hcount : c.line - 1 = lines.length := by
    rw [Cursor.line, Nat.add_sub_cancel, <- List.count_reverse, hbehind, count_lines hlines]
  rw [hcount, hbehind, splitOn_flatMap_append hlines, List.getElem?_append_right (Nat.le_refl _),
    Nat.sub_self, List.head?_eq_getElem?]

theorem eq_of_line_eq {text : List Char} {c d : Cursor} (hc : c.behind.reverse ++ c.ahead = text)
    (hd : d.behind.reverse ++ d.ahead = text) (hcStart : c.atLineStart = true)
    (hdStart : d.atLineStart = true) (h : c.line = d.line) : c = d := by
  rcases Nat.lt_trichotomy c.offset d.offset with hlt | heq | hgt
  · have hline := line_lt_line hc hd hlt hdStart
    omega
  · exact eq_of_offset_eq hc hd heq
  · have hline := line_lt_line hd hc hgt hcStart
    omega

end Text

namespace SourceModule

open Text Matcher

variable {fresh : Bool} {kept text : List Char}

/-!
# What is left of the lines
-/

/--
The first text is the second one with the beginnings of some lines left out.  Unless it is `fresh`,
nothing is left out of the first line.
-/
inductive Curtailed : Bool -> List Char -> List Char -> Prop where
  | nil (fresh : Bool) : Curtailed fresh [] []
  | lineEnd (fresh : Bool) {kept text : List Char} :
      Curtailed true kept text -> Curtailed fresh ('\n' :: kept) ('\n' :: text)
  | keep (fresh : Bool) {c : Char} {kept text : List Char} :
      c ≠ '\n' -> Curtailed false kept text -> Curtailed fresh (c :: kept) (c :: text)
  | leaveOut {c : Char} {kept text : List Char} :
      c ≠ '\n' -> Curtailed true kept text -> Curtailed true kept (c :: text)

theorem Curtailed.freshen (h : Curtailed false kept text) : Curtailed true kept text := by
  cases h with
  | nil =>
      exact .nil true
  | lineEnd _ h =>
      exact .lineEnd true h
  | keep _ hc h =>
      exact .keep true hc h

theorem Curtailed.cons {c : Char} (h : Curtailed (c == '\n') kept text) :
    Curtailed fresh (c :: kept) (c :: text) := by
  by_cases hc : c = '\n'
  · subst hc
    exact .lineEnd fresh h
  · rw [beq_eq_false_iff_ne.mpr hc] at h
    exact .keep fresh hc h

theorem Curtailed.append (h : Curtailed true kept text) (front : List Char) :
    Curtailed true (List.replicate (front.count '\n') '\n' ++ kept) (front ++ text) := by
  induction front with
  | nil =>
      exact h
  | cons c front ih =>
      by_cases hc : c = '\n'
      · subst hc
        rw [List.count_cons_self, List.replicate_succ]
        exact .lineEnd true ih
      · rw [List.count_cons_of_ne hc]
        exact .leaveOut hc ih

theorem curtailed_withoutBlocks (atLineStart : Bool) (text : List Char) :
    Curtailed atLineStart (withoutBlocks atLineStart text) text := by
  fun_induction withoutBlocks atLineStart text with
  | case1 atLineStart =>
      exact .nil atLineStart
  | case2 c rest lines tail hblock hlength ih =>
      obtain ⟨indent, body, hindent, htext, hcount⟩ := exists_of_leadingBlock hblock
      have hnone : indent.count '\n' = 0 :=
        List.count_eq_zero_of_not_mem (indent_no_lineEnd (List.all_eq_true.mpr hindent))
      have hfront := ih.freshen.append (indent ++ '/' :: '*' :: (body ++ ['*', '/']))
      have hlines : (indent ++ '/' :: '*' :: (body ++ ['*', '/'])).count '\n' = lines := by
        simp [hnone, hcount]
      rw [hlines] at hfront
      rw [htext]
      simpa using hfront
  | case3 c rest hblock ih =>
      exact ih.cons
  | case4 atLineStart c rest hstart ih =>
      exact ih.cons

theorem Curtailed.lines (h : Curtailed fresh kept text) :
    exists line lines whole wholes, List.splitOn '\n' kept = line :: lines ∧
      List.splitOn '\n' text = whole :: wholes ∧ (fresh = false -> line = whole) ∧ line <:+ whole ∧
      List.Forall₂ (· <:+ ·) lines wholes := by
  induction h with
  | nil =>
      exact ⟨[], [], [], [], rfl, rfl, fun _ => rfl, List.suffix_refl _, .nil⟩
  | lineEnd _ _ ih =>
      obtain ⟨line, lines, whole, wholes, hkept, htext, _, hfirst, hothers⟩ := ih
      refine ⟨[], line :: lines, [], whole :: wholes, ?_, ?_, fun _ => rfl, List.suffix_refl _,
        .cons hfirst hothers⟩
      · rw [splitOn_cons_self, hkept]
      · rw [splitOn_cons_self, htext]
  | @keep _ c _ _ hc _ ih =>
      obtain ⟨line, lines, whole, wholes, hkept, htext, hsame, _, hothers⟩ := ih
      obtain rfl := hsame rfl
      refine ⟨c :: line, lines, c :: line, wholes, ?_, ?_, fun _ => rfl, List.suffix_refl _,
        hothers⟩
      · exact splitOn_cons_of_ne hc hkept
      · exact splitOn_cons_of_ne hc htext
  | @leaveOut c _ _ hc _ ih =>
      obtain ⟨line, lines, whole, wholes, hkept, htext, _, hfirst, hothers⟩ := ih
      refine ⟨line, lines, c :: whole, wholes, hkept, ?_, ?_, ?_, hothers⟩
      · exact splitOn_cons_of_ne hc htext
      · intro hfalse
        cases hfalse
      · exact hfirst.trans (List.suffix_cons c whole)

theorem splitOn_withoutComments (text : List Char) :
    List.splitOn '\n' (withoutComments text) =
      (List.splitOn '\n' (withoutBlocks true text)).map withoutLineComment := by
  unfold withoutComments
  apply List.splitOn_intercalate
  · intro piece hpiece
    obtain ⟨line, hline, rfl⟩ := List.mem_map.mp hpiece
    exact withoutLineComment_no_lineEnd (not_mem_of_mem_splitOn hline)
  · rw [Ne, List.map_eq_nil_iff]
    exact List.splitOn_ne_nil _ _

theorem withoutLineComment_suffix (line : List Char) : withoutLineComment line <:+ line := by
  unfold withoutLineComment
  split
  · exact List.nil_suffix
  · exact List.suffix_refl line

theorem suffix_lines_withoutComments (text : List Char) :
    List.Forall₂ (· <:+ ·) (List.splitOn '\n' (withoutComments text)) (List.splitOn '\n' text) := by
  obtain ⟨line, lines, whole, wholes, hkept, htext, _, hfirst, hothers⟩ :=
    (curtailed_withoutBlocks true text).lines
  have hblocks : List.Forall₂ (· <:+ ·) (List.splitOn '\n' (withoutBlocks true text))
      (List.splitOn '\n' text) := by
    rw [hkept, htext]
    exact .cons hfirst hothers
  rw [splitOn_withoutComments, List.forall₂_map_left_iff]
  apply hblocks.imp
  intro line whole hsuffix
  exact (withoutLineComment_suffix line).trans hsuffix

theorem count_withoutComments (text : List Char) :
    (withoutComments text).count '\n' = text.count '\n' := by
  have hlength := (suffix_lines_withoutComments text).length_eq
  rw [length_splitOn, length_splitOn] at hlength
  exact Nat.succ.inj hlength

/-!
# The line that a number points at
-/

def OpensWord (words : List String) (line : List Char) : Prop :=
  exists indent rest, indent.all isIndent = true ∧ line = indent ++ rest ∧ Begins words rest

/--
The text has a line of this number, counted from 1, and what is left of it without comments begins
with one of these words.
-/
structure PointsAt (words : List String) (text : List Char) (number : Nat) : Prop where
  least : 1 ≤ number
  most : number ≤ (List.splitOn '\n' text).length
  line : exists whole kept, (List.splitOn '\n' text)[number - 1]? = some whole ∧
    (List.splitOn '\n' (withoutComments text))[number - 1]? = some kept ∧ kept <:+ whole ∧
    OpensWord words kept

variable {words : List String} {place : Cursor}

theorem exists_opensWord (hwords : forall word, word ∈ words -> '\n' ∉ word.toList)
    (h : OpensWord words text) : exists line, (List.splitOn '\n' text).head? = some line ∧
      OpensWord words line := by
  obtain ⟨indent, rest, hindent, rfl, word, hword, more, rfl⟩ := h
  have hfront : '\n' ∉ indent ++ word.toList := by
    rw [List.mem_append, not_or]
    exact ⟨indent_no_lineEnd hindent, hwords word hword⟩
  obtain ⟨piece, pieces, _, hsplit⟩ := exists_splitOn_append hfront more
  rw [List.append_assoc] at hsplit
  exists indent ++ word.toList ++ piece
  constructor
  · rw [hsplit]
    rfl
  · refine ⟨indent, word.toList ++ piece, hindent, ?_, word, hword, List.prefix_append _ _⟩
    rw [List.append_assoc]

theorem pointsAt_of_place (hcode : place.behind.reverse ++ place.ahead = withoutComments text)
    (hstart : place.atLineStart = true) (hwords : forall word, word ∈ words -> '\n' ∉ word.toList)
    (h : OpensWord words place.ahead) : PointsAt words text place.line := by
  have hlines := suffix_lines_withoutComments text
  obtain ⟨kept, hhead, hopens⟩ := exists_opensWord hwords h
  have hkept : (List.splitOn '\n' (withoutComments text))[place.line - 1]? = some kept := by
    rw [<- hcode, getElem?_line hstart, hhead]
  obtain ⟨hlt, hget⟩ := List.getElem?_eq_some_iff.mp hkept
  have hlt' : place.line - 1 < (List.splitOn '\n' text).length := by
    rw [<- hlines.length_eq]
    exact hlt
  have hsuffix := hlines.get hlt hlt'
  constructor
  · exact Nat.le_add_left 1 _
  · have hleast : 1 ≤ place.line := Nat.le_add_left 1 _
    omega
  · refine ⟨(List.splitOn '\n' text)[place.line - 1], kept, List.getElem?_eq_getElem hlt',
      hkept, ?_,
      hopens⟩
    rw [<- hget]
    exact hsuffix

def importWords : List String :=
  ["import", "const", "let", "var", "require"]

theorem ImportKind.words_subset (kind : ImportKind) {word : String} (h : word ∈ kind.words) :
    word ∈ importWords := by
  revert word
  cases kind <;> decide

theorem pointsAt_imports {record : Import} (h : record ∈ importsOfCode (withoutComments text)) :
    PointsAt importWords text record.line := by
  obtain ⟨kind, entry, hfound, rfl⟩ := exists_of_mem_importsOfCode h
  obtain ⟨place, hplace⟩ := exists_standsAt hfound
  obtain ⟨found, hread⟩ := hplace.read
  obtain ⟨indent, rest, hindent, hahead, word, hword, hprefix⟩ := ImportKind.begins_of_mem hread
  rw [hplace.line]
  apply pointsAt_of_place hplace.text hplace.atLineStart (by decide)
  exact ⟨indent, rest, hindent, hahead, word, kind.words_subset hword, hprefix⟩

/-!
# Statements that export from another module
-/

variable {α β : Type} {form : Matcher α} {code : List Char}

theorem OpensWith.exists_sign {sign : Char} (h : OpensWith sign form) {c : Cursor}
    {found : α × Cursor} (hfound : found ∈ form c) :
    exists word start mark, word ∈ exportWord c ∧ start ∈ blanks1 word.2 ∧
      mark ∈ Matcher.optional (keyword "type") start.2 ∧ mark.2.ahead.head? = some sign := by
  obtain ⟨next, rfl, hrefuses⟩ := h
  have hparts : (indentation >>= fun _ => keyword "export" >>= fun _ =>
      Matcher.optional (keyword "type") >>= next) = exportWord >>= fun _ => blanks1 >>= fun _ =>
        Matcher.optional (keyword "type") >>= next := by
    unfold exportWord
    simp only [keyword, bind_assoc]
  rw [hparts] at hfound
  obtain ⟨word, hword, hfound⟩ := mem_bind_iff.mp hfound
  obtain ⟨start, hstart, hfound⟩ := mem_bind_iff.mp hfound
  obtain ⟨mark, hmark, hfound⟩ := mem_bind_iff.mp hfound
  refine ⟨word, start, mark, hword, hstart, hmark, ?_⟩
  by_contra hsign
  have hstops : Stops (fun ch => ch == sign) mark.2.ahead := by
    intro ch hch
    apply beq_eq_false_iff_ne.mpr
    rintro rfl
    exact hsign hch
  rw [hrefuses mark.1 _ hstops mark.2.behind] at hfound
  cases hfound

theorem bracedForm_or_starForm {c : Cursor} (hbraced : bracedForm c ≠ [])
    (hstar : starForm c ≠ []) : False := by
  obtain ⟨listed, hlisted⟩ := List.exists_mem_of_ne_nil _ hbraced
  obtain ⟨star, hstar⟩ := List.exists_mem_of_ne_nil _ hstar
  obtain ⟨word, start, mark, hword, hstart, hmark, hbrace⟩ :=
    opensWith_bracedForm.exists_sign hlisted
  obtain ⟨word', start', mark', hword', hstart', hmark', hsign⟩ :=
    opensWith_starForm.exists_sign hstar
  obtain rfl := exportWord_unique hword hword'
  have hsame : start = start' := by
    rw [(mem_blanks1_iff.mp hstart).2, (mem_blanks1_iff.mp hstart').2]
  subst hsame
  have hstarts : forall (spelled : String) {sign : Char} {d : Cursor}, spelled.toList = [sign] ->
      spelled ∈ ["\x7b", "*"] -> d.ahead.head? = some sign -> Starts ["\x7b", "*"] d := by
    intro spelled sign d hspelled hmem hhead
    obtain ⟨rest, hrest⟩ := List.head?_eq_some_iff.mp hhead
    exact ⟨spelled, hmem, rest, by rw [hspelled, hrest]; rfl⟩
  have hmarks := optional_keyword_unique (by decide) hmark hmark'
    (hstarts "\x7b" rfl (by decide) hbrace) (hstarts "*" rfl (by decide) hsign)
  rw [hmarks, hsign] at hbrace
  cases hbrace

/-- What a form that begins a line finds stands at the start of a line of the text. -/
structure FoundAt (form : Matcher α) (code : List Char) (place : Cursor) : Prop where
  text : place.behind.reverse ++ place.ahead = code
  start : place.atLineStart = true
  read : form place ≠ []

theorem foundAt_of_mem (hform : BeginsLine form) {found : Found α} (h : found ∈ findAll form code) :
    FoundAt form code found.place := by
  obtain ⟨stop, hread⟩ := exists_mem_of_mem_findFrom h
  have hne : form found.place ≠ [] := List.ne_nil_of_mem hread
  exact ⟨text_of_mem_findFrom h, hform _ hne, hne⟩

theorem pairwise_line_findAll (hform : BeginsLine form) (code : List Char) :
    (findAll form code).Pairwise fun a b => a.place.line < b.place.line := by
  apply (pairwise_offset_findFrom form [] code 0).imp_of_mem
  intro found found' hfound hfound' hlt
  have hplace := foundAt_of_mem hform hfound
  have hplace' := foundAt_of_mem hform hfound'
  exact line_lt_line hplace.text hplace'.text hlt hplace'.start

theorem beginsLine_bracedForm : BeginsLine bracedForm :=
  beginsLine_indentation_bind _

theorem beginsLine_starForm : BeginsLine starForm :=
  beginsLine_indentation_bind _

theorem opensWord_export {next : Unit -> Matcher α} {c : Cursor}
    (h : (indentation >>= fun _ => keyword "export" >>= next) c ≠ []) :
    OpensWord ["export"] c.ahead := by
  obtain ⟨found, hfound⟩ := List.exists_mem_of_ne_nil _ h
  obtain ⟨indent, start, hindent, hread, hrest⟩ := exists_indent hfound
  obtain ⟨first, hfirst, _⟩ := mem_bind_iff.mp hrest
  exact ⟨indent, start.ahead, hindent, hread.1, "export", List.mem_cons_self ..,
    prefix_of_mem_keyword hfirst⟩

theorem exists_foundAt {record : Reexport} (h : record ∈ reexportsOfCode code) :
    exists place, record.line = place.line ∧
      (FoundAt bracedForm code place ∨ FoundAt starForm code place) := by
  rw [reexportsOfCode_eq, mem_sortBy_iff, List.mem_append] at h
  cases h with
  | inl hlisted =>
      obtain ⟨found, hfound, hmade⟩ := List.mem_filterMap.mp hlisted
      obtain ⟨source, _, rfl⟩ := Option.map_eq_some_iff.mp hmade
      exact ⟨found.place, rfl, Or.inl (foundAt_of_mem beginsLine_bracedForm hfound)⟩
  | inr hstar =>
      obtain ⟨found, hfound, rfl⟩ := List.mem_map.mp hstar
      exact ⟨found.place, rfl, Or.inr (foundAt_of_mem beginsLine_starForm hfound)⟩

theorem pointsAt_reexports {record : Reexport}
    (h : record ∈ reexportsOfCode (withoutComments text)) :
    PointsAt ["export"] text record.line := by
  obtain ⟨place, hline, hplace⟩ := exists_foundAt h
  rw [hline]
  cases hplace with
  | inl hlisted =>
      exact pointsAt_of_place hlisted.text hlisted.start (by decide) (opensWord_export hlisted.read)
  | inr hstar =>
      exact pointsAt_of_place hstar.text hstar.start (by decide) (opensWord_export hstar.read)

theorem pairwise_line_listed (code : List Char) :
    ((findAll bracedForm code).filterMap listedReexport).Pairwise fun a b => a.line < b.line := by
  apply (pairwise_line_findAll beginsLine_bracedForm code).filterMap
  intro found found' hlt record hrecord record' hrecord'
  obtain ⟨source, _, rfl⟩ := Option.map_eq_some_iff.mp hrecord
  obtain ⟨source', _, rfl⟩ := Option.map_eq_some_iff.mp hrecord'
  exact hlt

theorem pairwise_line_stars (code : List Char) :
    ((findAll starForm code).map starReexport).Pairwise fun a b => a.line < b.line :=
  List.pairwise_map.mpr (pairwise_line_findAll beginsLine_starForm code)

theorem pairwise_line_reexportsOfCode (code : List Char) :
    (reexportsOfCode code).Pairwise fun a b => a.line < b.line := by
  rw [reexportsOfCode_eq]
  apply sortBy_strict (fun record : Reexport => record.line)
  apply List.pairwise_map.mpr
  apply List.pairwise_append.mpr
  refine ⟨(pairwise_line_listed code).imp Nat.ne_of_lt,
    (pairwise_line_stars code).imp Nat.ne_of_lt, ?_⟩
  intro listed hlisted star hstar hsame
  obtain ⟨found, hfound, hmade⟩ := List.mem_filterMap.mp hlisted
  obtain ⟨source, _, rfl⟩ := Option.map_eq_some_iff.mp hmade
  obtain ⟨found', hfound', rfl⟩ := List.mem_map.mp hstar
  have hplace := foundAt_of_mem beginsLine_bracedForm hfound
  have hplace' := foundAt_of_mem beginsLine_starForm hfound'
  have heq := eq_of_line_eq hplace.text hplace'.text hplace.start hplace'.start hsame
  have hstarRead := hplace'.read
  rw [<- heq] at hstarRead
  exact bracedForm_or_starForm hplace.read hstarRead

/-!
# The lines of what a scan records
-/

/--
The line numbers of what a scan records go up, and they point at the statements in the text as it
was written: taking out the comments keeps all lines and leaves an end of each.
-/
theorem scan_points_at_statements (path content : String) :
    ((scan path content).imports.Pairwise fun a b => a.line < b.line) ∧
      (forall record, record ∈ (scan path content).imports ->
        PointsAt importWords content.toList record.line) ∧
      ((scan path content).reexports.Pairwise fun a b => a.line < b.line) ∧
      (forall record, record ∈ (scan path content).reexports ->
        PointsAt ["export"] content.toList record.line) ∧
      (stripComments content).toList.count '\n' = content.toList.count '\n' ∧
      List.Forall₂ (· <:+ ·) (List.splitOn '\n' (stripComments content).toList)
        (List.splitOn '\n' content.toList) := by
  refine ⟨pairwise_line_imports path content, fun record => pointsAt_imports,
    pairwise_line_reexportsOfCode _, fun record => pointsAt_reexports, ?_, ?_⟩
  · rw [stripComments, String.toList_ofList, count_withoutComments]
  · rw [stripComments, String.toList_ofList]
    exact suffix_lines_withoutComments content.toList

end SourceModule
end Joinery
