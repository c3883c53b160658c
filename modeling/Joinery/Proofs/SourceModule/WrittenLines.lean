import Joinery.Proofs.SourceModule.Comments
import Joinery.Proofs.SourceModule.Written

/-!
# Statements on lines of their own

## Where a statement can be found

Every form of statement begins at the start of a line.  On the lines of another statement
there are few such places: its own start, and the starts of the lines that its list goes
over.  Inside of a list a form is refused that must read a brace, a quote or another sign of
this kind before it could leave the list.
-/

namespace Joinery
namespace SourceModule

open Text Matcher

variable {α β : Type} {indent text rest behind : List Char}

/-!
# The start of a line
-/

def BeginsLine (m : Matcher α) : Prop :=
  forall c, m c ≠ [] -> c.atLineStart = true

theorem beginsLine_indentation_bind (next : Unit -> Matcher α) :
    BeginsLine (indentation >>= next) := by
  intro c hne
  obtain ⟨found, hfound⟩ := List.exists_mem_of_ne_nil _ hne
  obtain ⟨first, hfirst, _⟩ := mem_bind_iff.mp hfound
  obtain ⟨start, hstart, _⟩ := mem_bind_iff.mp hfirst
  exact (mem_guard_iff.mp hstart).1

theorem indentation_eq (hindent : indent.all isIndent = true) (hstop : Stops isIndent rest)
    (hline : Cursor.atLineStart ⟨behind, indent ++ rest⟩ = true) :
    indentation ⟨behind, indent ++ rest⟩ = [((), ⟨indent.reverse ++ behind, rest⟩)] := by
  have hstart : Matcher.lineStart ⟨behind, indent ++ rest⟩ = [((), ⟨behind, indent ++ rest⟩)] := by
    rw [Matcher.lineStart, Matcher.guard, if_pos hline]
  unfold indentation
  rw [bind_of_eq hstart, bind_of_eq (TakesOnly.stretch hindent hstop behind)]
  rfl

theorem head?_indentation_bind {next : Unit -> Matcher α} {value : α}
    (hindent : indent.all isIndent = true) (hstop : Stops isIndent (text ++ rest))
    (h : Takes (next ()) text value rest)
    (hline : Cursor.atLineStart ⟨behind, indent ++ (text ++ rest)⟩ = true) :
    exists stop, ((indentation >>= next) ⟨behind, indent ++ (text ++ rest)⟩).head? =
        some (value, stop) ∧ stop.ahead = rest := by
  rw [bind_of_eq (indentation_eq hindent hstop hline)]
  exact ⟨_, h _, rfl⟩

theorem Refuses.indentation_bind {next : Unit -> Matcher α} (hindent : indent.all isIndent = true)
    (hstop : Stops isIndent text) (h : Refuses (next ()) text) :
    Refuses (indentation >>= next) (indent ++ text) := by
  intro behind
  by_cases hline : Cursor.atLineStart ⟨behind, indent ++ text⟩ = true
  · rw [bind_of_eq (indentation_eq hindent hstop hline)]
    exact h _
  · by_cases hnone : (indentation >>= next) ⟨behind, indent ++ text⟩ = []
    · exact hnone
    · exact absurd (beginsLine_indentation_bind next _ hnone) hline

theorem refuses_lineEnd {next : Unit -> Matcher α}
    (h : forall tail, Refuses (next ()) ('\n' :: tail)) (tail : List Char) :
    Refuses (indentation >>= next) ('\n' :: tail) :=
  Refuses.indentation_bind (rfl : [].all isIndent = true) (stops_cons (by decide) tail) (h tail)

/-!
# Inside of a statement
-/

variable {m : Matcher α}

theorem BeginsLine.eq_nil_of_not (hm : BeginsLine m) {c : Cursor} (h : c.atLineStart = false) :
    m c = [] := by
  by_cases hnone : m c = []
  · exact hnone
  · rw [hm c hnone] at h
    cases h

theorem atLineStart_reverse {before : List Char} (hne : before ≠ []) (behind ahead : List Char)
    (h : before.getLast? ≠ some '\n') :
    Cursor.atLineStart ⟨before.reverse ++ behind, ahead⟩ = false :=
  Bool.eq_false_iff.mpr fun hline => h (Cursor.getLast?_of_atLineStart hne hline)

theorem quietInside_of_line (hm : BeginsLine m) {block : List Char} (h : '\n' ∉ block) :
    QuietInside m block rest := by
  intro behind before after hblock hbefore _
  refine hm.eq_nil_of_not (atLineStart_reverse hbefore behind _ fun hlast => h ?_)
  rw [hblock]
  exact List.mem_append_left _ (List.mem_of_getLast? hlast)

theorem exists_of_append_cons {ch : Char} {front back first second : List Char}
    (h : front ++ ch :: back = first ++ second) (hfirst : ch ∉ first) :
    exists mid, front = first ++ mid ∧ second = mid ++ ch :: back := by
  rcases List.append_eq_append_iff.mp h with ⟨left, rfl, hright⟩ | ⟨mid, hfront, hsecond⟩
  · cases left with
    | nil =>
        exact ⟨[], by simp, by simpa using hright.symm⟩
    | cons other left =>
        cases hright
        exact absurd (by simp) hfirst
  · exact ⟨mid, hfront, hsecond⟩

theorem quietInside_of_clause (hm : BeginsLine m) {head inside tail : List Char}
    (hhead : '\n' ∉ head) (htail : '\n' ∉ tail)
    (h : forall before after, inside = before ++ '\n' :: after ->
      Refuses m (after ++ '}' :: (tail ++ rest))) :
    QuietInside m (head ++ (inside ++ '}' :: tail)) rest := by
  intro behind before after hblock hbefore _
  by_cases hlast : before.getLast? = some '\n'
  · obtain ⟨front, rfl⟩ := List.getLast?_eq_some_iff.mp hlast
    rw [List.append_assoc, List.singleton_append] at hblock
    obtain ⟨mid, rfl, hsecond⟩ := exists_of_append_cons hblock.symm hhead
    -- the line end stands in the list, for what follows the list has none
    rcases List.append_eq_append_iff.mp hsecond with ⟨left, rfl, hright⟩ | ⟨left, rfl, hright⟩
    · have hmem : '\n' ∈ '}' :: tail := by
        rw [hright]
        simp
      rcases List.mem_cons.mp hmem with hbrace | hmem
      · cases hbrace
      · exact absurd hmem htail
    · cases left with
      | nil =>
          cases hright
      | cons ch left =>
          rw [List.cons_append] at hright
          obtain ⟨rfl, rfl⟩ := List.cons.inj hright
          have hnone := h mid left rfl
          rw [<- List.cons_append, <- List.append_assoc] at hnone
          exact hnone _
  · exact hm.eq_nil_of_not (atLineStart_reverse hbefore behind _ hlast)

/-!
# Inside of a list
-/

def isInner (c : Char) : Bool :=
  isIdentifierChar c || isBlank c || c == ','

/-- The characters of a list: those of names, blanks, commas and colons. -/
def isClauseChar (c : Char) : Bool :=
  isInner c || c == ':'

/-- The signs one of which a form of statement must read. -/
def openers : List Char :=
  ['{', '*', '\'', '"', '=', '(', '.']

/-- Every answer reads one of these signs, and before it only names, blanks and commas. -/
def Opens (m : Matcher α) : Prop :=
  forall c found, found ∈ m c ->
    exists read opener more, c.Reads (read ++ opener :: more) found.2 ∧
      read.all isInner = true ∧ opener ∈ openers

theorem not_inner_of_mem_openers {opener : Char} (h : opener ∈ openers) :
    isInner opener = false := by
  have hall : openers.all (fun ch => !isInner ch) = true := by decide
  simpa using List.all_eq_true.mp hall opener h

theorem exists_dropWhile_clause {inside : List Char} (h : inside.all isClauseChar = true)
    (rest : List Char) :
    exists ch more, (inside ++ '}' :: rest).dropWhile isInner = ch :: more ∧
      (ch = ':' ∨ ch = '}') := by
  induction inside with
  | nil =>
      exact ⟨'}', rest, rfl, Or.inr rfl⟩
  | cons ch inside ih =>
      rw [List.all_cons, Bool.and_eq_true] at h
      rw [List.cons_append, List.dropWhile_cons]
      cases hch : isInner ch with
      | true =>
          exact ih h.2
      | false =>
          have hcolon := h.1
          rw [isClauseChar, hch, Bool.false_or, beq_iff_eq] at hcolon
          exact ⟨ch, _, rfl, Or.inl hcolon⟩

/-- Behind names, blanks and commas there is a sign that no form must read. -/
def Unopened (text : List Char) : Prop :=
  exists ch more, text.dropWhile isInner = ch :: more ∧ ch ∉ openers

theorem Unopened.append {inner : List Char} (h : Unopened text)
    (hinner : inner.all isInner = true) : Unopened (inner ++ text) := by
  obtain ⟨ch, more, hdrop, hch⟩ := h
  refine ⟨ch, more, ?_, hch⟩
  rw [List.dropWhile_append_of_pos (List.all_eq_true.mp hinner), hdrop]

theorem unopened_cons {ch : Char} (hinner : isInner ch = false) (hch : ch ∉ openers)
    (more : List Char) : Unopened (ch :: more) :=
  ⟨ch, more, List.dropWhile_cons_of_neg (by rw [hinner]; exact Bool.false_ne_true), hch⟩

theorem Opens.refuses_unopened (hm : Opens m) (h : Unopened text) : Refuses m text := by
  intro behind
  refine List.eq_nil_iff_forall_not_mem.mpr fun found hfound => ?_
  obtain ⟨read, opener, more, hreads, hread, hopener⟩ := hm _ _ hfound
  obtain ⟨ch, left, hdrop, hch⟩ := h
  have hahead : text = read ++ (opener :: (more ++ found.2.ahead)) := by
    simpa using hreads.1
  rw [hahead, dropWhile_stops hread (stops_cons (not_inner_of_mem_openers hopener) _)] at hdrop
  cases hdrop
  exact hch hopener

theorem Opens.refuses_clause (hm : Opens m) {inside : List Char}
    (h : inside.all isClauseChar = true) (rest : List Char) :
    Refuses m (inside ++ '}' :: rest) := by
  obtain ⟨ch, left, hdrop, hch⟩ := exists_dropWhile_clause h rest
  refine hm.refuses_unopened ⟨ch, left, hdrop, ?_⟩
  rcases hch with rfl | rfl <;> decide

theorem Opens.bind {n : Matcher β} {next : β -> Matcher α} (hn : Over isInner n)
    (h : forall b, Opens (next b)) : Opens (n >>= next) := by
  intro c found hfound
  obtain ⟨first, hfirst, hrest⟩ := mem_bind_iff.mp hfound
  obtain ⟨before, hbefore, hinner⟩ := hn c first hfirst
  obtain ⟨read, opener, more, hreads, hread, hopener⟩ := h first.1 first.2 found hrest
  refine ⟨before ++ read, opener, more, ?_, ?_, hopener⟩
  · rw [List.append_assoc]
    exact hbefore.trans hreads
  · rw [List.all_append, List.all_eq_true.mpr hinner, hread]
    rfl

theorem Opens.before {n : Matcher β} {next : β -> Matcher α} (hn : Opens n)
    (h : forall b, Forward (next b)) : Opens (n >>= next) := by
  intro c found hfound
  obtain ⟨first, hfirst, hrest⟩ := mem_bind_iff.mp hfound
  obtain ⟨read, opener, more, hreads, hread, hopener⟩ := hn c first hfirst
  obtain ⟨after, hafter, _⟩ := h first.1 first.2 found hrest
  refine ⟨read, opener, more ++ after, ?_, hread, hopener⟩
  have hall := hreads.trans hafter
  rwa [List.append_assoc, List.cons_append] at hall

theorem Opens.orElse {n : Matcher α} (hm : Opens m) (hn : Opens n) : Opens (orElse m n) := by
  intro c found hfound
  rcases List.mem_append.mp hfound with hfound | hfound
  · exact hm c found hfound
  · exact hn c found hfound

theorem Opens.orElse_bind {n o : Matcher β} {next : β -> Matcher α} (hn : Opens (n >>= next))
    (ho : Opens (o >>= next)) : Opens (Matcher.orElse n o >>= next) := by
  intro c found hfound
  obtain ⟨first, hfirst, hrest⟩ := mem_bind_iff.mp hfound
  rcases List.mem_append.mp hfirst with hfirst | hfirst
  · exact hn c found (mem_bind_iff.mpr ⟨first, hfirst, hrest⟩)
  · exact ho c found (mem_bind_iff.mpr ⟨first, hfirst, hrest⟩)

theorem Opens.optional_bind {n : Matcher β} {next : Option β -> Matcher α} (hn : Opens n)
    (hforward : forall b, Forward (next (some b))) (h : Opens (next none)) :
    Opens (optional n >>= next) := by
  intro c found hfound
  obtain ⟨first, hfirst, hrest⟩ := mem_bind_iff.mp hfound
  rcases mem_optional_iff.mp hfirst with ⟨value, hvalue, rfl⟩ | rfl
  · exact Opens.before hn hforward c found (mem_bind_iff.mpr ⟨value, hvalue, hrest⟩)
  · exact h c found hrest

theorem Opens.one {p : Char -> Bool} (h : forall ch, p ch = true -> ch ∈ openers) :
    Opens (one p) := by
  intro c found hfound
  obtain ⟨hp, hreads⟩ := mem_one_iff.mp hfound
  exact ⟨[], found.1, [], hreads, rfl, h _ hp⟩

theorem Opens.letters {opener : Char} (h : opener ∈ openers) : Opens (letters [opener]) := by
  intro c found hfound
  exact ⟨[], opener, [], mem_letters_iff.mp hfound, rfl, h⟩

theorem Opens.quoted : Opens quoted := by
  refine Opens.before (Opens.one ?_) fun opening => ?_
  · intro ch hch
    simp only [Bool.or_eq_true, beq_iff_eq] at hch
    rcases hch with rfl | rfl <;> decide
  · exact Over.bind (Over.stretch1 fun _ _ => rfl) fun _ =>
      Over.bind (Local.letters _).forward fun _ => Over.give _

theorem Opens.braced : Opens braced := by
  refine Opens.before (Opens.letters (by decide)) fun _ => ?_
  exact Over.bind (Local.stretch _).forward fun _ =>
    Over.bind (Local.letters _).forward fun _ => Over.give _

theorem inner_of_isBlank {ch : Char} (h : isBlank ch = true) : isInner ch = true := by
  rw [isInner, h, Bool.or_true]
  rfl

theorem inner_of_isIdentifierChar {ch : Char} (h : isIdentifierChar ch = true) :
    isInner ch = true := by
  rw [isInner, h]
  rfl

theorem inner_blanks : Over isInner blanks :=
  Over.bind (Over.stretch fun _ => inner_of_isBlank) fun _ => Over.give _

theorem inner_blanks1 : Over isInner blanks1 :=
  Over.bind (Over.stretch1 fun _ => inner_of_isBlank) fun _ => Over.give _

theorem inner_word {spelled : String} (h : spelled.toList.all isInner = true) :
    Over isInner (word spelled) :=
  Over.letters (List.all_eq_true.mp h)

theorem inner_keyword {spelled : String} (h : spelled.toList.all isInner = true) :
    Over isInner (keyword spelled) :=
  Over.bind (inner_word h) fun _ => inner_blanks1

theorem inner_indentation : Over isInner indentation := by
  refine Over.bind (Over.guard _) fun _ => Over.bind (Over.stretch ?_) fun _ => Over.give _
  intro ch hch
  simp only [isIndent, Bool.or_eq_true, beq_iff_eq] at hch
  rcases hch with rfl | rfl <;> decide

theorem inner_identifier : Over isInner identifier :=
  Over.bind (Over.one fun _ h =>
      inner_of_isIdentifierChar (isIdentifierChar_of_isIdentifierStart h)) fun _ =>
    Over.bind (Over.stretch fun _ => inner_of_isIdentifierChar) fun _ => Over.give _

theorem inner_anyIdentifier : Over isInner anyIdentifier :=
  Over.bind (Over.one fun _ h =>
      inner_of_isIdentifierChar (isIdentifierChar_of_isIdentifierStart h)) fun _ =>
    Over.bind (Over.beginnings fun _ => inner_of_isIdentifierChar) fun _ => Over.give _

theorem Opens.fromSource : Opens fromSource :=
  Opens.bind (inner_word (by decide)) fun _ => Opens.bind inner_blanks fun _ => Opens.quoted

/-!
# The characters of a list
-/

theorem all_intercalate {p : Char -> Bool} {sep : Char} (hsep : p sep = true)
    {pieces : List (List Char)} (h : forall piece, piece ∈ pieces -> piece.all p = true) :
    ([sep].intercalate pieces).all p = true := by
  simp only [List.all_eq_true] at h ⊢
  refine intercalate_of_pieces (p := fun text => forall ch, ch ∈ text -> p ch = true) ?_ ?_ ?_ h
  · simp
  · simpa using hsep
  · intro front text hfront htext ch hch
    exact (List.mem_append.mp hch).elim (hfront ch) (htext ch)

theorem all_of_blank {p : Char -> Bool} (hp : forall ch, isBlank ch = true -> p ch = true)
    {blanks : List Char} (h : blanks.all isBlank = true) : blanks.all p = true :=
  List.all_eq_true.mpr fun ch hch => hp ch (List.all_eq_true.mp h ch hch)

theorem clauseChar_of_isBlank {ch : Char} (h : isBlank ch = true) : isClauseChar ch = true := by
  rw [isClauseChar, inner_of_isBlank h]
  rfl

theorem Items.all_text {write : α -> List Char}
    (hwrite : forall item, (write item).all isClauseChar = true) (l : Items α) :
    (l.text write).all isClauseChar = true := by
  refine all_intercalate (by decide) fun piece hpiece => ?_
  rcases List.mem_append.mp hpiece with hpiece | hpiece
  · obtain ⟨p, _, rfl⟩ := List.mem_map.mp hpiece
    rw [Padded.text, List.all_append, List.all_append, hwrite,
      all_of_blank (fun _ => clauseChar_of_isBlank) p.before_blank,
      all_of_blank (fun _ => clauseChar_of_isBlank) p.after_blank]
    rfl
  · exact all_of_blank (fun _ => clauseChar_of_isBlank)
      (l.last_blank piece (Option.mem_toList.mp hpiece))

theorem all_clauseChar_of_inner (h : text.all isInner = true) : text.all isClauseChar = true := by
  refine List.all_eq_true.mpr fun ch hch => ?_
  rw [isClauseChar, List.all_eq_true.mp h ch hch]
  rfl

theorem Identifier.all_inner (i : Identifier) : i.chars.all isInner = true :=
  List.all_eq_true.mpr fun ch hch =>
    inner_of_isIdentifierChar (List.all_eq_true.mp i.all_chars ch hch)

theorem Identifier.all_clauseChar (i : Identifier) : i.chars.all isClauseChar = true :=
  all_clauseChar_of_inner i.all_inner

theorem Specifier.all_inner (s : Specifier) : s.text.all isInner = true := by
  have hmark : s.mark.all isInner = true := by
    unfold mark
    split <;> decide
  have hrenamed : s.renamedText.all isInner = true := by
    unfold renamedText
    split
    · rfl
    · next other _ =>
        rw [List.all_append, List.all_append, List.all_append, other.all_inner]
        decide
  rw [text, core, List.all_append, List.all_append, hmark, hrenamed, s.name.all_inner]
  rfl

theorem Specifier.all_text (s : Specifier) : s.text.all isClauseChar = true :=
  all_clauseChar_of_inner s.all_inner

theorem Specifier.not_mem {ch : Char} (h : isClauseChar ch = false) (s : Specifier) :
    ch ∉ s.text := by
  intro hmem
  rw [List.all_eq_true.mp s.all_text ch hmem] at h
  cases h

theorem Property.all_text (p : Property) : p.text.all isClauseChar = true := by
  have hvalue : p.valueText.all isClauseChar = true := by
    unfold valueText
    split
    · rfl
    · next other _ =>
        rw [List.all_cons, List.all_append, other.all_clauseChar]
        decide
  rw [text, List.all_append, hvalue, p.key.all_clauseChar]
  rfl

theorem brace_not_mem {inside : List Char} (h : inside.all isClauseChar = true) :
    '}' ∉ inside := by
  intro hmem
  exact absurd (List.all_eq_true.mp h _ hmem) (by decide)

theorem Opens.refuses_inside (hm : Opens m) {inside before after : List Char}
    (h : inside.all isClauseChar = true) (hsplit : inside = before ++ '\n' :: after)
    (rest : List Char) : Refuses m (after ++ '}' :: rest) := by
  rw [hsplit, List.all_append, List.all_cons, Bool.and_eq_true, Bool.and_eq_true] at h
  exact hm.refuses_clause h.2.2 rest

/-!
# The lines of a list
-/

/-- Behind an item, and the blanks behind it, the list goes on with a comma or ends. -/
def EndsItem (text : List Char) : Prop :=
  exists ch tail, text = ch :: tail ∧ (ch = ',' ∨ ch = '}')

theorem exists_piece {pieces : List (List Char)} {before after : List Char} {ch : Char}
    (hch : ch ≠ ',') (h : [','].intercalate pieces = before ++ ch :: after) (rest : List Char) :
    exists piece front back more, piece ∈ pieces ∧ piece = front ++ ch :: back ∧
      after ++ '}' :: rest = back ++ more ∧ EndsItem more := by
  induction pieces generalizing before with
  | nil =>
      cases before <;> cases h
  | cons piece pieces ih =>
      by_cases hnil : pieces = []
      · rw [hnil, List.intercalate_singleton] at h
        exact ⟨piece, before, after, '}' :: rest, List.mem_cons_self .., h, rfl,
          '}', rest, rfl, Or.inr rfl⟩
      · rw [intercalate_cons ',' piece hnil] at h
        rcases List.append_eq_append_iff.mp h with ⟨front, _, hjoined⟩ | ⟨back, hpiece, hafter⟩
        · cases front with
          | nil =>
              exact absurd (List.cons.inj hjoined).1.symm hch
          | cons comma front =>
              obtain ⟨other, front, back, more, hother, hread⟩ :=
                ih (List.cons.inj hjoined).2
              exact ⟨other, front, back, more, List.mem_cons_of_mem piece hother, hread⟩
        · cases back with
          | nil =>
              exact absurd (List.cons.inj hafter).1 hch
          | cons same back =>
              rw [List.cons_append] at hafter
              obtain ⟨rfl, rfl⟩ := List.cons.inj hafter
              refine ⟨piece, before, back, ',' :: ([','].intercalate pieces ++ '}' :: rest),
                List.mem_cons_self .., hpiece, ?_, ',', _, rfl, Or.inl rfl⟩
              rw [List.append_assoc, List.cons_append]

theorem Items.exists_line {write : α -> List Char} (hline : forall item, '\n' ∉ write item)
    (l : Items α) {before after : List Char} (h : l.text write = before ++ '\n' :: after)
    (rest : List Char) :
    exists blanks more, after ++ '}' :: rest = blanks ++ more ∧ blanks.all isBlank = true ∧
      (EndsItem more ∨ exists item behind ends, more = write item ++ (behind ++ ends) ∧
        behind.all isBlank = true ∧ EndsItem ends) := by
  obtain ⟨piece, front, back, more, hmem, hpiece, hmore, hends⟩ :=
    exists_piece (by decide : '\n' ≠ ',') h rest
  have hback : forall {blanks left : List Char}, blanks.all isBlank = true ->
      blanks = left ++ '\n' :: back -> back.all isBlank = true := by
    rintro blanks left hblanks rfl
    rw [List.all_append, List.all_cons, Bool.and_eq_true, Bool.and_eq_true] at hblanks
    exact hblanks.2.2
  rcases List.mem_append.mp hmem with hmem | hmem
  · obtain ⟨p, _, rfl⟩ := List.mem_map.mp hmem
    rcases List.append_eq_append_iff.mp hpiece with ⟨left, _, hrest⟩ | ⟨left, hbefore, hrest⟩
    · obtain ⟨mid, _, hafter⟩ := exists_of_append_cons hrest.symm (hline p.item)
      exact ⟨back, more, hmore, hback p.after_blank hafter, Or.inl hends⟩
    · cases left with
      | nil =>
          rw [List.nil_append, <- List.nil_append ('\n' :: back)] at hrest
          obtain ⟨mid, _, hafter⟩ := exists_of_append_cons hrest (hline p.item)
          exact ⟨back, more, hmore, hback p.after_blank hafter, Or.inl hends⟩
      | cons same left =>
          rw [List.cons_append] at hrest
          obtain ⟨rfl, rfl⟩ := List.cons.inj hrest
          have hblanks := p.before_blank
          rw [hbefore, List.all_append, List.all_cons, Bool.and_eq_true,
            Bool.and_eq_true] at hblanks
          refine ⟨left, write p.item ++ (p.after ++ more), ?_, hblanks.2.2,
            Or.inr ⟨p.item, p.after, more, rfl, p.after_blank, hends⟩⟩
          rw [hmore]
          simp
  · have hblanks := l.last_blank piece (Option.mem_toList.mp hmem)
    exact ⟨back, more, hmore, hback hblanks hpiece, Or.inl hends⟩

theorem isBlank_of_isIndent {ch : Char} (h : isIndent ch = true) : isBlank ch = true := by
  simp only [isIndent, Bool.or_eq_true, beq_iff_eq] at h
  rcases h with rfl | rfl <;> decide

theorem isIndent_of_not_blank {ch : Char} (h : isBlank ch = false) : isIndent ch = false := by
  cases hindent : isIndent ch with
  | false =>
      rfl
  | true =>
      rw [isBlank_of_isIndent hindent] at h
      cases h

theorem all_of_indent (h : indent.all isIndent = true) : indent.all isBlank = true :=
  List.all_eq_true.mpr fun ch hch => isBlank_of_isIndent (List.all_eq_true.mp h ch hch)

theorem Refuses.indentation_blanks {next : Unit -> Matcher β} {blanks more : List Char}
    (hblanks : blanks.all isBlank = true)
    (hblank : forall ch tail, isBlank ch = true -> Refuses (next ()) (ch :: tail))
    (hstop : Stops isIndent more) (h : Refuses (next ()) more) :
    Refuses (indentation >>= next) (blanks ++ more) := by
  have hindent : (blanks.takeWhile isIndent).all isIndent = true :=
    List.all_eq_true.mpr fun _ => List.mem_takeWhile_imp
  rw [<- @List.takeWhile_append_dropWhile _ isIndent blanks, List.append_assoc]
  cases hdrop : blanks.dropWhile isIndent with
  | nil =>
      exact Refuses.indentation_bind hindent hstop h
  | cons ch tail =>
      have hch : isBlank ch = true := by
        refine List.all_eq_true.mp hblanks ch ((List.dropWhile_sublist isIndent).mem ?_)
        rw [hdrop]
        exact List.mem_cons_self ..
      have hnoIndent : isIndent ch = false := by
        have hhead := List.head?_dropWhile_not isIndent blanks
        rw [hdrop] at hhead
        simpa using hhead
      exact Refuses.indentation_bind hindent (stops_cons hnoIndent _) (hblank ch _ hch)

theorem Items.refuses_inside {write : α -> List Char} {next : Unit -> Matcher β}
    (hwrite : forall item, IsItem (write item)) (hline : forall item, '\n' ∉ write item)
    (hblank : forall ch tail, isBlank ch = true -> Refuses (next ()) (ch :: tail))
    (hends : forall ends, EndsItem ends -> Refuses (next ()) ends)
    (hitem : forall item behind ends, behind.all isBlank = true -> EndsItem ends ->
      Refuses (next ()) (write item ++ (behind ++ ends)))
    (l : Items α) {before after : List Char} (h : l.text write = before ++ '\n' :: after)
    (rest : List Char) : Refuses (indentation >>= next) (after ++ '}' :: rest) := by
  obtain ⟨blanks, more, hsplit, hblanks, hmore⟩ := l.exists_line hline h rest
  rw [hsplit]
  rcases hmore with hmore | ⟨item, behind, ends, rfl, hbehind, hend⟩
  · refine Refuses.indentation_blanks hblanks hblank ?_ (hends more hmore)
    obtain ⟨ch, tail, rfl, hch⟩ := hmore
    refine stops_cons ?_ tail
    rcases hch with rfl | rfl <;> decide
  · refine Refuses.indentation_blanks hblanks hblank ?_ (hitem item behind ends hbehind hend)
    obtain ⟨ch, tail, hwritten, hch⟩ := (hwrite item).first
    rw [hwritten]
    exact stops_cons (isIndent_of_not_blank hch) _

/-!
# Texts of one statement
-/

theorem Identifier.not_mem {ch : Char} (h : isIdentifierChar ch = false) (i : Identifier) :
    ch ∉ i.chars := by
  intro hmem
  rw [List.all_eq_true.mp i.all_chars ch hmem] at h
  cases h

theorem Source.lineEnd_not_mem (s : Source) (q : Quote) : '\n' ∉ s.quoted q := by
  have hpath : '\n' ∉ s.path.toList := fun hmem =>
    absurd (List.all_eq_true.mp s.plain _ hmem) (by decide)
  cases q <;> simp [Source.quoted, Quote.char, hpath]

theorem Source.from_lineEnd (s : Source) (q : Quote) : '\n' ∉ s.from q := by
  simp [Source.from, s.lineEnd_not_mem q]

theorem indent_not_mem {ch : Char} (h : isIndent ch = false)
    (hindent : indent.all isIndent = true) : ch ∉ indent := by
  intro hmem
  rw [List.all_eq_true.mp hindent ch hmem] at h
  cases h

theorem semicolon_lineEnd (semicolon : Bool) : '\n' ∉ semicolonText semicolon := by
  cases semicolon <;> decide

theorem marked_not_mem {ch : Char} {spelled : String} (hspelled : ch ∉ spelled.toList)
    (hblank : ch ≠ ' ') (present : Bool) : ch ∉ marked present spelled := by
  cases present with
  | true =>
      exact List.not_mem_append hspelled (by simpa using hblank)
  | false =>
      exact List.not_mem_nil

/-- The text goes over several lines only in this part, which a brace ends. -/
def OneLineBut (inside text : List Char) : Prop :=
  exists head tail, text = head ++ (inside ++ '}' :: tail) ∧ '\n' ∉ head ∧ '\n' ∉ tail

theorem OneLineBut.braced (inside : List Char) :
    OneLineBut inside ('{' :: (inside ++ ['}'])) :=
  ⟨['{'], [], rfl, by decide, List.not_mem_nil⟩

theorem OneLineBut.append_left {inside front : List Char} (hfront : '\n' ∉ front)
    (h : OneLineBut inside text) : OneLineBut inside (front ++ text) := by
  obtain ⟨head, tail, rfl, hhead, htail⟩ := h
  exact ⟨front ++ head, tail, (List.append_assoc ..).symm, List.not_mem_append hfront hhead, htail⟩

theorem OneLineBut.append_right {inside back : List Char} (h : OneLineBut inside text)
    (hback : '\n' ∉ back) : OneLineBut inside (text ++ back) := by
  obtain ⟨head, tail, rfl, hhead, htail⟩ := h
  exact ⟨head, tail ++ back, by simp, hhead, List.not_mem_append htail hback⟩

theorem OneLineBut.quietInside {inside : List Char} (h : OneLineBut inside text)
    (hm : BeginsLine m) (hinside : forall before after more, inside = before ++ '\n' :: after ->
      Refuses m (after ++ '}' :: more)) : QuietInside m text rest := by
  obtain ⟨head, tail, rfl, hhead, htail⟩ := h
  exact quietInside_of_clause hm hhead htail fun before after hsplit =>
    hinside before after _ hsplit

def OneLineButList (text : List Char) : Prop :=
  '\n' ∉ text ∨ exists inside, inside.all isClauseChar = true ∧ OneLineBut inside text

theorem OneLineButList.braced {inside : List Char} (h : inside.all isClauseChar = true) :
    OneLineButList ('{' :: (inside ++ ['}'])) :=
  Or.inr ⟨inside, h, OneLineBut.braced inside⟩

theorem OneLineButList.append_left {front : List Char} (hfront : '\n' ∉ front)
    (h : OneLineButList text) : OneLineButList (front ++ text) := by
  rcases h with h | ⟨inside, hclause, h⟩
  · exact Or.inl (List.not_mem_append hfront h)
  · exact Or.inr ⟨inside, hclause, h.append_left hfront⟩

theorem OneLineButList.append_right {back : List Char} (h : OneLineButList text)
    (hback : '\n' ∉ back) : OneLineButList (text ++ back) := by
  rcases h with h | ⟨inside, hclause, h⟩
  · exact Or.inl (List.not_mem_append h hback)
  · exact Or.inr ⟨inside, hclause, h.append_right hback⟩

theorem OneLineButList.quietInside (h : OneLineButList text) (hm : BeginsLine m)
    (hopens : Opens m) : QuietInside m text rest := by
  rcases h with h | ⟨inside, hclause, h⟩
  · exact quietInside_of_line hm h
  · exact h.quietInside hm fun _ _ _ hsplit => hopens.refuses_inside hclause hsplit _

/-- No comment begins in the text, whatever stands before it. -/
def CommentFree (text : List Char) : Prop :=
  forall fresh, uncommented fresh text = true

theorem CommentFree.of_no_slash (h : '/' ∉ text) : CommentFree text :=
  fun fresh => uncommented_of_no_slash h fresh

theorem CommentFree.append {front : List Char} (hfront : '/' ∉ front) (h : CommentFree text) :
    CommentFree (front ++ text) := by
  intro fresh
  rw [uncommented_append, uncommented_of_no_slash hfront, h]
  rfl

theorem CommentFree.cons_line {ch : Char} (hslash : ch ≠ '/') (hline : ch ≠ '\n')
    (hindent : isIndent ch = false) (h : '\n' ∉ text) : CommentFree (ch :: text) := by
  intro fresh
  have hend : (ch == '\n') = false := beq_eq_false_iff_ne.mpr hline
  simp [uncommented, hslash, hend, hindent, uncommented_line h]

theorem CommentFree.quoted (s : Source) (q : Quote) {more : List Char} (hmore : '\n' ∉ more) :
    CommentFree (s.quoted q ++ more) := by
  have hpath : '\n' ∉ s.path.toList := fun hmem =>
    absurd (List.all_eq_true.mp s.plain _ hmem) (by decide)
  cases q
  · exact CommentFree.cons_line (by decide) (by decide) (by decide) (by
      simp [Quote.char, hpath, hmore])
  · exact CommentFree.cons_line (by decide) (by decide) (by decide) (by
      simp [Quote.char, hpath, hmore])

theorem withoutComments_written {σ : Type} {write : σ -> List Char}
    (h : forall s, CommentFree (write s)) (blocks : List (Option σ)) :
    withoutComments (written write blocks) = written write blocks := by
  refine withoutComments_of_uncommented (uncommented_intercalate fun text htext => ?_)
  obtain ⟨block, _, rfl⟩ := List.mem_map.mp htext
  cases block with
  | none =>
      rfl
  | some s =>
      exact h s true

def TakesIndented (form : Matcher α) (text : List Char) (value : α) (rest : List Char) : Prop :=
  exists next, form = indentation >>= next ∧ Takes (next ()) text value rest

def RefusesIndented (form : Matcher α) (text : List Char) : Prop :=
  exists next, form = indentation >>= next ∧ Refuses (next ()) text

theorem FoundIn.of_takes {allowed : Option α -> Prop} {value : α} {ending : List Char}
    (hallowed : allowed (some value)) (hindent : indent.all isIndent = true)
    (hstop : Stops isIndent (text ++ (ending ++ rest))) (hne : text ≠ [])
    (h : TakesIndented m text value (ending ++ rest))
    (hquiet : QuietInside m (indent ++ (text ++ ending)) rest) :
    FoundIn m (indent ++ (text ++ ending)) allowed rest := by
  obtain ⟨next, rfl, htakes⟩ := h
  have hsplit : indent ++ (text ++ ending) ++ rest = indent ++ (text ++ (ending ++ rest)) := by
    simp
  refine FoundIn.first (by simp [hne]) ?_ hquiet
  rw [hsplit]
  intro behind hline
  obtain ⟨stop, hfirst, hstop⟩ := head?_indentation_bind hindent hstop htakes hline
  refine ⟨_, hfirst, hallowed, ?_⟩
  rintro found ⟨⟩
  simp [hstop]

theorem FoundIn.of_refuses {allowed : Option α -> Prop} (hallowed : allowed none)
    (hindent : indent.all isIndent = true) (hstop : Stops isIndent (text ++ rest))
    (h : RefusesIndented m (text ++ rest)) (hquiet : QuietInside m (indent ++ text) rest) :
    FoundIn m (indent ++ text) allowed rest := by
  obtain ⟨next, rfl, hnext⟩ := h
  have hrefuses := Refuses.indentation_bind hindent hstop hnext
  rw [<- List.append_assoc] at hrefuses
  exact FoundIn.nothing hallowed (fun behind _ => hrefuses behind) hquiet

end SourceModule
end Joinery
