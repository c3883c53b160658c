import Joinery.Proofs.SourceModule.CommentLines
import Joinery.Proofs.SourceModule.Written

/-!
# Lists with comments

## Comments between the items

In a list a comment can stand before an item, among the blanks there.  If it opens its line,
it is taken out of the text; the list goes on as if only its line end had stood there.  Behind
other text of its line it stays, and is then read as a part of the list: up to its first comma
it gives no name, and what stands behind this comma is read as if it stood in the list.
-/

namespace Joinery
namespace SourceModule

open Text Matcher

variable {β : Type}

/-!
# The grammar
-/

/-- A comment in a list.  It holds no line end and does not end the list. -/
inductive Remark where
  | toLineEnd (body : List Char) (oneLine : '\n' ∉ body) (inside : '}' ∉ body)
  | block (body : List Char) (oneLine : '\n' ∉ body) (inside : '}' ∉ body)
      (first : contains ['*', '/'] (body ++ ['*']) = false)

namespace Remark

/-- What stands behind the first slash; a comment to the end of its line takes the line end. -/
def tail : Remark -> List Char
  | toLineEnd body _ _ => '/' :: (body ++ ['\n'])
  | block body _ _ _ => '*' :: (body ++ ['*', '/'])

def text (r : Remark) : List Char :=
  '/' :: r.tail

def lineEnd : Remark -> List Char
  | toLineEnd _ _ _ => ['\n']
  | block _ _ _ _ => []

end Remark

/-- An item with the blanks around it and the comment before it; both may be missing. -/
structure Entry where
  front : List Char
  remark : Option Remark
  behind : List Char
  item : Option Specifier
  after : List Char
  front_blank : front.all isBlank = true
  behind_blank : behind.all isBlank = true
  after_blank : after.all isBlank = true

namespace Entry

def remarkText (e : Entry) : List Char :=
  (e.remark.map Remark.text).getD []

def itemText (e : Entry) : List Char :=
  (e.item.map Specifier.text).getD []

/-- What stands behind the comment: the item and the blanks around it. -/
def tail (e : Entry) : List Char :=
  e.behind ++ (e.itemText ++ e.after)

def text (e : Entry) : List Char :=
  e.front ++ (e.remarkText ++ e.tail)

/-- Does a comment stand here behind other text of its line, and be it only a comma? -/
def midLine (e : Entry) : Bool :=
  e.remark.isSome && !freshAfter false e.front

end Entry

def listText (entries : List Entry) : List Char :=
  [','].intercalate (entries.map Entry.text)

def afterComma (text : List Char) : List Char :=
  (text.dropWhile fun c => c != ',').tail

def Entry.reads (names : List Char -> List β) (one : Specifier -> β) (e : Entry) : List β :=
  if e.midLine then names (afterComma e.text) else e.item.toList.map one

def printed (entries : List Entry) : List Specifier :=
  entries.filterMap fun e => e.item

/-!
# Taking comments out
-/

@[simp] theorem freshAfter_append (fresh : Bool) (text more : List Char) :
    freshAfter fresh (text ++ more) = freshAfter (freshAfter fresh text) more := by
  induction text generalizing fresh with
  | nil =>
      rfl
  | cons c text ih =>
      exact ih _

theorem exists_of_freshAfter {front : List Char} (h : freshAfter false front = true) :
    exists lines indent, front = lines ++ '\n' :: indent ∧ indent.all isIndent = true := by
  induction front using List.reverseRecOn with
  | nil =>
      cases h
  | append_singleton front c ih =>
      rw [freshAfter_append] at h
      by_cases hc : c = '\n'
      · subst hc
        exact ⟨front, [], rfl, rfl⟩
      · have hline : (c == '\n') = false := beq_eq_false_iff_ne.mpr hc
        rw [freshAfter, freshAfter, hline, Bool.false_or, Bool.and_eq_true] at h
        obtain ⟨lines, indent, rfl, hindent⟩ := ih h.1
        refine ⟨lines, indent ++ [c], ?_, ?_⟩
        · rw [List.append_assoc, List.cons_append]
        · rw [List.all_append, hindent, List.all_cons, h.2]
          rfl

theorem freshAfter_concat (fresh : Bool) (text : List Char) {ch : Char} (hline : ch ≠ '\n')
    (hindent : isIndent ch = false) : freshAfter fresh (text ++ [ch]) = false := by
  have hend : (ch == '\n') = false := beq_eq_false_iff_ne.mpr hline
  rw [freshAfter_append, freshAfter, freshAfter, hend, hindent, Bool.and_false]
  rfl

/-- The first text becomes the second where comments are taken out, in the middle of a line. -/
def Strips (text stripped : List Char) : Prop :=
  forall before, uncommented true before = true -> freshAfter true before = false ->
    withoutComments (before ++ text) = before ++ stripped

variable {text more stripped : List Char} {ch : Char}

theorem Strips.of_uncommented (h : uncommented false text = true) : Strips text text := by
  intro before hbefore hfresh
  refine withoutComments_of_uncommented ?_
  rw [uncommented_append, hbefore, hfresh, h]
  rfl

theorem Strips.append (h : uncommented false text = true) (hfresh : freshAfter false text = false)
    (hmore : Strips more stripped) : Strips (text ++ more) (text ++ stripped) := by
  intro before hbefore hline
  have hstrips := hmore (before ++ text)
  rw [uncommented_append, freshAfter_append, hbefore, hline, List.append_assoc,
    List.append_assoc] at hstrips
  exact hstrips h hfresh

/-- A comma or the brace that ends a list. -/
def EndsEntry (ch : Char) : Prop :=
  ch = ',' ∨ ch = '}'

theorem EndsEntry.plain (h : EndsEntry ch) :
    ch ≠ '/' ∧ ch ≠ '\n' ∧ isIndent ch = false ∧ isBlank ch = false := by
  rcases h with rfl | rfl <;> decide

theorem Entry.not_mem_item (h : forall s : Specifier, ch ∉ s.text) (e : Entry) :
    ch ∉ e.itemText := by
  unfold itemText
  cases e.item with
  | none =>
      exact List.not_mem_nil
  | some s =>
      exact h s

theorem Entry.not_mem_tail (hblank : isBlank ch = false) (h : forall s : Specifier, ch ∉ s.text)
    (e : Entry) : ch ∉ e.tail :=
  List.not_mem_append (not_mem_blanks hblank e.behind_blank)
    (List.not_mem_append (e.not_mem_item h) (not_mem_blanks hblank e.after_blank))

theorem Entry.slash_not_mem_tail (e : Entry) : '/' ∉ e.tail :=
  e.not_mem_tail (by decide) fun s => s.not_mem (by decide)

theorem Entry.slash_not_mem_rest (e : Entry) (h : EndsEntry ch) : '/' ∉ e.tail ++ [ch] :=
  List.not_mem_append e.slash_not_mem_tail (by simpa using h.plain.1.symm)

theorem Remark.exists_line (r : Remark) :
    exists line, r.text = line ++ r.lineEnd ∧ '\n' ∉ line := by
  cases r with
  | toLineEnd body oneLine inside =>
      exact ⟨'/' :: '/' :: body, rfl, by simp [oneLine]⟩
  | block body oneLine inside first =>
      exact ⟨'/' :: '*' :: (body ++ ['*', '/']), (List.append_nil _).symm, by simp [oneLine]⟩

theorem Remark.lineEnd_blank (r : Remark) : r.lineEnd.all isBlank = true := by
  cases r <;> rfl

theorem Remark.uncommented_text (r : Remark) : uncommented false r.text = true := by
  obtain ⟨line, htext, hline⟩ := r.exists_line
  rw [htext, uncommented_append, uncommented_line hline,
    uncommented_of_no_slash (not_mem_blanks (by decide) r.lineEnd_blank)]
  rfl

theorem opensBlock_of_no_slash (hslash : '/' ∉ text) (h : EndsEntry ch) (more : List Char) :
    opensBlock (text ++ ch :: more) = false := by
  obtain ⟨hch, _, hindent, _⟩ := h.plain
  unfold opensBlock
  induction text with
  | nil =>
      rw [List.nil_append, List.dropWhile_cons, hindent]
      simp [List.isPrefixOf, hch.symm]
  | cons first text ih =>
      rw [List.cons_append, List.dropWhile_cons]
      cases hfirst : isIndent first with
      | true =>
          exact ih fun hmem => hslash (List.mem_cons_of_mem first hmem)
      | false =>
          have hne : '/' ≠ first := fun heq => hslash (by rw [heq]; exact List.mem_cons_self ..)
          simp [List.isPrefixOf, hne]

theorem Remark.withoutComments_append (r : Remark) {indent : List Char}
    (hindent : indent.all isIndent = true) (hopens : opensBlock more = false) :
    withoutComments (indent ++ (r.text ++ more)) = r.lineEnd ++ withoutComments more := by
  cases r with
  | toLineEnd body oneLine inside =>
      have hcomment := withoutComments_toLineEnd hindent oneLine more
      simpa [Remark.text, Remark.tail, Remark.lineEnd] using hcomment
  | block body oneLine inside first =>
      have hcomment := withoutComments_block hindent first hopens
      rw [List.count_eq_zero_of_not_mem oneLine] at hcomment
      simpa [Remark.text, Remark.tail, Remark.lineEnd] using hcomment

namespace Entry

def bare (e : Entry) : Entry :=
  match e.remark with
  | none => e
  | some remark =>
      if freshAfter false e.front then
        { front := dropEnd isIndent e.front
          remark := none
          behind := remark.lineEnd ++ e.behind
          item := e.item
          after := e.after
          front_blank := by
            refine List.all_eq_true.mpr fun ch hch => List.all_eq_true.mp e.front_blank ch ?_
            rw [dropEnd, List.mem_reverse] at hch
            exact List.mem_reverse.mp ((List.dropWhile_sublist isIndent).mem hch)
          behind_blank := by
            rw [List.all_append, remark.lineEnd_blank, e.behind_blank]
            rfl
          after_blank := e.after_blank }
      else e

theorem strips_same (e : Entry) (hch : EndsEntry ch)
    (hremark : uncommented (freshAfter false e.front) e.remarkText = true)
    (h : Strips more stripped) : Strips (e.text ++ ch :: more) (e.text ++ ch :: stripped) := by
  have hsplit : e.text ++ [ch] = e.front ++ (e.remarkText ++ (e.tail ++ [ch])) := by
    rw [text, List.append_assoc, List.append_assoc]
  rw [List.append_cons e.text ch more, List.append_cons e.text ch stripped]
  refine Strips.append ?_ (freshAfter_concat false _ hch.plain.2.1 hch.plain.2.2.1) h
  rw [hsplit, uncommented_append, uncommented_append, hremark,
    uncommented_of_no_slash (not_mem_blanks (by decide) e.front_blank),
    uncommented_of_no_slash (e.slash_not_mem_rest hch)]
  rfl

theorem strips_opening (e : Entry) (hch : EndsEntry ch) {lines indent : List Char} {r : Remark}
    (hfront : e.front = lines ++ '\n' :: indent) (hindent : indent.all isIndent = true)
    (hremark : e.remark = some r) (h : Strips more stripped) :
    Strips (e.text ++ ch :: more)
      ((lines ++ ['\n']) ++ (r.lineEnd ++ (e.tail ++ ch :: stripped))) := by
  intro before hbefore hline
  have hlines : '/' ∉ lines ++ ['\n'] := by
    have hslash : '/' ∉ e.front := not_mem_blanks (by decide) e.front_blank
    rw [hfront, List.append_cons] at hslash
    exact fun hmem => hslash (List.mem_append_left _ hmem)
  have huncommented : uncommented true (before ++ (lines ++ ['\n'])) = true := by
    rw [uncommented_append, hbefore, uncommented_of_no_slash hlines]
    rfl
  have hends : EndsLine (before ++ (lines ++ ['\n'])) := by
    rw [<- List.append_assoc]
    exact Or.inr List.getLast?_concat
  have hrest := h (e.tail ++ [ch]) (uncommented_of_no_slash (e.slash_not_mem_rest hch) true)
    (freshAfter_concat true _ hch.plain.2.1 hch.plain.2.2.1)
  rw [<- List.append_cons, <- List.append_cons] at hrest
  calc withoutComments (before ++ (e.text ++ ch :: more))
      = withoutComments ((before ++ (lines ++ ['\n'])) ++
          (indent ++ (r.text ++ (e.tail ++ ch :: more)))) := by
        rw [text, hfront, remarkText, hremark]
        simp
    _ = (before ++ (lines ++ ['\n'])) ++
          (r.lineEnd ++ withoutComments (e.tail ++ ch :: more)) := by
        rw [withoutComments_append_of_uncommented huncommented hends,
          r.withoutComments_append hindent (opensBlock_of_no_slash e.slash_not_mem_tail hch more)]
    _ = before ++ ((lines ++ ['\n']) ++ (r.lineEnd ++ (e.tail ++ ch :: stripped))) := by
        rw [hrest, List.append_assoc]

theorem strips (e : Entry) (hch : EndsEntry ch) (h : Strips more stripped) :
    Strips (e.text ++ ch :: more) (e.bare.text ++ ch :: stripped) := by
  cases hremark : e.remark with
  | none =>
      have hbare : e.bare = e := by
        rw [bare, hremark]
      rw [hbare]
      refine e.strips_same hch ?_ h
      rw [remarkText, hremark]
      rfl
  | some r =>
      cases hfresh : freshAfter false e.front with
      | false =>
          have hbare : e.bare = e := by
            simp only [bare, hremark, hfresh, Bool.false_eq_true, if_false]
          rw [hbare]
          refine e.strips_same hch ?_ h
          rw [hfresh, remarkText, hremark]
          exact r.uncommented_text
      | true =>
          obtain ⟨lines, indent, hfront, hindent⟩ := exists_of_freshAfter hfresh
          have hlines : dropEnd isIndent e.front = lines ++ ['\n'] := by
            have hstop : Stops isIndent ('\n' :: lines.reverse) := stops_cons (by decide) _
            rw [dropEnd, hfront, List.reverse_append, List.reverse_cons, List.append_assoc,
              List.singleton_append, dropWhile_stops (List.all_reverse.trans hindent) hstop,
              List.reverse_cons, List.reverse_reverse]
          have hbare : e.bare.text ++ ch :: stripped =
              (lines ++ ['\n']) ++ (r.lineEnd ++ (e.tail ++ ch :: stripped)) := by
            simp only [bare, hremark, hfresh, if_true, text, remarkText, itemText, tail, hlines]
            simp
          rw [hbare]
          exact e.strips_opening hch hfront hindent hremark h

end Entry

theorem listText_singleton (e : Entry) : listText [e] = e.text :=
  List.intercalate_singleton

theorem listText_cons_cons (e next : Entry) (entries : List Entry) :
    listText (e :: next :: entries) = e.text ++ ',' :: listText (next :: entries) :=
  rfl

/-- The comments of a list that open their lines are taken out, the others stay. -/
theorem strips_listText (entries : List Entry) (h : Strips more stripped) :
    Strips (listText entries ++ '}' :: more) (listText (entries.map Entry.bare) ++ '}' :: stripped)
    := by
  induction entries with
  | nil =>
      show Strips (['}'] ++ more) (['}'] ++ stripped)
      exact Strips.append rfl rfl h
  | cons e entries ih =>
      cases entries with
      | nil =>
          rw [List.map_singleton, listText_singleton, listText_singleton]
          exact e.strips (Or.inr rfl) h
      | cons next entries =>
          rw [List.map_cons, List.map_cons, listText_cons_cons, listText_cons_cons,
            List.append_assoc, List.append_assoc]
          exact e.strips (Or.inl rfl) ih

/-!
# Reading the items
-/

theorem clauseItems_append (front more : List Char) :
    clauseItems (front ++ ',' :: more) = clauseItems front ++ clauseItems more := by
  unfold clauseItems
  rw [List.splitOn_append_cons_self, List.map_append, List.filter_append]

theorem clauseItems_of_not_mem {piece : List Char} (h : ',' ∉ piece) :
    clauseItems piece = [trim piece].filter fun item => !item.isEmpty := by
  unfold clauseItems
  rw [List.splitOn_eq_singleton h]
  rfl

theorem exists_trim {front : List Char} (hfront : front.all isBlank = true)
    (hch : isBlank ch = false) (more : List Char) :
    exists left, trim (front ++ ch :: more) = ch :: left := by
  have hstart : dropStart isBlank (front ++ ch :: more) = ch :: more :=
    dropWhile_stops hfront (stops_cons hch more)
  rw [trim, hstart, trimEnd, dropEnd, List.reverse_cons, List.dropWhile_append]
  split
  · rw [List.dropWhile_cons, hch]
    exact ⟨[], rfl⟩
  · exact ⟨_, by rw [List.reverse_append]; rfl⟩

/-- Lists are read item by item; a piece that begins with a slash gives no name. -/
structure ReadsItems (names : List Char -> List β) (one : Specifier -> β) : Prop where
  append (front more : List Char) : names (front ++ ',' :: more) = names front ++ names more
  blanks {text : List Char} (h : text.all isBlank = true) : names text = []
  item (s : Specifier) {before after : List Char} (hbefore : before.all isBlank = true)
    (hafter : after.all isBlank = true) : names (before ++ (s.text ++ after)) = [one s]
  slash {front more : List Char} (hfront : front.all isBlank = true) (hmore : ',' ∉ more) :
    names (front ++ '/' :: more) = []

theorem readsItems {read : List Char -> Option β} {one : Specifier -> β}
    (hread : forall s, read s.text = some (one s))
    (hslash : forall more, read ('/' :: more) = none) :
    ReadsItems (fun clause => (clauseItems clause).filterMap read) one where
  append := by
    intro front more
    rw [clauseItems_append, List.filterMap_append]
  blanks := by
    intro text h
    rw [clauseItems_of_not_mem (comma_not_mem_blanks h), trim_blanks h]
    rfl
  item := by
    intro s before after hbefore hafter
    have hcomma : ',' ∉ before ++ (s.text ++ after) := by
      simp [comma_not_mem_blanks hbefore, s.isItem_text.comma, comma_not_mem_blanks hafter]
    have hitem : s.text.isEmpty = false := by
      obtain ⟨ch, tail, htext, _⟩ := s.isItem_text.first
      rw [htext]
      rfl
    rw [clauseItems_of_not_mem hcomma, trim_around hbefore s.isItem_text hafter]
    simp [hitem, hread]
  slash := by
    intro front more hfront hmore
    have hcomma : ',' ∉ front ++ '/' :: more := by
      simp [comma_not_mem_blanks hfront, hmore]
    obtain ⟨left, hleft⟩ := exists_trim hfront (by decide : isBlank '/' = false) more
    rw [clauseItems_of_not_mem hcomma, hleft]
    simp [hslash]

theorem first?_aliased_slash (more : List Char) :
    aliased.first? (withoutType ('/' :: more)).1 = none := by
  have hmark : Refuses (keyword "type") ('/' :: more) := Refuses.keyword rfl
  have hname : Refuses aliased ('/' :: more) :=
    Refuses.bind (Refuses.identifier (stops_cons (by decide) more))
  have hnone : aliased (Cursor.start ('/' :: more)) = [] := hname []
  rw [Specifier.withoutType_of_eq_nil (hmark []), Matcher.first?, hnone]
  rfl

theorem readsItems_exportedNames : ReadsItems exportedNames Specifier.localName := by
  refine readsItems Specifier.read_localName fun more => ?_
  rw [first?_aliased_slash]
  rfl

theorem readsItems_importedNames (typeOnly : Bool) :
    ReadsItems (importedNames typeOnly) (Specifier.binding typeOnly) := by
  refine readsItems (Specifier.read_binding typeOnly) fun more => ?_
  show (aliased.first? (withoutType ('/' :: more)).1).map _ = none
  rw [first?_aliased_slash]
  rfl

theorem afterComma_append {front : List Char} (h : ',' ∉ front) (more : List Char) :
    afterComma (front ++ ',' :: more) = more := by
  have hfront : front.all (fun c => c != ',') = true :=
    List.all_eq_true.mpr fun ch hch => bne_iff_ne.mpr fun heq => h (heq ▸ hch)
  have hstop : Stops (fun c => c != ',') (',' :: more) := stops_cons (by decide) more
  rw [afterComma, dropWhile_stops hfront hstop]
  rfl

theorem afterComma_of_not_mem (h : ',' ∉ text) : afterComma text = [] := by
  have hdrop : text.dropWhile (fun c => c != ',') = [] :=
    List.dropWhile_eq_nil_iff.mpr fun ch hch => bne_iff_ne.mpr fun heq => h (heq ▸ hch)
  rw [afterComma, hdrop]
  rfl

theorem Entry.exists_slash {e : Entry} (h : e.midLine = true) :
    exists r, e.remark = some r ∧ freshAfter false e.front = false ∧
      e.text = e.front ++ '/' :: (r.tail ++ e.tail) := by
  rw [midLine, Bool.and_eq_true] at h
  cases hremark : e.remark with
  | none =>
      rw [hremark] at h
      cases h.1
  | some r =>
      refine ⟨r, rfl, by simpa using h.2, ?_⟩
      rw [text, remarkText, hremark]
      rfl

namespace ReadsItems

variable {names : List Char -> List β} {one : Specifier -> β}

theorem text_of_none (h : ReadsItems names one) {e : Entry} (hremark : e.remark = none) :
    names e.text = e.item.toList.map one := by
  have hblank : (e.front ++ e.behind).all isBlank = true := by
    rw [List.all_append, e.front_blank, e.behind_blank]
    rfl
  have htext : e.text = (e.front ++ e.behind) ++ (e.itemText ++ e.after) := by
    rw [Entry.text, Entry.remarkText, hremark, Entry.tail, List.append_assoc]
    rfl
  rw [htext, Entry.itemText]
  cases e.item with
  | none =>
      refine h.blanks ?_
      rw [List.all_append, hblank]
      exact e.after_blank
  | some s =>
      exact h.item s hblank e.after_blank

theorem text_of_midLine (h : ReadsItems names one) {e : Entry} (hmid : e.midLine = true) :
    names e.text = names (afterComma e.text) := by
  obtain ⟨r, _, _, htext⟩ := Entry.exists_slash hmid
  have hfront := comma_not_mem_blanks e.front_blank
  rw [htext]
  generalize r.tail ++ e.tail = more
  by_cases hcomma : ',' ∈ more
  · obtain ⟨before, after, rfl, hbefore⟩ := List.eq_append_cons_of_mem hcomma
    have hslash : ',' ∉ e.front ++ '/' :: before := by
      simp [hfront, hbefore]
    rw [<- List.cons_append, <- List.append_assoc, h.append, h.slash e.front_blank hbefore,
      afterComma_append hslash, List.nil_append]
  · have hslash : ',' ∉ e.front ++ '/' :: more := by
      simp [hfront, hcomma]
    rw [h.slash e.front_blank hcomma, afterComma_of_not_mem hslash]
    exact (h.blanks rfl).symm

theorem text_bare (h : ReadsItems names one) (e : Entry) :
    names e.bare.text = e.reads names one := by
  unfold Entry.reads
  cases hmid : e.midLine with
  | true =>
      obtain ⟨r, hremark, hfresh, _⟩ := Entry.exists_slash hmid
      have hbare : e.bare = e := by
        simp only [Entry.bare, hremark, hfresh, Bool.false_eq_true, if_false]
      rw [hbare, if_pos rfl]
      exact h.text_of_midLine hmid
  | false =>
      rw [if_neg Bool.false_ne_true]
      have hbare : e.bare.remark = none ∧ e.bare.item = e.item := by
        cases hremark : e.remark with
        | none =>
            simp only [Entry.bare, hremark, and_self]
        | some r =>
            have hfresh : freshAfter false e.front = true := by
              simpa [Entry.midLine, hremark] using hmid
            simp only [Entry.bare, hremark, hfresh, if_true, and_self]
      rw [h.text_of_none hbare.1, hbare.2]

theorem listText (h : ReadsItems names one) (entries : List Entry) :
    names (SourceModule.listText entries) = entries.flatMap fun e => names e.text := by
  induction entries with
  | nil =>
      exact h.blanks rfl
  | cons e entries ih =>
      cases entries with
      | nil =>
          rw [listText_singleton]
          exact (List.append_nil _).symm
      | cons next entries =>
          rw [listText_cons_cons, h.append, ih]
          rfl

theorem listText_bare (h : ReadsItems names one) (entries : List Entry) :
    names (SourceModule.listText (entries.map Entry.bare)) =
      entries.flatMap (Entry.reads names one) := by
  rw [h.listText, List.flatMap_map]
  exact List.flatMap_congr fun e _ => h.text_bare e

end ReadsItems

variable {names : List Char -> List β} {one : Specifier -> β}

theorem ReadsItems.hides (h : ReadsItems names one) {e : Entry} (hmid : e.midLine = true)
    (hcomma : ',' ∉ e.remarkText) : e.reads names one = [] := by
  have htext : ',' ∉ e.text :=
    List.not_mem_append (comma_not_mem_blanks e.front_blank)
      (List.not_mem_append hcomma (e.not_mem_tail (by decide) fun s => s.isItem_text.comma))
  rw [Entry.reads, hmid, if_pos rfl, afterComma_of_not_mem htext]
  exact h.blanks rfl

theorem ReadsItems.flatMap_reads (h : ReadsItems names one) {entries : List Entry}
    (hcomma : forall e, e ∈ entries -> e.midLine = true -> ',' ∉ e.remarkText) :
    entries.flatMap (Entry.reads names one) =
      (printed (entries.filter fun e => !e.midLine)).map one := by
  induction entries with
  | nil =>
      rfl
  | cons e entries ih =>
      have hrest := ih fun other hother => hcomma other (List.mem_cons_of_mem e hother)
      rw [List.flatMap_cons, hrest]
      cases hmid : e.midLine with
      | true =>
          rw [h.hides hmid (hcomma e (List.mem_cons_self ..) hmid),
            List.filter_cons_of_neg (by rw [hmid]; decide)]
          rfl
      | false =>
          rw [List.filter_cons_of_pos (by rw [hmid]; rfl), Entry.reads, hmid,
            if_neg Bool.false_ne_true, printed, printed, List.filterMap_cons]
          cases e.item <;> rfl

end SourceModule
end Joinery
