import Joinery.Proofs.SourceModule.Remarks
import Joinery.Proofs.SourceModule.WrittenExports
import Joinery.Proofs.SourceModule.WrittenImports
import Joinery.Proofs.Validation.Report

/-!
# Statements whose lists hold comments

## What is found and what is read

A file exports or imports a list that may hold comments.  No form of statement begins on a line
of the list, so that the statement is found as a whole and its list is read.  Where all comments
open their lines, the names are those of the items, and no name is reported missing that the
other file lists.
-/

namespace Joinery
namespace SourceModule

open Text Matcher

variable {α : Type} {m : Matcher α} {text rest more : List Char}

/-!
# The lines of a list
-/

/-- A list goes on with its next item, with the end of one or with a comment. -/
inductive GoesOn : List Char -> Prop
  | ends {ends : List Char} (h : EndsItem ends) : GoesOn ends
  | item (s : Specifier) {behind ends : List Char} (hbehind : behind.all isBlank = true)
      (hends : EndsItem ends) : GoesOn (s.text ++ (behind ++ ends))
  | remark (more : List Char) : GoesOn ('/' :: more)

/-- The rest of a list: it goes on behind blanks, and there is nothing to be opened in it. -/
structure InList (text : List Char) : Prop where
  unopened : Unopened text
  goesOn : exists blanks more, text = blanks ++ more ∧ blanks.all isBlank = true ∧ GoesOn more

theorem all_inner_of_blanks {blanks : List Char} (h : blanks.all isBlank = true) :
    blanks.all isInner = true :=
  all_of_blank (fun _ => inner_of_isBlank) h

theorem InList.of_goesOn (hunopened : Unopened text) (h : GoesOn text) : InList text :=
  ⟨hunopened, [], text, rfl, rfl, h⟩

theorem InList.blanks {blanks : List Char} (h : InList text) (hblanks : blanks.all isBlank = true) :
    InList (blanks ++ text) := by
  obtain ⟨hunopened, others, more, rfl, hothers, hgoesOn⟩ := h
  refine ⟨hunopened.append (all_inner_of_blanks hblanks), blanks ++ others, more, ?_, ?_, hgoesOn⟩
  · rw [List.append_assoc]
  · rw [List.all_append, hblanks, hothers]
    rfl

/-- Wherever a line begins in the text, what stands from there on is as described. -/
def LineStarts (p : List Char -> Prop) (text rest : List Char) : Prop :=
  forall before after, text = before ++ '\n' :: after -> p (after ++ rest)

namespace LineStarts

variable {p : List Char -> Prop} {front : List Char}

theorem of_line (h : '\n' ∉ text) : LineStarts p text rest := by
  rintro before after rfl
  exact absurd (by simp) h

theorem append (hfront : LineStarts p front (text ++ rest)) (h : LineStarts p text rest) :
    LineStarts p (front ++ text) rest := by
  intro before after hsplit
  rcases List.append_eq_append_iff.mp hsplit with ⟨left, _, htext⟩ | ⟨left, rfl, hright⟩
  · exact h left after htext
  · cases left with
    | nil =>
        exact h [] after hright.symm
    | cons ch left =>
        rw [List.cons_append] at hright
        obtain ⟨rfl, rfl⟩ := List.cons.inj hright
        rw [List.append_assoc]
        exact hfront before left rfl

theorem blanks (htext : text.all isBlank = true)
    (h : forall blanks, blanks.all isBlank = true -> p (blanks ++ rest)) :
    LineStarts p text rest := by
  rintro before after rfl
  rw [List.all_append, List.all_cons, Bool.and_eq_true, Bool.and_eq_true] at htext
  exact h after htext.2.2

end LineStarts

/-- A comma or the brace ends an item, and behind it there is nothing to be opened. -/
structure Behind (rest : List Char) : Prop where
  ends : EndsItem rest
  unopened : Unopened rest

theorem Behind.brace (more : List Char) : Behind ('}' :: more) :=
  ⟨⟨'}', more, rfl, Or.inr rfl⟩, unopened_cons (by decide) (by decide) more⟩

theorem Behind.comma (h : InList more) : Behind (',' :: more) :=
  ⟨⟨',', more, rfl, Or.inl rfl⟩, h.unopened.append (by decide : [','].all isInner = true)⟩

namespace Entry

theorem inList_after (e : Entry) (h : Behind rest) : InList (e.after ++ rest) :=
  (InList.of_goesOn h.unopened (GoesOn.ends h.ends)).blanks e.after_blank

theorem inList_item (e : Entry) (h : Behind rest) : InList (e.itemText ++ (e.after ++ rest)) := by
  unfold itemText
  cases e.item with
  | none =>
      exact e.inList_after h
  | some s =>
      exact InList.of_goesOn ((e.inList_after h).unopened.append s.all_inner)
        (GoesOn.item s e.after_blank h.ends)

theorem inList_tail (e : Entry) (h : Behind rest) : InList (e.tail ++ rest) := by
  rw [tail, List.append_assoc, List.append_assoc]
  exact (e.inList_item h).blanks e.behind_blank

theorem inList_remark (e : Entry) (h : Behind rest) :
    InList (e.remarkText ++ (e.tail ++ rest)) := by
  unfold remarkText
  cases e.remark with
  | none =>
      exact e.inList_tail h
  | some r =>
      exact InList.of_goesOn (unopened_cons (by decide) (by decide) _) (GoesOn.remark _)

theorem inList_text (e : Entry) (h : Behind rest) : InList (e.text ++ rest) := by
  rw [text, List.append_assoc, List.append_assoc]
  exact (e.inList_remark h).blanks e.front_blank

theorem lineStarts_remark (e : Entry) (h : InList rest) : LineStarts InList e.remarkText rest := by
  unfold remarkText
  cases e.remark with
  | none =>
      exact LineStarts.of_line List.not_mem_nil
  | some r =>
      obtain ⟨line, htext, hline⟩ := r.exists_line
      show LineStarts InList r.text rest
      rw [htext]
      exact LineStarts.append (LineStarts.of_line hline)
        (LineStarts.blanks r.lineEnd_blank fun blanks hblanks => h.blanks hblanks)

theorem lineStarts_tail (e : Entry) (h : Behind rest) : LineStarts InList e.tail rest := by
  have hafter := InList.of_goesOn h.unopened (GoesOn.ends h.ends)
  have hitem : '\n' ∉ e.itemText := e.not_mem_item Specifier.lineEnd_not_mem
  refine LineStarts.append ?_ (LineStarts.append (LineStarts.of_line hitem) ?_)
  · refine LineStarts.blanks e.behind_blank fun blanks hblanks => ?_
    rw [List.append_assoc]
    exact (e.inList_item h).blanks hblanks
  · exact LineStarts.blanks e.after_blank fun blanks hblanks => hafter.blanks hblanks

theorem lineStarts_text (e : Entry) (h : Behind rest) : LineStarts InList e.text rest := by
  refine LineStarts.append ?_
    (LineStarts.append (e.lineStarts_remark (e.inList_tail h)) (e.lineStarts_tail h))
  refine LineStarts.blanks e.front_blank fun blanks hblanks => ?_
  rw [List.append_assoc]
  exact (e.inList_remark h).blanks hblanks

end Entry

theorem inList_listText (entries : List Entry) (more : List Char) :
    InList (listText entries ++ '}' :: more) ∧
      LineStarts InList (listText entries) ('}' :: more) := by
  have hbrace := Behind.brace more
  induction entries with
  | nil =>
      exact ⟨InList.of_goesOn hbrace.unopened (GoesOn.ends hbrace.ends),
        LineStarts.of_line List.not_mem_nil⟩
  | cons e entries ih =>
      cases entries with
      | nil =>
          rw [listText_singleton]
          exact ⟨e.inList_text hbrace, e.lineStarts_text hbrace⟩
      | cons next entries =>
          have hcomma := Behind.comma ih.1
          rw [listText_cons_cons]
          refine ⟨?_, LineStarts.append (e.lineStarts_text ?_) ?_⟩
          · rw [List.append_assoc]
            exact e.inList_text hcomma
          · exact hcomma
          · show LineStarts InList ([','] ++ _) _
            exact LineStarts.append (LineStarts.of_line (by decide)) ih.2

/-!
# Forms that find nothing on the lines of a list
-/

/-- The form begins at the start of a line, but neither at an empty one nor in a list. -/
structure PassesLists (m : Matcher α) : Prop where
  beginsLine : BeginsLine m
  stops : forall tail, Refuses m ('\n' :: tail)
  refuses : forall {text : List Char}, InList text -> Refuses m text

theorem PassesLists.of_opens (hline : BeginsLine m)
    (hstops : forall tail, Refuses m ('\n' :: tail)) (h : Opens m) : PassesLists m :=
  ⟨hline, hstops, fun hlist => h.refuses_unopened hlist.unopened⟩

theorem PassesLists.of_passesItems (hline : BeginsLine m)
    (hstops : forall tail, Refuses m ('\n' :: tail)) (h : PassesItems m) : PassesLists m := by
  refine ⟨hline, hstops, fun hlist => ?_⟩
  obtain ⟨next, rfl, hother, hitem⟩ := h.exists_next
  obtain ⟨_, blanks, more, rfl, hblanks, hmore⟩ := hlist
  have hblank : forall ch tail, isBlank ch = true -> Refuses (next ()) (ch :: tail) :=
    fun ch tail hch => hother _ (stops_blank_e hch tail)
  cases hmore with
  | ends hends =>
      exact Refuses.indentation_blanks hblanks hblank (hends.stops (by decide) (by decide))
        (hother _ (hends.stops (by decide) (by decide)))
  | item s hbehind hends =>
      obtain ⟨ch, tail, hfirst, hch⟩ := s.isItem_text.first
      refine Refuses.indentation_blanks hblanks hblank ?_ (hitem _ _ _ s.namedItem hbehind hends)
      rw [hfirst]
      exact stops_cons (isIndent_of_not_blank hch) _
  | remark more =>
      exact Refuses.indentation_blanks hblanks hblank (stops_cons (by decide) _)
        (hother _ (stops_cons (by decide) _))

theorem passesLists_declarationForm : PassesLists declarationForm :=
  PassesLists.of_passesItems (beginsLine_indentation_bind _) LineForm.declarationForm.stops
    passesItems_declarationForm

theorem passesLists_defaultForm : PassesLists defaultForm :=
  PassesLists.of_passesItems (beginsLine_indentation_bind _) LineForm.defaultForm.stops
    passesItems_defaultForm

theorem passesLists_bracedForm : PassesLists bracedForm :=
  PassesLists.of_opens (beginsLine_indentation_bind _) LineForm.bracedForm.stops Opens.bracedForm

theorem passesLists_starForm : PassesLists starForm :=
  PassesLists.of_opens (beginsLine_indentation_bind _) LineForm.starForm.stops Opens.starForm

theorem passesLists_assignedForm : PassesLists assignedForm :=
  PassesLists.of_opens (beginsLine_indentation_bind _) LineForm.assignedForm.stops
    Opens.assignedForm

theorem passesLists_assignedModuleForm : PassesLists assignedModuleForm :=
  PassesLists.of_opens (beginsLine_indentation_bind _) LineForm.assignedModuleForm.stops
    Opens.assignedModuleForm

theorem ImportKind.passesLists (kind : ImportKind) : PassesLists kind.form :=
  PassesLists.of_opens kind.beginsLine kind.lineForm.stops kind.opens

/-!
# A statement at the start of a text
-/

namespace PassesLists

variable {block : List Char} {lines : Nat}

theorem findFrom_lineEnds (hm : PassesLists m) (behind : List Char) (lines : Nat) :
    findFrom m behind 0 (List.replicate lines '\n') = [] := by
  induction lines generalizing behind with
  | zero =>
      rfl
  | succ lines ih =>
      rw [List.replicate_succ, findFrom_none (by rw [hm.stops]; rfl)]
      exact ih _

theorem findAll_of_foundIn (hm : PassesLists m) {answer : Option α}
    (h : FoundIn m block (fun other => other = answer) (List.replicate lines '\n')) :
    findAll m (block ++ List.replicate lines '\n') =
      answer.toList.map fun value =>
        ⟨⟨[], block ++ List.replicate lines '\n'⟩, value⟩ := by
  obtain ⟨other, rfl, hfind⟩ := h [] rfl
  rw [findAll, hfind, hm.findFrom_lineEnds, List.append_nil]

theorem findAll_of_refuses (hm : PassesLists m)
    (hstop : Stops isIndent (block ++ List.replicate lines '\n'))
    (hrefuses : RefusesIndented m (block ++ List.replicate lines '\n'))
    (hquiet : QuietInside m block (List.replicate lines '\n')) :
    findAll m (block ++ List.replicate lines '\n') = [] := by
  have hfound : FoundIn m ([] ++ block) (fun other => other = none) (List.replicate lines '\n') :=
    FoundIn.of_refuses rfl rfl hstop hrefuses hquiet
  exact hm.findAll_of_foundIn hfound

theorem findAll_of_takes {read ending : List Char} (hm : PassesLists m)
    (hstop : Stops isIndent (read ++ (ending ++ List.replicate lines '\n'))) (hread : read ≠ [])
    {value : α} (htakes : TakesIndented m read value (ending ++ List.replicate lines '\n'))
    (hquiet : QuietInside m (read ++ ending) (List.replicate lines '\n')) :
    findAll m ((read ++ ending) ++ List.replicate lines '\n') =
      [⟨⟨[], (read ++ ending) ++ List.replicate lines '\n'⟩, value⟩] := by
  have hfound : FoundIn m ([] ++ (read ++ ending)) (fun other => other = some value)
      (List.replicate lines '\n') :=
    FoundIn.of_takes rfl rfl hstop hread htakes hquiet
  exact hm.findAll_of_foundIn hfound

end PassesLists

/-!
# A statement with a list
-/

/-- A statement that begins its line and goes over several lines only in a list. -/
structure ListStatement (block : List Char) : Prop where
  first : exists ch tail, block = ch :: tail ∧ isIndent ch = false
  oneList : exists entries, OneLineBut (listText entries) block

namespace ListStatement

variable {block : List Char}

theorem stops (h : ListStatement block) (rest : List Char) : Stops isIndent (block ++ rest) := by
  obtain ⟨ch, tail, rfl, hch⟩ := h.first
  exact stops_cons hch _

theorem quietInside (h : ListStatement block) (hm : PassesLists m) : QuietInside m block rest := by
  obtain ⟨entries, hlist⟩ := h.oneList
  exact hlist.quietInside hm.beginsLine fun before after more hsplit =>
    hm.refuses ((inList_listText entries more).2 before after hsplit)

theorem findAll_eq_nil (h : ListStatement block) (hm : PassesLists m) {lines : Nat}
    (hrefuses : RefusesIndented m (block ++ List.replicate lines '\n')) :
    findAll m (block ++ List.replicate lines '\n') = [] :=
  hm.findAll_of_refuses (h.stops _) hrefuses (h.quietInside hm)

theorem findAll_eq_singleton {read ending : List Char} (h : ListStatement (read ++ ending))
    (hm : PassesLists m) (hread : read ≠ []) {value : α} {lines : Nat}
    (htakes : TakesIndented m read value (ending ++ List.replicate lines '\n')) :
    findAll m ((read ++ ending) ++ List.replicate lines '\n') =
      [⟨⟨[], (read ++ ending) ++ List.replicate lines '\n'⟩, value⟩] := by
  have hstop := h.stops (List.replicate lines '\n')
  rw [List.append_assoc] at hstop
  exact hm.findAll_of_takes hstop hread htakes (h.quietInside hm)

end ListStatement

/-!
# A text of one statement
-/

/-- All that is found in a text stands at its start: a list of names, or an import. -/
structure Finds (listed : Option (List String)) (taken : Option (Nat -> Import))
    (code : List Char) : Prop where
  declared : findAll declarationForm code = []
  default : findAll defaultForm code = []
  listed : findAll bracedForm code =
    listed.toList.map fun names => ⟨Cursor.start code, (names, none)⟩
  star : findAll starForm code = []
  assigned : findAll assignedForm code = []
  module : findAll assignedModuleForm code = []
  takes : findAll importForm code =
    taken.toList.map fun made => ⟨Cursor.start code, fun line => some (made line)⟩
  others (kind : ImportKind) (hkind : kind ≠ .takes) : findAll kind.form code = []

theorem Finds.scanCode_eq {listed : Option (List String)} {taken : Option (Nat -> Import)}
    {code : List Char} (h : Finds listed taken code) (path : String) :
    scanCode path code =
      { path := path
        imports := taken.toList.map fun made => made 1
        exports := { names := (listed.getD []).eraseDups } } := by
  have hexports : exportsOfCode code = { names := (listed.getD []).eraseDups } := by
    simp only [exportsOfCode, h.declared, h.default, h.listed, h.star, h.assigned, h.module]
    cases listed <;> simp
  have hreexports : reexportsOfCode code = [] := by
    rw [reexportsOfCode_eq, h.listed, h.star]
    cases listed <;> rfl
  have htakes : importsOfForm importForm code =
      taken.toList.map fun made => (0, made 1) := by
    rw [importsOfForm, h.takes]
    cases taken <;> rfl
  have hothers : forall kind : ImportKind, kind ≠ .takes -> importsOfForm kind.form code = [] := by
    intro kind hkind
    rw [importsOfForm, h.others kind hkind]
    rfl
  have hruns : importsOfForm runForm code = [] := hothers .runs (by decide)
  have hrequires : importsOfForm requireForm code = [] := hothers .requires (by decide)
  have hcalls : importsOfForm bareRequireForm code = [] := hothers .calls (by decide)
  have himports : importsOfCode code = taken.toList.map fun made => made 1 := by
    simp only [importsOfCode, List.flatMap_cons, List.flatMap_nil, htakes, hruns, hrequires, hcalls]
    cases taken <;> rfl
  rw [scanCode, hexports, hreexports, himports]

/-!
# A list that is exported
-/

theorem Entry.brace_not_mem (e : Entry) : '}' ∉ e.text := by
  have hremark : '}' ∉ e.remarkText := by
    unfold remarkText
    cases e.remark with
    | none =>
        exact List.not_mem_nil
    | some r =>
        cases r with
        | toLineEnd body oneLine inside =>
            simp [Remark.text, Remark.tail, inside]
        | block body oneLine inside first =>
            simp [Remark.text, Remark.tail, inside]
  exact List.not_mem_append (not_mem_blanks (by decide) e.front_blank)
    (List.not_mem_append hremark (e.not_mem_tail (by decide) fun s => s.not_mem (by decide)))

theorem brace_not_mem_listText (entries : List Entry) : '}' ∉ listText entries := by
  induction entries with
  | nil =>
      exact List.not_mem_nil
  | cons e entries ih =>
      cases entries with
      | nil =>
          rw [listText_singleton]
          exact e.brace_not_mem
      | cons next entries =>
          rw [listText_cons_cons]
          exact List.not_mem_append e.brace_not_mem
            (List.not_mem_cons_of_ne_of_not_mem (by decide) ih)

def exportRead (clause : List Char) : List Char :=
  ("export".toList ++ [' ']) ++ ('{' :: (clause ++ ['}']))

def exportText (entries : List Entry) (semicolon : Bool) (lines : Nat) : List Char :=
  (exportRead (listText entries) ++ semicolonText semicolon) ++ List.replicate lines '\n'

theorem listStatement_export (entries : List Entry) (semicolon : Bool) :
    ListStatement (exportRead (listText entries) ++ semicolonText semicolon) where
  first := ⟨'e', _, rfl, rfl⟩
  oneList := ⟨entries, OneLineBut.append_right
    (OneLineBut.append_left (by decide) (OneLineBut.braced _)) (semicolon_lineEnd semicolon)⟩

theorem exportRead_append (clause ending lines : List Char) :
    (exportRead clause ++ ending) ++ lines =
      ("export".toList ++ [' ']) ++ ('{' :: (clause ++ '}' :: (ending ++ lines))) := by
  show ((("export".toList ++ [' ']) ++ ('{' :: (clause ++ ['}']))) ++ ending) ++ lines = _
  simp

theorem refuses_source_ending (semicolon : Bool) (lines : Nat) :
    Refuses (do Matcher.blanks; fromSource : Matcher String)
      (semicolonText semicolon ++ List.replicate lines '\n') := by
  cases semicolon with
  | true =>
      exact refuses_source_semicolon _
  | false =>
      have hlines : (List.replicate lines '\n').all isBlank = true :=
        List.all_eq_true.mpr fun ch hch => by rw [List.eq_of_mem_replicate hch]; rfl
      have hend := refuses_source hlines (stops_nil isBlank) rfl
      rwa [List.append_nil] at hend

theorem takes_exportRead (entries : List Entry) (semicolon : Bool) (lines : Nat) :
    TakesIndented bracedForm (exportRead (listText entries))
      (exportedNames (listText entries), none)
      (semicolonText semicolon ++ List.replicate lines '\n') := by
  have htakes := takes_bracedForm_clause false (brace_not_mem_listText entries) none
    fun _ => refuses_source_ending semicolon lines
  rw [sourceText, List.append_nil] at htakes
  exact htakes.indented (stops_cons (by decide) _)

theorem finds_export (entries : List Entry) (semicolon : Bool) (lines : Nat) :
    Finds (some (exportedNames (listText entries))) none (exportText entries semicolon lines) := by
  have hblock := listStatement_export entries semicolon
  have hbrace : forall more, Begins ["\x7b"] ('{' :: more) :=
    fun more => ⟨"\x7b", by decide, List.prefix_append _ _⟩
  have hexported : forall {β : Type} {form : Matcher β},
      (forall more, RefusesExported form ('{' :: more)) ->
        RefusesIndented form (exportText entries semicolon lines) := by
    intro β form h
    rw [exportText, exportRead_append]
    exact (h _).indented (stops_cons (by decide) _)
  have hword : Begins ["export"] (exportText entries semicolon lines) :=
    ⟨"export", by decide, List.prefix_append _ _⟩
  have himports : forall kind : ImportKind,
      findAll kind.form (exportText entries semicolon lines) = [] := by
    intro kind
    refine hblock.findAll_eq_nil kind.passesLists (kind.refuses hword ?_)
    cases kind <;> decide
  exact
    { declared := hblock.findAll_eq_nil passesLists_declarationForm
        (hexported fun more => refuses_declarationForm (hbrace more) (by decide))
      default := hblock.findAll_eq_nil passesLists_defaultForm
        (hexported fun more => refuses_defaultForm (by decide) (hbrace more))
      listed := hblock.findAll_eq_singleton passesLists_bracedForm (List.cons_ne_nil _ _)
        (takes_exportRead entries semicolon lines)
      star := hblock.findAll_eq_nil passesLists_starForm (hexported fun more =>
        opensWith_starForm.refuses (by decide) (hbrace more) (stops_cons (by decide) more))
      assigned := hblock.findAll_eq_nil passesLists_assignedForm
        ⟨_, rfl, Refuses.optional_bind (Refuses.word rfl) (Refuses.bind (Refuses.word rfl))⟩
      module := hblock.findAll_eq_nil passesLists_assignedModuleForm
        ⟨_, rfl, Refuses.bind (Refuses.word rfl)⟩
      takes := himports .takes
      others := fun kind _ => himports kind }

/-!
# A list that is imported
-/

def importRead (clause : List Char) (source : Source) (q : Quote) : List Char :=
  ("import".toList ++ [' ']) ++ ('{' :: (clause ++ ['}']) ++ ([' '] ++ source.from q))

def importText (entries : List Entry) (source : Source) (q : Quote) (semicolon : Bool)
    (lines : Nat) : List Char :=
  (importRead (listText entries) source q ++ semicolonText semicolon) ++
    List.replicate lines '\n'

theorem listStatement_import (entries : List Entry) (source : Source) (q : Quote)
    (semicolon : Bool) :
    ListStatement (importRead (listText entries) source q ++ semicolonText semicolon) where
  first := ⟨'i', _, rfl, rfl⟩
  oneList := by
    refine ⟨entries, OneLineBut.append_right (OneLineBut.append_left (by decide) ?_)
      (semicolon_lineEnd semicolon)⟩
    exact OneLineBut.append_right (OneLineBut.braced _)
      (List.not_mem_append (by decide) (source.from_lineEnd q))

theorem takes_importRead {clause : List Char} (hbrace : '}' ∉ clause) (source : Source) (q : Quote)
    (rest : List Char) :
    TakesIndented importForm (importRead clause source q)
      (fun line => some
        { source := source.path
          line := line
          bindings := importedNames false clause })
      rest := by
  have hsplit : importRead clause source q = ("import".toList ++ [' ']) ++ ([] ++ ([] ++
      ('{' :: (clause ++ ['}']) ++ ([' '] ++ source.from q)))) := rfl
  rw [hsplit]
  refine ⟨_, rfl, ?_⟩
  refine Takes.bind (TakesOnly.keyword "import" (stops_cons (by decide) _)).takes ?_
  refine Takes.bind (TakesOnly.left_out (Refuses.keyword rfl)).takes ?_
  refine Takes.bind (TakesOnly.left_out (Refuses.bind
    (Refuses.anyIdentifier (stops_cons (by decide) _)))).takes ?_
  refine Takes.bind (Takes.optional (Takes.orElse (TakesOnly.braced hbrace _).map.takes)) ?_
  refine Takes.bind (TakesOnly.blanks (by decide) (stops_cons (by decide) _)).takes ?_
  exact Takes.map (TakesOnly.fromSource source q rest).takes

theorem importRead_append (clause : List Char) (source : Source) (q : Quote)
    (ending lines : List Char) :
    (importRead clause source q ++ ending) ++ lines =
      ("import".toList ++ [' ']) ++
        ('{' :: (clause ++ '}' :: ' ' :: (source.from q ++ (ending ++ lines)))) := by
  show ((("import".toList ++ [' ']) ++ ('{' :: (clause ++ ['}']) ++ ([' '] ++ source.from q))) ++
    ending) ++ lines = _
  simp

theorem refuses_importRead_runForm (clause more : List Char) :
    RefusesIndented runForm (("import".toList ++ [' ']) ++ ('{' :: (clause ++ more))) := by
  refine ⟨_, rfl, ?_⟩
  rw [List.append_assoc]
  refine Refuses.after (TakesOnly.word "import" _) ?_
  refine Refuses.after (TakesOnly.blanks (by decide) (stops_cons (by decide) _)) ?_
  exact Refuses.bind (Refuses.quoted (stops_cons (by decide) _))

theorem finds_import (entries : List Entry) (source : Source) (q : Quote) (semicolon : Bool)
    (lines : Nat) :
    Finds none
      (some fun line =>
        { source := source.path
          line := line
          bindings := importedNames false (listText entries) })
      (importText entries source q semicolon lines) := by
  have hblock := listStatement_import entries source q semicolon
  have hexported : forall {β : Type} {form : Matcher β}, PassesLists form ->
      (exists next, form = (indentation >>= fun _ => keyword "export" >>= next)) ->
        findAll form (importText entries source q semicolon lines) = [] := by
    rintro β form hform ⟨next, rfl⟩
    exact hblock.findAll_eq_nil hform ⟨_, rfl, Refuses.bind (Refuses.keyword rfl)⟩
  have hword : Begins ["import"] (importText entries source q semicolon lines) :=
    ⟨"import", by decide, List.prefix_append _ _⟩
  exact
    { declared := hexported passesLists_declarationForm ⟨_, rfl⟩
      default := hexported passesLists_defaultForm ⟨_, rfl⟩
      listed := hexported passesLists_bracedForm ⟨_, rfl⟩
      star := hexported passesLists_starForm ⟨_, rfl⟩
      assigned := hblock.findAll_eq_nil passesLists_assignedForm
        ⟨_, rfl, Refuses.optional_bind (Refuses.word rfl) (Refuses.bind (Refuses.word rfl))⟩
      module := hblock.findAll_eq_nil passesLists_assignedModuleForm
        ⟨_, rfl, Refuses.bind (Refuses.word rfl)⟩
      takes := hblock.findAll_eq_singleton ImportKind.takes.passesLists (List.cons_ne_nil _ _)
        (takes_importRead (brace_not_mem_listText entries) source q _)
      others := by
        intro kind hkind
        refine hblock.findAll_eq_nil kind.passesLists ?_
        cases kind with
        | takes =>
            exact absurd rfl hkind
        | runs =>
            rw [importRead_append]
            exact refuses_importRead_runForm _ _
        | requires =>
            exact ImportKind.requires.refuses hword (by decide)
        | calls =>
            exact ImportKind.calls.refuses hword (by decide) }

/-!
# Files with comments in their lists
-/

theorem withoutComments_list (entries : List Entry) {head ending : List Char}
    (hhead : '/' ∉ head) (hending : uncommented false ending = true) :
    withoutComments (head ++ ('{' :: (listText entries ++ '}' :: ending))) =
      head ++ ('{' :: (listText (entries.map Entry.bare) ++ '}' :: ending)) := by
  have hslash : '/' ∉ head ++ ['{'] := List.not_mem_append hhead (by decide)
  have hstrips := strips_listText entries (Strips.of_uncommented hending) (head ++ ['{'])
    (uncommented_of_no_slash hslash true) (freshAfter_concat true head (by decide) (by decide))
  simpa using hstrips

theorem slash_not_mem_ending (semicolon : Bool) (lines : Nat) :
    '/' ∉ semicolonText semicolon ++ List.replicate lines '\n' := by
  refine List.not_mem_append (by cases semicolon <;> decide) fun hmem => ?_
  exact absurd (List.eq_of_mem_replicate hmem) (by decide)

theorem scan_export (path : String) (entries : List Entry) (semicolon : Bool) (lines : Nat) :
    scan path (String.ofList (exportText entries semicolon lines)) =
      { path := path
        exports :=
          { names := (entries.flatMap
              (Entry.reads exportedNames Specifier.localName)).eraseDups } } := by
  have hending := uncommented_of_no_slash (slash_not_mem_ending semicolon lines) false
  have hcode : withoutComments (exportText entries semicolon lines) =
      exportText (entries.map Entry.bare) semicolon lines := by
    rw [exportText, exportText, exportRead_append, exportRead_append]
    exact withoutComments_list entries (by decide) hending
  rw [scan_ofList, hcode, (finds_export _ semicolon lines).scanCode_eq,
    readsItems_exportedNames.listText_bare]
  rfl

theorem scan_import (path : String) (entries : List Entry) (source : Source) (q : Quote)
    (semicolon : Bool) (lines : Nat) :
    scan path (String.ofList (importText entries source q semicolon lines)) =
      { path := path
        imports :=
          [{ source := source.path
             line := 1
             bindings := entries.flatMap
               (Entry.reads (importedNames false) (Specifier.binding false)) }] } := by
  have hending : uncommented false (' ' ::
      (source.from q ++ (semicolonText semicolon ++ List.replicate lines '\n'))) = true := by
    have hfrom : '\n' ∉ ' ' :: source.from q := by
      simp [source.from_lineEnd q]
    rw [<- List.cons_append, uncommented_append, uncommented_line hfrom,
      uncommented_of_no_slash (slash_not_mem_ending semicolon lines)]
    rfl
  have hcode : withoutComments (importText entries source q semicolon lines) =
      importText (entries.map Entry.bare) source q semicolon lines := by
    rw [importText, importText, importRead_append, importRead_append]
    exact withoutComments_list entries (by decide) hending
  rw [scan_ofList, hcode, (finds_import _ source q semicolon lines).scanCode_eq,
    (readsItems_importedNames false).listText_bare]
  rfl

theorem filter_of_opening {entries : List Entry} (h : forall e, e ∈ entries -> e.midLine = false) :
    (entries.filter fun e => !e.midLine) = entries :=
  List.filter_eq_self.mpr fun e he => by rw [h e he]; rfl

/--
A comment that opens its line changes nothing that is read of a list.  A comment behind other text
of its line is read with the list: up to its first comma it gives no name, so that one without
commas hides the item behind it and nothing else.  Where all comments open their lines, all items
are read, and a name is only reported missing if the one list holds it and the other does not.
-/
theorem scan_remarked_lists (exported imported : List Entry) (source : Source) (q : Quote)
    (closed closed' : Bool) (lines lines' : Nat) :
    let exporter := String.ofList (exportText exported closed lines)
    let importer := String.ofList (importText imported source q closed' lines')
    let names := exported.flatMap (Entry.reads exportedNames Specifier.localName)
    let bindings := imported.flatMap (Entry.reads (importedNames false) (Specifier.binding false))
    (forall path, scan path exporter = { path := path, exports := { names := names.eraseDups } }) ∧
    (forall path, scan path importer =
      { path := path
        imports := [{ source := source.path, line := 1, bindings := bindings }] }) ∧
    ((forall e, e ∈ exported ++ imported -> e.midLine = true -> ',' ∉ e.remarkText) ->
      names = (printed (exported.filter fun e => !e.midLine)).map Specifier.localName ∧
      bindings = (printed (imported.filter fun e => !e.midLine)).map (Specifier.binding false)) ∧
    ((forall e, e ∈ exported ++ imported -> e.midLine = false) ->
      names = (printed exported).map Specifier.localName ∧
      bindings = (printed imported).map (Specifier.binding false) ∧
      forall (v : Validator) (files : Table String) (m : MissingExport),
        m ∈ (v.validate files).missingExports ->
          files.get? m.target = some exporter -> files.get? m.file = some importer ->
            m.name ∈ (printed imported).map (fun s => s.name.name) ∧
              m.name ∉ (printed exported).map Specifier.localName) := by
  intro exporter importer names bindings
  have hexporter : forall path, scan path exporter =
      { path := path, exports := { names := names.eraseDups } } :=
    fun path => scan_export path exported closed lines
  have himporter : forall path, scan path importer =
      { path := path
        imports := [{ source := source.path, line := 1, bindings := bindings }] } :=
    fun path => scan_import path imported source q closed' lines'
  have hcommaFree :
      (forall e, e ∈ exported ++ imported -> e.midLine = true -> ',' ∉ e.remarkText) ->
      names = (printed (exported.filter fun e => !e.midLine)).map Specifier.localName ∧
      bindings = (printed (imported.filter fun e => !e.midLine)).map (Specifier.binding false) :=
    fun h =>
      ⟨readsItems_exportedNames.flatMap_reads fun e he => h e (List.mem_append_left _ he),
        (readsItems_importedNames false).flatMap_reads fun e he => h e (List.mem_append_right _ he)⟩
  refine ⟨hexporter, himporter, hcommaFree, fun hopening => ?_⟩
  have hread := hcommaFree fun e he hmid => by
    rw [hopening e he] at hmid
    cases hmid
  rw [filter_of_opening fun e he => hopening e (List.mem_append_left _ he),
    filter_of_opening fun e he => hopening e (List.mem_append_right _ he)] at hread
  obtain ⟨hnames, hbindings⟩ := hread
  refine ⟨hnames, hbindings, fun v files m hm htarget hfile => ?_⟩
  obtain ⟨⟨record, hrecord, hrequested⟩, hmissing⟩ :=
    Validator.missing_between hm htarget hfile
  rw [himporter] at hrecord
  rw [hexporter] at hmissing
  cases List.mem_singleton.mp hrecord
  refine ⟨?_, fun hmem => hmissing (List.mem_eraseDups.mpr (hnames ▸ hmem))⟩
  have hall : (Import.mk source.path 1 bindings false).requested =
      (printed imported).map fun s => s.name.name := by
    rw [Import.requested, hbindings, List.filterMap_map, <- List.filterMap_eq_map]
    rfl
  rwa [hall] at hrequested

/-- Comments on lines of their own, and one before an item on its line. -/
theorem scan_remarked_lists_opening :
    let a : Identifier := ⟨"a", 'a', [], rfl, rfl, nofun⟩
    let b : Identifier := ⟨"b", 'b', [], rfl, rfl, nofun⟩
    let c : Identifier := ⟨"c", 'c', [], rfl, rfl, nofun⟩
    let exported : List Entry :=
      [{ front := ['\n', ' '], remark := none, behind := []
         item := some ⟨false, a, none, nofun⟩, after := []
         front_blank := rfl, behind_blank := rfl, after_blank := rfl },
       { front := ['\n', ' ']
         remark := some (.toLineEnd " not c, b".toList (by decide) (by decide))
         behind := [' '], item := some ⟨false, b, some c, fun _ _ => by decide⟩, after := ['\n']
         front_blank := rfl, behind_blank := rfl, after_blank := rfl }]
    let imported : List Entry :=
      [{ front := ['\n'], remark := some (.block [' '] (by decide) (by decide) (by decide))
         behind := [' '], item := some ⟨false, b, none, nofun⟩, after := ['\n']
         front_blank := rfl, behind_blank := rfl, after_blank := rfl }]
    let exporter := "export \x7b\n a,\n // not c, b\n b as c\n\x7d\n"
    let importer := "import \x7b\n/* */ b\n\x7d from './t';\n"
    let v : Validator := { resolver := Resolver.make none [] }
    let files : Table String := { entries := [("src/t.ts", exporter), ("src/a.ts", importer)] }
    let source : Source := ⟨"./t", by decide, by decide⟩
    exporter = String.ofList (exportText exported false 1) ∧
      importer = String.ofList (importText imported source .single true 1) ∧
      (forall e, e ∈ exported ++ imported -> e.midLine = false) ∧
      ⟨"src/a.ts", 1, "src/t.ts", "b"⟩ ∈ (v.validate files).missingExports ∧
      (scan "src/t.ts" exporter).exports.names = ["a", "c"] ∧
      "b" ∈ (printed imported).map (fun s => s.name.name) ∧
      "b" ∉ (printed exported).map Specifier.localName := by
  intro a b c exported imported exporter importer v files source
  have hexporter : exporter = String.ofList (exportText exported false 1) := by
    decide +kernel
  have himporter : importer = String.ofList (importText imported source .single true 1) := by
    decide +kernel
  have hopening : forall e, e ∈ exported ++ imported -> e.midLine = false := by
    decide +kernel
  have hmissing : (⟨"src/a.ts", 1, "src/t.ts", "b"⟩ : MissingExport) ∈
      (v.validate files).missingExports := by
    decide +kernel
  obtain ⟨hscan, _, _, hread⟩ := scan_remarked_lists exported imported source .single false true 1 1
  obtain ⟨hnames, _, hreported⟩ := hread hopening
  have hfiles := hreported v files _ hmissing (congrArg some hexporter)
    (congrArg some himporter)
  refine ⟨hexporter, himporter, hopening, hmissing, ?_, hfiles⟩
  rw [hexporter, hscan, hnames]
  decide +kernel

/-- Behind a comma, a comment hides the next name, and an import of this name is reported. -/
theorem name_hidden_mid_line :
    let a : Identifier := ⟨"a", 'a', [], rfl, rfl, nofun⟩
    let b : Identifier := ⟨"b", 'b', [], rfl, rfl, nofun⟩
    let first : Entry :=
      { front := ['\n', ' '], remark := none, behind := []
        item := some ⟨false, a, none, nofun⟩, after := []
        front_blank := rfl, behind_blank := rfl, after_blank := rfl }
    let second : Entry :=
      { front := [' '], remark := some (.toLineEnd " first".toList (by decide) (by decide))
        behind := [' '], item := some ⟨false, b, none, nofun⟩, after := ['\n']
        front_blank := rfl, behind_blank := rfl, after_blank := rfl }
    let source : Source := ⟨"./t", by decide, by decide⟩
    let exporter := String.ofList (exportText [first, second] false 1)
    let importer := String.ofList (importText [first, second] source .single false 1)
    let files : Table String :=
      { entries := [("src/t.ts", exporter), ("src/a.ts", "import \x7b a, b \x7d from './t'\n")] }
    let v : Validator := { resolver := Resolver.make none [] }
    exporter = "export \x7b\n a, // first\n b\n\x7d\n" ∧
      (printed [first, second]).map Specifier.localName = ["a", "b"] ∧
      (scan "src/t.ts" exporter).exports.names = ["a"] ∧
      (scan "src/a.ts" importer).imports = [⟨"./t", 1, [⟨.named "a", "a", false⟩], false⟩] ∧
      (v.validate files).missingExports = [⟨"src/a.ts", 1, "src/t.ts", "b"⟩] := by
  decide +kernel

end SourceModule
end Joinery
