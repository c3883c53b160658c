import Joinery.Proofs.SourceModule.RemarkedLists

/-!
# Objects that are exported

## The names that a module is read to export

A file assigns an object to `module.exports`.  The values of its entries may be anything on one
line: no form of statement begins on a line of the object, and only the keys are read.
-/

namespace Joinery
namespace SourceModule

open Text Matcher

variable {α : Type} {m : Matcher α} {rest more : List Char}

/-!
# Entries
-/

/-- What can stand behind the colon of an entry: it ends before the next comma, brace or line. -/
structure IsValue (text : List Char) : Prop where
  ends : exists front last, text = front ++ [last] ∧ isBlank last = false
  inside : forall ch, ch ∈ [',', '}', '\n'] -> ch ∉ text

/-- An entry of an object: a key, with its value behind a colon. -/
structure ObjectEntry where
  key : Identifier
  value : Option (List Char)
  isValue : forall text, value = some text -> IsValue text

namespace ObjectEntry

def valueText (e : ObjectEntry) : List Char :=
  match e.value with
  | none => []
  | some value => ':' :: value

def text (e : ObjectEntry) : List Char :=
  e.key.chars ++ e.valueText

theorem stops_valueText {p : Char -> Bool} (h : p ':' = false) (e : ObjectEntry) :
    Stops p e.valueText := by
  unfold valueText
  split
  · exact stops_nil _
  · exact stops_cons h _

theorem not_mem_text (e : ObjectEntry) {ch : Char} (hch : ch ∈ [',', '}', '\n']) :
    ch ∉ e.text := by
  have hkey : ch ∉ e.key.chars := by
    refine e.key.not_mem ?_
    simp only [List.mem_cons, List.not_mem_nil, or_false] at hch
    rcases hch with rfl | rfl | rfl <;> decide
  refine List.not_mem_append hkey ?_
  unfold valueText
  split
  · exact List.not_mem_nil
  · next value hvalue =>
      refine List.not_mem_cons_of_ne_of_not_mem ?_ ((e.isValue value hvalue).inside ch hch)
      rintro rfl
      exact absurd hch (by decide)

theorem isItem_text (e : ObjectEntry) : IsItem e.text := by
  have hitem := isItem_append e.key (List.not_mem_nil : ',' ∉ [])
    (by simpa using e.key.stops_blank [])
  obtain ⟨ch, tail, hkey, hch⟩ := hitem.first
  rw [List.nil_append] at hkey
  refine ⟨⟨ch, tail ++ e.valueText, by rw [text, hkey, List.cons_append], hch⟩, ?_,
    e.not_mem_text (by decide)⟩
  unfold text valueText
  split
  · rw [List.append_nil]
    exact hitem.last
  · next value hvalue =>
      obtain ⟨front, last, rfl, hlast⟩ := (e.isValue value hvalue).ends
      exact ⟨e.key.chars ++ ':' :: front, last, by simp, hlast⟩

theorem namedItem (e : ObjectEntry) : NamedItem e.text := by
  unfold text valueText
  split
  · rw [List.append_nil]
    exact NamedItem.name e.key
  · exact NamedItem.valued e.key _

theorem first?_objectKey (e : ObjectEntry) : objectKey.first? e.text = readKey? e.key.name :=
  SourceModule.first?_objectKey e.key (e.stops_valueText (by decide))
    (e.stops_valueText (by decide))

/-- An entry stands behind other characters of its line, so that its value begins no comment. -/
theorem commentFree (e : ObjectEntry) : CommentFree e.text := by
  obtain ⟨first, tail, htext, hfirst, _⟩ := e.key.isIdentifier
  have hline := e.not_mem_text (by decide : '\n' ∈ [',', '}', '\n'])
  have hentry : e.text = first :: (tail ++ e.valueText) := by
    rw [text, Identifier.chars, htext, List.cons_append]
  have hother : forall ch, isIdentifierStart ch = false -> first ≠ ch := by
    rintro ch hch rfl
    rw [hfirst] at hch
    cases hch
  rw [hentry] at hline ⊢
  exact CommentFree.cons_line (hother _ (by decide)) (hother _ (by decide))
    (isIndent_of_not_blank (blank_of_isIdentifierStart hfirst)) fun hmem =>
      hline (List.mem_cons_of_mem _ hmem)

theorem unopened (e : ObjectEntry) (h : Unopened rest) : Unopened (e.text ++ rest) := by
  unfold text valueText
  rw [List.append_assoc]
  refine Unopened.append ?_ e.key.all_inner
  split
  · exact h
  · exact unopened_cons (by decide) (by decide) _

end ObjectEntry

theorem objectKeys_entries (list : Items ObjectEntry) :
    objectKeys (list.text ObjectEntry.text) =
      list.items.filterMap fun p => readKey? p.item.key.name := by
  show (clauseItems _).filterMap _ = _
  rw [clauseItems_text ObjectEntry.isItem_text, List.filterMap_map]
  refine List.filterMap_congr ?_
  intro p _
  rw [Function.comp_apply, ObjectEntry.first?_objectKey]

/-!
# The lines of an object
-/

theorem Items.forall_mem_pieces {write : α -> List Char} {p : List Char -> Prop}
    (hblanks : forall blanks, blanks.all isBlank = true -> p blanks)
    (hitem : forall item : Padded α, p (item.text write)) (l : Items α) :
    forall piece, piece ∈ l.pieces write -> p piece := by
  intro piece hpiece
  rcases List.mem_append.mp hpiece with hpiece | hpiece
  · obtain ⟨item, _, rfl⟩ := List.mem_map.mp hpiece
    exact hitem item
  · exact hblanks piece (l.last_blank piece (Option.mem_toList.mp hpiece))

theorem brace_not_mem_entries (list : Items ObjectEntry) : '}' ∉ list.text ObjectEntry.text := by
  have hblanks : forall blanks : List Char, blanks.all isBlank = true -> '}' ∉ blanks :=
    fun _ => not_mem_blanks (by decide)
  have hpieces := list.forall_mem_pieces hblanks fun item => List.not_mem_append
    (hblanks _ item.before_blank)
    (List.not_mem_append (item.item.not_mem_text (by decide)) (hblanks _ item.after_blank))
  intro hmem
  obtain ⟨piece, hpiece, hbrace⟩ := (mem_intercalate_iff (by decide)).mp hmem
  exact hpieces piece hpiece hbrace

theorem CommentFree.trans {front text : List Char} (hfront : CommentFree front)
    (h : CommentFree text) : CommentFree (front ++ text) := by
  intro fresh
  rw [uncommented_append, hfront, h]
  rfl

theorem commentFree_intercalate {pieces : List (List Char)}
    (h : forall piece, piece ∈ pieces -> CommentFree piece) :
    CommentFree ([','].intercalate pieces) :=
  intercalate_of_pieces (fun _ => rfl) (CommentFree.of_no_slash (by decide)) CommentFree.trans h

theorem commentFree_entries (list : Items ObjectEntry) :
    CommentFree (list.text ObjectEntry.text) := by
  have hblanks : forall blanks, blanks.all isBlank = true -> CommentFree blanks :=
    fun _ hblanks => CommentFree.of_no_slash (not_mem_blanks (by decide) hblanks)
  exact commentFree_intercalate (list.forall_mem_pieces hblanks fun item =>
    (hblanks _ item.before_blank).trans (item.item.commentFree.trans (hblanks _ item.after_blank)))

/-- Nothing is opened on the way through the text, from its start or from the start of a line. -/
def Closed (text : List Char) : Prop :=
  forall rest, Unopened rest -> Unopened (text ++ rest) ∧ LineStarts Unopened text rest

namespace Closed

variable {front text : List Char}

theorem append (hfront : Closed front) (h : Closed text) : Closed (front ++ text) := by
  intro rest hrest
  obtain ⟨hunopened, hlines⟩ := h rest hrest
  obtain ⟨hall, hfrontLines⟩ := hfront _ hunopened
  rw [<- List.append_assoc] at hall
  exact ⟨hall, hfrontLines.append hlines⟩

theorem blanks (h : text.all isBlank = true) : Closed text := by
  intro rest hrest
  have hunopened : forall blanks, blanks.all isBlank = true -> Unopened (blanks ++ rest) :=
    fun _ hblanks => hrest.append (all_inner_of_blanks hblanks)
  exact ⟨hunopened text h, LineStarts.blanks h hunopened⟩

theorem entry (e : ObjectEntry) : Closed e.text :=
  fun _ hrest => ⟨e.unopened hrest, LineStarts.of_line (e.not_mem_text (by decide))⟩

theorem joined {pieces : List (List Char)} (h : forall piece, piece ∈ pieces -> Closed piece) :
    Closed ([','].intercalate pieces) := by
  have hcomma : Closed [','] :=
    fun _ hrest => ⟨hrest.append (by decide), LineStarts.of_line (by decide)⟩
  exact intercalate_of_pieces (blanks rfl) hcomma append h

theorem entries (list : Items ObjectEntry) : Closed (list.text ObjectEntry.text) :=
  joined (list.forall_mem_pieces (fun _ => blanks) fun item =>
    (blanks item.before_blank).append ((entry item.item).append (blanks item.after_blank)))

end Closed

/-!
# The assignment
-/

def objectRead (list : Items ObjectEntry) : List Char :=
  "module.exports".toList ++ (([' '] ++ ['=']) ++
    ([' '] ++ ('{' :: (list.text ObjectEntry.text ++ ['}']))))

/-- A file that assigns an object to `module.exports`, with line ends behind the statement. -/
def objectText (list : Items ObjectEntry) (semicolon : Bool) (lines : Nat) : List Char :=
  (objectRead list ++ semicolonText semicolon) ++ List.replicate lines '\n'

theorem oneLineBut_object (list : Items ObjectEntry) (semicolon : Bool) :
    OneLineBut (list.text ObjectEntry.text) (objectRead list ++ semicolonText semicolon) :=
  OneLineBut.append_right (OneLineBut.append_left (by decide) (OneLineBut.append_left (by decide)
    (OneLineBut.append_left (by decide) (OneLineBut.braced _)))) (semicolon_lineEnd semicolon)

theorem quietInside_object_of_opens (hline : BeginsLine m) (h : Opens m) (list : Items ObjectEntry)
    (semicolon : Bool) : QuietInside m (objectRead list ++ semicolonText semicolon) rest :=
  (oneLineBut_object list semicolon).quietInside hline fun before after more hsplit =>
    h.refuses_unopened ((Closed.entries list _ (Behind.brace more).unopened).2 before after hsplit)

theorem quietInside_object_of_passes (hline : BeginsLine m) (h : PassesItems m)
    (list : Items ObjectEntry) (semicolon : Bool) :
    QuietInside m (objectRead list ++ semicolonText semicolon) rest :=
  h.quietInside hline ObjectEntry.isItem_text (fun e => e.not_mem_text (by decide))
    ObjectEntry.namedItem list (oneLineBut_object list semicolon)

theorem objectRead_append (list : Items ObjectEntry) (more : List Char) :
    objectRead list ++ more = "module.exports".toList ++ ([' '] ++ (['='] ++ ([' '] ++
      ('{' :: (list.text ObjectEntry.text ++ '}' :: more))))) := by
  show "module.exports".toList ++ _ ++ more = _
  simp

theorem begins_object (list : Items ObjectEntry) (semicolon : Bool) (lines : Nat) :
    Begins ["module.exports"] (objectText list semicolon lines) :=
  ⟨"module.exports", List.mem_singleton_self _, List.prefix_append _ _⟩

/-- The file exports a default value and the keys of the object, as far as they are read. -/
theorem exportsOfCode_object (list : Items ObjectEntry) (semicolon : Bool) (lines : Nat) :
    exportsOfCode (objectText list semicolon lines) =
      { names := (defaultExport ::
          list.items.filterMap fun p => readKey? p.item.key.name).eraseDups
        commonjs := true } := by
  let code := objectText list semicolon lines
  have hbegins : Begins ["module.exports"] code := begins_object list semicolon lines
  have hstop : Stops isIndent code := hbegins.stops (by decide)
  have hexport : Refuses (keyword "export") code := Refuses.keyword_apart (by decide) hbegins
  have hcode : code = objectRead list ++ (semicolonText semicolon ++ List.replicate lines '\n') :=
    List.append_assoc ..
  have hopens : forall {β : Type} {form : Matcher β}, PassesLists form -> Opens form ->
      RefusesIndented form code -> findAll form code = [] :=
    fun hm hform h => hm.findAll_of_refuses hstop h
      (quietInside_object_of_opens hm.beginsLine hform list semicolon)
  have hpasses : forall {β : Type} {form : Matcher β}, PassesLists form -> PassesItems form ->
      RefusesIndented form code -> findAll form code = [] :=
    fun hm hform h => hm.findAll_of_refuses hstop h
      (quietInside_object_of_passes hm.beginsLine hform list semicolon)
  have hdeclared : findAll declarationForm code = [] :=
    hpasses passesLists_declarationForm passesItems_declarationForm ⟨_, rfl, Refuses.bind hexport⟩
  have hdefault : findAll defaultForm code = [] :=
    hpasses passesLists_defaultForm passesItems_defaultForm ⟨_, rfl, Refuses.bind hexport⟩
  have hlisted : findAll bracedForm code = [] :=
    hopens passesLists_bracedForm Opens.bracedForm ⟨_, rfl, Refuses.bind hexport⟩
  have hstars : findAll starForm code = [] :=
    hopens passesLists_starForm Opens.starForm ⟨_, rfl, Refuses.bind hexport⟩
  have hassigned : findAll assignedForm code = [] := by
    refine hopens passesLists_assignedForm Opens.assignedForm ?_
    rw [hcode, objectRead_append]
    exact refuses_assignedForm_module _
  have hobjects : findAll assignedModuleForm code =
      [⟨⟨[], code⟩, objectKeys (list.text ObjectEntry.text)⟩] :=
    passesLists_assignedModuleForm.findAll_of_takes (hcode ▸ hstop) (List.cons_ne_nil _ _)
      (takes_assignedModuleForm_clause (brace_not_mem_entries list) _)
      (quietInside_object_of_opens (beginsLine_indentation_bind _) Opens.assignedModuleForm list
        semicolon)
  show exportsOfCode code = _
  unfold exportsOfCode
  rw [hdeclared, hdefault, hlisted, hstars, hassigned, hobjects, <- objectKeys_entries]
  simp

theorem importsOfCode_eq (code : List Char) :
    importsOfCode code =
      (sortBy (fun a b => decide (a.1 ≤ b.1))
        ([ImportKind.takes, .runs, .requires, .calls].flatMap fun kind =>
          importsOfForm kind.form code)).map (·.2) :=
  rfl

theorem importsOfCode_object (list : Items ObjectEntry) (semicolon : Bool) (lines : Nat) :
    importsOfCode (objectText list semicolon lines) = [] := by
  have hbegins := begins_object list semicolon lines
  have hnone : forall kind : ImportKind,
      importsOfForm kind.form (objectText list semicolon lines) = [] := by
    intro kind
    have hrefuses : RefusesIndented kind.form (objectText list semicolon lines) := by
      refine kind.refuses hbegins ?_
      cases kind <;> decide
    have hfound : findAll kind.form (objectText list semicolon lines) = [] :=
      kind.passesLists.findAll_of_refuses (hbegins.stops (by decide)) hrefuses
        (quietInside_object_of_opens kind.beginsLine kind.opens list semicolon)
    rw [importsOfForm, hfound]
    rfl
  rw [importsOfCode_eq]
  simp only [hnone]
  rfl

theorem commentFree_object (list : Items ObjectEntry) (semicolon : Bool) (lines : Nat) :
    CommentFree (objectText list semicolon lines) := by
  have hending : CommentFree ('}' :: (semicolonText semicolon ++ List.replicate lines '\n')) :=
    CommentFree.of_no_slash
      (List.not_mem_cons_of_ne_of_not_mem (by decide) (slash_not_mem_ending semicolon lines))
  have hopening : '/' ∉ "module.exports".toList ++ [' ', '=', ' ', '{'] := by
    decide
  have htext : objectText list semicolon lines =
      ("module.exports".toList ++ [' ', '=', ' ', '{']) ++ (list.text ObjectEntry.text ++
        '}' :: (semicolonText semicolon ++ List.replicate lines '\n')) := by
    show (objectRead list ++ _) ++ _ = _
    rw [List.append_assoc, objectRead_append]
    simp
  rw [htext]
  exact CommentFree.append hopening ((commentFree_entries list).trans hending)

theorem scan_object (path : String) (list : Items ObjectEntry) (semicolon : Bool) (lines : Nat) :
    (scan path (String.ofList (objectText list semicolon lines))).imports = [] ∧
      (scan path (String.ofList (objectText list semicolon lines))).exports =
        { names := (defaultExport ::
            list.items.filterMap fun p => readKey? p.item.key.name).eraseDups
          commonjs := true } := by
  have hcode : withoutComments (objectText list semicolon lines) =
      objectText list semicolon lines :=
    withoutComments_of_uncommented (commentFree_object list semicolon lines true)
  rw [scan_ofList, hcode, imports_scanCode, exports_scanCode]
  exact ⟨importsOfCode_object list semicolon lines, exportsOfCode_object list semicolon lines⟩

/-!
# A statement that imports
-/

theorem scan_import_statement (path : String) (s : ImportStatement) (lines : Nat) :
    (scan path (String.ofList (s.text ++ List.replicate lines '\n'))).imports = [s.record 1] := by
  have hlines : CommentFree (List.replicate lines '\n') :=
    CommentFree.of_no_slash fun hmem => absurd (List.eq_of_mem_replicate hmem) (by decide)
  have hform : forall kind : ImportKind,
      importsOfForm kind.form (s.text ++ List.replicate lines '\n') =
        if s.body.kind = kind then [(0, s.record 1)] else [] := by
    intro kind
    rw [importsOfForm, kind.passesLists.findAll_of_foundIn (s.foundIn kind _)]
    split <;> rfl
  have himports : importsOfCode (s.text ++ List.replicate lines '\n') = [s.record 1] := by
    rw [importsOfCode_eq]
    simp only [hform]
    cases s.body.kind <;> rfl
  rw [scan_ofList, withoutComments_of_uncommented ((s.commentFree.trans hlines) true),
    imports_scanCode, himports]

end SourceModule
end Joinery
