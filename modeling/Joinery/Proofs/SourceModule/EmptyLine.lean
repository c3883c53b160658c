import Joinery.Proofs.Sorting
import Joinery.Proofs.SourceModule.WrittenLines
import Joinery.Proofs.Text.EmptyLine

/-!
# Statements around an empty line

## One line end more

An empty line where a line ends, be it between the words of a statement or in its braces,
changes nothing that is found: the blanks around the items of a clause are taken off, and
between words any blanks do.
-/

namespace Joinery

namespace Text

variable {text wide : List Char}

/-!
# Pieces of a text with one line end more
-/

theorem Doubled.refl (text : List Char) : Doubled text text :=
  Or.inl rfl

theorem Doubled.cons (ch : Char) (h : Doubled text wide) : Doubled (ch :: text) (ch :: wide) := by
  rcases h with rfl | ⟨before, after, rfl, rfl⟩
  · exact Doubled.refl _
  · exact Or.inr ⟨ch :: before, after, rfl, rfl⟩

theorem Doubled.reverse (h : Doubled text wide) : Doubled text.reverse wide.reverse := by
  rcases h with rfl | ⟨before, after, rfl, rfl⟩
  · exact Doubled.refl _
  · exact Or.inr ⟨after.reverse, before.reverse, by simp, by simp⟩

theorem Doubled.isEmpty (h : Doubled text wide) : wide.isEmpty = text.isEmpty := by
  rcases h with rfl | ⟨before, after, rfl, rfl⟩
  · rfl
  · cases before <;> rfl

theorem Doubled.dropStart {p : Char -> Bool} (hp : p '\n' = true) (h : Doubled text wide) :
    Doubled (dropStart p text) (dropStart p wide) := by
  rcases h with rfl | ⟨before, after, rfl, rfl⟩
  · exact Doubled.refl _
  · induction before with
    | nil =>
        refine Or.inl ?_
        simp [Text.dropStart, hp]
    | cons ch before ih =>
        simp only [Text.dropStart, List.cons_append, List.dropWhile_cons] at ih ⊢
        split
        · exact ih
        · exact Or.inr ⟨ch :: before, after, rfl, rfl⟩

theorem Doubled.trim (h : Doubled text wide) : Doubled (trim text) (trim wide) := by
  have hblank : isBlank '\n' = true := by decide
  exact (Doubled.dropStart hblank (Doubled.dropStart hblank h).reverse).reverse

theorem Doubled.splitOn {sep : Char} (hsep : '\n' ≠ sep) (h : Doubled text wide) :
    List.Forall₂ Doubled (List.splitOn sep text) (List.splitOn sep wide) := by
  have hsame : forall pieces : List (List Char), List.Forall₂ Doubled pieces pieces :=
    fun pieces => List.forall₂_same.mpr fun piece _ => Doubled.refl piece
  rcases h with rfl | ⟨before, after, rfl, rfl⟩
  · exact hsame _
  · induction before with
    | nil =>
        obtain ⟨piece, pieces, hpieces⟩ :=
          List.exists_cons_of_ne_nil (List.splitOn_ne_nil sep after)
        have hline := splitOn_cons_of_ne hsep hpieces
        rw [List.nil_append, List.nil_append, splitOn_cons_of_ne hsep hline, hline]
        exact List.Forall₂.cons (Or.inr ⟨[], piece, rfl, rfl⟩) (hsame pieces)
    | cons ch before ih =>
        rw [List.cons_append, List.cons_append]
        by_cases hch : ch = sep
        · subst hch
          rw [splitOn_cons_self, splitOn_cons_self]
          exact List.Forall₂.cons (Doubled.refl _) ih
        · obtain ⟨piece, pieces, hpieces⟩ :=
            List.exists_cons_of_ne_nil (List.splitOn_ne_nil sep (before ++ '\n' :: after))
          obtain ⟨other, others, hothers⟩ :=
            List.exists_cons_of_ne_nil (List.splitOn_ne_nil sep (before ++ '\n' :: '\n' :: after))
          rw [hpieces, hothers] at ih
          rw [splitOn_cons_of_ne hch hpieces, splitOn_cons_of_ne hch hothers]
          obtain ⟨hfirst, hrest⟩ := List.forall₂_cons.mp ih
          exact List.Forall₂.cons (hfirst.cons ch) hrest

end Text

namespace SourceModule

open Text Matcher

/-!
# Clauses
-/

theorem Steady.keyword {text : String} (h : '\n' ∉ text.toList) : Steady (keyword text) :=
  Steady.bind (Steady.word h) fun _ => Steady.blanks1

theorem Steady.identifier : Steady identifier :=
  Steady.bind (Steady.one (by decide)) fun _ =>
    Steady.bind (Steady.stretch (by decide)) fun _ => Steady.give _

theorem Steady.anyIdentifier : Steady anyIdentifier :=
  Steady.bind (Steady.one (by decide)) fun _ =>
    Steady.bind (Steady.beginnings (by decide)) fun _ => Steady.give _

theorem Steady.aliased : Steady aliased := by
  refine Steady.bind Steady.identifier fun _ => ?_
  refine Steady.bind (Steady.optional ?_) fun _ => ?_
  · exact Steady.bind Steady.blanks1 fun _ => Steady.bind (Steady.word (by decide)) fun _ =>
      Steady.bind Steady.blanks1 fun _ => Steady.identifier
  · exact Steady.bind Steady.textEnd fun _ => Steady.give _

theorem Steady.destructured : Steady destructured := by
  refine Steady.bind Steady.identifier fun _ => Steady.bind Steady.blanks fun _ => ?_
  refine Steady.bind (Steady.optional ?_) fun _ => Steady.bind Steady.blanks fun _ => ?_
  · exact Steady.bind (Steady.letters (by decide)) fun _ =>
      Steady.bind Steady.blanks fun _ => Steady.identifier
  · have hfallback : Alike Doubled
        (do
          Matcher.letters ['=']
          Matcher.stretch fun _ => true : Matcher (List Char))
        (do
          Matcher.letters ['=']
          Matcher.stretch fun _ => true : Matcher (List Char)) :=
      Steady.bind (Steady.letters (by decide)) fun _ => Alike.stretch _
    exact Alike.bind (Alike.optional hfallback) fun _ _ _ =>
      Steady.bind Steady.textEnd fun _ => Steady.give _

theorem Steady.objectKey : Steady objectKey := by
  refine Steady.bind (Steady.optional (Steady.keyword (by decide))) fun _ => ?_
  exact Steady.bind Steady.anyIdentifier fun _ =>
    Steady.bind Steady.wordEdge fun _ => Steady.give _

theorem clauseItems_doubled {clause wide : List Char} (h : Doubled clause wide) :
    List.Forall₂ Doubled (clauseItems clause) (clauseItems wide) := by
  refine List.rel_filter ?_ (List.rel_map ?_ (Doubled.splitOn (by decide) h))
  · intro item other hitem
    dsimp only
    rw [hitem.isEmpty]
  · exact fun _ _ hpiece => hpiece.trim

theorem filterMap_clauseItems {β : Type} {read : List Char -> Option β}
    (hread : forall item other, Doubled item other -> read other = read item)
    {clause wide : List Char} (h : Doubled clause wide) :
    (clauseItems wide).filterMap read = (clauseItems clause).filterMap read := by
  have hitems := clauseItems_doubled h
  revert hitems
  generalize clauseItems clause = items
  generalize clauseItems wide = others
  intro hitems
  induction hitems with
  | nil =>
      rfl
  | cons hitem _ ih =>
      rw [List.filterMap_cons, List.filterMap_cons, hread _ _ hitem, ih]

theorem withoutType_doubled {item other : List Char} (h : Doubled item other) :
    Doubled (withoutType item).1 (withoutType other).1 ∧
      (withoutType other).2 = (withoutType item).2 := by
  rcases h with rfl | ⟨before, after, rfl, rfl⟩
  · exact ⟨Doubled.refl _, rfl⟩
  · have hword : Steady (do Matcher.word "type"; Matcher.blanks1 : Matcher Unit) :=
      Steady.bind (Steady.word (by decide)) fun _ => Steady.blanks1
    have hanswers := hword after (Cursor.start (before ++ '\n' :: after))
      (Cursor.start (before ++ '\n' :: '\n' :: after)) (Widened.before [] before)
    unfold withoutType
    revert hanswers
    generalize (do Matcher.word "type"; Matcher.blanks1 : Matcher Unit)
      (Cursor.start (before ++ '\n' :: after)) = answers
    generalize (do Matcher.word "type"; Matcher.blanks1 : Matcher Unit)
      (Cursor.start (before ++ '\n' :: '\n' :: after)) = others
    intro hanswers
    cases hanswers with
    | nil =>
        exact ⟨Or.inr ⟨before, after, rfl, rfl⟩, rfl⟩
    | cons hfirst _ =>
        exact ⟨hfirst.2.doubled.trim, rfl⟩

theorem importedNames_doubled (typeOnly : Bool) {clause wide : List Char}
    (h : Doubled clause wide) : importedNames typeOnly wide = importedNames typeOnly clause := by
  refine filterMap_clauseItems ?_ h
  intro item other hitem
  obtain ⟨hname, hmarked⟩ := withoutType_doubled hitem
  dsimp only
  rw [Steady.first? Steady.aliased hname, hmarked]

theorem requiredNames_doubled {clause wide : List Char} (h : Doubled clause wide) :
    requiredNames wide = requiredNames clause := by
  refine filterMap_clauseItems ?_ h
  intro item other hitem
  rw [Steady.first? Steady.destructured hitem]

theorem exportedNames_doubled {clause wide : List Char} (h : Doubled clause wide) :
    exportedNames wide = exportedNames clause := by
  refine filterMap_clauseItems ?_ h
  intro item other hitem
  rw [Steady.first? Steady.aliased (withoutType_doubled hitem).1]

theorem objectKeys_doubled {clause wide : List Char} (h : Doubled clause wide) :
    objectKeys wide = objectKeys clause :=
  filterMap_clauseItems (fun _ _ hitem => Steady.first? Steady.objectKey hitem) h

/-!
# Forms

A form answers the same on both sides of an empty line, but for the line that is handed to it.
-/

theorem Steady.indentation : Steady indentation :=
  Steady.bind Steady.lineStart fun _ =>
    Steady.bind (Steady.stretch (by decide)) fun _ => Steady.give _

theorem Steady.quoted : Steady quoted := by
  refine Alike.bind (Alike.one (by decide)) ?_
  rintro opening _ ⟨rfl, hquote⟩
  refine Steady.bind (Steady.stretch1 (by decide)) fun _ => ?_
  refine Steady.bind (Steady.letters ?_) fun _ => Steady.give _
  intro hend
  rw [<- List.mem_singleton.mp hend] at hquote
  cases hquote

theorem Alike.braced : Alike Doubled braced braced := by
  refine Steady.bind (Steady.letters (by decide)) fun _ => Alike.bind (Alike.stretch _) ?_
  intro clause wide h
  exact Steady.bind (Steady.letters (by decide)) fun _ => Alike.give h

theorem Steady.fromSource : Steady fromSource :=
  Steady.bind (Steady.word (by decide)) fun _ => Steady.bind Steady.blanks fun _ => Steady.quoted

def BindAlike (selected other : Selection) : Prop :=
  forall typeOnly default,
    bindingsOf typeOnly default (some other) = bindingsOf typeOnly default (some selected)

theorem Alike.selection : Alike BindAlike selection selection := by
  refine Alike.orElse (Alike.bind Alike.braced ?_) ?_
  · intro clause wide h
    refine Alike.give fun typeOnly default => ?_
    simp only [bindingsOf, importedNames_doubled typeOnly h]
  · refine Steady.bind (Steady.letters (by decide)) fun _ => Steady.bind Steady.blanks fun _ => ?_
    refine Steady.bind (Steady.keyword (by decide)) fun _ => ?_
    exact Steady.bind Steady.anyIdentifier fun _ => Alike.give fun _ _ => rfl

theorem Steady.defaultName : Steady defaultName := by
  refine Steady.bind Steady.anyIdentifier fun _ => Steady.bind Steady.blanks fun _ => ?_
  refine Steady.bind (Steady.optional ?_) fun _ => Steady.give _
  exact Steady.bind (Steady.letters (by decide)) fun _ => Steady.blanks

/-- The same import statement, or none, with the line that is handed to it. -/
def SameImport (found other : Nat -> Option Import) : Prop :=
  other = found ∧
    exists record : Option Import, found = fun line => record.map fun i => { i with line := line }

theorem SameImport.some (record : Import) :
    SameImport (fun line => some { record with line := line })
      (fun line => some { record with line := line }) :=
  ⟨rfl, Option.some record, rfl⟩

theorem Alike.importForm : Alike SameImport importForm importForm := by
  refine Steady.bind Steady.indentation fun _ => ?_
  refine Steady.bind (Steady.keyword (by decide)) fun _ => ?_
  refine Steady.bind (Steady.optional (Steady.keyword (by decide))) fun marked => ?_
  refine Steady.bind (Steady.optional Steady.defaultName) fun default => ?_
  refine Alike.bind (Alike.optional Alike.selection) ?_
  intro selected other hselected
  refine Steady.bind Steady.blanks fun _ => Steady.bind Steady.fromSource fun source => ?_
  refine Alike.give ?_
  cases hselected with
  | none =>
      cases default with
      | none =>
          exact ⟨rfl, Option.none, rfl⟩
      | some name =>
          exact SameImport.some ⟨source, 0, bindingsOf marked.isSome (Option.some name) Option.none,
            marked.isSome⟩
  | some hbindings =>
      have hsame := hbindings marked.isSome default
      simp only [Option.isNone_some, Bool.and_false, Bool.false_eq_true, if_false, hsame]
      exact SameImport.some ⟨source, 0, bindingsOf marked.isSome default _, marked.isSome⟩

theorem Alike.runForm : Alike SameImport runForm runForm := by
  refine Steady.bind Steady.indentation fun _ => Steady.bind (Steady.word (by decide)) fun _ => ?_
  refine Steady.bind Steady.blanks fun _ => Steady.bind Steady.quoted fun source => ?_
  exact Alike.give (SameImport.some ⟨source, 0, [], false⟩)

theorem Steady.requireCall : Steady requireCall := by
  refine Steady.bind (Steady.word (by decide)) fun _ => Steady.bind Steady.blanks fun _ => ?_
  refine Steady.bind (Steady.letters (by decide)) fun _ => Steady.bind Steady.blanks fun _ => ?_
  refine Steady.bind Steady.quoted fun _ => Steady.bind Steady.blanks fun _ => ?_
  exact Steady.bind (Steady.letters (by decide)) fun _ => Steady.give _

theorem Steady.requireTarget : Steady requireTarget := by
  refine Alike.orElse (Alike.bind Alike.braced ?_) ?_
  · intro clause wide h
    exact Alike.give (requiredNames_doubled h).symm
  · exact Steady.bind Steady.identifier fun _ => Steady.give _

theorem Alike.requireForm : Alike SameImport requireForm requireForm := by
  refine Steady.bind Steady.indentation fun _ => Steady.bind (Steady.anyOf ?_) fun _ => ?_
  · intro m hm
    simp only [List.mem_cons, List.not_mem_nil, or_false] at hm
    rcases hm with rfl | rfl | rfl <;> exact Steady.keyword (by decide)
  refine Steady.bind Steady.requireTarget fun bindings => Steady.bind Steady.blanks fun _ => ?_
  refine Steady.bind (Steady.letters (by decide)) fun _ => Steady.bind Steady.blanks fun _ => ?_
  exact Steady.bind Steady.requireCall fun source =>
    Alike.give (SameImport.some ⟨source, 0, bindings, false⟩)

theorem Alike.bareRequireForm : Alike SameImport bareRequireForm bareRequireForm :=
  Steady.bind Steady.indentation fun _ => Steady.bind Steady.requireCall fun source =>
    Alike.give (SameImport.some ⟨source, 0, [], false⟩)

theorem Steady.declarationGap : Steady declarationGap := by
  refine Alike.orElse (Steady.bind Steady.blanks fun _ => ?_) Steady.blanks1
  exact Steady.bind (Steady.letters (by decide)) fun _ => Steady.blanks

theorem Steady.declarationKinds : Steady (anyOf declarationKinds) := by
  refine Steady.anyOf fun m hm => ?_
  rcases List.mem_cons.mp hm with rfl | hm
  · exact Steady.bind (Steady.keyword (by decide)) fun _ => Steady.word (by decide)
  · obtain ⟨text, htext, rfl⟩ := List.mem_map.mp hm
    have hwords : forall kind, kind ∈ ["const", "let", "var", "class", "interface", "type", "enum",
        "namespace", "function"] -> '\n' ∉ kind.toList := by
      decide
    exact Steady.word (hwords text htext)

theorem Steady.declarationForm : Steady declarationForm := by
  refine Steady.bind Steady.indentation fun _ => ?_
  refine Steady.bind (Steady.keyword (by decide)) fun _ => ?_
  refine Steady.bind (Steady.optional (Steady.keyword (by decide))) fun _ => ?_
  refine Steady.bind (Steady.optional (Steady.keyword (by decide))) fun _ => ?_
  refine Steady.bind (Steady.optional (Steady.keyword (by decide))) fun _ => ?_
  refine Steady.bind (Steady.optional (Steady.keyword (by decide))) fun _ => ?_
  refine Steady.bind Steady.declarationKinds fun _ => Steady.bind Steady.declarationGap fun _ => ?_
  exact Steady.bind Steady.identifier fun _ => Steady.give _

theorem Steady.defaultForm : Steady defaultForm :=
  Steady.bind Steady.indentation fun _ => Steady.bind (Steady.keyword (by decide)) fun _ =>
    Steady.bind (Steady.word (by decide)) fun _ => Steady.wordEdge

theorem Steady.bracedForm : Steady bracedForm := by
  refine Steady.bind Steady.indentation fun _ => ?_
  refine Steady.bind (Steady.keyword (by decide)) fun _ => ?_
  refine Steady.bind (Steady.optional (Steady.keyword (by decide))) fun _ => ?_
  refine Alike.bind Alike.braced ?_
  intro clause wide h
  refine Steady.bind (Steady.optional ?_) fun source => Alike.give ?_
  · exact Steady.bind Steady.blanks fun _ => Steady.fromSource
  · rw [exportedNames_doubled h]

theorem Steady.starForm : Steady starForm := by
  refine Steady.bind Steady.indentation fun _ => ?_
  refine Steady.bind (Steady.keyword (by decide)) fun _ => ?_
  refine Steady.bind (Steady.optional (Steady.keyword (by decide))) fun _ => ?_
  refine Steady.bind (Steady.letters (by decide)) fun _ => Steady.bind Steady.blanks fun _ => ?_
  refine Steady.bind (Steady.optional ?_) fun _ => ?_
  · exact Steady.bind (Steady.keyword (by decide)) fun _ => Steady.bind Steady.identifier fun _ =>
      Steady.bind Steady.blanks1 fun _ => Steady.give _
  · exact Steady.bind Steady.fromSource fun _ => Steady.give _

theorem Steady.assignment : Steady assignment :=
  Steady.bind Steady.blanks fun _ => Steady.bind (Steady.letters (by decide)) fun _ =>
    Steady.notNext _

theorem Steady.assignedForm : Steady assignedForm := by
  refine Steady.bind Steady.indentation fun _ => ?_
  refine Steady.bind (Steady.optional (Steady.word (by decide))) fun _ => ?_
  refine Steady.bind (Steady.word (by decide)) fun _ => Steady.bind Steady.identifier fun _ => ?_
  exact Steady.bind Steady.assignment fun _ => Steady.give _

theorem Steady.assignedModuleForm : Steady assignedModuleForm := by
  refine Steady.bind Steady.indentation fun _ => Steady.bind (Steady.word (by decide)) fun _ => ?_
  refine Steady.bind Steady.assignment fun _ => Steady.bind Steady.blanks fun _ => ?_
  refine Alike.bind (Alike.optional Alike.braced) ?_
  intro clause wide h
  refine Alike.give ?_
  cases h with
  | none =>
      rfl
  | some hclause =>
      exact (objectKeys_doubled hclause).symm

/-- What a form of statement has that an empty line cannot disturb. -/
structure LineForm (related : α -> α -> Prop) (form : Matcher α) : Prop where
  alike : Alike related form form
  forward : Forward form
  stops : forall tail, Refuses form ('\n' :: tail)

variable {α : Type}

theorem LineForm.importForm : LineForm SameImport importForm :=
  ⟨Alike.importForm, (@Closing.importForm []).forward,
    refuses_lineEnd fun _ => Refuses.bind (Refuses.keyword rfl)⟩

theorem LineForm.runForm : LineForm SameImport runForm :=
  ⟨Alike.runForm, (@Closing.runForm []).forward,
    refuses_lineEnd fun _ => Refuses.bind (Refuses.word rfl)⟩

theorem LineForm.requireForm : LineForm SameImport requireForm := by
  refine ⟨Alike.requireForm, (@Closing.requireForm []).forward,
    refuses_lineEnd fun _ => Refuses.bind (Refuses.anyOf ?_)⟩
  intro m hm
  simp only [List.mem_cons, List.not_mem_nil, or_false] at hm
  rcases hm with rfl | rfl | rfl <;> exact Refuses.keyword rfl

theorem LineForm.bareRequireForm : LineForm SameImport bareRequireForm := by
  refine ⟨Alike.bareRequireForm, (@Closing.bareRequireForm []).forward,
    refuses_lineEnd fun _ => Refuses.bind ?_⟩
  exact Refuses.bind (Refuses.word rfl)

theorem LineForm.declarationForm : LineForm Eq declarationForm :=
  ⟨Steady.declarationForm, (@Closing.declarationForm [] (by simp [EndsWord])).forward,
    refuses_lineEnd fun _ => Refuses.bind (Refuses.keyword rfl)⟩

theorem LineForm.defaultForm : LineForm Eq defaultForm :=
  ⟨Steady.defaultForm, (@Closing.defaultForm [] (by simp [EndsWord])).forward,
    refuses_lineEnd fun _ => Refuses.bind (Refuses.keyword rfl)⟩

theorem LineForm.starForm : LineForm Eq starForm :=
  ⟨Steady.starForm, (@Closing.starForm []).forward,
    refuses_lineEnd fun _ => Refuses.bind (Refuses.keyword rfl)⟩

theorem LineForm.bracedForm : LineForm Eq bracedForm := by
  refine ⟨Steady.bracedForm, ?_,
    refuses_lineEnd fun _ => Refuses.bind (Refuses.keyword rfl)⟩
  refine Over.bind Local.indentation.forward fun _ => ?_
  refine Over.bind (Local.keyword _).forward fun _ => ?_
  refine Over.bind (Local.optional (Local.keyword _)).forward fun _ => ?_
  refine Over.bind Local.braced.forward fun _ => Over.bind (Over.optional ?_) fun _ => Over.give _
  exact Over.bind Local.blanks.forward fun _ => (@Closing.fromSource []).forward

theorem Forward.assignment : Forward assignment :=
  Over.bind Local.blanks.forward fun _ => Over.bind (Local.letters _).forward fun _ => Over.guard _

theorem LineForm.assignedForm : LineForm Eq assignedForm := by
  refine ⟨Steady.assignedForm, ?_, refuses_lineEnd fun _ =>
    Refuses.optional_bind (Refuses.word rfl) (Refuses.bind (Refuses.word rfl))⟩
  refine Over.bind Local.indentation.forward fun _ => ?_
  refine Over.bind (Local.optional (Local.word _)).forward fun _ => ?_
  refine Over.bind (Local.word _).forward fun _ => Over.bind Local.identifier.forward fun _ => ?_
  exact Over.bind Forward.assignment fun _ => Over.give _

theorem LineForm.assignedModuleForm : LineForm Eq assignedModuleForm := by
  refine ⟨Steady.assignedModuleForm, ?_,
    refuses_lineEnd fun _ => Refuses.bind (Refuses.word rfl)⟩
  refine Over.bind Local.indentation.forward fun _ => Over.bind (Local.word _).forward fun _ => ?_
  refine Over.bind Forward.assignment fun _ => Over.bind Local.blanks.forward fun _ => ?_
  exact Over.bind (Local.optional Local.braced).forward fun _ => Over.give _

/-!
# All that is found
-/

theorem LineForm.findAll {related : α -> α -> Prop} {form : Matcher α}
    (hform : LineForm related form) {front : List Char} (hfront : EndsLine front)
    (rest : List Char) :
    List.Forall₂
      (fun found other =>
        related found.value other.value ∧
          other.place.line = moved (front.count '\n' + 1) 1 found.place.line ∧
            other.place.offset = moved front.length 1 found.place.offset)
      (findAll form (front ++ rest)) (findAll form (front ++ '\n' :: rest)) :=
  findAll_empty_line hform.alike hform.forward (fun behind tail => hform.stops tail behind) hfront
    rest

theorem LineForm.values {form : Matcher α} (hform : LineForm Eq form) {front : List Char}
    (hfront : EndsLine front) (rest : List Char) :
    (Text.findAll form (front ++ '\n' :: rest)).map (·.value) =
      (Text.findAll form (front ++ rest)).map (·.value) := by
  have hall := hform.findAll hfront rest
  revert hall
  generalize Text.findAll form (front ++ rest) = all
  generalize Text.findAll form (front ++ '\n' :: rest) = others
  intro hall
  induction hall with
  | nil =>
      rfl
  | cons hfirst _ ih =>
      rw [List.map_cons, List.map_cons, ih, hfirst.1]

end SourceModule

open Text

def Import.moved (first count : Nat) (i : Import) : Import :=
  { i with line := Text.moved first count i.line }

def Reexport.moved (first count : Nat) (r : Reexport) : Reexport :=
  { r with line := Text.moved first count r.line }

def SourceModule.moved (first count : Nat) (s : SourceModule) : SourceModule :=
  { s with
    imports := s.imports.map (Import.moved first count)
    reexports := s.reexports.map (Reexport.moved first count) }

@[simp] theorem SourceModule.moved_zero (first : Nat) (s : SourceModule) : s.moved first 0 = s := by
  have himports : s.imports.map (Import.moved first 0) = s.imports :=
    (List.map_congr_left fun i _ => by rw [Import.moved, Text.moved_zero]; rfl).trans
      (List.map_id _)
  have hreexports : s.reexports.map (Reexport.moved first 0) = s.reexports :=
    (List.map_congr_left fun r _ => by rw [Reexport.moved, Text.moved_zero]; rfl).trans
      (List.map_id _)
  rw [SourceModule.moved, himports, hreexports]

theorem SourceModule.moved_moved (first count more : Nat) (s : SourceModule) :
    (s.moved first count).moved first more = s.moved first (count + more) := by
  simp only [SourceModule.moved, List.map_map]
  congr 1
  · refine List.map_congr_left fun i _ => ?_
    simp only [Function.comp, Import.moved, Text.moved_moved]
  · refine List.map_congr_left fun r _ => ?_
    simp only [Function.comp, Reexport.moved, Text.moved_moved]

namespace SourceModule

variable {front : List Char}

theorem importsOfForm_empty_line {form : Matcher (Nat -> Option Import)}
    (hform : LineForm SameImport form) (hfront : EndsLine front) (rest : List Char) :
    importsOfForm form (front ++ '\n' :: rest) =
      (importsOfForm form (front ++ rest)).map fun entry =>
        (Text.moved front.length 1 entry.1, entry.2.moved (front.count '\n' + 1) 1) := by
  have hall := hform.findAll hfront rest
  unfold importsOfForm
  revert hall
  generalize findAll form (front ++ rest) = all
  generalize findAll form (front ++ '\n' :: rest) = others
  intro hall
  induction hall with
  | nil =>
      rfl
  | @cons found other _ _ hfirst _ ih =>
      obtain ⟨⟨hsame, record, hrecord⟩, hline, hoffset⟩ := hfirst
      rw [List.filterMap_cons, List.filterMap_cons, hsame, hrecord, hline, hoffset, ih]
      cases record with
      | none =>
          rfl
      | some record =>
          rfl

theorem importsOfCode_empty_line (hfront : EndsLine front) (rest : List Char) :
    importsOfCode (front ++ '\n' :: rest) =
      (importsOfCode (front ++ rest)).map (Import.moved (front.count '\n' + 1) 1) := by
  have hforms : forall form, form ∈ [importForm, runForm, requireForm, bareRequireForm] ->
      LineForm SameImport form := by
    intro form hform
    simp only [List.mem_cons, List.not_mem_nil, or_false] at hform
    rcases hform with rfl | rfl | rfl | rfl
    · exact LineForm.importForm
    · exact LineForm.runForm
    · exact LineForm.requireForm
    · exact LineForm.bareRequireForm
  have hall : [importForm, runForm, requireForm, bareRequireForm].flatMap
        (fun form => importsOfForm form (front ++ '\n' :: rest)) =
      ([importForm, runForm, requireForm, bareRequireForm].flatMap
        fun form => importsOfForm form (front ++ rest)).map fun entry =>
          (Text.moved front.length 1 entry.1, entry.2.moved (front.count '\n' + 1) 1) := by
    rw [List.map_flatMap, List.flatMap_def, List.flatMap_def]
    congr 1
    exact List.map_congr_left fun form hform =>
      importsOfForm_empty_line (hforms form hform) hfront rest
  unfold importsOfCode
  dsimp only
  rw [hall, sortBy_map, List.map_map, List.map_map]
  · rfl
  · intro a b
    simp only [Text.moved_le_moved]

theorem exportsOfCode_empty_line (hfront : EndsLine front) (rest : List Char) :
    exportsOfCode (front ++ '\n' :: rest) = exportsOfCode (front ++ rest) := by
  have hdefault := congrArg List.isEmpty (LineForm.defaultForm.values hfront rest)
  have hlisted := congrArg (List.flatMap (·.1)) (LineForm.bracedForm.values hfront rest)
  rw [List.isEmpty_map, List.isEmpty_map] at hdefault
  rw [List.flatMap_map, List.flatMap_map] at hlisted
  unfold exportsOfCode
  dsimp only
  rw [LineForm.declarationForm.values hfront rest, hdefault, hlisted,
    LineForm.starForm.values hfront rest, LineForm.assignedForm.values hfront rest,
    LineForm.assignedModuleForm.values hfront rest]

theorem listedReexports_empty_line (hfront : EndsLine front) (rest : List Char) :
    (findAll bracedForm (front ++ '\n' :: rest)).filterMap listedReexport =
      ((findAll bracedForm (front ++ rest)).filterMap listedReexport).map
        (Reexport.moved (front.count '\n' + 1) 1) := by
  have hall := LineForm.bracedForm.findAll hfront rest
  revert hall
  generalize findAll bracedForm (front ++ rest) = all
  generalize findAll bracedForm (front ++ '\n' :: rest) = others
  intro hall
  induction hall with
  | nil =>
      rfl
  | @cons found other _ _ hfirst _ ih =>
      obtain ⟨hvalue, hline, _⟩ := hfirst
      rw [List.filterMap_cons, List.filterMap_cons, ih, listedReexport, listedReexport, <- hvalue,
        hline]
      cases found.value.2 <;> rfl

theorem starReexports_empty_line (hfront : EndsLine front) (rest : List Char) :
    (findAll starForm (front ++ '\n' :: rest)).map starReexport =
      ((findAll starForm (front ++ rest)).map starReexport).map
        (Reexport.moved (front.count '\n' + 1) 1) := by
  have hall := LineForm.starForm.findAll hfront rest
  revert hall
  generalize findAll starForm (front ++ rest) = all
  generalize findAll starForm (front ++ '\n' :: rest) = others
  intro hall
  induction hall with
  | nil =>
      rfl
  | @cons found other _ _ hfirst _ ih =>
      obtain ⟨hvalue, hline, _⟩ := hfirst
      rw [List.map_cons, List.map_cons, List.map_cons, ih, starReexport, <- hvalue, hline]
      rfl

theorem reexportsOfCode_empty_line (hfront : EndsLine front) (rest : List Char) :
    reexportsOfCode (front ++ '\n' :: rest) =
      (reexportsOfCode (front ++ rest)).map (Reexport.moved (front.count '\n' + 1) 1) := by
  rw [reexportsOfCode_eq, reexportsOfCode_eq, listedReexports_empty_line hfront,
    starReexports_empty_line hfront, <- List.map_append, sortBy_map]
  intro a b
  simp only [Reexport.moved, Text.moved_le_moved]

/-- All that a text without comments says about other modules. -/
def scanCode (path : String) (code : List Char) : SourceModule :=
  { path := path
    imports := importsOfCode code
    exports := exportsOfCode code
    reexports := reexportsOfCode code }

@[simp] theorem imports_scanCode (path : String) (code : List Char) :
    (scanCode path code).imports = importsOfCode code := by
  rw [scanCode]

@[simp] theorem exports_scanCode (path : String) (code : List Char) :
    (scanCode path code).exports = exportsOfCode code := by
  rw [scanCode]

@[simp] theorem reexports_scanCode (path : String) (code : List Char) :
    (scanCode path code).reexports = reexportsOfCode code := by
  rw [scanCode]

theorem scan_ofList (path : String) (code : List Char) :
    scan path (String.ofList code) = scanCode path (withoutComments code) := by
  rw [scan, String.toList_ofList, scanCode]

theorem scanCode_empty_lines (path : String) (hfront : EndsLine front) (count : Nat)
    (rest : List Char) :
    scanCode path (front ++ (List.replicate count '\n' ++ rest)) =
      (scanCode path (front ++ rest)).moved (front.count '\n' + 1) count := by
  induction count with
  | zero =>
      rw [SourceModule.moved_zero]
      rfl
  | succ count ih =>
      rw [<- SourceModule.moved_moved, <- ih, List.replicate_succ, List.cons_append, scanCode,
        importsOfCode_empty_line hfront, exportsOfCode_empty_line hfront,
        reexportsOfCode_empty_line hfront]
      rfl

end SourceModule
end Joinery
