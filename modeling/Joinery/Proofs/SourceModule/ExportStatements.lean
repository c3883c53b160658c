import Joinery.Proofs.SourceModule.Declaration
import Joinery.Proofs.SourceModule.ObjectKeys
import Joinery.Proofs.SourceModule.WrittenLines

/-!
# Export statements as they are written

## Each form and its statements

Behind the word `export` stands a declaration, a default value, a list or a star; older code
assigns to `exports`.  Each form reads its own statements and refuses those of the other forms.
Only the form of declarations may read a default value, too, as the declaration of it.
-/

namespace Joinery
namespace SourceModule

open Text Matcher

variable {α β : Type} {more rest : List Char}

/-!
# The grammar
-/

inductive DeclarationKind where
  | plain (word : String) (isKind : word ∈ kindWords)
  | constEnum
  | generator

/-- A declaration.  What follows its name goes on with something else on the same line. -/
structure Declaration where
  declareMark : Bool
  asyncMark : Bool
  abstractMark : Bool
  kind : DeclarationKind
  name : Identifier
  ending : List Char
  oneLine : '\n' ∉ ending
  apart : Stops isIdentifierChar ending
  unlikeKind : forall isKind, kind = .plain "const" isKind -> name.name ≠ "enum"

/-- What stands behind the word `export`. -/
inductive Exported where
  | declares (declaration : Declaration)
  | default (value : List Char) (oneLine : '\n' ∉ value)
      (closed : exists front last, value = front ++ [last] ∧ last ∈ [';', ')', '}'])
  | lists (typeOnly : Bool) (list : Items Specifier) (source : Option (Source × Quote))
      (semicolon : Bool)
  | star (name : Option Identifier) (source : Source) (q : Quote) (semicolon : Bool)

/-- An assignment to `exports`.  No key of an object ends with the dollar sign. -/
inductive Assigned where
  | property (viaModule : Bool) (name : Identifier) (value : List Char) (oneLine : '\n' ∉ value)
  | object (list : Items Property)
      (wordKeys : forall p, p ∈ list.items -> p.item.key.chars.getLast? ≠ some '$')
      (semicolon : Bool)
  | whole (value : List Char) (oneLine : '\n' ∉ value)
      (first : exists ch tail, value = ch :: tail ∧ isBlank ch = false ∧ ch ≠ '{')

inductive ExportBody where
  | exports (what : Exported)
  | assigns (what : Assigned)

structure ExportStatement where
  indent : List Char
  body : ExportBody
  indented : indent.all isIndent = true

def DeclarationKind.text : DeclarationKind -> List Char
  | plain word _ => word.toList ++ [' ']
  | constEnum => ("const".toList ++ [' ']) ++ ("enum".toList ++ [' '])
  | generator => "function".toList ++ (['*'] ++ [' '])

def Declaration.read (d : Declaration) : List Char :=
  marked d.declareMark "declare" ++ (marked d.asyncMark "async" ++
    (marked d.abstractMark "abstract" ++ (d.kind.text ++ d.name.chars)))

def sourceText : Option (Source × Quote) -> List Char
  | none => []
  | some (source, q) => [' '] ++ source.from q

def starName : Option Identifier -> List Char
  | none => []
  | some name => ("as".toList ++ [' ']) ++ (name.chars ++ [' '])

def Exported.read : Exported -> List Char
  | declares d => d.read
  | default _ _ _ => "default".toList
  | lists typeOnly list source _ =>
      marked typeOnly "type" ++ ('{' :: (list.text Specifier.text ++ ['}']) ++ sourceText source)
  | star name source q _ => ['*'] ++ ([' '] ++ (starName name ++ source.from q))

def Exported.ending : Exported -> List Char
  | declares d => d.ending
  | default value _ _ => ' ' :: value
  | lists _ _ _ semicolon => semicolonText semicolon
  | star _ _ _ semicolon => semicolonText semicolon

def Assigned.read : Assigned -> List Char
  | property viaModule name _ _ =>
      (if viaModule then "module.".toList else []) ++
        ("exports.".toList ++ (name.chars ++ ([' '] ++ ['='])))
  | object list _ _ =>
      "module.exports".toList ++ (([' '] ++ ['=']) ++
        ([' '] ++ ('{' :: (list.text Property.text ++ ['}']))))
  | whole _ _ _ => "module.exports".toList ++ (([' '] ++ ['=']) ++ [' '])

def Assigned.ending : Assigned -> List Char
  | property _ _ value _ => ' ' :: value
  | object _ _ semicolon => semicolonText semicolon
  | whole value _ _ => value

def ExportBody.read : ExportBody -> List Char
  | exports what => ("export".toList ++ [' ']) ++ what.read
  | assigns what => what.read

def ExportBody.ending : ExportBody -> List Char
  | exports what => what.ending
  | assigns what => what.ending

def ExportStatement.text (s : ExportStatement) : List Char :=
  s.indent ++ (s.body.read ++ s.body.ending)

/-!
# Behind the word `export`
-/

/-- Behind the word `export`, this text is what the form reads first. -/
def TakesExported (form : Matcher α) (read : List Char) (value : α) (rest : List Char) : Prop :=
  exists next, form = (indentation >>= fun _ => keyword "export" >>= next) ∧
    Takes (next ()) read value rest

def RefusesExported (form : Matcher α) (text : List Char) : Prop :=
  exists next, form = (indentation >>= fun _ => keyword "export" >>= next) ∧
    Refuses (next ()) text

theorem TakesExported.indented {form : Matcher α} {read : List Char} {value : α}
    (hstop : Stops isBlank (read ++ rest)) (h : TakesExported form read value rest) :
    TakesIndented form (("export".toList ++ [' ']) ++ read) value rest := by
  obtain ⟨next, rfl, hnext⟩ := h
  exact ⟨_, rfl, Takes.bind (TakesOnly.keyword "export" hstop).takes hnext⟩

theorem RefusesExported.indented {form : Matcher α} (hstop : Stops isBlank more)
    (h : RefusesExported form more) :
    RefusesIndented form (("export".toList ++ [' ']) ++ more) := by
  obtain ⟨next, rfl, hnext⟩ := h
  exact ⟨_, rfl, Refuses.after (TakesOnly.keyword "export" hstop) hnext⟩

/-!
# Declarations
-/

theorem DeclarationKind.begins (kind : DeclarationKind) (more : List Char) :
    Begins kindWords (kind.text ++ more) := by
  cases kind with
  | plain word isKind =>
      refine ⟨word, isKind, ?_⟩
      show word.toList <+: word.toList ++ [' '] ++ more
      rw [List.append_assoc]
      exact List.prefix_append _ _
  | constEnum =>
      exact ⟨"const", by decide, List.prefix_append _ _⟩
  | generator =>
      exact ⟨"function", by decide, List.prefix_append _ _⟩

theorem TakesOnly.blankGap (hblank : Stops isBlank rest)
    (hstar : Stops (fun ch => ch == '*') rest) : TakesOnly declarationGap [' '] () rest := by
  have hblanks : TakesOnly Matcher.blanks [' '] () rest := TakesOnly.blanks (by decide) hblank
  refine TakesOnly.orElse_right (Refuses.after hblanks (Refuses.bind (Refuses.letters ?_))) ?_
  · exact isPrefixOf_of_stops hstar []
  · exact TakesOnly.blanks1 (List.cons_ne_nil _ _) (by decide) hblank

theorem TakesOnly.starGap (hblank : Stops isBlank rest) :
    TakesOnly declarationGap (['*'] ++ [' ']) () rest := by
  have hstar : TakesOnly Matcher.blanks [] () (['*'] ++ [' '] ++ rest) :=
    TakesOnly.blanks rfl (stops_cons (by decide) _)
  refine TakesOnly.orElse ?_ (Refuses.blanks1 (stops_cons (by decide) _))
  show TakesOnly _ ([] ++ (['*'] ++ [' '])) _ _
  exact TakesOnly.bind hstar (TakesOnly.bind (TakesOnly.letters ['*'] _)
    (TakesOnly.blanks (by decide) hblank))

theorem Refuses.gap (hblank : Stops isBlank more) (hstar : Stops (fun ch => ch == '*') more) :
    Refuses declarationGap more := by
  have hblanks : TakesOnly Matcher.blanks [] () more := TakesOnly.blanks rfl hblank
  refine Refuses.orElse ?_ (Refuses.blanks1 hblank)
  show Refuses _ ([] ++ more)
  exact Refuses.after hblanks (Refuses.bind (Refuses.letters (isPrefixOf_of_stops hstar [])))

theorem Identifier.goes_on {name : Identifier} (hrest : Stops isIdentifierChar rest)
    (h : name.name ≠ "enum") {tail : List Char}
    (htail : "enum".toList ++ tail = name.chars ++ rest) {ch : Char}
    (hch : tail.head? = some ch) : isIdentifierChar ch = true := by
  have hname : name.chars = "enum".toList ++ tail.takeWhile isIdentifierChar := by
    rw [<- takeWhile_stops name.all_chars hrest, <- htail,
      List.takeWhile_append_of_pos (List.all_eq_true.mp (by decide))]
  cases hclass : isIdentifierChar ch with
  | true =>
      rfl
  | false =>
      have hstop : Stops isIdentifierChar tail := by
        intro other hother
        rw [hch] at hother
        cases hother
        exact hclass
      have hnone := takeWhile_stops (rfl : [].all isIdentifierChar = true) hstop
      rw [List.nil_append] at hnone
      rw [hnone, List.append_nil] at hname
      exact absurd (String.toList_inj.mp hname) h

theorem Refuses.enum_gap {next : Unit -> Matcher α} (name : Identifier)
    (hrest : Stops isIdentifierChar rest) (h : name.name ≠ "enum") :
    Refuses (Matcher.word "enum" >>= fun _ => declarationGap >>= next) (name.chars ++ rest) := by
  cases hword : "enum".toList.isPrefixOf (name.chars ++ rest) with
  | false =>
      exact Refuses.bind (Refuses.word hword)
  | true =>
      obtain ⟨tail, htail⟩ := List.isPrefixOf_iff_prefix.mp hword
      have hstops : forall {p : Char -> Bool},
          (forall ch, p ch = true -> isIdentifierChar ch = false) -> Stops p tail := by
        intro p hp ch hch
        cases hclass : p ch with
        | false =>
            rfl
        | true =>
            have hnot := hp ch hclass
            rw [Identifier.goes_on hrest h htail hch] at hnot
            cases hnot
      rw [<- htail]
      refine Refuses.after (TakesOnly.word "enum" tail) (Refuses.bind (Refuses.gap ?_ ?_))
      · exact hstops fun _ => isIdentifierChar_of_isBlank
      · refine hstops fun ch hch => ?_
        rw [beq_iff_eq.mp hch]
        decide

theorem takes_kind (kind : DeclarationKind) (name : Identifier) (f : String -> α)
    (hconst : forall isKind, kind = .plain "const" isKind ->
      Refuses (Matcher.word "enum" >>= fun _ => declarationGap >>= fun _ => identifier >>=
        fun name => give (f name)) (name.chars ++ rest))
    (hrest : Stops isIdentifierChar rest) :
    Takes
      (anyOf declarationKinds >>= fun _ => declarationGap >>= fun _ => identifier >>= fun name =>
        give (f name))
      (kind.text ++ name.chars) (f name.name) rest := by
  have hname : Takes (identifier >>= fun name => give (f name)) name.chars (f name.name) rest :=
    (TakesOnly.identifier name hrest).map.takes
  have hstar : Stops (fun ch => ch == '*') (name.chars ++ rest) := by
    refine name.stops_append (fun ch hch => ?_) rest
    refine beq_eq_false_iff_ne.mpr ?_
    rintro rfl
    cases hch
  have hblankGap : Takes (declarationGap >>= fun _ => identifier >>= fun name => give (f name))
      ([' '] ++ name.chars) (f name.name) rest :=
    Takes.bind (TakesOnly.blankGap (name.stops_blank rest) hstar).takes hname
  have hwords : forall word, word ∈ kindWords -> forall other, other ∈ kindWords -> other ≠ word ->
      Apart other [word] := by
    decide
  rw [declarationKinds, anyOf, orElse_bind]
  cases kind with
  | plain word isKind =>
      show Takes _ (word.toList ++ [' '] ++ name.chars) _ _
      rw [List.append_assoc]
      refine Takes.orElse_right ?_
        (Takes.bind (Takes.anyWord isKind (hwords word isKind) _) hblankGap)
      by_cases hword : word = "const"
      · subst hword
        rw [bind_assoc, <- List.append_assoc, List.append_assoc]
        refine Refuses.after (TakesOnly.keyword "const" (name.stops_blank rest)) ?_
        exact hconst isKind rfl
      · refine Refuses.bind (Refuses.bind (Refuses.keyword_apart
          (hwords word isKind "const" (by decide) (Ne.symm hword))
          ⟨word, List.mem_singleton_self _, ?_⟩))
        rw [List.append_assoc]
        exact List.prefix_append _ _
  | constEnum =>
      have hconst : Takes (do keyword "const"; Matcher.word "enum" : Matcher Unit)
          (("const".toList ++ [' ']) ++ "enum".toList) () ([' '] ++ name.chars ++ rest) :=
        Takes.bind (TakesOnly.keyword "const" (stops_cons (by decide) _)).takes
          (TakesOnly.word "enum" _).takes
      show Takes _ (("const".toList ++ [' ']) ++ ("enum".toList ++ [' ']) ++ name.chars) _ _
      rw [<- List.append_assoc, List.append_assoc]
      exact Takes.orElse (Takes.bind hconst hblankGap)
  | generator =>
      have hstarGap : Takes (declarationGap >>= fun _ => identifier >>= fun name => give (f name))
          ((['*'] ++ [' ']) ++ name.chars) (f name.name) rest :=
        Takes.bind (TakesOnly.starGap (name.stops_blank rest)).takes hname
      show Takes _ ("function".toList ++ (['*'] ++ [' ']) ++ name.chars) _ _
      rw [List.append_assoc]
      refine Takes.orElse_right (Refuses.bind (Refuses.bind (Refuses.keyword rfl))) ?_
      exact Takes.bind (Takes.anyWord (by decide) (hwords "function" (by decide)) _) hstarGap

theorem Declaration.begins (d : Declaration) (more : List Char) :
    Begins ("declare" :: "async" :: "abstract" :: kindWords) (d.read ++ more) := by
  unfold Declaration.read
  rw [List.append_assoc, List.append_assoc, List.append_assoc, List.append_assoc]
  exact (((d.kind.begins _).marked _ _).marked _ _).marked _ _

theorem takes_declarationForm (d : Declaration) (hrest : Stops isIdentifierChar rest) :
    TakesExported declarationForm d.read d.name.name (d.ending ++ rest) := by
  have hkind : Begins kindWords (d.kind.text ++ d.name.chars ++ (d.ending ++ rest)) := by
    rw [List.append_assoc]
    exact d.kind.begins _
  have habstract := hkind.marked d.abstractMark "abstract"
  have hasync := habstract.marked d.asyncMark "async"
  refine ⟨_, rfl, ?_⟩
  unfold Declaration.read
  rw [<- List.nil_append (marked d.asyncMark "async" ++ _)]
  refine Takes.bind (a := if d.declareMark then some () else none) ?_ ?_
  · rw [List.nil_append, List.append_assoc, List.append_assoc]
    exact Takes.marked (hasync.stops (by decide)) fun _ => Refuses.keyword_apart (by decide) hasync
  refine Takes.bind (a := none) ?_ ?_
  · rw [List.append_assoc, List.append_assoc]
    exact (TakesOnly.left_out (Refuses.keyword_apart (by decide) hasync)).takes
  refine Takes.bind (a := if d.asyncMark then some () else none) ?_ ?_
  · rw [List.append_assoc]
    exact Takes.marked (habstract.stops (by decide)) fun _ =>
      Refuses.keyword_apart (by decide) habstract
  refine Takes.bind (a := if d.abstractMark then some () else none) ?_ ?_
  · exact Takes.marked (hkind.stops (by decide)) fun _ => Refuses.keyword_apart (by decide) hkind
  exact takes_kind d.kind d.name _
    (fun isKind hkind => Refuses.enum_gap d.name (d.apart.append hrest) (d.unlikeKind isKind hkind))
    (d.apart.append hrest)

theorem exists_declarationForm_next :
    exists next, declarationForm = (indentation >>= fun _ => keyword "export" >>= next) ∧
      forall {words : List String} {more : List Char}, Begins words more ->
        (forall word, word ∈ "declare" :: "default" :: "async" :: "abstract" :: kindWords ->
          Apart word words) -> Refuses (next ()) more := by
  refine ⟨_, rfl, ?_⟩
  intro words more hbegins hapart
  have hkeyword : forall word,
      word ∈ "declare" :: "default" :: "async" :: "abstract" :: kindWords ->
      Refuses (keyword word) more :=
    fun word hword => Refuses.keyword_apart (hapart word hword) hbegins
  refine Refuses.optional_bind (hkeyword _ (by decide)) ?_
  refine Refuses.optional_bind (hkeyword _ (by decide)) ?_
  refine Refuses.optional_bind (hkeyword _ (by decide)) ?_
  refine Refuses.optional_bind (hkeyword _ (by decide)) (Refuses.bind (Refuses.anyOf ?_))
  intro kind hkind
  rcases List.mem_cons.mp hkind with rfl | hkind
  · exact Refuses.bind (hkeyword "const" (by decide))
  · obtain ⟨word, hword, rfl⟩ := List.mem_map.mp hkind
    exact Refuses.word_apart (hapart word (by simp [kindWords, hword])) hbegins

theorem refuses_declarationForm {words : List String} (hbegins : Begins words more)
    (hapart : forall word, word ∈ "declare" :: "default" :: "async" :: "abstract" :: kindWords ->
      Apart word words) : RefusesExported declarationForm more := by
  obtain ⟨next, hform, hnext⟩ := exists_declarationForm_next
  exact ⟨next, hform, hnext hbegins hapart⟩

theorem refuses_declarationForm_typeList (clause : List Char) :
    RefusesExported declarationForm (("type".toList ++ [' ']) ++ ('{' :: clause)) := by
  have htype : Begins ["type"] (("type".toList ++ [' ']) ++ ('{' :: clause)) := by
    refine ⟨"type", List.mem_singleton_self _, ?_⟩
    rw [List.append_assoc]
    exact List.prefix_append _ _
  refine ⟨_, rfl, Refuses.optional_bind (Refuses.keyword_apart (by decide) htype) ?_⟩
  refine Refuses.optional_bind (Refuses.keyword_apart (by decide) htype) ?_
  refine Refuses.optional_bind (Refuses.keyword_apart (by decide) htype) ?_
  refine Refuses.optional_bind (Refuses.keyword_apart (by decide) htype) (Refuses.anyOf_bind ?_)
  intro kind hkind
  rcases List.mem_cons.mp hkind with rfl | hkind
  · exact Refuses.bind (Refuses.bind (Refuses.keyword_apart (by decide) htype))
  obtain ⟨word, hword, rfl⟩ := List.mem_map.mp hkind
  by_cases hsame : word = "type"
  · subst hsame
    rw [List.append_assoc]
    refine Refuses.after (TakesOnly.word "type" _) ?_
    refine Refuses.after
      (TakesOnly.blankGap (stops_cons (by decide) _) (stops_cons (by decide) _)) ?_
    exact Refuses.bind (Refuses.identifier (stops_cons (by decide) _))
  · have hapart : forall other, other ∈ kindWords -> other ≠ "type" -> Apart other ["type"] := by
      decide
    exact Refuses.bind (Refuses.word_apart (hapart word hword hsame) htype)

/-!
# Default exports
-/

theorem takes_defaultForm (hrest : Stops isWordChar rest) :
    TakesExported defaultForm "default".toList () rest := by
  refine ⟨_, rfl, fun behind => ?_⟩
  have hedge : Matcher.wordEdge ⟨"default".toList.reverse ++ behind, rest⟩ = _ :=
    @wordEdge_eq rest "defaul".toList 't' (by decide) hrest behind
  exact head?_flatMap ((TakesOnly.word "default" rest).takes behind) (congrArg List.head? hedge)

theorem refuses_defaultForm {words : List String} (hapart : Apart "default" words)
    (hbegins : Begins words more) : RefusesExported defaultForm more :=
  ⟨_, rfl, Refuses.bind (Refuses.word_apart hapart hbegins)⟩

/-!
# Lists and stars
-/

/-- Behind the word `export`, and the word `type`, the form must read this sign. -/
def OpensWith (sign : Char) (form : Matcher α) : Prop :=
  exists next,
    form = (indentation >>= fun _ => keyword "export" >>= fun _ =>
      optional (keyword "type") >>= next) ∧
    forall mark text, Stops (fun ch => ch == sign) text -> Refuses (next mark) text

theorem opensWith_bracedForm : OpensWith '{' bracedForm :=
  ⟨_, rfl, fun _ _ h => Refuses.bind (Refuses.braced (isPrefixOf_of_stops h []))⟩

theorem opensWith_starForm : OpensWith '*' starForm :=
  ⟨_, rfl, fun _ _ h => Refuses.bind (Refuses.letters (isPrefixOf_of_stops h []))⟩

theorem OpensWith.refuses {sign : Char} {form : Matcher α} (h : OpensWith sign form)
    {words : List String} (hapart : Apart "type" words) (hbegins : Begins words more)
    (hsign : Stops (fun ch => ch == sign) more) : RefusesExported form more := by
  obtain ⟨next, rfl, hnext⟩ := h
  exact ⟨_, rfl, Refuses.optional_bind (Refuses.keyword_apart hapart hbegins) (hnext _ _ hsign)⟩

theorem OpensWith.refuses_marked {sign : Char} {form : Matcher α} (h : OpensWith sign form)
    (hmark : ('t' == sign) = false) (hblank : Stops isBlank more)
    (hsign : Stops (fun ch => ch == sign) more) :
    RefusesExported form (("type".toList ++ [' ']) ++ more) := by
  obtain ⟨next, rfl, hnext⟩ := h
  refine ⟨_, rfl, Refuses.optional_after (TakesOnly.keyword "type" hblank) (hnext _ _ hsign) ?_⟩
  exact hnext _ _ (@stops_cons (fun ch => ch == sign) 't' hmark _)

theorem Declaration.begins_or_type (d : Declaration) (more : List Char) :
    Begins ("declare" :: "async" :: "abstract" :: kindWords.erase "type") (d.read ++ more) ∨
      d.read = ("type".toList ++ [' ']) ++ d.name.chars := by
  unfold Declaration.read
  rw [List.append_assoc, List.append_assoc, List.append_assoc]
  cases habstract : d.abstractMark with
  | true =>
      exact Or.inl (((begins_marked "abstract" _ _).marked _ _).marked _ _)
  | false =>
  cases hasync : d.asyncMark with
  | true =>
      exact Or.inl ((begins_marked "async" _ _).marked _ _)
  | false =>
  cases hdeclare : d.declareMark with
  | true =>
      exact Or.inl (begins_marked "declare" _ _)
  | false =>
  have hwords : forall word, word ∈ kindWords -> word ≠ "type" ->
      word ∈ kindWords.erase "type" := by
    decide
  have hmarks : forall {words : List String} {text : List Char}, Begins words text ->
      Begins ("declare" :: "async" :: "abstract" :: words) text :=
    fun ⟨word, hword, hprefix⟩ =>
      ⟨word, List.mem_cons_of_mem _ (List.mem_cons_of_mem _ (List.mem_cons_of_mem _ hword)),
        hprefix⟩
  cases hkind : d.kind with
  | plain word isKind =>
      by_cases htype : word = "type"
      · subst htype
        exact Or.inr rfl
      · refine Or.inl (hmarks ⟨word, hwords word isKind htype, ?_⟩)
        show word.toList <+: word.toList ++ [' '] ++ d.name.chars ++ more
        rw [List.append_assoc, List.append_assoc]
        exact List.prefix_append _ _
  | constEnum =>
      exact Or.inl (hmarks ⟨"const", by decide, List.prefix_append _ _⟩)
  | generator =>
      exact Or.inl (hmarks ⟨"function", by decide, List.prefix_append _ _⟩)

theorem OpensWith.refuses_declaration {sign : Char} {form : Matcher α} (h : OpensWith sign form)
    (hmark : isIdentifierChar sign = false) (d : Declaration) (more : List Char) :
    RefusesExported form (d.read ++ more) := by
  have hchar : forall ch, isIdentifierChar ch = true -> (ch == sign) = false := by
    intro ch hch
    refine beq_eq_false_iff_ne.mpr ?_
    rintro rfl
    rw [hch] at hmark
    cases hmark
  rcases d.begins_or_type more with hbegins | htype
  · refine h.refuses (by decide) hbegins ?_
    have hfirst : forall word,
        word ∈ "declare" :: "async" :: "abstract" :: kindWords.erase "type" ->
          word.toList.head?.any isIdentifierChar = true := by
      decide
    refine hbegins.stops fun word hword => ?_
    obtain ⟨ch, hch, hclass⟩ := (Option.any_eq_true ..).mp (hfirst word hword)
    rw [hch, Option.any_some, hchar ch hclass]
    rfl
  · rw [htype, List.append_assoc]
    refine h.refuses_marked (hchar 't' (by decide)) (d.name.stops_blank more) ?_
    exact d.name.stops_append
      (fun ch hch => hchar ch (isIdentifierChar_of_isIdentifierStart hch)) more

theorem takes_bracedForm_clause (typeOnly : Bool) {clause : List Char} (hbrace : '}' ∉ clause)
    (source : Option (Source × Quote))
    (hend : source = none -> Refuses (do Matcher.blanks; fromSource : Matcher String) rest) :
    TakesExported bracedForm
      (marked typeOnly "type" ++ ('{' :: (clause ++ ['}']) ++ sourceText source))
      (exportedNames clause, source.map (·.1.path)) rest := by
  have hsource : Takes (optional (do Matcher.blanks; fromSource : Matcher String))
      (sourceText source) (source.map (·.1.path)) rest := by
    cases source with
    | none =>
        exact (TakesOnly.left_out (hend rfl)).takes
    | some place =>
        refine Takes.optional (Takes.bind (TakesOnly.blanks (by decide) ?_).takes
          (TakesOnly.fromSource place.1 place.2 rest).takes)
        unfold Source.from
        exact stops_cons (by decide) _
  refine ⟨_, rfl, ?_⟩
  refine Takes.bind (Takes.marked (stops_cons (by decide) _) fun _ => Refuses.keyword rfl) ?_
  refine Takes.bind (TakesOnly.braced hbrace _).takes ?_
  exact hsource.map

theorem takes_bracedForm (typeOnly : Bool) (list : Items Specifier)
    (source : Option (Source × Quote))
    (hend : source = none -> Refuses (do Matcher.blanks; fromSource : Matcher String) rest) :
    TakesExported bracedForm
      (marked typeOnly "type" ++ ('{' :: (list.text Specifier.text ++ ['}']) ++ sourceText source))
      (list.items.map fun p => p.item.localName, source.map (·.1.path)) rest := by
  have hbrace : '}' ∉ list.text Specifier.text := brace_not_mem (list.all_text Specifier.all_text)
  have hclause := takes_bracedForm_clause typeOnly hbrace source hend
  rwa [exportedNames_text] at hclause

theorem takes_starForm (typeOnly : Bool) (name : Option Identifier) (source : Source) (q : Quote)
    (rest : List Char) :
    TakesExported starForm
      (marked typeOnly "type" ++ (['*'] ++ ([' '] ++ (starName name ++ source.from q))))
      (name.map (·.name), source.path) rest := by
  have hfrom : forall more, Stops isBlank (source.from q ++ more) := by
    intro more
    unfold Source.from
    exact stops_cons (by decide) _
  have hname : Takes
      (optional do
        keyword "as"
        let name <- identifier
        Matcher.blanks1
        Matcher.give name)
      (starName name) (name.map (·.name)) (source.from q ++ rest) := by
    cases name with
    | none =>
        refine (TakesOnly.left_out (Refuses.bind (Refuses.keyword ?_))).takes
        unfold Source.from
        rfl
    | some name =>
        refine Takes.optional (Takes.bind (TakesOnly.keyword "as" ?_).takes ?_)
        · rw [List.append_assoc]
          exact name.stops_blank _
        refine Takes.bind (TakesOnly.identifier name (stops_cons (by decide) _)).takes ?_
        exact (TakesOnly.map
          (TakesOnly.blanks1 (List.cons_ne_nil _ _) (by decide) (hfrom rest))).takes
  have hblanks : Stops isBlank (starName name ++ source.from q ++ rest) := by
    cases name with
    | none =>
        exact hfrom rest
    | some name =>
        exact stops_cons (by decide) _
  refine ⟨_, rfl, ?_⟩
  refine Takes.bind (Takes.marked (stops_cons (by decide) _) fun _ => Refuses.keyword rfl) ?_
  refine Takes.bind (TakesOnly.letters ['*'] _).takes ?_
  refine Takes.bind (TakesOnly.blanks (by decide) hblanks).takes ?_
  exact Takes.bind hname (TakesOnly.fromSource source q rest).map.takes

/-!
# Assignments
-/

theorem takes_assignment (hrest : rest.head? ≠ some '=') :
    Takes assignment ([' '] ++ ['=']) () rest := by
  have hnext : TakesOnly (Matcher.notNext '=') [] () rest :=
    TakesOnly.guard fun _ => bne_iff_ne.mpr hrest
  show Takes _ ([' '] ++ (['='] ++ [])) _ _
  refine Takes.bind (TakesOnly.blanks (by decide) (stops_cons (by decide) _)).takes ?_
  exact Takes.bind (TakesOnly.letters ['='] _).takes hnext.takes

theorem takes_assignedForm (viaModule : Bool) (name : Identifier) (value rest : List Char) :
    TakesIndented assignedForm
      ((if viaModule then "module.".toList else []) ++
        ("exports.".toList ++ (name.chars ++ ([' '] ++ ['=']))))
      name.name (' ' :: value ++ rest) := by
  refine ⟨_, rfl, ?_⟩
  refine Takes.bind (a := if viaModule then some () else none) ?_ ?_
  · cases viaModule with
    | true =>
        rw [if_pos rfl, if_pos rfl]
        exact Takes.optional (TakesOnly.word "module." _).takes
    | false =>
        exact (TakesOnly.left_out (Refuses.word rfl)).takes
  refine Takes.bind (TakesOnly.word "exports." _).takes ?_
  refine Takes.bind (TakesOnly.identifier name (stops_cons (by decide) _)).takes ?_
  refine Takes.map (takes_assignment ?_)
  simp

theorem Property.first?_objectKey (p : Property) (hword : p.key.chars.getLast? ≠ some '$') :
    objectKey.first? p.text = some p.key.name := by
  have hrest : forall {q : Char -> Bool}, q ':' = false -> Stops q p.valueText :=
    fun h => p.stops_valueText h
  rw [text, SourceModule.first?_objectKey p.key (hrest (by decide)) (hrest (by decide)),
    (readKey?_eq_self_iff p.key).mpr hword]

theorem objectKeys_text (list : Items Property)
    (hword : forall p, p ∈ list.items -> p.item.key.chars.getLast? ≠ some '$') :
    objectKeys (list.text Property.text) = list.items.map fun p => p.item.key.name := by
  show (clauseItems _).filterMap _ = _
  rw [clauseItems_text Property.isItem_text, List.filterMap_map, <- List.filterMap_eq_map]
  refine List.filterMap_congr fun p hp => ?_
  rw [Function.comp_apply, Function.comp_apply, p.item.first?_objectKey (hword p hp)]

theorem takes_assignedModuleForm_clause {clause : List Char} (hbrace : '}' ∉ clause)
    (rest : List Char) :
    TakesIndented assignedModuleForm
      ("module.exports".toList ++ (([' '] ++ ['=']) ++ ([' '] ++ ('{' :: (clause ++ ['}'])))))
      (objectKeys clause) rest := by
  refine ⟨_, rfl, Takes.bind (TakesOnly.word "module.exports" _).takes ?_⟩
  refine Takes.bind (takes_assignment (by simp)) ?_
  refine Takes.bind (TakesOnly.blanks (by decide) (stops_cons (by decide) _)).takes ?_
  exact (Takes.optional (TakesOnly.braced hbrace rest).takes).map

theorem takes_assignedModuleForm_object (list : Items Property)
    (hword : forall p, p ∈ list.items -> p.item.key.chars.getLast? ≠ some '$') (rest : List Char) :
    TakesIndented assignedModuleForm
      ("module.exports".toList ++ (([' '] ++ ['=']) ++
        ([' '] ++ ('{' :: (list.text Property.text ++ ['}'])))))
      (list.items.map fun p => p.item.key.name) rest := by
  rw [<- objectKeys_text list hword]
  exact takes_assignedModuleForm_clause (brace_not_mem (list.all_text Property.all_text)) rest

theorem takes_assignedModuleForm_whole {value : List Char}
    (hvalue : exists ch tail, value = ch :: tail ∧ isBlank ch = false ∧ ch ≠ '{')
    (rest : List Char) :
    TakesIndented assignedModuleForm ("module.exports".toList ++ (([' '] ++ ['=']) ++ [' '])) []
      (value ++ rest) := by
  obtain ⟨ch, tail, rfl, hblank, hopen⟩ := hvalue
  have hbraced : Refuses braced (ch :: tail ++ rest) :=
    Refuses.braced
      (isPrefixOf_of_stops (@stops_cons (fun c => c == '{') ch (by simpa using hopen) _) [])
  refine ⟨_, rfl, Takes.bind (TakesOnly.word "module.exports" _).takes ?_⟩
  rw [<- List.append_nil [' ']]
  refine Takes.bind (takes_assignment (by simp)) ?_
  refine Takes.bind (TakesOnly.blanks (by decide) (stops_cons hblank _)).takes ?_
  exact (TakesOnly.left_out hbraced).map.takes

theorem refuses_assignedForm_module (more : List Char) :
    RefusesIndented assignedForm ("module.exports".toList ++ ([' '] ++ more)) := by
  have hword : "module.exports".toList = "module.".toList ++ "exports".toList := by
    decide
  refine ⟨_, rfl, ?_⟩
  rw [hword, List.append_assoc]
  exact Refuses.optional_after (TakesOnly.word "module." _) (Refuses.bind (Refuses.word rfl))
    (Refuses.bind (Refuses.word rfl))

theorem refuses_assignedModuleForm_property (viaModule : Bool) (more : List Char) :
    RefusesIndented assignedModuleForm
      ((if viaModule then "module.".toList else []) ++ ("exports.".toList ++ more)) := by
  refine ⟨_, rfl, ?_⟩
  cases viaModule with
  | true =>
      have hblanks : TakesOnly Matcher.blanks [] () (['.'] ++ more) :=
        TakesOnly.blanks rfl (stops_cons (by decide) _)
      have hassignment : Refuses assignment ([] ++ (['.'] ++ more)) :=
        Refuses.after hblanks (Refuses.bind (Refuses.letters rfl))
      have hword : "module.".toList ++ "exports.".toList = "module.exports".toList ++ ['.'] := by
        decide
      rw [if_pos rfl, <- List.append_assoc, hword, List.append_assoc]
      exact Refuses.after (TakesOnly.word "module.exports" _) (Refuses.bind hassignment)
  | false =>
      exact Refuses.bind (Refuses.word rfl)

/-!
# Words in a list
-/

/-- A name with the word `as`, a colon or nothing behind it, or a text that is marked. -/
inductive NamedItem : List Char -> Prop
  | marked (more : List Char) : NamedItem (("type".toList ++ [' ']) ++ more)
  | name (i : Identifier) : NamedItem i.chars
  | renamed (i : Identifier) (more : List Char) :
      NamedItem (i.chars ++ ([' '] ++ ("as ".toList ++ more)))
  | valued (i : Identifier) (more : List Char) : NamedItem (i.chars ++ (':' :: more))

theorem Specifier.namedItem (s : Specifier) : NamedItem s.text := by
  have hmark : s.marked = false -> s.text = s.core := by
    intro hmarked
    rw [text, mark, hmarked]
    rfl
  cases hmarked : s.marked with
  | true =>
      have htext : s.text = ("type".toList ++ [' ']) ++ s.core := by
        rw [text, mark, hmarked]
        rfl
      rw [htext]
      exact NamedItem.marked _
  | false =>
      rw [hmark hmarked, core, renamedText]
      cases s.renamed with
      | none =>
          rw [List.append_nil]
          exact NamedItem.name s.name
      | some other =>
          exact NamedItem.renamed s.name other.chars

theorem Specifier.lineEnd_not_mem (s : Specifier) : '\n' ∉ s.text := by
  have hname := s.name.not_mem (by decide : isIdentifierChar '\n' = false)
  have hrenamed : '\n' ∉ s.renamedText := by
    unfold renamedText
    split
    · exact List.not_mem_nil
    · next other _ =>
        simp [other.not_mem (by decide : isIdentifierChar '\n' = false)]
  have hmark : '\n' ∉ s.mark := by
    unfold mark
    split <;> decide
  simp [text, core, hname, hrenamed, hmark]

theorem Property.namedItem (p : Property) : NamedItem p.text := by
  rw [text, valueText]
  cases p.value with
  | none =>
      rw [List.append_nil]
      exact NamedItem.name p.key
  | some other =>
      exact NamedItem.valued p.key _

theorem Property.lineEnd_not_mem (p : Property) : '\n' ∉ p.text := by
  have hkey := p.key.not_mem (by decide : isIdentifierChar '\n' = false)
  have hvalue : '\n' ∉ p.valueText := by
    unfold valueText
    split
    · exact List.not_mem_nil
    · next other _ =>
        simp [other.not_mem (by decide : isIdentifierChar '\n' = false)]
  simp [text, hkey, hvalue]

theorem EndsItem.stops {p : Char -> Bool} {ends : List Char} (h : EndsItem ends)
    (hcomma : p ',' = false) (hbrace : p '}' = false) : Stops p ends := by
  obtain ⟨ch, tail, rfl, hch⟩ := h
  refine stops_cons ?_ tail
  rcases hch with rfl | rfl
  · exact hcomma
  · exact hbrace

theorem Refuses.keyword_name {spelled : String} {next : Unit -> Matcher α} (i : Identifier)
    {blanks tail : List Char} (hspelled : spelled.toList.all isIdentifierChar = true)
    (hblanks : blanks.all isBlank = true) (hchar : Stops isIdentifierChar (blanks ++ tail))
    (hstop : Stops isBlank tail) (hnext : blanks ≠ [] -> Refuses (next ()) tail) :
    Refuses (SourceModule.keyword spelled >>= next) (i.chars ++ (blanks ++ tail)) := by
  by_cases hname : i.name = spelled
  · cases blanks with
    | nil =>
        exact Refuses.bind (Refuses.keyword_identifier i hspelled hchar (Or.inr hstop))
    | cons blank blanks =>
        have hkeyword : TakesOnly (SourceModule.keyword spelled)
            (spelled.toList ++ (blank :: blanks)) () tail :=
          TakesOnly.bind (TakesOnly.word _ _)
            (TakesOnly.blanks1 (List.cons_ne_nil _ _) hblanks hstop)
        rw [Identifier.chars, hname, <- List.append_assoc]
        exact Refuses.after hkeyword (hnext (List.cons_ne_nil _ _))
  · exact Refuses.bind (Refuses.keyword_identifier i hspelled hchar (Or.inl hname))

theorem stops_of_blanks {blanks : List Char} (h : blanks.all isBlank = true) :
    Stops isIdentifierChar blanks := by
  cases blanks with
  | nil =>
      exact stops_nil _
  | cons blank blanks =>
      rw [List.all_cons, Bool.and_eq_true] at h
      exact stops_cons (isIdentifierChar_of_isBlank h.1) _

/-- Behind the word `export`, the form reads neither the word `as` nor the end of an item. -/
def PassesItems (form : Matcher α) : Prop :=
  exists next, form = (indentation >>= fun _ => keyword "export" >>= next) ∧
    (forall more, Refuses (next ()) ("as ".toList ++ more)) ∧
      forall ends, EndsItem ends -> Refuses (next ()) ends

theorem begins_of_endsItem {ends : List Char} (h : EndsItem ends) : Begins [",", "\x7d"] ends := by
  obtain ⟨ch, tail, rfl, hch⟩ := h
  rcases hch with rfl | rfl
  · exact ⟨",", by decide, List.prefix_append _ _⟩
  · exact ⟨"\x7d", by decide, List.prefix_append _ _⟩

theorem passesItems_declarationForm : PassesItems declarationForm := by
  obtain ⟨next, hform, hnext⟩ := exists_declarationForm_next
  refine ⟨next, hform, fun more => ?_, fun ends hends => ?_⟩
  · exact hnext ⟨"as ", List.mem_singleton_self _, List.prefix_append _ _⟩ (by decide)
  · exact hnext (begins_of_endsItem hends) (by decide)

theorem passesItems_defaultForm : PassesItems defaultForm := by
  refine ⟨_, rfl, fun more => Refuses.bind (Refuses.word rfl), fun ends hends => ?_⟩
  exact Refuses.bind (Refuses.word_apart (by decide) (begins_of_endsItem hends))

theorem PassesItems.exists_next {form : Matcher α} (h : PassesItems form) :
    exists next, form = (indentation >>= next) ∧
      (forall text, Stops (fun c => c == 'e') text -> Refuses (next ()) text) ∧
      forall item behind ends, NamedItem item -> behind.all isBlank = true -> EndsItem ends ->
        Refuses (next ()) (item ++ (behind ++ ends)) := by
  obtain ⟨next, rfl, has, hends⟩ := h
  refine ⟨_, rfl, ?_, ?_⟩
  · intro text hstop
    exact Refuses.bind (Refuses.keyword (isPrefixOf_of_stops hstop "xport".toList))
  · intro item behind ends hitem hbehind hend
    have hstop : Stops isBlank ends := hend.stops (by decide) (by decide)
    have hchar : Stops isIdentifierChar ends := hend.stops (by decide) (by decide)
    cases hitem with
    | marked more =>
        exact Refuses.bind (Refuses.keyword rfl)
    | name i =>
        exact Refuses.keyword_name i (by decide) hbehind ((stops_of_blanks hbehind).append hchar)
          hstop fun _ => hends ends hend
    | renamed i more =>
        rw [List.append_assoc, List.append_assoc, List.append_assoc]
        refine Refuses.keyword_name i (by decide) (by decide) (stops_cons (by decide) _)
          (stops_cons (by decide) _) fun _ => has _
    | valued i more =>
        rw [List.append_assoc, List.cons_append, <- List.nil_append (':' :: _)]
        exact Refuses.keyword_name i (by decide) rfl (stops_cons (by decide) _)
          (stops_cons (by decide) _) fun hne => absurd rfl hne

theorem stops_blank_e {ch : Char} (h : isBlank ch = true) (tail : List Char) :
    Stops (fun c => c == 'e') (ch :: tail) := by
  have hch : (ch == 'e') = false := by
    refine beq_eq_false_iff_ne.mpr ?_
    rintro rfl
    cases h
  exact @stops_cons (fun c => c == 'e') ch hch tail

theorem PassesItems.quietInside {form : Matcher α} (h : PassesItems form) (hform : BeginsLine form)
    {write : β -> List Char} (hwrite : forall item, IsItem (write item))
    (hline : forall item, '\n' ∉ write item) (hnamed : forall item, NamedItem (write item))
    (l : Items β) (htext : OneLineBut (l.text write) more) : QuietInside form more rest := by
  obtain ⟨next, rfl, hother, hitem⟩ := h.exists_next
  refine htext.quietInside hform fun before after tail hsplit => ?_
  refine Items.refuses_inside hwrite hline ?_ ?_ ?_ l hsplit tail
  · exact fun ch more hblank => hother _ (stops_blank_e hblank more)
  · exact fun ends hend => hother ends (hend.stops (by decide) (by decide))
  · exact fun item behind ends hbehind hend => hitem _ behind ends (hnamed item) hbehind hend

end SourceModule
end Joinery
