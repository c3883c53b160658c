import Joinery.Proofs.Sorting
import Joinery.Proofs.SourceModule.Comments
import Joinery.Proofs.SourceModule.EmptyLine

/-!
# Imports as they are written

## Reading back what an import takes

Import statements and `require` calls on lines of their own are read back one by one: each
form finds its own statements, whole and at their start, and nothing in the others.
-/

namespace Joinery
namespace SourceModule

open Text Matcher

/-!
# The grammar
-/

/-- What stands in the braces or for them: a list of names, or a name for the whole module. -/
inductive Selected where
  | names (list : Items Specifier)
  | whole (name : Identifier)

/-- What an import statement takes. -/
inductive Taken where
  | default (name : Identifier)
  | selected (selection : Selected)
  | both (name : Identifier) (selection : Selected)

/-- The left side of a `require` call. -/
inductive Target where
  | default (name : Identifier)
  | names (list : Items Property)

/--
An import statement or a `require` call, without its source.  A default import on its own that is
not marked with the word `type` cannot have this word for its name.
-/
inductive ImportBody where
  | takes (typeOnly : Bool) (taken : Taken)
      (unlikeMark : typeOnly = false -> forall name, taken = .default name -> name.name ≠ "type")
  | runs
  | requires (word : String) (target : Target) (isWord : word ∈ ["const", "let", "var"])
  | calls

/-- A statement with what may differ in its writing. -/
structure ImportStatement where
  indent : List Char
  body : ImportBody
  source : Source
  quote : Quote
  semicolon : Bool
  indented : indent.all isIndent = true

def Selected.text : Selected -> List Char
  | names list => '{' :: (list.text Specifier.text ++ ['}'])
  | whole name => ['*'] ++ ([' '] ++ (("as".toList ++ [' ']) ++ name.chars))

def Taken.defaultText : Taken -> List Char
  | default name => name.chars ++ [' ']
  | selected _ => []
  | both name _ => name.chars ++ [',', ' ']

def Taken.selectedText : Taken -> List Char
  | default _ => []
  | selected selection => selection.text
  | both _ selection => selection.text

def Taken.gap : Taken -> List Char
  | default _ => []
  | selected _ => [' ']
  | both _ _ => [' ']

def Taken.text (t : Taken) (more : List Char) : List Char :=
  t.defaultText ++ (t.selectedText ++ (t.gap ++ more))

def Target.text : Target -> List Char
  | default name => name.chars
  | names list => '{' :: (list.text Property.text ++ ['}'])

def Source.call (s : Source) (q : Quote) : List Char :=
  "require".toList ++ (['('] ++ (s.quoted q ++ [')']))

/-- The statement up to its source and the closing parenthesis behind it. -/
def ImportBody.read (source : Source) (q : Quote) : ImportBody -> List Char
  | takes typeOnly taken _ =>
      ("import".toList ++ [' ']) ++ (marked typeOnly "type" ++
        taken.text (source.from q))
  | runs => "import".toList ++ ([' '] ++ source.quoted q)
  | requires word target _ =>
      (word.toList ++ [' ']) ++ (target.text ++ ([' '] ++ (['='] ++ ([' '] ++ source.call q))))
  | calls => source.call q

def ImportStatement.text (s : ImportStatement) : List Char :=
  s.indent ++ (s.body.read s.source s.quote ++ semicolonText s.semicolon)

def Selected.bindings (typeOnly : Bool) : Selected -> List Binding
  | names list => list.items.map fun p => p.item.binding typeOnly
  | whole name => [{ imported := .whole, localName := name.name, typeOnly := typeOnly }]

def Identifier.defaultBinding (typeOnly : Bool) (name : Identifier) : Binding :=
  { imported := .named defaultExport, localName := name.name, typeOnly := typeOnly }

def Taken.bindings (typeOnly : Bool) : Taken -> List Binding
  | default name => [name.defaultBinding typeOnly]
  | selected selection => selection.bindings typeOnly
  | both name selection => name.defaultBinding typeOnly :: selection.bindings typeOnly

def Target.bindings : Target -> List Binding
  | default name => [name.defaultBinding false]
  | names list => list.items.map fun p => p.item.binding

def ImportBody.bindings : ImportBody -> List Binding
  | takes typeOnly taken _ => taken.bindings typeOnly
  | runs => []
  | requires _ target _ => target.bindings
  | calls => []

/-- Is the whole statement marked with the word `type`? -/
def ImportBody.typeOnly : ImportBody -> Bool
  | takes typeOnly _ _ => typeOnly
  | runs => false
  | requires _ _ _ => false
  | calls => false

def ImportStatement.record (s : ImportStatement) (line : Nat) : Import :=
  { source := s.source.path
    line := line
    bindings := s.body.bindings
    typeOnly := s.body.typeOnly }

/-!
# Each form reads its own statements
-/

variable {rest : List Char}

theorem Selected.brace_not_mem (list : Items Specifier) : '}' ∉ list.text Specifier.text :=
  SourceModule.brace_not_mem (list.all_text Specifier.all_text)

theorem Selected.takes_selection (s : Selected) (h : Stops isIdentifierChar rest) :
    exists selection, Takes SourceModule.selection s.text selection rest ∧
      forall typeOnly default, bindingsOf typeOnly default (some selection) =
        bindingsOf typeOnly default none ++ s.bindings typeOnly := by
  cases s with
  | names list =>
      refine ⟨.names (list.text Specifier.text), ?_, ?_⟩
      · exact Takes.orElse (TakesOnly.braced (Selected.brace_not_mem list) rest).map.takes
      · intro typeOnly default
        simp only [bindingsOf, importedNames_text, Selected.bindings, List.append_nil]
  | whole name =>
      refine ⟨.whole name.name, ?_, ?_⟩
      · refine Takes.orElse_right (Refuses.bind (Refuses.braced rfl)) ?_
        refine Takes.bind (TakesOnly.letters ['*'] _).takes ?_
        refine Takes.bind (TakesOnly.blanks rfl (stops_cons (by decide) _)).takes ?_
        refine Takes.bind (TakesOnly.keyword "as" (name.stops_blank rest)).takes ?_
        exact (Takes.anyIdentifier name h).map
      · intro typeOnly default
        simp only [bindingsOf, Selected.bindings, List.append_nil]

theorem Selected.stops {p : Char -> Bool} (hopen : p '{' = false) (hstar : p '*' = false)
    (s : Selected) (rest : List Char) : Stops p (s.text ++ rest) := by
  cases s with
  | names list =>
      exact stops_cons hopen _
  | whole name =>
      exact stops_cons hstar _

theorem Taken.stops {p : Char -> Bool}
    (hstart : forall ch, isIdentifierStart ch = true -> p ch = false)
    (hopen : p '{' = false) (hstar : p '*' = false) (t : Taken) (more : List Char) :
    Stops p (t.text more) := by
  cases t with
  | default name =>
      rw [Taken.text, Taken.defaultText, List.append_assoc]
      exact name.stops_append hstart _
  | selected selection =>
      exact selection.stops hopen hstar _
  | both name selection =>
      rw [Taken.text, Taken.defaultText, List.append_assoc]
      exact name.stops_append hstart _

theorem blank_of_isIdentifierStart {ch : Char} (h : isIdentifierStart ch = true) :
    isBlank ch = false := by
  cases hblank : isBlank ch with
  | false =>
      rfl
  | true =>
      have hchar := isIdentifierChar_of_isIdentifierStart h
      rw [isIdentifierChar_of_isBlank hblank] at hchar
      cases hchar

theorem Taken.takes_mark {typeOnly : Bool} (t : Taken)
    (h : typeOnly = false -> forall name, t = .default name -> name.name ≠ "type")
    (more : List Char) :
    Takes (optional (keyword "type")) (marked typeOnly "type")
      (if typeOnly then some () else none) (t.text more) := by
  refine Takes.marked (t.stops (fun _ => blank_of_isIdentifierStart) (by decide) (by decide) more)
    fun hunmarked => ?_
  cases t with
  | default name =>
      rw [Taken.text, Taken.defaultText, List.append_assoc]
      exact Refuses.keyword_identifier name (by decide) (stops_cons (by decide) _)
        (Or.inl (h hunmarked name rfl))
  | selected selection =>
      cases selection with
      | names list =>
          exact Refuses.keyword rfl
      | whole name =>
          exact Refuses.keyword rfl
  | both name selection =>
      rw [Taken.text, Taken.defaultText, List.append_assoc]
      exact Refuses.keyword_identifier name (by decide) (stops_cons (by decide) _)
        (Or.inr (stops_cons (by decide) _))

def Taken.default? : Taken -> Option String
  | default name => some name.name
  | selected _ => none
  | both name _ => some name.name

theorem Taken.takes_default (t : Taken) (rest : List Char) :
    Takes (optional defaultName) t.defaultText t.default?
      (t.selectedText ++ (t.gap ++ ("from".toList ++ rest))) := by
  cases t with
  | default name =>
      have hcomma : Refuses (do Matcher.letters [',']; Matcher.blanks : Matcher Unit)
          ("from".toList ++ rest) := Refuses.bind (Refuses.letters rfl)
      have hblank : TakesOnly Matcher.blanks [' '] () ("from".toList ++ rest) :=
        TakesOnly.blanks (by decide) (stops_cons (by decide) _)
      refine Takes.optional (Takes.bind (Takes.anyIdentifier name (stops_cons (by decide) _)) ?_)
      show Takes _ ([' '] ++ []) _ _
      exact Takes.bind hblank.takes (TakesOnly.map (TakesOnly.left_out hcomma)).takes
  | selected selection =>
      refine (TakesOnly.left_out (Refuses.bind (Refuses.anyIdentifier ?_))).takes
      exact selection.stops (by decide) (by decide) _
  | both name selection =>
      have hstop := selection.stops (by decide : isBlank '{' = false) (by decide)
        ([' '] ++ ("from".toList ++ rest))
      have hcomma : TakesOnly (do Matcher.letters [',']; Matcher.blanks : Matcher Unit)
          ([','] ++ [' ']) () (selection.text ++ ([' '] ++ ("from".toList ++ rest))) :=
        TakesOnly.bind (TakesOnly.letters [','] _) (TakesOnly.blanks (by decide) hstop)
      refine Takes.optional (Takes.bind (Takes.anyIdentifier name (stops_cons (by decide) _)) ?_)
      show Takes _ ([] ++ ([','] ++ [' '])) _ _
      exact Takes.bind (TakesOnly.blanks rfl (stops_cons (by decide) _)).takes
        (Takes.map (Takes.optional hcomma.takes))

theorem Taken.takes_selected (t : Taken) (rest : List Char) :
    exists selected, Takes (optional SourceModule.selection) t.selectedText selected
        (t.gap ++ ("from".toList ++ rest)) ∧
      (t.default?.isNone && selected.isNone) = false ∧
        forall typeOnly, bindingsOf typeOnly t.default? selected = t.bindings typeOnly := by
  have hspace : Stops isIdentifierChar ([' '] ++ ("from".toList ++ rest)) :=
    stops_cons (by decide) _
  cases t with
  | default name =>
      refine ⟨none, (TakesOnly.left_out (Refuses.orElse ?_ ?_)).takes, rfl, fun _ => rfl⟩
      · exact Refuses.bind (Refuses.braced rfl)
      · exact Refuses.bind (Refuses.letters rfl)
  | selected selection =>
      obtain ⟨value, hvalue, hbindings⟩ := selection.takes_selection hspace
      exact ⟨some value, Takes.optional hvalue, rfl, fun typeOnly => hbindings typeOnly none⟩
  | both name selection =>
      obtain ⟨value, hvalue, hbindings⟩ := selection.takes_selection hspace
      exact ⟨some value, Takes.optional hvalue, rfl, fun typeOnly => hbindings typeOnly _⟩

theorem Taken.takes_gap (t : Taken) {rest : List Char} (h : Stops isBlank rest) :
    Takes Matcher.blanks t.gap () rest := by
  have hblank : Takes Matcher.blanks [' '] () rest := (TakesOnly.blanks (by decide) h).takes
  cases t with
  | default name =>
      exact (TakesOnly.blanks rfl h).takes
  | selected selection =>
      exact hblank
  | both name selection =>
      exact hblank

/-!
# The text of a statement
-/

theorem Selected.oneLineButList (s : Selected) : OneLineButList s.text := by
  cases s with
  | names list =>
      exact OneLineButList.braced (list.all_text Specifier.all_text)
  | whole name =>
      left
      have hname := name.not_mem (by decide : isIdentifierChar '\n' = false)
      simp [Selected.text, hname]

theorem Taken.oneLineButList (t : Taken) {more : List Char} (hmore : '\n' ∉ more) :
    OneLineButList (t.text more) := by
  have hgap : '\n' ∉ t.gap ++ more := by
    cases t <;> simp [Taken.gap, hmore]
  have hdefault : '\n' ∉ t.defaultText := by
    cases t with
    | default name =>
        simp [Taken.defaultText, name.not_mem (by decide : isIdentifierChar '\n' = false)]
    | selected selection =>
        exact List.not_mem_nil
    | both name selection =>
        simp [Taken.defaultText, name.not_mem (by decide : isIdentifierChar '\n' = false)]
  refine OneLineButList.append_left hdefault (OneLineButList.append_right ?_ hgap)
  cases t with
  | default name =>
      exact Or.inl List.not_mem_nil
  | selected selection =>
      exact selection.oneLineButList
  | both name selection =>
      exact selection.oneLineButList

theorem Target.oneLineButList (t : Target) : OneLineButList t.text := by
  cases t with
  | default name =>
      exact Or.inl (name.not_mem (by decide))
  | names list =>
      exact OneLineButList.braced (list.all_text Property.all_text)

theorem Source.call_lineEnd (s : Source) (q : Quote) : '\n' ∉ s.call q :=
  List.not_mem_append (by decide) (List.not_mem_append (by decide)
    (List.not_mem_append (s.lineEnd_not_mem q) (by decide)))

theorem Source.call_append (s : Source) (q : Quote) (more : List Char) :
    s.call q ++ more = "require".toList ++ (['('] ++ (s.quoted q ++ ([')'] ++ more))) := by
  unfold Source.call
  rw [List.append_assoc, List.append_assoc, List.append_assoc]

theorem Taken.text_append (t : Taken) (more rest : List Char) :
    t.text more ++ rest = t.text (more ++ rest) := by
  unfold Taken.text
  rw [List.append_assoc, List.append_assoc, List.append_assoc]

theorem ImportStatement.oneLineButList (s : ImportStatement) : OneLineButList s.text := by
  have hending := semicolon_lineEnd s.semicolon
  refine OneLineButList.append_left (indent_not_mem (by decide) s.indented)
    (OneLineButList.append_right ?_ hending)
  unfold ImportBody.read
  cases s.body with
  | takes typeOnly taken _ =>
      refine OneLineButList.append_left (by decide) (OneLineButList.append_left ?_ ?_)
      · cases typeOnly <;> decide
      · exact taken.oneLineButList (s.source.from_lineEnd s.quote)
  | runs =>
      refine OneLineButList.append_left (by decide) (OneLineButList.append_left (by decide) ?_)
      exact Or.inl (s.source.lineEnd_not_mem s.quote)
  | requires word target hword =>
      have hcall : '\n' ∉ [' '] ++ (['='] ++ ([' '] ++ s.source.call s.quote)) := by
        simp [s.source.call_lineEnd s.quote]
      refine OneLineButList.append_left ?_ (target.oneLineButList.append_right hcall)
      simp only [List.mem_cons, List.not_mem_nil, or_false] at hword
      rcases hword with rfl | rfl | rfl <;> decide
  | calls =>
      exact Or.inl (s.source.call_lineEnd s.quote)

theorem Selected.slash_not_mem (s : Selected) : '/' ∉ s.text := by
  cases s with
  | names list =>
      have hlist : '/' ∉ list.text Specifier.text := fun hmem =>
        absurd (List.all_eq_true.mp (list.all_text Specifier.all_text) _ hmem) (by decide)
      simp [Selected.text, hlist]
  | whole name =>
      simp [Selected.text, name.not_mem (by decide : isIdentifierChar '/' = false)]

theorem Taken.commentFree (t : Taken) {more : List Char} (hmore : CommentFree more) :
    CommentFree (t.text more) := by
  refine CommentFree.append ?_ (CommentFree.append ?_ (CommentFree.append ?_ hmore))
  · cases t with
    | default name =>
        simp [Taken.defaultText, name.not_mem (by decide : isIdentifierChar '/' = false)]
    | selected selection =>
        exact List.not_mem_nil
    | both name selection =>
        simp [Taken.defaultText, name.not_mem (by decide : isIdentifierChar '/' = false)]
  · cases t with
    | default name =>
        exact List.not_mem_nil
    | selected selection =>
        exact selection.slash_not_mem
    | both name selection =>
        exact selection.slash_not_mem
  · cases t <;> simp [Taken.gap]

theorem Target.slash_not_mem (t : Target) : '/' ∉ t.text := by
  cases t with
  | default name =>
      exact name.not_mem (by decide)
  | names list =>
      have hlist : '/' ∉ list.text Property.text := fun hmem =>
        absurd (List.all_eq_true.mp (list.all_text Property.all_text) _ hmem) (by decide)
      simp [Target.text, hlist]

theorem ImportStatement.commentFree (s : ImportStatement) : CommentFree s.text := by
  have hending := semicolon_lineEnd s.semicolon
  have hquoted : CommentFree (s.source.quoted s.quote ++ semicolonText s.semicolon) :=
    CommentFree.quoted s.source s.quote hending
  have hcall : CommentFree (s.source.call s.quote ++ semicolonText s.semicolon) := by
    have hclosing : '\n' ∉ [')'] ++ semicolonText s.semicolon :=
      List.not_mem_append (by decide) hending
    rw [s.source.call_append]
    exact CommentFree.append (by decide) (CommentFree.append (by decide)
      (CommentFree.quoted s.source s.quote hclosing))
  have hfrom : CommentFree (s.source.from s.quote ++ semicolonText s.semicolon) := by
    unfold Source.from
    rw [List.append_assoc, List.append_assoc]
    exact CommentFree.append (by decide) (CommentFree.append (by decide) hquoted)
  refine CommentFree.append (indent_not_mem (by decide) s.indented) ?_
  unfold ImportBody.read
  cases s.body with
  | takes typeOnly taken _ =>
      simp only [List.append_assoc, taken.text_append]
      refine CommentFree.append (by decide) (CommentFree.append (by decide)
        (CommentFree.append ?_ (taken.commentFree hfrom)))
      cases typeOnly <;> decide
  | runs =>
      simp only [List.append_assoc]
      exact CommentFree.append (by decide) (CommentFree.append (by decide) hquoted)
  | requires word target hword =>
      have hspelled : '/' ∉ word.toList := by
        simp only [List.mem_cons, List.not_mem_nil, or_false] at hword
        rcases hword with rfl | rfl | rfl <;> decide
      simp only [List.append_assoc]
      refine CommentFree.append hspelled (CommentFree.append (by decide)
        (CommentFree.append target.slash_not_mem ?_))
      exact CommentFree.append (by decide) (CommentFree.append (by decide)
        (CommentFree.append (by decide) hcall))
  | calls =>
      exact hcall

/-!
# Each form and its statements
-/

/-- The forms of statements that take something from another module. -/
inductive ImportKind where
  | takes
  | runs
  | requires
  | calls
deriving DecidableEq

def ImportKind.form : ImportKind -> Matcher (Nat -> Option Import)
  | takes => importForm
  | runs => runForm
  | requires => requireForm
  | calls => bareRequireForm

def ImportKind.words : ImportKind -> List String
  | takes => ["import"]
  | runs => ["import"]
  | requires => ["const", "let", "var"]
  | calls => ["require"]

def ImportBody.kind : ImportBody -> ImportKind
  | takes _ _ _ => .takes
  | runs => .runs
  | requires _ _ _ => .requires
  | calls => .calls

theorem Opens.requireCall : Opens requireCall := by
  refine Opens.bind (inner_word (by decide)) fun _ => Opens.bind inner_blanks fun _ => ?_
  refine Opens.before (Opens.letters (by decide)) fun _ =>
    Over.bind Local.blanks.forward fun _ => ?_
  refine Over.bind (@Closing.quoted []).forward fun _ => Over.bind Local.blanks.forward fun _ => ?_
  exact Over.bind (Local.letters _).forward fun _ => Over.give _

theorem Opens.importForm : Opens importForm := by
  refine Opens.bind inner_indentation fun _ => Opens.bind (inner_keyword (by decide)) fun _ => ?_
  refine Opens.bind (Over.optional (inner_keyword (by decide))) fun _ => ?_
  refine Opens.bind (Over.optional ?_) fun _ => Opens.optional_bind ?_ ?_ ?_
  · refine Over.bind inner_anyIdentifier fun _ => Over.bind inner_blanks fun _ => ?_
    refine Over.bind (Over.optional ?_) fun _ => Over.give _
    exact Over.bind (Over.letters (List.all_eq_true.mp (by decide))) fun _ => inner_blanks
  · refine Opens.orElse (Opens.before Opens.braced fun _ => Over.give _) ?_
    refine Opens.before (Opens.letters (by decide)) fun _ => ?_
    refine Over.bind Local.blanks.forward fun _ => Over.bind (Local.keyword _).forward fun _ => ?_
    exact Over.bind Local.anyIdentifier.forward fun _ => Over.give _
  · intro selected
    exact Over.bind Local.blanks.forward fun _ =>
      Over.bind (@Closing.fromSource []).forward fun _ => Over.give _
  · exact Opens.bind inner_blanks fun _ => Opens.before Opens.fromSource fun _ => Over.give _

theorem Opens.runForm : Opens runForm := by
  refine Opens.bind inner_indentation fun _ => Opens.bind (inner_word (by decide)) fun _ => ?_
  exact Opens.bind inner_blanks fun _ => Opens.before Opens.quoted fun _ => Over.give _

theorem Opens.requireForm : Opens requireForm := by
  refine Opens.bind inner_indentation fun _ => Opens.bind (Over.anyOf ?_) fun _ => ?_
  · intro m hm
    simp only [List.mem_cons, List.not_mem_nil, or_false] at hm
    rcases hm with rfl | rfl | rfl <;> exact inner_keyword (by decide)
  refine Opens.orElse_bind (Opens.before (Opens.before Opens.braced fun _ => Over.give _) ?_) ?_
  · intro bindings
    refine Over.bind Local.blanks.forward fun _ => Over.bind (Local.letters _).forward fun _ => ?_
    refine Over.bind Local.blanks.forward fun _ => ?_
    exact Over.bind (@Closing.requireCall []).forward fun _ => Over.give _
  · refine Opens.bind (Over.bind inner_identifier fun _ => Over.give _) fun bindings => ?_
    refine Opens.bind inner_blanks fun _ => Opens.before (Opens.letters (by decide)) fun _ => ?_
    refine Over.bind Local.blanks.forward fun _ => ?_
    exact Over.bind (@Closing.requireCall []).forward fun _ => Over.give _

theorem Opens.bareRequireForm : Opens bareRequireForm :=
  Opens.bind inner_indentation fun _ => Opens.before Opens.requireCall fun _ => Over.give _

theorem ImportKind.opens (kind : ImportKind) : Opens kind.form := by
  cases kind
  · exact Opens.importForm
  · exact Opens.runForm
  · exact Opens.requireForm
  · exact Opens.bareRequireForm

theorem ImportKind.lineForm (kind : ImportKind) : LineForm SameImport kind.form := by
  cases kind
  · exact LineForm.importForm
  · exact LineForm.runForm
  · exact LineForm.requireForm
  · exact LineForm.bareRequireForm

theorem ImportKind.beginsLine (kind : ImportKind) : BeginsLine kind.form := by
  cases kind
  · exact beginsLine_indentation_bind _
  · exact beginsLine_indentation_bind _
  · exact beginsLine_indentation_bind _
  · exact beginsLine_indentation_bind _

theorem ImportBody.read_head (body : ImportBody) (source : Source) (q : Quote) :
    exists ch tail, body.read source q = ch :: tail ∧ isIndent ch = false := by
  cases body with
  | takes typeOnly taken _ =>
      exact ⟨'i', _, rfl, rfl⟩
  | runs =>
      exact ⟨'i', _, rfl, rfl⟩
  | requires word target hword =>
      simp only [List.mem_cons, List.not_mem_nil, or_false] at hword
      rcases hword with rfl | rfl | rfl
      · exact ⟨'c', _, rfl, rfl⟩
      · exact ⟨'l', _, rfl, rfl⟩
      · exact ⟨'v', _, rfl, rfl⟩
  | calls =>
      exact ⟨'r', _, rfl, rfl⟩

/-!
# Each form reads its own statements and refuses the others
-/

theorem Taken.stops_marked (t : Taken) (typeOnly : Bool) (more : List Char) :
    Stops isBlank (marked typeOnly "type" ++ t.text more) := by
  cases typeOnly with
  | true =>
      exact stops_cons (by decide) _
  | false =>
      exact t.stops (fun _ => blank_of_isIdentifierStart) (by decide) (by decide) more

theorem takes_importForm {typeOnly : Bool} {taken : Taken}
    (h : typeOnly = false -> forall name, taken = .default name -> name.name ≠ "type")
    (source : Source) (q : Quote) (rest : List Char) :
    TakesIndented importForm
      (("import".toList ++ [' ']) ++ (marked typeOnly "type" ++
        taken.text (source.from q)))
      (fun line => some
        { source := source.path
          line := line
          bindings := taken.bindings typeOnly
          typeOnly := typeOnly })
      rest := by
  have hfrom : source.from q ++ rest = "from".toList ++ ([' '] ++ (source.quoted q ++ rest)) := by
    unfold Source.from
    rw [List.append_assoc, List.append_assoc]
  obtain ⟨selected, hselected, hsome, hbindings⟩ :=
    taken.takes_selected ([' '] ++ (source.quoted q ++ rest))
  have hmark := taken.takes_mark h (source.from q ++ rest)
  have hdefault := taken.takes_default ([' '] ++ (source.quoted q ++ rest))
  rw [<- hfrom] at hselected hdefault
  have hvalue : (fun line => some
        ({ source := source.path
           line := line
           bindings := taken.bindings typeOnly
           typeOnly := typeOnly } : Import)) =
      fun line =>
        if taken.default?.isNone && selected.isNone then none
        else some
          { source := source.path
            line := line
            bindings := bindingsOf (if typeOnly then some () else none : Option Unit).isSome
              taken.default? selected
            typeOnly := (if typeOnly then some () else none : Option Unit).isSome } := by
    funext line
    rw [hsome, hbindings]
    cases typeOnly <;> rfl
  have hstop : Stops isBlank (source.from q ++ rest) := by
    rw [hfrom]
    exact stops_cons (by decide) _
  -- the parts of the form take the parts of the text one after the other
  refine ⟨_, rfl, ?_⟩
  rw [hvalue]
  refine Takes.bind (TakesOnly.keyword "import" ?_).takes ?_
  · rw [List.append_assoc, taken.text_append]
    exact taken.stops_marked typeOnly _
  refine Takes.bind (a := if typeOnly then some () else none) ?_ ?_
  · rwa [taken.text_append]
  refine Takes.bind (a := taken.default?) ?_ ?_
  · rwa [List.append_assoc, List.append_assoc]
  refine Takes.bind (a := selected) ?_ ?_
  · rwa [List.append_assoc]
  exact Takes.bind (taken.takes_gap hstop) (Takes.map (TakesOnly.fromSource source q rest).takes)

theorem takes_runForm (source : Source) (q : Quote) (rest : List Char) :
    TakesIndented runForm ("import".toList ++ ([' '] ++ source.quoted q))
      (fun line => some { source := source.path, line := line }) rest := by
  refine ⟨_, rfl, Takes.bind (TakesOnly.word "import" _).takes ?_⟩
  have hstop := source.stops_quoted (by decide : isBlank '\'' = false) (by decide) q rest
  refine Takes.bind (TakesOnly.blanks (by decide) hstop).takes ?_
  exact Takes.map (TakesOnly.quoted source q rest).takes

theorem takes_requireCall (source : Source) (q : Quote) (rest : List Char) :
    Takes requireCall (source.call q) source.path rest := by
  have hclosing : Takes (do
      Matcher.blanks
      Matcher.letters [')']
      Matcher.give source.path) ([] ++ [')']) source.path rest :=
    Takes.bind (TakesOnly.blanks rfl (stops_cons (by decide) _)).takes
      (TakesOnly.letters [')'] rest).map.takes
  have hstop := source.stops_quoted (by decide : isBlank '\'' = false) (by decide) q ([')'] ++ rest)
  have hcall : source.call q =
      "require".toList ++ ([] ++ (['('] ++ ([] ++ (source.quoted q ++ ([] ++ [')']))))) := rfl
  rw [hcall]
  refine Takes.bind (TakesOnly.word "require" _).takes ?_
  refine Takes.bind (TakesOnly.blanks rfl (stops_cons (by decide) _)).takes ?_
  refine Takes.bind (TakesOnly.letters ['('] _).takes ?_
  refine Takes.bind (TakesOnly.blanks rfl ?_).takes ?_
  · simpa using hstop
  · exact Takes.bind (TakesOnly.quoted source q _).takes hclosing

theorem takes_bareRequireForm (source : Source) (q : Quote) (rest : List Char) :
    TakesIndented bareRequireForm (source.call q)
      (fun line => some { source := source.path, line := line }) rest :=
  ⟨_, rfl, Takes.map (takes_requireCall source q rest)⟩

theorem Target.takes_requireTarget (t : Target) (h : Stops isIdentifierChar rest) :
    Takes requireTarget t.text t.bindings rest := by
  cases t with
  | default name =>
      exact Takes.orElse_right (Refuses.bind (name.refuses_braced rest))
        (TakesOnly.identifier name h).map.takes
  | names list =>
      have hbrace : '}' ∉ list.text Property.text := brace_not_mem (list.all_text Property.all_text)
      refine Takes.orElse ?_
      have hclause := (TakesOnly.braced hbrace rest).map (f := requiredNames)
      rw [requiredNames_text] at hclause
      exact hclause.takes

theorem Target.stops_blank (t : Target) (rest : List Char) : Stops isBlank (t.text ++ rest) := by
  cases t with
  | default name =>
      exact name.stops_blank rest
  | names list =>
      exact stops_cons (by decide) _

theorem takes_requireForm {word : String} (hword : word ∈ ["const", "let", "var"]) (target : Target)
    (source : Source) (q : Quote) (rest : List Char) :
    TakesIndented requireForm
      ((word.toList ++ [' ']) ++ (target.text ++ ([' '] ++ (['='] ++ ([' '] ++ source.call q)))))
      (fun line => some { source := source.path, line := line, bindings := target.bindings })
      rest := by
  have hcall : Stops isBlank (source.call q ++ rest) := by
    rw [source.call_append]
    exact stops_cons (by decide) _
  refine ⟨_, rfl, ?_⟩
  refine Takes.bind (a := ()) ?_ ?_
  · have hkeyword := fun spelled => (TakesOnly.keyword spelled (target.stops_blank ([' '] ++
      (['='] ++ ([' '] ++ source.call q)) ++ rest))).takes
    rw [List.append_assoc]
    simp only [List.mem_cons, List.not_mem_nil, or_false] at hword
    rcases hword with rfl | rfl | rfl
    · exact Takes.orElse (hkeyword "const")
    · exact Takes.orElse_right (Refuses.keyword rfl) (Takes.orElse (hkeyword "let"))
    · exact Takes.orElse_right (Refuses.keyword rfl)
        (Takes.orElse_right (Refuses.keyword rfl) (Takes.orElse (hkeyword "var")))
  refine Takes.bind (target.takes_requireTarget (stops_cons (by decide) _)) ?_
  refine Takes.bind (TakesOnly.blanks (by decide) (stops_cons (by decide) _)).takes ?_
  refine Takes.bind (TakesOnly.letters ['='] _).takes ?_
  refine Takes.bind (TakesOnly.blanks (by decide) hcall).takes ?_
  exact Takes.map (takes_requireCall source q rest)

theorem refuses_runForm (typeOnly : Bool) (taken : Taken) (more rest : List Char) :
    RefusesIndented runForm
      (("import".toList ++ [' ']) ++ (marked typeOnly "type" ++
        taken.text more) ++ rest) := by
  have hstop : forall {p : Char -> Bool},
      (forall ch, isIdentifierStart ch = true -> p ch = false) -> p '{' = false -> p '*' = false ->
      Stops p ((marked typeOnly "type" ++ taken.text more) ++ rest) := by
    intro p hstart hopen hstar
    rw [List.append_assoc, taken.text_append]
    cases typeOnly with
    | true =>
        exact stops_cons (hstart 't' (by decide)) _
    | false =>
        exact taken.stops hstart hopen hstar _
  have hquote : forall ch, isIdentifierStart ch = true -> (ch == '\'' || ch == '"') = false := by
    intro ch hch
    by_cases hsame : ch = '\'' ∨ ch = '"'
    · rcases hsame with rfl | rfl <;> cases hch
    · simpa using hsame
  refine ⟨_, rfl, ?_⟩
  rw [List.append_assoc, List.append_assoc]
  refine Refuses.after (TakesOnly.word "import" _) ?_
  have hblanks := TakesOnly.blanks (by decide : [' '].all isBlank = true)
    (hstop (fun _ => blank_of_isIdentifierStart) (by decide) (by decide))
  exact Refuses.after hblanks (Refuses.bind (Refuses.quoted (hstop hquote (by decide) (by decide))))

theorem refuses_importForm {blanks : List Char} (hblanks : blanks.all isBlank = true) (q : Quote)
    (rest : List Char) :
    RefusesIndented importForm ("import".toList ++ (blanks ++ q.char :: rest)) := by
  have hstop : forall {p : Char -> Bool}, p '\'' = false -> p '"' = false ->
      Stops p (q.char :: rest) := by
    intro p hsingle hdouble
    cases q
    · exact stops_cons hsingle _
    · exact stops_cons hdouble _
  refine ⟨_, rfl, ?_⟩
  by_cases hnone : blanks = []
  · -- a blank must follow the word
    subst hnone
    exact Refuses.bind (Refuses.after (TakesOnly.word "import" _)
      (Refuses.blanks1 (hstop (by decide) (by decide))))
  have hkeyword : TakesOnly (keyword "import") ("import".toList ++ blanks) () (q.char :: rest) :=
    TakesOnly.bind (TakesOnly.word _ _)
      (TakesOnly.blanks1 hnone hblanks (hstop (by decide) (by decide)))
  rw [<- List.append_assoc]
  refine Refuses.after hkeyword ?_
  have hquote : forall word : List Char,
      word.head?.any (fun ch => ch != '\'' && ch != '"') = true ->
        word.isPrefixOf (q.char :: rest) = false := by
    intro word hword
    cases word with
    | nil =>
        cases hword
    | cons ch word =>
        simp only [List.head?_cons, Option.any_some, Bool.and_eq_true, bne_iff_ne, ne_eq] at hword
        cases q <;> simp [Quote.char, List.isPrefixOf, hword.1, hword.2]
  refine Refuses.optional_bind (Refuses.keyword (hquote _ rfl)) ?_
  refine Refuses.optional_bind
    (Refuses.bind (Refuses.anyIdentifier (hstop (by decide) (by decide)))) ?_
  refine Refuses.optional_bind (Refuses.orElse ?_ ?_) ?_
  · exact Refuses.bind (Refuses.braced (hquote _ rfl))
  · exact Refuses.bind (Refuses.letters (hquote _ rfl))
  · have hgap : TakesOnly Matcher.blanks [] () (q.char :: rest) :=
      TakesOnly.blanks rfl (hstop (by decide) (by decide))
    show Refuses _ ([] ++ (q.char :: rest))
    exact Refuses.after hgap (Refuses.bind (Refuses.bind (Refuses.word (hquote _ rfl))))

theorem ImportKind.refuses (kind : ImportKind) {words : List String} {text : List Char}
    (hbegins : Begins words text) (h : forall word, word ∈ kind.words -> Apart word words) :
    RefusesIndented kind.form text := by
  cases kind with
  | takes =>
      exact ⟨_, rfl, Refuses.bind (Refuses.keyword_apart (h "import" (by decide)) hbegins)⟩
  | runs =>
      exact ⟨_, rfl, Refuses.bind (Refuses.word_apart (h "import" (by decide)) hbegins)⟩
  | requires =>
      refine ⟨_, rfl, Refuses.bind (Refuses.anyOf ?_)⟩
      intro m hm
      simp only [List.mem_cons, List.not_mem_nil, or_false] at hm
      rcases hm with rfl | rfl | rfl
      · exact Refuses.keyword_apart (h "const" (by decide)) hbegins
      · exact Refuses.keyword_apart (h "let" (by decide)) hbegins
      · exact Refuses.keyword_apart (h "var" (by decide)) hbegins
  | calls =>
      exact ⟨_, rfl, Refuses.bind (Refuses.bind
        (Refuses.word_apart (h "require" (by decide)) hbegins))⟩

theorem ImportBody.takes_read (body : ImportBody) (source : Source) (q : Quote)
    (rest : List Char) :
    TakesIndented body.kind.form (body.read source q)
      (fun line => some
        { source := source.path
          line := line
          bindings := body.bindings
          typeOnly := body.typeOnly })
      rest := by
  cases body with
  | takes typeOnly taken h =>
      exact takes_importForm h source q rest
  | runs =>
      exact takes_runForm source q rest
  | requires word target hword =>
      exact takes_requireForm hword target source q rest
  | calls =>
      exact takes_bareRequireForm source q rest

theorem ImportKind.words_apart {own kind : ImportKind} (hne : own ≠ kind)
    (htakes : ¬(own = .takes ∧ kind = .runs)) (hruns : ¬(own = .runs ∧ kind = .takes)) :
    forall word, word ∈ kind.words -> Apart word own.words := by
  cases own <;> cases kind <;>
    first
    | exact absurd rfl hne
    | exact absurd ⟨rfl, rfl⟩ htakes
    | exact absurd ⟨rfl, rfl⟩ hruns
    | decide

theorem ImportBody.begins_read (body : ImportBody) (source : Source) (q : Quote)
    (rest : List Char) : Begins body.kind.words (body.read source q ++ rest) := by
  cases body with
  | takes typeOnly taken _ =>
      exact ⟨"import", List.mem_singleton_self _, List.prefix_append _ _⟩
  | runs =>
      exact ⟨"import", List.mem_singleton_self _, List.prefix_append _ _⟩
  | requires word target hword =>
      refine ⟨word, hword, ?_⟩
      show word.toList <+: (word.toList ++ [' ']) ++ _ ++ rest
      rw [List.append_assoc, List.append_assoc]
      exact List.prefix_append _ _
  | calls =>
      exact ⟨"require", List.mem_singleton_self _, List.prefix_append _ _⟩

theorem ImportBody.refuses (body : ImportBody) {kind : ImportKind} (h : body.kind ≠ kind)
    (source : Source) (q : Quote) (rest : List Char) :
    RefusesIndented kind.form (body.read source q ++ rest) := by
  by_cases htakes : body.kind = .takes ∧ kind = .runs
  · obtain ⟨hbody, rfl⟩ := htakes
    cases body with
    | takes typeOnly taken _ =>
        exact refuses_runForm typeOnly taken _ rest
    | runs | requires | calls =>
        cases hbody
  by_cases hruns : body.kind = .runs ∧ kind = .takes
  · obtain ⟨hbody, rfl⟩ := hruns
    cases body with
    | runs =>
        have hquoted : source.quoted q ++ rest =
            q.char :: (source.path.toList ++ q.char :: rest) := by
          rw [Source.quoted, List.cons_append, List.append_assoc, List.singleton_append]
        show RefusesIndented importForm ("import".toList ++ ([' '] ++ source.quoted q) ++ rest)
        rw [List.append_assoc, List.append_assoc, hquoted]
        exact refuses_importForm (by decide) q _
    | takes | requires | calls =>
        cases hbody
  exact kind.refuses (body.begins_read source q rest) (ImportKind.words_apart h htakes hruns)

theorem ImportStatement.foundIn (s : ImportStatement) (kind : ImportKind) (rest : List Char) :
    FoundIn kind.form s.text
      (fun answer => answer =
        if s.body.kind = kind then some fun line => some (s.record line) else none)
      rest := by
  obtain ⟨ch, tail, hread, hch⟩ := s.body.read_head s.source s.quote
  have hstop : forall more, Stops isIndent (s.body.read s.source s.quote ++ more) := by
    intro more
    rw [hread]
    exact stops_cons hch _
  have hquiet : QuietInside kind.form s.text rest :=
    s.oneLineButList.quietInside kind.beginsLine kind.opens
  split
  · next hkind =>
      subst hkind
      exact FoundIn.of_takes rfl s.indented (hstop _) (by rw [hread]; exact List.cons_ne_nil _ _)
        (s.body.takes_read s.source s.quote _) hquiet
  · next hkind =>
      refine FoundIn.of_refuses rfl s.indented ?_ ?_ hquiet
      · rw [List.append_assoc]
        exact hstop _
      · rw [List.append_assoc]
        exact s.body.refuses hkind s.source s.quote _

/-!
# A text of imports
-/

def placedRecords (places : List (Nat × Nat × Option ImportStatement)) :
    List (ImportKind × Nat × Import) :=
  places.filterMap fun place =>
    place.2.2.map fun s => (s.body.kind, place.1, s.record place.2.1)

theorem importsOfForm_written (kind : ImportKind) (blocks : List (Option ImportStatement)) :
    importsOfForm kind.form (written ImportStatement.text blocks) =
      ((placedRecords (placed (blockText ImportStatement.text) 0 1 blocks)).filter
        fun entry => entry.1 = kind).map (·.2) := by
  have hfound := @findAll_blocks _ kind.form _ (blockText ImportStatement.text) blocks
    (fun block => block.bind fun s =>
      if s.body.kind = kind then some fun line => some (s.record line) else none)
    kind.lineForm.stops (by
      intro block others _
      cases block with
      | none =>
          exact FoundIn.emptyLine rfl
      | some s =>
          exact s.foundIn kind _)
  have hshown : forall founds : List (Found (Nat -> Option Import)),
      (founds.filterMap fun found =>
        (found.value found.place.line).map fun record => (found.place.offset, record)) =
      (founds.map Found.shown).filterMap fun found =>
        (found.2.2 found.2.1).map fun record => (found.1, record) := by
    intro founds
    rw [List.filterMap_map]
    rfl
  rw [importsOfForm, hshown, written, hfound]
  generalize placed (blockText ImportStatement.text) 0 1 blocks = places
  induction places with
  | nil =>
      rfl
  | cons place places ih =>
      obtain ⟨offset, line, block⟩ := place
      cases block with
      | none =>
          exact ih
      | some s =>
          by_cases hkind : s.body.kind = kind
          · simpa [placedRecords, hkind] using ih
          · simpa [placedRecords, hkind] using ih

theorem perm_flatMap_filter {α κ : Type} [DecidableEq κ] {kinds : List κ} (hnodup : kinds.Nodup)
    (kind : α -> κ) {l : List α} (hall : forall a, a ∈ l -> kind a ∈ kinds) :
    (kinds.flatMap fun k => l.filter fun a => kind a = k).Perm l := by
  induction l with
  | nil =>
      simp
  | cons a l ih =>
      have hrest := ih fun b hb => hall b (List.mem_cons_of_mem a hb)
      obtain ⟨before, after, hkinds⟩ := List.append_of_mem (hall a (List.mem_cons_self ..))
      have hother : forall k, k ∈ before ++ after ->
          ((a :: l).filter fun b => kind b = k) = l.filter fun b => kind b = k := by
        intro k hk
        have hfresh : kind a ∉ before ++ after := by
          rw [hkinds, List.perm_middle.nodup_iff, List.nodup_cons] at hnodup
          exact hnodup.1
        refine List.filter_cons_of_neg ?_
        simpa using fun heq : kind a = k => hfresh (heq ▸ hk)
      have hbefore := List.flatMap_congr fun k hk => hother k (List.mem_append_left after hk)
      have hafter := List.flatMap_congr fun k hk => hother k (List.mem_append_right before hk)
      have hown : ((a :: l).filter fun b => kind b = kind a) =
          a :: l.filter fun b => kind b = kind a :=
        List.filter_cons_of_pos (by simp)
      rw [hkinds, List.flatMap_append, List.flatMap_cons] at hrest ⊢
      rw [hbefore, hafter, hown, List.cons_append]
      exact List.perm_middle.trans (hrest.cons a)

theorem pairwise_placedRecords {places : List (Nat × Nat × Option ImportStatement)}
    (h : places.Pairwise fun a b => a.1 < b.1 ∧ a.2.1 < b.2.1) :
    ((placedRecords places).map (·.2)).Pairwise fun a b => a.1 < b.1 := by
  refine List.Pairwise.map _ (fun _ _ hlt => hlt) (List.Pairwise.filterMap _ ?_ h)
  rintro ⟨offset, line, block⟩ ⟨offset', line', block'⟩ hlt entry hentry entry' hentry'
  cases block with
  | none =>
      cases hentry
  | some s =>
      cases block' with
      | none =>
          cases hentry'
      | some s' =>
          cases hentry
          cases hentry'
          exact hlt.1

theorem importsOfCode_written (blocks : List (Option ImportStatement)) :
    importsOfCode (written ImportStatement.text blocks) =
      (withLines ImportStatement.text 1 blocks).map fun place => place.2.record place.1 := by
  let kinds := [ImportKind.takes, .runs, .requires, .calls]
  let places := placed (blockText ImportStatement.text) 0 1 blocks
  have hall : kinds.flatMap (fun kind =>
        importsOfForm kind.form (written ImportStatement.text blocks)) =
      (kinds.flatMap fun kind => (placedRecords places).filter fun entry => entry.1 = kind).map
        (·.2) := by
    rw [List.map_flatMap]
    exact List.flatMap_congr fun kind _ => importsOfForm_written kind blocks
  have hperm : (kinds.flatMap fun kind =>
        importsOfForm kind.form (written ImportStatement.text blocks)).Perm
      ((placedRecords places).map (·.2)) := by
    rw [hall]
    have hnodup : kinds.Nodup := by decide
    have hkind : forall entry : ImportKind × Nat × Import, entry ∈ placedRecords places ->
        entry.1 ∈ kinds := by
      rintro ⟨kind, record⟩ _
      cases kind <;> simp [kinds]
    exact (perm_flatMap_filter hnodup Prod.fst hkind).map _
  have hplaced := (pairwise_placed (blockText ImportStatement.text) 0 1 blocks).1
  have hsorted := pairwise_placedRecords hplaced
  show (sortBy _ (kinds.flatMap fun kind =>
    importsOfForm kind.form (written ImportStatement.text blocks))).map (·.2) = _
  rw [sortBy_of_perm hsorted hperm, withLines_eq ImportStatement.text 0, placedRecords,
    List.map_filterMap, List.map_filterMap, List.map_filterMap]
  refine List.filterMap_congr fun place _ => ?_
  cases place.2.2 <;> rfl

/--
Import statements and `require` calls on lines of their own are read back one by one, each with
its source, its line and its bindings.
-/
theorem scan_imports_written (path : String) (blocks : List (Option ImportStatement)) :
    (scan path (String.ofList (written ImportStatement.text blocks))).imports =
      (withLines ImportStatement.text 1 blocks).map fun place => place.2.record place.1 := by
  rw [scan_ofList, withoutComments_written ImportStatement.commentFree, imports_scanCode,
    importsOfCode_written]

example : ImportStatement.text
    { indent := [' ']
      body := .takes true (.both ⟨"D", 'D', [], rfl, rfl, nofun⟩ (.names
        { items := [⟨[' '], ⟨false, ⟨"A", 'A', [], rfl, rfl, nofun⟩,
            some ⟨"B", 'B', [], rfl, rfl, nofun⟩, by decide⟩, [' '], rfl, rfl⟩]
          last := none
          last_blank := nofun })) nofun
      source := ⟨"./m", by decide, by decide⟩
      quote := .single
      semicolon := true
      indented := rfl } = " import type D, \x7b A as B \x7d from './m';".toList := by
  decide

end SourceModule
end Joinery
