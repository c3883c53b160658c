import Joinery.Proofs.Sorting
import Joinery.Proofs.SourceModule.EmptyLine
import Joinery.Proofs.SourceModule.ExportStatements

/-!
# Exports as they are written

## Reading back what a module exports

Export statements on lines of their own are read back: each form finds its own statements
where they begin and nothing else, so that the names, the modules that are passed on and the
records of them are those that were written.
-/

namespace Joinery
namespace SourceModule

open Text Matcher

variable {α : Type} {m : Matcher α} {rest : List Char}

/-!
# What a statement says
-/

def ExportBody.names : ExportBody -> List String
  | exports (.declares d) => [d.name.name]
  | exports (.default _ _ _) => [defaultExport]
  | exports (.lists _ list _ _) => list.items.map fun p => p.item.localName
  | exports (.star name _ _ _) => (name.map (·.name)).toList
  | assigns (.property _ name _ _) => [name.name]
  | assigns (.object list _ _) => defaultExport :: list.items.map fun p => p.item.key.name
  | assigns (.whole _ _ _) => [defaultExport]

def ExportBody.starSource : ExportBody -> Option String
  | exports (.star none source _ _) => some source.path
  | _ => none

def ExportBody.isAssignment : ExportBody -> Bool
  | exports _ => false
  | assigns _ => true

def ExportBody.reexport (line : Nat) : ExportBody -> Option Reexport
  | exports (.lists _ list (some (source, _)) _) =>
      some
        { source := source.path
          line := line
          names := list.items.map fun p => p.item.localName }
  | exports (.star name source _ _) =>
      some
        { source := source.path
          line := line
          names := (name.map (·.name)).toList
          star := name.isNone }
  | _ => none

/-!
# The text of a statement
-/

theorem DeclarationKind.lineEnd_not_mem (kind : DeclarationKind) : '\n' ∉ kind.text := by
  cases kind with
  | plain word isKind =>
      have hwords : forall word, word ∈ kindWords -> '\n' ∉ word.toList := by
        decide
      exact List.not_mem_append (hwords word isKind) (by decide)
  | constEnum =>
      decide
  | generator =>
      decide

theorem Declaration.lineEnd_not_mem (d : Declaration) : '\n' ∉ d.read := by
  have hname := d.name.not_mem (by decide : isIdentifierChar '\n' = false)
  refine List.not_mem_append (marked_not_mem (by decide) (by decide) _) ?_
  refine List.not_mem_append (marked_not_mem (by decide) (by decide) _) ?_
  refine List.not_mem_append (marked_not_mem (by decide) (by decide) _) ?_
  exact List.not_mem_append d.kind.lineEnd_not_mem hname

theorem sourceText_lineEnd (source : Option (Source × Quote)) : '\n' ∉ sourceText source := by
  cases source with
  | none =>
      exact List.not_mem_nil
  | some place =>
      exact List.not_mem_append (by decide) (place.1.from_lineEnd place.2)

/-- Only a list or an object can go over several lines. -/
inductive Shape : ExportBody -> Prop
  | oneLine {body : ExportBody} (h : '\n' ∉ body.read ++ body.ending) : Shape body
  | lists (typeOnly : Bool) (list : Items Specifier) (source : Option (Source × Quote))
      (semicolon : Bool)
      (h : OneLineBut (list.text Specifier.text)
        ((ExportBody.exports (.lists typeOnly list source semicolon)).read ++
          semicolonText semicolon)) :
      Shape (.exports (.lists typeOnly list source semicolon))
  | object (list : Items Property)
      (wordKeys : forall p, p ∈ list.items -> p.item.key.chars.getLast? ≠ some '$')
      (semicolon : Bool)
      (h : OneLineBut (list.text Property.text)
        ((ExportBody.assigns (.object list wordKeys semicolon)).read ++ semicolonText semicolon)) :
      Shape (.assigns (.object list wordKeys semicolon))

theorem ExportBody.shape (body : ExportBody) : Shape body := by
  have hexport : forall {read ending : List Char}, '\n' ∉ read -> '\n' ∉ ending ->
      '\n' ∉ ("export".toList ++ [' ']) ++ read ++ ending := by
    intro read ending hread hending
    exact List.not_mem_append (List.not_mem_append (by decide) hread) hending
  have hvalue : forall {value : List Char}, '\n' ∉ value -> '\n' ∉ ' ' :: value := by
    intro value h
    simpa using h
  cases body with
  | exports what =>
      cases what with
      | declares d =>
          exact Shape.oneLine (hexport d.lineEnd_not_mem d.oneLine)
      | default value oneLine closed =>
          have hword : '\n' ∉ "default".toList := by
            decide
          exact Shape.oneLine (hexport hword (hvalue oneLine))
      | lists typeOnly list source semicolon =>
          refine Shape.lists typeOnly list source semicolon (OneLineBut.append_right
            (OneLineBut.append_left (by decide) (OneLineBut.append_left ?_ (OneLineBut.append_right
              (OneLineBut.braced _) (sourceText_lineEnd source)))) (semicolon_lineEnd semicolon))
          exact marked_not_mem (by decide) (by decide) typeOnly
      | star name source q semicolon =>
          have hname : '\n' ∉ starName name := by
            cases name with
            | none =>
                exact List.not_mem_nil
            | some name =>
                exact List.not_mem_append (by decide) (List.not_mem_append
                  (name.not_mem (by decide)) (by decide))
          exact Shape.oneLine (hexport (List.not_mem_append (by decide) (List.not_mem_append
            (by decide) (List.not_mem_append hname (source.from_lineEnd q))))
            (semicolon_lineEnd semicolon))
  | assigns what =>
      cases what with
      | property viaModule name value oneLine =>
          have hname := name.not_mem (by decide : isIdentifierChar '\n' = false)
          refine Shape.oneLine (List.not_mem_append (List.not_mem_append ?_ (List.not_mem_append
            (by decide) (List.not_mem_append hname (by decide)))) (hvalue oneLine))
          cases viaModule <;> decide
      | object list wordKeys semicolon =>
          exact Shape.object list wordKeys semicolon (OneLineBut.append_right
            (OneLineBut.append_left (by decide) (OneLineBut.append_left (by decide)
              (OneLineBut.append_left (by decide) (OneLineBut.braced _))))
            (semicolon_lineEnd semicolon))
      | whole value oneLine first =>
          have hread : '\n' ∉ "module.exports".toList ++ (([' '] ++ ['=']) ++ [' ']) := by
            decide
          exact Shape.oneLine (List.not_mem_append hread oneLine)

theorem ExportBody.read_head (body : ExportBody) :
    exists ch tail, body.read = ch :: tail ∧ (ch = 'e' ∨ ch = 'm') := by
  cases body with
  | exports what =>
      exact ⟨'e', _, rfl, Or.inl rfl⟩
  | assigns what =>
      cases what with
      | property viaModule name value oneLine =>
          cases viaModule with
          | true =>
              exact ⟨'m', _, rfl, Or.inr rfl⟩
          | false =>
              exact ⟨'e', _, rfl, Or.inl rfl⟩
      | object list wordKeys semicolon =>
          exact ⟨'m', _, rfl, Or.inr rfl⟩
      | whole value oneLine first =>
          exact ⟨'m', _, rfl, Or.inr rfl⟩

theorem ExportBody.stops_read {p : Char -> Bool} (hexport : p 'e' = false) (hmodule : p 'm' = false)
    (body : ExportBody) (more : List Char) : Stops p (body.read ++ more) := by
  obtain ⟨ch, tail, hread, hch⟩ := body.read_head
  rw [hread]
  refine stops_cons ?_ _
  rcases hch with rfl | rfl
  · exact hexport
  · exact hmodule

theorem ExportStatement.commentFree (s : ExportStatement) : CommentFree s.text := by
  obtain ⟨indent, body, indented⟩ := s
  refine CommentFree.append (indent_not_mem (by decide : isIndent '/' = false) indented) ?_
  have hclause : forall {clause : List Char}, clause.all isClauseChar = true ->
      '/' ∉ '{' :: (clause ++ ['}']) := by
    intro clause h
    have hslash : '/' ∉ clause := fun hmem => absurd (List.all_eq_true.mp h _ hmem) (by decide)
    simpa using hslash
  cases body.shape with
  | oneLine h =>
      obtain ⟨ch, tail, hread, hch⟩ := body.read_head
      dsimp only
      rw [hread, List.cons_append] at h ⊢
      have hline : '\n' ∉ tail ++ body.ending := fun hmem => h (List.mem_cons_of_mem _ hmem)
      rcases hch with rfl | rfl <;>
        exact CommentFree.cons_line (by decide) (by decide) (by decide) hline
  | lists typeOnly list source semicolon _ =>
      have hlist := hclause (list.all_text Specifier.all_text)
      have hsource : CommentFree (sourceText source ++ semicolonText semicolon) := by
        cases source with
        | none =>
            cases semicolon <;> exact CommentFree.of_no_slash (by decide)
        | some place =>
            unfold sourceText Source.from
            rw [List.append_assoc, List.append_assoc, List.append_assoc]
            exact CommentFree.append (by decide) (CommentFree.append (by decide)
              (CommentFree.append (by decide)
                (CommentFree.quoted place.1 place.2 (semicolon_lineEnd semicolon))))
      show CommentFree (("export".toList ++ [' ']) ++ (marked typeOnly "type" ++
        ('{' :: (list.text Specifier.text ++ ['}']) ++ sourceText source)) ++
          semicolonText semicolon)
      rw [List.append_assoc, List.append_assoc, List.append_assoc, List.append_assoc]
      refine CommentFree.append (by decide) (CommentFree.append (by decide)
        (CommentFree.append ?_ (CommentFree.append hlist hsource)))
      exact marked_not_mem (by decide) (by decide) typeOnly
  | object list wordKeys semicolon _ =>
      have hlist := hclause (list.all_text Property.all_text)
      refine CommentFree.of_no_slash (List.not_mem_append (List.not_mem_append (by decide)
        (List.not_mem_append (by decide) (List.not_mem_append (by decide) hlist))) ?_)
      show '/' ∉ semicolonText semicolon
      cases semicolon <;> decide

theorem ExportStatement.stops_indent (s : ExportStatement) (more : List Char) :
    Stops isIndent (s.body.read ++ more) :=
  s.body.stops_read (by decide) (by decide) more

theorem ExportStatement.quiet_of_opens (s : ExportStatement) (hm : BeginsLine m) (h : Opens m) :
    QuietInside m s.text rest := by
  obtain ⟨indent, body, indented⟩ := s
  have hindent := indent_not_mem (by decide : isIndent '\n' = false) indented
  refine OneLineButList.quietInside (OneLineButList.append_left hindent ?_) hm h
  cases body.shape with
  | oneLine hline =>
      exact Or.inl hline
  | lists typeOnly list source semicolon hlist =>
      exact Or.inr ⟨_, list.all_text Specifier.all_text, hlist⟩
  | object list wordKeys semicolon hlist =>
      exact Or.inr ⟨_, list.all_text Property.all_text, hlist⟩

theorem ExportStatement.quiet_of_passes (s : ExportStatement) (hm : BeginsLine m)
    (h : PassesItems m) : QuietInside m s.text rest := by
  obtain ⟨indent, body, indented⟩ := s
  have hindent := indent_not_mem (by decide : isIndent '\n' = false) indented
  cases body.shape with
  | oneLine hline =>
      exact quietInside_of_line hm (List.not_mem_append hindent hline)
  | lists typeOnly list source semicolon hlist =>
      exact h.quietInside hm Specifier.isItem_text Specifier.lineEnd_not_mem Specifier.namedItem
        list (hlist.append_left hindent)
  | object list wordKeys semicolon hlist =>
      exact h.quietInside hm Property.isItem_text Property.lineEnd_not_mem Property.namedItem
        list (hlist.append_left hindent)

def Judges (form : Matcher α) (answer : Option α) (body : ExportBody) (rest : List Char) : Prop :=
  match answer with
  | some value => TakesIndented form body.read value (body.ending ++ rest)
  | none => RefusesIndented form (body.read ++ (body.ending ++ rest))

theorem ExportStatement.foundIn (s : ExportStatement) {allowed : Option α -> Prop}
    {answer : Option α} (hallowed : allowed answer) (h : Judges m answer s.body rest)
    (hquiet : QuietInside m s.text rest) : FoundIn m s.text allowed rest := by
  cases answer with
  | none =>
      rw [Judges, <- List.append_assoc] at h
      refine FoundIn.of_refuses hallowed s.indented ?_ h hquiet
      rw [List.append_assoc]
      exact s.stops_indent _
  | some value =>
      obtain ⟨ch, tail, hread, _⟩ := s.body.read_head
      exact FoundIn.of_takes hallowed s.indented (s.stops_indent _)
        (by rw [hread]; exact List.cons_ne_nil _ _) h hquiet

/-!
# Forms that open something
-/

theorem Opens.word {spelled : String} {front back : List Char} {opener : Char}
    (hspelled : spelled.toList = front ++ opener :: back) (hfront : front.all isInner = true)
    (hopener : opener ∈ openers) : Opens (Matcher.word spelled) := by
  intro c found hfound
  have hreads : c.Reads spelled.toList found.2 := mem_letters_iff.mp hfound
  rw [hspelled] at hreads
  exact ⟨front, opener, back, hreads, hfront, hopener⟩

theorem Opens.bracedForm : Opens bracedForm := by
  refine Opens.bind inner_indentation fun _ => Opens.bind (inner_keyword (by decide)) fun _ => ?_
  refine Opens.bind (Over.optional (inner_keyword (by decide))) fun _ => ?_
  refine Opens.before Opens.braced fun clause => Over.bind (Over.optional ?_) fun _ => Over.give _
  exact Over.bind Local.blanks.forward fun _ => (@Closing.fromSource []).forward

theorem Opens.starForm : Opens starForm := by
  refine Opens.bind inner_indentation fun _ => Opens.bind (inner_keyword (by decide)) fun _ => ?_
  refine Opens.bind (Over.optional (inner_keyword (by decide))) fun _ => ?_
  refine Opens.before (Opens.letters (by decide)) fun _ =>
    Over.bind Local.blanks.forward fun _ => ?_
  refine Over.bind (Over.optional ?_) fun _ => ?_
  · exact Over.bind (Local.keyword _).forward fun _ => Over.bind Local.identifier.forward fun _ =>
      Over.bind Local.blanks1.forward fun _ => Over.give _
  · exact Over.bind (@Closing.fromSource []).forward fun _ => Over.give _

theorem Opens.assignedForm : Opens assignedForm := by
  have hforward : forall _ : Unit, Forward (do
      let name <- identifier
      assignment
      Matcher.give name) := fun _ =>
    Over.bind Local.identifier.forward fun _ => Over.bind Forward.assignment fun _ => Over.give _
  have hmodule : Opens (Matcher.word "module.") :=
    @Opens.word "module." "module".toList [] '.' (by decide) (by decide) (by decide)
  have hexports : Opens (Matcher.word "exports.") :=
    @Opens.word "exports." "exports".toList [] '.' (by decide) (by decide) (by decide)
  refine Opens.bind inner_indentation fun _ => Opens.optional_bind hmodule ?_ ?_
  · exact fun _ => Over.bind (Local.word _).forward hforward
  · exact Opens.before hexports hforward

theorem Opens.assignedModuleForm : Opens assignedModuleForm := by
  have hword : Opens (Matcher.word "module.exports") :=
    @Opens.word "module.exports" "module".toList "exports".toList '.' (by decide) (by decide)
      (by decide)
  refine Opens.bind inner_indentation fun _ => Opens.before hword fun _ => ?_
  refine Over.bind Forward.assignment fun _ => Over.bind Local.blanks.forward fun _ => ?_
  exact Over.bind (Over.optional Local.braced.forward) fun _ => Over.give _

/-!
# What each form finds
-/

theorem Exported.stops_blank (what : Exported) (more : List Char) :
    Stops isBlank (what.read ++ more) := by
  cases what with
  | declares d =>
      rcases d.begins_or_type more with hbegins | htype
      · exact hbegins.stops (by decide)
      · show Stops isBlank (d.read ++ more)
        rw [htype]
        exact stops_cons (by decide) _
  | default value oneLine closed =>
      exact stops_cons (by decide) _
  | lists typeOnly list source semicolon =>
      cases typeOnly with
      | true =>
          exact stops_cons (by decide) _
      | false =>
          exact stops_cons (by decide) _
  | star name source q semicolon =>
      exact stops_cons (by decide) _

theorem refusesIndented_exports {form : Matcher α} (what : Exported) {more : List Char}
    (h : RefusesExported form (what.read ++ more)) :
    RefusesIndented form ((ExportBody.exports what).read ++ more) := by
  show RefusesIndented form (("export".toList ++ [' ']) ++ what.read ++ more)
  rw [List.append_assoc]
  exact h.indented (what.stops_blank more)

theorem Assigned.refuses_export (what : Assigned) (more : List Char) :
    Refuses (keyword "export") (what.read ++ more) := by
  cases what with
  | property viaModule name value oneLine =>
      cases viaModule with
      | true =>
          exact Refuses.keyword rfl
      | false =>
          have hword : "exports.".toList = "export".toList ++ "s.".toList := by
            decide
          show Refuses _ ([] ++ ("exports.".toList ++ (name.chars ++ ([' '] ++ ['=']))) ++ more)
          rw [List.nil_append, hword, List.append_assoc, List.append_assoc]
          exact Refuses.after (TakesOnly.word "export" _)
            (Refuses.blanks1 (stops_cons (by decide) _))
  | object list wordKeys semicolon =>
      exact Refuses.keyword rfl
  | whole value oneLine first =>
      exact Refuses.keyword rfl

theorem refusesIndented_assigns {form : Matcher α}
    (h : exists next, form = (indentation >>= fun _ => keyword "export" >>= next))
    (what : Assigned) (more : List Char) :
    RefusesIndented form ((ExportBody.assigns what).read ++ more) := by
  obtain ⟨next, rfl⟩ := h
  exact ⟨_, rfl, Refuses.bind (what.refuses_export more)⟩

theorem takesIndented_exports {form : Matcher α} (what : Exported) {value : α}
    (h : TakesExported form what.read value rest) :
    TakesIndented form (ExportBody.exports what).read value rest :=
  h.indented (what.stops_blank rest)

theorem refuses_assignedForm_exports (what : Exported) (more : List Char) :
    RefusesIndented assignedForm ((ExportBody.exports what).read ++ more) :=
  ⟨_, rfl, Refuses.optional_bind (Refuses.word rfl) (Refuses.bind (Refuses.word rfl))⟩

theorem refuses_assignedModuleForm_exports (what : Exported) (more : List Char) :
    RefusesIndented assignedModuleForm ((ExportBody.exports what).read ++ more) :=
  ⟨_, rfl, Refuses.bind (Refuses.word rfl)⟩

theorem begins_unmarked (list : Items Specifier) (source : Option (Source × Quote))
    (semicolon : Bool) (more : List Char) :
    Begins ["\x7b"] ((Exported.lists false list source semicolon).read ++ more) :=
  ⟨"\x7b", by decide, List.prefix_append _ _⟩

theorem begins_lists (typeOnly : Bool) (list : Items Specifier) (source : Option (Source × Quote))
    (semicolon : Bool) (more : List Char) :
    Begins ["type", "\x7b"] ((Exported.lists typeOnly list source semicolon).read ++ more) := by
  cases typeOnly with
  | true =>
      exact ⟨"type", by decide, List.prefix_append _ _⟩
  | false =>
      exact ⟨"\x7b", by decide, List.prefix_append _ _⟩

theorem begins_star (name : Option Identifier) (source : Source) (q : Quote) (semicolon : Bool)
    (more : List Char) : Begins ["*"] ((Exported.star name source q semicolon).read ++ more) :=
  ⟨"*", by decide, List.prefix_append _ _⟩

theorem begins_default (more : List Char) : Begins ["default"] ("default".toList ++ more) :=
  ⟨"default", by decide, List.prefix_append _ _⟩

def ExportBody.star? : ExportBody -> Option (Option String × String)
  | exports (.star name source _ _) => some (name.map (·.name), source.path)
  | _ => none

def ExportBody.listed? : ExportBody -> Option (List String × Option String)
  | exports (.lists _ list source _) =>
      some (list.items.map fun p => p.item.localName, source.map (·.1.path))
  | _ => none

def ExportBody.default? : ExportBody -> Option Unit
  | exports (.default _ _ _) => some ()
  | _ => none

def ExportBody.property? : ExportBody -> Option String
  | assigns (.property _ name _ _) => some name.name
  | _ => none

def ExportBody.keys? : ExportBody -> Option (List String)
  | assigns (.object list _ _) => some (list.items.map fun p => p.item.key.name)
  | assigns (.whole _ _ _) => some []
  | _ => none

theorem judges_starForm (body : ExportBody) (rest : List Char) :
    Judges starForm body.star? body rest := by
  cases body with
  | assigns what =>
      exact refusesIndented_assigns ⟨_, rfl⟩ what _
  | exports what =>
      cases what with
      | declares d =>
          exact refusesIndented_exports _ (opensWith_starForm.refuses_declaration (by decide) d _)
      | default value oneLine closed =>
          exact refusesIndented_exports _ (opensWith_starForm.refuses (by decide) (begins_default _)
            (stops_cons (by decide) _))
      | lists typeOnly list source semicolon =>
          refine refusesIndented_exports _ ?_
          cases typeOnly with
          | true =>
              show RefusesExported _ (("type".toList ++ [' ']) ++ _ ++ _)
              rw [List.append_assoc]
              exact opensWith_starForm.refuses_marked (by decide) (stops_cons (by decide) _)
                (stops_cons (by decide) _)
          | false =>
              exact opensWith_starForm.refuses (by decide)
                (begins_unmarked list source semicolon _) (stops_cons (by decide) _)
      | star name source q semicolon =>
          exact takesIndented_exports _ (takes_starForm false name source q _)

theorem refuses_source {blanks more : List Char} (hblanks : blanks.all isBlank = true)
    (hstop : Stops isBlank more) (hword : "from".toList.isPrefixOf more = false) :
    Refuses (do Matcher.blanks; fromSource : Matcher String) (blanks ++ more) :=
  Refuses.after (TakesOnly.blanks hblanks hstop) (Refuses.bind (Refuses.word hword))

theorem refuses_source_semicolon (rest : List Char) :
    Refuses (do Matcher.blanks; fromSource : Matcher String) ([';'] ++ rest) :=
  @refuses_source [] ([';'] ++ rest) rfl (stops_cons (by decide) _) rfl

theorem judges_bracedForm (body : ExportBody)
    (hrest : Refuses (do Matcher.blanks; fromSource : Matcher String) rest) :
    Judges bracedForm body.listed? body rest := by
  cases body with
  | assigns what =>
      exact refusesIndented_assigns ⟨_, rfl⟩ what _
  | exports what =>
      cases what with
      | declares d =>
          exact refusesIndented_exports _ (opensWith_bracedForm.refuses_declaration (by decide) d _)
      | default value oneLine closed =>
          exact refusesIndented_exports _
            (opensWith_bracedForm.refuses (by decide) (begins_default _)
              (stops_cons (by decide) _))
      | lists typeOnly list source semicolon =>
          refine takesIndented_exports _ (takes_bracedForm typeOnly list source fun _ => ?_)
          cases semicolon with
          | true =>
              exact refuses_source_semicolon rest
          | false =>
              exact hrest
      | star name source q semicolon =>
          exact refusesIndented_exports _ (opensWith_bracedForm.refuses (by decide)
            (begins_star name source q semicolon _) (stops_cons (by decide) _))

theorem judges_defaultForm (body : ExportBody) (rest : List Char) :
    Judges defaultForm body.default? body rest := by
  cases body with
  | assigns what =>
      exact refusesIndented_assigns ⟨_, rfl⟩ what _
  | exports what =>
      cases what with
      | declares d =>
          exact refusesIndented_exports _ (refuses_defaultForm (by decide) (d.begins _))
      | default value oneLine closed =>
          exact takesIndented_exports _ (takes_defaultForm (stops_cons (by decide) _))
      | lists typeOnly list source semicolon =>
          exact refusesIndented_exports _ (refuses_defaultForm (by decide)
            (begins_lists typeOnly list source semicolon _))
      | star name source q semicolon =>
          exact refusesIndented_exports _ (refuses_defaultForm (by decide)
            (begins_star name source q semicolon _))

theorem judges_assignedForm (body : ExportBody) (rest : List Char) :
    Judges assignedForm body.property? body rest := by
  cases body with
  | exports what =>
      exact refuses_assignedForm_exports what _
  | assigns what =>
      cases what with
      | property viaModule name value oneLine =>
          exact takes_assignedForm viaModule name value rest
      | object list wordKeys semicolon =>
          show RefusesIndented _ ("module.exports".toList ++ (([' '] ++ ['=']) ++ _) ++ _)
          rw [List.append_assoc, List.append_assoc, List.append_assoc]
          exact refuses_assignedForm_module _
      | whole value oneLine first =>
          show RefusesIndented _ ("module.exports".toList ++ (([' '] ++ ['=']) ++ _) ++ _)
          rw [List.append_assoc, List.append_assoc, List.append_assoc]
          exact refuses_assignedForm_module _

theorem judges_assignedModuleForm (body : ExportBody) (rest : List Char) :
    Judges assignedModuleForm body.keys? body rest := by
  cases body with
  | exports what =>
      exact refuses_assignedModuleForm_exports what _
  | assigns what =>
      cases what with
      | property viaModule name value oneLine =>
          show RefusesIndented _ (_ ++ _ ++ _)
          rw [List.append_assoc, List.append_assoc]
          exact refuses_assignedModuleForm_property viaModule _
      | object list wordKeys semicolon =>
          exact takes_assignedModuleForm_object list wordKeys _
      | whole value oneLine first =>
          exact takes_assignedModuleForm_whole first rest

/-!
# Declarations and default values
-/

def ExportBody.declared? : ExportBody -> Option String
  | exports (.declares d) => some d.name.name
  | _ => none

/-- The form of declarations may read a default value, too. -/
def ExportBody.Declares (body : ExportBody) (answer : Option String) : Prop :=
  answer = body.declared? ∨ body.default?.isSome = true ∧ answer = some defaultExport

theorem default?_of_declared {body : ExportBody} {name : String}
    (h : body.declared? = some name) : body.default? = none := by
  cases body with
  | assigns what =>
      rfl
  | exports what =>
      cases what with
      | declares | lists | star =>
          rfl
      | default =>
          cases h

theorem judges_declarationForm (body : ExportBody) (hbody : body.default? = none)
    (hrest : Stops isIdentifierChar rest) : Judges declarationForm body.declared? body rest := by
  cases body with
  | assigns what =>
      exact refusesIndented_assigns ⟨_, rfl⟩ what _
  | exports what =>
      cases what with
      | declares d =>
          exact takesIndented_exports _ (takes_declarationForm d hrest)
      | default value oneLine closed =>
          cases hbody
      | lists typeOnly list source semicolon =>
          refine refusesIndented_exports _ ?_
          cases typeOnly with
          | true =>
              show RefusesExported _ (("type".toList ++ [' ']) ++ _ ++ _)
              rw [List.append_assoc]
              exact refuses_declarationForm_typeList _
          | false =>
              exact refuses_declarationForm (begins_unmarked list source semicolon _) (by decide)
      | star name source q semicolon =>
          exact refusesIndented_exports _ (refuses_declarationForm
            (begins_star name source q semicolon _) (by decide))

theorem eq_default_of_mem {indent behind more : List Char} {found : String × Cursor}
    (hindent : indent.all isIndent = true)
    (hline : Cursor.atLineStart ⟨behind,
      indent ++ (("export".toList ++ [' ']) ++ ("default".toList ++ more))⟩ = true)
    (h : found ∈ declarationForm ⟨behind,
      indent ++ (("export".toList ++ [' ']) ++ ("default".toList ++ more))⟩) :
    found.1 = defaultExport := by
  have hstop : Stops isIndent (("export".toList ++ [' ']) ++ ("default".toList ++ more)) :=
    stops_cons (by decide) _
  have hword : Stops isBlank ("default".toList ++ more) := stops_cons (by decide) _
  have hdeclare : forall behind, optional (keyword "declare") ⟨behind, "default".toList ++ more⟩ =
      [(none, ⟨behind, "default".toList ++ more⟩)] :=
    TakesOnly.left_out (Refuses.keyword rfl)
  unfold declarationForm at h
  rw [bind_of_eq (indentation_eq hindent hstop hline),
    bind_of_eq (TakesOnly.keyword "export" hword _), bind_of_eq (hdeclare _)] at h
  obtain ⟨⟨mark, stop⟩, hmark, h⟩ := mem_bind_iff.mp h
  rcases mem_optional_iff.mp hmark with ⟨first, _, heq⟩ | heq
  · cases heq
    obtain ⟨_, _, h⟩ := mem_bind_iff.mp h
    obtain ⟨_, _, h⟩ := mem_bind_iff.mp h
    obtain ⟨_, _, h⟩ := mem_bind_iff.mp h
    obtain ⟨_, _, h⟩ := mem_bind_iff.mp h
    obtain ⟨_, _, h⟩ := mem_bind_iff.mp h
    rw [mem_give_iff.mp h]
    rfl
  · cases heq
    -- without the word `default` as a mark, there is no kind of declaration
    refine absurd h (Refuses.not_mem ?_ _ _)
    refine Refuses.optional_bind (Refuses.keyword rfl) ?_
    refine Refuses.optional_bind (Refuses.keyword rfl) ?_
    refine Refuses.bind (Refuses.anyOf fun kind hkind => ?_)
    rcases List.mem_cons.mp hkind with rfl | hkind
    · exact Refuses.bind (Refuses.keyword rfl)
    · obtain ⟨word, hword, rfl⟩ := List.mem_map.mp hkind
      have hapart : forall word, word ∈ kindWords -> Apart word ["default"] := by
        decide
      exact Refuses.word_apart (hapart word hword) (begins_default more)

theorem over_declarationForm : Over (fun ch => isInner ch || ch == '*') declarationForm := by
  have hinner : forall ch, isInner ch = true -> (isInner ch || ch == '*') = true := by
    intro ch h
    rw [h]
    rfl
  have hkeyword : forall {spelled : String}, spelled.toList.all isInner = true ->
      Over (fun ch => isInner ch || ch == '*') (keyword spelled) :=
    fun h => (inner_keyword h).weaken hinner
  have hwords : forall word, word ∈ kindWords -> word.toList.all isInner = true := by
    decide
  refine Over.bind (inner_indentation.weaken hinner) fun _ => ?_
  refine Over.bind (hkeyword (by decide)) fun _ => ?_
  refine Over.bind (Over.optional (hkeyword (by decide))) fun _ => ?_
  refine Over.bind (Over.optional (hkeyword (by decide))) fun _ => ?_
  refine Over.bind (Over.optional (hkeyword (by decide))) fun _ => ?_
  refine Over.bind (Over.optional (hkeyword (by decide))) fun _ => ?_
  refine Over.bind (Over.anyOf fun kind hkind => ?_) fun _ => Over.bind (Over.orElse ?_ ?_) fun _ =>
    Over.bind (inner_identifier.weaken hinner) fun _ => Over.give _
  · rcases List.mem_cons.mp hkind with rfl | hkind
    · exact Over.bind (hkeyword (by decide)) fun _ => (inner_word (by decide)).weaken hinner
    · obtain ⟨word, hword, rfl⟩ := List.mem_map.mp hkind
      exact (inner_word (hwords word hword)).weaken hinner
  · refine Over.bind (inner_blanks.weaken hinner) fun _ => Over.bind ?_ fun _ =>
      inner_blanks.weaken hinner
    exact Over.letters (List.all_eq_true.mp (by decide))
  · exact inner_blanks1.weaken hinner

theorem length_le_of_over {p : Char -> Bool} (hm : Over p m) {last : Char} (hlast : p last = false)
    {behind front : List Char} {found : α × Cursor}
    (h : found ∈ m ⟨behind, front ++ last :: rest⟩) : rest.length ≤ found.2.ahead.length := by
  obtain ⟨read, hread, hall⟩ := hm _ _ h
  by_contra hlt
  obtain ⟨between, hbetween⟩ := suffix_of_append_eq
    (hread.1.symm.trans (List.append_cons front last rest)) (Nat.le_of_lt (Nat.lt_of_not_le hlt))
  have hsplit : (front ++ last :: between) ++ found.2.ahead = read ++ found.2.ahead := by
    rw [List.append_assoc, List.cons_append, hbetween]
    exact hread.1
  have hmem : last ∈ read := by
    rw [<- List.append_cancel_right hsplit]
    simp
  rw [hall last hmem] at hlast
  cases hlast

theorem foundIn_declarationForm_default {indent value : List Char}
    (hindent : indent.all isIndent = true)
    (closed : exists front last, value = front ++ [last] ∧ last ∈ [';', ')', '}'])
    (hquiet : QuietInside declarationForm
      (indent ++ (("export".toList ++ [' ']) ++ ("default".toList ++ value))) rest) :
    FoundIn declarationForm (indent ++ (("export".toList ++ [' ']) ++ ("default".toList ++ value)))
      (fun answer => answer = none ∨ answer = some defaultExport) rest := by
  obtain ⟨front, last, rfl, hlast⟩ := closed
  have hclosing : [';', ')', '}'].all (fun ch => !(isInner ch || ch == '*')) = true := by decide
  have hlast : (isInner last || last == '*') = false := by
    simpa using List.all_eq_true.mp hclosing last hlast
  have hsplit : indent ++ (("export".toList ++ [' ']) ++ ("default".toList ++ (front ++ [last]))) ++
        rest =
      indent ++ (("export".toList ++ [' ']) ++ ("default".toList ++ (front ++ last :: rest))) := by
    simp
  refine FoundIn.first (by simp) (fun behind hline => ?_) hquiet
  rw [hsplit] at hline ⊢
  have hvalue := fun found => @eq_default_of_mem indent behind (front ++ last :: rest) found
    hindent hline
  refine ⟨_, rfl, ?_, fun found hfound => ?_⟩
  · cases hfirst : (declarationForm ⟨behind, indent ++ (("export".toList ++ [' ']) ++
        ("default".toList ++ (front ++ last :: rest)))⟩).head? with
    | none =>
        exact Or.inl rfl
    | some found =>
        exact Or.inr (congrArg some (hvalue found (List.mem_of_mem_head? hfirst)))
  · have hplace : indent ++ (("export".toList ++ [' ']) ++
          ("default".toList ++ (front ++ last :: rest))) =
        (indent ++ (("export".toList ++ [' ']) ++ ("default".toList ++ front))) ++
          last :: rest := by
      simp
    rw [hplace] at hfound
    exact length_le_of_over over_declarationForm hlast (List.mem_of_mem_head? hfound)

theorem ExportStatement.foundIn_declarationForm (s : ExportStatement)
    (hrest : Stops isIdentifierChar rest) :
    FoundIn declarationForm s.text s.body.Declares rest := by
  have hbegins : BeginsLine declarationForm := beginsLine_indentation_bind _
  have hquiet := @ExportStatement.quiet_of_passes _ _ rest s hbegins passesItems_declarationForm
  cases hdefault : s.body.default? with
  | none =>
      exact s.foundIn (Or.inl rfl) (judges_declarationForm s.body hdefault hrest) hquiet
  | some value =>
      obtain ⟨indent, body, indented⟩ := s
      cases body with
      | assigns what =>
          cases hdefault
      | exports what =>
          cases what with
          | declares | lists | star =>
              cases hdefault
          | default value oneLine closed =>
              obtain ⟨front, last, hvalue, hlast⟩ := closed
              have hclosed : exists front last, ' ' :: value = front ++ [last] ∧
                  last ∈ [';', ')', '}'] :=
                ⟨' ' :: front, last, by rw [hvalue]; rfl, hlast⟩
              have htext : forall closed, ExportStatement.text
                    ⟨indent, .exports (.default value oneLine closed), indented⟩ =
                  indent ++ (("export".toList ++ [' ']) ++ ("default".toList ++ (' ' :: value))) :=
                fun _ => congrArg (indent ++ ·) (List.append_assoc ..)
              rw [htext] at hquiet ⊢
              intro behind hline
              obtain ⟨answer, hanswer, hfind⟩ :=
                foundIn_declarationForm_default indented hclosed hquiet behind hline
              refine ⟨answer, ?_, hfind⟩
              rcases hanswer with rfl | rfl
              · exact Or.inl rfl
              · exact Or.inr ⟨rfl, rfl⟩

/-!
# A text of exports
-/

theorem refuses_source_below (blocks : List (Option ExportStatement)) :
    Refuses (do Matcher.blanks; fromSource : Matcher String)
      (below (blockText ExportStatement.text) blocks) := by
  have hline : ['\n'].all isBlank = true := by
    decide
  induction blocks with
  | nil =>
      exact @refuses_source [] [] rfl (stops_nil _) rfl
  | cons block blocks ih =>
      show Refuses _ (['\n'] ++ (blockText ExportStatement.text block ++ below _ blocks))
      refine Refuses.blanks_bind hline ?_
      cases block with
      | none =>
          exact ih
      | some s =>
          have hindent : s.indent.all isBlank = true :=
            all_of_indent s.indented
          show Refuses _ (s.indent ++ (s.body.read ++ s.body.ending) ++ below _ blocks)
          rw [List.append_assoc, List.append_assoc]
          refine refuses_source hindent (s.body.stops_read (by decide) (by decide) _) ?_
          exact isPrefixOf_of_stops (s.body.stops_read (by decide) (by decide) _) "rom".toList

theorem foundIn_block {form : Matcher α} {answer : ExportBody -> Option α}
    (hjudges : forall body rest,
      Refuses (do Matcher.blanks; fromSource : Matcher String) rest ->
        Judges form (answer body) body rest)
    (hquiet : forall (s : ExportStatement) rest, QuietInside form s.text rest)
    (block : Option ExportStatement) (others : List (Option ExportStatement)) :
    FoundIn form (blockText ExportStatement.text block)
      (fun other => other = block.bind fun s => answer s.body)
      (below (blockText ExportStatement.text) others) := by
  cases block with
  | none =>
      exact FoundIn.emptyLine rfl
  | some s =>
      exact s.foundIn rfl (hjudges s.body _ (refuses_source_below others)) (hquiet s _)

theorem foundIn_starForm (block : Option ExportStatement) (others : List (Option ExportStatement)) :
    FoundIn starForm (blockText ExportStatement.text block)
      (fun other => other = block.bind fun s => s.body.star?)
      (below (blockText ExportStatement.text) others) :=
  foundIn_block (fun body rest _ => judges_starForm body rest)
    (fun s _ => s.quiet_of_opens (beginsLine_indentation_bind _) Opens.starForm) block others

theorem foundIn_bracedForm (block : Option ExportStatement)
    (others : List (Option ExportStatement)) :
    FoundIn bracedForm (blockText ExportStatement.text block)
      (fun other => other = block.bind fun s => s.body.listed?)
      (below (blockText ExportStatement.text) others) :=
  foundIn_block (fun body _ hrest => judges_bracedForm body hrest)
    (fun s _ => s.quiet_of_opens (beginsLine_indentation_bind _) Opens.bracedForm) block others

theorem foundIn_defaultForm (block : Option ExportStatement)
    (others : List (Option ExportStatement)) :
    FoundIn defaultForm (blockText ExportStatement.text block)
      (fun other => other = block.bind fun s => s.body.default?)
      (below (blockText ExportStatement.text) others) :=
  foundIn_block (fun body rest _ => judges_defaultForm body rest)
    (fun s _ => s.quiet_of_passes (beginsLine_indentation_bind _) passesItems_defaultForm)
    block others

theorem foundIn_assignedForm (block : Option ExportStatement)
    (others : List (Option ExportStatement)) :
    FoundIn assignedForm (blockText ExportStatement.text block)
      (fun other => other = block.bind fun s => s.body.property?)
      (below (blockText ExportStatement.text) others) :=
  foundIn_block (fun body rest _ => judges_assignedForm body rest)
    (fun s _ => s.quiet_of_opens (beginsLine_indentation_bind _) Opens.assignedForm) block others

theorem foundIn_assignedModuleForm (block : Option ExportStatement)
    (others : List (Option ExportStatement)) :
    FoundIn assignedModuleForm (blockText ExportStatement.text block)
      (fun other => other = block.bind fun s => s.body.keys?)
      (below (blockText ExportStatement.text) others) :=
  foundIn_block (fun body rest _ => judges_assignedModuleForm body rest)
    (fun s _ => s.quiet_of_opens (beginsLine_indentation_bind _) Opens.assignedModuleForm)
    block others

theorem declared_written (blocks : List (Option ExportStatement)) :
    (forall s, some s ∈ blocks -> forall name, s.body.declared? = some name ->
      name ∈ (findAll declarationForm (written ExportStatement.text blocks)).map (·.value)) ∧
    forall name,
      name ∈ (findAll declarationForm (written ExportStatement.text blocks)).map (·.value) ->
        exists s, some s ∈ blocks ∧ s.body.Declares (some name) := by
  obtain ⟨answers, hanswers⟩ := @exists_answers _ declarationForm _
    (blockText ExportStatement.text)
    (fun block answer => match block with
      | none => answer = none
      | some s => s.body.Declares answer) blocks
    LineForm.declarationForm.stops (by
      intro block others _
      cases block with
      | none =>
          exact FoundIn.emptyLine rfl
      | some s =>
          exact s.foundIn_declarationForm (stops_below (by decide) _ _))
  have hblocks : answers.map (·.1.2.2) = blocks := by
    rw [<- map_placed (blockText ExportStatement.text) 0 1 blocks, <- hanswers.places, List.map_map]
    rfl
  rw [written, hanswers.values]
  constructor
  · intro s hs name hname
    rw [<- hblocks] at hs
    obtain ⟨⟨⟨offset, line, block⟩, answer⟩, hanswer, rfl⟩ := List.mem_map.mp hs
    refine List.mem_filterMap.mpr ⟨_, hanswer, ?_⟩
    rcases hanswers.allowed _ hanswer with hdeclared | ⟨hdefault, _⟩
    · exact hdeclared.trans hname
    · exact absurd hdefault (by rw [default?_of_declared hname]; exact Bool.false_ne_true)
  · intro name hname
    obtain ⟨⟨⟨offset, line, block⟩, answer⟩, hanswer, rfl⟩ := List.mem_filterMap.mp hname
    have hallowed := hanswers.allowed _ hanswer
    cases block with
    | none =>
        cases hallowed
    | some s =>
        refine ⟨s, ?_, hallowed⟩
        rw [<- hblocks]
        exact List.mem_map.mpr ⟨_, hanswer, rfl⟩

theorem ExportBody.mem_names_iff (body : ExportBody) (name : String) :
    name ∈ body.names <->
      body.declared? = some name ∨ (body.default?.isSome = true ∧ name = defaultExport) ∨
      (exists listed, body.listed? = some listed ∧ name ∈ listed.1) ∨
      (exists star, body.star? = some star ∧ star.1 = some name) ∨
      body.property? = some name ∨
      exists keys, body.keys? = some keys ∧ name ∈ defaultExport :: keys := by
  cases body with
  | exports what =>
      cases what <;>
        simp [names, declared?, default?, listed?, star?, property?, keys?, eq_comm]
  | assigns what =>
      cases what <;>
        simp [names, declared?, default?, listed?, star?, property?, keys?, eq_comm]

variable {blocks : List (Option ExportStatement)}

theorem exists_found_iff {form : Matcher α} {answer : ExportBody -> Option α}
    (hend : forall tail, Refuses form ('\n' :: tail))
    (hform : forall block others, FoundIn form (blockText ExportStatement.text block)
      (fun other => other = block.bind fun s => answer s.body)
      (below (blockText ExportStatement.text) others)) (p : α -> Prop) :
    (exists found, found ∈ findAll form (written ExportStatement.text blocks) ∧ p found.value) <->
      exists s, some s ∈ blocks ∧ exists value, answer s.body = some value ∧ p value := by
  have hvalues : (findAll form (written ExportStatement.text blocks)).map (·.value) =
      blocks.filterMap fun block => block.bind fun s => answer s.body :=
    findAll_blocks_values hend fun block others _ => hform block others
  constructor
  · rintro ⟨found, hfound, hp⟩
    have hmem := List.mem_map_of_mem (f := fun found => found.value) hfound
    rw [hvalues] at hmem
    obtain ⟨block, hblock, hanswer⟩ := List.mem_filterMap.mp hmem
    obtain ⟨s, rfl, hvalue⟩ := Option.bind_eq_some_iff.mp hanswer
    exact ⟨s, hblock, found.value, hvalue, hp⟩
  · rintro ⟨s, hs, value, hvalue, hp⟩
    have hmem : value ∈ (findAll form (written ExportStatement.text blocks)).map (·.value) := by
      rw [hvalues]
      exact List.mem_filterMap.mpr ⟨some s, hs, hvalue⟩
    obtain ⟨found, hfound, rfl⟩ := List.mem_map.mp hmem
    exact ⟨found, hfound, hp⟩

theorem mem_names_written (name : String) :
    name ∈ (exportsOfCode (written ExportStatement.text blocks)).names <->
      exists s, some s ∈ blocks ∧ name ∈ s.body.names := by
  obtain ⟨hdeclared, hdeclares⟩ := declared_written blocks
  have hdefault : findAll defaultForm (written ExportStatement.text blocks) ≠ [] <->
      exists found, found ∈ findAll defaultForm (written ExportStatement.text blocks) ∧ True := by
    simp only [and_true]
    exact ⟨List.exists_mem_of_ne_nil _, fun ⟨_, hfound⟩ => List.ne_nil_of_mem hfound⟩
  rw [mem_names_iff, hdefault]
  simp only [List.mem_filterMap, List.mem_flatMap, List.mem_map, exists_exists_and_eq_and]
  rw [exists_found_iff LineForm.defaultForm.stops foundIn_defaultForm fun _ => True,
    exists_found_iff LineForm.bracedForm.stops foundIn_bracedForm fun listed => name ∈ listed.1,
    exists_found_iff LineForm.starForm.stops foundIn_starForm fun star => star.1 = some name,
    exists_found_iff LineForm.assignedForm.stops foundIn_assignedForm fun other => other = name,
    exists_found_iff LineForm.assignedModuleForm.stops foundIn_assignedModuleForm fun keys =>
      name ∈ defaultExport :: keys]
  simp only [ExportBody.mem_names_iff]
  constructor
  · rintro (h | ⟨⟨s, hs, _, hvalue, _⟩, hname⟩ | ⟨s, hs, hlisted⟩ | ⟨s, hs, hstar⟩ |
      ⟨s, hs, _, hvalue, rfl⟩ | ⟨s, hs, hkeys⟩)
    · obtain ⟨s, hs, hvalue | ⟨hdefault, hname⟩⟩ := hdeclares name (List.mem_map.mpr h)
      · exact ⟨s, hs, Or.inl hvalue.symm⟩
      · exact ⟨s, hs, Or.inr (Or.inl ⟨hdefault, Option.some.inj hname⟩)⟩
    · exact ⟨s, hs, Or.inr (Or.inl ⟨by rw [hvalue]; rfl, hname⟩)⟩
    · exact ⟨s, hs, Or.inr (Or.inr (Or.inl hlisted))⟩
    · exact ⟨s, hs, Or.inr (Or.inr (Or.inr (Or.inl hstar)))⟩
    · exact ⟨s, hs, Or.inr (Or.inr (Or.inr (Or.inr (Or.inl hvalue))))⟩
    · exact ⟨s, hs, Or.inr (Or.inr (Or.inr (Or.inr (Or.inr hkeys))))⟩
  · rintro ⟨s, hs, hvalue | ⟨hdefault, hname⟩ | hlisted | hstar | hvalue | hkeys⟩
    · exact Or.inl (List.mem_map.mp (hdeclared s hs name hvalue))
    · obtain ⟨value, hvalue⟩ := Option.isSome_iff_exists.mp hdefault
      exact Or.inr (Or.inl ⟨⟨s, hs, value, hvalue, trivial⟩, hname⟩)
    · exact Or.inr (Or.inr (Or.inl ⟨s, hs, hlisted⟩))
    · exact Or.inr (Or.inr (Or.inr (Or.inl ⟨s, hs, hstar⟩)))
    · exact Or.inr (Or.inr (Or.inr (Or.inr (Or.inl ⟨s, hs, name, hvalue, rfl⟩))))
    · exact Or.inr (Or.inr (Or.inr (Or.inr (Or.inr ⟨s, hs, hkeys⟩))))

theorem starSources_written (blocks : List (Option ExportStatement)) :
    (exportsOfCode (written ExportStatement.text blocks)).starSources =
      blocks.filterMap fun block => block.bind fun s => s.body.starSource := by
  have hvalues : (findAll starForm (written ExportStatement.text blocks)).map (·.value) =
      blocks.filterMap fun block => block.bind fun s => s.body.star? :=
    findAll_blocks_values LineForm.starForm.stops fun block others _ =>
      foundIn_starForm block others
  have hstar : forall body : ExportBody,
      (body.star?.bind fun star => if star.1.isNone then some star.2 else none) =
        body.starSource := by
    intro body
    cases body with
    | assigns what =>
        rfl
    | exports what =>
        cases what with
        | declares | default | lists =>
            rfl
        | star name source q semicolon =>
            cases name <;> rfl
  show ((findAll starForm (written ExportStatement.text blocks)).map (·.value)).filterMap _ = _
  rw [hvalues, List.filterMap_filterMap]
  refine List.filterMap_congr fun block _ => ?_
  rw [Option.bind_assoc]
  exact congrArg block.bind (funext fun s => hstar s.body)

theorem commonjs_iff (code : List Char) :
    (exportsOfCode code).commonjs = true <->
      (exists found, found ∈ findAll assignedForm code ∧ True) ∨
        exists found, found ∈ findAll assignedModuleForm code ∧ True := by
  show (!(((findAll assignedForm code).map (·.value)).isEmpty &&
    ((findAll assignedModuleForm code).map (·.value)).isEmpty)) = true <-> _
  cases findAll assignedForm code <;> cases findAll assignedModuleForm code <;> simp

theorem commonjs_written (blocks : List (Option ExportStatement)) :
    (exportsOfCode (written ExportStatement.text blocks)).commonjs =
      blocks.any fun block => block.any fun s => s.body.isAssignment := by
  have hbody : forall body : ExportBody, body.isAssignment = true <->
      (exists value, body.property? = some value) ∨ exists value, body.keys? = some value := by
    intro body
    cases body with
    | exports what =>
        simp [ExportBody.isAssignment, ExportBody.property?, ExportBody.keys?]
    | assigns what =>
        cases what <;> simp [ExportBody.isAssignment, ExportBody.property?, ExportBody.keys?]
  rw [Bool.eq_iff_iff, commonjs_iff,
    exists_found_iff LineForm.assignedForm.stops foundIn_assignedForm fun _ => True,
    exists_found_iff LineForm.assignedModuleForm.stops foundIn_assignedModuleForm fun _ => True,
    List.any_eq_true]
  simp only [and_true, Option.any_eq_true, hbody]
  constructor
  · rintro (⟨s, hs, hvalue⟩ | ⟨s, hs, hvalue⟩)
    · exact ⟨some s, hs, s, rfl, Or.inl hvalue⟩
    · exact ⟨some s, hs, s, rfl, Or.inr hvalue⟩
  · rintro ⟨_, hs, s, rfl, hvalue | hvalue⟩
    · exact Or.inl ⟨s, hs, hvalue⟩
    · exact Or.inr ⟨s, hs, hvalue⟩

/-!
# Records of what is passed on
-/

theorem perm_filterMap_append {β : Type} {f g both : α -> Option β} {l : List α}
    (h : forall a, a ∈ l -> (both a = f a ∧ g a = none) ∨ both a = g a ∧ f a = none) :
    (l.filterMap f ++ l.filterMap g).Perm (l.filterMap both) := by
  induction l with
  | nil =>
      exact List.Perm.nil
  | cons a l ih =>
      have hrest := ih fun b hb => h b (List.mem_cons_of_mem a hb)
      rcases h a (List.mem_cons_self ..) with ⟨hboth, hnone⟩ | ⟨hboth, hnone⟩
      · rw [List.filterMap_cons_none hnone, List.filterMap_cons, List.filterMap_cons, hboth]
        cases f a with
        | none =>
            exact hrest
        | some b =>
            exact hrest.cons b
      · rw [List.filterMap_cons_none hnone, List.filterMap_cons, List.filterMap_cons, hboth]
        cases g a with
        | none =>
            exact hrest
        | some b =>
            exact List.perm_middle.trans (hrest.cons b)

def listedRecord (line : Nat) (listed : List String × Option String) : Option Reexport :=
  listed.2.map fun source => { source := source, line := line, names := listed.1 }

def starRecord (line : Nat) (star : Option String × String) : Reexport :=
  { source := star.2, line := line, names := star.1.toList, star := star.1.isNone }

theorem ExportBody.reexport_cases (body : ExportBody) (line : Nat) :
    (body.reexport line = body.listed?.bind (listedRecord line) ∧
      body.star?.map (starRecord line) = none) ∨
    (body.reexport line = body.star?.map (starRecord line) ∧
      body.listed?.bind (listedRecord line) = none) := by
  cases body with
  | assigns what =>
      exact Or.inl ⟨rfl, rfl⟩
  | exports what =>
      cases what with
      | declares | default =>
          exact Or.inl ⟨rfl, rfl⟩
      | lists typeOnly list source semicolon =>
          cases source <;> exact Or.inl ⟨rfl, rfl⟩
      | star name source q semicolon =>
          cases name <;> exact Or.inr ⟨rfl, rfl⟩

theorem ExportBody.line_of_reexport {body : ExportBody} {line : Nat} {record : Reexport}
    (h : body.reexport line = some record) : record.line = line := by
  unfold reexport at h
  split at h
  · cases h
    rfl
  · cases h
    rfl
  · cases h

theorem reexportsOfCode_written (blocks : List (Option ExportStatement)) :
    reexportsOfCode (written ExportStatement.text blocks) =
      (withLines ExportStatement.text 1 blocks).filterMap fun place =>
        place.2.body.reexport place.1 := by
  have hlisted : (findAll bracedForm (written ExportStatement.text blocks)).map Found.shown =
      (placed (blockText ExportStatement.text) 0 1 blocks).filterMap fun place =>
        (place.2.2.bind fun s => s.body.listed?).map fun value => (place.1, place.2.1, value) :=
    findAll_blocks LineForm.bracedForm.stops fun block others _ => foundIn_bracedForm block others
  have hstars : (findAll starForm (written ExportStatement.text blocks)).map Found.shown =
      (placed (blockText ExportStatement.text) 0 1 blocks).filterMap fun place =>
        (place.2.2.bind fun s => s.body.star?).map fun value => (place.1, place.2.1, value) :=
    findAll_blocks LineForm.starForm.stops fun block others _ => foundIn_starForm block others
  have hlistedRecords : forall founds : List (Found (List String × Option String)),
      founds.filterMap listedReexport =
        (founds.map Found.shown).filterMap fun shown => listedRecord shown.2.1 shown.2.2 := by
    intro founds
    rw [List.filterMap_map]
    rfl
  have hstarRecords : forall founds : List (Found (Option String × String)),
      founds.map starReexport =
        (founds.map Found.shown).map fun shown => starRecord shown.2.1 shown.2.2 := by
    intro founds
    rw [List.map_map]
    rfl
  rw [reexportsOfCode_eq, hlistedRecords, hstarRecords, hlisted, hstars, withLines_eq _ 0,
    List.filterMap_filterMap, List.map_filterMap, List.filterMap_filterMap]
  generalize hplaces : placed (blockText ExportStatement.text) 0 1 blocks = places
  have hpairwise := (pairwise_placed (blockText ExportStatement.text) 0 1 blocks).1
  rw [hplaces] at hpairwise
  refine sortBy_of_perm (List.Pairwise.filterMap _ ?_ hpairwise) (perm_filterMap_append ?_)
  · rintro ⟨offset, line, block⟩ ⟨offset', line', block'⟩ ⟨_, hlt⟩ record hrecord record' hrecord'
    obtain ⟨place, hplace, hread⟩ := Option.bind_eq_some_iff.mp hrecord
    obtain ⟨place', hplace', hread'⟩ := Option.bind_eq_some_iff.mp hrecord'
    obtain ⟨s, _, rfl⟩ := Option.map_eq_some_iff.mp hplace
    obtain ⟨s', _, rfl⟩ := Option.map_eq_some_iff.mp hplace'
    rw [ExportBody.line_of_reexport hread, ExportBody.line_of_reexport hread']
    exact hlt
  · rintro ⟨offset, line, block⟩ _
    cases block with
    | none =>
        exact Or.inl ⟨rfl, rfl⟩
    | some s =>
        have hcases := s.body.reexport_cases line
        have hlistedValue : ((s.body.listed?.map fun value => (offset, line, value)).bind
            fun shown => listedRecord shown.2.1 shown.2.2) =
              s.body.listed?.bind (listedRecord line) := by
          cases s.body.listed? <;> rfl
        have hstarValue : ((s.body.star?.map fun value => (offset, line, value)).map
            fun shown => starRecord shown.2.1 shown.2.2) = s.body.star?.map (starRecord line) := by
          cases s.body.star? <;> rfl
        rw [<- hlistedValue, <- hstarValue] at hcases
        exact hcases

/--
Export statements on lines of their own are read back: the names that they export, the modules
that they pass on as a whole, whether they assign to `exports`, and their records in order.
-/
theorem scan_exports_written (path : String) (blocks : List (Option ExportStatement)) :
    let module := scan path (String.ofList (written ExportStatement.text blocks))
    (forall name, name ∈ module.exports.names <->
      exists s, some s ∈ blocks ∧ name ∈ s.body.names) ∧
    module.exports.starSources = (blocks.filterMap fun block => block.bind (·.body.starSource)) ∧
    module.exports.commonjs = (blocks.any fun block => block.any (·.body.isAssignment)) ∧
    module.reexports = (withLines ExportStatement.text 1 blocks).filterMap fun place =>
      place.2.body.reexport place.1 := by
  intro module
  have hmodule : module = scanCode path (written ExportStatement.text blocks) := by
    show scan path (String.ofList _) = _
    rw [scan_ofList, withoutComments_written ExportStatement.commentFree]
  rw [hmodule, exports_scanCode, reexports_scanCode]
  exact ⟨mem_names_written, starSources_written blocks, commonjs_written blocks,
    reexportsOfCode_written blocks⟩

example : ExportStatement.text
    { indent := []
      body := .exports (.declares
        { declareMark := false
          asyncMark := true
          abstractMark := false
          kind := .generator
          name := ⟨"f", 'f', [], rfl, rfl, nofun⟩
          ending := "() \x7b\x7d".toList
          oneLine := by decide
          apart := stops_cons (by decide) _
          unlikeKind := nofun })
      indented := rfl } = "export async function* f() \x7b\x7d".toList := by
  decide

end SourceModule
end Joinery
