import Joinery.Proofs.SourceModule.WrittenExports
import Joinery.Proofs.Validation.StarExports

/-!
# Star re-exports line by line

## A star that is taken for a declaration

Behind the word `type` the star of a re-export looks like the star of a generator.  So the
form of declarations reads these lines, too, and the word behind the star becomes a name that
the module seems to export.  All other lines are read by one form only.
-/

namespace Joinery
namespace SourceModule

open Text Matcher

variable {α : Type} {more rest : List Char}

/-- A line that passes another module on, or that declares a constant. -/
inductive StarLine where
  | star (typeOnly : Bool) (name : Option Identifier) (source : Source) (q : Quote)
  | constant (name : Identifier)

namespace StarLine

def exported : StarLine -> List Char
  | star typeOnly name source q =>
      marked typeOnly "type" ++ (['*'] ++ ([' '] ++ (starName name ++ source.from q)))
  | constant name => ("const".toList ++ [' ']) ++ name.chars ++ " = 1".toList

def text (line : StarLine) : List Char :=
  ("export".toList ++ [' ']) ++ line.exported

def name? : StarLine -> Option String
  | star _ name _ _ => name.map (·.name)
  | constant name => some name.name

/-- The word behind the star that is read as the name of a type. -/
def strayName? : StarLine -> Option String
  | star true none _ _ => some "from"
  | star true (some _) _ _ => some "as"
  | _ => none

def starSource? : StarLine -> Option String
  | star _ none source _ => some source.path
  | _ => none

/-!
# What stands on a line
-/

theorem begins_constant (name : Identifier) (more : List Char) :
    "const".toList <+: (constant name).exported ++ more := by
  unfold exported
  rw [List.append_assoc, List.append_assoc, List.append_assoc]
  exact List.prefix_append _ _

theorem begins_exported (line : StarLine) (more : List Char) :
    Begins ["const", "*"] (line.exported ++ more) ∨
      exists name source q, line = star true name source q := by
  cases line with
  | constant name =>
      exact Or.inl ⟨"const", by decide, begins_constant name more⟩
  | star typeOnly name source q =>
      cases typeOnly with
      | true =>
          exact Or.inr ⟨name, source, q, rfl⟩
      | false =>
          exact Or.inl ⟨"*", by decide, List.prefix_append _ _⟩

theorem stops_exported (line : StarLine) (more : List Char) :
    Stops isBlank (line.exported ++ more) := by
  rcases line.begins_exported more with hbegins | ⟨name, source, q, rfl⟩
  · exact hbegins.stops (by decide)
  · exact stops_cons (by decide) _

theorem lineEnd_not_mem (line : StarLine) : '\n' ∉ line.text := by
  refine List.not_mem_append (by decide) ?_
  cases line with
  | constant name =>
      exact List.not_mem_append (List.not_mem_append (by decide) (name.not_mem (by decide)))
        (by decide)
  | star typeOnly name source q =>
      have hname : '\n' ∉ starName name := by
        cases name with
        | none =>
            exact List.not_mem_nil
        | some name =>
            exact List.not_mem_append (by decide)
              (List.not_mem_append (name.not_mem (by decide)) (by decide))
      exact List.not_mem_append (marked_not_mem (by decide) (by decide) _)
        (List.not_mem_append (by decide) (List.not_mem_append (by decide)
          (List.not_mem_append hname (source.from_lineEnd q))))

theorem commentFree (line : StarLine) : CommentFree line.text := by
  have hline : '\n' ∉ 'e' :: ("xport".toList ++ [' '] ++ line.exported) := line.lineEnd_not_mem
  exact CommentFree.cons_line (by decide) (by decide) (by decide)
    fun hmem => hline (List.mem_cons_of_mem _ hmem)

theorem foundIn_of_takes {form : Matcher α} (hform : BeginsLine form) {line : StarLine}
    {read ending : List Char} {value : α} (hsplit : line.exported = read ++ ending)
    (h : TakesExported form read value (ending ++ rest)) :
    FoundIn form line.text (fun answer => answer = some value) rest := by
  have htext : line.text = [] ++ ((("export".toList ++ [' ']) ++ read) ++ ending) :=
    (congrArg (("export".toList ++ [' ']) ++ ·) hsplit).trans (List.append_assoc ..).symm
  have hblank : Stops isBlank (read ++ (ending ++ rest)) := by
    rw [<- List.append_assoc, <- hsplit]
    exact line.stops_exported rest
  have hquiet : QuietInside form line.text rest := quietInside_of_line hform line.lineEnd_not_mem
  rw [htext] at hquiet ⊢
  exact FoundIn.of_takes rfl rfl (stops_cons (by decide) _) (List.cons_ne_nil _ _)
    (h.indented hblank) hquiet

theorem foundIn_of_refuses {form : Matcher α} (hform : BeginsLine form) {line : StarLine}
    (h : RefusesIndented form (line.text ++ rest)) :
    FoundIn form line.text (fun answer => answer = none) rest :=
  @FoundIn.of_refuses _ [] line.text rest form _ rfl rfl (stops_cons (by decide) _) h
    (quietInside_of_line hform line.lineEnd_not_mem)

theorem refusesIndented {form : Matcher α} {line : StarLine}
    (h : RefusesExported form (line.exported ++ rest)) :
    RefusesIndented form (line.text ++ rest) := by
  show RefusesIndented form (("export".toList ++ [' ']) ++ line.exported ++ rest)
  rw [List.append_assoc]
  exact h.indented (line.stops_exported rest)

/-!
# Declarations
-/

end StarLine

theorem takes_declarationForm_unmarked {read : List Char} {name : String}
    (hbegins : Begins kindWords (read ++ rest))
    (h : Takes (anyOf declarationKinds >>= fun _ => declarationGap >>= fun _ =>
      identifier >>= fun name => give name) read name rest) :
    TakesExported declarationForm read name rest := by
  have hkeyword : forall word, word ∈ ["declare", "default", "async", "abstract"] ->
      TakesOnly (optional (keyword word)) [] none (read ++ rest) := by
    intro word hword
    have hapart : forall word, word ∈ ["declare", "default", "async", "abstract"] ->
        Apart word kindWords := by
      decide
    exact TakesOnly.left_out (Refuses.keyword_apart (hapart word hword) hbegins)
  refine ⟨_, rfl, ?_⟩
  rw [<- List.nil_append read]
  refine Takes.bind (hkeyword "declare" (by decide)).takes ?_
  rw [<- List.nil_append read]
  refine Takes.bind (hkeyword "default" (by decide)).takes ?_
  rw [<- List.nil_append read]
  refine Takes.bind (hkeyword "async" (by decide)).takes ?_
  rw [<- List.nil_append read]
  exact Takes.bind (hkeyword "abstract" (by decide)).takes h

theorem Refuses.enum_assigned {next : String -> Matcher α} (name : Identifier) (rest : List Char) :
    Refuses (Matcher.word "enum" >>= fun _ => declarationGap >>= fun _ =>
      SourceModule.identifier >>= next) (name.chars ++ (" = 1".toList ++ rest)) := by
  by_cases henum : name.name = "enum"
  · have hgap : TakesOnly declarationGap [' '] () ("= 1".toList ++ rest) :=
      TakesOnly.blankGap (stops_cons (by decide) _) (stops_cons (by decide) _)
    rw [Identifier.chars, henum]
    refine Refuses.after (TakesOnly.word "enum" _) ?_
    show Refuses _ ([' '] ++ ("= 1".toList ++ rest))
    exact Refuses.after hgap (Refuses.bind (Refuses.identifier (stops_cons (by decide) _)))
  · exact Refuses.enum_gap name (stops_cons (by decide) _) henum

/-- Behind the word `type`, a star between blanks is read like the star of a generator. -/
theorem takes_typeStar (name : Identifier) (hrest : Stops isIdentifierChar rest) :
    TakesExported declarationForm ("type".toList ++ ([' ', '*', ' '] ++ name.chars)) name.name
      rest := by
  have hname : Takes (identifier >>= fun name => give name) name.chars name.name rest :=
    (TakesOnly.identifier name hrest).map.takes
  have hgap : Takes declarationGap [' ', '*', ' '] () (name.chars ++ rest) := by
    refine Takes.orElse ?_
    show Takes _ ([' '] ++ (['*'] ++ [' '])) _ _
    refine Takes.bind (TakesOnly.blanks (by decide) (stops_cons (by decide) _)).takes ?_
    refine Takes.bind (TakesOnly.letters ['*'] _).takes ?_
    exact (TakesOnly.blanks (by decide) (name.stops_blank rest)).takes
  have hwords : forall word, word ∈ kindWords -> word ≠ "type" -> Apart word ["type"] := by
    decide
  refine takes_declarationForm_unmarked ⟨"type", by decide, ?_⟩ ?_
  · rw [List.append_assoc]
    exact List.prefix_append _ _
  · rw [declarationKinds, anyOf, orElse_bind]
    refine Takes.orElse_right (Refuses.bind (Refuses.bind (Refuses.keyword rfl))) ?_
    exact Takes.bind (Takes.anyWord (by decide) hwords _) (Takes.bind hgap hname)

namespace StarLine

def declared? : StarLine -> Option String
  | constant name => some name.name
  | line => line.strayName?

theorem foundIn_declarationForm (line : StarLine) (rest : List Char) :
    FoundIn declarationForm line.text (fun answer => answer = line.declared?) rest := by
  have hform : BeginsLine declarationForm := beginsLine_indentation_bind _
  cases line with
  | constant name =>
      have hrest : Stops isIdentifierChar (" = 1".toList ++ rest) := stops_cons (by decide) _
      have hkind := takes_kind (.plain "const" (by decide)) name id
        (fun _ _ => Refuses.enum_assigned name rest) hrest
      refine foundIn_of_takes hform rfl
        (takes_declarationForm_unmarked ⟨"const", by decide, ?_⟩ hkind)
      rw [<- List.append_assoc]
      exact begins_constant name rest
  | star typeOnly name source q =>
      cases typeOnly with
      | false =>
          have hbegins : Begins ["*"] ((star false name source q).exported ++ rest) :=
            ⟨"*", by decide, List.prefix_append _ _⟩
          exact foundIn_of_refuses hform
            (refusesIndented (refuses_declarationForm hbegins (by decide)))
      | true =>
          cases name with
          | none =>
              have hword : IsIdentifier "from" :=
                ⟨'f', "rom".toList, rfl, rfl, List.all_eq_true.mp rfl⟩
              have hsplit : (star true none source q).exported =
                  ("type".toList ++ ([' ', '*', ' '] ++ "from".toList)) ++
                    ([' '] ++ source.quoted q) :=
                rfl
              exact foundIn_of_takes hform hsplit
                (takes_typeStar ⟨"from", hword⟩ (stops_cons (by decide) _))
          | some name =>
              have hword : IsIdentifier "as" :=
                ⟨'a', ['s'], rfl, rfl, List.all_eq_true.mp rfl⟩
              have hsplit : (star true (some name) source q).exported =
                  ("type".toList ++ ([' ', '*', ' '] ++ "as".toList)) ++
                    ([' '] ++ (name.chars ++ ([' '] ++ source.from q))) :=
                congrArg (fun tail => "type * as ".toList ++ tail)
                  (List.append_assoc name.chars [' '] (source.from q))
              exact foundIn_of_takes hform hsplit
                (takes_typeStar ⟨"as", hword⟩ (stops_cons (by decide) _))

def star? : StarLine -> Option (Option String × String)
  | star _ name source _ => some (name.map (·.name), source.path)
  | constant _ => none

theorem foundIn_starForm (line : StarLine) (rest : List Char) :
    FoundIn starForm line.text (fun answer => answer = line.star?) rest := by
  have hform : BeginsLine starForm := beginsLine_indentation_bind _
  cases line with
  | constant name =>
      have hbegins : Begins ["const"] ((constant name).exported ++ rest) :=
        ⟨"const", List.mem_singleton_self _, begins_constant name rest⟩
      exact foundIn_of_refuses hform (refusesIndented
        (opensWith_starForm.refuses (by decide) hbegins (hbegins.stops (by decide))))
  | star typeOnly name source q =>
      exact foundIn_of_takes hform (List.append_nil _).symm
        (takes_starForm typeOnly name source q _)

theorem foundIn_bracedForm (line : StarLine) (rest : List Char) :
    FoundIn bracedForm line.text (fun answer => answer = none) rest := by
  have hform : BeginsLine bracedForm := beginsLine_indentation_bind _
  refine foundIn_of_refuses hform (refusesIndented ?_)
  rcases line.begins_exported rest with hbegins | ⟨name, source, q, rfl⟩
  · exact opensWith_bracedForm.refuses (by decide) hbegins (hbegins.stops (by decide))
  · show RefusesExported _ (("type".toList ++ [' ']) ++ _ ++ _)
    rw [List.append_assoc]
    exact opensWith_bracedForm.refuses_marked (by decide) (stops_cons (by decide) _)
      (stops_cons (by decide) _)

theorem foundIn_defaultForm (line : StarLine) (rest : List Char) :
    FoundIn defaultForm line.text (fun answer => answer = none) rest := by
  have hform : BeginsLine defaultForm := beginsLine_indentation_bind _
  refine foundIn_of_refuses hform (refusesIndented ?_)
  rcases line.begins_exported rest with hbegins | ⟨name, source, q, rfl⟩
  · exact refuses_defaultForm (by decide) hbegins
  · exact refuses_defaultForm (by decide)
      ⟨"type", List.mem_singleton_self _, List.prefix_append _ _⟩

theorem foundIn_assignedForm (line : StarLine) (rest : List Char) :
    FoundIn assignedForm line.text (fun answer => answer = none) rest :=
  foundIn_of_refuses (beginsLine_indentation_bind _)
    ⟨_, rfl, Refuses.optional_bind (Refuses.word rfl) (Refuses.bind (Refuses.word rfl))⟩

theorem foundIn_assignedModuleForm (line : StarLine) (rest : List Char) :
    FoundIn assignedModuleForm line.text (fun answer => answer = none) rest :=
  foundIn_of_refuses (beginsLine_indentation_bind _) ⟨_, rfl, Refuses.bind (Refuses.word rfl)⟩

/-!
# A text of such lines
-/

theorem findAll_written {form : Matcher α} {answer : StarLine -> Option α}
    (hend : forall tail, Refuses form ('\n' :: tail))
    (h : forall (line : StarLine) rest,
      FoundIn form line.text (fun other => other = answer line) rest)
    (lines : List (Option StarLine)) :
    (findAll form (written text lines)).map (·.value) =
      lines.filterMap fun block => block.bind answer := by
  refine findAll_blocks_values hend ?_
  intro block others _
  cases block with
  | none =>
      exact FoundIn.emptyLine rfl
  | some line =>
      exact h line _

theorem findAll_written_eq_nil {form : Matcher α} (hend : forall tail, Refuses form ('\n' :: tail))
    (h : forall (line : StarLine) rest, FoundIn form line.text (fun other => other = none) rest)
    (lines : List (Option StarLine)) : findAll form (written text lines) = [] := by
  have hvalues := @findAll_written _ _ (fun _ => none) hend h lines
  have hnone : (lines.filterMap fun block => block.bind fun _ => (none : Option α)) = [] :=
    List.filterMap_eq_nil_iff.mpr fun block _ => by cases block <;> rfl
  rw [hnone, List.map_eq_nil_iff] at hvalues
  exact hvalues

theorem exportsOfCode_written (lines : List (Option StarLine)) :
    exportsOfCode (written text lines) =
      { names := ((lines.filterMap fun block => block.bind declared?) ++
          (lines.filterMap fun block => block.bind star?).filterMap (·.1)).eraseDups
        starSources := lines.filterMap fun block => block.bind starSource?
        commonjs := false } := by
  have hdeclared := findAll_written LineForm.declarationForm.stops foundIn_declarationForm lines
  have hstars := findAll_written LineForm.starForm.stops foundIn_starForm lines
  have hdefault := findAll_written_eq_nil LineForm.defaultForm.stops foundIn_defaultForm lines
  have hlisted := findAll_written_eq_nil LineForm.bracedForm.stops foundIn_bracedForm lines
  have hassigned := findAll_written_eq_nil LineForm.assignedForm.stops foundIn_assignedForm lines
  have hobjects :=
    findAll_written_eq_nil LineForm.assignedModuleForm.stops foundIn_assignedModuleForm lines
  have hsources : (lines.filterMap fun block => block.bind star?).filterMap
      (fun star => if star.1.isNone then some star.2 else none) =
        lines.filterMap fun block => block.bind starSource? := by
    rw [List.filterMap_filterMap]
    refine List.filterMap_congr fun block _ => ?_
    rcases block with _ | (⟨_, _ | _, _, _⟩ | _) <;> rfl
  unfold exportsOfCode
  rw [hdeclared, hstars, hdefault, hlisted, hassigned, hobjects, <- hsources]
  simp

theorem declared?_or_star?_iff (line : StarLine) (name : String) :
    (line.declared? = some name ∨ exists star, line.star? = some star ∧ star.1 = some name) <->
      line.name? = some name ∨ line.strayName? = some name := by
  rcases line with ⟨_ | _, _ | _, _, _⟩ | _ <;>
    simp [declared?, star?, name?, strayName?, or_comm]

theorem mem_names_written_iff {lines : List (Option StarLine)} {name : String} :
    name ∈ (exportsOfCode (written text lines)).names <->
      exists line, some line ∈ lines ∧ (line.name? = some name ∨ line.strayName? = some name) := by
  rw [exportsOfCode_written, List.mem_eraseDups, List.mem_append]
  simp only [List.mem_filterMap, <- declared?_or_star?_iff]
  constructor
  · rintro (⟨block, hblock, hname⟩ | ⟨star, ⟨block, hblock, hstar⟩, hname⟩)
    · obtain ⟨line, rfl, hname⟩ := Option.bind_eq_some_iff.mp hname
      exact ⟨line, hblock, Or.inl hname⟩
    · obtain ⟨line, rfl, hstar⟩ := Option.bind_eq_some_iff.mp hstar
      exact ⟨line, hblock, Or.inr ⟨star, hstar, hname⟩⟩
  · rintro ⟨line, hline, hname | ⟨star, hstar, hname⟩⟩
    · exact Or.inl ⟨some line, hline, hname⟩
    · exact Or.inr ⟨star, ⟨some line, hline, hstar⟩, hname⟩

end StarLine

/--
Star re-exports have no names but those after the word `as`, except that the star of types is
taken for a declaration of the word behind it: of `from`, or of `as` where a name follows.  At
depth 1 every other name is missing that is asked for.
-/
theorem scan_starLines (path : String) (lines : List (Option StarLine)) :
    let text := String.ofList (written StarLine.text lines)
    let exports := (scan path text).exports
    (forall name, name ∈ exports.names <->
      exists line, some line ∈ lines ∧ (line.name? = some name ∨ line.strayName? = some name)) ∧
    exports.starSources = (lines.filterMap fun block => block.bind (·.starSource?)) ∧
    forall (v : Validator) (files : Table String) (importer : String) (record : Import)
      (name : String), v.depth ≤ 1 -> files.get? path = some text ->
      v.LooksUp files importer record path -> name ∈ record.requested -> name ≠ defaultExport ->
        (⟨importer, record.line, path, name⟩ ∈ (v.validate files).missingExports <->
          ¬ exists line, some line ∈ lines ∧
            (line.name? = some name ∨ line.strayName? = some name)) := by
  intro text exports
  have hexports : exports = exportsOfCode (written StarLine.text lines) := by
    show (scan path (String.ofList _)).exports = _
    rw [scan_ofList, withoutComments_written StarLine.commentFree, exports_scanCode]
  rw [hexports]
  refine ⟨fun name => StarLine.mem_names_written_iff, ?_, ?_⟩
  · rw [StarLine.exportsOfCode_written]
  · intro v files importer record name hdepth htext hlooks hrequested hname
    have hmodule : (v.exportIndex files).modules.get? path = some (scan path text) := by
      show (scanAll v.resolver files).get? path = _
      rw [get?_scanAll, if_pos hlooks.target_source, htext]
      rfl
    rw [hlooks.mem_missingExports_iff hrequested hname,
      ExportIndex.names_of_depth_le_one hdepth hmodule, <- StarLine.mem_names_written_iff,
      <- hexports]

def typeStar : StarLine :=
  .star true none ⟨"./a", by decide, by decide⟩ .single

def constantX : StarLine :=
  .constant ⟨"X", 'X', [], rfl, rfl, nofun⟩

theorem scan_starLines_typeStar :
    let lines := [some typeStar, some constantX, none]
    let files : Table String :=
      { entries :=
          [("src/m.ts", String.ofList (written StarLine.text lines)),
            ("src/b.ts", "import \x7b X, Y \x7d from './m'")] }
    let v : Validator := { resolver := Resolver.make none [] }
    let record : Import :=
      { source := "./m"
        line := 1
        bindings := [⟨.named "X", "X", false⟩, ⟨.named "Y", "Y", false⟩] }
    v.depth ≤ 1 ∧ v.LooksUp files "src/b.ts" record "src/m.ts" ∧ "Y" ∈ record.requested ∧
      "X" ∈ (scan "src/m.ts" (String.ofList (written StarLine.text lines))).exports.names ∧
      (⟨"src/b.ts", 1, "src/m.ts", "Y"⟩ : MissingExport) ∈ (v.validate files).missingExports := by
  intro lines files v record
  have hlooks : v.LooksUp files "src/b.ts" record "src/m.ts" :=
    { checked := rfl
      imported := ⟨_, List.mem_cons_of_mem _ (List.mem_singleton_self _), by decide +kernel⟩
      importer_source := by decide +kernel
      target_source := by decide +kernel
      resolved := by decide +kernel }
  obtain ⟨hnames, -, hmissing⟩ := scan_starLines "src/m.ts" lines
  have hY := hmissing v files "src/b.ts" record "Y" (by decide) rfl hlooks (by decide) (by decide)
  refine ⟨by decide, hlooks, by decide, (hnames "X").mpr ?_, hY.mpr ?_⟩
  · exact ⟨constantX, by simp [lines], Or.inl rfl⟩
  · rintro ⟨line, hline, hname⟩
    have hcases : line = typeStar ∨ line = constantX := by
      simpa [lines] using hline
    rcases hcases with rfl | rfl <;>
      simp [typeStar, constantX, StarLine.name?, StarLine.strayName?] at hname

/-- The line exports no name, but `from` is found among the names of the module. -/
theorem from_exported_by_typeStar :
    let text := String.ofList (written StarLine.text [some typeStar])
    let importer := "import \x7b from \x7d from './m'"
    let files : Table String := { entries := [("src/m.ts", text), ("src/b.ts", importer)] }
    let v : Validator := { resolver := Resolver.make none [] }
    typeStar.name? = none ∧ (scan "src/m.ts" text).exports.names = ["from"] ∧
      (scan "src/b.ts" importer).imports.map Import.requested = [["from"]] ∧
      (v.validate files).missingExports = [] := by
  decide +kernel

end SourceModule
end Joinery
