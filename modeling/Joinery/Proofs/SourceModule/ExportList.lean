import Joinery.ExportFix
import Joinery.Proofs.Path.Canonical
import Joinery.Proofs.SourceModule.Braces
import Joinery.Proofs.SourceModule.Comments
import Joinery.Proofs.SourceModule.Identifiers

/-!
# A text with an export list at its end

## What the list changes

An export list at the end of a text changes none of its imports and none of the modules
that it passes on.  The names that were exported still are, but for an `enum` that was
read as the name of a declaration without one, and the names of the list are exported
where no brace before it is left open.
-/

namespace Joinery
namespace SourceModule

open Text Matcher

/-!
# Reading the names back
-/

theorem trim_padded {before text after : List Char}
    (hbefore : forall ch, ch ∈ before -> isBlank ch = true)
    (hafter : forall ch, ch ∈ after -> isBlank ch = true)
    (htext : forall ch, ch ∈ text -> isBlank ch = false) :
    trim (before ++ text ++ after) = text := by
  have hstart : forall ch, text.head? = some ch -> isBlank ch = false :=
    fun ch hch => htext ch (List.mem_of_head? hch)
  have hend : EndsTight text := fun ch hch => htext ch (List.mem_of_getLast? hch)
  rw [List.append_assoc, trim_append hbefore hafter, trim_of_tight hstart hend]

theorem not_mem_comma {name : String} (h : IsIdentifier name) : ',' ∉ name.toList := by
  intro hmem
  have hclass := h.char hmem
  revert hclass
  decide

def listClause (names : List String) : List Char :=
  ' ' :: ((", ".intercalate names).toList ++ [' '])

theorem trim_pieces {names : List String} (hne : names ≠ [])
    (hnames : forall name, name ∈ names -> IsIdentifier name) :
    (List.splitOn ',' (listClause names)).map trim = names.map String.toList := by
  have hblank : forall ch, ch ∈ [' '] -> isBlank ch = true :=
    List.all_eq_true.mp (by decide)
  induction names with
  | nil =>
      exact absurd rfl hne
  | cons name rest ih =>
      have hname := hnames name (List.mem_cons_self ..)
      cases rest with
      | nil =>
          have hcomma : ',' ∉ listClause [name] := by
            simp only [listClause, String.intercalate_singleton, List.mem_cons, List.mem_append,
              List.not_mem_nil, or_false, not_or]
            exact ⟨by decide, not_mem_comma hname, by decide⟩
          rw [List.splitOn_eq_singleton hcomma]
          have htrim := trim_padded hblank hblank fun ch hch => hname.not_blank hch
          simpa [listClause] using htrim
      | cons next rest =>
          have hclause : listClause (name :: next :: rest) =
              (' ' :: name.toList) ++ ',' :: listClause (next :: rest) := by
            simp [listClause, String.intercalate_cons_cons]
          have hcomma : ',' ∉ ' ' :: name.toList := by
            simp only [List.mem_cons, not_or]
            exact ⟨by decide, not_mem_comma hname⟩
          have htail := ih (List.cons_ne_nil _ _) fun n hn =>
            hnames n (List.mem_cons_of_mem name hn)
          have hnone : forall ch, ch ∈ ([] : List Char) -> isBlank ch = true := by simp
          have htrim := trim_padded hblank hnone fun ch hch => hname.not_blank hch
          rw [hclause, List.splitOn_append_cons_self_of_not_mem hcomma, List.map_cons, htail,
            List.map_cons]
          congr 1
          simpa using htrim

theorem withoutType_identifier {name : String} (h : IsIdentifier name) :
    withoutType name.toList = (name.toList, false) := by
  have hnone : (Matcher.word "type" >>= fun _ => blanks1 : Matcher Unit)
      (Cursor.start name.toList) = [] := by
    refine List.eq_nil_iff_forall_not_mem.mpr ?_
    intro found hfound
    obtain ⟨word, hword, hblanks⟩ := mem_bind_iff.mp hfound
    obtain ⟨⟨ch, rest, hahead, hblank⟩, _⟩ := mem_blanks1_iff.mp hblanks
    have hread := (mem_letters_iff.mp hword).1
    have hmem : ch ∈ name.toList := by
      rw [show name.toList = _ from hread, hahead]
      simp
    rw [h.not_blank hmem] at hblank
    cases hblank
  unfold withoutType
  rw [show (do Matcher.word "type"; Matcher.blanks1 : Matcher Unit) =
    (Matcher.word "type" >>= fun _ => blanks1) from rfl, hnone]

theorem aliased_identifier {name : String} (h : IsIdentifier name) :
    aliased.first? name.toList = some (name, name) := by
  obtain ⟨first, rest, htext, hfirst, hrest⟩ := h
  have hname : identifier (Cursor.start name.toList) = [(name, ⟨name.toList.reverse, []⟩)] := by
    have hone : Matcher.one isIdentifierStart (Cursor.start name.toList) =
        [(first, ⟨[first], rest⟩)] := by
      rw [htext]
      show Matcher.one isIdentifierStart ⟨[], first :: rest⟩ = _
      rw [one_cons, if_pos hfirst]
    have htake : rest.takeWhile isIdentifierChar = rest :=
      List.takeWhile_eq_self_iff.mpr fun ch hch => hrest ch hch
    have hdrop : rest.dropWhile isIdentifierChar = [] :=
      List.dropWhile_eq_nil_iff.mpr fun ch hch => hrest ch hch
    have hofList : String.ofList (first :: rest) = name := by
      rw [<- htext, String.ofList_toList]
    have hstretch : Matcher.stretch isIdentifierChar ⟨[first], rest⟩ =
        [(rest, ⟨rest.reverse ++ [first], []⟩)] := by
      simp only [Matcher.stretch, Cursor.readWhile, htake, hdrop]
    unfold identifier
    rw [bind_of_eq hone, bind_of_eq hstretch, htext, List.reverse_cons, hofList]
    rfl
  show (((identifier (Cursor.start name.toList)).flatMap _).head?).map _ = _
  rw [hname]
  rfl

theorem exportedNames_listClause {names : List String} (hne : names ≠ [])
    (hnames : forall name, name ∈ names -> IsIdentifier name) :
    exportedNames (listClause names) = names := by
  have hitems : clauseItems (listClause names) = names.map String.toList := by
    unfold clauseItems
    rw [trim_pieces hne hnames]
    refine List.filter_eq_self.mpr ?_
    intro item hitem
    obtain ⟨name, hname, rfl⟩ := List.mem_map.mp hitem
    simpa using (hnames name hname).ne_nil
  unfold exportedNames
  have hread : forall name, name ∈ names ->
      (aliased.first? (withoutType name.toList).1).map (·.2) = some name := by
    intro name hname
    rw [withoutType_identifier (hnames name hname), aliased_identifier (hnames name hname)]
    rfl
  rw [hitems, List.filterMap_map]
  exact (List.filterMap_congr hread).trans List.filterMap_some

/-!
# The text with the list
-/

def listTail (names : List String) : List Char :=
  listClause names ++ ['}', '\n']

theorem toList_withExportList (text : String) (names : List String) :
    (ExportFix.withExportList text names).toList =
      trimEnd text.toList ++ (listStart ++ listTail names) := by
  have hstart : ("\n\nexport \x7b ").toList = listStart ++ [' '] := by decide
  have hend : (" \x7d\n").toList = [' ', '}', '\n'] := by decide
  unfold ExportFix.withExportList listTail listClause
  rw [String.toList_append, String.toList_append, String.toList_append, String.toList_ofList,
    hstart, hend]
  simp

theorem char_of_mem_list {names : List String} (hnames : forall name, name ∈ names ->
    IsIdentifier name) {ch : Char} (hch : ch ∈ listClause names) :
    isIdentifierChar ch = true ∨ ch = ',' ∨ ch = ' ' := by
  have hjoined : forall ns : List String, (forall n, n ∈ ns -> IsIdentifier n) ->
      ch ∈ (", ".intercalate ns).toList -> isIdentifierChar ch = true ∨ ch = ',' ∨ ch = ' ' := by
    intro ns hns hmem
    induction ns with
    | nil =>
        rw [String.intercalate_nil] at hmem
        cases hmem
    | cons n rest ih =>
        have hn := hns n (List.mem_cons_self ..)
        cases rest with
        | nil =>
            rw [String.intercalate_singleton] at hmem
            exact Or.inl (hn.char hmem)
        | cons next rest =>
            rw [String.intercalate_cons_cons, String.toList_append, String.toList_append,
              List.mem_append, List.mem_append] at hmem
            rcases hmem with (hmem | hmem) | hmem
            · exact Or.inl (hn.char hmem)
            · exact Or.inr (by simpa using hmem)
            · exact ih (fun m hm => hns m (List.mem_cons_of_mem n hm)) hmem
  rcases List.mem_cons.mp hch with rfl | hch
  · exact Or.inr (Or.inr rfl)
  · rcases List.mem_append.mp hch with hch | hch
    · exact hjoined names hnames hch
    · exact Or.inr (Or.inr (List.mem_singleton.mp hch))

theorem exists_trimEnd (text : List Char) :
    exists spaces, (forall ch, ch ∈ spaces -> isBlank ch = true) ∧
      text = trimEnd text ++ spaces := by
  refine ⟨(text.reverse.takeWhile isBlank).reverse, ?_, ?_⟩
  · intro ch hch
    exact List.mem_takeWhile_imp (List.mem_reverse.mp hch)
  · unfold trimEnd dropEnd
    rw [<- List.reverse_append, List.takeWhile_append_dropWhile, List.reverse_reverse]

theorem not_mem_list {names : List String}
    (hnames : forall name, name ∈ names -> IsIdentifier name) {ch : Char}
    (hstart : ch ∉ listStart) (hend : ch ∉ ['}', '\n', ',', ' '])
    (hchar : isIdentifierChar ch = false) : ch ∉ listStart ++ listTail names := by
  intro hmem
  rcases List.mem_append.mp hmem with hmem | hmem
  · exact hstart hmem
  · rcases List.mem_append.mp hmem with hmem | hmem
    · rcases char_of_mem_list hnames hmem with h | rfl | rfl
      · rw [hchar] at h
        cases h
      · exact hend (by decide)
      · exact hend (by decide)
    · simp only [List.mem_cons, List.not_mem_nil, or_false] at hmem hend
      exact hend (by rcases hmem with rfl | rfl <;> simp)

theorem closesSource_list {names : List String}
    (hnames : forall name, name ∈ names -> IsIdentifier name) {ch : Char}
    (hch : ch ∈ listStart ++ listTail names) : closesSource ch = false := by
  cases hclose : closesSource ch with
  | false =>
      rfl
  | true =>
      have hquotes : forall q, q ∈ ['\'', '"', ')'] -> q ∉ listStart ++ listTail names := by
        intro q hq
        simp only [List.mem_cons, List.not_mem_nil, or_false] at hq
        rcases hq with rfl | rfl | rfl <;>
          exact not_mem_list hnames (by decide) (by decide) (by decide)
      have hmem : ch ∈ ['\'', '"', ')'] := by
        simp only [closesSource, Bool.or_eq_true, beq_iff_eq] at hclose
        rcases hclose with (rfl | rfl) | rfl <;> decide
      exact absurd hch (hquotes ch hmem)

theorem plain_list {names : List String}
    (hnames : forall name, name ∈ names -> IsIdentifier name) :
    Plain (listStart ++ listTail names) := by
  intro ch hch
  constructor
  · rintro rfl
    exact not_mem_list hnames (by decide) (by decide) (by decide) hch
  · rintro rfl
    exact not_mem_list hnames (by decide) (by decide) (by decide) hch

theorem plain_of_blanks {spaces : List Char} (h : forall ch, ch ∈ spaces -> isBlank ch = true) :
    Plain spaces := by
  intro ch hch
  have hblank := h ch hch
  constructor
  · rintro rfl
    cases hblank
  · rintro rfl
    cases hblank

theorem exists_code (text : String) {names : List String}
    (hnames : forall name, name ∈ names -> IsIdentifier name) :
    exists code spaces, (forall ch, ch ∈ spaces -> isBlank ch = true) ∧
      withoutComments text.toList = code ++ spaces ∧
      withoutComments (ExportFix.withExportList text names).toList =
        code ++ (listStart ++ listTail names) := by
  obtain ⟨spaces, hspaces, htext⟩ := exists_trimEnd text.toList
  obtain ⟨kept, hkept, _, hcode⟩ := withoutComments_append (plain_of_blanks hspaces)
    (trimEnd text.toList)
  obtain ⟨list, _, hall, hlist⟩ := withoutComments_append (plain_list hnames) (trimEnd text.toList)
  refine ⟨withoutComments (trimEnd text.toList), kept, fun ch hch => hspaces ch (hkept.subset hch),
    ?_, ?_⟩
  · conv => lhs; rw [htext]
    exact hcode
  · rw [toList_withExportList, hlist, hall rfl]

theorem closesSource_of_isBlank {ch : Char} (h : isBlank ch = true) : closesSource ch = false := by
  cases hclose : closesSource ch with
  | false =>
      rfl
  | true =>
      simp only [closesSource, Bool.or_eq_true, beq_iff_eq] at hclose
      rcases hclose with (rfl | rfl) | rfl <;> cases h

/-!
# What the scan of the text with the list says
-/

variable {path text : String} {names : List String}

theorem imports_withExportList (hnames : forall name, name ∈ names -> IsIdentifier name) :
    (scan path (ExportFix.withExportList text names)).imports = (scan path text).imports := by
  obtain ⟨code, spaces, hspaces, hold, hnew⟩ := exists_code text hnames
  show importsOfCode (withoutComments _) = importsOfCode (withoutComments _)
  rw [hold, hnew, importsOfCode_append fun ch hch => closesSource_list hnames hch,
    importsOfCode_append fun ch hch => closesSource_of_isBlank (hspaces ch hch)]

theorem starForms_withExportList (text : String)
    (hnames : forall name, name ∈ names -> IsIdentifier name) :
    (findAll starForm (withoutComments (ExportFix.withExportList text names).toList)).map
        (·.value) =
      (findAll starForm (withoutComments text.toList)).map (·.value) := by
  obtain ⟨code, spaces, hspaces, hold, hnew⟩ := exists_code text hnames
  rw [hold, hnew, findAll_starForm_append fun ch hch => closesSource_list hnames hch,
    findAll_starForm_append fun ch hch => closesSource_of_isBlank (hspaces ch hch)]

theorem starSources_withExportList (hnames : forall name, name ∈ names -> IsIdentifier name) :
    (scan path (ExportFix.withExportList text names)).exports.starSources =
      (scan path text).exports.starSources := by
  show ((findAll starForm _).map (·.value)).filterMap _ =
    ((findAll starForm _).map (·.value)).filterMap _
  rw [starForms_withExportList text hnames]

def endsInUnnamedEnum (text : String) : Bool :=
  (findAll declarationForm (withoutComments text.toList)).any fun found =>
    found.value == "enum" && !(unnamedEnumForm found.place).isEmpty

def leavesBraceOpen (text : String) : Bool :=
  !(findAll unclosedForm (withoutComments text.toList)).isEmpty

theorem commonjs_eq_false_iff {code : List Char} :
    (exportsOfCode code).commonjs = false <->
      findAll assignedForm code = [] ∧ findAll assignedModuleForm code = [] := by
  unfold exportsOfCode
  cases findAll assignedForm code <;> cases findAll assignedModuleForm code <;> simp

theorem endsWord_of_blanks {spaces : List Char} (h : forall ch, ch ∈ spaces -> isBlank ch = true) :
    EndsWord spaces := by
  intro ch hch
  exact isIdentifierChar_of_isBlank (h ch (List.mem_of_mem_head? hch))

theorem brace_not_blank {spaces : List Char} (h : forall ch, ch ∈ spaces -> isBlank ch = true) :
    '}' ∉ spaces := by
  intro hmem
  cases h _ hmem

theorem findAll_bracedForm_blanks {spaces : List Char}
    (h : forall ch, ch ∈ spaces -> isBlank ch = true) (code : List Char) :
    findAll bracedForm (code ++ spaces) = (findAll bracedForm code).map (Found.push spaces) := by
  have hquotes : forall ch, ch ∈ spaces -> closesSource ch = false :=
    fun ch hch => closesSource_of_isBlank (h ch hch)
  have hclose : forall ch, ch ∈ spaces -> (ch == '}') = false := by
    intro ch hch
    have hne : ch ≠ '}' := fun heq => brace_not_blank h (heq ▸ hch)
    simpa using hne
  have hnone : findFrom bracedForm (code.reverse ++ []) 0 spaces = [] := by
    refine findFrom_eq_nil ?_
    intro before rest heq _
    refine bracedForm_eq_nil fun hmem => brace_not_blank h ?_
    rw [heq]
    exact List.mem_append_right _ hmem
  unfold findAll
  rw [findFrom_append (fun before rest _ _ => sameHead_of_eq (bracedForm_push hquotes ?_))
    (Nat.zero_le _), hnone, List.append_nil]
  intro found hfound
  rw [Closing.closedBraces.push_eq hclose] at hfound
  obtain ⟨base, _, rfl⟩ := List.mem_map.mp hfound
  simp [pushed, Cursor.push]

theorem names_withExportList (hnames : forall name, name ∈ names -> IsIdentifier name)
    (hcommonjs : (scan path text).exports.commonjs = false) {name : String}
    (hname : name ∈ (scan path text).exports.names) :
    name ∈ (scan path (ExportFix.withExportList text names)).exports.names ∨
      (name = "enum" ∧ endsInUnnamedEnum text = true) := by
  obtain ⟨code, spaces, hspaces, hold, hnew⟩ := exists_code text hnames
  have hstars := starForms_withExportList text hnames
  have hlist : listStart ++ listTail names = listStart ++ listTail names := rfl
  have hcommonjs : (exportsOfCode (withoutComments text.toList)).commonjs = false := hcommonjs
  have hname : name ∈ (exportsOfCode (withoutComments text.toList)).names := hname
  show name ∈ (exportsOfCode (withoutComments _)).names ∨ _
  rw [mem_names_iff] at hname ⊢
  rcases hname with ⟨found, hfound, rfl⟩ | ⟨hdefault, rfl⟩ | ⟨found, hfound, hlisted⟩ | hstar |
    hassigned | hobject
  · have hfound' := hfound
    rw [hold, findAll_append (Closing.declarationForm (endsWord_of_blanks hspaces))
      fun ch hch => isIdentifierChar_of_isBlank (hspaces ch hch)] at hfound'
    obtain ⟨base, hbase, rfl⟩ := List.mem_map.mp hfound'
    rcases declared_append hlist hspaces hbase with
      ⟨henum, hform⟩ | ⟨other, hother, hvalue⟩
    · right
      refine ⟨henum, List.any_eq_true.mpr ⟨_, hfound, ?_⟩⟩
      have hvalue : ((Found.push spaces base).value == "enum") = true := beq_iff_eq.mpr henum
      rw [hvalue, Bool.true_and, Bool.not_eq_true', List.isEmpty_eq_false_iff]
      exact hform
    · rw [hnew]
      exact Or.inl (Or.inl ⟨other, hother, hvalue⟩)
  · rw [hold, findAll_append (Closing.defaultForm (endsWord_of_blanks hspaces))
      fun ch hch => isIdentifierChar_of_isBlank (hspaces ch hch)] at hdefault
    have hcode : findAll defaultForm code ≠ [] := by
      intro hnil
      rw [hnil] at hdefault
      exact hdefault rfl
    rw [hnew]
    exact Or.inl (Or.inr (Or.inl
      ⟨findAll_defaultForm_append (endsWord_listStart hlist) hcode, rfl⟩))
  · rw [hold, findAll_bracedForm_blanks hspaces] at hfound
    obtain ⟨base, hbase, rfl⟩ := List.mem_map.mp hfound
    obtain ⟨other, hother, hvalue⟩ := listed_append hlist
      (fun ch hch => closesSource_list hnames hch) hbase
    rw [hnew]
    exact Or.inl (Or.inr (Or.inr (Or.inl ⟨other, hother, by rw [hvalue]; exact hlisted⟩)))
  · rw [hstars]
    exact Or.inl (Or.inr (Or.inr (Or.inr (Or.inl hstar))))
  · rw [(commonjs_eq_false_iff.mp hcommonjs).1] at hassigned
    cases hassigned
  · rw [(commonjs_eq_false_iff.mp hcommonjs).2] at hobject
    cases hobject

theorem bracedForm_lineEnd (behind rest : List Char) :
    bracedForm ⟨behind, '\n' :: rest⟩ = [] := by
  refine List.eq_nil_iff_forall_not_mem.mpr ?_
  intro found hfound
  rw [bracedForm_eq] at hfound
  obtain ⟨clause, hclause, _⟩ := mem_bind_iff.mp hfound
  obtain ⟨opening, hopening, _⟩ := mem_bind_iff.mp hclause
  obtain ⟨indent, mid, d, hindent, _, hread, _⟩ := reads_of_mem_openBrace hopening
  have hahead : '\n' :: rest = indent ++ "export".toList ++ mid ++ d.ahead := hread.1
  cases indent with
  | nil =>
      cases hahead
  | cons ch tail =>
      have hch := hindent ch (List.mem_cons_self ..)
      rw [<- (List.cons.inj hahead).1] at hch
      cases hch

theorem openBrace_list (behind rest : List Char) :
    openBrace ⟨'\n' :: behind, "export \x7b".toList ++ rest⟩ =
      [((), ⟨"export \x7b".toList.reverse ++ '\n' :: behind, rest⟩)] :=
  rfl

theorem closedBraces_list (hnames : forall name, name ∈ names -> IsIdentifier name)
    (behind : List Char) :
    exists stop,
      closedBraces ⟨'\n' :: behind, "export \x7b".toList ++ listTail names⟩ =
        [(listClause names, stop)] := by
  have hclause : forall ch, ch ∈ listClause names -> (ch != '}') = true := by
    intro ch hch
    have hne : ch ≠ '}' := by
      rintro rfl
      rcases char_of_mem_list hnames hch with h | h | h
      · revert h
        decide
      · cases h
      · cases h
    simpa using hne
  have hstretch : forall front : List Char,
      Matcher.stretch (fun ch => ch != '}') ⟨front, listTail names⟩ =
        [(listClause names, ⟨(listClause names).reverse ++ front, ['}', '\n']⟩)] := by
    intro front
    unfold listTail
    simp [Matcher.stretch, Cursor.readWhile, List.takeWhile_append_of_pos hclause,
      List.dropWhile_append_of_pos hclause]
  refine
    ⟨⟨'}' :: ((listClause names).reverse ++ ("export \x7b".toList.reverse ++ '\n' :: behind)),
      ['\n']⟩, ?_⟩
  unfold closedBraces
  rw [bind_of_eq (openBrace_list behind (listTail names)), bind_of_eq (hstretch _)]
  rfl

theorem exists_head_sourceAfter (c : Cursor) :
    exists source after, (sourceAfter c).head? = some (source, after) := by
  unfold sourceAfter Matcher.optional
  cases (Matcher.blanks >>= fun _ => fromSource : Matcher String) c with
  | nil =>
      exact ⟨_, _, rfl⟩
  | cons answer others =>
      exact ⟨_, _, rfl⟩

theorem exists_list_answer (hnames : forall name, name ∈ names -> IsIdentifier name)
    (behind : List Char) :
    exists source stop,
      (bracedForm ⟨'\n' :: behind, "export \x7b".toList ++ listTail names⟩).head? =
        some ((exportedNames (listClause names), source), stop) := by
  obtain ⟨stop, hclosed⟩ := closedBraces_list hnames behind
  obtain ⟨source, after, hsource⟩ := exists_head_sourceAfter stop
  refine ⟨source, after, ?_⟩
  have hall : bracedForm ⟨'\n' :: behind, "export \x7b".toList ++ listTail names⟩ =
      (sourceAfter stop).map fun found =>
        ((exportedNames (listClause names), found.1), found.2) := by
    rw [bracedForm_eq, bind_of_eq hclosed, bind_give]
  rw [hall, List.head?_map, hsource]
  rfl

theorem mem_names_withExportList (hnames : forall name, name ∈ names -> IsIdentifier name)
    (hclosed : leavesBraceOpen text = false) {name : String} (hname : name ∈ names) :
    name ∈ (scan path (ExportFix.withExportList text names)).exports.names := by
  obtain ⟨code, spaces, hspaces, hold, hnew⟩ := exists_code text hnames
  have hne : names ≠ [] := List.ne_nil_of_mem hname
  have hnone : findAll unclosedForm (code ++ spaces) = [] := by
    rw [<- hold]
    simpa [leavesBraceOpen] using hclosed
  have hlist : listStart ++ listTail names = listStart ++ listTail names := rfl
  have hall := listed_append_of_closed hlist
    (fun ch hch => closesSource_list hnames hch) (brace_not_blank hspaces) hnone
  obtain ⟨source, stop, hanswer⟩ := exists_list_answer hnames ('\n' :: (code.reverse ++ []))
  have hfound : exists found,
      found ∈ findFrom bracedForm (code.reverse ++ []) 0 (listStart ++ listTail names) ∧
        found.value.1 = names := by
    have hstart : listStart ++ listTail names =
        '\n' :: '\n' :: ("export \x7b".toList ++ listTail names) := rfl
    have hexport : "export \x7b".toList ++ listTail names =
        'e' :: ("xport \x7b".toList ++ listTail names) := rfl
    rw [hexport] at hanswer
    rw [hstart, findFrom_none (by rw [bracedForm_lineEnd]; rfl),
      findFrom_none (by rw [bracedForm_lineEnd]; rfl), hexport, findFrom_some hanswer]
    exact ⟨_, List.mem_cons_self .., exportedNames_listClause hne hnames⟩
  obtain ⟨found, hmem, hvalue⟩ := hfound
  show name ∈ (exportsOfCode (withoutComments _)).names
  rw [mem_names_iff, hnew]
  refine Or.inr (Or.inr (Or.inl ⟨found, ?_, by rw [hvalue]; exact hname⟩))
  rw [hall]
  exact List.mem_append_right _ hmem

theorem hasExportList_withExportList :
    findAll ExportFix.exportListStart (ExportFix.withExportList text names).toList ≠ [] := by
  refine findAll_ne_nil_iff.mpr ⟨trimEnd text.toList ++ ['\n', '\n'],
    "export \x7b".toList ++ listTail names, ?_, by simp, ?_⟩
  · rw [toList_withExportList, List.append_assoc]
    rfl
  · rw [List.reverse_append]
    exact List.cons_ne_nil _ _

end SourceModule
end Joinery
