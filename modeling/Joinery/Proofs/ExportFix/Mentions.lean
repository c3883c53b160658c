import Joinery.Proofs.ExportFix.Soundness

/-!
# Names that a text declares

## What is listed and what is declared

A name is put into an export list if the text mentions it behind a declaring word.  The
mention is looked for in the text as it is, comments included, and its end is the edge of
a word.  A declaration is a mention outside of comments that stands apart from the
identifiers around it.  Both are stated on the characters around the mention, without the
search that they are compared with.
-/

namespace Joinery
namespace ExportFix

open SourceModule Text Matcher

/-- A place in a text where a declaring word, blanks and a name follow each other. -/
structure Mention (text : List Char) (name : String) where
  before : List Char
  word : String
  gap : List Char
  after : List Char
  declaring : word ∈ declaringWords
  gap_ne : gap ≠ []
  blank : forall ch, ch ∈ gap -> isBlank ch = true
  text_eq : text = before ++ (word.toList ++ gap ++ name.toList) ++ after

namespace Mention

variable {text : List Char} {name : String}

def last (m : Mention text name) : Option Char :=
  (m.gap ++ name.toList).getLast?

def EndsWord (m : Mention text name) : Prop :=
  isWordEdge m.last m.after.head? = true

/-- No character of an identifier stands before the declaring word. -/
def BeginsApart (m : Mention text name) : Prop :=
  forall ch, m.before.getLast? = some ch -> isIdentifierChar ch = false

/-- No character of an identifier stands behind the name. -/
def EndsApart (m : Mention text name) : Prop :=
  forall ch, m.after.head? = some ch -> isIdentifierChar ch = false

end Mention

/-- The text, from which comments have been taken out, declares the name. -/
def DeclaredIn (code : List Char) (name : String) : Prop :=
  exists m : Mention code name, m.BeginsApart ∧ m.EndsApart

/-!
# Finding mentions
-/

/-- What is read of a declaration: a declaring word, blanks, and the name up to the edge of a
word. -/
theorem mem_declarationOf_iff {name : String} {c : Cursor} {found : Unit × Cursor} :
    found ∈ declarationOf name c <->
      exists word gap, word ∈ declaringWords ∧ gap ≠ [] ∧
        (forall ch, ch ∈ gap -> isBlank ch = true) ∧
        c.Reads (word.toList ++ gap ++ name.toList) found.2 ∧
        isWordEdge found.2.behind.head? found.2.ahead.head? = true := by
  show found ∈ (Matcher.anyOf (declaringWords.map Matcher.word) >>= fun _ =>
    someBlanks >>= fun _ => Matcher.word name >>= fun _ => wordEdge) c <-> _
  constructor
  · intro h
    obtain ⟨first, hfirst, h⟩ := mem_bind_iff.mp h
    obtain ⟨second, hsecond, h⟩ := mem_bind_iff.mp h
    obtain ⟨third, hthird, h⟩ := mem_bind_iff.mp h
    obtain ⟨m, hm, hword⟩ := mem_anyOf_iff.mp hfirst
    obtain ⟨word, hdeclaring, rfl⟩ := List.mem_map.mp hm
    obtain ⟨gap, hne, hblank, hgap⟩ := mem_someBlanks_iff.mp hsecond
    obtain ⟨hedge, rfl⟩ := mem_guard_iff.mp h
    refine ⟨word, gap, hdeclaring, hne, hblank, ?_, hedge⟩
    exact ((mem_letters_iff.mp hword).trans hgap).trans (mem_letters_iff.mp hthird)
  · rintro ⟨word, gap, hdeclaring, hne, hblank, ⟨hahead, hbehind⟩, hedge⟩
    let afterWord : Cursor :=
      ⟨word.toList.reverse ++ c.behind, gap ++ name.toList ++ found.2.ahead⟩
    let afterGap : Cursor := ⟨gap.reverse ++ afterWord.behind, name.toList ++ found.2.ahead⟩
    have hword : c.Reads word.toList afterWord := by
      refine ⟨?_, rfl⟩
      rw [hahead]
      simp [afterWord]
    have hgap : afterWord.Reads gap afterGap := by
      refine ⟨?_, rfl⟩
      simp [afterWord, afterGap]
    have hname : afterGap.Reads name.toList found.2 := by
      refine ⟨rfl, ?_⟩
      rw [hbehind]
      simp [afterWord, afterGap]
    refine mem_bind_iff.mpr ⟨((), afterWord), ?_, ?_⟩
    · exact mem_anyOf_iff.mpr
        ⟨_, List.mem_map_of_mem hdeclaring, mem_letters_iff.mpr hword⟩
    · refine mem_bind_iff.mpr ⟨((), afterGap), ?_, ?_⟩
      · exact mem_someBlanks_iff.mpr ⟨gap, hne, hblank, hgap⟩
      · exact mem_bind_iff.mpr ⟨((), found.2), mem_letters_iff.mpr hname,
          mem_guard_iff.mpr ⟨hedge, rfl⟩⟩

theorem head?_reverse_append (front read : List Char) (h : read ≠ []) :
    (read.reverse ++ front).head? = read.getLast? := by
  rw [List.head?_append_of_ne_nil _ (by simpa using h), List.head?_reverse]

theorem declares_iff {text : List Char} {name : String} :
    declares text name = true <-> exists m : Mention text name, m.EndsWord := by
  have hfound : declares text name = true <-> findAll (declarationOf name) text ≠ [] := by
    unfold declares
    rw [Bool.not_eq_true', List.isEmpty_eq_false_iff]
  -- the edge is looked for behind all that was read, the declaring word included
  have hlast : forall (before gap : List Char) (word : String), gap ≠ [] ->
      ((word.toList ++ gap ++ name.toList).reverse ++ before).head? =
        (gap ++ name.toList).getLast? := by
    intro before gap word hgap
    have hne : gap ++ name.toList ≠ [] := by simp [hgap]
    rw [head?_reverse_append _ _ (by simp [hgap]), List.append_assoc,
      List.getLast?_append_of_ne_nil _ hne]
  rw [hfound, findAll_ne_nil_iff]
  constructor
  · rintro ⟨before, rest, rfl, _, hplace⟩
    obtain ⟨found, hmem⟩ := List.exists_mem_of_ne_nil _ hplace
    obtain ⟨word, gap, hdeclaring, hne, hblank, ⟨hahead, hbehind⟩, hedge⟩ :=
      mem_declarationOf_iff.mp hmem
    rw [hbehind, hlast _ _ _ hne] at hedge
    refine ⟨⟨before, word, gap, found.2.ahead, hdeclaring, hne, hblank, ?_⟩, hedge⟩
    rw [show rest = _ from hahead, List.append_assoc before]
  · rintro ⟨m, hedge⟩
    refine ⟨m.before, m.word.toList ++ m.gap ++ name.toList ++ m.after, ?_, ?_, ?_⟩
    · exact m.text_eq.trans (List.append_assoc _ _ _)
    · simp [m.gap_ne]
    · refine List.ne_nil_of_mem (a := ((), ⟨_, m.after⟩)) (mem_declarationOf_iff.mpr
        ⟨m.word, m.gap, m.declaring, m.gap_ne, m.blank, ⟨rfl, rfl⟩, ?_⟩)
      rw [hlast _ _ _ m.gap_ne]
      exact hedge

/-!
# Where mentions and declarations agree
-/

namespace Mention

variable {text : List Char} {name : String}

/-- The name ends at the edge of a word if either a word character follows it or its last character
is one, but not both. -/
theorem endsWord_iff (m : Mention text name) (hname : IsIdentifier name) :
    m.EndsWord <-> (name.toList.getLast? = some '$' <-> m.after.head?.any isWordChar = true) := by
  have hlast : m.last = name.toList.getLast? :=
    List.getLast?_append_of_ne_nil _ hname.ne_nil
  unfold EndsWord isWordEdge
  rw [hlast]
  cases hend : name.toList.getLast? with
  | none =>
      exact absurd (List.getLast?_eq_none_iff.mp hend) hname.ne_nil
  | some ch =>
      have hclass : isIdentifierChar ch = true := hname.char (List.mem_of_getLast? hend)
      have hdollar : isWordChar ch = false <-> ch = '$' := by
        constructor
        · intro hno
          simpa [isIdentifierChar, hno] using hclass
        · rintro rfl
          decide
      rw [Option.any_some, bne_iff_ne, Option.some.injEq, <- hdollar]
      cases isWordChar ch <;> cases m.after.head?.any isWordChar <;> simp

theorem endsWord_iff_endsApart (m : Mention text name) (hname : IsIdentifier name)
    (hdollar : '$' ∉ text) : m.EndsWord <-> m.EndsApart := by
  have hend : name.toList.getLast? ≠ some '$' := by
    intro heq
    refine hdollar ?_
    rw [m.text_eq]
    have hmem := List.mem_of_getLast? heq
    simp [hmem]
  have hnext : forall ch, m.after.head? = some ch -> ch ≠ '$' := by
    rintro ch hch rfl
    refine hdollar ?_
    rw [m.text_eq]
    have hmem := List.mem_of_mem_head? hch
    simp [hmem]
  rw [m.endsWord_iff hname, iff_false_left hend]
  unfold EndsApart
  cases hafter : m.after.head? with
  | none =>
      simp
  | some ch =>
      have hne := hnext ch hafter
      simp [isIdentifierChar, hne]

end Mention

/-- A text in which a name cannot be mentioned without being declared: no comment is taken out of
it, it holds no dollar sign, and nothing that declares the name is the end of a longer word. -/
structure SpeaksPlainly (text : List Char) (name : String) : Prop where
  uncommented : withoutComments text = text
  no_dollar : '$' ∉ text
  apart : forall m : Mention text name, m.BeginsApart

theorem SpeaksPlainly.mentioned_iff {text : List Char} {name : String}
    (h : SpeaksPlainly text name) (hname : IsIdentifier name) :
    (exists m : Mention text name, m.EndsWord) <-> DeclaredIn (withoutComments text) name := by
  rw [h.uncommented]
  constructor
  · rintro ⟨m, hm⟩
    exact ⟨m, h.apart m, (m.endsWord_iff_endsApart hname h.no_dollar).mp hm⟩
  · rintro ⟨m, _, hm⟩
    exact ⟨m, (m.endsWord_iff_endsApart hname h.no_dollar).mpr hm⟩

theorem Mention.beginsApart_of_words {text : List Char} {name : String}
    (h : forall place, place ≤ text.length -> forall word, word ∈ declaringWords ->
      word.toList <+: text.drop place ->
      (text.take place).getLast?.any isIdentifierChar = false) (m : Mention text name) :
    m.BeginsApart := by
  obtain ⟨before, word, gap, after, hdeclaring, _, _, rfl⟩ := m
  intro ch hch
  have hprefix : word.toList <+:
      (before ++ (word.toList ++ gap ++ name.toList) ++ after).drop before.length :=
    ⟨gap ++ name.toList ++ after, by simp⟩
  have hlast := h before.length (by simp) word hdeclaring hprefix
  rw [List.append_assoc, List.take_left, hch] at hlast
  exact hlast

/-!
# The names of the list
-/

theorem mem_addable_iff {text name : String} {names : List String}
    (hdefault : (scan "" text).exports.hasDefault = true)
    (hcommonjs : (scan "" text).exports.commonjs = false)
    (hlist : findAll exportListStart text.toList = []) :
    name ∈ addable text names <->
      name ∈ names ∧ exists m : Mention text.toList name, m.EndsWord := by
  unfold addable
  dsimp only
  rw [hdefault, hcommonjs, hlist]
  show name ∈ names.filter (declares text.toList) <-> _
  rw [List.mem_filter, declares_iff]

theorem addable_sublist (text : String) (names : List String) :
    (addable text names).Sublist names := by
  unfold addable
  dsimp only
  split
  · exact List.nil_sublist _
  · split
    · exact List.nil_sublist _
    · exact List.filter_sublist

/--
What a repair appends to a module with a default export and without older exports and lists.  Of
the names that are asked of it these are the ones that it mentions up to the edge of a word, in the
order in which they are asked for; and where it speaks plainly these are the ones that it declares.
-/
theorem ordersFor_lists_mentioned {request : FixRequest} {target text : String}
    (htext : request.files.get? target = some text)
    (hdefault : (scan "" text).exports.hasDefault = true)
    (hcommonjs : (scan "" text).exports.commonjs = false)
    (hlist : findAll exportListStart text.toList = []) :
    exists names,
      ((exists op, op ∈ WorkOrder.operations (ordersFor request) ∧ op.path = target) <->
        names ≠ []) ∧
      (forall op, op ∈ WorkOrder.operations (ordersFor request) -> op.path = target ->
        op.action = .modify ∧ op.content = some (withExportList text names)) ∧
      names.Sublist (request.wanted target) ∧
      (forall name, name ∈ names <->
        name ∈ request.wanted target ∧ exists m : Mention text.toList name, m.EndsWord) ∧
      forall name, IsIdentifier name -> SpeaksPlainly text.toList name ->
        (name ∈ names <->
          name ∈ request.wanted target ∧ DeclaredIn (withoutComments text.toList) name) := by
  have hmem : forall name, name ∈ addable text (request.wanted target) <->
      name ∈ request.wanted target ∧ exists m : Mention text.toList name, m.EndsWord :=
    fun _ => mem_addable_iff hdefault hcommonjs hlist
  rw [operations_ordersFor]
  refine ⟨addable text (request.wanted target), ?_, ?_, addable_sublist _ _, hmem, ?_⟩
  · constructor
    · rintro ⟨op, hop, rfl⟩
      obtain ⟨found, hfound, hne, _⟩ := mem_operations_iff.mp hop
      rw [htext] at hfound
      cases hfound
      exact hne
    · intro hne
      refine ⟨edit target text (request.wanted target), ?_, rfl⟩
      exact mem_operations_iff.mpr ⟨text, htext, hne, rfl⟩
  · rintro op hop rfl
    obtain ⟨found, hfound, hne, hedit⟩ := mem_operations_iff.mp hop
    rw [htext] at hfound
    cases hfound
    rw [hedit]
    exact ⟨rfl, congrArg some (mend_of_ne_nil hne)⟩
  · intro name hname hplain
    rw [hmem, hplain.mentioned_iff hname]

/-- A helper beside a default export is listed, and a name that the module does not have is not. -/
theorem ordersFor_lists_mentioned_helper :
    let text := "export default function f() \x7b\x7d\nasync function helper() \x7b\x7d\n"
    let request : FixRequest :=
      { pass := 1
        errors := []
        missingExports :=
          [{ file := "src/a.ts", line := 1, target := "src/t.ts", name := "other" },
            { file := "src/a.ts", line := 1, target := "src/t.ts", name := "helper" }]
        files := { entries := [("src/t.ts", text)] } }
    SpeaksPlainly text.toList "helper" ∧ request.files.get? "src/t.ts" = some text ∧
      (scan "" text).exports.hasDefault = true ∧ (scan "" text).exports.commonjs = false ∧
      findAll exportListStart text.toList = [] ∧
      exists names,
        ((exists op, op ∈ WorkOrder.operations (ordersFor request) ∧ op.path = "src/t.ts") <->
          names ≠ []) ∧
        (forall op, op ∈ WorkOrder.operations (ordersFor request) -> op.path = "src/t.ts" ->
          op.action = .modify ∧ op.content = some (withExportList text names)) ∧
        names.Sublist (request.wanted "src/t.ts") ∧
        (forall name, name ∈ names <->
          name ∈ request.wanted "src/t.ts" ∧
            exists m : Mention text.toList name, m.EndsWord) ∧
        forall name, IsIdentifier name -> SpeaksPlainly text.toList name ->
          (name ∈ names <->
            name ∈ request.wanted "src/t.ts" ∧
              DeclaredIn (withoutComments text.toList) name) := by
  intro text request
  have hlist : findAll exportListStart text.toList = [] :=
    List.isEmpty_iff.mp (by decide +kernel)
  have hplain : SpeaksPlainly text.toList "helper" :=
    ⟨by decide +kernel, by decide +kernel, Mention.beginsApart_of_words (by decide +kernel)⟩
  refine ⟨hplain, rfl, by decide +kernel, by decide +kernel, hlist, ?_⟩
  exact ordersFor_lists_mentioned rfl (by decide +kernel) (by decide +kernel) hlist

/-- A name that only a comment mentions is listed, and a declared name that ends in a dollar sign is
not. -/
theorem lists_undeclared :
    let commented := "// const helper = 1\nexport default function f() \x7b\x7d\n"
    let dollar := "const helper$ = 1\nexport default function f() \x7b\x7d\n"
    (addable commented ["helper"] = ["helper"] ∧
        ¬DeclaredIn (withoutComments commented.toList) "helper") ∧
      (scan "" dollar).exports.hasDefault = true ∧ (scan "" dollar).exports.commonjs = false ∧
      findAll exportListStart dollar.toList = [] ∧
      addable dollar ["helper$"] = [] ∧
      DeclaredIn (withoutComments dollar.toList) "helper$" := by
  intro commented dollar
  refine ⟨⟨by decide +kernel, ?_⟩, by decide +kernel, by decide +kernel,
    List.isEmpty_iff.mp (by decide +kernel), by decide +kernel, ?_⟩
  · rintro ⟨m, _⟩
    have hmentioned : "helper".toList <:+: withoutComments commented.toList := by
      refine ⟨m.before ++ (m.word.toList ++ m.gap), m.after, ?_⟩
      conv => rhs; rw [m.text_eq]
      simp
    revert hmentioned
    decide +kernel
  · refine ⟨⟨[], "const", [' '], " = 1\nexport default function f() \x7b\x7d\n".toList,
      by decide, by decide, List.all_eq_true.mp rfl, by decide +kernel⟩, ?_, ?_⟩
    · intro ch hch
      cases hch
    · intro ch hch
      cases hch
      decide

end ExportFix
end Joinery
