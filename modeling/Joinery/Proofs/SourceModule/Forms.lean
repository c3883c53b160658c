import Joinery.Proofs.Text.Finding
import Joinery.SourceModule.Exports

/-!
# Forms of statements in a longer text

## What each form ends with

Every form of an import ends with a quote or a closing parenthesis, and so does the
re-export of a whole module.  Declarations end with an identifier and lists of names
with a brace, or with the source after it.
-/

namespace Joinery

namespace Text

def blankCodes : List Nat :=
  List.range' 0x09 5 ++ List.range' 0x1C 5 ++ [0x85, 0xA0, 0x1680] ++ List.range' 0x2000 11 ++
    [0x2028, 0x2029, 0x202F, 0x205F, 0x3000]

theorem mem_blankCodes {c : Char} (h : isBlank c = true) : c.toNat ∈ blankCodes := by
  simp only [isBlank, Bool.or_eq_true, Bool.and_eq_true, decide_eq_true_eq, beq_iff_eq] at h
  simp only [blankCodes, List.mem_append, List.mem_range'_1, List.mem_cons, List.not_mem_nil,
    or_false]
  omega

theorem isWordChar_of_isBlank {c : Char} (h : isBlank c = true) : isWordChar c = false := by
  have hcodes : forall n, n ∈ blankCodes -> isWordChar (Char.ofNat n) = false := by
    decide +kernel
  have hc := hcodes c.toNat (mem_blankCodes h)
  rwa [Char.ofNat_toNat] at hc

end Text

namespace SourceModule

open Text Matcher

theorem isIdentifierChar_of_isBlank {c : Char} (h : isBlank c = true) :
    isIdentifierChar c = false := by
  have hdollar : c ≠ '$' := by
    intro heq
    subst heq
    cases h
  simp [isIdentifierChar, isWordChar_of_isBlank h, hdollar]

theorem isIdentifierChar_of_isIdentifierStart {c : Char} (h : isIdentifierStart c = true) :
    isIdentifierChar c = true := by
  simp only [isIdentifierStart, Bool.or_eq_true, beq_iff_eq] at h
  simp only [isIdentifierChar, Bool.or_eq_true, beq_iff_eq]
  rcases h with (h | rfl) | rfl
  · left
    have hascii : c.toNat < 128 := by
      have hletter : c.isUpper = true ∨ c.isLower = true := (Bool.or_eq_true _ _).mp h
      rcases hletter with hupper | hlower
      · have hle : c.val ≤ 90 := (of_decide_eq_true hupper).2
        exact Nat.lt_of_le_of_lt (UInt32.le_iff_toNat_le.mp hle) (by decide)
      · have hle : c.val ≤ 122 := of_decide_eq_true (Bool.and_eq_true_iff.mp hlower).2
        exact Nat.lt_of_le_of_lt (UInt32.le_iff_toNat_le.mp hle) (by decide)
    simp [isWordChar, hascii, isAsciiAlphanumeric, h]
  · left
    decide
  · right
    rfl

/-!
# Pieces
-/

theorem Local.indentation : Local indentation :=
  Local.bind Local.lineStart fun _ => Local.bind (Local.stretch _) fun _ => Local.give _

theorem Local.blanks : Local blanks :=
  Local.bind (Local.stretch _) fun _ => Local.give _

theorem Local.blanks1 : Local blanks1 :=
  Local.bind (Local.stretch1 _) fun _ => Local.give _

theorem Local.keyword (text : String) : Local (keyword text) :=
  Local.bind (Local.word text) fun _ => Local.blanks1

theorem Local.identifier : Local identifier :=
  Local.bind (Local.one _) fun _ => Local.bind (Local.stretch _) fun _ => Local.give _

theorem Local.anyIdentifier : Local anyIdentifier :=
  Local.bind (Local.one _) fun _ => Local.bind (Local.beginnings _) fun _ => Local.give _

theorem Local.braced : Local braced :=
  Local.bind (Local.letters _) fun _ =>
    Local.bind (Local.stretch _) fun _ => Local.bind (Local.letters _) fun _ => Local.give _

/-- A quote of either kind, or a closing parenthesis. -/
def closesSource (c : Char) : Bool :=
  c == '\'' || c == '"' || c == ')'

variable {more : List Char}

theorem Closing.quoted : Closing closesSource more quoted := by
  refine Closing.bind (Local.one _) ?_
  intro c first hfirst
  refine Closing.bind (Local.stretch1 _) fun _ _ _ => ?_
  refine Closing.give (Closing.letters (List.cons_ne_nil _ _) ?_) fun _ => _
  intro ch hch
  cases hch
  have hquote := (mem_one_iff.mp hfirst).1
  simp only [Bool.or_eq_true, beq_iff_eq] at hquote
  rcases hquote with h | h <;> simp [closesSource, h]

theorem Closing.fromSource : Closing closesSource more fromSource :=
  Closing.bind (Local.word _) fun _ _ _ => Closing.bind Local.blanks fun _ _ _ => Closing.quoted

theorem Closing.requireCall : Closing closesSource more requireCall := by
  refine Closing.bind (Local.word _) fun _ _ _ => Closing.bind Local.blanks fun _ _ _ => ?_
  refine Closing.bind (Local.letters _) fun _ _ _ => Closing.bind Local.blanks fun _ _ _ => ?_
  refine Closing.bind ?_ fun _ _ _ => Closing.bind Local.blanks fun _ _ _ => ?_
  · exact Local.bind (Local.one _) fun _ => Local.bind (Local.stretch1 _) fun _ =>
      Local.bind (Local.letters _) fun _ => Local.give _
  · refine Closing.give (Closing.letters (List.cons_ne_nil _ _) ?_) fun _ => _
    intro ch hch
    cases hch
    rfl

/-!
# Imports
-/

theorem Local.selection : Local selection := by
  refine Local.orElse (Local.bind Local.braced fun _ => Local.give _) ?_
  refine Local.bind (Local.letters _) fun _ => Local.bind Local.blanks fun _ => ?_
  exact Local.bind (Local.keyword _) fun _ => Local.bind Local.anyIdentifier fun _ => Local.give _

theorem Local.defaultName : Local defaultName := by
  refine Local.bind Local.anyIdentifier fun _ => Local.bind Local.blanks fun _ => ?_
  refine Local.bind (Local.optional ?_) fun _ => Local.give _
  exact Local.bind (Local.letters _) fun _ => Local.blanks

theorem Closing.importForm : Closing closesSource more importForm := by
  refine Closing.bind Local.indentation fun _ _ _ => ?_
  refine Closing.bind (Local.keyword _) fun _ _ _ => ?_
  refine Closing.bind (Local.optional (Local.keyword _)) fun _ _ _ => ?_
  refine Closing.bind (Local.optional Local.defaultName) fun _ _ _ => ?_
  refine Closing.bind (Local.optional Local.selection) fun _ _ _ => ?_
  refine Closing.bind Local.blanks fun _ _ _ => ?_
  exact Closing.give Closing.fromSource fun _ => _

theorem Closing.runForm : Closing closesSource more runForm := by
  refine Closing.bind Local.indentation fun _ _ _ => ?_
  refine Closing.bind (Local.word _) fun _ _ _ => Closing.bind Local.blanks fun _ _ _ => ?_
  exact Closing.give Closing.quoted fun _ => _

theorem Local.requireTarget : Local requireTarget :=
  Local.orElse (Local.bind Local.braced fun _ => Local.give _)
    (Local.bind Local.identifier fun _ => Local.give _)

theorem Closing.requireForm : Closing closesSource more requireForm := by
  refine Closing.bind Local.indentation fun _ _ _ => ?_
  refine Closing.bind (Local.anyOf ?_) fun _ _ _ => ?_
  · intro m hm
    simp only [List.mem_cons, List.not_mem_nil, or_false] at hm
    rcases hm with rfl | rfl | rfl <;> exact Local.keyword _
  refine Closing.bind Local.requireTarget fun _ _ _ => ?_
  refine Closing.bind Local.blanks fun _ _ _ => Closing.bind (Local.letters _) fun _ _ _ => ?_
  refine Closing.bind Local.blanks fun _ _ _ => ?_
  exact Closing.give Closing.requireCall fun _ => _

theorem Closing.bareRequireForm : Closing closesSource more bareRequireForm := by
  refine Closing.bind Local.indentation fun _ _ _ => ?_
  exact Closing.give Closing.requireCall fun _ => _

theorem importsOfCode_append (hmore : forall ch, ch ∈ more -> closesSource ch = false)
    (code : List Char) : importsOfCode (code ++ more) = importsOfCode code := by
  have hform : forall form, form ∈ [importForm, runForm, requireForm, bareRequireForm] ->
      importsOfForm form (code ++ more) = importsOfForm form code := by
    intro form hmem
    have hclosing : Closing closesSource more form := by
      simp only [List.mem_cons, List.not_mem_nil, or_false] at hmem
      rcases hmem with rfl | rfl | rfl | rfl
      · exact Closing.importForm
      · exact Closing.runForm
      · exact Closing.requireForm
      · exact Closing.bareRequireForm
    unfold importsOfForm
    rw [findAll_append hclosing hmore, List.filterMap_map]
    rfl
  unfold importsOfCode
  dsimp only
  rw [List.flatMap_def, List.flatMap_def, List.map_congr_left hform]

/-!
# Exports
-/

def listedReexport (found : Found (List String × Option String)) : Option Reexport :=
  found.value.2.map fun source =>
    { source := source, line := found.place.line, names := found.value.1 }

def starReexport (found : Found (Option String × String)) : Reexport :=
  { source := found.value.2
    line := found.place.line
    names := found.value.1.toList
    star := found.value.1.isNone }

theorem reexportsOfCode_eq (code : List Char) :
    reexportsOfCode code =
      sortBy (fun a b => decide (a.line ≤ b.line))
        ((findAll bracedForm code).filterMap listedReexport ++
          (findAll starForm code).map starReexport) :=
  rfl

theorem Closing.starForm : Closing closesSource more starForm := by
  refine Closing.bind Local.indentation fun _ _ _ => ?_
  refine Closing.bind (Local.keyword _) fun _ _ _ => ?_
  refine Closing.bind (Local.optional (Local.keyword _)) fun _ _ _ => ?_
  refine Closing.bind (Local.letters _) fun _ _ _ => Closing.bind Local.blanks fun _ _ _ => ?_
  refine Closing.bind (Local.optional ?_) fun _ _ _ => ?_
  · exact Local.bind (Local.keyword _) fun _ => Local.bind Local.identifier fun _ =>
      Local.bind Local.blanks1 fun _ => Local.give _
  · exact Closing.give Closing.fromSource fun _ => _

theorem findAll_starForm_append (hmore : forall ch, ch ∈ more -> closesSource ch = false)
    (code : List Char) :
    (findAll starForm (code ++ more)).map (·.value) = (findAll starForm code).map (·.value) := by
  rw [findAll_append Closing.starForm hmore, List.map_map]
  rfl

def EndsWord (more : List Char) : Prop :=
  forall ch, more.head? = some ch -> isIdentifierChar ch = false

theorem identifier_push (hmore : EndsWord more) (c : Cursor) :
    identifier (c.push more) = (identifier c).map (pushed more) := by
  obtain ⟨behind, ahead⟩ := c
  cases ahead with
  | nil =>
      have hnone : Matcher.one isIdentifierStart ⟨behind, more⟩ = [] := by
        refine List.eq_nil_iff_forall_not_mem.mpr ?_
        intro found hfound
        obtain ⟨hstart, hread⟩ := mem_one_iff.mp hfound
        have hhead : more.head? = some found.1 := by
          rw [show more = [found.1] ++ found.2.ahead from hread.1]
          rfl
        have hnot := hmore found.1 hhead
        rw [isIdentifierChar_of_isIdentifierStart hstart] at hnot
        cases hnot
      show (Matcher.one isIdentifierStart ⟨behind, more⟩).flatMap _ = _
      rw [hnone]
      rfl
  | cons next rest =>
      have hone : Matcher.one isIdentifierStart (Cursor.push more ⟨behind, next :: rest⟩) =
          (Matcher.one isIdentifierStart ⟨behind, next :: rest⟩).map (pushed more) := by
        show Matcher.one isIdentifierStart ⟨behind, next :: (rest ++ more)⟩ = _
        rw [one_cons, one_cons]
        cases isIdentifierStart next <;> rfl
      refine push_eq_of_bind hone fun first _ => ?_
      exact push_eq_of_bind (stretch_push hmore first.2) fun word _ => rfl

theorem Closing.identifier (hmore : EndsWord more) : Closing isIdentifierChar more identifier := by
  constructor
  · intro c found h
    obtain ⟨first, hfirst, hrest⟩ := mem_bind_iff.mp h
    obtain ⟨word, hword, hfound⟩ := mem_bind_iff.mp hrest
    obtain ⟨hstart, hread⟩ := mem_one_iff.mp hfirst
    obtain ⟨read, hwordRead, hclass⟩ := Over.stretch (fun _ h => h) first.2 word hword
    rw [mem_give_iff.mp hfound]
    have hall : forall ch, ch ∈ first.1 :: read -> isIdentifierChar ch = true := by
      intro ch hch
      rcases List.mem_cons.mp hch with rfl | hch
      · exact isIdentifierChar_of_isIdentifierStart hstart
      · exact hclass ch hch
    have hne : first.1 :: read ≠ [] := List.cons_ne_nil _ _
    refine ⟨(first.1 :: read).dropLast, (first.1 :: read).getLast hne,
      hall _ (List.getLast_mem hne), ?_⟩
    rw [List.dropLast_concat_getLast hne]
    exact hread.trans hwordRead
  · intro c
    rw [identifier_push hmore]
    refine List.filter_eq_self.mpr ?_
    intro found hfound
    obtain ⟨base, _, rfl⟩ := List.mem_map.mp hfound
    exact keeps_pushed more base

theorem Local.declarationKind {kind : Matcher Unit} (h : kind ∈ declarationKinds) : Local kind := by
  rcases List.mem_cons.mp h with rfl | h
  · exact Local.bind (Local.keyword _) fun _ => Local.word _
  · obtain ⟨text, _, rfl⟩ := List.mem_map.mp h
    exact Local.word text

theorem Local.declarationGap : Local declarationGap :=
  Local.orElse
    (Local.bind Local.blanks fun _ => Local.bind (Local.letters _) fun _ => Local.blanks)
    Local.blanks1

theorem Closing.declarationForm (hmore : EndsWord more) :
    Closing isIdentifierChar more declarationForm := by
  refine Closing.bind Local.indentation fun _ _ _ => ?_
  refine Closing.bind (Local.keyword _) fun _ _ _ => ?_
  refine Closing.bind (Local.optional (Local.keyword _)) fun _ _ _ => ?_
  refine Closing.bind (Local.optional (Local.keyword _)) fun _ _ _ => ?_
  refine Closing.bind (Local.optional (Local.keyword _)) fun _ _ _ => ?_
  refine Closing.bind (Local.optional (Local.keyword _)) fun _ _ _ => ?_
  refine Closing.bind (Local.anyOf fun _ h => Local.declarationKind h) fun _ _ _ => ?_
  refine Closing.bind Local.declarationGap fun _ _ _ => ?_
  exact Closing.give (Closing.identifier hmore) fun _ => _

theorem Closing.defaultForm (hmore : EndsWord more) :
    Closing isIdentifierChar more defaultForm := by
  refine Closing.bind Local.indentation fun _ _ _ => ?_
  refine Closing.bind (Local.keyword _) fun _ _ _ => ?_
  refine Closing.guard (Closing.letters (by decide) ?_) ?_
  · exact (Option.all_eq_true _ _).mp (by decide)
  · rintro ⟨behind, ahead⟩ ⟨ch, hch, hlast⟩
    cases ahead with
    | cons next rest =>
        rfl
    | nil =>
        show isWordEdge behind.head? more.head? = isWordEdge behind.head? none
        cases more with
        | nil =>
            rfl
        | cons next rest =>
            have hnext := hmore next rfl
            simp only [isIdentifierChar, Bool.or_eq_false_iff] at hnext
            simp [isWordEdge, hnext.1]

theorem findAll_defaultForm_append (hmore : EndsWord more) {code : List Char}
    (h : findAll defaultForm code ≠ []) : findAll defaultForm (code ++ more) ≠ [] := by
  obtain ⟨before, rest, rfl, hne, hplace⟩ := findAll_ne_nil_iff.mp h
  obtain ⟨found, hfound⟩ := List.exists_mem_of_ne_nil _ hplace
  refine findAll_ne_nil_iff.mpr ⟨before, rest ++ more, List.append_assoc .., by simp [hne], ?_⟩
  exact List.ne_nil_of_mem ((Closing.defaultForm hmore).mem_push hfound)

theorem mem_names_iff {code : List Char} {name : String} :
    name ∈ (exportsOfCode code).names <->
      (exists found, found ∈ findAll declarationForm code ∧ found.value = name) ∨
      (findAll defaultForm code ≠ [] ∧ name = defaultExport) ∨
      (exists found, found ∈ findAll bracedForm code ∧ name ∈ found.value.1) ∨
      name ∈ ((findAll starForm code).map (·.value)).filterMap (·.1) ∨
      name ∈ (findAll assignedForm code).map (·.value) ∨
      name ∈ ((findAll assignedModuleForm code).map (·.value)).flatMap
        fun keys => defaultExport :: keys := by
  have hdefault : name ∈ (if (findAll defaultForm code).isEmpty then [] else [defaultExport]) <->
      findAll defaultForm code ≠ [] ∧ name = defaultExport := by
    cases findAll defaultForm code <;> simp
  unfold exportsOfCode
  simp only [List.mem_eraseDups, List.mem_append, hdefault, List.mem_flatMap, or_assoc,
    List.mem_map]

end SourceModule
end Joinery
