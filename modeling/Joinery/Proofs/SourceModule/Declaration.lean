import Joinery.Proofs.SourceModule.Forms
import Mathlib.Data.List.Infix

/-!
# Exported declarations

## The parts of a declaration

A declaration is read word by word: `export`, its modifiers, its kind, a gap and its
name.  What each part can read is said here, and that the words before the kind are read
in one way only.
-/

namespace Joinery
namespace SourceModule

open Text Matcher

def exportWord : Matcher Unit := do
  indentation
  Matcher.word "export"

def modifiers : Matcher Bool := do
  Matcher.blanks1
  let _ <- Matcher.optional (keyword "declare")
  let default <- Matcher.optional (keyword "default")
  let _ <- Matcher.optional (keyword "async")
  let _ <- Matcher.optional (keyword "abstract")
  Matcher.give default.isSome

/-- The places where the parts of a declaration end. -/
structure DeclarationParts where
  afterWord : Cursor
  isDefault : Bool
  afterModifiers : Cursor
  afterKind : Cursor
  afterGap : Cursor
  name : String

structure Declares (c : Cursor) (parts : DeclarationParts) (found : String × Cursor) : Prop where
  word : ((), parts.afterWord) ∈ exportWord c
  modifiers : (parts.isDefault, parts.afterModifiers) ∈ modifiers parts.afterWord
  kind : ((), parts.afterKind) ∈ anyOf declarationKinds parts.afterModifiers
  gap : ((), parts.afterGap) ∈ declarationGap parts.afterKind
  named : (parts.name, found.2) ∈ identifier parts.afterGap
  value : found.1 = if parts.isDefault then defaultExport else parts.name

theorem declarationForm_eq :
    declarationForm = exportWord >>= fun _ => modifiers >>= fun isDefault =>
      anyOf declarationKinds >>= fun _ => declarationGap >>= fun _ => identifier >>= fun name =>
        give (if isDefault then defaultExport else name) := by
  unfold declarationForm exportWord modifiers
  simp only [keyword, bind_assoc, give_bind]

theorem exists_parts {c : Cursor} {found : String × Cursor} (h : found ∈ declarationForm c) :
    exists parts, Declares c parts found := by
  rw [declarationForm_eq] at h
  obtain ⟨⟨_, afterWord⟩, hword, h⟩ := mem_bind_iff.mp h
  obtain ⟨⟨isDefault, afterModifiers⟩, hmodifiers, h⟩ := mem_bind_iff.mp h
  obtain ⟨⟨_, afterKind⟩, hkind, h⟩ := mem_bind_iff.mp h
  obtain ⟨⟨_, afterGap⟩, hgap, h⟩ := mem_bind_iff.mp h
  obtain ⟨⟨name, stop⟩, hnamed, h⟩ := mem_bind_iff.mp h
  cases mem_give_iff.mp h
  exact ⟨⟨afterWord, isDefault, afterModifiers, afterKind, afterGap, name⟩,
    hword, hmodifiers, hkind, hgap, hnamed, rfl⟩

/-!
# What the parts read
-/

/-- After the word `export`, neither its second letter nor a brace is read before a name. -/
def isLead (c : Char) : Bool :=
  c != 'x' && c != '{' && c != '}'

theorem isLead_of_isBlank {c : Char} (h : isBlank c = true) : isLead c = true := by
  have hx : c ≠ 'x' := by
    rintro rfl
    cases h
  have hopen : c ≠ '{' := by
    rintro rfl
    cases h
  have hclose : c ≠ '}' := by
    rintro rfl
    cases h
  simp [isLead, hx, hopen, hclose]

theorem mem_blanks_iff {c : Cursor} {found : Unit × Cursor} :
    found ∈ blanks c <-> found = ((), (c.readWhile isBlank).2) :=
  List.mem_singleton

theorem mem_blanks1_iff {c : Cursor} {found : Unit × Cursor} :
    found ∈ blanks1 c <->
      (exists ch rest, c.ahead = ch :: rest ∧ isBlank ch = true) ∧
        found = ((), (c.readWhile isBlank).2) := by
  obtain ⟨behind, ahead⟩ := c
  show found ∈ (Matcher.stretch1 isBlank ⟨behind, ahead⟩).flatMap _ <-> _
  cases ahead with
  | nil =>
      simp [Matcher.stretch1]
  | cons ch rest =>
      cases h : isBlank ch with
      | true =>
          simp [Matcher.stretch1, h]
          exact mem_give_iff
      | false =>
          simp [Matcher.stretch1, h]

theorem mem_keyword_iff {text : String} {c : Cursor} {found : Unit × Cursor} :
    found ∈ keyword text c <->
      exists d, c.Reads text.toList d ∧ found ∈ blanks1 d := by
  show found ∈ (Matcher.word text >>= fun _ => blanks1) c <-> _
  rw [mem_bind_iff]
  constructor
  · rintro ⟨first, hfirst, hfound⟩
    exact ⟨first.2, mem_letters_iff.mp hfirst, hfound⟩
  · rintro ⟨d, hread, hfound⟩
    exact ⟨((), d), mem_letters_iff.mpr hread, hfound⟩

theorem Over.blanks1 : Over isLead blanks1 :=
  Over.bind (Over.stretch1 fun _ h => isLead_of_isBlank h) fun _ => Over.give _

theorem Over.blanks : Over isLead blanks :=
  Over.bind (Over.stretch fun _ h => isLead_of_isBlank h) fun _ => Over.give _

theorem Over.word {text : String} (h : text.toList.all isLead = true) :
    Over isLead (word text) :=
  Over.letters (List.all_eq_true.mp h)

theorem Over.keyword {text : String} (h : text.toList.all isLead = true) :
    Over isLead (keyword text) :=
  Over.bind (Over.word h) fun _ => Over.blanks1

theorem Over.modifiers : Over isLead modifiers := by
  refine Over.bind Over.blanks1 fun _ => ?_
  refine Over.bind (Over.optional (Over.keyword (by decide))) fun _ => ?_
  refine Over.bind (Over.optional (Over.keyword (by decide))) fun _ => ?_
  refine Over.bind (Over.optional (Over.keyword (by decide))) fun _ => ?_
  refine Over.bind (Over.optional (Over.keyword (by decide))) fun _ => ?_
  exact Over.give _

def kindWords : List String :=
  ["const", "let", "var", "class", "interface", "type", "enum", "namespace", "function"]

theorem mem_kinds_iff {c : Cursor} {found : Unit × Cursor} :
    found ∈ anyOf declarationKinds c <->
      (exists d, ((), d) ∈ keyword "const" c ∧ d.Reads "enum".toList found.2) ∨
        exists text, text ∈ kindWords ∧ c.Reads text.toList found.2 := by
  rw [mem_anyOf_iff]
  constructor
  · rintro ⟨kind, hkind, hfound⟩
    rcases List.mem_cons.mp hkind with rfl | hkind
    · obtain ⟨first, hfirst, hfound⟩ := mem_bind_iff.mp hfound
      exact Or.inl ⟨first.2, hfirst, mem_letters_iff.mp hfound⟩
    · obtain ⟨text, htext, rfl⟩ := List.mem_map.mp hkind
      exact Or.inr ⟨text, htext, mem_letters_iff.mp hfound⟩
  · rintro (⟨d, hconst, henum⟩ | ⟨text, htext, hread⟩)
    · exact ⟨_, List.mem_cons_self ..,
        mem_bind_iff.mpr ⟨((), d), hconst, mem_letters_iff.mpr henum⟩⟩
    · exact ⟨_, List.mem_cons_of_mem _ (List.mem_map.mpr ⟨text, htext, rfl⟩),
        mem_letters_iff.mpr hread⟩

theorem Over.kinds : Over isLead (anyOf declarationKinds) := by
  refine Over.anyOf ?_
  intro kind hkind
  rcases List.mem_cons.mp hkind with rfl | hkind
  · exact Over.bind (Over.keyword (by decide)) fun _ => Over.word (by decide)
  · obtain ⟨text, htext, rfl⟩ := List.mem_map.mp hkind
    have hwords : forall t, t ∈ kindWords -> t.toList.all isLead = true := by
      decide
    exact Over.word (hwords text htext)

theorem Over.gap : Over isLead declarationGap :=
  Over.orElse
    (Over.bind Over.blanks fun _ =>
      Over.bind (Over.letters (List.all_eq_true.mp (by decide))) fun _ => Over.blanks)
    Over.blanks1

theorem reads_of_mem_exportWord {c : Cursor} {found : Unit × Cursor} (h : found ∈ exportWord c) :
    c.atLineStart = true ∧
      exists indent, (forall ch, ch ∈ indent -> isIndent ch = true) ∧
        c.Reads (indent ++ "export".toList) found.2 := by
  obtain ⟨first, hfirst, hword⟩ := mem_bind_iff.mp h
  obtain ⟨start, hstart, hrest⟩ := mem_bind_iff.mp hfirst
  obtain ⟨hline, heq⟩ := mem_guard_iff.mp hstart
  obtain ⟨spaces, hspaces, hgive⟩ := mem_bind_iff.mp hrest
  obtain ⟨indent, hindent, hclass⟩ := Over.stretch (fun _ h => h) start.2 spaces hspaces
  rw [mem_give_iff.mp hgive] at hword
  rw [heq] at hindent
  exact ⟨hline, indent, hclass, hindent.trans (mem_letters_iff.mp hword)⟩

/-!
# One way to read the modifiers
-/

def Starts (words : List String) (c : Cursor) : Prop :=
  exists text, text ∈ words ∧ text.toList <+: c.ahead

theorem starts_of_mem_kinds {c : Cursor} {found : Unit × Cursor}
    (h : found ∈ anyOf declarationKinds c) : Starts kindWords c := by
  rcases mem_kinds_iff.mp h with ⟨d, hconst, _⟩ | ⟨text, htext, hread⟩
  · obtain ⟨e, hread, _⟩ := mem_keyword_iff.mp hconst
    exact ⟨"const", List.mem_cons_self .., e.ahead, hread.1.symm⟩
  · exact ⟨text, htext, found.2.ahead, hread.1.symm⟩

theorem keyword_unique {text : String} {c : Cursor} {r s : Unit × Cursor}
    (hr : r ∈ keyword text c) (hs : s ∈ keyword text c) : r = s := by
  obtain ⟨d, hd, hr⟩ := mem_keyword_iff.mp hr
  obtain ⟨e, he, hs⟩ := mem_keyword_iff.mp hs
  rw [(mem_blanks1_iff.mp hr).2, (mem_blanks1_iff.mp hs).2, hd.unique he]

/-- No word of a list begins with the other word, nor the other way round. -/
def Apart (text : String) (words : List String) : Prop :=
  forall w, w ∈ words -> ¬w.toList <+: text.toList ∧ ¬text.toList <+: w.toList

instance (text : String) (words : List String) : Decidable (Apart text words) :=
  inferInstanceAs (Decidable (forall w, w ∈ words -> _))

theorem optional_keyword_unique {text : String} {words : List String} (h : Apart text words)
    {c : Cursor} {r s : Option Unit × Cursor} (hr : r ∈ Matcher.optional (keyword text) c)
    (hs : s ∈ Matcher.optional (keyword text) c) (hrNext : Starts words r.2)
    (hsNext : Starts words s.2) : r = s := by
  have hnot : forall {first : Unit × Cursor}, first ∈ keyword text c -> ¬Starts words c := by
    rintro first hfirst ⟨w, hw, hprefix⟩
    obtain ⟨d, hread, _⟩ := mem_keyword_iff.mp hfirst
    have htext : text.toList <+: c.ahead := ⟨d.ahead, hread.1.symm⟩
    rcases List.prefix_or_prefix_of_prefix hprefix htext with hle | hle
    · exact (h w hw).1 hle
    · exact (h w hw).2 hle
  rcases mem_optional_iff.mp hr with ⟨first, hfirst, rfl⟩ | rfl
  · rcases mem_optional_iff.mp hs with ⟨second, hsecond, rfl⟩ | rfl
    · rw [keyword_unique hfirst hsecond]
    · exact absurd hsNext (hnot hfirst)
  · rcases mem_optional_iff.mp hs with ⟨second, hsecond, rfl⟩ | rfl
    · exact absurd hrNext (hnot hsecond)
    · rfl

theorem starts_of_optional {text : String} {words : List String} {c : Cursor}
    {r : Option Unit × Cursor} (hr : r ∈ Matcher.optional (keyword text) c)
    (h : Starts words r.2) : Starts (text :: words) c := by
  rcases mem_optional_iff.mp hr with ⟨first, hfirst, rfl⟩ | rfl
  · obtain ⟨d, hread, _⟩ := mem_keyword_iff.mp hfirst
    exact ⟨text, List.mem_cons_self .., d.ahead, hread.1.symm⟩
  · obtain ⟨w, hw, hprefix⟩ := h
    exact ⟨w, List.mem_cons_of_mem _ hw, hprefix⟩

theorem modifiers_unique {c : Cursor} {r s : Bool × Cursor} (hr : r ∈ modifiers c)
    (hs : s ∈ modifiers c) (hrNext : Starts kindWords r.2) (hsNext : Starts kindWords s.2) :
    r = s := by
  obtain ⟨r0, hr0, hr⟩ := mem_bind_iff.mp hr
  obtain ⟨r1, hr1, hr⟩ := mem_bind_iff.mp hr
  obtain ⟨r2, hr2, hr⟩ := mem_bind_iff.mp hr
  obtain ⟨r3, hr3, hr⟩ := mem_bind_iff.mp hr
  obtain ⟨r4, hr4, hr⟩ := mem_bind_iff.mp hr
  obtain ⟨s0, hs0, hs⟩ := mem_bind_iff.mp hs
  obtain ⟨s1, hs1, hs⟩ := mem_bind_iff.mp hs
  obtain ⟨s2, hs2, hs⟩ := mem_bind_iff.mp hs
  obtain ⟨s3, hs3, hs⟩ := mem_bind_iff.mp hs
  obtain ⟨s4, hs4, hs⟩ := mem_bind_iff.mp hs
  rw [mem_give_iff.mp hr] at hrNext ⊢
  rw [mem_give_iff.mp hs] at hsNext ⊢
  -- which words may come next is found from the last modifier to the first
  have hr3Next := starts_of_optional hr4 hrNext
  have hr2Next := starts_of_optional hr3 hr3Next
  have hr1Next := starts_of_optional hr2 hr2Next
  have hs3Next := starts_of_optional hs4 hsNext
  have hs2Next := starts_of_optional hs3 hs3Next
  have hs1Next := starts_of_optional hs2 hs2Next
  have h0 : r0 = s0 := by
    rw [(mem_blanks1_iff.mp hr0).2, (mem_blanks1_iff.mp hs0).2]
  subst h0
  have h1 := optional_keyword_unique (by decide) hr1 hs1 hr1Next hs1Next
  subst h1
  have h2 := optional_keyword_unique (by decide) hr2 hs2 hr2Next hs2Next
  subst h2
  have h3 := optional_keyword_unique (by decide) hr3 hs3 hr3Next hs3Next
  subst h3
  have h4 := optional_keyword_unique (by decide) hr4 hs4 hrNext hsNext
  subst h4
  rfl

theorem exportWord_unique {c : Cursor} {r s : Unit × Cursor} (hr : r ∈ exportWord c)
    (hs : s ∈ exportWord c) : r = s := by
  have hindent : forall {t u : Unit × Cursor}, t ∈ indentation c -> u ∈ indentation c -> t = u := by
    intro t u ht hu
    obtain ⟨t1, ht1, ht⟩ := mem_bind_iff.mp ht
    obtain ⟨t2, ht2, ht⟩ := mem_bind_iff.mp ht
    obtain ⟨u1, hu1, hu⟩ := mem_bind_iff.mp hu
    obtain ⟨u2, hu2, hu⟩ := mem_bind_iff.mp hu
    rw [(mem_guard_iff.mp ht1).2] at ht2
    rw [(mem_guard_iff.mp hu1).2] at hu2
    rw [mem_give_iff.mp ht, mem_give_iff.mp hu, List.mem_singleton.mp ht2,
      List.mem_singleton.mp hu2]
  obtain ⟨r1, hr1, hr⟩ := mem_bind_iff.mp hr
  obtain ⟨s1, hs1, hs⟩ := mem_bind_iff.mp hs
  rw [hindent hr1 hs1] at hr
  exact Prod.ext rfl ((mem_letters_iff.mp hr).unique (mem_letters_iff.mp hs))

end SourceModule
end Joinery
