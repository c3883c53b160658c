import Joinery.Proofs.SourceModule.Declaration

/-!
# Declarations without a name

## What an export list at the end of a text changes

The name of a declaration is looked for behind all blanks.  A declaration at the end of a
text that lacks its name therefore reaches into an export list that is appended, and
takes its first word for the name.  This changes what is declared only where a word
before the list was taken for the name until then.
-/

namespace Joinery
namespace SourceModule

open Text Matcher

/-!
# Words before an export list
-/

/-- How an export list at the end of a text begins. -/
def listStart : List Char :=
  "\n\nexport \x7b".toList

theorem not_prefix_of_suffix {part tail : List Char} {text : String} (hpart : part <:+ listStart)
    (hne : part ≠ []) (htext : text ∈ kindWords) : ¬text.toList <+: part ++ tail := by
  have hparts : forall p, p ∈ listStart.tails -> p ≠ [] ->
      '{' ∈ p ∧ forall t, t ∈ kindWords -> ¬t.toList <+: p ∧ '{' ∉ t.toList := by
    decide
  obtain ⟨hbrace, hwords⟩ := hparts part ((List.mem_tails part listStart).mpr hpart) hne
  obtain ⟨hnot, hnone⟩ := hwords text htext
  intro hprefix
  rcases List.prefix_or_prefix_of_prefix hprefix (List.prefix_append part tail) with h | h
  · exact hnot h
  · exact hnone (h.subset hbrace)

theorem place_cases {more tail read : List Char} {c d : Cursor} (hmore : more = listStart ++ tail)
    (hread : (c.push more).Reads read d) (hlead : '{' ∉ read) :
    more.length < d.ahead.length ∨
      exists part, part <:+ listStart ∧ part ≠ [] ∧ d.ahead = part ++ tail := by
  by_cases hin : more.length < d.ahead.length
  · exact Or.inl hin
  · right
    have hahead : c.ahead ++ more = read ++ d.ahead := hread.1
    obtain ⟨front, hfront⟩ : d.ahead <:+ more := suffix_of_append_eq hahead.symm (by omega)
    have hsplit : read = c.ahead ++ front := by
      rw [<- hfront, <- List.append_assoc] at hahead
      exact (List.append_cancel_right hahead).symm
    have hnone : '{' ∉ front := fun hmem => hlead (by rw [hsplit]; simp [hmem])
    rw [hmore] at hfront
    rcases List.append_eq_append_iff.mp hfront with ⟨part, hstart, hpart⟩ | ⟨part, hstart, hpart⟩
    · refine ⟨part, ⟨front, hstart.symm⟩, ?_, hpart⟩
      rintro rfl
      refine hnone ?_
      rw [List.append_nil] at hstart
      rw [<- hstart]
      decide
    · refine absurd ?_ hnone
      rw [hstart]
      exact List.mem_append_left _ (by decide)

theorem inside_of_word {more tail read : List Char} {c d e : Cursor} {text : String}
    (hmore : more = listStart ++ tail) (hread : (c.push more).Reads read d) (hlead : '{' ∉ read)
    (htext : text ∈ kindWords) (hword : d.Reads text.toList e) :
    more.length < d.ahead.length ∧ more.length ≤ e.ahead.length := by
  have hprefix : text.toList <+: d.ahead := ⟨e.ahead, hword.1.symm⟩
  rcases place_cases hmore hread hlead with hin | ⟨part, hpart, hne, hahead⟩
  · refine ⟨hin, ?_⟩
    by_cases hle : more.length ≤ e.ahead.length
    · exact hle
    · -- the first line end of the list would belong to the word
      have hahead : c.ahead ++ more = read ++ d.ahead := hread.1
      obtain ⟨front, hfront⟩ : more <:+ d.ahead := suffix_of_append_eq hahead (by omega)
      have hnoline : forall t, t ∈ kindWords -> '\n' ∉ t.toList := by
        decide
      rw [hword.1] at hfront
      rcases List.append_eq_append_iff.mp hfront with ⟨mid, htake, hrest⟩ | ⟨mid, _, hrest⟩
      · cases mid with
        | nil =>
            rw [hrest] at hle
            exact absurd (Nat.le_refl _) hle
        | cons ch mid =>
            rw [hmore] at hrest
            have hch : ch = '\n' := (List.cons.inj hrest).1.symm
            refine absurd ?_ (hnoline text htext)
            rw [htake, hch]
            simp
      · rw [hrest] at hle
        simp at hle
  · rw [hahead] at hprefix
    exact absurd hprefix (not_prefix_of_suffix hpart hne htext)

theorem not_mem_brace {read : List Char} (h : forall ch, ch ∈ read -> isLead ch = true) :
    '{' ∉ read := by
  intro hmem
  have hlead := h '{' hmem
  cases hlead

theorem not_mem_export {indent : List Char} (h : forall ch, ch ∈ indent -> isIndent ch = true)
    {ch : Char} (hindent : isIndent ch = false) (hexport : ch ∉ "export".toList) :
    ch ∉ indent ++ "export".toList := by
  simp only [List.mem_append, not_or]
  refine ⟨fun hmem => ?_, hexport⟩
  rw [h ch hmem] at hindent
  cases hindent

theorem Declares.reads_modifiers {c : Cursor} {parts : DeclarationParts} {found : String × Cursor}
    (h : Declares c parts found) :
    exists read, '{' ∉ read ∧ c.Reads read parts.afterModifiers := by
  obtain ⟨_, indent, hindent, hword⟩ := reads_of_mem_exportWord h.word
  obtain ⟨read, hread, hlead⟩ := Over.modifiers _ _ h.modifiers
  refine ⟨_, ?_, hword.trans hread⟩
  exact List.not_mem_append (not_mem_export hindent rfl (by decide)) (not_mem_brace hlead)

theorem Declares.inside {more tail : List Char} {c : Cursor} {parts : DeclarationParts}
    {found : String × Cursor} (h : Declares (c.push more) parts found)
    (hmore : more = listStart ++ tail) :
    more.length < parts.afterModifiers.ahead.length ∧
      more.length ≤ parts.afterKind.ahead.length := by
  obtain ⟨read, hnone, hread⟩ := h.reads_modifiers
  rcases mem_kinds_iff.mp h.kind with ⟨d, hconst, henum⟩ | ⟨text, htext, hword⟩
  · obtain ⟨e, hword, _⟩ := mem_keyword_iff.mp hconst
    obtain ⟨later, hlater, hlead⟩ := Over.keyword (by decide) _ _ hconst
    have hnone' : '{' ∉ read ++ later := List.not_mem_append hnone (not_mem_brace hlead)
    exact ⟨(inside_of_word hmore hread hnone (by decide) hword).1,
      (inside_of_word hmore (hread.trans hlater) hnone' (by decide) henum).2⟩
  · exact inside_of_word hmore hread hnone htext hword

/-!
# What follows a declaration without a name
-/

def Crosses (more : List Char) (parts : DeclarationParts) : Prop :=
  parts.afterGap.ahead.length ≤ more.length

theorem Declares.reads_gap {c : Cursor} {parts : DeclarationParts} {found : String × Cursor}
    (h : Declares c parts found) :
    exists indent lead, (forall ch, ch ∈ indent -> isIndent ch = true) ∧
      (forall ch, ch ∈ lead -> isLead ch = true) ∧
      c.Reads ((indent ++ "export".toList) ++ lead) parts.afterGap := by
  obtain ⟨_, indent, hindent, hword⟩ := reads_of_mem_exportWord h.word
  obtain ⟨first, hfirst, hleadFirst⟩ := Over.modifiers _ _ h.modifiers
  obtain ⟨second, hsecond, hleadSecond⟩ := Over.kinds _ _ h.kind
  obtain ⟨third, hthird, hleadThird⟩ := Over.gap _ _ h.gap
  refine ⟨indent, first ++ (second ++ third), hindent, ?_,
    hword.trans (hfirst.trans (hsecond.trans hthird))⟩
  intro ch hch
  rcases List.mem_append.mp hch with hch | hch
  · exact hleadFirst ch hch
  · rcases List.mem_append.mp hch with hch | hch
    · exact hleadSecond ch hch
    · exact hleadThird ch hch

theorem Declares.prefix_lead {more : List Char} {c : Cursor} {parts : DeclarationParts}
    {found : String × Cursor} (h : Declares (c.push more) parts found)
    (hcross : Crosses more parts) :
    exists indent lead, (forall ch, ch ∈ indent -> isIndent ch = true) ∧
      (forall ch, ch ∈ lead -> isLead ch = true) ∧
      c.ahead <+: (indent ++ "export".toList) ++ lead := by
  obtain ⟨indent, lead, hindent, hlead, hread⟩ := h.reads_gap
  exact ⟨indent, lead, hindent, hlead, hread.prefix_of_le hcross⟩

theorem Declares.none_after {more before rest : List Char} {c : Cursor} {parts : DeclarationParts}
    {found : String × Cursor} (h : Declares (c.push more) parts found)
    (hcross : Crosses more parts) (htext : c.ahead = before ++ rest) (hne : before ≠ []) :
    declarationForm ⟨before.reverse ++ c.behind, rest⟩ = [] := by
  refine List.eq_nil_iff_forall_not_mem.mpr ?_
  intro other hother
  obtain ⟨otherParts, hdeclares⟩ := exists_parts hother
  -- the other declaration begins after a line end and holds an x
  obtain ⟨hline, indent', _, hexport'⟩ := reads_of_mem_exportWord hdeclares.word
  have hend : '\n' ∈ before := List.mem_of_getLast? (Cursor.getLast?_of_atLineStart hne hline)
  have hx : 'x' ∈ rest := by
    rw [show rest = _ from hexport'.1]
    have hin : 'x' ∈ "export".toList := by decide
    simp only [List.mem_append]
    exact Or.inl (Or.inr hin)
  -- no line end stands up to the word `export`, and no x behind it
  obtain ⟨indent, lead, hindent, hlead, hprefix⟩ := h.prefix_lead hcross
  rw [htext] at hprefix
  have hnoLine : '\n' ∉ indent ++ "export".toList := not_mem_export hindent rfl (by decide)
  have hbefore : before <+: (indent ++ "export".toList) ++ lead :=
    (List.prefix_append before rest).trans hprefix
  rcases List.prefix_or_prefix_of_prefix hbefore (List.prefix_append _ _) with hshort | hlong
  · exact hnoLine (hshort.subset hend)
  · obtain ⟨mid, rfl⟩ := hlong
    rw [List.append_assoc] at hprefix
    have hrest := (List.prefix_append_right_inj _).mp hprefix
    have hmem : 'x' ∈ lead := hrest.subset (List.mem_append_right mid hx)
    cases hlead _ hmem

/-!
# The declaration that is read instead
-/

/-- Blanks with at most one star among them, as they stand between a kind and a name. -/
def GapText (text : List Char) : Prop :=
  exists blanksBefore after, text = blanksBefore ++ after ∧
    (forall ch, ch ∈ blanksBefore -> isBlank ch = true) ∧
    (after = [] ∨ exists blanksAfter, after = '*' :: blanksAfter ∧
      forall ch, ch ∈ blanksAfter -> isBlank ch = true)

theorem GapText.of_prefix {text part : List Char} (h : GapText text) (hpart : part <+: text) :
    GapText part := by
  obtain ⟨front, after, rfl, hfront, hafter⟩ := h
  rcases List.prefix_or_prefix_of_prefix hpart (List.prefix_append front after) with hle | hle
  · refine ⟨part, [], (List.append_nil _).symm, fun ch hch => hfront ch (hle.subset hch), ?_⟩
    exact Or.inl rfl
  · obtain ⟨rest, rfl⟩ := hle
    have hrest := (List.prefix_append_right_inj front).mp hpart
    refine ⟨front, rest, rfl, hfront, ?_⟩
    rcases hafter with rfl | ⟨blanksAfter, rfl, hblanks⟩
    · exact Or.inl (List.prefix_nil.mp hrest)
    · rcases List.prefix_cons_iff.mp hrest with rfl | ⟨tail, rfl, htail⟩
      · exact Or.inl rfl
      · exact Or.inr ⟨tail, rfl, fun ch hch => hblanks ch (htail.subset hch)⟩

theorem GapText.append_blanks {text more : List Char} (h : GapText text)
    (hmore : forall ch, ch ∈ more -> isBlank ch = true) : GapText (text ++ more) := by
  obtain ⟨front, after, rfl, hfront, hafter⟩ := h
  rcases hafter with rfl | ⟨blanksAfter, rfl, hblanks⟩
  · refine ⟨front ++ more, [], by simp, ?_, Or.inl rfl⟩
    intro ch hch
    rcases List.mem_append.mp hch with hch | hch
    · exact hfront ch hch
    · exact hmore ch hch
  · refine ⟨front, '*' :: (blanksAfter ++ more), by simp, hfront, Or.inr ⟨_, rfl, ?_⟩⟩
    intro ch hch
    rcases List.mem_append.mp hch with hch | hch
    · exact hblanks ch hch
    · exact hmore ch hch

theorem GapText.cases {text : List Char} (h : GapText text) {ch : Char} (hch : ch ∈ text) :
    isBlank ch = true ∨ ch = '*' := by
  obtain ⟨front, after, rfl, hfront, hafter⟩ := h
  rcases List.mem_append.mp hch with hch | hch
  · exact Or.inl (hfront ch hch)
  · rcases hafter with rfl | ⟨blanksAfter, rfl, hblanks⟩
    · cases hch
    · rcases List.mem_cons.mp hch with rfl | hch
      · exact Or.inr rfl
      · exact Or.inl (hblanks ch hch)

theorem GapText.not_identifierChar {text : List Char} (h : GapText text) {ch : Char}
    (hch : ch ∈ text) : isIdentifierChar ch = false := by
  rcases h.cases hch with hblank | rfl
  · exact isIdentifierChar_of_isBlank hblank
  · decide

theorem reads_of_mem_blanks {c : Cursor} {found : Unit × Cursor} (h : found ∈ blanks c) :
    exists read, (forall ch, ch ∈ read -> isBlank ch = true) ∧ c.Reads read found.2 := by
  obtain ⟨first, hfirst, hgive⟩ := mem_bind_iff.mp h
  obtain ⟨read, hread, hclass⟩ := Over.stretch (fun _ h => h) c first hfirst
  rw [mem_give_iff.mp hgive]
  exact ⟨read, hclass, hread⟩

theorem reads_of_mem_gap {c : Cursor} {found : Unit × Cursor} (h : found ∈ declarationGap c) :
    exists read, GapText read ∧ c.Reads read found.2 := by
  rcases List.mem_append.mp h with h | h
  · obtain ⟨first, hfirst, h⟩ := mem_bind_iff.mp h
    obtain ⟨second, hsecond, hthird⟩ := mem_bind_iff.mp h
    obtain ⟨front, hfront, hfrontRead⟩ := reads_of_mem_blanks hfirst
    obtain ⟨after, hafter, hafterRead⟩ := reads_of_mem_blanks hthird
    have hstar := mem_letters_iff.mp hsecond
    refine ⟨front ++ (['*'] ++ after), ?_, hfrontRead.trans (hstar.trans hafterRead)⟩
    exact ⟨front, '*' :: after, rfl, hfront, Or.inr ⟨after, rfl, hafter⟩⟩
  · have hblanks : found ∈ blanks c := mem_blanks_iff.mpr (mem_blanks1_iff.mp h).2
    obtain ⟨read, hread, hreads⟩ := reads_of_mem_blanks hblanks
    exact ⟨read, ⟨read, [], (List.append_nil _).symm, hread, Or.inl rfl⟩, hreads⟩

theorem Declares.gapText {more : List Char} {c base : Cursor} {parts : DeclarationParts}
    {found : String × Cursor} (h : Declares (c.push more) parts found)
    (hcross : Crosses more parts) (hbase : parts.afterKind = base.push more) :
    GapText base.ahead := by
  obtain ⟨read, hgap, hread⟩ := reads_of_mem_gap h.gap
  rw [hbase] at hread
  exact hgap.of_prefix (hread.prefix_of_le hcross)

theorem Local.exportWord : Local exportWord :=
  Local.bind Local.indentation fun _ => Local.word _

theorem Local.modifiers : Local modifiers := by
  refine Local.bind Local.blanks1 fun _ => ?_
  refine Local.bind (Local.optional (Local.keyword _)) fun _ => ?_
  refine Local.bind (Local.optional (Local.keyword _)) fun _ => ?_
  refine Local.bind (Local.optional (Local.keyword _)) fun _ => ?_
  exact Local.bind (Local.optional (Local.keyword _)) fun _ => Local.give _

theorem Declares.base {more tail : List Char} {c : Cursor} {parts : DeclarationParts}
    {found : String × Cursor} (h : Declares (c.push more) parts found)
    (hmore : more = listStart ++ tail) :
    exists afterWord afterModifiers afterKind,
      ((), afterWord) ∈ exportWord c ∧
      (parts.isDefault, afterModifiers) ∈ SourceModule.modifiers afterWord ∧
      ((), afterKind) ∈ anyOf declarationKinds afterModifiers ∧
      parts.afterKind = afterKind.push more := by
  obtain ⟨hin, hkeeps⟩ := h.inside hmore
  have hclosing : Closing (fun _ => true) more (anyOf declarationKinds) := by
    refine Closing.anyOf ?_
    intro kind hkind
    rcases List.mem_cons.mp hkind with rfl | hkind
    · exact Closing.bind (Local.keyword _) fun _ _ _ =>
        Closing.letters (by decide) fun _ _ => rfl
    · obtain ⟨text, htext, rfl⟩ := List.mem_map.mp hkind
      have hne : forall t, t ∈ kindWords -> t.toList ≠ [] := by decide
      exact Closing.letters (hne text htext) fun _ _ => rfl
  have hwordIn : more.length < parts.afterWord.ahead.length :=
    Nat.lt_of_lt_of_le hin (Local.modifiers.forward.length_le h.modifiers)
  obtain ⟨word, hword, _, hwordEq⟩ := Local.exportWord.of_mem_push h.word hwordIn
  have hmodifiers := h.modifiers
  rw [show parts.afterWord = word.2.push more from (Prod.ext_iff.mp hwordEq).2] at hmodifiers
  obtain ⟨modifiers, hmodifiers, _, hmodifiersEq⟩ := Local.modifiers.of_mem_push hmodifiers hin
  have hkind := h.kind
  rw [show parts.afterModifiers = modifiers.2.push more from (Prod.ext_iff.mp hmodifiersEq).2]
    at hkind
  obtain ⟨kind, hkind, hkindEq⟩ := hclosing.of_mem_push hkind hkeeps
  refine ⟨word.2, modifiers.2, kind.2, hword, ?_, hkind, (Prod.ext_iff.mp hkindEq).2⟩
  rw [show parts.isDefault = modifiers.1 from (Prod.ext_iff.mp hmodifiersEq).1]
  exact hmodifiers

theorem kindWord_unique {v w : String} {c d e : Cursor} (hv : v ∈ kindWords) (hw : w ∈ kindWords)
    (hd : c.Reads v.toList d) (he : c.Reads w.toList e) : v = w ∧ d = e := by
  have hwords : forall t, t ∈ kindWords -> forall u, u ∈ kindWords -> t.toList <+: u.toList ->
      t = u := by
    decide
  have hvw : v = w := by
    have hshort : v.toList <+: c.ahead := ⟨d.ahead, hd.1.symm⟩
    have hlong : w.toList <+: c.ahead := ⟨e.ahead, he.1.symm⟩
    rcases List.prefix_or_prefix_of_prefix hshort hlong with hle | hle
    · exact hwords v hv w hw hle
    · exact (hwords w hw v hv hle).symm
  subst hvw
  exact ⟨rfl, hd.unique he⟩

theorem Declares.exists_start {c : Cursor} {parts : DeclarationParts} {found : String × Cursor}
    (h : Declares c parts found) :
    exists ch, ch ∈ parts.afterKind.ahead ∧ isIdentifierChar ch = true := by
  obtain ⟨first, hfirst, _⟩ := mem_bind_iff.mp h.named
  obtain ⟨hstart, hread⟩ := mem_one_iff.mp hfirst
  obtain ⟨read, hgap, _⟩ := Over.gap _ _ h.gap
  refine ⟨first.1, ?_, isIdentifierChar_of_isIdentifierStart hstart⟩
  rw [hgap.1, hread.1]
  simp

theorem name_eq_enum {c d e gapEnd stop : Cursor} {name : String}
    (hd : d = (c.readWhile isBlank).2) (henum : d.Reads "enum".toList e)
    (hgapText : GapText e.ahead)
    (hgap : ((), gapEnd) ∈ declarationGap c) (hname : (name, stop) ∈ identifier gapEnd) :
    name = "enum" := by
  have hahead : d.ahead = 'e' :: ("num".toList ++ e.ahead) := henum.1
  have hgapEnd : gapEnd = d := by
    rcases List.mem_append.mp hgap with hstar | hblanks
    · obtain ⟨first, hfirst, hrest⟩ := mem_bind_iff.mp hstar
      obtain ⟨second, hsecond, _⟩ := mem_bind_iff.mp hrest
      have hread := (mem_letters_iff.mp hsecond).1
      rw [mem_blanks_iff.mp hfirst] at hread
      rw [<- hd, hahead] at hread
      cases hread
    · rw [hd]
      exact (Prod.ext_iff.mp (mem_blanks1_iff.mp hblanks).2).2
  obtain ⟨first, hfirst, hrest⟩ := mem_bind_iff.mp hname
  obtain ⟨word, hword, hgive⟩ := mem_bind_iff.mp hrest
  have hread := (mem_one_iff.mp hfirst).2.1
  rw [hgapEnd, hahead] at hread
  obtain ⟨hch, hafter⟩ := List.cons.inj hread
  have hnum : first.2.ahead.takeWhile isIdentifierChar = "num".toList := by
    rw [show first.2.ahead = "num".toList ++ e.ahead from hafter.symm,
      List.takeWhile_append_of_pos (List.all_eq_true.mp (by decide))]
    cases htext : e.ahead with
    | nil =>
        rfl
    | cons ch rest =>
        have hfirst : ch ∈ e.ahead := by
          rw [htext]
          exact List.mem_cons_self ..
        rw [List.takeWhile_cons, hgapText.not_identifierChar hfirst]
        rfl
  have hwordEq : word.1 = "num".toList := by
    rw [List.mem_singleton.mp hword]
    exact hnum
  have hnameEq : name = String.ofList (first.1 :: word.1) :=
    (Prod.ext_iff.mp (mem_give_iff.mp hgive)).1
  rw [hnameEq, hwordEq, <- hch]
  decide

/--
Where a declaration looks for its name in the list, any other reading of the text before the list
has the name `enum`.
-/
theorem Declares.other_reading {more tail : List Char} {c : Cursor} {parts otherParts :
    DeclarationParts} {found other : String × Cursor} (h : Declares (c.push more) parts found)
    (hmore : more = listStart ++ tail) (hcross : Crosses more parts)
    (hother : Declares c otherParts other) :
    parts.isDefault = otherParts.isDefault ∧ otherParts.name = "enum" ∧
      exists afterWord afterModifiers afterConst afterEnum,
        ((), afterWord) ∈ exportWord c ∧
        (parts.isDefault, afterModifiers) ∈ SourceModule.modifiers afterWord ∧
        ((), afterConst) ∈ keyword "const" afterModifiers ∧
        afterConst.Reads "enum".toList afterEnum ∧ GapText afterEnum.ahead := by
  obtain ⟨afterWord, afterModifiers, afterKind, hword, hmodifiers, hkind, hkindEq⟩ := h.base hmore
  have hgap : GapText afterKind.ahead := h.gapText hcross hkindEq
  have hwordEq := (Prod.ext_iff.mp (exportWord_unique hword hother.word)).2
  have hotherModifiers := hother.modifiers
  rw [<- show afterWord = otherParts.afterWord from hwordEq] at hotherModifiers
  have hmodifiersEq := modifiers_unique hmodifiers hotherModifiers (starts_of_mem_kinds hkind)
    (starts_of_mem_kinds hother.kind)
  obtain ⟨hdefault, hmodifiersEq⟩ := Prod.ext_iff.mp hmodifiersEq
  have hotherKind := hother.kind
  rw [<- show afterModifiers = otherParts.afterModifiers from hmodifiersEq] at hotherKind
  obtain ⟨start, hstart, hstartClass⟩ := hother.exists_start
  -- behind the kind that is read with the list no name begins, so the two kinds differ
  have hne : afterKind ≠ otherParts.afterKind := by
    intro heq
    rw [<- heq] at hstart
    rw [hgap.not_identifierChar hstart] at hstartClass
    cases hstartClass
  have hconst : "const" ∈ kindWords := List.mem_cons_self ..
  rcases mem_kinds_iff.mp hkind with ⟨d, hd, henum⟩ | ⟨text, htext, hread⟩
  · rcases mem_kinds_iff.mp hotherKind with ⟨d', hd', henum'⟩ | ⟨text', htext', hread'⟩
    · have heq := (Prod.ext_iff.mp (keyword_unique hd hd')).2
      rw [show d = d' from heq] at henum
      exact absurd (henum.unique henum') hne
    · obtain ⟨e, he, hblanks⟩ := mem_keyword_iff.mp hd
      obtain ⟨_, hdEq⟩ := mem_blanks1_iff.mp hblanks
      obtain ⟨_, heq⟩ := kindWord_unique hconst htext' he hread'
      rw [show e = otherParts.afterKind from heq] at hdEq
      refine ⟨hdefault, ?_, afterWord, afterModifiers, d, afterKind, hword, hmodifiers, hd, henum,
        hgap⟩
      exact name_eq_enum (Prod.ext_iff.mp hdEq).2 henum hgap hother.gap hother.named
  · rcases mem_kinds_iff.mp hotherKind with ⟨d', hd', henum'⟩ | ⟨text', htext', hread'⟩
    · obtain ⟨e, he, hblanks⟩ := mem_keyword_iff.mp hd'
      obtain ⟨_, heq⟩ := kindWord_unique htext hconst hread he
      obtain ⟨read, hreadBlanks, _⟩ := Over.blanks1 _ _ hblanks
      have hmem : 'e' ∈ afterKind.ahead := by
        rw [show afterKind = e from heq, hreadBlanks.1, henum'.1]
        refine List.mem_append_right _ (List.mem_append_left _ ?_)
        decide
      have hclass : isIdentifierChar 'e' = true := by decide
      rw [hgap.not_identifierChar hmem] at hclass
      cases hclass
    · exact absurd (kindWord_unique htext htext' hread hread').2 hne

/-!
# Declarations before an export list
-/

def unnamedEnumForm : Matcher Unit := do
  exportWord
  let isDefault <- modifiers
  Matcher.guard fun _ => !isDefault
  keyword "const"
  Matcher.word "enum"
  Matcher.blanks
  let _ <- Matcher.optional do
    Matcher.letters ['*']
    Matcher.blanks
  Matcher.textEnd

theorem exists_end_of_gapText {c : Cursor} (h : GapText c.ahead) :
    exists blanksEnd starEnd : Cursor, ((), blanksEnd) ∈ blanks c ∧ starEnd.ahead = [] ∧
      exists star, (star, starEnd) ∈
        Matcher.optional (Matcher.letters ['*'] >>= fun _ => blanks) blanksEnd := by
  obtain ⟨front, after, htext, hfront, hafter⟩ := h
  have hstar : isBlank '*' = false := by decide
  have hafterDrop : after.dropWhile isBlank = after := by
    rcases hafter with rfl | ⟨blanksAfter, rfl, _⟩
    · rfl
    · rw [List.dropWhile_cons, hstar]
      rfl
  have hend : (c.readWhile isBlank).2.ahead = after := by
    show c.ahead.dropWhile isBlank = after
    rw [htext, List.dropWhile_append_of_pos hfront, hafterDrop]
  refine ⟨(c.readWhile isBlank).2, ?_⟩
  rcases hafter with rfl | ⟨blanksAfter, rfl, hblanks⟩
  · exact ⟨_, mem_blanks_iff.mpr rfl, hend, none, mem_optional_iff.mpr (Or.inr rfl)⟩
  · let afterStar : Cursor := ⟨'*' :: (c.readWhile isBlank).2.behind, blanksAfter⟩
    have hread : (c.readWhile isBlank).2.Reads ['*'] afterStar := ⟨hend, rfl⟩
    refine ⟨(afterStar.readWhile isBlank).2, mem_blanks_iff.mpr rfl, ?_, some (), ?_⟩
    · exact List.dropWhile_eq_nil_iff.mpr hblanks
    · refine mem_optional_iff.mpr (Or.inl ⟨((), _), ?_, rfl⟩)
      exact mem_bind_iff.mpr ⟨((), afterStar), mem_letters_iff.mpr hread, mem_blanks_iff.mpr rfl⟩

theorem unnamedEnumForm_ne_nil {more : List Char}
    {c afterWord afterModifiers afterConst afterEnum : Cursor}
    (hword : ((), afterWord) ∈ exportWord c)
    (hmodifiers : (false, afterModifiers) ∈ modifiers afterWord)
    (hconst : ((), afterConst) ∈ keyword "const" afterModifiers)
    (henum : afterConst.Reads "enum".toList afterEnum) (hgap : GapText afterEnum.ahead)
    (hmore : forall ch, ch ∈ more -> isBlank ch = true) :
    unnamedEnumForm (c.push more) ≠ [] := by
  have hform : unnamedEnumForm =
      (exportWord >>= fun _ => modifiers >>= fun isDefault =>
        Matcher.guard (fun _ => !isDefault) >>= fun _ => keyword "const" >>= fun _ =>
          Matcher.word "enum") >>= fun _ => blanks >>= fun _ =>
        Matcher.optional (Matcher.letters ['*'] >>= fun _ => blanks) >>= fun _ => textEnd := by
    simp only [unnamedEnumForm, bind_assoc]
  have hbase : ((), afterEnum) ∈
      (exportWord >>= fun _ => modifiers >>= fun isDefault =>
        Matcher.guard (fun _ => !isDefault) >>= fun _ => keyword "const" >>= fun _ =>
          Matcher.word "enum") c := by
    refine mem_bind_iff.mpr ⟨_, hword, mem_bind_iff.mpr ⟨_, hmodifiers, ?_⟩⟩
    refine mem_bind_iff.mpr ⟨_, mem_guard_iff.mpr ⟨rfl, rfl⟩, ?_⟩
    exact mem_bind_iff.mpr ⟨_, hconst, mem_letters_iff.mpr henum⟩
  have hclosing : Closing (fun _ => true) more
      (exportWord >>= fun _ => modifiers >>= fun isDefault =>
        Matcher.guard (fun _ => !isDefault) >>= fun _ => keyword "const" >>= fun _ =>
          Matcher.word "enum") := by
    refine Closing.bind Local.exportWord fun _ _ _ => Closing.bind Local.modifiers fun _ _ _ => ?_
    refine Closing.bind (Local.guard fun _ _ _ => rfl) fun _ _ _ => ?_
    refine Closing.bind (Local.keyword _) fun _ _ _ => ?_
    exact Closing.letters (by decide) fun _ _ => rfl
  have hstart := hclosing.mem_push hbase
  have hgapMore : GapText (afterEnum.push more).ahead := hgap.append_blanks hmore
  obtain ⟨blanksEnd, starEnd, hblanks, hend, star, hstar⟩ := exists_end_of_gapText hgapMore
  rw [hform]
  refine List.ne_nil_of_mem (a := ((), starEnd)) ?_
  refine mem_bind_iff.mpr ⟨_, hstart, mem_bind_iff.mpr ⟨_, hblanks, ?_⟩⟩
  refine mem_bind_iff.mpr ⟨_, hstar, mem_guard_iff.mpr ⟨?_, rfl⟩⟩
  rw [hend]
  rfl

theorem endsWord_listStart {more tail : List Char} (hmore : more = listStart ++ tail) :
    EndsWord more := by
  rw [hmore]
  intro ch hch
  cases hch
  decide

theorem Declares.crosses {more : List Char} {c : Cursor} {parts : DeclarationParts}
    {found : String × Cursor} (h : Declares (c.push more) parts found) (hends : EndsWord more)
    (hshort : found.2.ahead.length < more.length) : Crosses more parts := by
  refine Nat.le_of_not_lt fun hin => ?_
  obtain ⟨_, _, _, _, hread⟩ := h.reads_gap
  obtain ⟨base, hbase⟩ := hread.exists_push (Nat.le_of_lt hin)
  have hnamed := h.named
  rw [show parts.afterGap = base.push more from hbase, identifier_push hends] at hnamed
  obtain ⟨answer, _, heq⟩ := List.mem_map.mp hnamed
  rw [<- (Prod.ext_iff.mp heq).2] at hshort
  simp only [pushed, Cursor.push, List.length_append] at hshort
  omega

theorem value_of_mem_findFrom {m : Matcher String} {c : Cursor} {found : Found String}
    (hafter : forall before rest, c.ahead = before ++ rest -> before ≠ [] ->
      m ⟨before.reverse ++ c.behind, rest⟩ = [])
    (h : found ∈ findFrom m c.behind 0 c.ahead) :
    found.place = c ∧ exists stop, (m c).head? = some (found.value, stop) := by
  obtain ⟨behind, ahead⟩ := c
  cases ahead with
  | nil =>
      cases h
  | cons ch rest =>
      have hnone : forall skip, findFrom m (ch :: behind) skip rest = [] := by
        intro skip
        refine findFrom_eq_nil ?_
        intro before after heq _
        have hplace := hafter (ch :: before) after (by rw [heq]; rfl) (List.cons_ne_nil _ _)
        simpa using hplace
      dsimp only at h
      cases hhead : (m ⟨behind, ch :: rest⟩).head? with
      | none =>
          rw [findFrom_none hhead, hnone] at h
          cases h
      | some answer =>
          rw [findFrom_some hhead, hnone] at h
          rw [List.mem_singleton.mp h]
          exact ⟨rfl, answer.2, rfl⟩

/--
The names of declarations stay when an export list follows.  Only the name `enum` can get lost,
where it is read in the place of the name of a `const enum` that has none.
-/
theorem declared_append {more tail spaces : List Char} (hmore : more = listStart ++ tail)
    (hspaces : forall ch, ch ∈ spaces -> isBlank ch = true) {code : List Char}
    {found : Found String} (hfound : found ∈ findAll declarationForm code) :
    (found.value = "enum" ∧ unnamedEnumForm (found.place.push spaces) ≠ []) ∨
      exists other, other ∈ findAll declarationForm (code ++ more) ∧ other.value = found.value := by
  have hends := endsWord_listStart hmore
  refine mem_findFrom_append
    (fun found => found.value = "enum" ∧ unnamedEnumForm (found.place.push spaces) ≠ []) ?_ hfound
  intro c _
  have hsettled := (Closing.declarationForm hends).settled c
  cases hlonger : declarationForm (c.push more) with
  | nil =>
      left
      rw [hlonger] at hsettled
      exact sameHead_of_eq (hlonger.trans hsettled)
  | cons first others =>
      rw [hlonger] at hsettled
      by_cases hkeeps : keeps more.length first = true
      · left
        rw [List.filter_cons_of_pos hkeeps] at hsettled
        unfold SameHead
        rw [hlonger, <- List.head?_map, <- hsettled]
        rfl
      · right
        have hmem : first ∈ declarationForm (c.push more) := by
          rw [hlonger]
          exact List.mem_cons_self ..
        obtain ⟨parts, hparts⟩ := exists_parts hmem
        have hcross := hparts.crosses hends (by simpa [keeps] using hkeeps)
        intro found hfound
        obtain ⟨hplace, stop, hhead⟩ := value_of_mem_findFrom
          (fun before rest htext hne => hparts.none_after hcross htext hne) hfound
        obtain ⟨otherParts, hother⟩ := exists_parts (List.mem_of_mem_head? hhead)
        obtain ⟨hdefault, hname, afterWord, afterModifiers, afterConst, afterEnum, hword,
          hmodifiers, hconst, henum, hgap⟩ := hparts.other_reading hmore hcross hother
        have hvalue : found.value = if parts.isDefault then defaultExport else "enum" := by
          rw [hdefault, <- hname]
          exact hother.value
        cases hisDefault : parts.isDefault with
        | true =>
            right
            refine ⟨first.2, ?_⟩
            have hfirst := hparts.value
            rw [hisDefault] at hvalue hfirst
            rw [hvalue]
            exact congrArg some (Prod.ext hfirst rfl)
        | false =>
            left
            rw [hisDefault] at hvalue hmodifiers
            rw [hplace]
            exact ⟨hvalue, unnamedEnumForm_ne_nil hword hmodifiers hconst henum hgap hspaces⟩

end SourceModule
end Joinery
