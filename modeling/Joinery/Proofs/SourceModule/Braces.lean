import Joinery.Proofs.SourceModule.Unnamed

/-!
# Names in braces before an export list

## Braces that are not closed

A list of exported names that lacks its closing brace goes on into an export list that
follows it.  Nothing is found in the text behind such a brace, so the names that were
found before are found again; but the names of the list itself may then be missed.
-/

namespace Joinery
namespace SourceModule

open Text Matcher

def openBrace : Matcher Unit := do
  exportWord
  Matcher.blanks1
  let _ <- Matcher.optional (keyword "type")
  Matcher.letters ['{']

/-- An exported list of names whose brace is not closed before the text ends. -/
def unclosedForm : Matcher Unit := do
  openBrace
  let _ <- Matcher.stretch fun c => c != '}'
  Matcher.textEnd

def closedBraces : Matcher (List Char) := do
  openBrace
  let clause <- Matcher.stretch fun c => c != '}'
  Matcher.letters ['}']
  Matcher.give clause

/-- The source that may follow an exported list of names. -/
def sourceAfter : Matcher (Option String) :=
  Matcher.optional do
    Matcher.blanks
    fromSource

theorem bracedForm_eq :
    bracedForm = closedBraces >>= fun clause => sourceAfter >>= fun source =>
      give (exportedNames clause, source) := by
  unfold bracedForm closedBraces openBrace exportWord sourceAfter
  simp only [keyword, braced, bind_assoc, give_bind]

theorem Closing.openBrace {more : List Char} : Closing (fun c => c == '{') more openBrace := by
  refine Closing.bind Local.exportWord fun _ _ _ => Closing.bind Local.blanks1 fun _ _ _ => ?_
  refine Closing.bind (Local.optional (Local.keyword _)) fun _ _ _ => ?_
  refine Closing.letters (by decide) ?_
  intro ch hch
  cases hch
  rfl

theorem Closing.closedBraces {more : List Char} :
    Closing (fun c => c == '}') more closedBraces := by
  refine Closing.bind ?_ fun _ _ _ => Closing.bind (Local.stretch _) fun _ _ _ => ?_
  · refine Local.bind Local.exportWord fun _ => Local.bind Local.blanks1 fun _ => ?_
    exact Local.bind (Local.optional (Local.keyword _)) fun _ => Local.letters _
  · refine Closing.give (Closing.letters (by decide) ?_) fun _ => _
    intro ch hch
    cases hch
    rfl

theorem sourceAfter_push {more : List Char}
    (hmore : forall ch, ch ∈ more -> closesSource ch = false) (c : Cursor) :
    sourceAfter (c.push more) = (sourceAfter c).map (pushed more) := by
  have hclosing : Closing closesSource more (Matcher.blanks >>= fun _ => fromSource) :=
    Closing.bind Local.blanks fun _ _ _ => Closing.fromSource
  show ((Matcher.blanks >>= fun _ => fromSource) (c.push more)).map _ ++ _ = List.map _ (_ ++ _)
  rw [hclosing.push_eq hmore c, List.map_append, List.map_map, List.map_map]
  rfl

theorem reads_of_mem_openBrace {c : Cursor} {found : Unit × Cursor} (h : found ∈ openBrace c) :
    exists indent mid d, (forall ch, ch ∈ indent -> isIndent ch = true) ∧
      (forall ch, ch ∈ mid -> isLead ch = true) ∧
      c.Reads (indent ++ "export".toList ++ mid) d ∧ d.Reads ['{'] found.2 := by
  obtain ⟨word, hword, h⟩ := mem_bind_iff.mp h
  obtain ⟨blanks, hblanks, h⟩ := mem_bind_iff.mp h
  obtain ⟨type, htype, h⟩ := mem_bind_iff.mp h
  obtain ⟨_, indent, hindent, hwordRead⟩ := reads_of_mem_exportWord hword
  obtain ⟨first, hfirst, hleadFirst⟩ := Over.blanks1 _ _ hblanks
  obtain ⟨second, hsecond, hleadSecond⟩ :=
    Over.optional (Over.keyword (by decide)) _ _ htype
  refine ⟨indent, first ++ second, type.2, hindent, ?_, hwordRead.trans (hfirst.trans hsecond),
    mem_letters_iff.mp h⟩
  intro ch hch
  rcases List.mem_append.mp hch with hch | hch
  · exact hleadFirst ch hch
  · exact hleadSecond ch hch

theorem eq_brace_of_suffix {part tail after : List Char} (hpart : part <:+ listStart)
    (hne : part ≠ []) (h : part ++ tail = '{' :: after) : part = ['{'] := by
  have hparts : forall p, p ∈ listStart.tails -> p.head? = some '{' -> p = ['{'] := by
    decide
  refine hparts part ((List.mem_tails part listStart).mpr hpart) ?_
  cases part with
  | nil =>
      exact absurd rfl hne
  | cons ch rest =>
      rw [(List.cons.inj h).1]
      rfl

theorem brace_inside {more tail : List Char} {c : Cursor} {found : Unit × Cursor}
    (hmore : more = listStart ++ tail)
    (h : found ∈ openBrace (c.push more)) : more.length ≤ found.2.ahead.length := by
  refine Nat.le_of_not_lt fun hshort => ?_
  obtain ⟨indent, mid, d, hindent, hmid, hread, hbrace⟩ := reads_of_mem_openBrace h
  have hahead : d.ahead = '{' :: found.2.ahead := hbrace.1
  have hnoBrace : '{' ∉ indent ++ "export".toList ++ mid :=
    List.not_mem_append (not_mem_export hindent rfl (by decide)) (not_mem_brace hmid)
  rcases place_cases hmore hread hnoBrace with hin | ⟨part, hpart, hne, hpartEq⟩
  · rw [hahead, List.length_cons] at hin
    omega
  · -- the brace would be the one of the list, with its word `export` before it
    have hfront : part = ['{'] := eq_brace_of_suffix hpart hne (hpartEq.symm.trans hahead)
    have hwords : c.ahead ++ "\n\nexport ".toList = indent ++ "export".toList ++ mid := by
      have hall : c.ahead ++ more = (indent ++ "export".toList ++ mid) ++ d.ahead := hread.1
      rw [hpartEq, hfront, hmore,
        show listStart = "\n\nexport ".toList ++ ['{'] by decide, List.append_assoc,
        <- List.append_assoc c.ahead] at hall
      exact List.append_cancel_right hall
    have hnoLine : '\n' ∉ indent ++ "export".toList := not_mem_export hindent rfl (by decide)
    have hx : 'x' ∉ mid := fun hmem => by cases hmid _ hmem
    rcases List.append_eq_append_iff.mp hwords with ⟨rest, hstart, hrest⟩ | ⟨rest, _, hrest⟩
    · cases rest with
      | nil =>
          refine hx ?_
          rw [show mid = "\n\nexport ".toList from hrest.symm]
          decide
      | cons ch rest =>
          have hch : '\n' = ch := (List.cons.inj hrest).1
          refine hnoLine ?_
          rw [hstart, <- hch]
          simp
    · refine hx ?_
      rw [hrest]
      exact List.mem_append_right _ (by decide)

theorem not_mem_of_crossing {more tail : List Char} {c : Cursor} {found : List Char × Cursor}
    (hmore : more = listStart ++ tail)
    (h : found ∈ closedBraces (c.push more)) (hshort : found.2.ahead.length < more.length) :
    '}' ∉ c.ahead ∧ exists stop, ((), stop) ∈ openBrace c ∧ '}' ∉ stop.ahead := by
  obtain ⟨opening, hopening, h⟩ := mem_bind_iff.mp h
  obtain ⟨clause, hclause, h⟩ := mem_bind_iff.mp h
  obtain ⟨closing, hclosing, h⟩ := mem_bind_iff.mp h
  rw [mem_give_iff.mp h] at hshort
  obtain ⟨base, hbase, hbaseEq⟩ :=
    Closing.openBrace.of_mem_push hopening (brace_inside hmore hopening)
  obtain ⟨inside, hinside, hclass⟩ := Over.stretch (fun _ h => h) _ _ hclause
  rw [show opening.2 = base.2.push more from (Prod.ext_iff.mp hbaseEq).2] at hinside
  have hclose : clause.2.ahead = '}' :: closing.2.ahead := (mem_letters_iff.mp hclosing).1
  have hbegins : base.2.ahead <+: inside := by
    refine hinside.prefix_of_le ?_
    rw [hclose, List.length_cons]
    exact hshort
  have hnone : '}' ∉ base.2.ahead := by
    intro hmem
    have hne := hclass _ (hbegins.subset hmem)
    simp at hne
  refine ⟨?_, base.2, hbase, hnone⟩
  obtain ⟨indent, mid, d, hindent, hmid, hread, hbrace⟩ := reads_of_mem_openBrace hbase
  rw [hread.1, hbrace.1]
  have hnoIndent : '}' ∉ indent := fun hmem => by cases hindent _ hmem
  have hnoExport : '}' ∉ "export".toList := by decide
  have hnoMid : '}' ∉ mid := fun hmem => by cases hmid _ hmem
  have hopen : '}' ∉ ['{'] := by decide
  simp only [List.mem_append, not_or]
  exact ⟨⟨⟨hnoIndent, hnoExport⟩, hnoMid⟩, hopen, hnone⟩

theorem bracedForm_push {more : List Char}
    (hquotes : forall ch, ch ∈ more -> closesSource ch = false) {c : Cursor}
    (h : forall found, found ∈ closedBraces (c.push more) ->
      more.length ≤ found.2.ahead.length) :
    bracedForm (c.push more) = (bracedForm c).map (pushed more) := by
  have hclosed : closedBraces (c.push more) = (closedBraces c).map (pushed more) := by
    rw [<- Closing.closedBraces.settled c]
    refine (List.filter_eq_self.mpr ?_).symm
    intro found hfound
    simpa [keeps] using h found hfound
  rw [bracedForm_eq]
  exact push_eq_of_bind hclosed fun first _ =>
    push_eq_of_bind (sourceAfter_push hquotes first.2) fun _ _ => rfl

theorem bracedForm_eq_nil {behind rest : List Char} (h : '}' ∉ rest) :
    bracedForm ⟨behind, rest⟩ = [] := by
  refine List.eq_nil_iff_forall_not_mem.mpr ?_
  intro found hfound
  rw [bracedForm_eq] at hfound
  obtain ⟨clause, hclause, _⟩ := mem_bind_iff.mp hfound
  have hcloses : Closing (fun ch => ch == '}') [] closedBraces := Closing.closedBraces
  obtain ⟨read, ch, hch, hread⟩ := hcloses.ends _ _ hclause
  refine h ?_
  rw [show rest = (read ++ [ch]) ++ clause.2.ahead from hread.1, beq_iff_eq.mp hch]
  simp

/-- The names of a text stay when an export list follows, whether its braces are closed or not. -/
theorem listed_append {more tail : List Char} (hmore : more = listStart ++ tail)
    (hquotes : forall ch, ch ∈ more -> closesSource ch = false)
    {code : List Char} {found : Found (List String × Option String)}
    (hfound : found ∈ findAll bracedForm code) :
    exists other, other ∈ findAll bracedForm (code ++ more) ∧ other.value = found.value := by
  have hkept : False ∨
      exists other, other ∈ findAll bracedForm (code ++ more) ∧ other.value = found.value :=
    mem_findFrom_append (fun _ => False) ?_ hfound
  · rcases hkept with hlost | hkept
    · exact absurd hlost id
    · exact hkept
  intro c _
  by_cases hcross : exists found, found ∈ closedBraces (c.push more) ∧
      found.2.ahead.length < more.length
  · obtain ⟨answer, hanswer, hshort⟩ := hcross
    obtain ⟨hnone, _⟩ := not_mem_of_crossing hmore hanswer hshort
    right
    have hnil : findFrom bracedForm c.behind 0 c.ahead = [] := by
      refine findFrom_eq_nil ?_
      intro before rest heq _
      refine bracedForm_eq_nil fun hmem => hnone ?_
      rw [heq]
      exact List.mem_append_right _ hmem
    rw [hnil]
    intro found hmem
    cases hmem
  · left
    refine sameHead_of_eq (bracedForm_push hquotes ?_)
    intro found hmem
    exact Nat.le_of_not_lt fun hlt => hcross ⟨found, hmem, hlt⟩

theorem listed_append_of_closed {more tail spaces : List Char} (hmore : more = listStart ++ tail)
    (hquotes : forall ch, ch ∈ more -> closesSource ch = false)
    (hspaces : '}' ∉ spaces) {code : List Char}
    (hclosed : findAll unclosedForm (code ++ spaces) = []) :
    findAll bracedForm (code ++ more) =
      (findAll bracedForm code).map (Found.push more) ++
        findFrom bracedForm (code.reverse ++ []) 0 more := by
  refine findFrom_append ?_ (Nat.zero_le _)
  intro before rest heq hne
  refine sameHead_of_eq (bracedForm_push hquotes ?_)
  intro found hfound
  refine Nat.le_of_not_lt fun hlt => ?_
  obtain ⟨_, stop, hstop, hnone⟩ := not_mem_of_crossing hmore hfound hlt
  -- the brace would still be open at the end of the text
  have hopens : Closing _ spaces openBrace := Closing.openBrace
  have hopen := hopens.mem_push hstop
  have hend : ((stop.push spaces).ahead.dropWhile fun ch => ch != '}') = [] := by
    refine List.dropWhile_eq_nil_iff.mpr ?_
    intro ch hch
    have hne : ch ≠ '}' := by
      rintro rfl
      rcases List.mem_append.mp hch with hch | hch
      · exact hnone hch
      · exact hspaces hch
    simpa using hne
  refine absurd hclosed (findAll_ne_nil_iff.mpr
    ⟨before, rest ++ spaces, by rw [heq, List.append_assoc], by simp [hne], ?_⟩)
  rw [List.append_nil] at hopen
  refine List.ne_nil_of_mem (a := ((), ((stop.push spaces).readWhile fun ch => ch != '}').2)) ?_
  refine mem_bind_iff.mpr ⟨_, hopen, mem_bind_iff.mpr ⟨_, List.mem_singleton.mpr rfl, ?_⟩⟩
  refine mem_guard_iff.mpr ⟨?_, rfl⟩
  exact List.isEmpty_iff.mpr hend

end SourceModule
end Joinery
