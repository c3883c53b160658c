import Joinery.Proofs.Sorting
import Joinery.Proofs.SourceModule.WrittenImports

/-!
# The lines of imports

## One import for each line

Each of the four forms of import begins at the start of a line, and no two of them read the
same line: the word behind the indentation tells them apart, and the two forms that share a
word are told apart by the quote behind it.  So the imports of a text stand on distinct lines,
whatever the text is, and they are listed from the first line to the last.
-/

namespace Joinery

namespace Text

variable {α : Type} {text : List Char} {c d : Cursor}

/-!
# Places of one text
-/

theorem exists_behind_of_offset_lt (hc : c.behind.reverse ++ c.ahead = text)
    (hd : d.behind.reverse ++ d.ahead = text) (hlt : c.offset < d.offset) :
    exists between, between ≠ [] ∧ d.behind = between ++ c.behind := by
  have hsplit : c.behind.reverse ++ c.ahead = d.behind.reverse ++ d.ahead := hc.trans hd.symm
  have hlength : c.behind.length < d.behind.length := hlt
  rcases List.append_eq_append_iff.mp hsplit with ⟨between, hbehind, _⟩ | ⟨between, hbehind, _⟩
  · have hread : d.behind = between.reverse ++ c.behind := by
      simpa using congrArg List.reverse hbehind
    refine ⟨between.reverse, ?_, hread⟩
    intro hnone
    rw [hread, hnone] at hlength
    exact Nat.lt_irrefl _ hlength
  · have hsame := congrArg List.length hbehind
    rw [List.length_append, List.length_reverse, List.length_reverse] at hsame
    omega

theorem line_lt_line (hc : c.behind.reverse ++ c.ahead = text)
    (hd : d.behind.reverse ++ d.ahead = text) (hlt : c.offset < d.offset)
    (hstart : d.atLineStart = true) : c.line < d.line := by
  obtain ⟨between, hne, hbehind⟩ := exists_behind_of_offset_lt hc hd hlt
  cases between with
  | nil =>
      exact absurd rfl hne
  | cons last front =>
      have hlast : last = '\n' := by
        rw [Cursor.atLineStart, hbehind, List.cons_append] at hstart
        simpa using hstart
      rw [Cursor.line, Cursor.line, hbehind, hlast, List.cons_append, List.count_cons_self,
        List.count_append]
      omega

theorem eq_of_offset_eq (hc : c.behind.reverse ++ c.ahead = text)
    (hd : d.behind.reverse ++ d.ahead = text) (h : c.offset = d.offset) : c = d := by
  have hlength : c.behind.reverse.length = d.behind.reverse.length := by
    rw [List.length_reverse, List.length_reverse]
    exact h
  obtain ⟨hbehind, hahead⟩ := List.append_inj (hc.trans hd.symm) hlength
  obtain ⟨behind, ahead⟩ := c
  obtain ⟨behind', ahead'⟩ := d
  rw [Cursor.mk.injEq]
  exact ⟨List.reverse_inj.mp hbehind, hahead⟩

theorem le_offset_of_mem_findFrom {m : Matcher α} {found : Found α} {behind : List Char}
    {skip : Nat} (h : found ∈ findFrom m behind skip text) :
    behind.length ≤ found.place.offset := by
  induction text generalizing behind skip with
  | nil =>
      cases h
  | cons next rest ih =>
      have htail : forall skip, found ∈ findFrom m (next :: behind) skip rest ->
          behind.length ≤ found.place.offset :=
        fun skip hfound => Nat.le_of_succ_le (ih hfound)
      cases skip with
      | succ skip =>
          exact htail skip h
      | zero =>
          cases hhere : (m ⟨behind, next :: rest⟩).head? with
          | none =>
              rw [findFrom_none hhere] at h
              exact htail 0 h
          | some answer =>
              rw [findFrom_some hhere] at h
              rcases List.mem_cons.mp h with rfl | h
              · exact Nat.le_refl _
              · exact htail _ h

theorem pairwise_offset_findFrom (m : Matcher α) (behind text : List Char) (skip : Nat) :
    (findFrom m behind skip text).Pairwise fun a b => a.place.offset < b.place.offset := by
  induction text generalizing behind skip with
  | nil =>
      exact List.Pairwise.nil
  | cons next rest ih =>
      cases skip with
      | succ skip =>
          exact ih _ skip
      | zero =>
          cases hhere : (m ⟨behind, next :: rest⟩).head? with
          | none =>
              rw [findFrom_none hhere]
              exact ih _ 0
          | some answer =>
              rw [findFrom_some hhere]
              refine List.Pairwise.cons ?_ (ih _ _)
              intro found hfound
              exact le_offset_of_mem_findFrom hfound

end Text

namespace SourceModule

open Text Matcher

variable {α β : Type} {c : Cursor} {code : List Char}

/-!
# What a form has read
-/

theorem indent_indentation : Over isIndent indentation :=
  Over.bind (Over.guard _) fun _ => Over.bind (Over.stretch fun _ h => h) fun _ => Over.give _

theorem exists_indent {next : Unit -> Matcher α} {found : α × Cursor}
    (h : found ∈ (indentation >>= next) c) :
    exists indent start, indent.all isIndent = true ∧ c.Reads indent start ∧
      found ∈ next () start := by
  obtain ⟨first, hfirst, hfound⟩ := mem_bind_iff.mp h
  obtain ⟨indent, hread, hindent⟩ := indent_indentation c first hfirst
  exact ⟨indent, first.2, List.all_eq_true.mpr hindent, hread, hfound⟩

theorem prefix_of_mem_word_bind {spelled : String} {next : Unit -> Matcher β} {found : β × Cursor}
    (h : found ∈ (Matcher.word spelled >>= next) c) : spelled.toList <+: c.ahead := by
  obtain ⟨first, hfirst, _⟩ := mem_bind_iff.mp h
  have hread : c.ahead = spelled.toList ++ first.2.ahead := (mem_letters_iff.mp hfirst).1
  rw [hread]
  exact List.prefix_append _ _

theorem prefix_of_mem_keyword {spelled : String} {found : Unit × Cursor}
    (h : found ∈ keyword spelled c) : spelled.toList <+: c.ahead :=
  prefix_of_mem_word_bind h

theorem ImportKind.begins_of_mem {kind : ImportKind} {found : (Nat -> Option Import) × Cursor}
    (h : found ∈ kind.form c) :
    exists indent text, indent.all isIndent = true ∧ c.ahead = indent ++ text ∧
      Begins kind.words text := by
  cases kind with
  | takes =>
      obtain ⟨indent, start, hindent, hread, hfound⟩ := exists_indent h
      obtain ⟨first, hfirst, _⟩ := mem_bind_iff.mp hfound
      exact ⟨indent, start.ahead, hindent, hread.1, "import", by decide,
        prefix_of_mem_keyword hfirst⟩
  | runs =>
      obtain ⟨indent, start, hindent, hread, hfound⟩ := exists_indent h
      exact ⟨indent, start.ahead, hindent, hread.1, "import", by decide,
        prefix_of_mem_word_bind hfound⟩
  | requires =>
      obtain ⟨indent, start, hindent, hread, hfound⟩ := exists_indent h
      obtain ⟨first, hfirst, _⟩ := mem_bind_iff.mp hfound
      obtain ⟨word, hword, hmem⟩ := mem_anyOf_iff.mp hfirst
      refine ⟨indent, start.ahead, hindent, hread.1, ?_⟩
      simp only [List.mem_cons, List.not_mem_nil, or_false] at hword
      rcases hword with rfl | rfl | rfl
      · exact ⟨"const", by decide, prefix_of_mem_keyword hmem⟩
      · exact ⟨"let", by decide, prefix_of_mem_keyword hmem⟩
      · exact ⟨"var", by decide, prefix_of_mem_keyword hmem⟩
  | calls =>
      obtain ⟨indent, start, hindent, hread, hfound⟩ := exists_indent h
      obtain ⟨first, hfirst, _⟩ := mem_bind_iff.mp hfound
      exact ⟨indent, start.ahead, hindent, hread.1, "require", by decide,
        prefix_of_mem_word_bind hfirst⟩

theorem exists_quote_of_runForm {found : (Nat -> Option Import) × Cursor}
    (h : found ∈ runForm c) :
    exists indent blanks q rest, indent.all isIndent = true ∧ blanks.all isBlank = true ∧
      c.ahead = indent ++ ("import".toList ++ (blanks ++ Quote.char q :: rest)) := by
  obtain ⟨indent, start, hindent, hread, hfound⟩ := exists_indent h
  obtain ⟨word, hword, hfound⟩ := mem_bind_iff.mp hfound
  obtain ⟨gap, hgap, hfound⟩ := mem_bind_iff.mp hfound
  obtain ⟨source, hsource, _⟩ := mem_bind_iff.mp hfound
  obtain ⟨opening, hopening, _⟩ := mem_bind_iff.mp hsource
  have hblanks : Over isBlank blanks := Over.bind (Over.stretch fun _ h => h) fun _ => Over.give _
  obtain ⟨spaces, hspaces, hall⟩ := hblanks _ gap hgap
  obtain ⟨hquote, hopened⟩ := mem_one_iff.mp hopening
  obtain ⟨q, hq⟩ : exists q : Quote, opening.1 = q.char := by
    rcases Bool.or_eq_true_iff.mp hquote with hsingle | hdouble
    · exact ⟨.single, eq_of_beq hsingle⟩
    · exact ⟨.double, eq_of_beq hdouble⟩
  refine ⟨indent, spaces, q, opening.2.ahead, hindent, List.all_eq_true.mpr hall, ?_⟩
  rw [hread.1, (mem_letters_iff.mp hword).1, hspaces.1, hopened.1, hq]
  rfl

theorem RefusesIndented.eq_nil {form : Matcher α} {indent text : List Char}
    (h : RefusesIndented form text) (hindent : indent.all isIndent = true)
    (hstop : Stops isIndent text) (hahead : c.ahead = indent ++ text) : form c = [] := by
  obtain ⟨next, rfl, hnext⟩ := h
  have hrefuses := Refuses.indentation_bind hindent hstop hnext c.behind
  rwa [<- hahead] at hrefuses

theorem importForm_eq_nil {found : (Nat -> Option Import) × Cursor} (h : found ∈ runForm c) :
    importForm c = [] := by
  obtain ⟨indent, blanks, q, rest, hindent, hblanks, hahead⟩ := exists_quote_of_runForm h
  exact (refuses_importForm hblanks q rest).eq_nil hindent (stops_cons (by decide) _) hahead

theorem ImportKind.eq_of_mem {own other : ImportKind}
    {found found' : (Nat -> Option Import) × Cursor} (hown : found ∈ own.form c)
    (hother : found' ∈ other.form c) : own = other := by
  by_cases hne : own = other
  · exact hne
  -- the two forms that begin with `import` are told apart behind it, all others by their words
  by_cases htakes : own = .takes ∧ other = .runs
  · obtain ⟨rfl, rfl⟩ := htakes
    rw [show ImportKind.takes.form c = [] from importForm_eq_nil hother] at hown
    cases hown
  by_cases hruns : own = .runs ∧ other = .takes
  · obtain ⟨rfl, rfl⟩ := hruns
    rw [show ImportKind.takes.form c = [] from importForm_eq_nil hown] at hother
    cases hother
  obtain ⟨indent, text, hindent, hahead, hbegins⟩ := own.begins_of_mem hown
  have hrefuses := other.refuses hbegins (ImportKind.words_apart hne htakes hruns)
  have hstop : Stops isIndent text := hbegins.stops (by cases own <;> decide)
  rw [hrefuses.eq_nil hindent hstop hahead] at hother
  cases hother

/-!
# The line of an import
-/

def KeepsLine (form : Matcher (Nat -> Option Import)) : Prop :=
  forall c found line record, found ∈ form c -> found.1 line = some record -> record.line = line

theorem KeepsLine.bind {m : Matcher β} {next : β -> Matcher (Nat -> Option Import)}
    (h : forall value, KeepsLine (next value)) : KeepsLine (m >>= next) := by
  intro c found line record hfound
  obtain ⟨first, _, hnext⟩ := mem_bind_iff.mp hfound
  exact h first.1 first.2 found line record hnext

theorem KeepsLine.give {made : Nat -> Option Import}
    (h : forall line record, made line = some record -> record.line = line) :
    KeepsLine (Matcher.give made) := by
  intro c found line record hfound hmade
  cases mem_give_iff.mp hfound
  exact h line record hmade

theorem ImportKind.keepsLine (kind : ImportKind) : KeepsLine kind.form := by
  cases kind with
  | takes =>
      refine KeepsLine.bind fun _ => KeepsLine.bind fun _ => KeepsLine.bind fun marked => ?_
      refine KeepsLine.bind fun default => KeepsLine.bind fun selected => KeepsLine.bind fun _ => ?_
      refine KeepsLine.bind fun source => KeepsLine.give ?_
      intro line record hmade
      split at hmade
      · cases hmade
      · cases hmade
        rfl
  | runs =>
      refine KeepsLine.bind fun _ => KeepsLine.bind fun _ => KeepsLine.bind fun _ => ?_
      refine KeepsLine.bind fun source => KeepsLine.give ?_
      rintro line record ⟨⟩
      rfl
  | requires =>
      refine KeepsLine.bind fun _ => KeepsLine.bind fun _ => KeepsLine.bind fun bindings => ?_
      refine KeepsLine.bind fun _ => KeepsLine.bind fun _ => KeepsLine.bind fun _ => ?_
      refine KeepsLine.bind fun source => KeepsLine.give ?_
      rintro line record ⟨⟩
      rfl
  | calls =>
      refine KeepsLine.bind fun _ => KeepsLine.bind fun source => KeepsLine.give ?_
      rintro line record ⟨⟩
      rfl

structure StandsAt (kind : ImportKind) (code : List Char) (entry : Nat × Import) (place : Cursor) :
    Prop where
  text : place.behind.reverse ++ place.ahead = code
  read : exists found, found ∈ kind.form place
  offset : entry.1 = place.offset
  line : entry.2.line = place.line

theorem exists_standsAt {kind : ImportKind} {entry : Nat × Import}
    (h : entry ∈ importsOfForm kind.form code) : exists place, StandsAt kind code entry place := by
  obtain ⟨found, hfound, hmade⟩ := List.mem_filterMap.mp h
  obtain ⟨record, hrecord, rfl⟩ := Option.map_eq_some_iff.mp hmade
  obtain ⟨stop, hanswer⟩ := exists_mem_of_mem_findFrom hfound
  exact
    ⟨found.place,
      { text := text_of_mem_findFrom hfound
        read := ⟨_, hanswer⟩
        offset := rfl
        line := kind.keepsLine _ _ _ _ hanswer hrecord }⟩

theorem exists_of_mem_importsOfCode {record : Import} (h : record ∈ importsOfCode code) :
    exists kind entry, entry ∈ importsOfForm (ImportKind.form kind) code ∧ entry.2 = record := by
  obtain ⟨entry, hentry, heq⟩ := List.mem_map.mp h
  have hall : entry ∈ [ImportKind.takes, .runs, .requires, .calls].flatMap
      fun kind => importsOfForm kind.form code := mem_sortBy_iff.mp hentry
  obtain ⟨kind, _, hfound⟩ := List.mem_flatMap.mp hall
  exact ⟨kind, entry, hfound, heq⟩

theorem StandsAt.atLineStart {kind : ImportKind} {entry : Nat × Import} {place : Cursor}
    (h : StandsAt kind code entry place) : place.atLineStart = true := by
  obtain ⟨found, hfound⟩ := h.read
  exact kind.beginsLine place (List.ne_nil_of_mem hfound)

theorem pairwise_importsOfForm (form : Matcher (Nat -> Option Import)) (code : List Char) :
    (importsOfForm form code).Pairwise fun a b => a.1 < b.1 := by
  refine List.Pairwise.filterMap _ ?_ (pairwise_offset_findFrom form [] code 0)
  intro found found' hlt entry hentry entry' hentry'
  obtain ⟨record, _, rfl⟩ := Option.map_eq_some_iff.mp hentry
  obtain ⟨record', _, rfl⟩ := Option.map_eq_some_iff.mp hentry'
  exact hlt

theorem offset_ne {own other : ImportKind} (hne : own ≠ other) {entry entry' : Nat × Import}
    (hentry : entry ∈ importsOfForm own.form code)
    (hentry' : entry' ∈ importsOfForm other.form code) : entry.1 ≠ entry'.1 := by
  obtain ⟨place, hplace⟩ := exists_standsAt hentry
  obtain ⟨place', hplace'⟩ := exists_standsAt hentry'
  intro hsame
  rw [hplace.offset, hplace'.offset] at hsame
  obtain rfl := eq_of_offset_eq hplace.text hplace'.text hsame
  obtain ⟨_, hfound⟩ := hplace.read
  obtain ⟨_, hfound'⟩ := hplace'.read
  exact hne (ImportKind.eq_of_mem hfound hfound')

theorem pairwise_line_importsOfCode (code : List Char) :
    (importsOfCode code).Pairwise fun a b => a.line < b.line := by
  let kinds := [ImportKind.takes, .runs, .requires, .calls]
  let all := kinds.flatMap fun kind => importsOfForm kind.form code
  have hdistinct : (all.map Prod.fst).Nodup := by
    refine List.pairwise_map.mpr (List.pairwise_flatMap.mpr ⟨?_, ?_⟩)
    · intro kind _
      exact (pairwise_importsOfForm kind.form code).imp Nat.ne_of_lt
    · have hkinds : kinds.Nodup := by decide
      refine hkinds.imp ?_
      intro own other hne entry hentry entry' hentry'
      exact offset_ne hne hentry hentry'
  have hoffsets := sortBy_strict Prod.fst hdistinct
  refine List.pairwise_map.mpr (hoffsets.imp_of_mem ?_)
  intro entry entry' hentry hentry' hlt
  obtain ⟨kind, _, hfound⟩ := List.mem_flatMap.mp (mem_sortBy_iff.mp hentry)
  obtain ⟨kind', _, hfound'⟩ := List.mem_flatMap.mp (mem_sortBy_iff.mp hentry')
  obtain ⟨place, hplace⟩ := exists_standsAt hfound
  obtain ⟨place', hplace'⟩ := exists_standsAt hfound'
  -- a form begins at the start of a line, so that a later place is on a later line
  rw [hplace.offset, hplace'.offset] at hlt
  rw [hplace.line, hplace'.line]
  exact line_lt_line hplace.text hplace'.text hlt hplace'.atLineStart

theorem pairwise_line_imports (path content : String) :
    (scan path content).imports.Pairwise fun a b => a.line < b.line :=
  pairwise_line_importsOfCode _

end SourceModule
end Joinery
