import Joinery.Proofs.Path.Normal
import Joinery.Proofs.SourceModule.Declaration
import Joinery.Proofs.SourceModule.Identifiers
import Joinery.Proofs.Text.Reading

/-!
# Statements as they are written

## Names, sources and lists

A statement is written with an identifier where a name stands, with a quoted source and with
lists in braces, whose items stand between commas and blanks.  Each of these pieces is read
back as it was written.
-/

namespace Joinery
namespace SourceModule

open Text Matcher

variable {α β : Type} {more rest : List Char}

/-!
# Words
-/

theorem TakesOnly.keyword (spelled : String) (h : Stops isBlank rest) :
    TakesOnly (keyword spelled) (spelled.toList ++ [' ']) () rest :=
  TakesOnly.bind (TakesOnly.word _ _) (TakesOnly.blanks1 (List.cons_ne_nil _ _) (by decide) h)

theorem Refuses.keyword {spelled : String} {text : List Char}
    (h : spelled.toList.isPrefixOf text = false) :
    Refuses (keyword spelled) text :=
  Refuses.bind (Refuses.word h)

/-- A word that need not stand there, with the blank behind it. -/
def marked (present : Bool) (spelled : String) : List Char :=
  if present then spelled.toList ++ [' '] else []

def Begins (words : List String) (text : List Char) : Prop :=
  exists word, word ∈ words ∧ word.toList <+: text

theorem begins_marked (spelled : String) (words : List String) (more : List Char) :
    Begins (spelled :: words) (marked true spelled ++ more) := by
  refine ⟨spelled, List.mem_cons_self .., ?_⟩
  rw [marked, if_pos rfl, List.append_assoc]
  exact List.prefix_append _ _

theorem Begins.marked {words : List String} (h : Begins words more) (present : Bool)
    (spelled : String) : Begins (spelled :: words) (marked present spelled ++ more) := by
  cases present with
  | true =>
      exact begins_marked spelled words more
  | false =>
      obtain ⟨word, hword, hprefix⟩ := h
      exact ⟨word, List.mem_cons_of_mem _ hword, hprefix⟩

theorem Begins.stops {words : List String} {p : Char -> Bool} (h : Begins words more)
    (hwords : forall word, word ∈ words -> word.toList.head?.any (fun ch => !p ch) = true) :
    Stops p more := by
  obtain ⟨word, hword, tail, rfl⟩ := h
  have hfirst := hwords word hword
  cases hchars : word.toList with
  | nil =>
      rw [hchars] at hfirst
      cases hfirst
  | cons ch front =>
      rw [hchars] at hfirst
      exact stops_cons (by simpa using hfirst) _

theorem Refuses.word_apart {spelled : String} {words : List String} (h : Apart spelled words)
    (hbegins : Begins words more) : Refuses (Matcher.word spelled) more := by
  obtain ⟨word, hword, hprefix⟩ := hbegins
  refine Refuses.word ?_
  cases hspelled : spelled.toList.isPrefixOf more with
  | false =>
      rfl
  | true =>
      have hboth := List.isPrefixOf_iff_prefix.mp hspelled
      rcases List.prefix_or_prefix_of_prefix hprefix hboth with hle | hle
      · exact absurd hle (h word hword).1
      · exact absurd hle (h word hword).2

theorem Refuses.keyword_apart {spelled : String} {words : List String} (h : Apart spelled words)
    (hbegins : Begins words more) : Refuses (SourceModule.keyword spelled) more :=
  Refuses.bind (Refuses.word_apart h hbegins)

theorem Takes.marked {present : Bool} {spelled : String} (hstop : Stops isBlank rest)
    (hrefuses : present = false -> Refuses (keyword spelled) rest) :
    Takes (optional (keyword spelled)) (marked present spelled)
      (if present then some () else none) rest := by
  cases present with
  | true =>
      exact Takes.optional (TakesOnly.keyword spelled hstop).takes
  | false =>
      exact (TakesOnly.left_out (hrefuses rfl)).takes

theorem Takes.anyWord {words : List String} {spelled : String} (hmem : spelled ∈ words)
    (hapart : forall word, word ∈ words -> word ≠ spelled -> Apart word [spelled])
    (rest : List Char) :
    Takes (anyOf (words.map Matcher.word)) spelled.toList () rest := by
  induction words with
  | nil =>
      cases hmem
  | cons word words ih =>
      by_cases heq : word = spelled
      · rw [heq]
        exact Takes.orElse (TakesOnly.word spelled rest).takes
      · have hrefuses : Refuses (Matcher.word word) (spelled.toList ++ rest) :=
          Refuses.word_apart (hapart word (List.mem_cons_self ..) heq)
            ⟨spelled, List.mem_singleton_self _, List.prefix_append _ _⟩
        refine Takes.orElse_right hrefuses (ih ?_ ?_)
        · exact (List.mem_cons.mp hmem).resolve_left fun h => heq h.symm
        · exact fun other hother => hapart other (List.mem_cons_of_mem word hother)

def semicolonText (semicolon : Bool) : List Char :=
  if semicolon then [';'] else []

/-- A text that is read as an identifier. -/
structure Identifier where
  name : String
  isIdentifier : IsIdentifier name

namespace Identifier

def chars (i : Identifier) : List Char :=
  i.name.toList

theorem all_chars (i : Identifier) : i.chars.all isIdentifierChar = true :=
  List.all_eq_true.mpr fun _ hch => i.isIdentifier.char hch

theorem stops_append {p : Char -> Bool}
    (hp : forall ch, isIdentifierStart ch = true -> p ch = false) (i : Identifier)
    (rest : List Char) : Stops p (i.chars ++ rest) := by
  obtain ⟨first, tail, htext, hfirst, _⟩ := i.isIdentifier
  rw [chars, htext]
  exact stops_cons (hp first hfirst) _

theorem stops_blank (i : Identifier) (rest : List Char) : Stops isBlank (i.chars ++ rest) := by
  refine stops_append ?_ i rest
  intro ch hch
  cases hblank : isBlank ch with
  | false =>
      rfl
  | true =>
      have hchar := isIdentifierChar_of_isIdentifierStart hch
      rw [isIdentifierChar_of_isBlank hblank] at hchar
      cases hchar

end Identifier

theorem TakesOnly.identifier (i : Identifier) (h : Stops isIdentifierChar rest) :
    TakesOnly identifier i.chars i.name rest := by
  obtain ⟨first, tail, htext, hfirst, htail⟩ := i.isIdentifier
  have hone := TakesOnly.one hfirst (tail ++ rest)
  have hstretch := TakesOnly.stretch (List.all_eq_true.mpr htail) h
  have hname : String.ofList (first :: tail) = i.name := by
    rw [<- htext, String.ofList_toList]
  have hall : TakesOnly SourceModule.identifier ([first] ++ tail) (String.ofList (first :: tail))
      rest := TakesOnly.bind hone hstretch.map
  rw [hname, List.singleton_append, <- htext] at hall
  exact hall

theorem Takes.anyIdentifier (i : Identifier) (h : Stops isIdentifierChar rest) :
    Takes anyIdentifier i.chars i.name rest := by
  obtain ⟨first, tail, htext, hfirst, htail⟩ := i.isIdentifier
  have hone := TakesOnly.one hfirst (tail ++ rest)
  have hbeginnings := Takes.beginnings (List.all_eq_true.mpr htail) h
  have hname : String.ofList (first :: tail) = i.name := by
    rw [<- htext, String.ofList_toList]
  have hall : Takes SourceModule.anyIdentifier ([first] ++ tail) (String.ofList (first :: tail))
      rest := Takes.bind hone.takes hbeginnings.map
  rw [hname, List.singleton_append, <- htext] at hall
  exact hall

theorem Refuses.identifier {text : List Char} (h : Stops isIdentifierStart text) :
    Refuses identifier text :=
  Refuses.bind (Refuses.one h)

theorem Refuses.anyIdentifier {text : List Char} (h : Stops isIdentifierStart text) :
    Refuses anyIdentifier text :=
  Refuses.bind (Refuses.one h)

theorem Refuses.keyword_identifier {spelled : String} (i : Identifier)
    (hspelled : spelled.toList.all isIdentifierChar = true) (hrest : Stops isIdentifierChar rest)
    (h : i.name ≠ spelled ∨ Stops isBlank rest) :
    Refuses (SourceModule.keyword spelled) (i.chars ++ rest) := by
  intro behind
  refine List.eq_nil_iff_forall_not_mem.mpr fun found hfound => ?_
  obtain ⟨word, hword, hblanks⟩ := mem_bind_iff.mp hfound
  have hread : i.chars ++ rest = spelled.toList ++ word.2.ahead := (mem_letters_iff.mp hword).1
  obtain ⟨ch, tail, hahead, hblank⟩ :
      exists ch tail, word.2.ahead = ch :: tail ∧ isBlank ch = true := by
    cases hahead : word.2.ahead with
    | nil =>
        have hnone := Refuses.blanks1 (stops_nil isBlank) word.2.behind
        rw [show (⟨word.2.behind, []⟩ : Cursor) = word.2 by rw [<- hahead]] at hnone
        rw [hnone] at hblanks
        cases hblanks
    | cons ch tail =>
        cases hblank : isBlank ch with
        | true =>
            exact ⟨ch, tail, rfl, hblank⟩
        | false =>
            have hnone := Refuses.blanks1 (stops_cons hblank tail) word.2.behind
            rw [show (⟨word.2.behind, ch :: tail⟩ : Cursor) = word.2 by rw [<- hahead]] at hnone
            rw [hnone] at hblanks
            cases hblanks
  have hstop : Stops isIdentifierChar word.2.ahead := by
    rw [hahead]
    exact stops_cons (isIdentifierChar_of_isBlank hblank) tail
  have hsame : i.chars = spelled.toList := by
    rw [<- takeWhile_stops i.all_chars hrest, hread, takeWhile_stops hspelled hstop]
  rcases h with hname | hnoBlank
  · exact hname (String.toList_inj.mp hsame)
  · rw [hsame] at hread
    rw [List.append_cancel_left hread] at hnoBlank
    have hno := hnoBlank ch (by rw [hahead]; rfl)
    rw [hblank] at hno
    cases hno

/-!
# Sources
-/

/-- The path of another module, as it can stand between quotes. -/
structure Source where
  path : String
  ne_empty : path ≠ ""
  plain : path.toList.all (fun c => c != '\'' && c != '"' && c != '\n') = true

inductive Quote where
  | single
  | double

def Quote.char : Quote -> Char
  | single => '\''
  | double => '"'

def Source.quoted (s : Source) (q : Quote) : List Char :=
  q.char :: (s.path.toList ++ [q.char])

theorem TakesOnly.quoted (s : Source) (q : Quote) (rest : List Char) :
    TakesOnly quoted (s.quoted q) s.path rest := by
  have hopening : (q.char == '\'' || q.char == '"') = true := by
    cases q <;> rfl
  have hstop : Stops (fun c => c != '\'' && c != '"' && c != '\n') ([q.char] ++ rest) := by
    cases q <;> exact stops_cons rfl rest
  have hne : s.path.toList ≠ [] := fun hnil => s.ne_empty (String.toList_inj.mp hnil)
  have htext := TakesOnly.stretch1 hne s.plain hstop
  have hall : TakesOnly SourceModule.quoted (s.quoted q) (String.ofList s.path.toList) rest :=
    TakesOnly.bind (TakesOnly.one hopening _)
      (TakesOnly.bind htext (TakesOnly.letters [q.char] rest).map)
  rwa [String.ofList_toList] at hall

theorem Refuses.quoted {text : List Char} (h : Stops (fun c => c == '\'' || c == '"') text) :
    Refuses quoted text :=
  Refuses.bind (Refuses.one h)

def Source.from (s : Source) (q : Quote) : List Char :=
  "from".toList ++ ([' '] ++ s.quoted q)

theorem Source.stops_quoted {p : Char -> Bool} (hsingle : p '\'' = false) (hdouble : p '"' = false)
    (s : Source) (q : Quote) (rest : List Char) : Stops p (s.quoted q ++ rest) := by
  cases q
  · exact stops_cons hsingle _
  · exact stops_cons hdouble _

theorem TakesOnly.fromSource (s : Source) (q : Quote) (rest : List Char) :
    TakesOnly fromSource (s.from q) s.path rest := by
  have hblanks := TakesOnly.blanks (by decide : [' '].all isBlank = true)
    (s.stops_quoted (by decide) (by decide) q rest)
  exact TakesOnly.bind (TakesOnly.word _ _) (TakesOnly.bind hblanks (TakesOnly.quoted s q rest))

/-!
# Lists
-/

structure Padded (α : Type) where
  before : List Char
  item : α
  after : List Char
  before_blank : before.all isBlank = true
  after_blank : after.all isBlank = true

/-- The items between two braces; a comma may follow the last one, with blanks behind it. -/
structure Items (α : Type) where
  items : List (Padded α)
  last : Option (List Char)
  last_blank : forall blanks, blanks ∈ last -> blanks.all isBlank = true

/-- An item that can be told from the commas and the blanks around it. -/
structure IsItem (text : List Char) : Prop where
  first : exists ch rest, text = ch :: rest ∧ isBlank ch = false
  last : exists front ch, text = front ++ [ch] ∧ isBlank ch = false
  comma : ',' ∉ text

def Padded.text (write : α -> List Char) (p : Padded α) : List Char :=
  p.before ++ (write p.item ++ p.after)

def Items.pieces (write : α -> List Char) (l : Items α) : List (List Char) :=
  l.items.map (Padded.text write) ++ l.last.toList

def Items.text (write : α -> List Char) (l : Items α) : List Char :=
  [','].intercalate (l.pieces write)

theorem trim_around {before item after : List Char} (hbefore : before.all isBlank = true)
    (hitem : IsItem item) (hafter : after.all isBlank = true) :
    trim (before ++ (item ++ after)) = item := by
  obtain ⟨first, tail, hfirst, hfirstBlank⟩ := hitem.first
  obtain ⟨front, last, hlast, hlastBlank⟩ := hitem.last
  have hstart : forall ch, item.head? = some ch -> isBlank ch = false := by
    intro ch hch
    rw [hfirst, List.head?_cons] at hch
    cases hch
    exact hfirstBlank
  have hend : EndsTight item := by
    intro ch hch
    rw [hlast, List.getLast?_concat] at hch
    cases hch
    exact hlastBlank
  rw [trim_append (List.all_eq_true.mp hbefore) (List.all_eq_true.mp hafter),
    trim_of_tight hstart hend]

theorem trim_blanks {blanks : List Char} (h : blanks.all isBlank = true) : trim blanks = [] := by
  have hstart : dropStart isBlank blanks = [] :=
    List.dropWhile_eq_nil_iff.mpr (List.all_eq_true.mp h)
  rw [trim, hstart]
  rfl

theorem not_mem_blanks {ch : Char} (hch : isBlank ch = false) {blanks : List Char}
    (h : blanks.all isBlank = true) : ch ∉ blanks := by
  intro hmem
  rw [List.all_eq_true.mp h _ hmem] at hch
  cases hch

theorem comma_not_mem_blanks {blanks : List Char} (h : blanks.all isBlank = true) :
    ',' ∉ blanks :=
  not_mem_blanks (by decide) h

theorem clauseItems_text {write : α -> List Char} (hwrite : forall item, IsItem (write item))
    (l : Items α) : clauseItems (l.text write) = l.items.map fun p => write p.item := by
  have hcommas : forall piece, piece ∈ l.pieces write -> ',' ∉ piece := by
    intro piece hpiece
    rcases List.mem_append.mp hpiece with hpiece | hpiece
    · obtain ⟨p, _, rfl⟩ := List.mem_map.mp hpiece
      have hbefore := comma_not_mem_blanks p.before_blank
      have hafter := comma_not_mem_blanks p.after_blank
      simp [Padded.text, hbefore, hafter, (hwrite p.item).comma]
    · exact comma_not_mem_blanks (l.last_blank piece (Option.mem_toList.mp hpiece))
  have htrimmed : (l.pieces write).map trim =
      l.items.map (fun p => write p.item) ++ l.last.toList.map fun _ => [] := by
    rw [Items.pieces, List.map_append, List.map_map]
    congr 1
    · refine List.map_congr_left fun p _ => ?_
      exact trim_around p.before_blank (hwrite p.item) p.after_blank
    · refine List.map_congr_left fun blanks hblanks => ?_
      exact trim_blanks (l.last_blank blanks (Option.mem_toList.mp hblanks))
  have hitems : (l.items.map fun p => write p.item).filter (fun item => !item.isEmpty) =
      l.items.map fun p => write p.item := by
    refine List.filter_eq_self.mpr fun item hitem => ?_
    obtain ⟨p, _, rfl⟩ := List.mem_map.mp hitem
    obtain ⟨ch, tail, htext, _⟩ := (hwrite p.item).first
    rw [htext]
    rfl
  have hlast : (l.last.toList.map fun _ => ([] : List Char)).filter (fun item => !item.isEmpty) =
      [] := by
    cases l.last <;> rfl
  unfold clauseItems Items.text
  by_cases hne : l.pieces write = []
  · have hnone : l.items = [] := by
      have hmap := (List.append_eq_nil_iff.mp hne).1
      exact List.map_eq_nil_iff.mp hmap
    rw [hne, hnone]
    rfl
  · rw [List.splitOn_intercalate _ hcommas hne, htrimmed, List.filter_append, hitems, hlast,
      List.append_nil]

theorem TakesOnly.braced {clause : List Char} (h : '}' ∉ clause) (rest : List Char) :
    TakesOnly braced ('{' :: (clause ++ ['}'])) clause rest := by
  have hclause : clause.all (fun c => c != '}') = true := by
    refine List.all_eq_true.mpr fun ch hch => ?_
    simpa using fun heq => h (by rw [<- heq]; exact hch)
  have hinside := TakesOnly.stretch hclause
    (stops_cons (by decide) rest : Stops (fun c => c != '}') (['}'] ++ rest))
  exact TakesOnly.bind (TakesOnly.letters ['{'] _)
    (TakesOnly.bind hinside (TakesOnly.letters ['}'] rest).map)

theorem Refuses.braced {text : List Char} (h : ['{'].isPrefixOf text = false) :
    Refuses braced text :=
  Refuses.bind (Refuses.letters h)

theorem Identifier.refuses_braced (i : Identifier) (rest : List Char) :
    Refuses braced (i.chars ++ rest) := by
  obtain ⟨first, tail, htext, hfirst, _⟩ := i.isIdentifier
  have hbrace : ('{' == first) = false := by
    refine beq_eq_false_iff_ne.mpr ?_
    rintro rfl
    cases hfirst
  refine Refuses.braced ?_
  rw [chars, htext, List.cons_append, List.isPrefixOf, hbrace]
  rfl

/-!
# Items of the lists
-/

theorem Identifier.comma_not_mem (i : Identifier) : ',' ∉ i.chars := by
  intro hmem
  exact absurd (List.all_eq_true.mp i.all_chars _ hmem) (by decide)

theorem isItem_append (i : Identifier) {front : List Char} (hcomma : ',' ∉ front)
    (hstart : Stops isBlank (front ++ i.chars)) : IsItem (front ++ i.chars) := by
  obtain ⟨before, last, hlast⟩ : exists before last, i.chars = before ++ [last] := by
    obtain ⟨first, tail, htext, _⟩ := i.isIdentifier
    rw [Identifier.chars, htext]
    exact ⟨_, _, (List.dropLast_concat_getLast (List.cons_ne_nil first tail)).symm⟩
  have hblank : isBlank last = false := by
    refine i.isIdentifier.not_blank ?_
    rw [show i.name.toList = before ++ [last] from hlast]
    exact List.mem_append_right _ (List.mem_singleton_self last)
  refine ⟨?_, ⟨front ++ before, last, by rw [hlast, List.append_assoc], hblank⟩, ?_⟩
  · cases htext : front ++ i.chars with
    | nil =>
        rw [(List.append_eq_nil_iff.mp htext).2] at hlast
        cases before <;> cases hlast
    | cons ch rest =>
        exact ⟨ch, rest, rfl, hstart ch (by rw [htext]; rfl)⟩
  · rw [List.mem_append]
    rintro (h | h)
    · exact hcomma h
    · exact i.comma_not_mem h

/-- An item of an import or an export list: a name, with another one for it behind `as`. -/
structure Specifier where
  marked : Bool
  name : Identifier
  renamed : Option Identifier
  unlike_mark : marked = false -> renamed.isSome = true -> name.name ≠ "type"

namespace Specifier

def mark (s : Specifier) : List Char :=
  if s.marked then "type".toList ++ [' '] else []

def renamedText (s : Specifier) : List Char :=
  match s.renamed with
  | none => []
  | some other => [' '] ++ ("as".toList ++ ([' '] ++ other.chars))

def core (s : Specifier) : List Char :=
  s.name.chars ++ s.renamedText

def text (s : Specifier) : List Char :=
  s.mark ++ s.core

def localName (s : Specifier) : String :=
  (s.renamed.getD s.name).name

def binding (typeOnly : Bool) (s : Specifier) : Binding :=
  { imported := .named s.name.name
    localName := s.localName
    typeOnly := typeOnly || s.marked }

theorem stops_renamedText (s : Specifier) : Stops isIdentifierChar s.renamedText := by
  unfold renamedText
  split
  · exact stops_nil _
  · exact stops_cons (by decide) _

theorem isItem_core (s : Specifier) : IsItem s.core := by
  unfold core renamedText
  split
  · have hitem := isItem_append s.name (List.not_mem_nil : ',' ∉ [])
      (by simpa using s.name.stops_blank [])
    simpa using hitem
  · next other _ =>
      have hcomma : ',' ∉ s.name.chars ++ ([' '] ++ ("as".toList ++ [' '])) := by
        simp [s.name.comma_not_mem]
      have hitem := isItem_append other hcomma (by
        rw [List.append_assoc]
        exact s.name.stops_blank _)
      simpa using hitem

theorem isItem_text (s : Specifier) : IsItem s.text := by
  unfold text mark
  split
  · obtain ⟨_, ⟨front, last, hlast, hblank⟩, hcomma⟩ := s.isItem_core
    refine ⟨⟨'t', _, rfl, rfl⟩, ⟨"type".toList ++ [' '] ++ front, last, ?_, hblank⟩, ?_⟩
    · rw [hlast, <- List.append_assoc]
    · simp [hcomma]
  · exact s.isItem_core

theorem withoutType_of_eq_nil {item : List Char}
    (h : keyword "type" (Cursor.start item) = []) : withoutType item = (item, false) := by
  unfold withoutType
  split
  · rfl
  · rename_i heq
    cases heq.symm.trans h

theorem withoutType_of_eq_singleton {item : List Char} {found : Unit × Cursor}
    (h : keyword "type" (Cursor.start item) = [found]) :
    withoutType item = (trim found.2.ahead, true) := by
  unfold withoutType
  split
  · rename_i heq
    cases heq.symm.trans h
  · rename_i heq
    cases heq.symm.trans h
    rfl

theorem withoutType_text (s : Specifier) : withoutType s.text = (s.core, s.marked) := by
  have htrim : trim s.core = s.core := by
    have hnone : ([] : List Char).all isBlank = true := rfl
    simpa using trim_around hnone s.isItem_core hnone
  cases hmarked : s.marked with
  | true =>
      obtain ⟨ch, tail, hcore, hblank⟩ := s.isItem_core.first
      have htakes := TakesOnly.keyword "type" (by rw [hcore]; exact stops_cons hblank tail :
        Stops isBlank s.core) []
      have htext : s.text = ("type".toList ++ [' ']) ++ s.core := by
        rw [text, mark, hmarked]
        rfl
      rw [htext, withoutType_of_eq_singleton htakes, htrim]
  | false =>
      have htext : s.text = s.core := by
        rw [text, mark, hmarked]
        rfl
      have hrefuses : Refuses (keyword "type") (s.name.chars ++ s.renamedText) := by
        refine Refuses.keyword_identifier s.name (by decide) s.stops_renamedText ?_
        cases hrenamed : s.renamed with
        | none =>
            right
            rw [renamedText, hrenamed]
            exact stops_nil _
        | some other =>
            left
            exact s.unlike_mark hmarked (by rw [hrenamed]; rfl)
      rw [htext]
      exact withoutType_of_eq_nil (hrefuses [])

theorem first?_aliased (s : Specifier) :
    aliased.first? s.core = some (s.name.name, s.localName) := by
  have hname := TakesOnly.identifier s.name s.stops_renamedText
  have hend : forall other : Option String, Takes
      (do
        Matcher.textEnd
        Matcher.give (s.name.name, other.getD s.name.name)) []
      (s.name.name, other.getD s.name.name) [] :=
    fun _ => (TakesOnly.map TakesOnly.textEnd).takes
  have hall : Takes aliased (s.name.chars ++ (s.renamedText ++ []))
      (s.name.name, s.localName) [] := by
    refine Takes.bind (by simpa using hname.takes) ?_
    unfold renamedText localName
    cases hrenamed : s.renamed with
    | none =>
        exact Takes.bind (TakesOnly.left_out (Refuses.bind (Refuses.blanks1 (stops_nil _)))).takes
          (hend none)
    | some other =>
        refine Takes.bind (a := some other.name) (Takes.optional ?_) (hend (some other.name))
        have hblank : forall rest, Stops isBlank ("as".toList ++ rest) :=
          fun rest => stops_cons (by decide) _
        refine Takes.bind (TakesOnly.blanks1 (by simp) (by decide) (hblank _)).takes ?_
        refine Takes.bind (TakesOnly.word "as" _).takes ?_
        refine Takes.bind (TakesOnly.blanks1 (by simp) (by decide) (other.stops_blank _)).takes ?_
        exact (TakesOnly.identifier other (stops_nil _)).takes
  simpa [core] using hall.first?

theorem read_binding (typeOnly : Bool) (s : Specifier) :
    ((aliased.first? (withoutType s.text).1).map fun names =>
      ({ imported := .named names.1
         localName := names.2
         typeOnly := typeOnly || (withoutType s.text).2 } : Binding)) =
      some (s.binding typeOnly) := by
  rw [s.withoutType_text, s.first?_aliased]
  rfl

theorem read_localName (s : Specifier) :
    (aliased.first? (withoutType s.text).1).map (·.2) = some s.localName := by
  rw [s.withoutType_text, s.first?_aliased]
  rfl

end Specifier

theorem importedNames_text (typeOnly : Bool) (l : Items Specifier) :
    importedNames typeOnly (l.text Specifier.text) =
      l.items.map fun p => p.item.binding typeOnly := by
  show (clauseItems _).filterMap _ = _
  rw [clauseItems_text Specifier.isItem_text, List.filterMap_map, <- List.filterMap_eq_map]
  exact List.filterMap_congr fun p _ => p.item.read_binding typeOnly

theorem exportedNames_text (l : Items Specifier) :
    exportedNames (l.text Specifier.text) = l.items.map fun p => p.item.localName := by
  show (clauseItems _).filterMap _ = _
  rw [clauseItems_text Specifier.isItem_text, List.filterMap_map, <- List.filterMap_eq_map]
  exact List.filterMap_congr fun p _ => p.item.read_localName

/-- An item of an object, or of a pattern for one: a key, maybe with a name behind a colon. -/
structure Property where
  key : Identifier
  value : Option Identifier

namespace Property

def valueText (p : Property) : List Char :=
  match p.value with
  | none => []
  | some other => ':' :: ([' '] ++ other.chars)

def text (p : Property) : List Char :=
  p.key.chars ++ p.valueText

def localName (p : Property) : String :=
  (p.value.getD p.key).name

/-- The binding that a `require` call makes of the item. -/
def binding (p : Property) : Binding :=
  { imported := .named p.key.name, localName := p.localName }

theorem isItem_text (p : Property) : IsItem p.text := by
  unfold text valueText
  split
  · have hitem := isItem_append p.key (List.not_mem_nil : ',' ∉ [])
      (by simpa using p.key.stops_blank [])
    simpa using hitem
  · next other _ =>
      have hcomma : ',' ∉ p.key.chars ++ [':', ' '] := by
        simp [p.key.comma_not_mem]
      have hitem := isItem_append other hcomma (by
        rw [List.append_assoc]
        exact p.key.stops_blank _)
      simpa using hitem

theorem stops_valueText {q : Char -> Bool} (h : q ':' = false) (p : Property) :
    Stops q p.valueText := by
  unfold valueText
  split
  · exact stops_nil _
  · exact stops_cons h _

theorem first?_destructured (p : Property) :
    destructured.first? p.text = some (p.key.name, p.localName) := by
  have hend : forall other : Option String, Takes
      (do
        Matcher.blanks
        let _ <- Matcher.optional do
          Matcher.letters ['=']
          Matcher.stretch fun _ => true
        Matcher.textEnd
        Matcher.give (p.key.name, other.getD p.key.name) : Matcher (String × String))
      ([] ++ ([] ++ []))
      (p.key.name, other.getD p.key.name) [] := by
    intro other
    refine Takes.bind (TakesOnly.blanks rfl (stops_nil _)).takes ?_
    refine Takes.bind (TakesOnly.left_out (Refuses.bind (Refuses.letters rfl))).takes ?_
    exact (TakesOnly.map TakesOnly.textEnd).takes
  have hall : Takes destructured (p.key.chars ++ ([] ++ (p.valueText ++ [])))
      (p.key.name, p.localName) [] := by
    refine Takes.bind (TakesOnly.identifier p.key ?_).takes ?_
    · simpa using p.stops_valueText (by decide)
    refine Takes.bind (TakesOnly.blanks rfl ?_).takes ?_
    · simpa using p.stops_valueText (by decide)
    unfold valueText localName
    cases hvalue : p.value with
    | none =>
        exact Takes.bind (TakesOnly.left_out (Refuses.bind (Refuses.letters rfl))).takes (hend none)
    | some other =>
        refine Takes.bind (a := some other.name) (Takes.optional ?_) (hend (some other.name))
        refine Takes.bind (TakesOnly.letters [':'] _).takes ?_
        have hblanks := TakesOnly.blanks (by decide : [' '].all isBlank = true)
          (other.stops_blank [])
        refine Takes.bind hblanks.takes ?_
        exact (TakesOnly.identifier other (stops_nil _)).takes
  simpa [text] using hall.first?

end Property

theorem requiredNames_text (l : Items Property) :
    requiredNames (l.text Property.text) = l.items.map fun p => p.item.binding := by
  have hread : forall p : Property,
      ((destructured.first? p.text).map fun names =>
        ({ imported := .named names.1, localName := names.2 } : Binding)) = some p.binding := by
    intro p
    rw [p.first?_destructured]
    rfl
  show (clauseItems _).filterMap _ = _
  rw [clauseItems_text Property.isItem_text, List.filterMap_map, <- List.filterMap_eq_map]
  exact List.filterMap_congr fun p _ => hread p.item

end SourceModule
end Joinery
