import Joinery.Proofs.Tsconfig.Commas
import Joinery.Tsconfig.Aliases

/-!
# Remarks and commas do not count

## The aliases of a relaxed document

The tokens of a document without remarks and superfluous commas are those of its value, whatever
its gaps.  So the aliases that a project file gives are those of the value that it writes.
-/

namespace Joinery
namespace Tsconfig

open Json (Scalar StringPart quoted isSpace goesOn tokens tokensOf tokensOfItems tokensOfEntries
  tokens_spaces tokens_mark tokens_scalar hasTextKeys haveTextKeys haveTextKeysInside)
open Text

/-!
# Tokens of a document
-/

theorem Items.exists_cons_of_values? {wide : Json.WideIntegers} {items : Items}
    {values : List Value} (h : items.values? wide = some values) :
    exists v rest, values = v :: rest := by
  cases items with
  | last before item after comma =>
      obtain ⟨v, _, rfl⟩ := Option.map_eq_some_iff.mp h
      exact ⟨v, [], rfl⟩
  | more before item after more =>
      obtain ⟨v, _, hrest⟩ := Option.bind_eq_some_iff.mp h
      obtain ⟨rest, _, rfl⟩ := Option.map_eq_some_iff.mp hrest
      exact ⟨v, rest, rfl⟩

theorem Entries.exists_cons_of_entries? {wide : Json.WideIntegers} {entries : Entries}
    {pairs : List (Value × Value)} (h : entries.entries? wide = some pairs) :
    exists pair rest, pairs = pair :: rest := by
  cases entries with
  | last before key afterKey beforeItem item after comma =>
      obtain ⟨k, _, hitem⟩ := Option.bind_eq_some_iff.mp h
      obtain ⟨v, _, rfl⟩ := Option.map_eq_some_iff.mp hitem
      exact ⟨_, [], rfl⟩
  | more before key afterKey beforeItem item after more =>
      obtain ⟨k, _, hitem⟩ := Option.bind_eq_some_iff.mp h
      obtain ⟨v, _, hrest⟩ := Option.bind_eq_some_iff.mp hitem
      obtain ⟨rest, _, rfl⟩ := Option.map_eq_some_iff.mp hrest
      exact ⟨_, rest, rfl⟩

theorem goesOn_of_isSpace {c : Char} (h : isSpace c = true) : goesOn c = false := by
  simp only [isSpace, Bool.or_eq_true, beq_iff_eq] at h
  rcases h with ((rfl | rfl) | rfl) | rfl <;> decide

theorem tokens_quoted {wide : Json.WideIntegers} (parts : List StringPart) {rest : List Char}
    (hrest : Stops goesOn rest) :
    tokens wide (quoted parts ++ rest) =
      (StringPart.meaning? parts).bind fun k =>
        (tokens wide rest).map (.scalar (.text (String.ofList k)) :: ·) := by
  have hscalar := tokens_scalar wide (.string parts) hrest
  rw [Scalar.value?, Option.bind_map] at hscalar
  exact hscalar

theorem tokensOf_scalar {wide : Json.WideIntegers} {s : Scalar} {v : Value}
    (h : s.value? wide = some v) : tokensOf v = [.scalar v] ∧ hasTextKeys v = true := by
  cases s with
  | null | bool value =>
      cases h
      exact ⟨rfl, rfl⟩
  | number n =>
      rcases Json.Number.eq_of_value? h with ⟨_, rfl⟩ | ⟨_, rfl⟩
      · exact ⟨rfl, rfl⟩
      · exact ⟨rfl, rfl⟩
  | string parts =>
      obtain ⟨cs, _, rfl⟩ := Option.map_eq_some_iff.mp h
      exact ⟨rfl, rfl⟩

namespace Layout

variable {l : Layout} (h : l.IsStrict) {wide : Json.WideIntegers}

include h

theorem IsStrict.stops_gap (g : Gap) {rest : List Char} (hrest : Stops goesOn rest) :
    Stops goesOn (l.gap g ++ rest) := by
  refine Stops.append ?_ hrest
  intro c hc
  exact goesOn_of_isSpace (List.all_eq_true.mp (h.gap g) c (List.mem_of_head? hc))

theorem IsStrict.tokens_gap (g : Gap) (rest : List Char) :
    tokens wide (l.gap g ++ rest) = tokens wide rest :=
  tokens_spaces (h.gap g) rest

theorem IsStrict.tokens_comma (comma : Option Gap) (rest : List Char) :
    tokens wide (l.comma comma ++ rest) = tokens wide rest := by
  cases comma with
  | none =>
      rfl
  | some g =>
      rw [Layout.comma, h.commas]
      exact h.tokens_gap g rest

theorem IsStrict.stops_comma (comma : Option Gap) {rest : List Char} (hrest : Stops goesOn rest) :
    Stops goesOn (l.comma comma ++ rest) := by
  cases comma with
  | none =>
      exact hrest
  | some g =>
      rw [Layout.comma, h.commas]
      exact h.stops_gap g hrest

mutual

theorem IsStrict.tokens_node (node : Node) {rest : List Char} (hrest : Stops goesOn rest) :
    tokens wide (node.text l ++ rest) =
      (node.value? wide).bind fun v => (tokens wide rest).map (tokensOf v ++ ·) := by
  match node with
  | .scalar s =>
      rw [Node.text, tokens_scalar wide s hrest, Node.value?]
      cases hvalue : s.value? wide with
      | none =>
          rfl
      | some v =>
          rw [Option.bind_some, Option.bind_some, (tokensOf_scalar hvalue).1]
          rfl
  | .emptyList inside =>
      rw [Node.text, List.cons_append, List.append_assoc, List.singleton_append,
        tokens_mark (t := .listOpen) (fun _ => rfl) rfl, h.tokens_gap,
        tokens_mark (t := .listClose) (fun _ => rfl) rfl, Option.map_map]
      rfl
  | .list items =>
      have hclose : Stops goesOn (']' :: rest) := stops_cons rfl _
      rw [Node.text, List.cons_append, List.append_assoc, List.singleton_append,
        tokens_mark (t := .listOpen) (fun _ => rfl) rfl, IsStrict.tokens_items items hclose,
        tokens_mark (t := .listClose) (fun _ => rfl) rfl, Node.value?]
      cases items.values? wide with
      | none =>
          rfl
      | some vs =>
          simp [tokensOf, Function.comp_def]
  | .emptyMapping inside =>
      rw [Node.text, List.cons_append, List.append_assoc, List.singleton_append,
        tokens_mark (t := .mappingOpen) (fun _ => rfl) rfl, h.tokens_gap,
        tokens_mark (t := .mappingClose) (fun _ => rfl) rfl, Option.map_map]
      rfl
  | .mapping entries =>
      have hclose : Stops goesOn ('}' :: rest) := stops_cons rfl _
      rw [Node.text, List.cons_append, List.append_assoc, List.singleton_append,
        tokens_mark (t := .mappingOpen) (fun _ => rfl) rfl,
        IsStrict.tokens_entries entries hclose,
        tokens_mark (t := .mappingClose) (fun _ => rfl) rfl, Node.value?]
      cases entries.entries? wide with
      | none =>
          rfl
      | some es =>
          simp [tokensOf, Function.comp_def]

theorem IsStrict.tokens_items (items : Items) {rest : List Char} (hrest : Stops goesOn rest) :
    tokens wide (items.text l ++ rest) =
      (items.values? wide).bind fun vs => (tokens wide rest).map (tokensOfItems vs ++ ·) := by
  match items with
  | .last before item after comma =>
      have hend := h.stops_gap after (h.stops_comma comma hrest)
      rw [Items.text, List.append_assoc, List.append_assoc, List.append_assoc, h.tokens_gap,
        IsStrict.tokens_node item hend, h.tokens_gap, h.tokens_comma, Items.values?,
        Option.bind_map]
      rfl
  | .more before item after more =>
      have hnext : Stops goesOn (',' :: (more.text l ++ rest)) := stops_cons rfl _
      rw [Items.text, List.append_assoc, List.append_assoc, List.append_assoc, List.cons_append,
        h.tokens_gap, IsStrict.tokens_node item (h.stops_gap after hnext), h.tokens_gap,
        tokens_mark (t := .comma) (fun _ => rfl) rfl, IsStrict.tokens_items more hrest,
        Items.values?]
      cases item.value? wide with
      | none =>
          rfl
      | some v =>
          cases hmore : more.values? wide with
          | none =>
              rfl
          | some vs =>
              -- a comma is a token only before an item, so the next item is needed by name
              obtain ⟨w, ws, rfl⟩ := Items.exists_cons_of_values? hmore
              simp [tokensOfItems, Function.comp_def]

theorem IsStrict.tokens_entries (entries : Entries) {rest : List Char}
    (hrest : Stops goesOn rest) :
    tokens wide (entries.text l ++ rest) =
      (entries.entries? wide).bind fun es => (tokens wide rest).map (tokensOfEntries es ++ ·) := by
  have hcolon : forall after, Stops goesOn (':' :: after) := fun after => stops_cons rfl after
  match entries with
  | .last before key afterKey beforeItem item after comma =>
      have hend := h.stops_gap after (h.stops_comma comma hrest)
      rw [Entries.text, List.append_assoc, List.append_assoc, List.append_assoc,
        List.cons_append, h.tokens_gap, tokens_quoted key (h.stops_gap afterKey (hcolon _)),
        h.tokens_gap, tokens_mark (t := .colon) (fun _ => rfl) rfl, List.append_assoc,
        List.append_assoc, List.append_assoc, h.tokens_gap, IsStrict.tokens_node item hend,
        h.tokens_gap, h.tokens_comma, Entries.entries?]
      cases StringPart.meaning? key with
      | none =>
          rfl
      | some k =>
          cases item.value? wide with
          | none =>
              rfl
          | some v =>
              simp [tokensOfEntries, Function.comp_def]
  | .more before key afterKey beforeItem item after more =>
      have hnext : Stops goesOn (',' :: (more.text l ++ rest)) := stops_cons rfl _
      rw [Entries.text, List.append_assoc, List.append_assoc, List.append_assoc,
        List.cons_append, h.tokens_gap, tokens_quoted key (h.stops_gap afterKey (hcolon _)),
        h.tokens_gap, tokens_mark (t := .colon) (fun _ => rfl) rfl, List.append_assoc,
        List.append_assoc, List.append_assoc, List.cons_append, h.tokens_gap,
        IsStrict.tokens_node item (h.stops_gap after hnext), h.tokens_gap,
        tokens_mark (t := .comma) (fun _ => rfl) rfl, IsStrict.tokens_entries more hrest,
        Entries.entries?]
      cases StringPart.meaning? key with
      | none =>
          rfl
      | some k =>
          cases item.value? wide with
          | none =>
              rfl
          | some v =>
              cases hmore : more.entries? wide with
              | none =>
                  rfl
              | some es =>
                  obtain ⟨e, rest, rfl⟩ := Entries.exists_cons_of_entries? hmore
                  simp [tokensOfEntries, Function.comp_def]

end

theorem IsStrict.tokens_document (d : Document) :
    tokens wide (d.text l) = (d.node.value? wide).map tokensOf := by
  have hafter : tokens wide (l.gap d.after ++ []) = tokens wide [] := h.tokens_gap d.after []
  have hstop := h.stops_gap d.after (stops_nil _)
  rw [List.append_nil] at hafter hstop
  rw [Document.text, h.lastLine_eq_nil, List.append_nil, List.append_assoc, h.tokens_gap,
    h.tokens_node d.node hstop, hafter]
  cases d.node.value? wide with
  | none =>
      rfl
  | some v =>
      simp

omit h

end Layout

/-!
# Keys of a document
-/

mutual

theorem Node.hasTextKeys_of_value? {wide : Json.WideIntegers} (node : Node) {v : Value}
    (h : node.value? wide = some v) : hasTextKeys v = true := by
  match node with
  | .scalar s =>
      exact (tokensOf_scalar h).2
  | .emptyList inside | .emptyMapping inside =>
      cases h
      rfl
  | .list items =>
      obtain ⟨vs, hvs, rfl⟩ := Option.map_eq_some_iff.mp h
      exact Items.haveTextKeys_of_values? items hvs
  | .mapping entries =>
      obtain ⟨es, hes, rfl⟩ := Option.map_eq_some_iff.mp h
      exact Entries.haveTextKeys_of_entries? entries hes

theorem Items.haveTextKeys_of_values? {wide : Json.WideIntegers} (items : Items)
    {vs : List Value} (h : items.values? wide = some vs) : haveTextKeys vs = true := by
  match items with
  | .last before item after comma =>
      obtain ⟨v, hv, rfl⟩ := Option.map_eq_some_iff.mp h
      rw [haveTextKeys, Node.hasTextKeys_of_value? item hv]
      rfl
  | .more before item after more =>
      obtain ⟨v, hv, hmore⟩ := Option.bind_eq_some_iff.mp h
      obtain ⟨ws, hws, rfl⟩ := Option.map_eq_some_iff.mp hmore
      rw [haveTextKeys, Node.hasTextKeys_of_value? item hv, Items.haveTextKeys_of_values? more hws]
      rfl

theorem Entries.haveTextKeys_of_entries? {wide : Json.WideIntegers} (entries : Entries)
    {es : List (Value × Value)} (h : entries.entries? wide = some es) :
    haveTextKeysInside es = true := by
  match entries with
  | .last before key afterKey beforeItem item after comma =>
      obtain ⟨k, _, hitem⟩ := Option.bind_eq_some_iff.mp h
      obtain ⟨v, hv, rfl⟩ := Option.map_eq_some_iff.mp hitem
      rw [haveTextKeysInside, Node.hasTextKeys_of_value? item hv]
      rfl
  | .more before key afterKey beforeItem item after more =>
      obtain ⟨k, _, hitem⟩ := Option.bind_eq_some_iff.mp h
      obtain ⟨v, hv, hmore⟩ := Option.bind_eq_some_iff.mp hitem
      obtain ⟨fs, hfs, rfl⟩ := Option.map_eq_some_iff.mp hmore
      rw [haveTextKeysInside, Node.hasTextKeys_of_value? item hv,
        Entries.haveTextKeys_of_entries? more hfs]
      rfl

end

/-!
# Aliases of a document
-/

theorem toJson_full (d : Document) : toJson (d.text .full) = d.text Layout.bare.strict := by
  rw [toJson, Layout.full_losesRemarks.document, Layout.bare_hasBlanks.document]

theorem toJson_strict {l : Layout} (h : l.IsStrict) (d : Document) :
    toJson (d.text l) = d.text l := by
  rw [toJson, h.losesRemarks.document, h.document, h.strict_eq]

theorem json_parse_strict {l : Layout} (h : l.IsStrict) (wide : Json.WideIntegers)
    (d : Document) :
    Json.parse wide (d.text l) =
      (d.node.value? wide).bind fun v => Json.ofTokens? (tokensOf v) := by
  rw [Json.parse, h.tokens_document, Option.bind_map]
  rfl

/--
Remarks and superfluous commas do not count.  Without them a document is strict, and a strict
document is left as it is; the aliases are those of any document of the same value with nothing
but tokens, and hence those of the value itself.
-/
theorem parse_full (d : Document) :
    toJson (d.text .full) = d.text Layout.bare.strict ∧
      toJson (d.text Layout.bare.strict) = d.text Layout.bare.strict ∧
      (forall e : Document, e.node.value? .rounded = d.node.value? .rounded ->
        parse (String.ofList (d.text .full)) = parse (String.ofList (e.text .dense))) ∧
      forall entries, d.node.value? .rounded = some (.mapping entries) ->
        Json.depth (.mapping entries) ≤ Json.depthLimit ->
        parse (String.ofList (d.text .full)) =
          .ok (aliasesOf (Json.settled (.mapping entries))) := by
  have hstrict := Layout.bare_hasBlanks.isStrict
  have hfull : Json.parse .rounded (toJson (d.text .full)) =
      (d.node.value? .rounded).bind fun v => Json.ofTokens? (tokensOf v) := by
    rw [toJson_full, json_parse_strict hstrict]
  refine ⟨toJson_full d, toJson_strict hstrict d, ?_, ?_⟩
  · intro e hvalue
    have hdense : Json.parse .rounded (toJson (e.text .dense)) =
        (d.node.value? .rounded).bind fun v => Json.ofTokens? (tokensOf v) := by
      rw [toJson_strict Layout.dense_isStrict, json_parse_strict Layout.dense_isStrict, hvalue]
    rw [parse, parse, String.toList_ofList, String.toList_ofList, hfull, hdense]
  · intro entries hvalue hdepth
    have hkeys := d.node.hasTextKeys_of_value? hvalue
    rw [hvalue, Option.bind_some, Json.ofTokens?_tokensOf hkeys hdepth] at hfull
    rw [parse, String.toList_ofList, hfull]
    rfl

def asTheyAre (word : String) : List StringPart :=
  word.toList.filterMap fun c =>
    if h : c ≠ '"' ∧ c ≠ '\\' ∧ ¬ c.toNat < 0x20 then some (.plain c h.1 h.2.1 h.2.2) else none

def remarks : Gap :=
  [.block ['"', ',', ' ', ']', '/', '*'] (by decide), .line ['"', '}', '/', '/'] (by decide)]

def remarkedFile : Document :=
  { before := remarks
    node := .mapping (.last [] (asTheyAre "compilerOptions") [] remarks
      (.mapping (.last remarks (asTheyAre "paths") [] []
        (.mapping (.last [] (.short '"' '"' rfl :: asTheyAre "//,]/*") [] []
          (.list (.last [] (.scalar (.string (asTheyAre "./src/*"))) remarks (some remarks)))
          [] (some remarks))) [] none)) [] (some []))
    after := remarks
    lastLine := some ⟨['"'], by decide⟩ }

theorem parse_full_remarkedFile :
    let entries : List (Value × Value) :=
      [(.text "compilerOptions",
        .mapping [(.text "paths", .mapping [(.text "\"//,]/*", .list [.text "./src/*"])])])]
    remarkedFile.node.value? .rounded = some (.mapping entries) ∧
      Json.depth (.mapping entries) ≤ Json.depthLimit ∧
      toJson (remarkedFile.text .full) = remarkedFile.text Layout.bare.strict ∧
      toJson (remarkedFile.text Layout.bare.strict) = remarkedFile.text Layout.bare.strict ∧
      parse (String.ofList (remarkedFile.text .full)) =
        parse (String.ofList (remarkedFile.text .dense)) ∧
      parse (String.ofList (remarkedFile.text .full)) =
        .ok (aliasesOf (Json.settled (.mapping entries))) ∧
      aliasesOf (Json.settled (.mapping entries)) = { entries := [("\"//,]/", "src/")] } := by
  obtain ⟨htext, hstrict, hdense, haliases⟩ := parse_full remarkedFile
  exact ⟨rfl, by decide, htext, hstrict, hdense remarkedFile rfl, haliases _ rfl (by decide),
    by decide +kernel⟩

end Tsconfig
end Joinery
