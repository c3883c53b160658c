import Joinery.Proofs.Json.Plain
import Joinery.Proofs.Json.Tokens

/-!
# Reading what was written

## The printer's texts as tokens

Every text is written as a string of this text, whatever characters it holds, and every integer
as its digits.  The lines of a value are then its tokens with blanks between them, and the
reader gives the value back.
-/

namespace Joinery
namespace Json

open Text

/-!
# Strings
-/

namespace StringPart

/-- The code of a control character in four digits. -/
def hexOf (n : Nat) (h : n < 0x20) : HexCode :=
  { a := '0'
    b := '0'
    c := hexLetter (n / 16)
    d := hexLetter (n % 16)
    value := n
    spells := by
      revert n
      decide }

theorem basicChar?_toNat {c : Char} (h : c.toNat < 0x20) : basicChar? c.toNat = some c := by
  rw [basicChar?, if_neg (by simp; omega), Char.ofNat_toNat]

theorem surrogatePair?_of_lt {high : Nat} (h : high < 0xD800) (low : Nat) :
    surrogatePair? high low = none := by
  rw [surrogatePair?, if_neg (by simp; omega)]

theorem meaning?_coded {hex : HexCode} (hlow : hex.value < 0xD800) {c : Char}
    (hc : basicChar? hex.value = some c) (parts : List StringPart) :
    meaning? (.coded hex :: parts) = (meaning? parts).map (c :: ·) := by
  have hstep : meaning? (.coded hex :: parts) =
      (basicChar? hex.value).bind fun c => (meaning? parts).map (c :: ·) := by
    match parts with
    | [] | .plain _ _ _ _ :: _ | .short _ _ _ :: _ =>
        rfl
    | .coded low :: parts =>
        rw [meaning?, surrogatePair?_of_lt hlow]
  rw [hstep, hc, Option.bind_some]

theorem exists_part_writeChar (c : Char) :
    exists part : StringPart, part.text = writeChar c ∧
      forall parts, meaning? (part :: parts) = (meaning? parts).map (c :: ·) := by
  unfold writeChar
  split
  · subst c
    exact ⟨.short '"' '"' rfl, rfl, fun _ => rfl⟩
  split
  · subst c
    exact ⟨.short '\\' '\\' rfl, rfl, fun _ => rfl⟩
  split
  · subst c
    exact ⟨.short 'b' '\x08' rfl, rfl, fun _ => rfl⟩
  split
  · subst c
    exact ⟨.short 'f' '\x0c' rfl, rfl, fun _ => rfl⟩
  split
  · subst c
    exact ⟨.short 'n' '\n' rfl, rfl, fun _ => rfl⟩
  split
  · subst c
    exact ⟨.short 'r' '\r' rfl, rfl, fun _ => rfl⟩
  split
  · subst c
    exact ⟨.short 't' '\t' rfl, rfl, fun _ => rfl⟩
  split
  · rename_i hcontrol
    have hlow : (hexOf c.toNat hcontrol).value < 0xD800 := Nat.lt_trans hcontrol (by decide)
    exact ⟨.coded (hexOf c.toNat hcontrol), rfl,
      meaning?_coded hlow (basicChar?_toNat hcontrol)⟩
  · rename_i hquote hbackslash _ _ _ _ _ hcontrol
    exact ⟨.plain c hquote hbackslash hcontrol, rfl, fun _ => rfl⟩

theorem exists_parts_writeText (text : List Char) :
    exists parts, textOf parts = text.flatMap writeChar ∧ meaning? parts = some text := by
  induction text with
  | nil =>
      exact ⟨[], rfl, rfl⟩
  | cons c text ih =>
      obtain ⟨parts, htext, hmeaning⟩ := ih
      obtain ⟨part, hpart, hmeans⟩ := exists_part_writeChar c
      refine ⟨part :: parts, ?_, ?_⟩
      · rw [textOf_cons, hpart, htext, List.flatMap_cons]
      · rw [hmeans, hmeaning]
        rfl

end StringPart

theorem toList_writeText (text : String) :
    (writeText text).toList = '"' :: (text.toList.flatMap writeChar ++ ['"']) := by
  simp [writeText, String.toList_append]

variable {wide : WideIntegers}

theorem tokens_writeText (text : String) {rest : List Char} (hrest : Stops goesOn rest) :
    tokens wide ((writeText text).toList ++ rest) =
      (tokens wide rest).map (.scalar (.text text) :: ·) := by
  obtain ⟨parts, htext, hmeaning⟩ := StringPart.exists_parts_writeText text.toList
  have hread := tokens_scalar wide (.string parts) hrest
  rw [Scalar.text, quoted, htext, <- toList_writeText, Scalar.value?, hmeaning, Option.map_some,
    Option.bind_some, String.ofList_toList] at hread
  exact hread

/-!
# Integers
-/

theorem head?_toDigits {n : Nat} (h : 0 < n) : (Nat.toDigits 10 n).head? ≠ some '0' := by
  induction n using Nat.strongRecOn with
  | ind n ih =>
      by_cases hsmall : n < 10
      · have hdigit : forall d, d < 10 -> 0 < d -> [d.digitChar].head? ≠ some '0' := by
          decide
        rw [Nat.toDigits_of_lt_base hsmall]
        exact hdigit n hsmall h
      · have hsplit : 10 * (n / 10) + n % 10 = n := Nat.div_add_mod n 10
        have hfront : 0 < n / 10 := by omega
        have hlast : n % 10 < 10 := Nat.mod_lt n (by decide)
        rw [<- hsplit, <- Nat.toDigits_append_toDigits (by decide) hfront hlast,
          List.head?_append_of_ne_nil _ Nat.toDigits_ne_nil]
        exact ih (n / 10) (by omega) hfront

theorem isWhole_toDigits (n : Nat) : IsWhole (Nat.toDigits 10 n) := by
  rcases Nat.eq_zero_or_pos n with rfl | hpos
  · exact Or.inl rfl
  · refine Or.inr ⟨⟨Nat.toDigits_ne_nil, List.all_eq_true.mpr ?_⟩, head?_toDigits hpos⟩
    intro c hc
    exact Nat.isDigit_of_mem_toDigits (by decide) (by decide) hc

def numberOf (i : Int) : Number :=
  { negative := decide (i < 0)
    whole := Nat.toDigits 10 i.natAbs
    fraction := none
    power := none
    hwhole := isWhole_toDigits i.natAbs
    hfraction := fun _ h => by cases h }

theorem text_numberOf (i : Int) : (numberOf i).text = (toString i).toList := by
  rw [Int.toString_eq_repr, Int.repr_eq_if]
  by_cases h : 0 ≤ i
  · have hnegative : decide (i < 0) = false := decide_eq_false (by omega)
    have hnat : i.natAbs = i.toNat := by omega
    rw [if_pos h, Nat.repr_eq_ofList_toDigits, String.toList_ofList]
    simp [Number.text, numberOf, hnegative, hnat, Number.fractionText, Number.powerText]
  · have hnegative : decide (i < 0) = true := decide_eq_true (by omega)
    have hnat : i.natAbs = (-i).toNat := by omega
    rw [if_neg h, Nat.repr_eq_ofList_toDigits, String.toList_append, String.toList_ofList]
    simp [Number.text, numberOf, hnegative, hnat, Number.fractionText, Number.powerText]

theorem value?_numberOf {i : Int} (h : Numeral.fits i = true) :
    (numberOf i).value? wide = some (.int i) := by
  have hdecimal : Numeral.decimal (Nat.toDigits 10 i.natAbs) = i.natAbs :=
    Nat.ofDigitChars_toDigits (by decide) (by decide)
  have hsigned : Numeral.signed (decide (i < 0)) i.natAbs = i := by
    unfold Numeral.signed
    split
    · rename_i hnegative
      have hlt := of_decide_eq_true hnegative
      omega
    · rename_i hpositive
      have hnot : ¬ i < 0 := by simpa using hpositive
      omega
  show integer? wide (decide (i < 0)) (Numeral.decimal (Nat.toDigits 10 i.natAbs)) = _
  rw [hdecimal, integer?, hsigned, h, Bool.or_true]
  rfl

theorem tokens_toString {i : Int} (h : Numeral.fits i = true) {rest : List Char}
    (hrest : Stops goesOn rest) :
    tokens wide ((toString i).toList ++ rest) = (tokens wide rest).map (.scalar (.int i) :: ·) := by
  have hread := tokens_scalar wide (.number (numberOf i)) hrest
  rw [Scalar.text, text_numberOf, Scalar.value?, value?_numberOf h, Option.bind_some] at hread
  exact hread

/-!
# Values
-/

/-- The tokens of a value as the printer writes it at some depth. -/
def ReadsAs (wide : WideIntegers) (v : Value) : Prop :=
  forall (level : Nat) (rest : List Char), Stops goesOn rest ->
    tokens wide ((indented level v).toList ++ rest) = (tokens wide rest).map (tokensOf v ++ ·)

theorem tokens_newLine (level : Nat) (rest : List Char) :
    tokens wide ((newLine level).toList ++ rest) = tokens wide rest := by
  refine tokens_spaces ?_ rest
  rw [newLine, String.toList_ofList, List.all_cons, List.all_replicate]
  simp [isSpace]

theorem stops_newLine (level : Nat) (rest : List Char) :
    Stops goesOn ((newLine level).toList ++ rest) := by
  rw [newLine, String.toList_ofList]
  exact stops_cons rfl _

theorem tokens_real {x : Binary64} (h : ReadsBack wide x) {rest : List Char}
    (hrest : Stops goesOn rest) :
    tokens wide ((writeScalar (.real x)).toList ++ rest) =
      (tokens wide rest).map (.scalar (.real x) :: ·) := by
  cases x with
  | infinite negative =>
      cases negative <;> cases h
  | undefined =>
      cases h
  | finite negative significand exponent =>
      obtain ⟨n, htext, hvalue⟩ := Number.exists_of_number h
      rw [List.append_nil] at htext
      have hread := tokens_scalar wide (.number n) hrest
      rw [Scalar.text, <- htext, Scalar.value?, hvalue, Option.bind_some] at hread
      exact hread

theorem tokens_indentedItems {items : List Value} (hne : items ≠ [])
    (hitems : forall v, v ∈ items -> ReadsAs wide v) (level : Nat) {rest : List Char}
    (hrest : Stops goesOn rest) :
    tokens wide ((indentedItems level items).toList ++ rest) =
      (tokens wide rest).map (tokensOfItems items ++ ·) := by
  induction items with
  | nil =>
      exact absurd rfl hne
  | cons v items ih =>
      have hv := hitems v List.mem_cons_self level
      cases items with
      | nil =>
          rw [indentedItems, String.toList_append, List.append_assoc, tokens_newLine, hv _ hrest]
          rfl
      | cons w items =>
          have hmore := ih (List.cons_ne_nil _ _) fun u hu => hitems u (List.mem_cons_of_mem _ hu)
          have hcomma : (",".toList ++ ((indentedItems level (w :: items)).toList ++ rest)) =
            ',' :: ((indentedItems level (w :: items)).toList ++ rest) := rfl
          rw [indentedItems, String.toList_append, String.toList_append, String.toList_append,
            List.append_assoc, List.append_assoc, List.append_assoc, tokens_newLine, hcomma,
            hv _ (stops_cons rfl _), tokens_mark (t := .comma) (fun _ => rfl) rfl, hmore]
          simp [tokensOfItems, Function.comp_def]

theorem tokens_indentedEntries {entries : List (Value × Value)} (hne : entries ≠ [])
    (hkeys : forall e, e ∈ entries -> exists key, e.1 = .text key)
    (hvalues : forall e, e ∈ entries -> ReadsAs wide e.2) (level : Nat) {rest : List Char}
    (hrest : Stops goesOn rest) :
    tokens wide ((indentedEntries level entries).toList ++ rest) =
      (tokens wide rest).map (tokensOfEntries entries ++ ·) := by
  induction entries with
  | nil =>
      exact absurd rfl hne
  | cons e entries ih =>
      obtain ⟨k, v⟩ := e
      obtain ⟨key, rfl⟩ := hkeys (k, v) List.mem_cons_self
      have hv := hvalues (.text key, v) List.mem_cons_self level
      have hcolon : forall after : List Char, ": ".toList ++ after = ':' :: ([' '] ++ after) :=
        fun _ => rfl
      cases entries with
      | nil =>
          rw [indentedEntries, keyText, String.toList_append, String.toList_append,
            String.toList_append, List.append_assoc, List.append_assoc, List.append_assoc,
            tokens_newLine, hcolon, tokens_writeText key (stops_cons rfl _),
            tokens_mark (t := .colon) (fun _ => rfl) rfl, tokens_spaces (by decide), hv _ hrest]
          simp [tokensOfEntries, Function.comp_def]
      | cons f entries =>
          have hmore := ih (List.cons_ne_nil _ _) (fun g hg => hkeys g (List.mem_cons_of_mem _ hg))
            fun g hg => hvalues g (List.mem_cons_of_mem _ hg)
          have hcomma : (",".toList ++ ((indentedEntries level (f :: entries)).toList ++ rest)) =
            ',' :: ((indentedEntries level (f :: entries)).toList ++ rest) := rfl
          rw [indentedEntries, keyText, String.toList_append, String.toList_append,
            String.toList_append, String.toList_append, String.toList_append, List.append_assoc,
            List.append_assoc, List.append_assoc, List.append_assoc, List.append_assoc,
            tokens_newLine, hcolon, tokens_writeText key (stops_cons rfl _),
            tokens_mark (t := .colon) (fun _ => rfl) rfl, tokens_spaces (by decide), hcomma,
            hv _ (stops_cons rfl _), tokens_mark (t := .comma) (fun _ => rfl) rfl, hmore]
          simp [tokensOfEntries, Function.comp_def]

theorem readsAs_scalar {v : Value} (hindented : forall level, indented level v = writeScalar v)
    (htokens : tokensOf v = [.scalar v])
    (h : forall rest, Stops goesOn rest ->
      tokens wide ((writeScalar v).toList ++ rest) = (tokens wide rest).map (.scalar v :: ·)) :
    ReadsAs wide v := by
  intro level rest hrest
  rw [hindented, htokens, h rest hrest]
  rfl

theorem readsAs_list {items : List Value} (hitems : forall v, v ∈ items -> ReadsAs wide v) :
    ReadsAs wide (.list items) := by
  intro level rest hrest
  have hopen : forall after : List Char, "[".toList ++ after = '[' :: after := fun _ => rfl
  have hclose : "]".toList ++ rest = ']' :: rest := rfl
  cases items with
  | nil =>
      have hempty : "[]".toList ++ rest = '[' :: ']' :: rest := rfl
      rw [indented, indentedList, List.isEmpty_nil, if_pos rfl, hempty,
        tokens_mark (t := .listOpen) (fun _ => rfl) rfl,
        tokens_mark (t := .listClose) (fun _ => rfl) rfl, Option.map_map]
      rfl
  | cons v items =>
      rw [indented, indentedList, if_neg (by simp), String.toList_append, String.toList_append,
        String.toList_append, List.append_assoc, List.append_assoc, List.append_assoc, hopen,
        tokens_mark (t := .listOpen) (fun _ => rfl) rfl,
        tokens_indentedItems (List.cons_ne_nil _ _) hitems _ (stops_newLine _ _), tokens_newLine,
        hclose, tokens_mark (t := .listClose) (fun _ => rfl) rfl]
      simp [tokensOf, Function.comp_def]

theorem readsAs_mapping {entries : List (Value × Value)}
    (hkeys : forall e, e ∈ entries -> exists key, e.1 = .text key)
    (hvalues : forall e, e ∈ entries -> ReadsAs wide e.2) : ReadsAs wide (.mapping entries) := by
  intro level rest hrest
  have hopen : forall after : List Char, "\x7b".toList ++ after = '{' :: after := fun _ => rfl
  have hclose : "\x7d".toList ++ rest = '}' :: rest := rfl
  cases entries with
  | nil =>
      have hempty : "\x7b\x7d".toList ++ rest = '{' :: '}' :: rest := rfl
      rw [indented, List.isEmpty_nil, if_pos rfl, hempty,
        tokens_mark (t := .mappingOpen) (fun _ => rfl) rfl,
        tokens_mark (t := .mappingClose) (fun _ => rfl) rfl, Option.map_map]
      rfl
  | cons e entries =>
      rw [indented, if_neg (by simp), String.toList_append, String.toList_append,
        String.toList_append, List.append_assoc, List.append_assoc, List.append_assoc, hopen,
        tokens_mark (t := .mappingOpen) (fun _ => rfl) rfl,
        tokens_indentedEntries (List.cons_ne_nil _ _) hkeys hvalues _ (stops_newLine _ _),
        tokens_newLine, hclose, tokens_mark (t := .mappingClose) (fun _ => rfl) rfl]
      simp [tokensOf, Function.comp_def]

theorem IsPlain.readsAs {n : Nat} {v : Value} (h : IsPlain wide n v) : ReadsAs wide v := by
  induction h with
  | null =>
      refine readsAs_scalar (fun _ => by simp [indented]) rfl fun rest hrest => ?_
      exact tokens_scalar wide .null hrest
  | bool value =>
      refine readsAs_scalar (fun _ => by simp [indented]) rfl fun rest hrest => ?_
      have hread := tokens_scalar wide (.bool value) hrest
      cases value <;> exact hread
  | int hfits =>
      exact readsAs_scalar (fun _ => by simp [indented]) rfl fun _ => tokens_toString hfits
  | real hreads =>
      exact readsAs_scalar (fun _ => by simp [indented]) rfl fun _ => tokens_real hreads
  | text s =>
      exact readsAs_scalar (fun _ => by simp [indented]) rfl fun _ => tokens_writeText s
  | list hitems ih =>
      exact readsAs_list ih
  | mapping hkeys hdistinct hvalues ih =>
      exact readsAs_mapping hkeys ih

theorem IsPlain.parse_indented {n : Nat} {v : Value} (h : IsPlain wide n v) (hn : n ≤ depthLimit)
    (level : Nat) : parse wide (indented level v).toList = some v := by
  have htokens := h.readsAs level [] (stops_nil _)
  rw [List.append_nil, tokens_nil, Option.map_some, List.append_nil] at htokens
  rw [parse, htokens, Option.bind_some,
    ofTokens?_tokensOf h.hasTextKeys (Nat.le_trans h.depth_le hn), h.settled_eq]

end Json
end Joinery
