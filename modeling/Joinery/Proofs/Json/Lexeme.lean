import Joinery.Json.Token
import Joinery.Proofs.Text.Reading

/-!
# Lexemes of JSON

## Strings and numbers as they are written

A string is a sequence of parts between quotes, and a number is made of a sign, its digits, a
fraction and a power of ten.  The reader takes such a lexeme as a whole, whatever follows it,
and what it reads is told by the lexeme alone.
-/

namespace Joinery

namespace Json

open Text

/-!
# Parts of a string
-/

/-- Four hexadecimal digits and the code that they spell. -/
structure HexCode where
  a : Char
  b : Char
  c : Char
  d : Char
  value : Nat
  spells : Numeral.valueIn? 16 [a, b, c, d] = some value

namespace HexCode

def digits (hex : HexCode) : List Char :=
  [hex.a, hex.b, hex.c, hex.d]

theorem isSome_digit?_of_foldlM {base start value : Nat} {ds : List Char}
    (h : ds.foldlM (fun value c =>
      (Numeral.digit? c).bind fun d => if d < base then some (base * value + d) else none) start =
        some value) {c : Char} (hc : c ∈ ds) : (Numeral.digit? c).isSome = true := by
  induction ds generalizing start with
  | nil =>
      cases hc
  | cons first ds ih =>
      rw [List.foldlM_cons] at h
      obtain ⟨next, hnext, hrest⟩ := Option.bind_eq_some_iff.mp h
      rcases List.mem_cons.mp hc with rfl | hc
      · obtain ⟨d, hd, _⟩ := Option.bind_eq_some_iff.mp hnext
        rw [hd]
        rfl
      · exact ih hrest hc

theorem isSome_digit? (hex : HexCode) {c : Char} (hc : c ∈ hex.digits) :
    (Numeral.digit? c).isSome = true :=
  isSome_digit?_of_foldlM hex.spells hc

end HexCode

/-- A part of a string: a character as it is, or one that is written after a backslash. -/
inductive StringPart where
  | plain (c : Char) (hquote : c ≠ '"') (hbackslash : c ≠ '\\') (hcontrol : ¬ c.toNat < 0x20)
  | short (letter c : Char) (hknown : escaped? letter = some c)
  | coded (hex : HexCode)

namespace StringPart

def text : StringPart -> List Char
  | .plain c _ _ _ => [c]
  | .short letter _ _ => ['\\', letter]
  | .coded hex => '\\' :: 'u' :: hex.digits

def textOf (parts : List StringPart) : List Char :=
  parts.flatMap text

@[simp]
theorem textOf_nil : textOf [] = [] :=
  rfl

@[simp]
theorem textOf_cons (part : StringPart) (parts : List StringPart) :
    textOf (part :: parts) = part.text ++ textOf parts :=
  rfl

/-- The text that parts stand for, unless a half of a surrogate pair stands alone. -/
def meaning? : List StringPart -> Option (List Char)
  | [] => some []
  | .plain c _ _ _ :: parts => (meaning? parts).map (c :: ·)
  | .short _ c _ :: parts => (meaning? parts).map (c :: ·)
  | .coded high :: .coded low :: parts =>
      match surrogatePair? high.value low.value with
      | some c => (meaning? parts).map (c :: ·)
      | none =>
          (basicChar? high.value).bind fun c => (meaning? (.coded low :: parts)).map (c :: ·)
  | .coded single :: parts =>
      (basicChar? single.value).bind fun c => (meaning? parts).map (c :: ·)

def BeginsNoCode (text : List Char) : Prop :=
  forall e f g h rest, text ≠ '\\' :: 'u' :: e :: f :: g :: h :: rest

theorem stringBody_plain {c : Char} (hquote : c ≠ '"') (hbackslash : c ≠ '\\')
    (hcontrol : ¬ c.toNat < 0x20) (rest : List Char) :
    stringBody (c :: rest) = (stringBody rest).map fun body => (c :: body.1, body.2) := by
  rw [stringBody]
  · rw [if_neg (by simp [hbackslash, hcontrol])]
  · exact hquote
  · rintro _ _ _ _ _ _ _ _ _ rfl
    exact absurd rfl hbackslash
  · rintro _ _ _ _ _ rfl
    exact absurd rfl hbackslash
  · rintro _ _ rfl
    exact absurd rfl hbackslash

theorem stringBody_short {letter c : Char} (hknown : escaped? letter = some c) (rest : List Char) :
    stringBody ('\\' :: letter :: rest) =
      (stringBody rest).map fun body => (c :: body.1, body.2) := by
  have hletter : letter ≠ 'u' := by
    rintro rfl
    cases hknown
  rw [stringBody]
  · rw [hknown]
  · intro _ _ _ _ _ _ _ _ _ h
    exact absurd h hletter
  · intro _ _ _ _ _ h
    exact absurd h hletter

theorem stringBody_coded (hex : HexCode) {rest : List Char} (hrest : BeginsNoCode rest) :
    stringBody ((StringPart.coded hex).text ++ rest) =
      (basicChar? hex.value).bind fun c =>
        (stringBody rest).map fun body => (c :: body.1, body.2) := by
  show stringBody ('\\' :: 'u' :: hex.a :: hex.b :: hex.c :: hex.d :: rest) = _
  rw [stringBody]
  · rw [hex.spells, Option.bind_some]
    cases basicChar? hex.value <;> rfl
  · intro e f g h after hafter
    exact absurd hafter (hrest e f g h after)

theorem stringBody_coded_coded (high low : HexCode) (rest : List Char) :
    stringBody ((StringPart.coded high).text ++ ((StringPart.coded low).text ++ rest)) =
      match surrogatePair? high.value low.value with
      | some c => (stringBody rest).map fun body => (c :: body.1, body.2)
      | none =>
          (basicChar? high.value).bind fun c =>
            (stringBody ((StringPart.coded low).text ++ rest)).map fun body =>
              (c :: body.1, body.2) := by
  show stringBody ('\\' :: 'u' :: high.a :: high.b :: high.c :: high.d ::
    '\\' :: 'u' :: low.a :: low.b :: low.c :: low.d :: rest) = _
  rw [stringBody]
  simp only [high.spells, low.spells]
  cases surrogatePair? high.value low.value <;> cases basicChar? high.value <;> rfl

theorem stringBody_textOf (parts : List StringPart) (rest : List Char) :
    stringBody (textOf parts ++ '"' :: rest) = (meaning? parts).map fun cs => (cs, rest) := by
  fun_induction meaning? parts with
  | case1 =>
      rfl
  | case2 c hquote hbackslash hcontrol parts ih =>
      show stringBody (c :: (textOf parts ++ '"' :: rest)) = _
      rw [stringBody_plain hquote hbackslash hcontrol, ih]
      simp [Function.comp_def]
  | case3 letter c hknown parts ih =>
      show stringBody ('\\' :: letter :: (textOf parts ++ '"' :: rest)) = _
      rw [stringBody_short hknown, ih]
      simp [Function.comp_def]
  | case4 high low parts c hpair ih =>
      rw [textOf_cons, textOf_cons, List.append_assoc, List.append_assoc,
        stringBody_coded_coded, hpair]
      simp only
      rw [ih]
      simp [Function.comp_def]
  | case5 high low parts hpair ih =>
      rw [textOf_cons, List.append_assoc] at ih
      rw [textOf_cons, textOf_cons, List.append_assoc, List.append_assoc,
        stringBody_coded_coded, hpair]
      simp only
      rw [ih]
      cases basicChar? high.value <;> simp [Function.comp_def]
  | case6 single parts hnext ih =>
      -- the code stands alone: no part that follows, and no closing quote, begins with another one
      have hends : BeginsNoCode (textOf parts ++ '"' :: rest) := by
        intro e f g h after
        match parts with
        | [] => simp
        | .plain c hquote hbackslash _ :: _ =>
            intro heq
            exact hbackslash (List.cons.inj heq).1
        | .short letter c hknown :: _ =>
            intro heq
            have hletter := (List.cons.inj (List.cons.inj heq).2).1
            subst hletter
            cases hknown
        | .coded low :: parts => exact absurd rfl (hnext low parts)
      rw [textOf_cons, List.append_assoc, stringBody_coded single hends, ih]
      cases basicChar? single.value <;> simp [Function.comp_def]

end StringPart

/-!
# Numbers
-/

def IsDigits (ds : List Char) : Prop :=
  ds ≠ [] ∧ ds.all Char.isDigit = true

/-- The digits before a point: a zero stands alone there. -/
def IsWhole (ds : List Char) : Prop :=
  ds = ['0'] ∨ (IsDigits ds ∧ ds.head? ≠ some '0')

def goesOn (c : Char) : Bool :=
  c.isDigit || c == '.' || c == 'e' || c == 'E'

theorem goesOn_of_isDigit {c : Char} (h : c.isDigit = true) : goesOn c = true := by
  simp [goesOn, h]

theorem goesOn_of_point {c : Char} (h : (c == '.') = true) : goesOn c = true := by
  simp [goesOn, h]

structure PowerOfTen where
  letter : Char
  sign : List Char
  digits : List Char
  hletter : letter = 'e' ∨ letter = 'E'
  hsign : sign = [] ∨ sign = ['+'] ∨ sign = ['-']
  hdigits : IsDigits digits

namespace PowerOfTen

def text (p : PowerOfTen) : List Char :=
  p.letter :: (p.sign ++ p.digits)

def exponent (p : PowerOfTen) : Int :=
  Numeral.signed (decide (p.sign = ['-'])) (Numeral.decimal p.digits)

end PowerOfTen

structure Number where
  negative : Bool
  whole : List Char
  fraction : Option (List Char)
  power : Option PowerOfTen
  hwhole : IsWhole whole
  hfraction : forall ds, fraction = some ds -> IsDigits ds

namespace Number

def fractionText (fraction : Option (List Char)) : List Char :=
  match fraction with
  | none => []
  | some ds => '.' :: ds

def powerText (power : Option PowerOfTen) : List Char :=
  match power with
  | none => []
  | some p => p.text

def text (n : Number) : List Char :=
  (if n.negative then ['-'] else []) ++ n.whole ++ fractionText n.fraction ++ powerText n.power

def value? (wide : WideIntegers) (n : Number) : Option Value :=
  if n.fraction.isNone && n.power.isNone then integer? wide n.negative (Numeral.decimal n.whole)
  else
    let part := n.fraction.getD []
    let read := Binary64.ofDecimal n.negative
      { digits := Numeral.decimal (n.whole ++ part)
        exponent := (n.power.map PowerOfTen.exponent).getD 0 - (part.length : Int) }
    if read.isFinite then some (.real read) else none

/-!
## Reading the parts of a number
-/

theorem isDigits_takeWhile {text : List Char} (h : (text.takeWhile Char.isDigit).isEmpty = false) :
    IsDigits (text.takeWhile Char.isDigit) := by
  refine ⟨List.isEmpty_eq_false_iff.mp h, ?_⟩
  exact List.all_eq_true.mpr fun c hc => List.mem_takeWhile_imp hc

theorem wholeDigits_append {whole rest : List Char} (h : IsWhole whole)
    (hrest : Stops Char.isDigit rest) : wholeDigits (whole ++ rest) = some (whole, rest) := by
  rcases h with rfl | ⟨⟨hne, hall⟩, hhead⟩
  · rfl
  · rw [wholeDigits]
    · simp only [takeWhile_stops hall hrest, dropWhile_stops hall hrest]
      rw [if_neg (by simpa using hne)]
    · intro after heq
      rw [<- List.head?_append_of_ne_nil _ hne, heq] at hhead
      exact hhead rfl

theorem eq_append_of_wholeDigits {text whole rest : List Char}
    (h : wholeDigits text = some (whole, rest)) : text = whole ++ rest ∧ IsWhole whole := by
  unfold wholeDigits at h
  split at h
  · cases h
    exact ⟨rfl, Or.inl rfl⟩
  · rename_i hzero
    dsimp only at h
    split at h
    · cases h
    · rename_i hdigits
      cases h
      have hsplit : text.takeWhile Char.isDigit ++ text.dropWhile Char.isDigit = text :=
        List.takeWhile_append_dropWhile
      refine ⟨hsplit.symm, Or.inr ⟨isDigits_takeWhile (by simpa using hdigits), ?_⟩⟩
      intro hhead
      obtain ⟨after, hafter⟩ := List.head?_eq_some_iff.mp hhead
      rw [hafter] at hsplit
      exact hzero _ hsplit.symm

theorem fractionDigits_append {fraction : Option (List Char)}
    (h : forall ds, fraction = some ds -> IsDigits ds) {rest : List Char}
    (hrest : Stops Char.isDigit rest) (hpoint : Stops (fun c => c == '.') rest) :
    fractionDigits (fractionText fraction ++ rest) = some (fraction, rest) := by
  cases fraction with
  | none =>
      rw [fractionText, List.nil_append, fractionDigits]
      rintro after rfl
      cases hpoint '.' rfl
  | some ds =>
      obtain ⟨hne, hall⟩ := h ds rfl
      rw [fractionText, List.cons_append, fractionDigits]
      simp only [takeWhile_stops hall hrest, dropWhile_stops hall hrest]
      rw [if_neg (by simpa using hne)]

theorem eq_append_of_fractionDigits {text rest : List Char} {fraction : Option (List Char)}
    (h : fractionDigits text = some (fraction, rest)) :
    text = fractionText fraction ++ rest ∧ forall ds, fraction = some ds -> IsDigits ds := by
  unfold fractionDigits at h
  split at h
  · rename_i after
    dsimp only at h
    split at h
    · cases h
    · rename_i hdigits
      cases h
      refine ⟨?_, ?_⟩
      · rw [fractionText, List.cons_append, List.takeWhile_append_dropWhile]
      · rintro ds ⟨⟩
        exact isDigits_takeWhile (by simpa using hdigits)
  · cases h
    exact ⟨rfl, fun _ h => by cases h⟩

theorem takeSign_append {sign digits : List Char}
    (hsign : sign = [] ∨ sign = ['+'] ∨ sign = ['-']) (hdigits : IsDigits digits)
    (rest : List Char) :
    Numeral.takeSign (sign ++ digits ++ rest) = (decide (sign = ['-']), digits ++ rest) := by
  obtain ⟨hne, hall⟩ := hdigits
  rcases hsign with rfl | rfl | rfl
  · cases digits with
    | nil =>
        exact absurd rfl hne
    | cons d digits =>
        have hd : d.isDigit = true := List.all_eq_true.mp hall d List.mem_cons_self
        rw [List.nil_append, List.cons_append, Numeral.takeSign]
        · rfl
        · rintro _ ⟨⟩
          cases hd
        · rintro _ ⟨⟩
          cases hd
  · rfl
  · rfl

theorem exists_sign (text : List Char) :
    exists sign, (sign = [] ∨ sign = ['+'] ∨ sign = ['-']) ∧
      text = sign ++ (Numeral.takeSign text).2 ∧
      (Numeral.takeSign text).1 = decide (sign = ['-']) := by
  unfold Numeral.takeSign
  split
  · exact ⟨['-'], by simp, rfl, rfl⟩
  · exact ⟨['+'], by simp, rfl, rfl⟩
  · exact ⟨[], by simp, rfl, rfl⟩

theorem exponentPart_letter {letter : Char} (h : letter = 'e' ∨ letter = 'E') (rest : List Char) :
    exponentPart (letter :: rest) =
      let signed := Numeral.takeSign rest
      let digits := signed.2.takeWhile Char.isDigit
      if digits.isEmpty then none
      else some (some (Numeral.signed signed.1 (Numeral.decimal digits)),
        signed.2.dropWhile Char.isDigit) := by
  rcases h with rfl | rfl <;> rfl

theorem exponentPart_append (power : Option PowerOfTen) {rest : List Char}
    (hrest : Stops goesOn rest) :
    exponentPart (powerText power ++ rest) = some (power.map PowerOfTen.exponent, rest) := by
  cases power with
  | none =>
      rw [powerText, List.nil_append, exponentPart]
      · rfl
      · rintro after rfl
        cases hrest 'e' rfl
      · rintro after rfl
        cases hrest 'E' rfl
  | some p =>
      have hdigit := hrest.mono fun _ => goesOn_of_isDigit
      obtain ⟨hne, hall⟩ := p.hdigits
      rw [powerText, PowerOfTen.text, List.cons_append, exponentPart_letter p.hletter,
        takeSign_append p.hsign p.hdigits]
      simp only [takeWhile_stops hall hdigit, dropWhile_stops hall hdigit]
      rw [if_neg (by simpa using hne)]
      rfl

theorem eq_append_of_exponentPart {text rest : List Char} {exponent : Option Int}
    (h : exponentPart text = some (exponent, rest)) :
    exists power : Option PowerOfTen,
      text = powerText power ++ rest ∧ exponent = power.map PowerOfTen.exponent := by
  by_cases hpower : exists letter after, (letter = 'e' ∨ letter = 'E') ∧ text = letter :: after
  · obtain ⟨letter, after, hletter, rfl⟩ := hpower
    rw [exponentPart_letter hletter] at h
    obtain ⟨sign, hsign, hafter, hnegative⟩ := exists_sign after
    dsimp only at h
    split at h
    · cases h
    · rename_i hdigits
      cases h
      refine ⟨some
        { letter := letter
          sign := sign
          digits := (Numeral.takeSign after).2.takeWhile Char.isDigit
          hletter := hletter
          hsign := hsign
          hdigits := isDigits_takeWhile (by simpa using hdigits) }, ?_, ?_⟩
      · rw [powerText, PowerOfTen.text, List.cons_append, List.append_assoc,
          List.takeWhile_append_dropWhile, <- hafter]
      · rw [hnegative]
        rfl
  · refine ⟨none, ?_⟩
    rw [exponentPart] at h
    · cases h
      exact ⟨rfl, rfl⟩
    · rintro after rfl
      exact hpower ⟨'e', after, Or.inl rfl, rfl⟩
    · rintro after rfl
      exact hpower ⟨'E', after, Or.inr rfl, rfl⟩

/-!
## Reading a number
-/

theorem head?_whole {whole : List Char} (h : IsWhole whole) :
    exists d, whole.head? = some d ∧ d.isDigit = true := by
  rcases h with rfl | ⟨⟨hne, hall⟩, _⟩
  · exact ⟨'0', rfl, rfl⟩
  · cases whole with
    | nil =>
        exact absurd rfl hne
    | cons d whole =>
        exact ⟨d, rfl, List.all_eq_true.mp hall d List.mem_cons_self⟩

theorem stops_fraction (fraction : Option (List Char)) {rest : List Char}
    (h : Stops Char.isDigit rest) : Stops Char.isDigit (fractionText fraction ++ rest) := by
  cases fraction with
  | none =>
      exact h
  | some ds =>
      exact stops_cons rfl _

theorem stops_power {p : Char -> Bool} (hp : p 'e' = false ∧ p 'E' = false)
    (power : Option PowerOfTen) {rest : List Char} (h : Stops p rest) :
    Stops p (powerText power ++ rest) := by
  cases power with
  | none =>
      exact h
  | some power =>
      refine stops_cons ?_ _
      rcases power.hletter with hletter | hletter
      · rw [hletter]
        exact hp.1
      · rw [hletter]
        exact hp.2

theorem number_text (wide : WideIntegers) (n : Number) {rest : List Char}
    (hrest : Stops goesOn rest) :
    number wide (n.text ++ rest) = (n.value? wide).map fun v => (v, rest) := by
  let afterWhole := fractionText n.fraction ++ (powerText n.power ++ rest)
  obtain ⟨d, hd, hdigit⟩ := head?_whole n.hwhole
  obtain ⟨tail, hwhole⟩ := List.head?_eq_some_iff.mp hd
  have htext : n.text ++ rest = (if n.negative then ['-'] else []) ++ (n.whole ++ afterWhole) := by
    simp [text, afterWhole]
  have hnegative : ((n.text ++ rest).head? == some '-') = n.negative := by
    rw [htext, hwhole]
    cases n.negative with
    | true =>
        rfl
    | false =>
        show (d == '-') = false
        rw [beq_eq_false_iff_ne]
        rintro rfl
        cases hdigit
  have hunsigned : (if n.negative then (n.text ++ rest).drop 1 else n.text ++ rest) =
      n.whole ++ afterWhole := by
    rw [htext]
    cases n.negative <;> rfl
  have hdigits := hrest.mono fun _ => goesOn_of_isDigit
  have hpoint := hrest.mono fun _ => goesOn_of_point
  rw [number]
  simp only [hnegative, hunsigned, afterWhole]
  rw [wholeDigits_append n.hwhole (stops_fraction _ (stops_power ⟨rfl, rfl⟩ _ hdigits))]
  simp only
  rw [fractionDigits_append n.hfraction (stops_power ⟨rfl, rfl⟩ _ hdigits)
    (stops_power ⟨rfl, rfl⟩ _ hpoint)]
  simp only
  rw [exponentPart_append n.power hrest]
  simp only [value?, Option.isNone_map]
  split
  · rfl
  · split <;> rfl

theorem exists_of_number {wide : WideIntegers} {text rest : List Char} {v : Value}
    (h : number wide text = some (v, rest)) :
    exists n : Number, text = n.text ++ rest ∧ n.value? wide = some v := by
  let negative := text.head? == some '-'
  have hsign : text = (if negative then ['-'] else []) ++
      (if negative then text.drop 1 else text) := by
    cases hnegative : negative with
    | false =>
        rfl
    | true =>
        obtain ⟨after, rfl⟩ := List.head?_eq_some_iff.mp (beq_iff_eq.mp hnegative)
        rfl
  unfold number at h
  dsimp only at h
  split at h
  · cases h
  · rename_i whole afterWhole hwholeRead
    obtain ⟨hunsigned, hwhole⟩ := eq_append_of_wholeDigits hwholeRead
    split at h
    · cases h
    · rename_i fraction afterFraction hfractionRead
      obtain ⟨rfl, hfraction⟩ := eq_append_of_fractionDigits hfractionRead
      split at h
      · cases h
      · rename_i exponent after hexponentRead
        obtain ⟨power, rfl, rfl⟩ := eq_append_of_exponentPart hexponentRead
        let n : Number :=
          { negative := negative
            whole := whole
            fraction := fraction
            power := power
            hwhole := hwhole
            hfraction := hfraction }
        have htext : text = n.text ++ after := by
          rw [hsign, hunsigned]
          simp [n, Number.text]
        cases hplain : fraction.isNone && power.isNone with
        | true =>
            rw [Option.isNone_map, hplain, if_pos rfl] at h
            obtain ⟨value, hvalue, heq⟩ := Option.map_eq_some_iff.mp h
            cases heq
            refine ⟨n, htext, ?_⟩
            rw [value?, if_pos hplain]
            exact hvalue
        | false =>
            rw [Option.isNone_map, hplain, if_neg Bool.false_ne_true] at h
            split at h
            · rename_i hfinite
              cases h
              refine ⟨n, htext, ?_⟩
              rw [value?, if_neg (by rw [hplain]; exact Bool.false_ne_true)]
              exact if_pos hfinite
            · cases h

theorem eq_of_value? {wide : WideIntegers} {n : Number} {v : Value}
    (h : n.value? wide = some v) : (exists i, v = .int i) ∨ exists x, v = .real x := by
  unfold value? integer? at h
  dsimp only at h
  split at h
  · split at h
    · cases h
      exact Or.inl ⟨_, rfl⟩
    · split at h
      · cases h
        exact Or.inr ⟨_, rfl⟩
      · cases h
  · split at h
    · cases h
      exact Or.inr ⟨_, rfl⟩
    · cases h

/-!
## The characters of a number
-/

theorem isDigits_char {ds : List Char} (h : IsDigits ds) {c : Char} (hc : c ∈ ds) :
    goesOn c = true :=
  goesOn_of_isDigit (List.all_eq_true.mp h.2 c hc)

theorem whole_char {whole : List Char} (h : IsWhole whole) {c : Char} (hc : c ∈ whole) :
    goesOn c = true := by
  rcases h with rfl | ⟨hdigits, _⟩
  · rw [List.mem_singleton.mp hc]
    rfl
  · exact isDigits_char hdigits hc

theorem power_char (p : PowerOfTen) {c : Char} (hc : c ∈ p.text) :
    goesOn c = true ∨ c = '-' ∨ c = '+' := by
  rcases List.mem_cons.mp hc with rfl | hc
  · rcases p.hletter with hletter | hletter
    · exact Or.inl (by rw [hletter]; rfl)
    · exact Or.inl (by rw [hletter]; rfl)
  · rcases List.mem_append.mp hc with hc | hc
    · rcases p.hsign with hsign | hsign | hsign
      · rw [hsign] at hc
        cases hc
      · rw [hsign] at hc
        exact Or.inr (Or.inr (List.mem_singleton.mp hc))
      · rw [hsign] at hc
        exact Or.inr (Or.inl (List.mem_singleton.mp hc))
    · exact Or.inl (isDigits_char p.hdigits hc)

theorem text_char (n : Number) {c : Char} (hc : c ∈ n.text) :
    goesOn c = true ∨ c = '-' ∨ c = '+' := by
  simp only [text, List.mem_append] at hc
  rcases hc with ((hc | hc) | hc) | hc
  · cases hnegative : n.negative with
    | false =>
        rw [hnegative] at hc
        cases hc
    | true =>
        rw [hnegative] at hc
        exact Or.inr (Or.inl (List.mem_singleton.mp hc))
  · exact Or.inl (whole_char n.hwhole hc)
  · cases hfraction : n.fraction with
    | none =>
        rw [hfraction] at hc
        cases hc
    | some ds =>
        rw [hfraction] at hc
        rcases List.mem_cons.mp hc with rfl | hc
        · exact Or.inl rfl
        · exact Or.inl (isDigits_char (n.hfraction ds hfraction) hc)
  · cases hpower : n.power with
    | none =>
        rw [hpower] at hc
        cases hc
    | some p =>
        rw [hpower] at hc
        exact power_char p hc

theorem exists_head_text (n : Number) :
    exists c rest, n.text = c :: rest ∧ (c = '-' ∨ c.isDigit = true) := by
  obtain ⟨d, hd, hdigit⟩ := head?_whole n.hwhole
  obtain ⟨tail, hwhole⟩ := List.head?_eq_some_iff.mp hd
  cases hnegative : n.negative with
  | false =>
      refine ⟨d, tail ++ (fractionText n.fraction ++ powerText n.power), ?_, Or.inr hdigit⟩
      simp [text, hnegative, hwhole]
  | true =>
      refine ⟨'-', n.whole ++ (fractionText n.fraction ++ powerText n.power), ?_, Or.inl rfl⟩
      simp [text, hnegative]

end Number

/-!
# Scalars
-/

theorem isBlank_of_isSpace {c : Char} (h : isSpace c = true) : isBlank c = true := by
  simp only [isSpace, Bool.or_eq_true, beq_iff_eq] at h
  rcases h with ((rfl | rfl) | rfl) | rfl <;> decide

theorem isBlank_of_isDigit {c : Char} (h : c.isDigit = true) : isBlank c = false := by
  simp only [Char.isDigit, Bool.and_eq_true, decide_eq_true_eq, UInt32.le_iff_toNat_le] at h
  have hlow : 48 ≤ c.toNat := h.1
  have hhigh : c.toNat ≤ 57 := h.2
  simp only [isBlank, Bool.or_eq_false_iff, Bool.and_eq_false_iff, decide_eq_false_iff_not,
    beq_eq_false_iff_ne]
  omega

inductive Scalar where
  | null
  | bool (value : Bool)
  | number (n : Number)
  | string (parts : List StringPart)

def quoted (parts : List StringPart) : List Char :=
  '"' :: (StringPart.textOf parts ++ ['"'])

namespace Scalar

def text : Scalar -> List Char
  | .null => "null".toList
  | .bool true => "true".toList
  | .bool false => "false".toList
  | .number n => n.text
  | .string parts => quoted parts

def value? (wide : WideIntegers) : Scalar -> Option Value
  | .null => some .null
  | .bool value => some (.bool value)
  | .number n => n.value? wide
  | .string parts => (StringPart.meaning? parts).map fun cs => .text (String.ofList cs)

theorem exists_head_text (s : Scalar) :
    exists c rest, s.text = c :: rest ∧ isBlank c = false ∧ c ≠ '}' ∧ c ≠ ']' := by
  cases s with
  | null =>
      exact ⟨'n', _, rfl, by decide⟩
  | bool value =>
      cases value with
      | true =>
          exact ⟨'t', _, rfl, by decide⟩
      | false =>
          exact ⟨'f', _, rfl, by decide⟩
  | number n =>
      obtain ⟨c, rest, htext, rfl | hdigit⟩ := n.exists_head_text
      · exact ⟨'-', rest, htext, by decide⟩
      · refine ⟨c, rest, htext, isBlank_of_isDigit hdigit, ?_, ?_⟩
        · rintro rfl
          cases hdigit
        · rintro rfl
          cases hdigit
  | string parts =>
      exact ⟨'"', _, rfl, by decide⟩

theorem token_quoted (wide : WideIntegers) (parts : List StringPart) (rest : List Char) :
    token wide (quoted parts ++ rest) =
      (StringPart.meaning? parts).map fun cs => (.scalar (.text (String.ofList cs)), rest) := by
  rw [quoted, List.cons_append, List.append_assoc, List.singleton_append, token,
    StringPart.stringBody_textOf, Option.map_map]
  rfl

theorem token_number (wide : WideIntegers) (n : Number) {rest : List Char}
    (hrest : Stops goesOn rest) :
    token wide (n.text ++ rest) = (n.value? wide).map fun v => (.scalar v, rest) := by
  have hread := Number.number_text wide n hrest
  obtain ⟨c, tail, htext, hc⟩ := n.exists_head_text
  rw [htext, List.cons_append] at hread ⊢
  rw [token]
  · rw [hread, Option.map_map]
    rfl
  all_goals
    intro after heq
    rw [(List.cons.inj heq).1] at hc
    revert hc
    decide

theorem token_text (wide : WideIntegers) (s : Scalar) {rest : List Char}
    (hrest : Stops goesOn rest) :
    token wide (s.text ++ rest) = (s.value? wide).map fun v => (.scalar v, rest) := by
  cases s with
  | null =>
      rfl
  | bool value =>
      cases value <;> rfl
  | number n =>
      exact token_number wide n hrest
  | string parts =>
      rw [text, token_quoted, value?, Option.map_map]
      rfl

end Scalar

end Json
end Joinery
