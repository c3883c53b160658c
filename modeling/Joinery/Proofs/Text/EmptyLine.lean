import Joinery.Proofs.Text.Finding
import Mathlib.Data.List.Forall2

/-!
# Matching around an empty line

## One line end more

Where a line ends, one more line end makes an empty line.  A matcher that reads line ends
only in stretches of characters answers the same on both sides of it, and what is found
stays found, one line further down if it begins behind the empty line.
-/

namespace Joinery
namespace Text

/-- The same text, or the text with one of its line ends written twice. -/
def Doubled (text wide : List Char) : Prop :=
  wide = text ∨ exists before after,
    text = before ++ '\n' :: after ∧ wide = before ++ '\n' :: '\n' :: after

/--
The same place in a text and in the text with an empty line before this rest; a place behind the
empty line has one line end more behind it, where a line begins.
-/
inductive Widened (rest : List Char) : Cursor -> Cursor -> Prop
  | before (behind ahead : List Char) :
      Widened rest ⟨behind, ahead ++ '\n' :: rest⟩ ⟨behind, ahead ++ '\n' :: '\n' :: rest⟩
  | after (read behind ahead : List Char) (hline : Cursor.atLineStart ⟨behind, ahead⟩ = true)
      (hlength : ahead.length ≤ rest.length) :
      Widened rest ⟨read ++ behind, ahead⟩ ⟨read ++ '\n' :: behind, ahead⟩

variable {α β : Type} {rest : List Char} {c d : Cursor}

theorem Widened.doubled (h : Widened rest c d) : Doubled c.ahead d.ahead := by
  cases h with
  | before behind ahead =>
      exact Or.inr ⟨ahead, rest, rfl, rfl⟩
  | after read behind ahead hline hlength =>
      exact Or.inl rfl

theorem Widened.head?_ahead (h : Widened rest c d) : d.ahead.head? = c.ahead.head? := by
  cases h with
  | before behind ahead =>
      cases ahead <;> rfl
  | after read behind ahead hline hlength =>
      rfl

theorem Widened.isEmpty_ahead (h : Widened rest c d) : d.ahead.isEmpty = c.ahead.isEmpty := by
  cases h with
  | before behind ahead =>
      cases ahead <;> rfl
  | after read behind ahead hline hlength =>
      rfl

theorem Widened.atLineStart (h : Widened rest c d) : d.atLineStart = c.atLineStart := by
  cases h with
  | before behind ahead =>
      rfl
  | after read behind ahead hline hlength =>
      cases read with
      | nil =>
          exact hline.symm
      | cons last read =>
          rfl

theorem Widened.isWordEdge (h : Widened rest c d) :
    isWordEdge d.behind.head? d.ahead.head? = isWordEdge c.behind.head? c.ahead.head? := by
  cases h with
  | before behind ahead =>
      cases ahead <;> rfl
  | after read behind ahead hline hlength =>
      cases read with
      | cons last read =>
          rfl
      | nil =>
          have hend : isWordChar '\n' = false := by decide
          cases behind with
          | nil =>
              simp [Text.isWordEdge, hend]
          | cons last behind =>
              rw [show last = '\n' from beq_iff_eq.mp hline]
              rfl

/-!
# Matchers that an empty line does not disturb
-/

namespace Matcher

/-- The answers of two matchers agree in place, and their values are related. -/
def Alike (related : α -> β -> Prop) (m : Matcher α) (n : Matcher β) : Prop :=
  forall rest c d, Widened rest c d ->
    List.Forall₂ (fun found other => related found.1 other.1 ∧ Widened rest found.2 other.2)
      (m c) (n d)

abbrev Steady (m : Matcher α) : Prop :=
  Alike Eq m m

theorem Alike.give {related : α -> α -> Prop} {a b : α} (h : related a b) :
    Alike related (give a) (give b) := by
  intro rest c d hcd
  exact List.Forall₂.cons ⟨h, hcd⟩ List.Forall₂.nil

theorem Steady.give (a : α) : Steady (give a) :=
  Alike.give rfl

theorem Alike.bind {first : α -> α -> Prop} {related : β -> β -> Prop} {m n : Matcher α}
    {next other : α -> Matcher β} (hm : Alike first m n)
    (hnext : forall a b, first a b -> Alike related (next a) (other b)) :
    Alike related (m >>= next) (n >>= other) := by
  intro rest c d hcd
  refine List.rel_flatMap (hm rest c d hcd) ?_
  rintro found answer ⟨hvalue, hplace⟩
  exact hnext found.1 answer.1 hvalue rest found.2 answer.2 hplace

theorem Steady.bind {related : β -> β -> Prop} {m : Matcher α} {next other : α -> Matcher β}
    (hm : Steady m) (hnext : forall a, Alike related (next a) (other a)) :
    Alike related (m >>= next) (m >>= other) := by
  refine Alike.bind hm ?_
  rintro a b rfl
  exact hnext a

theorem Alike.orElse {related : α -> α -> Prop} {m n m' n' : Matcher α} (hm : Alike related m m')
    (hn : Alike related n n') : Alike related (orElse m n) (orElse m' n') := by
  intro rest c d hcd
  exact List.rel_append (hm rest c d hcd) (hn rest c d hcd)

theorem Alike.optional {related : α -> α -> Prop} {m n : Matcher α} (hm : Alike related m n) :
    Alike (Option.Rel related) (optional m) (optional n) := by
  rw [optional_eq, optional_eq]
  refine Alike.orElse (Alike.bind hm fun a b hab => Alike.give ?_) (Alike.give Option.Rel.none)
  exact Option.Rel.some hab

theorem Steady.optional {m : Matcher α} (hm : Steady m) : Steady (optional m) := by
  rw [optional_eq]
  exact Alike.orElse (Steady.bind hm fun a => Alike.give rfl) (Alike.give rfl)

theorem Steady.anyOf {ms : List (Matcher α)} (h : forall m, m ∈ ms -> Steady m) :
    Steady (anyOf ms) := by
  induction ms with
  | nil =>
      exact fun _ _ _ _ => List.Forall₂.nil
  | cons m rest ih =>
      exact Alike.orElse (h m (List.mem_cons_self ..))
        (ih fun n hn => h n (List.mem_cons_of_mem m hn))

theorem Steady.guard {p : Cursor -> Bool}
    (h : forall rest c d, Widened rest c d -> p d = p c) : Steady (guard p) := by
  intro rest c d hcd
  unfold Matcher.guard
  rw [h rest c d hcd]
  cases p c with
  | true =>
      exact List.Forall₂.cons ⟨rfl, hcd⟩ List.Forall₂.nil
  | false =>
      exact List.Forall₂.nil

theorem Steady.lineStart : Steady lineStart :=
  Steady.guard fun _ _ _ h => h.atLineStart

theorem Steady.textEnd : Steady textEnd :=
  Steady.guard fun _ _ _ h => h.isEmpty_ahead

theorem Steady.wordEdge : Steady wordEdge :=
  Steady.guard fun _ _ _ h => h.isWordEdge

theorem Steady.notNext (stop : Char) : Steady (notNext stop) := by
  refine Steady.guard fun _ c d h => ?_
  rw [h.head?_ahead]

theorem Alike.one {p : Char -> Bool} (hp : p '\n' = false) :
    Alike (fun a b => b = a ∧ p a = true) (one p) (one p) := by
  intro rest c d hcd
  cases hcd with
  | before behind ahead =>
      cases ahead with
      | nil =>
          rw [List.nil_append, List.nil_append, one_cons, one_cons, hp]
          exact List.Forall₂.nil
      | cons next ahead =>
          rw [List.cons_append, List.cons_append, one_cons, one_cons]
          cases hnext : p next with
          | true =>
              exact List.Forall₂.cons ⟨⟨rfl, hnext⟩, Widened.before _ _⟩ List.Forall₂.nil
          | false =>
              exact List.Forall₂.nil
  | after read behind ahead hline hlength =>
      cases ahead with
      | nil =>
          exact List.Forall₂.nil
      | cons next ahead =>
          rw [one_cons, one_cons]
          cases hnext : p next with
          | true =>
              have hplace : Widened rest ⟨(next :: read) ++ behind, ahead⟩
                  ⟨(next :: read) ++ '\n' :: behind, ahead⟩ :=
                Widened.after _ _ _ hline (Nat.le_of_succ_le hlength)
              exact List.Forall₂.cons ⟨⟨rfl, hnext⟩, hplace⟩ List.Forall₂.nil
          | false =>
              exact List.Forall₂.nil

theorem Steady.one {p : Char -> Bool} (hp : p '\n' = false) : Steady (one p) := by
  intro rest c d hcd
  refine List.Forall₂.imp ?_ (Alike.one hp rest c d hcd)
  rintro found other ⟨⟨hvalue, _⟩, hplace⟩
  exact ⟨hvalue.symm, hplace⟩

theorem Steady.letters {word : List Char} (h : '\n' ∉ word) : Steady (letters word) := by
  induction word with
  | nil =>
      exact Steady.give ()
  | cons letter rest ih =>
      rw [letters_cons]
      refine Steady.bind (Steady.one ?_) fun _ => ih fun hmem => h (List.mem_cons_of_mem _ hmem)
      simpa using fun heq => h (by rw [heq]; exact List.mem_cons_self ..)

theorem Steady.word {text : String} (h : '\n' ∉ text.toList) : Steady (word text) :=
  Steady.letters h

/-!
# Stretches
-/

theorem readWhile_after (p : Char -> Bool) (read behind ahead : List Char)
    (hline : Cursor.atLineStart ⟨behind, ahead⟩ = true) (hlength : ahead.length ≤ rest.length) :
    Widened rest (Cursor.readWhile p ⟨read ++ behind, ahead⟩).2
      (Cursor.readWhile p ⟨read ++ '\n' :: behind, ahead⟩).2 := by
  have hdrop : (ahead.dropWhile p).length ≤ rest.length :=
    Nat.le_trans (List.dropWhile_sublist p).length_le hlength
  have hplace : Widened rest
      ⟨((ahead.takeWhile p).reverse ++ read) ++ behind, ahead.dropWhile p⟩
      ⟨((ahead.takeWhile p).reverse ++ read) ++ '\n' :: behind, ahead.dropWhile p⟩ :=
    Widened.after _ _ _ hline hdrop
  rw [List.append_assoc, List.append_assoc] at hplace
  exact hplace

theorem readWhile_before {p : Char -> Bool} {ahead : List Char}
    (h : (ahead ++ ['\n']).all p = false) (behind rest : List Char) :
    (Cursor.readWhile p ⟨behind, ahead ++ '\n' :: '\n' :: rest⟩).1 =
        (Cursor.readWhile p ⟨behind, ahead ++ '\n' :: rest⟩).1 ∧
      Widened rest (Cursor.readWhile p ⟨behind, ahead ++ '\n' :: rest⟩).2
        (Cursor.readWhile p ⟨behind, ahead ++ '\n' :: '\n' :: rest⟩).2 := by
  induction ahead generalizing behind with
  | nil =>
      have hp : p '\n' = false := by simpa using h
      simp only [Cursor.readWhile, List.nil_append, List.takeWhile_cons, List.dropWhile_cons, hp]
      exact ⟨rfl, Widened.before behind []⟩
  | cons next ahead ih =>
      cases hnext : p next with
      | true =>
          have hrest : (ahead ++ ['\n']).all p = false := by simpa [hnext] using h
          have hih := ih hrest (next :: behind)
          simp only [Cursor.readWhile] at hih
          simp only [Cursor.readWhile, List.cons_append, List.takeWhile_cons, List.dropWhile_cons,
            hnext, if_true, List.reverse_cons, List.append_assoc, List.nil_append]
          exact ⟨by rw [hih.1], hih.2⟩
      | false =>
          simp only [Cursor.readWhile, List.cons_append, List.takeWhile_cons, List.dropWhile_cons,
            hnext]
          exact ⟨rfl, Widened.before behind (next :: ahead)⟩

theorem readWhile_across {p : Char -> Bool} {ahead : List Char}
    (h : (ahead ++ ['\n']).all p = true) (behind rest : List Char) :
    Doubled (Cursor.readWhile p ⟨behind, ahead ++ '\n' :: rest⟩).1
        (Cursor.readWhile p ⟨behind, ahead ++ '\n' :: '\n' :: rest⟩).1 ∧
      Widened rest (Cursor.readWhile p ⟨behind, ahead ++ '\n' :: rest⟩).2
        (Cursor.readWhile p ⟨behind, ahead ++ '\n' :: '\n' :: rest⟩).2 := by
  have hall : forall ch, ch ∈ ahead ++ ['\n'] -> p ch = true := List.all_eq_true.mp h
  have hahead : forall ch, ch ∈ ahead -> p ch = true :=
    fun ch hch => hall ch (List.mem_append_left _ hch)
  have hend : p '\n' = true := hall '\n' (by simp)
  have htake : forall tail, (ahead ++ '\n' :: tail).takeWhile p =
      ahead ++ '\n' :: tail.takeWhile p := by
    intro tail
    rw [List.takeWhile_append_of_pos hahead, List.takeWhile_cons, hend]
    rfl
  have hdrop : forall tail, (ahead ++ '\n' :: tail).dropWhile p = tail.dropWhile p := by
    intro tail
    rw [List.dropWhile_append_of_pos hahead, List.dropWhile_cons, hend]
    rfl
  have hwide : ('\n' :: rest).takeWhile p = '\n' :: rest.takeWhile p := by
    rw [List.takeWhile_cons, hend]
    rfl
  have hwideDrop : ('\n' :: rest).dropWhile p = rest.dropWhile p := by
    rw [List.dropWhile_cons, hend]
    rfl
  simp only [Cursor.readWhile, htake, hdrop, hwide, hwideDrop]
  refine ⟨Or.inr ⟨ahead, rest.takeWhile p, rfl, rfl⟩, ?_⟩
  have hplace : Widened rest
      ⟨(rest.takeWhile p).reverse ++ '\n' :: (ahead.reverse ++ behind), rest.dropWhile p⟩
      ⟨(rest.takeWhile p).reverse ++ '\n' :: '\n' :: (ahead.reverse ++ behind),
        rest.dropWhile p⟩ :=
    Widened.after _ _ _ rfl (List.dropWhile_sublist p).length_le
  simpa using hplace

theorem Alike.stretch (p : Char -> Bool) : Alike Doubled (stretch p) (stretch p) := by
  intro rest c d hcd
  refine List.Forall₂.cons ?_ List.Forall₂.nil
  cases hcd with
  | before behind ahead =>
      cases h : (ahead ++ ['\n']).all p with
      | true =>
          exact readWhile_across h behind rest
      | false =>
          have hsame := readWhile_before h behind rest
          exact ⟨Or.inl hsame.1, hsame.2⟩
  | after read behind ahead hline hlength =>
      exact ⟨Or.inl rfl, readWhile_after p read behind ahead hline hlength⟩

theorem Steady.stretch {p : Char -> Bool} (hp : p '\n' = false) : Steady (stretch p) := by
  intro rest c d hcd
  refine List.Forall₂.cons ?_ List.Forall₂.nil
  cases hcd with
  | before behind ahead =>
      have hsame := readWhile_before (by simp [hp] : (ahead ++ ['\n']).all p = false) behind rest
      exact ⟨hsame.1.symm, hsame.2⟩
  | after read behind ahead hline hlength =>
      exact ⟨rfl, readWhile_after p read behind ahead hline hlength⟩

theorem Steady.stretch1 {p : Char -> Bool} (hp : p '\n' = false) : Steady (stretch1 p) := by
  rw [stretch1_eq]
  exact Steady.bind (Steady.one hp) fun _ => Steady.bind (Steady.stretch hp) fun _ => Steady.give _

theorem Steady.blanks : Steady blanks :=
  Alike.bind (Alike.stretch isBlank) fun _ _ _ => Steady.give ()

theorem Steady.blanks1 : Steady blanks1 := by
  intro rest c d hcd
  have hblanks := Alike.stretch isBlank rest c d hcd
  have hhead := hcd.head?_ahead
  obtain ⟨behind, ahead⟩ := c
  obtain ⟨behind', ahead'⟩ := d
  cases ahead with
  | nil =>
      cases ahead' with
      | nil =>
          exact List.Forall₂.nil
      | cons next tail =>
          cases hhead
  | cons next tail =>
      cases ahead' with
      | nil =>
          cases hhead
      | cons other tail' =>
          obtain rfl : other = next := by simpa using hhead
          show List.Forall₂ _ ((Matcher.stretch1 isBlank >>= fun _ => Matcher.give ()) _)
            ((Matcher.stretch1 isBlank >>= fun _ => Matcher.give ()) _)
          rw [bind_give, bind_give]
          simp only [Matcher.stretch1]
          cases isBlank other with
          | true =>
              refine List.rel_map ?_ hblanks
              rintro found answer ⟨_, hplace⟩
              exact ⟨trivial, hplace⟩
          | false =>
              exact List.Forall₂.nil

theorem Steady.beginnings {p : Char -> Bool} (hp : p '\n' = false) : Steady (beginnings p) := by
  intro rest c d hcd
  obtain ⟨behind, ahead⟩ := c
  obtain ⟨behind', ahead'⟩ := d
  have hhead := hcd.head?_ahead
  induction ahead generalizing behind behind' ahead' with
  | nil =>
      cases ahead' with
      | nil =>
          exact List.Forall₂.cons ⟨rfl, hcd⟩ List.Forall₂.nil
      | cons next tail =>
          cases hhead
  | cons next tail ih =>
      cases ahead' with
      | nil =>
          cases hhead
      | cons other tail' =>
          obtain rfl : other = next := by simpa using hhead
          have hone := Alike.one hp rest _ _ hcd
          rw [beginnings_cons, beginnings_cons]
          refine List.rel_append ?_ (List.Forall₂.cons ⟨rfl, hcd⟩ List.Forall₂.nil)
          show List.Forall₂ _ ((Matcher.one p _).flatMap _) ((Matcher.one p _).flatMap _)
          rw [one_cons, one_cons] at hone ⊢
          cases hnext : p other with
          | false =>
              exact List.Forall₂.nil
          | true =>
              rw [hnext] at hone
              cases hone with
              | cons hfirst _ =>
                  have hrest := ih _ _ _ hfirst.2 hfirst.2.head?_ahead
                  simp only [if_true, List.flatMap_cons, List.flatMap_nil, List.append_nil]
                  rw [bind_give, bind_give]
                  refine List.rel_map ?_ hrest
                  rintro found answer ⟨hvalue, hplace⟩
                  exact ⟨congrArg (List.cons other) hvalue, hplace⟩

theorem Alike.head? {related : α -> β -> Prop} {m : Matcher α} {n : Matcher β}
    (hm : Alike related m n) (h : Widened rest c d) :
    (m c).head? = none ∧ (n d).head? = none ∨
      exists found other, (m c).head? = some found ∧ (n d).head? = some other ∧
        related found.1 other.1 ∧ Widened rest found.2 other.2 := by
  have hanswers := hm rest c d h
  revert hanswers
  generalize m c = answers
  generalize n d = others
  intro hanswers
  cases hanswers with
  | nil =>
      exact Or.inl ⟨rfl, rfl⟩
  | cons hfirst _ =>
      exact Or.inr ⟨_, _, rfl, rfl, hfirst⟩

theorem Alike.first? {related : α -> β -> Prop} {m : Matcher α} {n : Matcher β}
    (hm : Alike related m n) (before after : List Char) :
    Option.Rel related (m.first? (before ++ '\n' :: after))
      (n.first? (before ++ '\n' :: '\n' :: after)) := by
  have hstart : Widened after (Cursor.start (before ++ '\n' :: after))
      (Cursor.start (before ++ '\n' :: '\n' :: after)) := Widened.before [] before
  unfold Matcher.first?
  rcases hm.head? hstart with ⟨hnone, hnone'⟩ | ⟨found, other, hfound, hother, hvalue, _⟩
  · rw [hnone, hnone']
    exact Option.Rel.none
  · rw [hfound, hother]
    exact Option.Rel.some hvalue

theorem Steady.first? {m : Matcher α} (hm : Steady m) {text wide : List Char}
    (h : Doubled text wide) : m.first? wide = m.first? text := by
  rcases h with rfl | ⟨before, after, rfl, rfl⟩
  · rfl
  · have hfirst := Alike.first? hm before after
    revert hfirst
    generalize m.first? (before ++ '\n' :: after) = value
    generalize m.first? (before ++ '\n' :: '\n' :: after) = other
    intro hfirst
    cases hfirst with
    | some hvalue =>
        rw [hvalue]
    | none =>
        rfl

end Matcher

/-!
# Finding around an empty line
-/

def FoundAlike (related : α -> β -> Prop) (rest : List Char) (found : Found α) (other : Found β) :
    Prop :=
  related found.value other.value ∧ Widened rest found.place other.place

variable {related : α -> α -> Prop} {m : Matcher α}

theorem Widened.length_eq {stop stop' : Cursor} (h : Widened rest stop stop')
    (hlength : stop.ahead.length ≤ rest.length) : stop'.ahead.length = stop.ahead.length := by
  cases h with
  | before behind ahead =>
      simp only [List.length_append, List.length_cons] at hlength
      omega
  | after read behind ahead hline hlength =>
      rfl

/--
What is read up to a stop is left out of the search.  One more character is left out in the longer
text where the stop lies behind the empty line.
-/
theorem Widened.skipped {stop stop' : Cursor} (h : Widened rest stop stop')
    (ahead : List Char) :
    (ahead ++ '\n' :: '\n' :: rest).length - stop'.ahead.length =
      if (ahead ++ '\n' :: rest).length - stop.ahead.length ≤ ahead.length then
        (ahead ++ '\n' :: rest).length - stop.ahead.length
      else (ahead ++ '\n' :: rest).length - stop.ahead.length + 1 := by
  cases h with
  | before behind left =>
      simp only [List.length_append, List.length_cons]
      rw [if_pos (by omega)]
      omega
  | after read behind left hline hlength =>
      simp only [List.length_append, List.length_cons]
      rw [if_neg (by omega)]
      omega

theorem findFrom_after (hm : Matcher.Alike related m m) (hforward : Matcher.Forward m)
    (read behind : List Char) {ahead : List Char} (skip : Nat)
    (hline : Cursor.atLineStart ⟨behind, ahead⟩ = true) (hlength : ahead.length ≤ rest.length) :
    List.Forall₂ (FoundAlike related rest) (findFrom m (read ++ behind) skip ahead)
      (findFrom m (read ++ '\n' :: behind) skip ahead) := by
  induction ahead generalizing read skip with
  | nil =>
      exact List.Forall₂.nil
  | cons next ahead ih =>
      have htail := fun skip => ih (next :: read) skip hline (Nat.le_of_succ_le hlength)
      have hplace : Widened rest ⟨read ++ behind, next :: ahead⟩
          ⟨read ++ '\n' :: behind, next :: ahead⟩ := Widened.after _ _ _ hline hlength
      cases skip with
      | succ skip =>
          rw [findFrom_skip, findFrom_skip]
          exact htail skip
      | zero =>
          rcases hm.head? hplace with
            ⟨hnone, hnone'⟩ | ⟨found, other, hfound, hother, hvalue, hstop⟩
          · rw [findFrom_none hnone, findFrom_none hnone']
            exact htail 0
          · have hle := hforward.length_le (List.mem_of_mem_head? hfound)
            rw [findFrom_some hfound, findFrom_some hother,
              hstop.length_eq (Nat.le_trans hle hlength)]
            exact List.Forall₂.cons ⟨hvalue, hplace⟩ (htail _)

/--
What is found before the empty line and behind it is the same.  The number of characters that are
left out counts the empty line if it goes over it.
-/
theorem findFrom_before (hm : Matcher.Alike related m m) (hforward : Matcher.Forward m)
    (hnone : forall behind tail, m ⟨behind, '\n' :: tail⟩ = []) (behind ahead rest : List Char)
    (skip : Nat) :
    List.Forall₂ (FoundAlike related rest) (findFrom m behind skip (ahead ++ '\n' :: rest))
      (findFrom m behind (if skip ≤ ahead.length then skip else skip + 1)
        (ahead ++ '\n' :: '\n' :: rest)) := by
  -- on the text up to the line end: from there on the places are those of `findFrom_after`
  induction ahead generalizing behind skip with
  | nil =>
      have hafter := fun skip => findFrom_after hm hforward [] ('\n' :: behind) skip rfl
        (Nat.le_refl rest.length)
      cases skip with
      | zero =>
          have hhere : forall behind tail, (m ⟨behind, '\n' :: tail⟩).head? = none := by
            intro behind tail
            rw [hnone]
            rfl
          simp only [List.length_nil, Nat.le_refl, if_true, List.nil_append]
          rw [findFrom_none (hhere _ _), findFrom_none (hhere _ _), findFrom_none (hhere _ _)]
          exact hafter 0
      | succ skip =>
          rw [if_neg (by simp), List.nil_append, List.nil_append, findFrom_skip, findFrom_skip,
            findFrom_skip]
          exact hafter skip
  | cons next ahead ih =>
      rw [List.cons_append, List.cons_append]
      cases skip with
      | succ skip =>
          have hskip : (if skip + 1 ≤ (next :: ahead).length then skip + 1 else skip + 1 + 1) =
              (if skip ≤ ahead.length then skip else skip + 1) + 1 := by
            simp only [List.length_cons, Nat.add_le_add_iff_right]
            split <;> rfl
          rw [hskip, findFrom_skip, findFrom_skip]
          exact ih _ skip
      | zero =>
          have hplace : Widened rest ⟨behind, next :: (ahead ++ '\n' :: rest)⟩
              ⟨behind, next :: (ahead ++ '\n' :: '\n' :: rest)⟩ :=
            Widened.before behind (next :: ahead)
          rw [if_pos (Nat.zero_le _)]
          rcases hm.head? hplace with
            ⟨hhere, hhere'⟩ | ⟨found, other, hfound, hother, hvalue, hstop⟩
          · rw [findFrom_none hhere, findFrom_none hhere']
            have htail := ih (next :: behind) 0
            rwa [if_pos (Nat.zero_le _)] at htail
          · rw [findFrom_some hfound, findFrom_some hother, hstop.skipped ahead]
            exact List.Forall₂.cons ⟨hvalue, hplace⟩ (ih (next :: behind) _)

/-!
# Where it is found
-/

def EndsLine (text : List Char) : Prop :=
  text = [] ∨ text.getLast? = some '\n'

def moved (first count number : Nat) : Nat :=
  if number < first then number else number + count

@[simp] theorem moved_zero (first number : Nat) : moved first 0 number = number := by
  unfold moved
  split <;> rfl

theorem moved_moved (first count more number : Nat) :
    moved first more (moved first count number) = moved first (count + more) number := by
  unfold moved
  by_cases h : number < first
  · rw [if_pos h, if_pos h, if_pos h]
  · rw [if_neg h, if_neg h, if_neg (by omega), Nat.add_assoc]

theorem moved_le_moved (first count a b : Nat) :
    moved first count a ≤ moved first count b <-> a ≤ b := by
  unfold moved
  split <;> split <;> omega

theorem text_of_mem_findFrom {n : Matcher β} {found : Found β} {behind text : List Char}
    {skip : Nat} (h : found ∈ findFrom n behind skip text) :
    found.place.behind.reverse ++ found.place.ahead = behind.reverse ++ text := by
  induction text generalizing behind skip with
  | nil =>
      cases h
  | cons next rest ih =>
      have htail : forall skip, found ∈ findFrom n (next :: behind) skip rest ->
          found.place.behind.reverse ++ found.place.ahead = behind.reverse ++ next :: rest := by
        intro skip hfound
        rw [ih hfound, List.reverse_cons, List.append_assoc, List.singleton_append]
      cases skip with
      | succ skip =>
          rw [findFrom_skip] at h
          exact htail skip h
      | zero =>
          cases hhere : (n ⟨behind, next :: rest⟩).head? with
          | none =>
              rw [findFrom_none hhere] at h
              exact htail 0 h
          | some answer =>
              rw [findFrom_some hhere] at h
              rcases List.mem_cons.mp h with rfl | h
              · rfl
              · exact htail _ h

theorem Widened.moved {front : List Char} (h : Widened rest c d)
    (htext : c.behind.reverse ++ c.ahead = front ++ rest) :
    d.line = moved (front.count '\n' + 1) 1 c.line ∧
      d.offset = moved front.length 1 c.offset := by
  cases h with
  | before behind ahead =>
      have hfrontText : behind.reverse ++ (ahead ++ ['\n']) = front := by
        refine (List.append_left_inj rest).mp ?_
        simpa using htext
      have hlines : front.count '\n' = behind.count '\n' + ahead.count '\n' + 1 := by
        rw [<- hfrontText, List.count_append, List.count_append, List.count_reverse]
        rfl
      have hlength : front.length = behind.length + ahead.length + 1 := by
        rw [<- hfrontText, List.length_append, List.length_append, List.length_reverse]
        rfl
      unfold Text.moved
      rw [if_pos (by simp only [Cursor.line]; omega), if_pos (by simp only [Cursor.offset]; omega)]
      exact ⟨rfl, rfl⟩
  | after read behind ahead hline hlength =>
      obtain ⟨inside, hfrontText, hrest⟩ : exists inside,
          (read ++ behind).reverse = front ++ inside ∧ rest = inside ++ ahead := by
        have hsplit : (read ++ behind).reverse ++ ahead = front ++ rest := htext
        rcases List.append_eq_append_iff.mp hsplit with ⟨left, hleft, hahead⟩ | ⟨inside, hin, hrest⟩
        · have hnil : left = [] := by
            have hsame := congrArg List.length hahead
            rw [List.length_append] at hsame
            exact List.eq_nil_of_length_eq_zero (by omega)
          subst hnil
          exact ⟨[], by simpa using hleft.symm, by simpa using hahead.symm⟩
        · exact ⟨inside, hin, hrest⟩
      have hlines : front.count '\n' ≤ (read ++ behind).count '\n' := by
        have hcount := congrArg (List.count '\n') hfrontText
        rw [List.count_reverse, @List.count_append _ _ _ front] at hcount
        omega
      have hoffset : front.length ≤ (read ++ behind).length := by
        have hsize := congrArg List.length hfrontText
        rw [List.length_reverse, @List.length_append _ front] at hsize
        omega
      unfold Text.moved
      rw [if_neg (by simp only [Cursor.line]; omega), if_neg (by simp only [Cursor.offset]; omega)]
      simp only [Cursor.line, Cursor.offset, List.count_append, List.count_cons_self,
        List.length_append, List.length_cons]
      omega

theorem findAll_empty_line (hm : Matcher.Alike related m m) (hforward : Matcher.Forward m)
    (hnone : forall behind tail, m ⟨behind, '\n' :: tail⟩ = []) {front : List Char}
    (hfront : EndsLine front) (rest : List Char) :
    List.Forall₂
      (fun found other =>
        related found.value other.value ∧
          other.place.line = moved (front.count '\n' + 1) 1 found.place.line ∧
            other.place.offset = moved front.length 1 found.place.offset)
      (findAll m (front ++ rest)) (findAll m (front ++ '\n' :: rest)) := by
  have halike : List.Forall₂ (FoundAlike related rest) (findAll m (front ++ rest))
      (findAll m (front ++ '\n' :: rest)) := by
    unfold findAll
    rcases hfront with rfl | hlast
    · have hhere : (m ⟨[], '\n' :: rest⟩).head? = none := by
        rw [hnone]
        rfl
      rw [List.nil_append, List.nil_append, findFrom_none hhere]
      exact findFrom_after hm hforward [] [] 0 rfl (Nat.le_refl _)
    · obtain ⟨ahead, rfl⟩ := List.getLast?_eq_some_iff.mp hlast
      have hfind := findFrom_before hm hforward hnone [] ahead rest 0
      rw [if_pos (Nat.zero_le _)] at hfind
      simpa using hfind
  have hplaces : forall found, found ∈ findAll m (front ++ rest) ->
      found.place.behind.reverse ++ found.place.ahead = front ++ rest :=
    fun found hfound => text_of_mem_findFrom hfound
  revert hplaces
  generalize findAll m (front ++ rest) = all at halike ⊢
  generalize findAll m (front ++ '\n' :: rest) = others at halike ⊢
  intro hplaces
  induction halike with
  | nil =>
      exact List.Forall₂.nil
  | cons hhead _ ih =>
      have hmoved := hhead.2.moved (hplaces _ (List.mem_cons_self ..))
      exact List.Forall₂.cons ⟨hhead.1, hmoved⟩
        (ih fun found hfound => hplaces found (List.mem_cons_of_mem _ hfound))

end Text
end Joinery
