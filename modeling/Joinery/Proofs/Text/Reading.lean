import Joinery.Proofs.Text.Finding
import Joinery.Proofs.Text.Pieces
import Mathlib.Data.List.Basic

/-!
# Reading what is written

## The first answer

Of the answers of a matcher only the first one is found.  Where each part of a matcher reads
one piece of a text, the matcher reads the pieces one after the other; where its first part
refuses the text, it has no answer at all.
-/

namespace Joinery
namespace Text

/-- The text, if it goes on, goes on with a character that is not of this class. -/
def Stops (p : Char -> Bool) (rest : List Char) : Prop :=
  forall ch, rest.head? = some ch -> p ch = false

@[simp] theorem stops_nil (p : Char -> Bool) : Stops p [] := by
  intro ch h
  cases h

theorem stops_cons {p : Char -> Bool} {ch : Char} (h : p ch = false) (rest : List Char) :
    Stops p (ch :: rest) := by
  intro next hnext
  cases hnext
  exact h

theorem Stops.append {p : Char -> Bool} {text rest : List Char} (h : Stops p text)
    (hrest : Stops p rest) : Stops p (text ++ rest) := by
  cases text with
  | nil =>
      exact hrest
  | cons ch text =>
      exact stops_cons (h ch rfl) _

theorem Stops.mono {p q : Char -> Bool} {rest : List Char} (h : Stops q rest)
    (hp : forall c, p c = true -> q c = true) : Stops p rest := by
  intro c hc
  have hstop := h c hc
  cases hpc : p c with
  | false =>
      rfl
  | true =>
      rw [hp c hpc] at hstop
      cases hstop

theorem isPrefixOf_of_stops {ch : Char} {text : List Char} (h : Stops (fun c => c == ch) text)
    (word : List Char) : (ch :: word).isPrefixOf text = false := by
  cases text with
  | nil =>
      rfl
  | cons first text =>
      have hfirst : (ch == first) = false := by
        rw [Bool.beq_comm]
        exact h first rfl
      rw [List.isPrefixOf, hfirst]
      rfl

theorem takeWhile_stops {p : Char -> Bool} {word rest : List Char} (hword : word.all p = true)
    (hrest : Stops p rest) : (word ++ rest).takeWhile p = word := by
  rw [List.takeWhile_append_of_pos (List.all_eq_true.mp hword)]
  cases rest with
  | nil =>
      exact List.append_nil _
  | cons ch rest =>
      rw [List.takeWhile_cons, hrest ch rfl]
      exact List.append_nil _

theorem dropWhile_stops {p : Char -> Bool} {word rest : List Char} (hword : word.all p = true)
    (hrest : Stops p rest) : (word ++ rest).dropWhile p = rest := by
  rw [List.dropWhile_append_of_pos (List.all_eq_true.mp hword)]
  cases rest with
  | nil =>
      rfl
  | cons ch rest =>
      rw [List.dropWhile_cons, hrest ch rfl]
      rfl

namespace Matcher

variable {α β : Type} {m n : Matcher α} {next : α -> Matcher β} {a : α} {b : β}
  {text more rest : List Char}

/-- The first answer is this value, with this text read and the rest ahead. -/
def Takes (m : Matcher α) (text : List Char) (value : α) (rest : List Char) : Prop :=
  forall behind,
    (m ⟨behind, text ++ rest⟩).head? = some (value, ⟨text.reverse ++ behind, rest⟩)

def TakesOnly (m : Matcher α) (text : List Char) (value : α) (rest : List Char) : Prop :=
  forall behind, m ⟨behind, text ++ rest⟩ = [(value, ⟨text.reverse ++ behind, rest⟩)]

/-- There is no answer. -/
def Refuses (m : Matcher α) (text : List Char) : Prop :=
  forall behind, m ⟨behind, text⟩ = []

theorem TakesOnly.takes (h : TakesOnly m text a rest) : Takes m text a rest := by
  intro behind
  rw [h behind]
  rfl

/-!
# One matcher after the other
-/

theorem head?_flatMap {γ δ : Type} {l : List γ} {f : γ -> List δ} {first : γ} {value : δ}
    (hl : l.head? = some first) (hf : (f first).head? = some value) :
    (l.flatMap f).head? = some value := by
  obtain ⟨others, rfl⟩ := List.head?_eq_some_iff.mp hl
  rw [List.flatMap_cons, List.head?_append, hf]
  rfl

theorem Takes.bind (hm : Takes m text a (more ++ rest)) (hnext : Takes (next a) more b rest) :
    Takes (m >>= next) (text ++ more) b rest := by
  intro behind
  rw [List.append_assoc, List.reverse_append, List.append_assoc]
  exact head?_flatMap (hm behind) (hnext _)

theorem TakesOnly.bind (hm : TakesOnly m text a (more ++ rest))
    (hnext : TakesOnly (next a) more b rest) : TakesOnly (m >>= next) (text ++ more) b rest := by
  intro behind
  rw [List.append_assoc, List.reverse_append, List.append_assoc, bind_of_eq (hm behind)]
  exact hnext _

theorem Refuses.bind (h : Refuses m text) : Refuses (m >>= next) text := by
  intro behind
  show (m _).flatMap _ = []
  rw [h behind]
  rfl

theorem Refuses.not_mem (h : Refuses m text) (behind : List Char) (found : α × Cursor) :
    found ∉ m ⟨behind, text⟩ := by
  rw [h behind]
  exact List.not_mem_nil

theorem Refuses.after (hm : TakesOnly m text a rest) (h : Refuses (next a) rest) :
    Refuses (m >>= next) (text ++ rest) := by
  intro behind
  rw [bind_of_eq (hm behind)]
  exact h _

theorem TakesOnly.give (value : α) (rest : List Char) : TakesOnly (give value) [] value rest :=
  fun _ => rfl

theorem Takes.map {f : α -> β} (h : Takes m text a rest) :
    Takes (m >>= fun value => Matcher.give (f value)) text (f a) rest := by
  intro behind
  rw [bind_give, List.head?_map, h behind]
  rfl

theorem TakesOnly.map {f : α -> β} (h : TakesOnly m text a rest) :
    TakesOnly (m >>= fun value => Matcher.give (f value)) text (f a) rest := by
  intro behind
  rw [bind_give, h behind]
  rfl

/-!
# Choices
-/

theorem Takes.orElse (h : Takes m text a rest) : Takes (orElse m n) text a rest := by
  intro behind
  show (m _ ++ n _).head? = _
  rw [List.head?_append, h behind]
  rfl

theorem Takes.orElse_right (hm : Refuses m (text ++ rest)) (h : Takes n text a rest) :
    Takes (Matcher.orElse m n) text a rest := by
  intro behind
  show (m _ ++ n _).head? = _
  rw [hm behind]
  exact h behind

theorem TakesOnly.orElse (h : TakesOnly m text a rest) (hn : Refuses n (text ++ rest)) :
    TakesOnly (Matcher.orElse m n) text a rest := by
  intro behind
  show m _ ++ n _ = _
  rw [h behind, hn behind]
  rfl

theorem TakesOnly.orElse_right (hm : Refuses m (text ++ rest)) (h : TakesOnly n text a rest) :
    TakesOnly (Matcher.orElse m n) text a rest := by
  intro behind
  show m _ ++ n _ = _
  rw [hm behind, h behind]
  rfl

theorem Refuses.orElse (hm : Refuses m text) (hn : Refuses n text) :
    Refuses (Matcher.orElse m n) text := by
  intro behind
  show m _ ++ n _ = []
  rw [hm behind, hn behind]
  rfl

theorem Takes.optional (h : Takes m text a rest) : Takes (optional m) text (some a) rest := by
  rw [optional_eq]
  exact Takes.orElse h.map

theorem TakesOnly.left_out (h : Refuses m rest) : TakesOnly (Matcher.optional m) [] none rest := by
  rw [optional_eq]
  exact TakesOnly.orElse_right h.bind (TakesOnly.give _ _)

theorem Refuses.optional_bind {next : Option α -> Matcher β} (hm : Refuses m text)
    (h : Refuses (next none) text) : Refuses (Matcher.optional m >>= next) text :=
  Refuses.after (TakesOnly.left_out hm) h

theorem Refuses.anyOf {ms : List (Matcher α)} (h : forall m, m ∈ ms -> Refuses m text) :
    Refuses (anyOf ms) text := by
  induction ms with
  | nil =>
      exact fun _ => rfl
  | cons m rest ih =>
      exact Refuses.orElse (h m (List.mem_cons_self ..))
        (ih fun n hn => h n (List.mem_cons_of_mem m hn))

theorem orElse_bind (m n : Matcher α) (next : α -> Matcher β) :
    Matcher.orElse m n >>= next = Matcher.orElse (m >>= next) (n >>= next) := by
  funext c
  exact List.flatMap_append

theorem Refuses.optional_after {next : Option α -> Matcher β} (hm : TakesOnly m text a rest)
    (hsome : Refuses (next (some a)) rest) (hnone : Refuses (next none) (text ++ rest)) :
    Refuses (Matcher.optional m >>= next) (text ++ rest) := by
  rw [optional_eq, orElse_bind]
  refine Refuses.orElse (Refuses.after hm.map hsome) ?_
  rw [give_bind]
  exact hnone

theorem Refuses.anyOf_bind {ms : List (Matcher α)}
    (h : forall m, m ∈ ms -> Refuses (m >>= next) text) :
    Refuses (Matcher.anyOf ms >>= next) text := by
  induction ms with
  | nil =>
      exact fun _ => rfl
  | cons m ms ih =>
      rw [Matcher.anyOf, orElse_bind]
      exact Refuses.orElse (h m (List.mem_cons_self ..))
        (ih fun n hn => h n (List.mem_cons_of_mem m hn))

/-!
# Single pieces
-/

theorem TakesOnly.one {p : Char -> Bool} {ch : Char} (h : p ch = true) (rest : List Char) :
    TakesOnly (one p) [ch] ch rest := by
  intro behind
  rw [List.singleton_append, one_cons, if_pos h]
  rfl

theorem Refuses.one {p : Char -> Bool} (h : Stops p text) : Refuses (one p) text := by
  intro behind
  cases text with
  | nil =>
      rfl
  | cons ch text =>
      rw [one_cons, h ch rfl]
      rfl

theorem TakesOnly.stretch {p : Char -> Bool} (htext : text.all p = true) (hrest : Stops p rest) :
    TakesOnly (stretch p) text text rest := by
  intro behind
  rw [Matcher.stretch, Cursor.readWhile, takeWhile_stops htext hrest, dropWhile_stops htext hrest]

theorem TakesOnly.stretch1 {p : Char -> Bool} (hne : text ≠ []) (htext : text.all p = true)
    (hrest : Stops p rest) : TakesOnly (stretch1 p) text text rest := by
  intro behind
  cases text with
  | nil =>
      exact absurd rfl hne
  | cons ch text =>
      have hch : p ch = true := List.all_eq_true.mp htext ch (List.mem_cons_self ..)
      have hstretch := TakesOnly.stretch htext hrest behind
      show (if p ch = true then [_] else []) = _
      rw [if_pos hch]
      exact hstretch

theorem Refuses.stretch1 {p : Char -> Bool} (h : Stops p text) : Refuses (stretch1 p) text := by
  intro behind
  cases text with
  | nil =>
      rfl
  | cons ch text =>
      simp only [Matcher.stretch1, h ch rfl]
      rfl

theorem Takes.beginnings {p : Char -> Bool} (htext : text.all p = true) (hrest : Stops p rest) :
    Takes (beginnings p) text text rest := by
  intro behind
  simp only [Matcher.beginnings, takeWhile_stops htext hrest]
  rw [List.range_succ, List.reverse_append, List.map_append, List.reverse_singleton,
    List.map_singleton, List.take_length, List.drop_left]
  rfl

theorem TakesOnly.letters (word rest : List Char) : TakesOnly (letters word) word () rest := by
  induction word with
  | nil =>
      exact TakesOnly.give () rest
  | cons letter word ih =>
      rw [letters_cons]
      exact TakesOnly.bind (TakesOnly.one (decide_eq_true rfl) _) ih

theorem TakesOnly.word (spelled : String) (rest : List Char) :
    TakesOnly (word spelled) spelled.toList () rest :=
  TakesOnly.letters _ _

theorem Refuses.letters {word : List Char} (h : word.isPrefixOf text = false) :
    Refuses (letters word) text := by
  intro behind
  refine List.eq_nil_iff_forall_not_mem.mpr fun found hfound => ?_
  have hread : text = word ++ found.2.ahead := (mem_letters_iff.mp hfound).1
  rw [hread, List.isPrefixOf_iff_prefix.mpr (List.prefix_append _ _)] at h
  cases h

theorem Refuses.word {spelled : String} (h : spelled.toList.isPrefixOf text = false) :
    Refuses (word spelled) text :=
  Refuses.letters h

theorem TakesOnly.guard {p : Cursor -> Bool} (h : forall behind, p ⟨behind, rest⟩ = true) :
    TakesOnly (guard p) [] () rest := by
  intro behind
  rw [List.nil_append, Matcher.guard, h behind]
  rfl

theorem TakesOnly.textEnd : TakesOnly textEnd [] () [] :=
  TakesOnly.guard fun _ => rfl

theorem isWordEdge_of_last {last : Char} (hlast : isWordChar last = true)
    (hrest : Stops isWordChar rest) : isWordEdge (some last) rest.head? = true := by
  have hnone : rest.head?.any isWordChar = false := by
    cases rest with
    | nil =>
        rfl
    | cons ch rest =>
        exact hrest ch rfl
  rw [isWordEdge, hnone, Option.any_some, hlast]
  rfl

theorem wordEdge_eq {front : List Char} {last : Char} (hlast : isWordChar last = true)
    (hrest : Stops isWordChar rest) (behind : List Char) :
    wordEdge ⟨(front ++ [last]).reverse ++ behind, rest⟩ =
      [((), ⟨(front ++ [last]).reverse ++ behind, rest⟩)] := by
  rw [List.reverse_append, List.reverse_singleton, List.singleton_append, List.cons_append]
  unfold wordEdge guard
  exact if_pos (isWordEdge_of_last hlast hrest)

theorem TakesOnly.blanks (htext : text.all isBlank = true) (hrest : Stops isBlank rest) :
    TakesOnly blanks text () rest :=
  TakesOnly.map (TakesOnly.stretch htext hrest)

theorem TakesOnly.blanks1 (hne : text ≠ []) (htext : text.all isBlank = true)
    (hrest : Stops isBlank rest) : TakesOnly blanks1 text () rest :=
  TakesOnly.map (TakesOnly.stretch1 hne htext hrest)

theorem Refuses.blanks1 (h : Stops isBlank text) : Refuses blanks1 text :=
  Refuses.bind (Refuses.stretch1 h)

theorem Refuses.blanks_bind {next : Unit -> Matcher β} {spaces : List Char}
    (hspaces : spaces.all isBlank = true) (h : Refuses (blanks >>= next) text) :
    Refuses (blanks >>= next) (spaces ++ text) := by
  intro behind
  have hpos := List.all_eq_true.mp hspaces
  have hplace : (Cursor.readWhile isBlank ⟨behind, spaces ++ text⟩).2 =
      (Cursor.readWhile isBlank ⟨spaces.reverse ++ behind, text⟩).2 := by
    simp only [Cursor.readWhile, List.takeWhile_append_of_pos hpos,
      List.dropWhile_append_of_pos hpos, List.reverse_append, List.append_assoc]
  have hblanks : blanks ⟨behind, spaces ++ text⟩ = blanks ⟨spaces.reverse ++ behind, text⟩ :=
    congrArg (fun place => [((), place)]) hplace
  have hbind : forall c,
      (blanks >>= next) c = (blanks c).flatMap fun found => next found.1 found.2 :=
    fun _ => rfl
  rw [hbind, hblanks, <- hbind]
  exact h _

theorem Takes.first? (h : Takes m text a rest) : m.first? (text ++ rest) = some a := by
  unfold Matcher.first? Cursor.start
  rw [h []]
  rfl

end Matcher

/-!
# Finding in blocks of lines
-/

variable {α : Type} {m : Matcher α} {block rest behind : List Char}

theorem findFrom_quiet {text : List Char} {skip : Nat} (hskip : skip ≤ text.length)
    (h : forall before after, text = before ++ after -> after ≠ [] -> skip ≤ before.length ->
      m ⟨before.reverse ++ behind, after ++ rest⟩ = []) :
    findFrom m behind skip (text ++ rest) = findFrom m (text.reverse ++ behind) 0 rest := by
  induction text generalizing behind skip with
  | nil =>
      cases Nat.le_zero.mp hskip
      rfl
  | cons c text ih =>
      have htail : forall skip', skip ≤ skip' + 1 -> skip' ≤ text.length ->
          findFrom m (c :: behind) skip' (text ++ rest) =
            findFrom m ((c :: text).reverse ++ behind) 0 rest := by
        intro skip' hle hlength
        rw [List.reverse_cons, List.append_assoc, List.singleton_append]
        refine ih hlength fun before after heq hne hbefore => ?_
        have hplace := h (c :: before) after (by rw [heq]; rfl) hne
          (Nat.le_trans hle (Nat.succ_le_succ hbefore))
        simpa using hplace
      cases skip with
      | succ skip =>
          rw [List.cons_append, findFrom_skip]
          exact htail skip (Nat.le_refl _) (Nat.le_of_succ_le_succ hskip)
      | zero =>
          have hhere : m ⟨behind, c :: (text ++ rest)⟩ = [] := by
            simpa using h [] (c :: text) rfl (List.cons_ne_nil _ _) (Nat.le_refl _)
          rw [List.cons_append, findFrom_none (by rw [hhere]; rfl)]
          exact htail 0 (Nat.zero_le _) (Nat.zero_le _)

def QuietInside (m : Matcher α) (block rest : List Char) : Prop :=
  forall behind before after, block = before ++ after -> before ≠ [] -> after ≠ [] ->
    m ⟨before.reverse ++ behind, after ++ rest⟩ = []

def FoundIn (m : Matcher α) (block : List Char) (allowed : Option α -> Prop)
    (rest : List Char) : Prop :=
  forall behind, Cursor.atLineStart ⟨behind, block ++ rest⟩ = true ->
    exists answer, allowed answer ∧
      findFrom m behind 0 (block ++ rest) =
        (answer.toList.map fun value => ⟨⟨behind, block ++ rest⟩, value⟩) ++
          findFrom m (block.reverse ++ behind) 0 rest

theorem FoundIn.nothing {allowed : Option α -> Prop} (hallowed : allowed none)
    (hstart : forall behind, Cursor.atLineStart ⟨behind, block ++ rest⟩ = true ->
      m ⟨behind, block ++ rest⟩ = []) (hinside : QuietInside m block rest) :
    FoundIn m block allowed rest := by
  intro behind hline
  refine ⟨none, hallowed, findFrom_quiet (Nat.zero_le _) fun before after heq hne _ => ?_⟩
  by_cases hbefore : before = []
  · subst hbefore
    rw [List.nil_append] at heq
    subst heq
    exact hstart behind hline
  · exact hinside behind before after heq hbefore hne

theorem FoundIn.first {allowed : Option α -> Prop} (hblock : block ≠ [])
    (hstart : forall behind, Cursor.atLineStart ⟨behind, block ++ rest⟩ = true ->
      exists first, (m ⟨behind, block ++ rest⟩).head? = first ∧ allowed (first.map (·.1)) ∧
        forall found, found ∈ first -> rest.length ≤ found.2.ahead.length)
    (hinside : QuietInside m block rest) : FoundIn m block allowed rest := by
  intro behind hline
  obtain ⟨first, hfirst, hallowed, hstop⟩ := hstart behind hline
  refine ⟨first.map (·.1), hallowed, ?_⟩
  cases block with
  | nil =>
      exact absurd rfl hblock
  | cons c block =>
      have htail : forall skip, skip ≤ block.length ->
          findFrom m (c :: behind) skip (block ++ rest) =
            findFrom m ((c :: block).reverse ++ behind) 0 rest := by
        intro skip hskip
        rw [List.reverse_cons, List.append_assoc, List.singleton_append]
        refine findFrom_quiet hskip fun before after heq hne _ => ?_
        have hplace := hinside behind (c :: before) after (by rw [heq]; rfl) (List.cons_ne_nil _ _)
          hne
        simpa using hplace
      rw [List.cons_append] at hfirst
      cases first with
      | none =>
          rw [List.cons_append, findFrom_none hfirst]
          exact htail 0 (Nat.zero_le _)
      | some found =>
          have hle := hstop found rfl
          rw [List.cons_append, findFrom_some hfirst]
          refine congrArg (List.cons _) (htail _ ?_)
          rw [List.length_append]
          omega

variable {σ : Type}

def placed (text : σ -> List Char) (offset line : Nat) : List σ -> List (Nat × Nat × σ)
  | [] => []
  | s :: blocks =>
      (offset, line, s) ::
        placed text (offset + (text s).length + 1) (line + (text s).count '\n' + 1) blocks

theorem map_placed (text : σ -> List Char) (offset line : Nat) (blocks : List σ) :
    (placed text offset line blocks).map (·.2.2) = blocks := by
  induction blocks generalizing offset line with
  | nil =>
      rfl
  | cons s blocks ih =>
      exact congrArg (List.cons s) (ih _ _)

theorem pairwise_placed (text : σ -> List Char) (offset line : Nat) (blocks : List σ) :
    (placed text offset line blocks).Pairwise (fun a b => a.1 < b.1 ∧ a.2.1 < b.2.1) ∧
      forall place, place ∈ placed text offset line blocks ->
        offset ≤ place.1 ∧ line ≤ place.2.1 := by
  induction blocks generalizing offset line with
  | nil =>
      exact ⟨List.Pairwise.nil, fun _ h => nomatch h⟩
  | cons s blocks ih =>
      obtain ⟨hpairwise, hle⟩ := ih (offset + (text s).length + 1) (line + (text s).count '\n' + 1)
      refine ⟨List.Pairwise.cons (fun place hplace => ?_) hpairwise, fun place hplace => ?_⟩
      · have hplaceLe := hle place hplace
        dsimp only
        omega
      · rcases List.mem_cons.mp hplace with rfl | hplace
        · exact ⟨Nat.le_refl _, Nat.le_refl _⟩
        · have hplaceLe := hle place hplace
          omega

def below (text : σ -> List Char) (blocks : List σ) : List Char :=
  blocks.flatMap fun s => '\n' :: text s

theorem stops_below {p : Char -> Bool} (h : p '\n' = false) (text : σ -> List Char)
    (blocks : List σ) : Stops p (below text blocks) := by
  cases blocks with
  | nil =>
      exact stops_nil p
  | cons s blocks =>
      exact stops_cons h _

theorem intercalate_map_cons (text : σ -> List Char) (s : σ) (blocks : List σ) :
    ['\n'].intercalate ((s :: blocks).map text) = text s ++ below text blocks := by
  induction blocks generalizing s with
  | nil =>
      rw [List.map_singleton, List.intercalate_singleton]
      exact (List.append_nil _).symm
  | cons next blocks ih =>
      rw [List.map_cons, intercalate_cons '\n' _ (by simp), ih next]
      rfl

def Found.shown (found : Found α) : Nat × Nat × α :=
  (found.place.offset, found.place.line, found.value)

structure Answers (allowed : σ -> Option α -> Prop) (places : List (Nat × Nat × σ))
    (founds : List (Found α)) (answers : List ((Nat × Nat × σ) × Option α)) : Prop where
  places : answers.map (·.1) = places
  allowed : forall answer, answer ∈ answers -> allowed answer.1.2.2 answer.2
  founds : founds.map Found.shown =
    answers.filterMap fun answer => answer.2.map fun value => (answer.1.1, answer.1.2.1, value)

variable {text : σ -> List Char} {allowed : σ -> Option α -> Prop} {blocks : List σ}

theorem Answers.cons {places : List (Nat × Nat × σ)} {founds : List (Found α)}
    {answers : List ((Nat × Nat × σ) × Option α)} (h : Answers allowed places founds answers)
    (place : Cursor) (s : σ) {answer : Option α} (hallowed : allowed s answer) :
    Answers allowed ((place.offset, place.line, s) :: places)
      ((answer.toList.map fun value => ⟨place, value⟩) ++ founds)
      (((place.offset, place.line, s), answer) :: answers) where
  places := congrArg (List.cons _) h.places
  allowed := by
    intro other hother
    rcases List.mem_cons.mp hother with rfl | hother
    · exact hallowed
    · exact h.allowed other hother
  founds := by
    rw [List.map_append, h.founds, List.filterMap_cons]
    cases answer <;> rfl

theorem findFrom_below (hend : forall tail, Matcher.Refuses m ('\n' :: tail))
    (h : forall s others, s :: others <:+ blocks ->
      FoundIn m (text s) (allowed s) (below text others)) (behind : List Char) :
    exists answers, Answers allowed
      (placed text (behind.length + 1) (behind.count '\n' + 2) blocks)
      (findFrom m behind 0 (below text blocks)) answers := by
  induction blocks generalizing behind with
  | nil =>
      exact ⟨[], ⟨rfl, (fun _ hmem => nomatch hmem), rfl⟩⟩
  | cons s blocks ih =>
      obtain ⟨answer, hallowed, hfind⟩ := h s blocks (List.suffix_refl _) ('\n' :: behind) rfl
      obtain ⟨answers, hanswers⟩ := ih (fun other others hsuffix => h other others
        (hsuffix.trans (List.suffix_cons s blocks))) ((text s).reverse ++ '\n' :: behind)
      have hlength : ((text s).reverse ++ '\n' :: behind).length + 1 =
          behind.length + 1 + (text s).length + 1 := by
        simp only [List.length_append, List.length_reverse, List.length_cons]
        omega
      have hcount : ((text s).reverse ++ '\n' :: behind).count '\n' + 2 =
          behind.count '\n' + 2 + (text s).count '\n' + 1 := by
        simp only [List.count_append, List.count_reverse, List.count_cons_self]
        omega
      have hline : Cursor.line ⟨'\n' :: behind, text s ++ below text blocks⟩ =
          behind.count '\n' + 2 := by
        simp [Cursor.line]
      have hall := hanswers.cons ⟨'\n' :: behind, text s ++ below text blocks⟩ s hallowed
      rw [hlength, hcount, hline] at hall
      have hbelow : below text (s :: blocks) = '\n' :: (text s ++ below text blocks) := rfl
      rw [hbelow, findFrom_none (by rw [hend]; rfl), hfind, placed]
      exact ⟨_, hall⟩

theorem exists_answers (hend : forall tail, Matcher.Refuses m ('\n' :: tail))
    (h : forall s others, s :: others <:+ blocks ->
      FoundIn m (text s) (allowed s) (below text others)) :
    exists answers, Answers allowed (placed text 0 1 blocks)
      (findAll m (['\n'].intercalate (blocks.map text))) answers := by
  cases blocks with
  | nil =>
      exact ⟨[], ⟨rfl, (fun _ hmem => nomatch hmem), rfl⟩⟩
  | cons s blocks =>
      obtain ⟨answer, hallowed, hfind⟩ := h s blocks (List.suffix_refl _) [] rfl
      obtain ⟨answers, hanswers⟩ := findFrom_below hend (fun other others hsuffix =>
        h other others (hsuffix.trans (List.suffix_cons s blocks))) (text s).reverse
      have hall := hanswers.cons ⟨[], text s ++ below text blocks⟩ s hallowed
      rw [List.length_reverse, List.count_reverse] at hall
      rw [intercalate_map_cons, findAll, hfind, List.append_nil, placed, Nat.zero_add,
        show 1 + (text s).count '\n' + 1 = (text s).count '\n' + 2 by omega]
      exact ⟨_, hall⟩

theorem Answers.values {places : List (Nat × Nat × σ)} {founds : List (Found α)}
    {answers : List ((Nat × Nat × σ) × Option α)} (h : Answers allowed places founds answers) :
    founds.map (·.value) = answers.filterMap (·.2) := by
  have hvalues : founds.map (·.value) = (founds.map Found.shown).map (·.2.2) := by
    rw [List.map_map]
    rfl
  rw [hvalues, h.founds, List.map_filterMap]
  refine List.filterMap_congr fun answer _ => ?_
  cases answer.2 <;> rfl

theorem Answers.eq_map {answer : σ -> Option α} {places : List (Nat × Nat × σ)}
    {founds : List (Found α)} {answers : List ((Nat × Nat × σ) × Option α)}
    (h : Answers (fun s other => other = answer s) places founds answers) :
    answers = places.map fun place => (place, answer place.2.2) := by
  rw [<- h.places, List.map_map]
  refine (List.map_id answers).symm.trans (List.map_congr_left fun other hother => ?_)
  exact Prod.ext rfl (h.allowed other hother)

theorem findAll_blocks {answer : σ -> Option α}
    (hend : forall tail, Matcher.Refuses m ('\n' :: tail))
    (h : forall s others, s :: others <:+ blocks ->
      FoundIn m (text s) (fun other => other = answer s) (below text others)) :
    (findAll m (['\n'].intercalate (blocks.map text))).map Found.shown =
      (placed text 0 1 blocks).filterMap fun place =>
        (answer place.2.2).map fun value => (place.1, place.2.1, value) := by
  obtain ⟨answers, hanswers⟩ := exists_answers hend h
  rw [hanswers.founds, hanswers.eq_map, List.filterMap_map]
  rfl

theorem findAll_blocks_values {answer : σ -> Option α}
    (hend : forall tail, Matcher.Refuses m ('\n' :: tail))
    (h : forall s others, s :: others <:+ blocks ->
      FoundIn m (text s) (fun other => other = answer s) (below text others)) :
    (findAll m (['\n'].intercalate (blocks.map text))).map (·.value) = blocks.filterMap answer := by
  obtain ⟨answers, hanswers⟩ := exists_answers hend h
  calc (findAll m (['\n'].intercalate (blocks.map text))).map (·.value)
      = (placed text 0 1 blocks).filterMap fun place => answer place.2.2 := by
        rw [hanswers.values, hanswers.eq_map, List.filterMap_map]
        rfl
    _ = ((placed text 0 1 blocks).map (·.2.2)).filterMap answer := by
        rw [List.filterMap_map]
        rfl
    _ = blocks.filterMap answer := by
        rw [map_placed]

/-!
# Statements and empty lines
-/

theorem FoundIn.emptyLine {allowed : Option α -> Prop} (h : allowed none) :
    FoundIn m [] allowed rest :=
  fun _ _ => ⟨none, h, rfl⟩

def blockText (text : σ -> List Char) : Option σ -> List Char
  | none => []
  | some s => text s

/-- The text in which each statement, and each empty line, begins a new line. -/
def written (text : σ -> List Char) (blocks : List (Option σ)) : List Char :=
  ['\n'].intercalate (blocks.map (blockText text))

def withLines (text : σ -> List Char) (line : Nat) : List (Option σ) -> List (Nat × σ)
  | [] => []
  | none :: blocks => withLines text (line + 1) blocks
  | some s :: blocks => (line, s) :: withLines text (line + (text s).count '\n' + 1) blocks

theorem withLines_eq (text : σ -> List Char) (offset line : Nat) (blocks : List (Option σ)) :
    withLines text line blocks = (placed (blockText text) offset line blocks).filterMap
      fun place => place.2.2.map fun s => (place.2.1, s) := by
  induction blocks generalizing offset line with
  | nil =>
      rfl
  | cons block blocks ih =>
      cases block with
      | none =>
          exact ih _ _
      | some s =>
          exact congrArg (List.cons (line, s)) (ih _ _)

end Text
end Joinery
