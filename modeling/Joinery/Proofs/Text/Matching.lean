import Joinery.Text.Matching
import Mathlib.Data.List.TakeWhile

/-!
# Matching in a longer text

## What more text at the end changes

A matcher looks at what it reads and, at most, at the next character.  So the answers
that stop before the old end of a text stay what they are when the text goes on, and
only answers that reach the old end can change.
-/

namespace Joinery
namespace Text

theorem suffix_of_append_eq {first second more rest : List Char}
    (h : first ++ more = second ++ rest) (hle : more.length ≤ rest.length) : more <:+ rest := by
  have hmore : more <:+ second ++ rest := by
    rw [<- h]
    exact List.suffix_append first more
  exact List.suffix_of_suffix_length_le hmore (List.suffix_append second rest) hle

namespace Cursor

def push (more : List Char) (c : Cursor) : Cursor :=
  ⟨c.behind, c.ahead ++ more⟩

/-- From one place, reading these characters leads to the other place. -/
def Reads (c : Cursor) (read : List Char) (d : Cursor) : Prop :=
  c.ahead = read ++ d.ahead ∧ d.behind = read.reverse ++ c.behind

theorem Reads.refl (c : Cursor) : c.Reads [] c :=
  ⟨rfl, rfl⟩

theorem Reads.trans {c d e : Cursor} {first second : List Char} (hfirst : c.Reads first d)
    (hsecond : d.Reads second e) : c.Reads (first ++ second) e := by
  constructor
  · rw [hfirst.1, hsecond.1, List.append_assoc]
  · rw [hsecond.2, hfirst.2, List.reverse_append, List.append_assoc]

theorem Reads.unique {c d e : Cursor} {read : List Char} (hd : c.Reads read d)
    (he : c.Reads read e) : d = e := by
  obtain ⟨behind, ahead⟩ := d
  obtain ⟨behind', ahead'⟩ := e
  obtain ⟨hahead, hbehind⟩ := hd
  obtain ⟨hahead', hbehind'⟩ := he
  simp only at hahead hbehind hahead' hbehind'
  rw [hahead] at hahead'
  rw [hbehind, hbehind', List.append_cancel_left hahead']

theorem Reads.length {c d : Cursor} {read : List Char} (h : c.Reads read d) :
    c.ahead.length = read.length + d.ahead.length := by
  rw [h.1, List.length_append]

theorem Reads.exists_push {c d : Cursor} {read more : List Char} (h : (c.push more).Reads read d)
    (hd : more.length ≤ d.ahead.length) : exists base : Cursor, d = base.push more := by
  have hahead : c.ahead ++ more = read ++ d.ahead := h.1
  obtain ⟨front, hfront⟩ : more <:+ d.ahead := suffix_of_append_eq hahead hd
  refine ⟨⟨d.behind, front⟩, ?_⟩
  show d = ⟨d.behind, front ++ more⟩
  rw [hfront]

/-- What is read up to a place no earlier than the old end begins with the shorter text. -/
theorem Reads.prefix_of_le {c d : Cursor} {read more : List Char} (h : (c.push more).Reads read d)
    (hd : d.ahead.length ≤ more.length) : c.ahead <+: read := by
  have hahead : c.ahead ++ more = read ++ d.ahead := h.1
  refine List.prefix_of_prefix_length_le (List.prefix_append c.ahead more) ?_ ?_
  · rw [hahead]
    exact List.prefix_append _ _
  · have hlength := congrArg List.length hahead
    rw [List.length_append, List.length_append] at hlength
    omega

theorem getLast?_of_atLineStart {before behind ahead : List Char} (hne : before ≠ [])
    (h : Cursor.atLineStart ⟨before.reverse ++ behind, ahead⟩ = true) :
    before.getLast? = some '\n' := by
  rw [<- List.head?_reverse]
  cases hreverse : before.reverse with
  | nil =>
      exact absurd (List.reverse_eq_nil_iff.mp hreverse) hne
  | cons last front =>
      rw [hreverse] at h
      have hlast : last = '\n' := by simpa [atLineStart] using h
      rw [hlast, List.head?_cons]

end Cursor

namespace Matcher

variable {α β γ : Type}

def pushed (more : List Char) (found : α × Cursor) : α × Cursor :=
  (found.1, found.2.push more)

def leaves (count : Nat) (found : α × Cursor) : Bool :=
  decide (count < found.2.ahead.length)

theorem leaves_pushed (more : List Char) (found : α × Cursor) :
    leaves more.length (pushed more found) = leaves 0 found := by
  simp [leaves, pushed, Cursor.push]

/-- The matcher reads forwards, and only characters of a class. -/
def Over (p : Char -> Bool) (m : Matcher α) : Prop :=
  forall c found, found ∈ m c ->
    exists read, c.Reads read found.2 ∧ forall ch, ch ∈ read -> p ch = true

abbrev Forward (m : Matcher α) : Prop :=
  Over (fun _ => true) m

def InsideAt (m : Matcher α) (c : Cursor) : Prop :=
  forall more,
    (m (c.push more)).filter (leaves more.length) = ((m c).filter (leaves 0)).map (pushed more)

/-- The matcher reads forwards, and what it answers inside a text does not depend on its end. -/
structure Local (m : Matcher α) : Prop where
  forward : Forward m
  inside : forall c, InsideAt m c

theorem mem_bind_iff {m : Matcher α} {next : α -> Matcher β} {c : Cursor} {found : β × Cursor} :
    found ∈ (m >>= next) c <-> exists first, first ∈ m c ∧ found ∈ next first.1 first.2 :=
  List.mem_flatMap

theorem mem_give_iff {value : α} {c : Cursor} {found : α × Cursor} :
    found ∈ give value c <-> found = (value, c) :=
  List.mem_singleton

theorem bind_of_eq {m : Matcher α} {next : α -> Matcher β} {c stop : Cursor} {value : α}
    (h : m c = [(value, stop)]) : (m >>= next) c = next value stop := by
  show (m c).flatMap _ = _
  rw [h]
  exact List.append_nil _

theorem bind_assoc (m : Matcher α) (next : α -> Matcher β) (later : β -> Matcher γ) :
    (m >>= next) >>= later = m >>= fun a => next a >>= later := by
  funext c
  exact List.flatMap_assoc

theorem give_bind (value : α) (next : α -> Matcher β) : give value >>= next = next value := by
  funext c
  exact List.append_nil _

theorem bind_give (m : Matcher α) (f : α -> β) (c : Cursor) :
    (m >>= fun a => give (f a)) c = (m c).map fun found => (f found.1, found.2) :=
  List.map_eq_flatMap.symm

theorem optional_eq (m : Matcher α) :
    optional m = orElse (m >>= fun a => give (some a)) (give none) := by
  funext c
  show (m c).map (fun found => (some found.1, found.2)) ++ [(none, c)] =
    (m >>= fun a => give (some a)) c ++ [(none, c)]
  rw [bind_give]

theorem flatMap_filter_eq {l : List α} {f : α -> List β} {p : α -> Bool}
    (h : forall a, a ∈ l -> p a = false -> f a = []) :
    l.flatMap f = (l.filter p).flatMap f := by
  induction l with
  | nil =>
      rfl
  | cons a rest ih =>
      have hrest := ih fun b hb => h b (List.mem_cons_of_mem a hb)
      cases ha : p a with
      | true =>
          rw [List.filter_cons_of_pos ha, List.flatMap_cons, List.flatMap_cons, hrest]
      | false =>
          rw [List.filter_cons_of_neg (by simp [ha]), List.flatMap_cons,
            h a (List.mem_cons_self ..) ha, hrest]
          rfl

/-!
# Reading forwards
-/

theorem Over.length_le {p : Char -> Bool} {m : Matcher α} (hm : Over p m) {c : Cursor}
    {found : α × Cursor} (h : found ∈ m c) : found.2.ahead.length ≤ c.ahead.length := by
  obtain ⟨read, hread, _⟩ := hm c found h
  rw [hread.length]
  exact Nat.le_add_left _ _

theorem Over.weaken {p q : Char -> Bool} {m : Matcher α} (hm : Over p m)
    (h : forall ch, p ch = true -> q ch = true) : Over q m := by
  intro c found hfound
  obtain ⟨read, hread, hclass⟩ := hm c found hfound
  exact ⟨read, hread, fun ch hch => h ch (hclass ch hch)⟩

theorem Over.give {p : Char -> Bool} (value : α) : Over p (give value) := by
  intro c found h
  rw [mem_give_iff.mp h]
  exact ⟨[], Cursor.Reads.refl c, fun _ hch => absurd hch List.not_mem_nil⟩

theorem Over.bind {p : Char -> Bool} {m : Matcher α} {next : α -> Matcher β} (hm : Over p m)
    (hnext : forall a, Over p (next a)) : Over p (m >>= next) := by
  intro c found h
  obtain ⟨first, hfirst, hfound⟩ := mem_bind_iff.mp h
  obtain ⟨read, hread, hclass⟩ := hm c first hfirst
  obtain ⟨more, hmore, hmoreClass⟩ := hnext first.1 first.2 found hfound
  refine ⟨read ++ more, hread.trans hmore, ?_⟩
  intro ch hch
  rcases List.mem_append.mp hch with hch | hch
  · exact hclass ch hch
  · exact hmoreClass ch hch

theorem Over.orElse {p : Char -> Bool} {m n : Matcher α} (hm : Over p m) (hn : Over p n) :
    Over p (orElse m n) := by
  intro c found h
  rcases List.mem_append.mp h with h | h
  · exact hm c found h
  · exact hn c found h

theorem Over.optional {p : Char -> Bool} {m : Matcher α} (hm : Over p m) : Over p (optional m) := by
  rw [optional_eq]
  exact Over.orElse (Over.bind hm fun _ => Over.give _) (Over.give _)

theorem Over.anyOf {p : Char -> Bool} {ms : List (Matcher α)}
    (h : forall m, m ∈ ms -> Over p m) : Over p (anyOf ms) := by
  induction ms with
  | nil =>
      exact fun _ _ hmem => absurd hmem List.not_mem_nil
  | cons m rest ih =>
      exact Over.orElse (h m (List.mem_cons_self ..))
        (ih fun n hn => h n (List.mem_cons_of_mem m hn))

theorem mem_optional_iff {m : Matcher α} {c : Cursor} {found : Option α × Cursor} :
    found ∈ Matcher.optional m c <->
      (exists first, first ∈ m c ∧ found = (some first.1, first.2)) ∨ found = (none, c) := by
  show found ∈ (m c).map (fun first => (some first.1, first.2)) ++ [(none, c)] <-> _
  simp only [List.mem_append, List.mem_map, List.mem_singleton, eq_comm]

theorem mem_anyOf_iff {ms : List (Matcher α)} {c : Cursor} {found : α × Cursor} :
    found ∈ Matcher.anyOf ms c <-> exists m, m ∈ ms ∧ found ∈ m c := by
  induction ms with
  | nil =>
      constructor
      · intro h
        cases h
      · rintro ⟨m, hm, _⟩
        cases hm
  | cons m rest ih =>
      show found ∈ m c ++ Matcher.anyOf rest c <-> _
      simp only [List.mem_append, ih, List.mem_cons, exists_eq_or_imp]

theorem mem_guard_iff {q : Cursor -> Bool} {c : Cursor} {found : Unit × Cursor} :
    found ∈ guard q c <-> q c = true ∧ found = ((), c) := by
  unfold guard
  cases q c with
  | true =>
      simp
  | false =>
      simp

theorem Over.guard {p : Char -> Bool} (q : Cursor -> Bool) : Over p (guard q) := by
  intro c found h
  rw [(mem_guard_iff.mp h).2]
  exact ⟨[], Cursor.Reads.refl c, fun _ hch => absurd hch List.not_mem_nil⟩

theorem one_cons (p : Char -> Bool) (behind rest : List Char) (next : Char) :
    one p ⟨behind, next :: rest⟩ = if p next then [(next, ⟨next :: behind, rest⟩)] else [] :=
  rfl

theorem mem_one_iff {p : Char -> Bool} {c : Cursor} {found : Char × Cursor} :
    found ∈ one p c <-> p found.1 = true ∧ c.Reads [found.1] found.2 := by
  obtain ⟨behind, ahead⟩ := c
  obtain ⟨value, ⟨behind', ahead'⟩⟩ := found
  cases ahead with
  | nil =>
      simp [one, Cursor.Reads]
  | cons next rest =>
      rw [one_cons]
      constructor
      · intro h
        split at h
        · next hp =>
            cases List.mem_singleton.mp h
            exact ⟨hp, rfl, rfl⟩
        · cases h
      · rintro ⟨hp, hahead, hbehind⟩
        simp only [List.singleton_append, List.cons.injEq] at hahead
        simp only [List.reverse_cons, List.reverse_nil, List.nil_append,
          List.singleton_append] at hbehind
        obtain ⟨rfl, rfl⟩ := hahead
        subst hbehind
        rw [if_pos hp]
        exact List.mem_singleton.mpr rfl

theorem Over.one {p q : Char -> Bool} (h : forall ch, q ch = true -> p ch = true) :
    Over p (one q) := by
  intro c found hfound
  obtain ⟨hvalue, hread⟩ := mem_one_iff.mp hfound
  refine ⟨[found.1], hread, ?_⟩
  intro ch hch
  rw [List.mem_singleton.mp hch]
  exact h _ hvalue

theorem letters_cons (letter : Char) (rest : List Char) :
    letters (letter :: rest) = one (fun c => decide (c = letter)) >>= fun _ => letters rest := by
  funext c
  obtain ⟨behind, ahead⟩ := c
  cases ahead with
  | nil =>
      rfl
  | cons next tail =>
      show letters (letter :: rest) ⟨behind, next :: tail⟩ =
        (one (fun c => decide (c = letter)) ⟨behind, next :: tail⟩).flatMap fun found =>
          letters rest found.2
      rw [one_cons]
      by_cases h : next = letter
      · simp [letters, Cursor.readLetters, h]
      · simp [letters, Cursor.readLetters, h]

theorem letters_nil : letters [] = give () :=
  rfl

theorem mem_letters_iff {word : List Char} {c : Cursor} {found : Unit × Cursor} :
    found ∈ letters word c <-> c.Reads word found.2 := by
  induction word generalizing c with
  | nil =>
      rw [letters_nil, mem_give_iff]
      constructor
      · intro h
        rw [h]
        exact Cursor.Reads.refl c
      · intro h
        exact Prod.ext rfl ((Cursor.Reads.refl c).unique h).symm
  | cons letter rest ih =>
      rw [letters_cons, mem_bind_iff]
      constructor
      · rintro ⟨first, hfirst, hrest⟩
        obtain ⟨hletter, hread⟩ := mem_one_iff.mp hfirst
        rw [of_decide_eq_true hletter] at hread
        exact hread.trans (ih.mp hrest)
      · intro h
        let next : Cursor := ⟨letter :: c.behind, rest ++ found.2.ahead⟩
        have hnext : c.Reads [letter] next := ⟨h.1, rfl⟩
        refine ⟨(letter, next), mem_one_iff.mpr ⟨by simp, hnext⟩, ih.mpr ⟨rfl, ?_⟩⟩
        have hbehind := h.2
        simpa [next] using hbehind

theorem Over.letters {p : Char -> Bool} {word : List Char}
    (h : forall ch, ch ∈ word -> p ch = true) : Over p (letters word) := by
  induction word with
  | nil =>
      exact Over.give ()
  | cons letter rest ih =>
      rw [letters_cons]
      refine Over.bind (Over.one ?_) fun _ => ih fun ch hch => h ch (List.mem_cons_of_mem _ hch)
      intro ch hch
      rw [of_decide_eq_true hch]
      exact h letter (List.mem_cons_self ..)

theorem Over.stretch {p q : Char -> Bool} (h : forall ch, q ch = true -> p ch = true) :
    Over p (stretch q) := by
  intro c found hfound
  rw [List.mem_singleton.mp hfound]
  refine ⟨c.ahead.takeWhile q, ⟨List.takeWhile_append_dropWhile.symm, rfl⟩, ?_⟩
  intro ch hch
  exact h ch (List.mem_takeWhile_imp hch)

theorem stretch1_eq (p : Char -> Bool) :
    stretch1 p = one p >>= fun first => stretch p >>= fun rest => give (first :: rest) := by
  funext c
  obtain ⟨behind, ahead⟩ := c
  cases ahead with
  | nil =>
      rfl
  | cons next tail =>
      show stretch1 p ⟨behind, next :: tail⟩ =
        (one p ⟨behind, next :: tail⟩).flatMap fun found =>
          (stretch p >>= fun rest => give (found.1 :: rest)) found.2
      rw [one_cons]
      cases h : p next with
      | true =>
          simp [stretch1, h, bind_give, stretch, Cursor.readWhile]
      | false =>
          simp [stretch1, h]

theorem Over.stretch1 {p q : Char -> Bool} (h : forall ch, q ch = true -> p ch = true) :
    Over p (stretch1 q) := by
  rw [stretch1_eq]
  exact Over.bind (Over.one h) fun _ => Over.bind (Over.stretch h) fun _ => Over.give _

theorem mem_beginnings_iff {p : Char -> Bool} {c : Cursor} {found : List Char × Cursor} :
    found ∈ beginnings p c <->
      c.Reads found.1 found.2 ∧ forall ch, ch ∈ found.1 -> p ch = true := by
  constructor
  · intro h
    obtain ⟨size, hmem, rfl⟩ := List.mem_map.mp h
    obtain ⟨tail, htail⟩ := List.takeWhile_prefix (l := c.ahead) p
    have hsize : size ≤ (c.ahead.takeWhile p).length := by
      simpa [Nat.lt_succ_iff] using hmem
    have hdrop : c.ahead.drop size = (c.ahead.takeWhile p).drop size ++ tail := by
      conv => lhs; rw [<- htail]
      exact List.drop_append_of_le_length hsize
    refine ⟨⟨?_, rfl⟩, ?_⟩
    · show c.ahead = (c.ahead.takeWhile p).take size ++ c.ahead.drop size
      rw [hdrop, <- List.append_assoc, List.take_append_drop, htail]
    · intro ch hch
      exact List.mem_takeWhile_imp (List.mem_of_mem_take hch)
  · rintro ⟨⟨hahead, hbehind⟩, hclass⟩
    obtain ⟨read, ⟨behind, ahead⟩⟩ := found
    simp only at hahead hbehind hclass
    have htake : c.ahead.takeWhile p = read ++ ahead.takeWhile p := by
      rw [hahead]
      exact List.takeWhile_append_of_pos hclass
    refine List.mem_map.mpr ⟨read.length, ?_, ?_⟩
    · simp only [List.mem_reverse, List.mem_range, htake, List.length_append]
      omega
    · rw [htake, List.take_left, hahead, List.drop_left, hbehind]

theorem Over.beginnings {p q : Char -> Bool} (h : forall ch, q ch = true -> p ch = true) :
    Over p (beginnings q) := by
  intro c found hfound
  obtain ⟨hread, hclass⟩ := mem_beginnings_iff.mp hfound
  exact ⟨found.1, hread, fun ch hch => h ch (hclass ch hch)⟩

theorem mem_someBlanks_iff {c : Cursor} {found : Unit × Cursor} :
    found ∈ someBlanks c <->
      exists gap, gap ≠ [] ∧ (forall ch, ch ∈ gap -> isBlank ch = true) ∧
        c.Reads gap found.2 := by
  show found ∈ (one isBlank >>= fun _ => beginnings isBlank >>= fun _ => give ()) c <-> _
  constructor
  · intro h
    obtain ⟨first, hfirst, h⟩ := mem_bind_iff.mp h
    obtain ⟨rest, hrest, h⟩ := mem_bind_iff.mp h
    obtain ⟨hblank, hread⟩ := mem_one_iff.mp hfirst
    obtain ⟨hmore, hclass⟩ := mem_beginnings_iff.mp hrest
    rw [mem_give_iff.mp h]
    refine ⟨[first.1] ++ rest.1, by simp, ?_, hread.trans hmore⟩
    intro ch hch
    rcases List.mem_append.mp hch with hch | hch
    · rw [List.mem_singleton.mp hch]
      exact hblank
    · exact hclass ch hch
  · rintro ⟨gap, hne, hclass, hread⟩
    cases gap with
    | nil =>
        exact absurd rfl hne
    | cons first rest =>
        let next : Cursor := ⟨first :: c.behind, rest ++ found.2.ahead⟩
        have hfirst : c.Reads [first] next := ⟨hread.1, rfl⟩
        have hrest : next.Reads rest found.2 := by
          refine ⟨rfl, ?_⟩
          rw [hread.2]
          simp [next]
        refine mem_bind_iff.mpr ⟨(first, next), ?_, ?_⟩
        · exact mem_one_iff.mpr ⟨hclass first (List.mem_cons_self ..), hfirst⟩
        · refine mem_bind_iff.mpr ⟨(rest, found.2), ?_, mem_give_iff.mpr rfl⟩
          exact mem_beginnings_iff.mpr
            ⟨hrest, fun ch hch => hclass ch (List.mem_cons_of_mem _ hch)⟩

/-!
# Answers that stay inside
-/

theorem insideAt_end {m : Matcher α} (hm : Forward m) {c : Cursor} (hc : c.ahead = []) :
    InsideAt m c := by
  intro more
  have hbase : (m c).filter (leaves 0) = [] := by
    refine List.filter_eq_nil_iff.mpr ?_
    intro found hfound
    have hle := hm.length_le hfound
    rw [hc] at hle
    simpa [leaves] using hle
  have hlonger : (m (c.push more)).filter (leaves more.length) = [] := by
    refine List.filter_eq_nil_iff.mpr ?_
    intro found hfound
    have hle := hm.length_le hfound
    simpa [leaves, Cursor.push, hc] using hle
  rw [hbase, hlonger]
  rfl

theorem InsideAt.give (value : α) (c : Cursor) : InsideAt (give value) c := by
  intro more
  show [pushed more (value, c)].filter (leaves more.length) =
    ([(value, c)].filter (leaves 0)).map (pushed more)
  rw [List.filter_cons, List.filter_cons, leaves_pushed]
  cases leaves 0 (value, c) with
  | true =>
      rfl
  | false =>
      rfl

theorem InsideAt.bind {m : Matcher α} {next : α -> Matcher β} {c : Cursor} (hm : InsideAt m c)
    (hforward : forall a, Forward (next a))
    (hnext : forall first, first ∈ m c -> InsideAt (next first.1) first.2) :
    InsideAt (m >>= next) c := by
  intro more
  -- an answer that stops inside goes on from a place inside
  have hshort : forall (count : Nat) (first : α × Cursor), leaves count first = false ->
      (next first.1 first.2).filter (leaves count) = [] := by
    intro count first hfirst
    refine List.filter_eq_nil_iff.mpr ?_
    intro found hfound
    have hle := (hforward first.1).length_le hfound
    simp only [leaves, decide_eq_false_iff_not, decide_eq_true_eq] at hfirst ⊢
    omega
  show ((m (c.push more)).flatMap fun first => next first.1 first.2).filter _ =
    (((m c).flatMap fun first => next first.1 first.2).filter _).map _
  rw [List.filter_flatMap, List.filter_flatMap,
    flatMap_filter_eq fun first _ => hshort more.length first,
    flatMap_filter_eq fun first _ => hshort 0 first, hm more, List.flatMap_map, List.map_flatMap]
  rw [List.flatMap_def, List.flatMap_def]
  refine congrArg List.flatten (List.map_congr_left ?_)
  intro first hfirst
  exact hnext first (List.mem_filter.mp hfirst).1 more

theorem InsideAt.orElse {m n : Matcher α} {c : Cursor} (hm : InsideAt m c) (hn : InsideAt n c) :
    InsideAt (orElse m n) c := by
  intro more
  show (m (c.push more) ++ n (c.push more)).filter _ = ((m c ++ n c).filter _).map _
  rw [List.filter_append, List.filter_append, List.map_append, hm more, hn more]

/-- Two matchers that answer alike at a character, whatever follows it. -/
theorem InsideAt.of_eq {m n : Matcher α} {behind rest : List Char} {next : Char}
    (hm : InsideAt m ⟨behind, next :: rest⟩)
    (h : forall rest, n ⟨behind, next :: rest⟩ = m ⟨behind, next :: rest⟩) :
    InsideAt n ⟨behind, next :: rest⟩ := by
  intro more
  show (n ⟨behind, next :: (rest ++ more)⟩).filter _ = _
  rw [h, h]
  exact hm more

theorem InsideAt.one (p : Char -> Bool) (c : Cursor) : InsideAt (one p) c := by
  obtain ⟨behind, ahead⟩ := c
  cases ahead with
  | nil =>
      exact insideAt_end (Over.one fun _ _ => rfl) rfl
  | cons next rest =>
      intro more
      show (Matcher.one p ⟨behind, next :: (rest ++ more)⟩).filter _ = _
      rw [one_cons, one_cons]
      cases p next with
      | true =>
          exact InsideAt.give next ⟨next :: behind, rest⟩ more
      | false =>
          rfl

theorem stretch_cons_pos {p : Char -> Bool} {next : Char} (h : p next = true)
    (behind rest : List Char) :
    stretch p ⟨behind, next :: rest⟩ =
      (one p >>= fun first => stretch p >>= fun word => give (first :: word))
        ⟨behind, next :: rest⟩ := by
  show _ = (one p ⟨behind, next :: rest⟩).flatMap fun found =>
    (stretch p >>= fun word => give (found.1 :: word)) found.2
  rw [one_cons, if_pos h]
  simp [bind_give, stretch, Cursor.readWhile, h]

theorem stretch_cons_neg {p : Char -> Bool} {next : Char} (h : p next = false)
    (behind rest : List Char) :
    stretch p ⟨behind, next :: rest⟩ = give [] ⟨behind, next :: rest⟩ := by
  simp [stretch, Cursor.readWhile, give, h]

theorem beginnings_cons (p : Char -> Bool) (behind rest : List Char) (next : Char) :
    beginnings p ⟨behind, next :: rest⟩ =
      orElse (one p >>= fun first => beginnings p >>= fun word => give (first :: word)) (give [])
        ⟨behind, next :: rest⟩ := by
  show _ = (one p ⟨behind, next :: rest⟩).flatMap (fun found =>
    (beginnings p >>= fun word => give (found.1 :: word)) found.2) ++ [([], ⟨behind, next :: rest⟩)]
  rw [one_cons]
  cases h : p next with
  | true =>
      rw [if_pos rfl]
      simp only [List.flatMap_cons, List.flatMap_nil, List.append_nil, bind_give]
      simp only [beginnings, List.takeWhile_cons, h, if_true, List.length_cons]
      rw [List.range_succ_eq_map]
      simp [Function.comp_def]
  | false =>
      simp [h, beginnings]

/-!
# Local matchers
-/

theorem Local.of_mem_push {m : Matcher α} (hm : Local m) {c : Cursor} {more : List Char}
    {found : α × Cursor} (h : found ∈ m (c.push more))
    (hin : more.length < found.2.ahead.length) :
    exists base, base ∈ m c ∧ base.2.ahead ≠ [] ∧ found = pushed more base := by
  have hmem : found ∈ (m (c.push more)).filter (leaves more.length) :=
    List.mem_filter.mpr ⟨h, by simpa [leaves] using hin⟩
  rw [hm.inside c more] at hmem
  obtain ⟨base, hbase, heq⟩ := List.mem_map.mp hmem
  obtain ⟨hbase, hleaves⟩ := List.mem_filter.mp hbase
  refine ⟨base, hbase, ?_, heq.symm⟩
  intro hnil
  simp [leaves, hnil] at hleaves

theorem Local.give (value : α) : Local (give value) :=
  ⟨Over.give value, InsideAt.give value⟩

theorem Local.bind {m : Matcher α} {next : α -> Matcher β} (hm : Local m)
    (hnext : forall a, Local (next a)) : Local (m >>= next) :=
  ⟨Over.bind hm.forward fun a => (hnext a).forward, fun c =>
    InsideAt.bind (hm.inside c) (fun a => (hnext a).forward) fun first _ =>
      (hnext first.1).inside first.2⟩

theorem Local.orElse {m n : Matcher α} (hm : Local m) (hn : Local n) : Local (orElse m n) :=
  ⟨Over.orElse hm.forward hn.forward, fun c => InsideAt.orElse (hm.inside c) (hn.inside c)⟩

theorem Local.optional {m : Matcher α} (hm : Local m) : Local (optional m) := by
  rw [optional_eq]
  exact Local.orElse (Local.bind hm fun _ => Local.give _) (Local.give _)

theorem Local.anyOf {ms : List (Matcher α)} (h : forall m, m ∈ ms -> Local m) :
    Local (anyOf ms) := by
  induction ms with
  | nil =>
      exact ⟨fun _ _ hmem => absurd hmem List.not_mem_nil, fun _ _ => rfl⟩
  | cons m rest ih =>
      exact Local.orElse (h m (List.mem_cons_self ..))
        (ih fun n hn => h n (List.mem_cons_of_mem m hn))

theorem Local.guard {p : Cursor -> Bool}
    (h : forall more (c : Cursor), c.ahead ≠ [] -> p (c.push more) = p c) : Local (guard p) := by
  refine ⟨Over.guard p, ?_⟩
  intro c
  by_cases hc : c.ahead = []
  · exact insideAt_end (Over.guard p) hc
  · intro more
    unfold Matcher.guard
    rw [h more c hc]
    cases p c with
    | true =>
        exact InsideAt.give () c more
    | false =>
        rfl

theorem Local.lineStart : Local lineStart := by
  apply Local.guard
  intro more c _
  rfl

theorem Local.one (p : Char -> Bool) : Local (one p) :=
  ⟨Over.one fun _ _ => rfl, InsideAt.one p⟩

theorem Local.letters (word : List Char) : Local (letters word) := by
  induction word with
  | nil =>
      exact Local.give ()
  | cons letter rest ih =>
      rw [letters_cons]
      exact Local.bind (Local.one _) fun _ => ih

theorem Local.word (text : String) : Local (word text) :=
  Local.letters text.toList

theorem Local.stretch (p : Char -> Bool) : Local (stretch p) := by
  refine ⟨Over.stretch fun _ _ => rfl, ?_⟩
  rintro ⟨behind, ahead⟩
  induction ahead generalizing behind with
  | nil =>
      exact insideAt_end (Over.stretch fun _ _ => rfl) rfl
  | cons next rest ih =>
      cases h : p next with
      | true =>
          refine InsideAt.of_eq (InsideAt.bind (InsideAt.one p _) ?_ ?_)
            fun rest => stretch_cons_pos h behind rest
          · intro first
            exact Over.bind (Over.stretch fun _ _ => rfl) fun _ => Over.give _
          · intro first hfirst
            rw [one_cons, if_pos h] at hfirst
            cases List.mem_singleton.mp hfirst
            exact InsideAt.bind (ih _) (fun _ => Over.give _) fun _ _ => InsideAt.give _ _
      | false =>
          exact InsideAt.of_eq (InsideAt.give [] _) fun rest => stretch_cons_neg h behind rest

theorem Local.beginnings (p : Char -> Bool) : Local (beginnings p) := by
  refine ⟨Over.beginnings fun _ _ => rfl, ?_⟩
  rintro ⟨behind, ahead⟩
  induction ahead generalizing behind with
  | nil =>
      exact insideAt_end (Over.beginnings fun _ _ => rfl) rfl
  | cons next rest ih =>
      refine InsideAt.of_eq
        (InsideAt.orElse (InsideAt.bind (InsideAt.one p _) ?_ ?_) (InsideAt.give _ _))
        fun rest => beginnings_cons p behind rest next
      · intro first
        exact Over.bind (Over.beginnings fun _ _ => rfl) fun _ => Over.give _
      · intro first hfirst
        rw [one_cons] at hfirst
        split at hfirst
        · cases List.mem_singleton.mp hfirst
          exact InsideAt.bind (ih _) (fun _ => Over.give _) fun _ _ => InsideAt.give _ _
        · cases hfirst

theorem Local.stretch1 (p : Char -> Bool) : Local (stretch1 p) := by
  rw [stretch1_eq]
  exact Local.bind (Local.one p) fun _ => Local.bind (Local.stretch p) fun _ => Local.give _

end Matcher
end Text
end Joinery
