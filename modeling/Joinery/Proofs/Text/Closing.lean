import Joinery.Proofs.Text.Matching

/-!
# Finding in a longer text

## Matchers that end with a character of a class

A matcher that always ends with a quote cannot answer differently because of more text
without quotes.  What is found in a text then stays found when such text follows it,
and nothing is found in addition.
-/

namespace Joinery
namespace Text
namespace Matcher

variable {α β : Type} {last : Char -> Bool} {more : List Char}

/-- The answer leaves at least this many characters. -/
def keeps (count : Nat) (found : α × Cursor) : Bool :=
  decide (count ≤ found.2.ahead.length)

theorem keeps_pushed (more : List Char) (found : α × Cursor) :
    keeps more.length (pushed more found) = true := by
  simp [keeps, pushed, Cursor.push]

/--
The matcher ends with a character of a class, and its answers that stop no later than at the end of
a text are the same when the text goes on with these characters.
-/
structure Closing (last : Char -> Bool) (more : List Char) (m : Matcher α) : Prop where
  ends : forall c found, found ∈ m c ->
    exists read ch, last ch = true ∧ c.Reads (read ++ [ch]) found.2
  settled : forall c,
    (m (c.push more)).filter (keeps more.length) = (m c).map (pushed more)

theorem Closing.length_lt {m : Matcher α} (hm : Closing last more m) {c : Cursor}
    {found : α × Cursor} (h : found ∈ m c) : found.2.ahead.length < c.ahead.length := by
  obtain ⟨read, ch, _, hread⟩ := hm.ends c found h
  have hlength := hread.length
  simp only [List.length_append, List.length_singleton] at hlength
  omega

theorem Closing.forward {m : Matcher α} (hm : Closing last more m) : Forward m := by
  intro c found h
  obtain ⟨read, ch, _, hread⟩ := hm.ends c found h
  exact ⟨read ++ [ch], hread, fun _ _ => rfl⟩

theorem Closing.of_mem_push {m : Matcher α} (hm : Closing last more m) {c : Cursor}
    {found : α × Cursor} (h : found ∈ m (c.push more))
    (hkeeps : more.length ≤ found.2.ahead.length) :
    exists base, base ∈ m c ∧ found = pushed more base := by
  have hmem : found ∈ (m (c.push more)).filter (keeps more.length) :=
    List.mem_filter.mpr ⟨h, by simpa [keeps] using hkeeps⟩
  rw [hm.settled c] at hmem
  obtain ⟨base, hbase, heq⟩ := List.mem_map.mp hmem
  exact ⟨base, hbase, heq.symm⟩

theorem Closing.mem_push {m : Matcher α} (hm : Closing last more m) {c : Cursor}
    {found : α × Cursor} (h : found ∈ m c) : pushed more found ∈ m (c.push more) := by
  have hmem : pushed more found ∈ (m c).map (pushed more) := List.mem_map_of_mem h
  rw [<- hm.settled c] at hmem
  exact (List.mem_filter.mp hmem).1

theorem Closing.push_eq {m : Matcher α} (hm : Closing last more m)
    (hmore : forall ch, ch ∈ more -> last ch = false) (c : Cursor) :
    m (c.push more) = (m c).map (pushed more) := by
  rw [<- hm.settled c]
  refine (List.filter_eq_self.mpr ?_).symm
  intro found hfound
  obtain ⟨read, ch, hch, hread⟩ := hm.ends _ found hfound
  by_cases hkeeps : more.length ≤ found.2.ahead.length
  · simpa [keeps] using hkeeps
  · -- the last character read would be one of the added ones
    have hsplit : c.ahead ++ more = read ++ (ch :: found.2.ahead) := by
      have hahead := hread.1
      simpa [Cursor.push] using hahead
    have hin : ch ∈ more := by
      have hsuffix : (ch :: found.2.ahead) <:+ more :=
        suffix_of_append_eq hsplit.symm (by simp; omega)
      exact hsuffix.subset (List.mem_cons_self ..)
    rw [hmore ch hin] at hch
    cases hch

/-!
# Rules
-/

theorem Closing.one {p : Char -> Bool} (hp : forall ch, p ch = true -> last ch = true) :
    Closing last more (one p) := by
  constructor
  · intro c found h
    obtain ⟨hvalue, hread⟩ := mem_one_iff.mp h
    exact ⟨[], found.1, hp _ hvalue, hread⟩
  · rintro ⟨behind, ahead⟩
    cases ahead with
    | nil =>
        refine List.filter_eq_nil_iff.mpr ?_
        intro found h
        have hlength := (mem_one_iff.mp h).2.length
        simp only [Cursor.push, List.nil_append, List.length_singleton] at hlength
        simp only [keeps, decide_eq_true_eq]
        omega
    | cons next rest =>
        show (Matcher.one p ⟨behind, next :: (rest ++ more)⟩).filter _ = _
        rw [one_cons, one_cons]
        cases p next with
        | true =>
            have hkeeps := keeps_pushed more (next, (⟨next :: behind, rest⟩ : Cursor))
            exact List.filter_cons_of_pos hkeeps
        | false =>
            rfl

theorem Closing.bind {m : Matcher α} {next : α -> Matcher β} (hm : Local m)
    (hnext : forall c first, first ∈ m c -> Closing last more (next first.1)) :
    Closing last more (m >>= next) := by
  constructor
  · intro c found h
    obtain ⟨first, hfirst, hfound⟩ := mem_bind_iff.mp h
    obtain ⟨start, hstart, _⟩ := hm.forward c first hfirst
    obtain ⟨read, ch, hch, hread⟩ := (hnext c first hfirst).ends first.2 found hfound
    refine ⟨start ++ read, ch, hch, ?_⟩
    rw [List.append_assoc]
    exact hstart.trans hread
  · intro c
    have hpush : forall first : α × Cursor, first ∈ m (c.push more) ->
        leaves more.length first = false ->
        (next first.1 first.2).filter (keeps more.length) = [] := by
      intro first hmem hfirst
      refine List.filter_eq_nil_iff.mpr ?_
      intro found hfound
      have hlt := (hnext _ first hmem).length_lt hfound
      simp only [leaves, decide_eq_false_iff_not] at hfirst
      simp only [keeps, decide_eq_true_eq]
      omega
    have hbase : forall first : α × Cursor, first ∈ m c -> leaves 0 first = false ->
        next first.1 first.2 = [] := by
      intro first hmem hfirst
      refine List.eq_nil_iff_forall_not_mem.mpr ?_
      intro found hfound
      have hlt := (hnext _ first hmem).length_lt hfound
      simp only [leaves, decide_eq_false_iff_not] at hfirst
      omega
    show ((m (c.push more)).flatMap fun first => next first.1 first.2).filter _ =
      ((m c).flatMap fun first => next first.1 first.2).map _
    rw [List.filter_flatMap, flatMap_filter_eq hpush, flatMap_filter_eq hbase,
      hm.inside c more, List.flatMap_map, List.map_flatMap, List.flatMap_def, List.flatMap_def]
    refine congrArg List.flatten (List.map_congr_left ?_)
    intro first hfirst
    exact (hnext c first (List.mem_filter.mp hfirst).1).settled first.2

theorem Closing.give {m : Matcher α} (hm : Closing last more m) (f : α -> β) :
    Closing last more (m >>= fun a => give (f a)) := by
  constructor
  · intro c found h
    obtain ⟨first, hfirst, hfound⟩ := mem_bind_iff.mp h
    rw [mem_give_iff.mp hfound]
    exact hm.ends c first hfirst
  · intro c
    rw [bind_give, bind_give, List.filter_map, List.map_map]
    have hsettled := congrArg
      (List.map fun found : α × Cursor => (f found.1, found.2)) (hm.settled c)
    rw [List.map_map] at hsettled
    exact hsettled

theorem Closing.orElse {m n : Matcher α} (hm : Closing last more m) (hn : Closing last more n) :
    Closing last more (orElse m n) := by
  constructor
  · intro c found h
    rcases List.mem_append.mp h with h | h
    · exact hm.ends c found h
    · exact hn.ends c found h
  · intro c
    show (m (c.push more) ++ n (c.push more)).filter _ = (m c ++ n c).map _
    rw [List.filter_append, List.map_append, hm.settled c, hn.settled c]

theorem Closing.anyOf {ms : List (Matcher α)} (h : forall m, m ∈ ms -> Closing last more m) :
    Closing last more (anyOf ms) := by
  induction ms with
  | nil =>
      exact ⟨fun _ _ hmem => absurd hmem List.not_mem_nil, fun _ => rfl⟩
  | cons m rest ih =>
      exact Closing.orElse (h m (List.mem_cons_self ..))
        (ih fun n hn => h n (List.mem_cons_of_mem m hn))

theorem Closing.letters {word : List Char} (hne : word ≠ [])
    (hlast : forall ch, word.getLast? = some ch -> last ch = true) :
    Closing last more (letters word) := by
  induction word with
  | nil =>
      exact absurd rfl hne
  | cons letter rest ih =>
      cases rest with
      | nil =>
          rw [letters_cons, letters_nil]
          refine Closing.give (Closing.one ?_) fun _ => ()
          intro ch hch
          rw [of_decide_eq_true hch]
          exact hlast letter rfl
      | cons next tail =>
          rw [letters_cons]
          refine Closing.bind (Local.one _) fun _ _ _ => ih (by simp) ?_
          intro ch hch
          exact hlast ch (by simpa using hch)

theorem Closing.guard {m : Matcher α} {p : Cursor -> Bool} (hm : Closing last more m)
    (hp : forall c : Cursor, (exists ch, c.behind.head? = some ch ∧ last ch = true) ->
      p (c.push more) = p c) :
    Closing last more (m >>= fun _ => guard p) := by
  constructor
  · intro c found h
    obtain ⟨first, hfirst, hfound⟩ := mem_bind_iff.mp h
    rw [(mem_guard_iff.mp hfound).2]
    exact hm.ends c first hfirst
  · intro c
    have hguard : forall d : Cursor, forall count : Nat,
        (Matcher.guard p d).filter (keeps count) =
          if count ≤ d.ahead.length then Matcher.guard p d else [] := by
      intro d count
      unfold Matcher.guard
      by_cases hcount : count ≤ d.ahead.length
      · cases p d <;> simp [keeps, hcount]
      · cases p d <;> simp [keeps, hcount]
    have hshort : forall first : α × Cursor, first ∈ m (c.push more) ->
        keeps more.length first = false ->
        (Matcher.guard p first.2).filter (keeps more.length) = [] := by
      intro first _ hfirst
      rw [hguard, if_neg (by simpa [keeps] using hfirst)]
    show ((m (c.push more)).flatMap fun first => Matcher.guard p first.2).filter _ =
      ((m c).flatMap fun first => Matcher.guard p first.2).map _
    rw [List.filter_flatMap, flatMap_filter_eq hshort, hm.settled c, List.flatMap_map,
      List.map_flatMap, List.flatMap_def, List.flatMap_def]
    refine congrArg List.flatten (List.map_congr_left ?_)
    intro first hfirst
    obtain ⟨read, ch, hch, hread⟩ := hm.ends c first hfirst
    have hbehind : first.2.behind.head? = some ch := by
      rw [hread.2, List.reverse_append]
      rfl
    have hsame := hp first.2 ⟨ch, hbehind, hch⟩
    rw [hguard, if_pos (by simp [pushed, Cursor.push])]
    unfold Matcher.guard
    show (if p (first.2.push more) then _ else _) = _
    rw [hsame]
    cases p first.2 <;> rfl

theorem push_eq_of_bind {m : Matcher α} {next : α -> Matcher β} {c : Cursor}
    (hm : m (c.push more) = (m c).map (pushed more))
    (hnext : forall first, first ∈ m c -> next first.1 (first.2.push more) =
      (next first.1 first.2).map (pushed more)) :
    (m >>= next) (c.push more) = ((m >>= next) c).map (pushed more) := by
  show (m (c.push more)).flatMap (fun first => next first.1 first.2) =
    ((m c).flatMap fun first => next first.1 first.2).map _
  rw [hm, List.flatMap_map, List.map_flatMap, List.flatMap_def, List.flatMap_def]
  refine congrArg List.flatten (List.map_congr_left ?_)
  intro first hfirst
  exact hnext first hfirst

theorem stretch_push {p : Char -> Bool} (hmore : forall ch, more.head? = some ch -> p ch = false)
    (c : Cursor) : stretch p (c.push more) = (stretch p c).map (pushed more) := by
  obtain ⟨behind, ahead⟩ := c
  induction ahead generalizing behind with
  | nil =>
      show stretch p ⟨behind, more⟩ = _
      cases more with
      | nil =>
          rfl
      | cons ch rest =>
          rw [stretch_cons_neg (hmore ch rfl)]
          rfl
  | cons next rest ih =>
      show stretch p ⟨behind, next :: (rest ++ more)⟩ = _
      cases h : p next with
      | true =>
          rw [stretch_cons_pos h, stretch_cons_pos h]
          refine push_eq_of_bind (c := ⟨behind, next :: rest⟩) ?_ ?_
          · show one p ⟨behind, next :: (rest ++ more)⟩ = _
            rw [one_cons, one_cons, if_pos h, if_pos h]
            rfl
          · intro first hfirst
            rw [one_cons, if_pos h] at hfirst
            cases List.mem_singleton.mp hfirst
            exact push_eq_of_bind (ih _) fun _ _ => rfl
      | false =>
          rw [stretch_cons_neg h, stretch_cons_neg h]
          rfl

end Matcher
end Text
end Joinery
