import Joinery.Proofs.Text.Closing

/-!
# What is found from left to right

## One place after the other

Finding goes through the places of a text and leaves out those inside of what it has
found.  Two texts with a common beginning are gone through in step, as long as the
first answers agree; where they do not, what the shorter text has from there on must
be compared.
-/

namespace Joinery
namespace Text

variable {α : Type} {m : Matcher α} {more : List Char}

def Found.push (more : List Char) (found : Found α) : Found α :=
  ⟨found.place.push more, found.value⟩

@[simp] theorem findFrom_skip (m : Matcher α) (behind rest : List Char) (skip : Nat) (c : Char) :
    findFrom m behind (skip + 1) (c :: rest) = findFrom m (c :: behind) skip rest :=
  rfl

theorem findFrom_none {behind rest : List Char} {c : Char}
    (h : (m ⟨behind, c :: rest⟩).head? = none) :
    findFrom m behind 0 (c :: rest) = findFrom m (c :: behind) 0 rest := by
  rw [findFrom, h]

theorem findFrom_some {behind rest : List Char} {c : Char} {answer : α × Cursor}
    (h : (m ⟨behind, c :: rest⟩).head? = some answer) :
    findFrom m behind 0 (c :: rest) =
      ⟨⟨behind, c :: rest⟩, answer.1⟩ ::
        findFrom m (c :: behind) (rest.length - answer.2.ahead.length) rest := by
  rw [findFrom, h]

theorem findFrom_eq_nil {text : List Char} {behind : List Char} {skip : Nat}
    (h : forall before rest, text = before ++ rest -> rest ≠ [] ->
      m ⟨before.reverse ++ behind, rest⟩ = []) :
    findFrom m behind skip text = [] := by
  induction text generalizing behind skip with
  | nil =>
      rfl
  | cons c rest ih =>
      have htail : forall before after, rest = before ++ after -> after ≠ [] ->
          m ⟨before.reverse ++ c :: behind, after⟩ = [] := by
        intro before after heq hne
        have hplace := h (c :: before) after (by rw [heq]; rfl) hne
        simpa using hplace
      cases skip with
      | succ skip =>
          rw [findFrom_skip]
          exact ih htail
      | zero =>
          have hhere : m ⟨behind, c :: rest⟩ = [] := h [] (c :: rest) rfl (by simp)
          rw [findFrom_none (by rw [hhere]; rfl)]
          exact ih htail

theorem exists_of_findFrom_ne_nil {text behind : List Char} {skip : Nat}
    (h : findFrom m behind skip text ≠ []) :
    exists before rest, text = before ++ rest ∧ rest ≠ [] ∧
      m ⟨before.reverse ++ behind, rest⟩ ≠ [] := by
  by_cases hany : exists before rest, text = before ++ rest ∧ rest ≠ [] ∧
      m ⟨before.reverse ++ behind, rest⟩ ≠ []
  · exact hany
  · refine absurd (findFrom_eq_nil ?_) h
    intro before rest heq hne
    by_cases hplace : m ⟨before.reverse ++ behind, rest⟩ = []
    · exact hplace
    · exact absurd ⟨before, rest, heq, hne, hplace⟩ hany

theorem findFrom_ne_nil {before rest behind : List Char} (hne : rest ≠ [])
    (h : m ⟨before.reverse ++ behind, rest⟩ ≠ []) : findFrom m behind 0 (before ++ rest) ≠ [] := by
  induction before generalizing behind with
  | nil =>
      cases rest with
      | nil =>
          exact absurd rfl hne
      | cons c rest =>
          cases hanswers : m ⟨behind, c :: rest⟩ with
          | nil =>
              exact absurd hanswers h
          | cons answer others =>
              rw [List.nil_append, findFrom_some (show _ = some answer by rw [hanswers]; rfl)]
              exact List.cons_ne_nil _ _
  | cons c before ih =>
      cases hhead : (m ⟨behind, c :: (before ++ rest)⟩).head? with
      | none =>
          rw [List.cons_append, findFrom_none hhead]
          exact ih (by simpa using h)
      | some answer =>
          rw [List.cons_append, findFrom_some hhead]
          exact List.cons_ne_nil _ _

theorem findAll_ne_nil_iff {text : List Char} :
    findAll m text ≠ [] <->
      exists before rest, text = before ++ rest ∧ rest ≠ [] ∧ m ⟨before.reverse, rest⟩ ≠ [] := by
  constructor
  · intro h
    simpa using exists_of_findFrom_ne_nil h
  · rintro ⟨before, rest, rfl, hne, hplace⟩
    exact findFrom_ne_nil hne (by simpa using hplace)

/-!
# In step with a longer text
-/

/-- The first answer at a place is the same in the longer text. -/
def SameHead (m : Matcher α) (more : List Char) (c : Cursor) : Prop :=
  (m (c.push more)).head? = (m c).head?.map (Matcher.pushed more)

theorem sameHead_of_eq {c : Cursor} (h : m (c.push more) = (m c).map (Matcher.pushed more)) :
    SameHead m more c := by
  unfold SameHead
  rw [h, List.head?_map]

theorem findFrom_append {text behind : List Char} {skip : Nat}
    (h : forall before rest, text = before ++ rest -> rest ≠ [] ->
      SameHead m more ⟨before.reverse ++ behind, rest⟩)
    (hskip : skip ≤ text.length) :
    findFrom m behind skip (text ++ more) =
      (findFrom m behind skip text).map (Found.push more) ++
        findFrom m (text.reverse ++ behind) 0 more := by
  induction text generalizing behind skip with
  | nil =>
      cases Nat.le_zero.mp hskip
      rfl
  | cons c rest ih =>
      have htail : forall before after, rest = before ++ after -> after ≠ [] ->
          SameHead m more ⟨before.reverse ++ c :: behind, after⟩ := by
        intro before after heq hne
        have hplace := h (c :: before) after (by rw [heq]; rfl) hne
        simpa using hplace
      have hplace : (c :: rest).reverse ++ behind = rest.reverse ++ c :: behind := by simp
      rw [hplace, List.cons_append]
      cases skip with
      | succ skip =>
          rw [findFrom_skip, findFrom_skip]
          exact ih htail (Nat.le_of_succ_le_succ hskip)
      | zero =>
          have hhead : (m ⟨behind, c :: (rest ++ more)⟩).head? =
              (m ⟨behind, c :: rest⟩).head?.map (Matcher.pushed more) :=
            h [] (c :: rest) rfl (by simp)
          cases hanswer : (m ⟨behind, c :: rest⟩).head? with
          | none =>
              rw [hanswer] at hhead
              rw [findFrom_none hhead, findFrom_none hanswer]
              exact ih htail (Nat.zero_le _)
          | some answer =>
              rw [hanswer] at hhead
              rw [findFrom_some (hhead.trans rfl : _ = some (Matcher.pushed more answer)),
                findFrom_some hanswer]
              have hskip' : (rest ++ more).length - (Matcher.pushed more answer).2.ahead.length =
                  rest.length - answer.2.ahead.length := by
                simp only [Matcher.pushed, Cursor.push, List.length_append]
                omega
              rw [hskip', ih htail (Nat.sub_le _ _)]
              rfl

theorem findAll_append {last : Char -> Bool} (hm : Matcher.Closing last more m)
    (hmore : forall ch, ch ∈ more -> last ch = false) (text : List Char) :
    findAll m (text ++ more) = (findAll m text).map (Found.push more) := by
  have hend : findFrom m (text.reverse ++ []) 0 more = [] := by
    refine findFrom_eq_nil ?_
    intro before rest heq _
    refine List.eq_nil_iff_forall_not_mem.mpr ?_
    intro found hfound
    obtain ⟨read, ch, hch, hread⟩ := hm.ends _ found hfound
    have hrest : rest = (read ++ [ch]) ++ found.2.ahead := hread.1
    have hin : ch ∈ more := by
      rw [heq, hrest]
      simp
    rw [hmore ch hin] at hch
    cases hch
  unfold findAll
  rw [findFrom_append (fun _ _ _ _ => sameHead_of_eq (hm.push_eq hmore _)) (Nat.zero_le _), hend,
    List.append_nil]

/--
What is found in the shorter text is found in the longer one with the same value, unless it comes
at or after a place where the first answers part.
-/
theorem mem_findFrom_append (Lost : Found α -> Prop)
    (h : forall c : Cursor, c.ahead ≠ [] -> SameHead m more c ∨
      forall found, found ∈ findFrom m c.behind 0 c.ahead ->
        Lost found ∨ exists next, (m (c.push more)).head? = some (found.value, next))
    {text behind : List Char} {skip : Nat} {found : Found α}
    (hfound : found ∈ findFrom m behind skip text) :
    Lost found ∨
      exists other, other ∈ findFrom m behind skip (text ++ more) ∧ other.value = found.value := by
  induction text generalizing behind skip with
  | nil =>
      cases hfound
  | cons c rest ih =>
      rw [List.cons_append]
      cases skip with
      | succ skip =>
          rw [findFrom_skip] at hfound ⊢
          exact ih hfound
      | zero =>
          rcases h ⟨behind, c :: rest⟩ (by simp) with hhead | hpart
          · have hhead : (m ⟨behind, c :: (rest ++ more)⟩).head? =
                (m ⟨behind, c :: rest⟩).head?.map (Matcher.pushed more) := hhead
            cases hanswer : (m ⟨behind, c :: rest⟩).head? with
            | none =>
                rw [hanswer] at hhead
                rw [findFrom_none hanswer] at hfound
                rw [findFrom_none hhead]
                exact ih hfound
            | some answer =>
                rw [hanswer] at hhead
                rw [findFrom_some hanswer] at hfound
                rw [findFrom_some (hhead.trans rfl : _ = some (Matcher.pushed more answer))]
                have hskip : (rest ++ more).length - (Matcher.pushed more answer).2.ahead.length =
                    rest.length - answer.2.ahead.length := by
                  simp only [Matcher.pushed, Cursor.push, List.length_append]
                  omega
                rw [hskip]
                rcases List.mem_cons.mp hfound with rfl | hlater
                · exact Or.inr ⟨_, List.mem_cons_self .., rfl⟩
                · rcases ih hlater with hlost | ⟨other, hother, hvalue⟩
                  · exact Or.inl hlost
                  · exact Or.inr ⟨other, List.mem_cons_of_mem _ hother, hvalue⟩
          · -- from where the first answers part on, the rest of the search is told by `h` itself
            rcases hpart found hfound with hlost | ⟨next, hhead⟩
            · exact Or.inl hlost
            · have hhead : (m ⟨behind, c :: (rest ++ more)⟩).head? = some (found.value, next) :=
                hhead
              rw [findFrom_some hhead]
              exact Or.inr ⟨_, List.mem_cons_self .., rfl⟩

end Text
end Joinery
