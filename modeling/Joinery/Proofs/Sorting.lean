import Joinery.Sorting
import Mathlib.Data.List.Count
import Mathlib.Data.List.Sort
import Mathlib.Order.Lattice

/-!
# Stable sorting

## One list for each list and rank

A stable sort puts a list in the order of a rank and leaves the elements of one rank in the
order that they have.  These two demands leave no choice: whatever meets them is the list
that merge sort makes.  Sorting by insertion meets them, also when it is done separately
for each value of a part of the rank.  It is the insertion sort of the library, from which
the other facts about it are taken.
-/

namespace Joinery

variable {α κ : Type}

/--
A list is the stable sort of another one by a rank: it is in order, and under each rank it has the
elements of the other list in the order that they have there.
-/
structure StableSort [LinearOrder κ] (rank : α -> κ) (l sorted : List α) : Prop where
  inOrder : sorted.Pairwise fun a b => rank a ≤ rank b
  sameRank : forall r, (sorted.filter fun a => rank a = r) = l.filter fun a => rank a = r

namespace StableSort

variable [LinearOrder κ] {rank : α -> κ} {l sorted other : List α}

theorem perm (h : StableSort rank l sorted) : sorted.Perm l := by
  classical
  refine List.perm_iff_count.mpr ?_
  intro a
  have hkept : forall m : List α, (m.filter fun b => rank b = rank a).count a = m.count a :=
    fun m => List.count_filter (decide_eq_true rfl)
  rw [<- hkept, h.sameRank, hkept]

theorem mem_iff_of_sameRank
    (h : forall r, (sorted.filter fun a => rank a = r) = other.filter fun a => rank a = r) (a : α) :
    a ∈ sorted <-> a ∈ other := by
  have hrank := congrArg (a ∈ ·) (h (rank a))
  simpa using hrank

theorem eq_of_sameRank (hsorted : sorted.Pairwise fun a b => rank a ≤ rank b)
    (hother : other.Pairwise fun a b => rank a ≤ rank b)
    (h : forall r, (sorted.filter fun a => rank a = r) = other.filter fun a => rank a = r) :
    sorted = other := by
  induction sorted generalizing other with
  | nil =>
      refine (List.eq_nil_iff_forall_not_mem.mpr ?_).symm
      intro a ha
      exact List.not_mem_nil ((mem_iff_of_sameRank h a).mpr ha)
  | cons a rest ih =>
      have hmem := mem_iff_of_sameRank h
      cases other with
      | nil =>
          exact absurd ((hmem a).mp (List.mem_cons_self ..)) List.not_mem_nil
      | cons b tail =>
          obtain ⟨hfirst, hrest⟩ := List.pairwise_cons.mp hsorted
          obtain ⟨hlow, htail⟩ := List.pairwise_cons.mp hother
          -- each head stands in the other list, so that neither has the lower rank
          have hab : rank a ≤ rank b := by
            rcases List.mem_cons.mp ((hmem b).mpr (List.mem_cons_self ..)) with rfl | hb
            · exact le_refl _
            · exact hfirst b hb
          have hba : rank b ≤ rank a := by
            rcases List.mem_cons.mp ((hmem a).mp (List.mem_cons_self ..)) with rfl | ha
            · exact le_refl _
            · exact hlow a ha
          have hrank : rank b = rank a := le_antisymm hba hab
          have hheads := h (rank a)
          rw [List.filter_cons_of_pos (by simp),
            List.filter_cons_of_pos (by simp [hrank])] at hheads
          obtain rfl : a = b := (List.cons.inj hheads).1
          have htails : forall r,
              (rest.filter fun c => rank c = r) = tail.filter fun c => rank c = r := by
            intro r
            have hr := h r
            rw [List.filter_cons, List.filter_cons] at hr
            split at hr
            · exact (List.cons.inj hr).2
            · exact hr
          exact congrArg _ (ih hrest htail htails)

theorem unique (h : StableSort rank l sorted) (hother : StableSort rank l other) :
    sorted = other :=
  eq_of_sameRank h.inOrder hother.inOrder fun r => (h.sameRank r).trans (hother.sameRank r).symm

end StableSort

/-!
# Sorting by insertion
-/

section

variable {β : Type} {le : α -> α -> Bool}

theorem insertBy_eq_orderedInsert (le : α -> α -> Bool) (a : α) (l : List α) :
    insertBy le a l = l.orderedInsert (fun a b => le a b = true) a := by
  induction l with
  | nil =>
      rfl
  | cons b rest ih =>
      rw [insertBy, List.orderedInsert_cons, ih]

theorem sortBy_eq_insertionSort (le : α -> α -> Bool) (l : List α) :
    sortBy le l = l.insertionSort fun a b => le a b = true := by
  induction l with
  | nil =>
      rfl
  | cons a rest ih =>
      rw [sortBy, insertBy_eq_orderedInsert, ih, List.insertionSort_cons]

@[simp] theorem mem_sortBy_iff {a : α} {l : List α} : a ∈ sortBy le l <-> a ∈ l := by
  rw [sortBy_eq_insertionSort, List.mem_insertionSort]

theorem sortBy_perm (le : α -> α -> Bool) (l : List α) : (sortBy le l).Perm l := by
  rw [sortBy_eq_insertionSort]
  exact List.perm_insertionSort _ l

theorem sortBy_comap {image : β -> β -> Bool} {f : α -> β}
    (h : forall a b, image (f a) (f b) = le a b) (l : List α) :
    sortBy image (l.map f) = (sortBy le l).map f := by
  rw [sortBy_eq_insertionSort, sortBy_eq_insertionSort]
  exact (List.map_insertionSort _ _ f l fun a _ b _ => by rw [h]).symm

theorem sortBy_map {f : α -> α} (h : forall a b, le (f a) (f b) = le a b) (l : List α) :
    sortBy le (l.map f) = (sortBy le l).map f :=
  sortBy_comap h l

theorem pairwise_sortBy (trans : forall a b c, le a b = true -> le b c = true -> le a c = true)
    (total : forall a b, (le a b || le b a) = true) (l : List α) :
    (sortBy le l).Pairwise fun a b => le a b = true := by
  have : IsTrans α fun a b => le a b = true := ⟨trans⟩
  have : Std.Total fun a b => le a b = true := ⟨fun a b => by simpa using total a b⟩
  rw [sortBy_eq_insertionSort]
  exact List.pairwise_insertionSort _ l

theorem filter_insertBy {p : α -> Bool} {a : α} {l : List α} (hp : p a = true)
    (h : forall b, p b = true -> le a b = true) : (insertBy le a l).filter p = a :: l.filter p := by
  induction l with
  | nil =>
      simp [insertBy, hp]
  | cons b rest ih =>
      rw [insertBy]
      split
      · rw [List.filter_cons_of_pos hp]
      · next hnot =>
          have hother : ¬ p b = true := fun hb => hnot (h b hb)
          rw [List.filter_cons_of_neg hother, List.filter_cons_of_neg hother, ih]

theorem filter_insertBy_of_neg {p : α -> Bool} {a : α} (l : List α) (hp : ¬ p a = true) :
    (insertBy le a l).filter p = l.filter p := by
  induction l with
  | nil =>
      simp [insertBy, hp]
  | cons b rest ih =>
      rw [insertBy]
      split
      · rw [List.filter_cons_of_neg hp]
      · rw [List.filter_cons, List.filter_cons, ih]

theorem filter_sortBy {p : α -> Bool}
    (h : forall a b, p a = true -> p b = true -> le a b = true) (l : List α) :
    (sortBy le l).filter p = l.filter p := by
  induction l with
  | nil =>
      rfl
  | cons a rest ih =>
      rw [sortBy]
      by_cases hp : p a = true
      · rw [filter_insertBy hp fun b => h a b hp, ih, List.filter_cons_of_pos hp]
      · rw [filter_insertBy_of_neg _ hp, ih, List.filter_cons_of_neg hp]

theorem insertBy_append_cons {le : α -> α -> Bool} {a b : α} {before after : List α}
    (hbefore : forall x, x ∈ before -> le a x = false) (hb : le a b = true) :
    insertBy le a (before ++ b :: after) = before ++ a :: b :: after := by
  induction before with
  | nil =>
      simp [insertBy, hb]
  | cons x rest ih =>
      have hx : le a x = false := hbefore x (List.mem_cons_self ..)
      have hrest := ih fun y hy => hbefore y (List.mem_cons_of_mem x hy)
      simp [insertBy, hx, hrest]

theorem insertBy_of_all {le : α -> α -> Bool} {a : α} {before : List α}
    (hbefore : forall x, x ∈ before -> le a x = false) : insertBy le a before = before ++ [a] := by
  induction before with
  | nil =>
      rfl
  | cons x rest ih =>
      have hx : le a x = false := hbefore x (List.mem_cons_self ..)
      have hrest := ih fun y hy => hbefore y (List.mem_cons_of_mem x hy)
      simp [insertBy, hx, hrest]

theorem sortBy_eq_mergeSort {le : α -> α -> Bool}
    (trans : forall a b c, le a b = true -> le b c = true -> le a c = true)
    (total : forall a b, (le a b || le b a) = true) (l : List α) :
    sortBy le l = l.mergeSort le := by
  induction l with
  | nil =>
      simp [sortBy]
  | cons a rest ih =>
      obtain ⟨before, after, hsorted, hrest, hbefore⟩ := List.mergeSort_cons trans total a rest
      have hlow : forall x, x ∈ before -> le a x = false := fun x hx => by simpa using hbefore x hx
      have hpair := List.pairwise_mergeSort trans total (a :: rest)
      rw [hsorted] at hpair
      rw [sortBy, ih, hrest, hsorted]
      cases after with
      | nil =>
          simpa using insertBy_of_all hlow
      | cons b after =>
          have htail := (List.pairwise_append.mp hpair).2.1
          have hb : le a b = true := (List.pairwise_cons.mp htail).1 b (List.mem_cons_self ..)
          exact insertBy_append_cons hlow hb

theorem sortBy_strict [LE κ] [LT κ] [DecidableLE κ] [Std.IsLinearOrder κ]
    [Std.LawfulOrderLT κ] (rank : α -> κ) {l : List α} (h : (l.map rank).Nodup) :
    (sortBy (fun a b => decide (rank a ≤ rank b)) l).Pairwise fun a b => rank a < rank b := by
  have htrans : forall a b c, decide (rank a ≤ rank b) = true -> decide (rank b ≤ rank c) = true ->
      decide (rank a ≤ rank c) = true := by
    intro a b c hab hbc
    exact decide_eq_true (Std.le_trans (of_decide_eq_true hab) (of_decide_eq_true hbc))
  have htotal : forall a b, (decide (rank a ≤ rank b) || decide (rank b ≤ rank a)) = true := by
    intro a b
    rw [Bool.or_eq_true, decide_eq_true_eq, decide_eq_true_eq]
    exact Std.le_total
  have hperm := sortBy_perm (fun a b => decide (rank a ≤ rank b)) l
  have hdistinct := List.pairwise_map.mp ((hperm.map rank).nodup_iff.mpr h)
  refine ((pairwise_sortBy htrans htotal l).and hdistinct).imp ?_
  rintro a b ⟨hle, hne⟩
  refine Std.not_le.mp fun hback => ?_
  exact hne (Std.le_antisymm (of_decide_eq_true hle) hback)

theorem sortBy_of_perm {rank : α -> Nat} {sorted l : List α}
    (hsorted : sorted.Pairwise fun a b => rank a < rank b) (hperm : l.Perm sorted) :
    sortBy (fun a b => decide (rank a ≤ rank b)) l = sorted := by
  have hranks : (sorted.map rank).Nodup := List.pairwise_map.mpr (hsorted.imp Nat.ne_of_lt)
  have hdistinct : (l.map rank).Nodup := (hperm.map rank).nodup_iff.mpr hranks
  refine List.Perm.eq_of_pairwise ?_ (sortBy_strict rank hdistinct) hsorted
    ((sortBy_perm _ l).trans hperm)
  intro a b _ _ hab hba
  exact absurd hba (Nat.lt_asymm hab)

end

section

variable [LinearOrder κ]

theorem stableSort_sortBy (rank : α -> κ) (l : List α) :
    StableSort rank l (sortBy (fun a b => decide (rank a ≤ rank b)) l) := by
  constructor
  · have htrans : forall a b c, decide (rank a ≤ rank b) = true ->
        decide (rank b ≤ rank c) = true -> decide (rank a ≤ rank c) = true := by
      intro a b c hab hbc
      exact decide_eq_true (le_trans (of_decide_eq_true hab) (of_decide_eq_true hbc))
    have htotal : forall a b, (decide (rank a ≤ rank b) || decide (rank b ≤ rank a)) = true := by
      intro a b
      simpa using le_total (rank a) (rank b)
    have hpairs := pairwise_sortBy htrans htotal l
    exact hpairs.imp of_decide_eq_true
  · intro r
    refine filter_sortBy ?_ l
    intro a b ha hb
    rw [decide_eq_true_eq] at ha hb ⊢
    rw [ha, hb]

theorem StableSort.eq_mergeSort {rank : α -> κ} {l sorted : List α}
    (h : StableSort rank l sorted) :
    sorted = l.mergeSort fun a b => decide (rank a ≤ rank b) := by
  rw [<- sortBy_eq_mergeSort]
  · exact h.unique (stableSort_sortBy rank l)
  · intro a b c hab hbc
    exact decide_eq_true (le_trans (of_decide_eq_true hab) (of_decide_eq_true hbc))
  · intro a b
    simpa using le_total (rank a) (rank b)

end

end Joinery
