import Joinery.Assembly.Grouping
import Joinery.Proofs.Distinct
import Joinery.Proofs.Sorting
import Mathlib.Data.Prod.Lex

/-!
# Work orders by phase

## One stable sort, cut at the labels

The groups of some work orders, one behind the other, are the work orders in the order of
one rank: the place of the label among the labels of all phases, then whether there is a
number, then the number.  Work orders of one rank stay as they come.  Grouping is thus a
stable sort that is cut wherever the label changes, whatever labels and numbers there are.
-/

namespace Joinery
namespace PhaseGroup

def numberRank (order : WorkOrder) : Lex (Bool × Int) :=
  toLex (order.order.isNone, order.order.getD 0)

def rank (all : List String) (order : WorkOrder) : Lex (Nat × Lex (Bool × Int)) :=
  toLex (all.idxOf (labelOf all order), numberRank order)

def known (phases : List String) : List String :=
  if phases = [] then [applyLabel] else phases

def unknown (orders : List WorkOrder) (phases : List String) : List String :=
  (orders.filterMap (·.phase)).filter fun label => label ≠ "" ∧ label ∉ known phases

def Names (order : WorkOrder) (label : String) : Prop :=
  order.phase = some label ∧ label ≠ ""

/-- The groups and their labels arrange the work orders. -/
structure Arranges (orders : List WorkOrder) (phases all : List String)
    (groups : List PhaseGroup) : Prop where
  unlabelled : (forall order label, order ∈ orders -> ¬ Names order label) -> all = [applyLabel]
  labelled : (exists order label, order ∈ orders ∧ Names order label) ->
    all = (known phases).eraseDups ++ (unknown orders phases).eraseDups
  own : forall order label, order.phase = some label -> label ∈ all -> labelOf all order = label
  other : forall order, (forall label, order.phase = some label -> label ∉ all) ->
    all.head? = some (labelOf all order)
  nonempty : forall group, group ∈ groups -> group.orders ≠ []
  member : forall group order, group ∈ groups -> order ∈ group.orders ->
    labelOf all order = group.label
  distinct : (groups.map (·.label)).Nodup
  inOrder : (groups.map (·.label)).Sublist all
  sorted : StableSort (rank all) orders (groups.flatMap (·.orders))
  merged : groups.flatMap (·.orders) =
    orders.mergeSort fun a b => decide (rank all a ≤ rank all b)
  complete : (groups.flatMap (·.orders)).Perm orders

variable {orders : List WorkOrder} {phases all : List String} {order : WorkOrder} {label : String}

/-!
# Labels
-/

theorem namedLabel?_eq_some_iff : namedLabel? order = some label <-> Names order label := by
  unfold namedLabel? Names
  cases order.phase with
  | none =>
      simp
  | some given =>
      by_cases hempty : given = ""
      · subst hempty
        simp
      · have hkept : given.isEmpty = false := by simpa using hempty
        simp only [hkept, Bool.false_eq_true, if_false, Option.some.injEq]
        constructor
        · rintro rfl
          exact ⟨rfl, hempty⟩
        · rintro ⟨rfl, _⟩
          rfl

theorem filterMap_namedLabel? (orders : List WorkOrder) :
    orders.filterMap namedLabel? = (orders.filterMap (·.phase)).filter fun label => label ≠ "" := by
  rw [List.filter_filterMap]
  refine List.filterMap_congr ?_
  intro order _
  refine Option.ext fun label => ?_
  rw [namedLabel?_eq_some_iff, Option.filter_eq_some_iff, decide_eq_true_eq]
  exact Iff.rfl

theorem labels_of_unnamed (h : forall order label, order ∈ orders -> ¬ Names order label) :
    labels orders phases = [applyLabel] := by
  have hnone : orders.filterMap namedLabel? = [] := by
    refine List.filterMap_eq_nil_iff.mpr ?_
    intro order horder
    refine Option.eq_none_iff_forall_ne_some.mpr ?_
    intro label hlabel
    exact h order label horder (namedLabel?_eq_some_iff.mp hlabel)
  unfold labels
  dsimp only
  rw [hnone]
  rfl

theorem labels_of_named (h : exists order label, order ∈ orders ∧ Names order label) :
    labels orders phases = (known phases).eraseDups ++ (unknown orders phases).eraseDups := by
  obtain ⟨order, label, horder, hnamed⟩ := h
  have hmem : label ∈ orders.filterMap namedLabel? :=
    List.mem_filterMap.mpr ⟨order, horder, namedLabel?_eq_some_iff.mpr hnamed⟩
  have hsome : (orders.filterMap namedLabel?).isEmpty = false := by
    rw [List.isEmpty_eq_false_iff]
    exact List.ne_nil_of_mem hmem
  have hknown : (if phases.isEmpty then [applyLabel] else phases) = known phases := by
    unfold known
    cases phases <;> rfl
  have hunknown : (orders.filterMap namedLabel?).removeAll (known phases) =
      unknown orders phases := by
    unfold List.removeAll unknown
    rw [filterMap_namedLabel?, List.filter_filter]
    refine List.filter_congr ?_
    intro label _
    simp [Bool.and_comm]
  unfold labels
  dsimp only
  rw [hsome, if_neg Bool.false_ne_true, hknown, List.eraseDups_append, hunknown]

theorem exists_named_or (orders : List WorkOrder) :
    (exists order label, order ∈ orders ∧ Names order label) ∨
      forall order label, order ∈ orders -> ¬ Names order label := by
  by_cases h : exists order label, order ∈ orders ∧ Names order label
  · exact Or.inl h
  · refine Or.inr ?_
    intro order label horder hnamed
    exact h ⟨order, label, horder, hnamed⟩

theorem labels_ne_nil (orders : List WorkOrder) (phases : List String) :
    labels orders phases ≠ [] := by
  rcases exists_named_or orders with hnamed | hunnamed
  · have hknown : exists label, label ∈ known phases := by
      unfold known
      split
      · exact ⟨applyLabel, List.mem_cons_self ..⟩
      · next hne =>
          exact List.exists_mem_of_ne_nil _ hne
    obtain ⟨label, hlabel⟩ := hknown
    rw [labels_of_named hnamed]
    exact List.ne_nil_of_mem (List.mem_append_left _ (List.mem_eraseDups.mpr hlabel))
  · rw [labels_of_unnamed hunnamed]
    exact List.cons_ne_nil _ _

theorem nodup_labels (orders : List WorkOrder) (phases : List String) :
    (labels orders phases).Nodup := by
  unfold labels
  dsimp only
  split
  · exact List.nodup_cons.mpr ⟨List.not_mem_nil, List.nodup_nil⟩
  · exact nodup_eraseDups _

theorem labelOf_of_mem (hphase : order.phase = some label) (hmem : label ∈ all) :
    labelOf all order = label := by
  unfold labelOf
  rw [hphase]
  exact if_pos (List.contains_iff_mem.mpr hmem)

theorem labelOf_of_not_mem (h : forall label, order.phase = some label -> label ∉ all) :
    labelOf all order = all.headD applyLabel := by
  unfold labelOf
  cases hphase : order.phase with
  | none =>
      rfl
  | some label =>
      have hnot : ¬ all.contains label = true :=
        fun hcontains => h label hphase (List.contains_iff_mem.mp hcontains)
      exact if_neg hnot

theorem head?_of_not_mem (hne : all ≠ [])
    (h : forall label, order.phase = some label -> label ∉ all) :
    all.head? = some (labelOf all order) := by
  rw [labelOf_of_not_mem h]
  cases all with
  | nil =>
      exact absurd rfl hne
  | cons first rest =>
      rfl

theorem labelOf_mem (hne : all ≠ []) (order : WorkOrder) : labelOf all order ∈ all := by
  by_cases h : exists label, order.phase = some label ∧ label ∈ all
  · obtain ⟨label, hphase, hmem⟩ := h
    rw [labelOf_of_mem hphase hmem]
    exact hmem
  · have hnone : forall label, order.phase = some label -> label ∉ all :=
      fun label hphase hmem => h ⟨label, hphase, hmem⟩
    exact List.mem_of_head? (head?_of_not_mem hne hnone)

/-!
# Groups
-/

def ordersOf (all : List String) (orders : List WorkOrder) (label : String) : List WorkOrder :=
  sortBy inOrder (orders.filter fun order => labelOf all order = label)

theorem mem_ordersOf_iff :
    order ∈ ordersOf all orders label <-> order ∈ orders ∧ labelOf all order = label := by
  unfold ordersOf
  rw [mem_sortBy_iff, List.mem_filter, decide_eq_true_eq]

theorem inOrder_eq (a b : WorkOrder) : inOrder a b = decide (numberRank a ≤ numberRank b) := by
  unfold inOrder numberRank
  cases a.order <;> cases b.order <;> simp [Prod.Lex.toLex_le_toLex]

theorem rank_le_iff {a b : WorkOrder} (h : labelOf all a = labelOf all b) :
    rank all a ≤ rank all b <-> numberRank a ≤ numberRank b := by
  unfold rank
  rw [Prod.Lex.toLex_le_toLex, h]
  simp

theorem rank_le_of_lt {a b : WorkOrder}
    (h : all.idxOf (labelOf all a) < all.idxOf (labelOf all b)) : rank all a ≤ rank all b := by
  unfold rank
  rw [Prod.Lex.toLex_le_toLex]
  exact Or.inl h

theorem labelOf_of_rank_eq (hne : all ≠ []) {a b : WorkOrder} (h : rank all a = rank all b) :
    labelOf all a = labelOf all b := by
  have hplace : all.idxOf (labelOf all a) = all.idxOf (labelOf all b) :=
    congrArg (fun r => (ofLex r).1) h
  exact (List.idxOf_inj (labelOf_mem hne a)).mp hplace

theorem stableSort_ordersOf (label : String) :
    StableSort numberRank (orders.filter fun order => labelOf all order = label)
      (ordersOf all orders label) := by
  have hle : inOrder = fun a b => decide (numberRank a ≤ numberRank b) :=
    funext fun a => funext fun b => inOrder_eq a b
  unfold ordersOf
  rw [hle]
  exact stableSort_sortBy numberRank _

theorem flatMap_eq_of_single {β : Type} {f : String -> List β} (h : all.Nodup) (hmem : label ∈ all)
    (hothers : forall other, other ∈ all -> other ≠ label -> f other = []) :
    all.flatMap f = f label := by
  obtain ⟨before, after, rfl⟩ := List.append_of_mem hmem
  obtain ⟨_, hafter, hcross⟩ := List.nodup_append.mp h
  have hfront : before.flatMap f = [] := by
    refine List.flatMap_eq_nil_iff.mpr ?_
    intro other hother
    exact hothers other (List.mem_append_left _ hother)
      (hcross other hother label (List.mem_cons_self ..))
  have hback : after.flatMap f = [] := by
    refine List.flatMap_eq_nil_iff.mpr ?_
    intro other hother
    refine hothers other (List.mem_append_right _ (List.mem_cons_of_mem _ hother)) ?_
    rintro rfl
    exact (List.nodup_cons.mp hafter).1 hother
  rw [List.flatMap_append, List.flatMap_cons, hfront, hback, List.nil_append, List.append_nil]

theorem filter_rank_ordersOf (hne : all ≠ []) (orders : List WorkOrder) (order : WorkOrder) :
    (ordersOf all orders (labelOf all order)).filter (fun o => rank all o = rank all order) =
      orders.filter fun o => rank all o = rank all order := by
  -- under one label the rank of the number decides
  have hnumber : forall o, o ∈ ordersOf all orders (labelOf all order) ∨
      o ∈ orders.filter (fun o => labelOf all o = labelOf all order) ->
      decide (rank all o = rank all order) = decide (numberRank o = numberRank order) := by
    intro o ho
    have hsame : labelOf all o = labelOf all order := by
      rcases ho with ho | ho
      · exact (mem_ordersOf_iff.mp ho).2
      · exact of_decide_eq_true (List.mem_filter.mp ho).2
    refine decide_eq_decide.mpr ?_
    rw [le_antisymm_iff, le_antisymm_iff, rank_le_iff hsame, rank_le_iff hsame.symm]
  rw [List.filter_congr fun o ho => hnumber o (Or.inl ho),
    (stableSort_ordersOf (labelOf all order)).sameRank,
    <- List.filter_congr fun o ho => hnumber o (Or.inr ho), List.filter_filter]
  refine List.filter_congr ?_
  intro o _
  rw [Bool.and_eq_decide]
  refine decide_eq_decide.mpr ?_
  simp only [decide_eq_true_eq, and_iff_left_iff_imp]
  exact labelOf_of_rank_eq hne

theorem stableSort_flatMap (hne : all ≠ []) (h : all.Nodup) (orders : List WorkOrder) :
    StableSort (rank all) orders (all.flatMap (ordersOf all orders)) := by
  constructor
  · refine List.pairwise_flatMap.mpr ⟨?_, ?_⟩
    · intro label _
      refine (stableSort_ordersOf label).inOrder.imp_of_mem ?_
      intro a b ha hb hle
      have hsame : labelOf all a = labelOf all b :=
        (mem_ordersOf_iff.mp ha).2.trans (mem_ordersOf_iff.mp hb).2.symm
      exact (rank_le_iff hsame).mpr hle
    · refine (pairwise_idxOf h).imp ?_
      intro first second hlt a ha b hb
      refine rank_le_of_lt ?_
      rw [(mem_ordersOf_iff.mp ha).2, (mem_ordersOf_iff.mp hb).2]
      exact hlt
  · intro r
    rw [List.filter_flatMap]
    by_cases hsome : exists order, order ∈ orders ∧ rank all order = r
    · obtain ⟨order, _, rfl⟩ := hsome
      -- what has this rank stands under one label
      rw [flatMap_eq_of_single h (labelOf_mem hne order)]
      · exact filter_rank_ordersOf hne orders order
      · intro other _ hother
        refine List.filter_eq_nil_iff.mpr ?_
        intro o ho hrank
        refine hother ?_
        rw [<- (mem_ordersOf_iff.mp ho).2]
        exact labelOf_of_rank_eq hne (of_decide_eq_true hrank)
    · have hnone : forall o, o ∈ orders -> ¬ decide (rank all o = r) = true :=
        fun o ho hrank => hsome ⟨o, ho, of_decide_eq_true hrank⟩
      rw [List.filter_eq_nil_iff.mpr hnone]
      refine List.flatMap_eq_nil_iff.mpr ?_
      intro label _
      exact List.filter_eq_nil_iff.mpr fun o ho => hnone o (mem_ordersOf_iff.mp ho).1

theorem group_eq (orders : List WorkOrder) (phases : List String) :
    group orders phases =
      ((labels orders phases).map fun label =>
        { label := label, orders := ordersOf (labels orders phases) orders label }).filter
          fun g => !g.orders.isEmpty :=
  rfl

theorem mem_group_iff {g : PhaseGroup} :
    g ∈ group orders phases <->
      g.label ∈ labels orders phases ∧ g.orders ≠ [] ∧
        g.orders = ordersOf (labels orders phases) orders g.label := by
  rw [group_eq, List.mem_filter, List.mem_map]
  constructor
  · rintro ⟨⟨label, hlabel, rfl⟩, hsome⟩
    exact ⟨hlabel, by simpa using hsome, rfl⟩
  · rintro ⟨hlabel, hne, horders⟩
    refine ⟨⟨g.label, hlabel, ?_⟩, by simpa using hne⟩
    rw [<- horders]

theorem labels_group_sublist (orders : List WorkOrder) (phases : List String) :
    ((group orders phases).map (·.label)).Sublist (labels orders phases) := by
  have hall : ((labels orders phases).map fun label =>
      ({ label := label, orders := ordersOf (labels orders phases) orders label } :
        PhaseGroup)).map (·.label) = labels orders phases := by
    rw [List.map_map]
    exact List.map_id _
  conv => rhs; rw [<- hall]
  rw [group_eq]
  exact List.filter_sublist.map _

theorem flatMap_group (orders : List WorkOrder) (phases : List String) :
    (group orders phases).flatMap (·.orders) =
      (labels orders phases).flatMap (ordersOf (labels orders phases) orders) := by
  have hfilter : forall groups : List PhaseGroup,
      (groups.filter fun g => !g.orders.isEmpty).flatMap (·.orders) =
        groups.flatMap (·.orders) := by
    intro groups
    induction groups with
    | nil =>
        rfl
    | cons g rest ih =>
        cases hempty : g.orders with
        | nil =>
            rw [List.filter_cons_of_neg (by simp [hempty]), List.flatMap_cons, hempty, ih]
            rfl
        | cons order more =>
            rw [List.filter_cons_of_pos (by simp [hempty]), List.flatMap_cons, List.flatMap_cons,
              ih]
  rw [group_eq, hfilter, List.flatMap_map]

/-- The groups of some work orders are their stable sort by label and number, cut at the labels. -/
theorem group_arranges (orders : List WorkOrder) (phases : List String) :
    Arranges orders phases (labels orders phases) (group orders phases) := by
  have hne := labels_ne_nil orders phases
  have hsorted : StableSort (rank (labels orders phases)) orders
      ((group orders phases).flatMap (·.orders)) := by
    rw [flatMap_group]
    exact stableSort_flatMap hne (nodup_labels orders phases) orders
  exact
    { unlabelled := labels_of_unnamed
      labelled := labels_of_named
      own := fun _ _ => labelOf_of_mem
      other := fun _ => head?_of_not_mem hne
      nonempty := fun _ hg => (mem_group_iff.mp hg).2.1
      member := by
        intro g order hg horder
        rw [(mem_group_iff.mp hg).2.2] at horder
        exact (mem_ordersOf_iff.mp horder).2
      distinct := (labels_group_sublist orders phases).nodup (nodup_labels orders phases)
      inOrder := labels_group_sublist orders phases
      sorted := hsorted
      merged := hsorted.eq_mergeSort
      complete := hsorted.perm }

end PhaseGroup
end Joinery
