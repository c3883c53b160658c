import Joinery.Proofs.FileSet.Reachable

/-!
# Refused work orders

## Nothing of them is left

Work orders are applied up to the first one that is refused, and a refused one leaves no
trace: neither its acceptable operations nor the counts of these are kept, wherever in the
order the fault is and however many orders came before.  The fault that is named is the
one that is met first when the order is read from its start.
-/

namespace Joinery

/-- An operation for which its work order is refused. -/
def FileOperation.Offends (strict : Bool) (op : FileOperation) : Prop :=
  Path.canonical op.path = "" ∨ strict = true ∧ op.action ≠ .delete ∧ op.content = none

namespace WorkOrder

inductive Faulty (strict : Bool) (order : WorkOrder) : OrderFault -> Prop
  | noFiles : order.files = [] -> Faulty strict order .noFiles
  | emptyPath {before after : List FileOperation} {op : FileOperation} :
      order.files = before ++ op :: after ->
      (forall earlier, earlier ∈ before -> ¬ earlier.Offends strict) ->
      Path.canonical op.path = "" -> Faulty strict order .emptyPath
  | noContent {before after : List FileOperation} {op : FileOperation} :
      order.files = before ++ op :: after ->
      (forall earlier, earlier ∈ before -> ¬ earlier.Offends strict) ->
      Path.canonical op.path ≠ "" -> strict = true -> op.action ≠ .delete -> op.content = none ->
      Faulty strict order (.noContent op.action op.path)

/-- A place holds the first work order that is not acceptable. -/
structure IsFirstRefused (strict : Bool) (orders : List WorkOrder) (place : Nat)
    (order : WorkOrder) : Prop where
  here : orders[place]? = some order
  refused : ¬ order.IsValid strict
  isFirst : forall earlier o, earlier < place -> orders[earlier]? = some o -> o.IsValid strict

end WorkOrder

namespace FileSet

variable {strict : Bool} {op : FileOperation} {order : WorkOrder} {orders : List WorkOrder}

/-!
# The fault of an operation
-/

theorem not_offends_iff :
    ¬ op.Offends strict <->
      Path.canonical op.path ≠ "" ∧
        (op.action ≠ .delete -> strict = true -> op.content ≠ none) := by
  unfold FileOperation.Offends
  rw [not_or, not_and, not_and]
  exact and_congr_right fun _ => ⟨fun h ha hs => h hs ha, fun h hs ha => h ha hs⟩

theorem faultOf_eq_none_iff_not_offends : faultOf strict op = none <-> ¬ op.Offends strict :=
  faultOf_eq_none_iff.trans not_offends_iff.symm

theorem faultOf_eq_some_iff {fault : OrderFault} :
    faultOf strict op = some fault <->
      (Path.canonical op.path = "" ∧ fault = .emptyPath) ∨
        (Path.canonical op.path ≠ "" ∧ strict = true ∧ op.action ≠ .delete ∧ op.content = none ∧
          fault = .noContent op.action op.path) := by
  unfold faultOf
  by_cases hpath : Path.canonical op.path = ""
  · have hkey : (Path.canonical op.path).isEmpty = true := by simpa using hpath
    rw [if_pos hkey, Option.some.injEq]
    simp only [hpath, true_and, ne_eq, not_true_eq_false, false_and, or_false]
    exact eq_comm
  · have hkey : (Path.canonical op.path).isEmpty = false := by simpa using hpath
    simp only [hkey, hpath, Bool.false_eq_true, if_false, false_and, false_or, ne_eq,
      not_false_eq_true, true_and]
    split
    · next h =>
        simp only [Bool.and_eq_true, decide_eq_true_eq, Option.isNone_iff_eq_none] at h
        simp [h, eq_comm]
    · next h =>
        simp only [Bool.and_eq_true, decide_eq_true_eq, Option.isNone_iff_eq_none] at h
        simp only [reduceCtorEq, false_iff]
        rintro ⟨hs, ha, hc, _⟩
        exact h ⟨⟨ha, hc⟩, hs⟩

/-!
# The fault of a work order
-/

theorem orderFault_eq_some_iff {fault : OrderFault} :
    orderFault strict order = some fault <-> order.Faulty strict fault := by
  unfold orderFault
  constructor
  · intro h
    split at h
    · next hempty =>
        cases h
        exact .noFiles (List.isEmpty_iff.mp hempty)
    · obtain ⟨before, op, after, hfiles, hop, hbefore⟩ := List.findSome?_eq_some_iff.mp h
      have hclean : forall earlier, earlier ∈ before -> ¬ earlier.Offends strict :=
        fun earlier he => faultOf_eq_none_iff_not_offends.mp (hbefore earlier he)
      rcases faultOf_eq_some_iff.mp hop with ⟨hpath, rfl⟩ | ⟨hpath, hs, ha, hc, rfl⟩
      · exact .emptyPath hfiles hclean hpath
      · exact .noContent hfiles hclean hpath hs ha hc
  · have hfirst : forall {before after : List FileOperation} {op : FileOperation},
        order.files = before ++ op :: after ->
        (forall earlier, earlier ∈ before -> ¬ earlier.Offends strict) ->
        faultOf strict op = some fault ->
        (if order.files.isEmpty then some .noFiles else order.files.findSome? (faultOf strict)) =
          some fault := by
      intro before after op hfiles hclean hop
      rw [if_neg (by simp [hfiles])]
      refine List.findSome?_eq_some_iff.mpr ⟨before, op, after, hfiles, hop, ?_⟩
      exact fun earlier he => faultOf_eq_none_iff_not_offends.mpr (hclean earlier he)
    intro h
    cases h with
    | noFiles hfiles =>
        rw [if_pos (by rw [hfiles]; rfl)]
    | emptyPath hfiles hclean hpath =>
        exact hfirst hfiles hclean (faultOf_eq_some_iff.mpr (Or.inl ⟨hpath, rfl⟩))
    | noContent hfiles hclean hpath hs ha hc =>
        exact hfirst hfiles hclean (faultOf_eq_some_iff.mpr (Or.inr ⟨hpath, hs, ha, hc, rfl⟩))

theorem exists_faulty (h : ¬ order.IsValid strict) : exists fault, order.Faulty strict fault := by
  have hfault : orderFault strict order ≠ none := fun hnone => h (orderFault_eq_none_iff.mp hnone)
  obtain ⟨fault, hsome⟩ := Option.ne_none_iff_exists'.mp hfault
  exact ⟨fault, orderFault_eq_some_iff.mp hsome⟩

theorem apply_of_faulty {s : FileSet} {fault : OrderFault} (h : order.Faulty s.strict fault) :
    s.apply order = .error (.order order.id fault) := by
  unfold apply
  rw [orderFault_eq_some_iff.mpr h]

/-!
# Work orders up to the first that is refused
-/

def after (s : FileSet) (orders : List WorkOrder) : FileSet :=
  { s with
    files := (WorkOrder.operations orders).foldl applyOperation s.files
    counts := s.counts.add (countOf (WorkOrder.operations orders)) }

theorem applyAll_of_valid {s : FileSet}
    (h : forall order, order ∈ orders -> order.IsValid s.strict) :
    s.applyAll orders =
      { result := s.after orders, outcome := .ok (countOf (WorkOrder.operations orders)) } := by
  have hcounts : forall c : Counts, Counts.add {} c = c := by
    intro c
    simp [Counts.add]
  unfold applyAll after
  rw [applyFrom_eq h, hcounts]

/-- Behind acceptable work orders a refused one ends the application, whatever follows it. -/
theorem applyFrom_of_faulty {s : FileSet} {counts : Counts} {before rest : List WorkOrder}
    {fault : OrderFault} (hbefore : forall o, o ∈ before -> o.IsValid s.strict)
    (hfault : order.Faulty s.strict fault) :
    s.applyFrom counts (before ++ order :: rest) =
      { result := s.after before, outcome := .error (.order order.id fault) } := by
  induction before generalizing s counts with
  | nil =>
      rw [List.nil_append, applyFrom, apply_of_faulty hfault]
      simp [after, WorkOrder.operations, countOf, Counts.add]
  | cons first before ih =>
      have hfirst : first.IsValid s.strict := hbefore first (List.mem_cons_self ..)
      have hothers : forall o, o ∈ before -> o.IsValid s.strict :=
        fun o ho => hbefore o (List.mem_cons_of_mem _ ho)
      rw [List.cons_append, applyFrom, apply_eq hfirst]
      -- the rest is applied to what the first one makes, and the counts add up
      dsimp only
      rw [ih (s := { s with
        files := first.files.foldl applyOperation s.files
        counts := s.counts.add (countOf first.files) }) hothers hfault]
      simp [after, WorkOrder.operations, countOf_append, add_assoc]

theorem exists_split_of_isFirstRefused {place : Nat}
    (h : WorkOrder.IsFirstRefused strict orders place order) :
    (forall o, o ∈ orders.take place -> o.IsValid strict) ∧
      orders = orders.take place ++ order :: orders.drop (place + 1) := by
  obtain ⟨hlt, horder⟩ := List.getElem?_eq_some_iff.mp h.here
  constructor
  · intro o ho
    obtain ⟨earlier, hearlier, rfl⟩ := List.mem_take_iff_getElem.mp ho
    refine h.isFirst earlier _ (by omega) (List.getElem?_eq_getElem _)
  · rw [<- horder, <- List.drop_eq_getElem_cons hlt, List.take_append_drop]

/--
The first work order that is not acceptable is refused for its first fault, and what is left is what
the work orders before it make.  If all are acceptable, none is refused, and what is counted is what
the counts of the file set grow by.
-/
theorem applyAll_up_to_refused (s : FileSet) (orders : List WorkOrder) :
    (forall place order, WorkOrder.IsFirstRefused s.strict orders place order ->
        exists e fault, (s.applyAll orders).outcome = .error e ∧ e = .order order.id fault ∧
          order.Faulty s.strict fault ∧ e.workOrderId = some order.id ∧
          (forall action path, fault = .noContent action path -> e.path = some path) ∧
          (s.applyAll orders).result = (s.applyAll (orders.take place)).result ∧
          (s.applyAll (orders.take place)).result = s.after (orders.take place) ∧
          (s.applyAll (orders.take place)).outcome =
            .ok (countOf (WorkOrder.operations (orders.take place)))) ∧
      ((forall order, order ∈ orders -> order.IsValid s.strict) ->
        exists counts, (s.applyAll orders).outcome = .ok counts ∧
          (s.applyAll orders).result.counts = s.counts.add counts ∧
          (s.applyAll orders).result = s.after orders) := by
  constructor
  · intro place order h
    obtain ⟨hbefore, hsplit⟩ := exists_split_of_isFirstRefused h
    obtain ⟨fault, hfault⟩ := exists_faulty h.refused
    have hall : s.applyAll orders =
        { result := s.after (orders.take place), outcome := .error (.order order.id fault) } := by
      conv => lhs; rw [hsplit]
      exact applyFrom_of_faulty hbefore hfault
    have hfront := applyAll_of_valid hbefore
    refine ⟨_, fault, ?_, rfl, hfault, rfl, ?_, ?_, ?_, ?_⟩
    · rw [hall]
    · rintro action path rfl
      rfl
    · rw [hall, hfront]
    · rw [hfront]
    · rw [hfront]
  · intro h
    have hall := applyAll_of_valid h
    refine ⟨countOf (WorkOrder.operations orders), ?_, ?_, ?_⟩
    · rw [hall]
    · rw [hall]
      rfl
    · rw [hall]

def halfWritten : WorkOrder :=
  { id := "2"
    files :=
      [{ path := "b.ts", action := .create, content := some "3" },
        { path := "c.ts", action := .modify },
        { path := "./", action := .delete }] }

def interrupted : List WorkOrder :=
  [{ id := "1", files := [{ path := "./a.ts", action := .modify, content := some "2" }] },
    halfWritten,
    { id := "3", files := [{ path := "a.ts", action := .delete }] }]

theorem applyAll_up_to_refused_interrupted :
    let s : FileSet := { files := { entries := [("a.ts", "1")] } }
    (s.applyAll interrupted).outcome = .error (.order "2" (.noContent .modify "c.ts")) ∧
      (s.applyAll interrupted).result =
        { files := { entries := [("a.ts", "2")] }, counts := { modified := 1 } } ∧
      exists counts, (s.applyAll (interrupted.take 1)).outcome = .ok counts ∧
        (s.applyAll (interrupted.take 1)).result.counts = s.counts.add counts := by
  intro s
  have hvalid : forall order, order ∈ interrupted.take 1 -> order.IsValid s.strict := by
    intro order horder
    rw [<- orderFault_eq_none_iff]
    revert order
    decide +kernel
  have hfault : orderFault s.strict halfWritten = some (.noContent .modify "c.ts") := by
    decide +kernel
  have hfirst : WorkOrder.IsFirstRefused s.strict interrupted 1 halfWritten := by
    refine ⟨rfl, ?_, ?_⟩
    · rw [<- orderFault_eq_none_iff, hfault]
      exact Option.some_ne_none _
    · intro earlier o hearlier ho
      obtain rfl : earlier = 0 := by omega
      cases ho
      exact hvalid _ (List.mem_cons_self ..)
  obtain ⟨_, fault, houtcome, rfl, hfaulty, _, _, hresult, hfront, _⟩ :=
    (applyAll_up_to_refused s interrupted).1 1 _ hfirst
  have hsame : some fault = some (.noContent .modify "c.ts") :=
    (orderFault_eq_some_iff.mpr hfaulty).symm.trans hfault
  cases hsame
  refine ⟨houtcome, ?_, ?_⟩
  · rw [hresult, hfront]
    decide +kernel
  · obtain ⟨counts, hok, hcounts, _⟩ :=
      (applyAll_up_to_refused s (interrupted.take 1)).2 hvalid
    exact ⟨counts, hok, hcounts⟩

end FileSet
end Joinery
