import Joinery.FileSet.Basic

/-!
# The history of a file set

## Seeds and operations as one list of events

A file set comes about by writing files under keys and by taking keys out.  This module
turns the seeds and the operations of work orders into one list of such events, and
says that a file set made out of acceptable work orders is what this list leaves, with
one count for each operation.
-/

namespace Joinery

/-- One change of the file under a key. -/
inductive FileEvent where
  | write (key text : String)
  | delete (key : String)
deriving DecidableEq, Repr

namespace FileEvent

def key : FileEvent -> String
  | .write key _ => key
  | .delete key => key

def ofSeed (entry : String × Option String) : FileEvent :=
  .write (Path.canonical entry.1) (entry.2.getD "")

def ofOperation (op : FileOperation) : FileEvent :=
  match op.action with
  | .delete => .delete (Path.canonical op.path)
  | _ => .write (Path.canonical op.path) (op.content.getD "")

def apply (files : Table String) : FileEvent -> Table String
  | .write key text => files.insert key text
  | .delete key => files.erase key

def replay (events : List FileEvent) : Table String :=
  events.foldl apply Table.empty

theorem replay_concat (events : List FileEvent) (e : FileEvent) :
    replay (events ++ [e]) = apply (replay events) e := by
  simp [replay]

theorem apply_ofOperation (files : Table String) (op : FileOperation) :
    apply files (ofOperation op) = FileSet.applyOperation files op := by
  unfold ofOperation FileSet.applyOperation
  cases op.action with
  | create =>
      rfl
  | modify =>
      rfl
  | delete =>
      rfl

theorem foldl_ofOperation (ops : List FileOperation) (files : Table String) :
    (ops.map ofOperation).foldl apply files = ops.foldl FileSet.applyOperation files := by
  induction ops generalizing files with
  | nil =>
      rfl
  | cons op rest ih =>
      simp only [List.map_cons, List.foldl_cons, apply_ofOperation]
      exact ih _

end FileEvent

def WorkOrder.operations (orders : List WorkOrder) : List FileOperation :=
  orders.flatMap (·.files)

/--
What a work order must be like to be accepted: it has operations, each of them names a file, and
where contents are required each of them that writes has one.
-/
def WorkOrder.IsValid (strict : Bool) (order : WorkOrder) : Prop :=
  order.files ≠ [] ∧
    forall op, op ∈ order.files ->
      Path.canonical op.path ≠ "" ∧
        (op.action ≠ .delete -> strict = true -> op.content ≠ none)

namespace FileSet

def history (existing : List (String × Option String)) (orders : List WorkOrder) :
    List FileEvent :=
  existing.map FileEvent.ofSeed ++ (WorkOrder.operations orders).map FileEvent.ofOperation

/-!
# Seeds
-/

theorem seed_eq {strict : Bool} {existing : List (String × Option String)}
    (h : forall entry, entry ∈ existing -> Path.canonical entry.1 ≠ "") :
    seed strict existing =
      .ok { files := FileEvent.replay (existing.map FileEvent.ofSeed), strict := strict } := by
  have hfold : forall (rest : List (String × Option String)) (files : Table String),
      (forall entry, entry ∈ rest -> Path.canonical entry.1 ≠ "") ->
      rest.foldlM (m := Except InputError)
          (fun files entry =>
            if (Path.canonical entry.1).isEmpty then .error .emptyExistingPath
            else .ok (files.insert (Path.canonical entry.1) (entry.2.getD ""))) files =
        .ok ((rest.map FileEvent.ofSeed).foldl FileEvent.apply files) := by
    intro rest
    induction rest with
    | nil =>
        intro files _
        rfl
    | cons entry rest ih =>
        intro files hrest
        have hkey : (Path.canonical entry.1).isEmpty = false := by
          simpa using hrest entry (List.mem_cons_self ..)
        have htail := ih (files.insert (Path.canonical entry.1) (entry.2.getD ""))
          fun e he => hrest e (List.mem_cons_of_mem _ he)
        rw [List.foldlM_cons, hkey]
        exact htail
  unfold seed
  dsimp only
  rw [hfold existing Table.empty h]
  rfl

/-!
# Work orders
-/

theorem faultOf_eq_none_iff {strict : Bool} {op : FileOperation} :
    faultOf strict op = none <->
      Path.canonical op.path ≠ "" ∧
        (op.action ≠ .delete -> strict = true -> op.content ≠ none) := by
  unfold faultOf
  by_cases hpath : Path.canonical op.path = ""
  · simp [hpath]
  · have hkey : (Path.canonical op.path).isEmpty = false := by simpa using hpath
    cases haction : op.action <;> cases hcontent : op.content <;> cases strict <;>
      simp [hkey, hpath]

theorem orderFault_eq_none_iff {strict : Bool} {order : WorkOrder} :
    orderFault strict order = none <-> order.IsValid strict := by
  unfold orderFault WorkOrder.IsValid
  cases hfiles : order.files with
  | nil =>
      simp
  | cons op rest =>
      simp only [List.isEmpty_cons, Bool.false_eq_true, if_false, List.findSome?_eq_none_iff,
        faultOf_eq_none_iff]
      simp

theorem apply_eq {s : FileSet} {order : WorkOrder} (h : order.IsValid s.strict) :
    s.apply order =
      .ok
        ({ s with
            files := order.files.foldl applyOperation s.files
            counts := s.counts.add (countOf order.files) },
          countOf order.files) := by
  unfold apply
  rw [orderFault_eq_none_iff.mpr h]

theorem add_assoc (c d e : Counts) : (c.add d).add e = c.add (d.add e) := by
  simp [Counts.add, Nat.add_assoc]

theorem foldl_one (ops : List FileOperation) (c : Counts) :
    ops.foldl (fun counts op => counts.add (.one op.action)) c = c.add (countOf ops) := by
  unfold countOf
  induction ops generalizing c with
  | nil =>
      rfl
  | cons op rest ih =>
      rw [List.foldl_cons, List.foldl_cons, ih (c.add (.one op.action)),
        ih (Counts.add {} (.one op.action)), add_assoc]
      congr 1
      cases op.action <;> simp [Counts.add, Counts.one]

@[simp] theorem countOf_append (first second : List FileOperation) :
    countOf (first ++ second) = (countOf first).add (countOf second) := by
  rw [countOf, List.foldl_append, foldl_one second]
  rfl

theorem countOf_eq (ops : List FileOperation) :
    countOf ops =
      { created := ops.countP fun op => op.action = .create
        modified := ops.countP fun op => op.action = .modify
        deleted := ops.countP fun op => op.action = .delete } := by
  induction ops with
  | nil =>
      rfl
  | cons op rest ih =>
      rw [show op :: rest = [op] ++ rest from rfl, countOf_append, ih]
      cases haction : op.action <;> simp [countOf, Counts.add, Counts.one, haction, Nat.add_comm]

theorem applyFrom_eq {orders : List WorkOrder} {s : FileSet} {counts : Counts}
    (h : forall order, order ∈ orders -> order.IsValid s.strict) :
    s.applyFrom counts orders =
      { result :=
          { s with
              files := (WorkOrder.operations orders).foldl applyOperation s.files
              counts := s.counts.add (countOf (WorkOrder.operations orders)) }
        outcome := .ok (counts.add (countOf (WorkOrder.operations orders))) } := by
  induction orders generalizing s counts with
  | nil =>
      rfl
  | cons order rest ih =>
      have horder : order.IsValid s.strict := h order (List.mem_cons_self ..)
      have hrest : forall o, o ∈ rest -> o.IsValid s.strict :=
        fun o ho => h o (List.mem_cons_of_mem _ ho)
      rw [applyFrom, apply_eq horder]
      dsimp only
      rw [ih (s := { s with
        files := order.files.foldl applyOperation s.files
        counts := s.counts.add (countOf order.files) }) hrest]
      simp [WorkOrder.operations, countOf_append, add_assoc]

theorem ofWorkOrders_eq {strict : Bool} {existing : List (String × Option String)}
    {orders : List WorkOrder}
    (hseeds : forall entry, entry ∈ existing -> Path.canonical entry.1 ≠ "")
    (horders : forall order, order ∈ orders -> order.IsValid strict) :
    ofWorkOrders strict existing orders =
      .ok
        { files := FileEvent.replay (history existing orders)
          counts := countOf (WorkOrder.operations orders)
          strict := strict } := by
  unfold ofWorkOrders
  rw [seed_eq hseeds]
  dsimp only
  unfold applyAll
  rw [applyFrom_eq (s := { files := _, strict := strict }) horders]
  dsimp only
  simp [history, FileEvent.replay, FileEvent.foldl_ofOperation, Counts.add]

end FileSet
end Joinery
