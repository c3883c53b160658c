import Joinery.Proofs.Assembly.Passes
import Joinery.Proofs.FileSet.LastOperation

/-!
# Writers of one pass

## What the repair of exports leaves of generated texts

The generator of missing files and the repair of exports work on one snapshot, and what the
repair writes is applied last.  A generated text stays as it is unless a file of the snapshot
under the same key is repaired; then the repaired text of the snapshot takes its place.
-/

namespace Joinery

open ExportFix Run SourceModule Text

/-!
# The last write under a key
-/

namespace FileEvent

theorem isLast_pair (first last : FileEvent) : IsLast [first, last] 1 last :=
  (@isLast_concat_iff [first] last last 1).mpr (.inl ⟨rfl, rfl⟩)

theorem get?_foldl_of_isLast {events : List FileEvent} {place : Nat} {key text : String}
    (h : IsLast events place (.write key text)) (files : Table String) :
    (events.foldl apply files).get? key = some text := by
  induction events using List.reverseRecOn with
  | nil =>
      obtain ⟨hplace, _⟩ := h
      cases hplace
  | append_singleton events e ih =>
      rw [List.foldl_append]
      rcases isLast_concat_iff.mp h with ⟨_, rfl⟩ | ⟨hlast, hkey⟩
      · simp [apply]
      · have hbefore := ih hlast
        cases e with
        | write other content =>
            simpa [apply, show other ≠ key from hkey] using hbefore
        | delete other =>
            simpa [apply, show other ≠ key from hkey] using hbefore

end FileEvent

namespace FileSet

theorem get?_foldl_writes {ops : List FileOperation}
    (hwrites : forall op, op ∈ ops -> op.action ≠ .delete) (files : Table String) (key : String) :
    ((forall op, op ∈ ops -> Path.canonical op.path ≠ key) ∧
        (ops.foldl applyOperation files).get? key = files.get? key) ∨
      exists op, op ∈ ops ∧ Path.canonical op.path = key ∧
        (ops.foldl applyOperation files).get? key = some (op.content.getD "") := by
  induction ops using List.reverseRecOn with
  | nil =>
      exact Or.inl ⟨fun _ hop => absurd hop List.not_mem_nil, rfl⟩
  | append_singleton ops op ih =>
      have hwrite : forall current, applyOperation current op =
          current.insert (Path.canonical op.path) (op.content.getD "") := by
        intro current
        unfold applyOperation
        cases haction : op.action with
        | create =>
            rfl
        | modify =>
            rfl
        | delete =>
            exact absurd haction (hwrites op (by simp))
      rw [List.foldl_append, List.foldl_cons, List.foldl_nil, hwrite]
      by_cases hkey : Path.canonical op.path = key
      · subst hkey
        exact Or.inr ⟨op, by simp, rfl, by simp⟩
      · rw [Table.get?_insert_other _ hkey]
        rcases ih fun other hother => hwrites other (List.mem_append_left _ hother) with
          ⟨hnone, hsame⟩ | ⟨other, hother, hcanonical, hget⟩
        · refine Or.inl ⟨?_, hsame⟩
          intro other hother
          rcases List.mem_append.mp hother with hother | hother
          · exact hnone other hother
          · rw [List.mem_singleton.mp hother]
            exact hkey
        · exact Or.inr ⟨other, List.mem_append_left _ hother, hcanonical, hget⟩

end FileSet

/-!
# Texts with a list at their end
-/

namespace ExportFix

/-- The text is kept, or an export list of identifiers is appended to it. -/
def Keeps (text final : String) : Prop :=
  final = text ∨
    exists names, names ≠ [] ∧ (forall name, name ∈ names -> IsIdentifier name) ∧
      final = withExportList text names

theorem front_eq_of_last {a : Char} {front other back rest : List Char} (hback : a ∉ back)
    (hrest : a ∉ rest) (h : front ++ a :: back = other ++ a :: rest) : front = other := by
  have hcut : forall {x u : List Char}, a ∉ u ->
      (x ++ a :: u).reverse.dropWhile (fun ch => ch != a) = a :: x.reverse := by
    intro x u hu
    rw [List.reverse_append, List.reverse_cons, List.append_assoc,
      List.dropWhile_append_of_pos, List.singleton_append, List.dropWhile_cons_of_neg]
    · simp
    · intro ch hch
      rw [bne_iff_ne]
      rintro rfl
      exact hu (List.mem_reverse.mp hch)
  have hdrop := hcut (x := front) hback
  rw [h, hcut hrest] at hdrop
  exact (List.reverse_inj.mp (List.cons.inj hdrop).2).symm

theorem trimEnd_eq_of_withExportList {first second : String} {names others : List String}
    (hnames : forall name, name ∈ names -> IsIdentifier name)
    (hothers : forall name, name ∈ others -> IsIdentifier name)
    (h : withExportList first names = withExportList second others) :
    trimEnd first.toList = trimEnd second.toList := by
  -- the list stands on one line, so that the last line end before it is the one of an empty line
  let line (ns : List String) : List Char := "export \x7b".toList ++ listClause ns ++ ['}']
  have hline : forall ns, (forall n, n ∈ ns -> IsIdentifier n) -> '\n' ∉ line ns := by
    intro ns hns hmem
    simp only [line, List.mem_append] at hmem
    rcases hmem with (hmem | hmem) | hmem
    · revert hmem
      decide
    · rcases char_of_mem_list hns hmem with hclass | hclass | hclass
      · revert hclass
        decide
      · cases hclass
      · cases hclass
    · cases List.mem_singleton.mp hmem
  have htext : forall (text : String) ns, (withExportList text ns).toList =
      (trimEnd text.toList ++ ['\n'] ++ '\n' :: line ns) ++ ['\n'] := by
    intro text ns
    have hstart : listStart = '\n' :: '\n' :: "export \x7b".toList := by decide
    rw [toList_withExportList, hstart, listTail]
    simp [line]
  have hlists := congrArg String.toList h
  rw [htext, htext] at hlists
  have hfront := front_eq_of_last (hline names hnames) (hline others hothers)
    (List.append_cancel_right hlists)
  exact List.append_cancel_right hfront

/-- A list that was appended to another text keeps a text only if the two texts are the same, but
for blanks at their ends, or if the text has got the list already. -/
theorem keeps_withExportList_iff {text old : String} {names : List String} (hne : names ≠ [])
    (hnames : forall name, name ∈ names -> IsIdentifier name) :
    Keeps text (withExportList old names) <->
      text = withExportList old names ∨ trimEnd text.toList = trimEnd old.toList := by
  constructor
  · rintro (heq | ⟨others, _, hothers, heq⟩)
    · exact Or.inl heq.symm
    · exact Or.inr (trimEnd_eq_of_withExportList hnames hothers heq).symm
  · rintro (heq | heq)
    · exact Or.inl heq.symm
    · refine Or.inr ⟨names, hne, hnames, ?_⟩
      unfold withExportList
      rw [heq]

end ExportFix

/-!
# Passes one by one
-/

theorem Run.bind_assoc {ε α β γ : Type} (m : Run ε α) (next : α -> Run ε β) (later : β -> Run ε γ) :
    m >>= next >>= later = m >>= fun a => next a >>= later := by
  funext log
  cases hrun : m log with
  | mk middle outcome =>
      cases outcome with
      | error e =>
          rw [bind_of_error hrun, bind_of_error (bind_of_error hrun next)]
      | ok a =>
          have hfirst := bind_of_ok hrun next
          rw [bind_of_ok hrun]
          cases hnext : next a middle with
          | mk after result =>
              rw [hnext] at hfirst
              cases result with
              | error e =>
                  rw [bind_of_error hnext, bind_of_error hfirst]
              | ok b =>
                  rw [bind_of_ok hnext, bind_of_ok hfirst]

theorem Run.ite_bind {ε α β : Type} (b : Bool) (m n : Run ε α) (next : α -> Run ε β) :
    (if b then m else n) >>= next = if b then m >>= next else n >>= next := by
  cases b <;> rfl

namespace Repair

variable {ε : Type} {company : Company ε} {config : Config} {request : AssemblyRequest}

/-- What was written in a pass, and the state in which the next one starts. -/
structure Turn where
  generated : List WorkOrder
  fixes : List WorkOrder
  next : RepairState

def turn (company : Company ε) (config : Config) (request : AssemblyRequest)
    (start : RepairState) : Run ε (Repaired ⊕ Turn) := do
  let options := request.optionsIn config
  let files := start.files.files
  let validator := request.validator config files
  let report := validator.validate files
  let state := observe start report
  Run.emit company (.validationPass state.pass report.errors.length report.warnings.length)
  let missing :=
    if (generatorFor company options).isSome then
      MissingFile.find validator.resolver report.unresolved
    else []
  let finished : Repaired := { state := state, report := report }
  if report.passes && missing.isEmpty then pure (.inl finished)
  else if <- Run.deadlinePassed request.deadline then pure (.inl finished)
  else
    let (generated, fixes) <- collect company options state.pass files report missing
    if generated.isEmpty && fixes.isEmpty then pure (.inl finished)
    else
      let next <- applyCollected company state generated fixes
      pure (.inr { generated := generated, fixes := fixes, next := next })

theorem passes_eq_turn (left : Nat) (start : RepairState) :
    passes company config request (left + 1) start =
      turn company config request start >>= fun outcome =>
        match outcome with
        | .inl done => pure done
        | .inr turn => passes company config request left turn.next := by
  conv => lhs; unfold passes
  unfold turn
  dsimp only
  rw [Run.bind_assoc]
  congr 1
  funext _
  rw [Run.ite_bind]
  refine ite_congr rfl (fun _ => rfl) fun _ => ?_
  rw [Run.bind_assoc]
  congr 1
  funext late
  rw [Run.ite_bind]
  refine ite_congr rfl (fun _ => rfl) fun _ => ?_
  rw [Run.bind_assoc]
  congr 1
  funext written
  rw [Run.ite_bind]
  refine ite_congr rfl (fun _ => rfl) fun _ => ?_
  rw [Run.bind_assoc]
  rfl

/-!
# What a turn does to the files
-/

theorem applyOrders_yields (s : FileSet) (count : Nat) (orders : List WorkOrder) :
    Yields (Run.applyOrders company s count orders) fun done =>
      done.1.files = (WorkOrder.operations orders).foldl FileSet.applyOperation s.files := by
  intro log _
  have hends := @Contract.applyOrders _ company log.events s orders count log rfl
  cases hrun : Run.applyOrders company s count orders log with
  | mk later outcome =>
      rw [hrun] at hends
      cases outcome with
      | ok done =>
          exact hends.2.1
      | error e =>
          trivial

theorem applyCollected_files (state : RepairState) (generated fixes : List WorkOrder) :
    Yields (applyCollected company state generated fixes) fun next =>
      next.files.files =
        (WorkOrder.operations fixes).foldl FileSet.applyOperation
          ((WorkOrder.operations generated).foldl FileSet.applyOperation state.files.files) := by
  unfold applyCollected
  refine Yields.bind (applyOrders_yields _ _ _) ?_
  rintro ⟨written, _⟩ hwritten
  refine Yields.andThen fun _ => ?_
  refine Yields.bind (applyOrders_yields _ _ _) ?_
  rintro ⟨mended, _⟩ hmended
  refine Yields.ret ?_
  rw [<- hwritten]
  exact hmended

theorem repairsFor_yields (hfixes : company.fixes = none) (options : Options) (report : Report)
    (wanted : FixRequest) :
    Yields (repairsFor company options report wanted) fun fixes =>
      fixes = [] ∨ fixes = ordersFor wanted := by
  refine Yields.ite (fun _ => Yields.ret (Or.inl rfl)) fun _ => ?_
  unfold fixesFor
  rw [hfixes]
  cases options.autoFixExports with
  | true =>
      exact Yields.ret (Or.inr rfl)
  | false =>
      exact Yields.ret (Or.inl rfl)

theorem collect_fixes (hfixes : company.fixes = none) (options : Options) (v : Validator)
    (pass : Nat) (files : Table String) (missing : List MissingFile) :
    Yields (collect company options pass files (v.validate files) missing) fun written =>
      written.2 = [] ∨ written.2 = ordersFor (v.request files pass missing) := by
  rw [collect_eq]
  refine Yields.andThen fun generated => ?_
  refine Yields.bind (repairsFor_yields hfixes options (v.validate files) _) ?_
  intro fixes hrepairs
  exact Yields.ret hrepairs

structure Follows (v : Validator) (start : RepairState) (turn : Turn) : Prop where
  files : turn.next.files.files =
    (WorkOrder.operations turn.fixes).foldl FileSet.applyOperation
      ((WorkOrder.operations turn.generated).foldl FileSet.applyOperation start.files.files)
  fixes : turn.fixes = [] ∨
    exists pass missing, turn.fixes = ordersFor (v.request start.files.files pass missing)

theorem turn_follows (hfixes : company.fixes = none) (start : RepairState) :
    Yields (turn company config request start) fun outcome =>
      forall t, outcome = .inr t ->
        Follows (request.validator config start.files.files) start t := by
  have hlast : forall done : Repaired, forall t, (.inl done : Repaired ⊕ Turn) = .inr t ->
      Follows (request.validator config start.files.files) start t := by
    intro done t heq
    cases heq
  unfold turn
  refine Yields.andThen fun _ => ?_
  refine Yields.ite (fun _ => Yields.ret (hlast _)) fun _ => ?_
  refine Yields.andThen fun late => ?_
  refine Yields.ite (fun _ => Yields.ret (hlast _)) fun _ => ?_
  refine Yields.bind (collect_fixes hfixes _ _ _ _ _) ?_
  rintro ⟨generated, fixes⟩ hcollected
  refine Yields.ite (fun _ => Yields.ret (hlast _)) fun _ => ?_
  refine Yields.bind (applyCollected_files _ _ _) ?_
  intro next hnext
  refine Yields.ret ?_
  rintro t ⟨⟩
  refine ⟨hnext, ?_⟩
  rcases hcollected with hnone | hsome
  · exact Or.inl hnone
  · exact Or.inr ⟨_, _, hsome⟩

theorem Follows.of_mem_fixes {v : Validator} {start : RepairState} {t : Turn}
    (h : Follows v start t) {op : FileOperation} (hop : op ∈ WorkOrder.operations t.fixes) :
    exists old names, start.files.files.get? op.path = some old ∧ names ≠ [] ∧
      (forall name, name ∈ names -> IsIdentifier name) ∧ op.action = .modify ∧
      op.content = some (withExportList old names) := by
  rcases h.fixes with hnone | ⟨pass, missing, hsome⟩
  · rw [hnone] at hop
    cases hop
  · rw [hsome, operations_ordersFor] at hop
    obtain ⟨old, hold, hne, hedit⟩ := mem_operations_request_iff.mp hop
    refine ⟨old, _, hold, hne, fun name hname => isIdentifier_of_wanted (mem_addable hname), ?_, ?_⟩
    · rw [hedit]
      rfl
    · rw [hedit]
      exact congrArg some (mend_of_ne_nil hne)

/--
What becomes of a text that the generator wrote last under a key, whatever it writes.  It stays as
it is if the repair writes nothing under this key, and so it does if no file of the snapshot comes
under it.  Otherwise the text of such a file takes its place, with an export list; this keeps what
was generated only if both texts are the same, but for blanks at their ends, or if the list is the
same too.
-/
theorem turn_keeps_generated (hfixes : company.fixes = none) {start : RepairState} {t : Turn}
    {log later : Log} (hturn : turn company config request start log = (later, .ok (.inr t)))
    {place : Nat} {key text : String}
    (hlast : FileEvent.IsLast ((WorkOrder.operations t.generated).map FileEvent.ofOperation) place
      (.write key text)) :
    ((forall op, op ∈ WorkOrder.operations t.fixes -> Path.canonical op.path ≠ key) ->
        t.next.files.files.get? key = some text) ∧
      ((forall path, path ∈ start.files.paths -> Path.canonical path ≠ key) ->
        t.next.files.files.get? key = some text) ∧
      ((exists op, op ∈ WorkOrder.operations t.fixes ∧ Path.canonical op.path = key) ->
        exists path old final, start.files.files.get? path = some old ∧ Path.canonical path = key ∧
          t.next.files.files.get? key = some final ∧
          (exists names, names ≠ [] ∧ final = withExportList old names) ∧
          (Keeps text final <-> text = final ∨ trimEnd text.toList = trimEnd old.toList)) := by
  have hfollows := (turn_follows hfixes start).of_eq hturn t rfl
  have hwritten : ((WorkOrder.operations t.generated).foldl FileSet.applyOperation
      start.files.files).get? key = some text := by
    rw [<- FileEvent.foldl_ofOperation]
    exact FileEvent.get?_foldl_of_isLast hlast start.files.files
  have hwrites : forall op, op ∈ WorkOrder.operations t.fixes -> op.action ≠ .delete := by
    intro op hop hdelete
    obtain ⟨_, _, _, _, _, haction, _⟩ := hfollows.of_mem_fixes hop
    rw [haction] at hdelete
    cases hdelete
  have hkept : (forall op, op ∈ WorkOrder.operations t.fixes -> Path.canonical op.path ≠ key) ->
      t.next.files.files.get? key = some text := by
    intro hnone
    rw [hfollows.files]
    rcases FileSet.get?_foldl_writes hwrites _ key with ⟨_, hsame⟩ | ⟨op, hop, hkey, _⟩
    · exact hsame.trans hwritten
    · exact absurd hkey (hnone op hop)
  refine ⟨hkept, ?_, ?_⟩
  · intro hnew
    refine hkept fun op hop => hnew op.path ?_
    obtain ⟨old, _, hold, _⟩ := hfollows.of_mem_fixes hop
    exact (Table.mem_keys_iff _ _).mpr ⟨old, hold⟩
  · rintro ⟨first, hfirst, hkey⟩
    rw [hfollows.files]
    rcases FileSet.get?_foldl_writes hwrites _ key with ⟨hnone, _⟩ | ⟨op, hop, hkey, hget⟩
    · exact absurd hkey (hnone first hfirst)
    · obtain ⟨old, names, hold, hne, hnames, _, hcontent⟩ := hfollows.of_mem_fixes hop
      rw [hcontent] at hget
      exact ⟨op.path, old, _, hold, hkey, hget, ⟨names, hne, rfl⟩,
        keeps_withExportList_iff hne hnames⟩

theorem exists_log_of_getRight? {run : Log × Except RunError (Repaired ⊕ Turn)} {t : Turn}
    (h : run.2.toOption.bind Sum.getRight? = some t) :
    exists later, run = (later, .ok (.inr t)) := by
  obtain ⟨later, outcome⟩ := run
  obtain ⟨side, hside, hright⟩ := Option.bind_eq_some_iff.mp h
  refine ⟨later, ?_⟩
  cases outcome with
  | error e =>
      cases hside
  | ok found =>
      cases hside
      rw [Sum.getRight?_eq_some_iff.mp hright]

def keptBack : String :=
  "export default function f() \x7b\x7d\nfunction helper() \x7b\x7d\n"

def rewritten : String :=
  "export default function f() \x7b return 1 \x7d\nexport function helper() \x7b\x7d\n"

/-- A missing file is written, and with it the module that keeps its helper to itself. -/
def rivalCompany : Company Unit :=
  { onEvent := fun _ => none
    fixes := none
    generate := some fun _ _ _ => .ok
      [{ id := "generated"
         files :=
          [{ path := "src/new.ts", action := .create, content := some "export const x = 1\n" },
            { path := "./src//t.ts", action := .modify, content := some rewritten }] }] }

def rivalStart : RepairState :=
  { files :=
      { files :=
          { entries :=
              [("src/t.ts", keptBack),
                ("src/a.ts", "import \x7b helper \x7d from './t'\nimport './new'\n")] } } }

theorem exists_rival_turn :
    exists later t,
      turn rivalCompany {} { projectId := "rival" } rivalStart {} = (later, .ok (.inr t)) ∧
      FileEvent.IsLast ((WorkOrder.operations t.generated).map FileEvent.ofOperation) 1
        (.write "src/t.ts" rewritten) ∧
      t.next.files.files.get? "src/t.ts" = some (withExportList keptBack ["helper"]) := by
  have hrun : ((turn rivalCompany {} { projectId := "rival" } rivalStart {}).2.toOption.bind
      Sum.getRight?).map (fun t =>
        ((WorkOrder.operations t.generated).map FileEvent.ofOperation,
          t.next.files.files.get? "src/t.ts")) =
      some ([.write "src/new.ts" "export const x = 1\n", .write "src/t.ts" rewritten],
        some (withExportList keptBack ["helper"])) := by
    decide +kernel
  obtain ⟨t, hright, hfound⟩ := Option.map_eq_some_iff.mp hrun
  obtain ⟨hevents, hget⟩ := Prod.mk.inj hfound
  obtain ⟨later, hturn⟩ := exists_log_of_getRight? hright
  refine ⟨later, t, hturn, ?_, hget⟩
  rw [hevents]
  exact FileEvent.isLast_pair _ _

theorem turn_keeps_generated_rival :
    exists later t,
      turn rivalCompany {} { projectId := "rival" } rivalStart {} = (later, .ok (.inr t)) ∧
      FileEvent.IsLast ((WorkOrder.operations t.generated).map FileEvent.ofOperation) 1
        (.write "src/t.ts" rewritten) ∧
      ((forall op, op ∈ WorkOrder.operations t.fixes -> Path.canonical op.path ≠ "src/t.ts") ->
          t.next.files.files.get? "src/t.ts" = some rewritten) ∧
        ((forall path, path ∈ rivalStart.files.paths -> Path.canonical path ≠ "src/t.ts") ->
          t.next.files.files.get? "src/t.ts" = some rewritten) ∧
        ((exists op, op ∈ WorkOrder.operations t.fixes ∧ Path.canonical op.path = "src/t.ts") ->
          exists path old final, rivalStart.files.files.get? path = some old ∧
            Path.canonical path = "src/t.ts" ∧
            t.next.files.files.get? "src/t.ts" = some final ∧
            (exists names, names ≠ [] ∧ final = withExportList old names) ∧
            (Keeps rewritten final <->
              rewritten = final ∨ trimEnd rewritten.toList = trimEnd old.toList)) := by
  obtain ⟨later, t, hturn, hlast, _⟩ := exists_rival_turn
  exact ⟨later, t, hturn, hlast, turn_keeps_generated rfl hturn hlast⟩

/-- The text that was written anew is lost: the older one stands in its place, with a list. -/
theorem generated_text_overwritten :
    exists later t,
      turn rivalCompany {} { projectId := "rival" } rivalStart {} = (later, .ok (.inr t)) ∧
      FileEvent.IsLast ((WorkOrder.operations t.generated).map FileEvent.ofOperation) 1
        (.write "src/t.ts" rewritten) ∧
      t.next.files.files.get? "src/t.ts" = some (withExportList keptBack ["helper"]) ∧
      ¬ Keeps rewritten (withExportList keptBack ["helper"]) := by
  obtain ⟨later, t, hturn, hlast, hget⟩ := exists_rival_turn
  have hname : forall name, name ∈ ["helper"] -> IsIdentifier name := by
    intro name hmem
    rw [List.mem_singleton.mp hmem]
    exact ⟨'h', "elper".toList, by decide, by decide, List.all_eq_true.mp (by decide)⟩
  refine ⟨later, t, hturn, hlast, hget, ?_⟩
  rw [keeps_withExportList_iff (by decide) hname]
  decide

end Repair
end Joinery
