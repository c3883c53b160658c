import Joinery.Proofs.Assembly.Calls
import Joinery.Proofs.Assembly.Chronicle
import Joinery.Proofs.Validation.Agreement

/-!
# The account of the passes

## Errors that come and go

Each pass compares its errors with those of the pass before, and counts the ones that are gone.
Since no report names an error twice, the numbers of errors that the passes announce differ by
those that are gone and those that are new, whatever the collaborators write in between.
-/

namespace Joinery

namespace Report

def errorsMissingFrom (r s : Report) : List Diagnostic :=
  r.errors.filter fun d => d.key ∉ s.errors.map Diagnostic.key

/-- The number of errors that are gone in the next report, over all neighbours. -/
def goneCount (reports : List Report) : Nat :=
  (List.zipWith (fun r s => (r.errorsMissingFrom s).length) reports reports.tail).sum

/-- The number of errors that are new in the next report, over all neighbours. -/
def newCount (reports : List Report) : Nat :=
  (List.zipWith (fun r s => (s.errorsMissingFrom r).length) reports reports.tail).sum

/-- No error is named twice. -/
def NamesOnce (r : Report) : Prop :=
  (r.errors.map Diagnostic.key).Nodup

variable {r s : Report} {reports : List Report}

theorem length_errorsMissingFrom (r s : Report) :
    ((r.errors.map Diagnostic.key).filter fun key => key ∉ s.errors.map Diagnostic.key).length =
      (r.errorsMissingFrom s).length := by
  rw [List.filter_map, List.length_map]
  rfl

theorem errors_balance (hr : r.NamesOnce) (hs : s.NamesOnce) :
    s.errors.length + (r.errorsMissingFrom s).length =
      r.errors.length + (s.errorsMissingFrom r).length := by
  have hkeys := length_add_length_lacking hs hr
  rw [length_errorsMissingFrom, length_errorsMissingFrom, List.length_map, List.length_map] at hkeys
  exact hkeys

theorem goneCount_cons_cons (r s : Report) (rest : List Report) :
    goneCount (r :: s :: rest) = (r.errorsMissingFrom s).length + goneCount (s :: rest) := by
  unfold goneCount
  rw [List.tail_cons, List.zipWith_cons_cons, List.sum_cons]
  rfl

theorem newCount_cons_cons (r s : Report) (rest : List Report) :
    newCount (r :: s :: rest) = (s.errorsMissingFrom r).length + newCount (s :: rest) := by
  unfold newCount
  rw [List.tail_cons, List.zipWith_cons_cons, List.sum_cons]
  rfl

theorem getLast_balance (rest : List Report) (first : Report)
    (h : forall r, r ∈ first :: rest -> r.NamesOnce) :
    ((first :: rest).getLast (List.cons_ne_nil _ _)).errors.length + goneCount (first :: rest) =
      first.errors.length + newCount (first :: rest) := by
  induction rest generalizing first with
  | nil =>
      rfl
  | cons next rest ih =>
      have hlater := ih next fun r hr => h r (List.mem_cons_of_mem _ hr)
      have hstep := errors_balance (h first (List.mem_cons_self ..))
        (h next (List.mem_cons_of_mem _ (List.mem_cons_self ..)))
      rw [List.getLast_cons (List.cons_ne_nil _ _), goneCount_cons_cons, newCount_cons_cons]
      omega

def announcement (pass : Nat) (r : Report) : Event :=
  .validationPass pass r.errors.length r.warnings.length

end Report

namespace Event

def errorCount? : Event -> Option Int
  | .validationPass _ errors _ => some errors
  | _ => none

theorem filterMap_errorCount? (events : List Event) :
    events.filterMap errorCount? = (events.filter isPass).filterMap errorCount? := by
  rw [List.filterMap_filter]
  refine List.filterMap_congr fun e _ => ?_
  cases e <;> rfl

theorem filter_isPass_of_passCount {events : List Event} (h : passCount events = 0) :
    events.filter isPass = [] :=
  List.filter_eq_nil_iff.mpr (List.countP_eq_zero.mp h)

end Event

namespace Repair

open Run

variable {ε : Type} {company : Company ε} {config : Config} {request : AssemblyRequest}

/-!
# One pass
-/

def reportOf (config : Config) (request : AssemblyRequest) (files : Table String) : Report :=
  (request.validator config files).validate files

/-- What a pass makes of a state, and how it is told. -/
inductive Booked (config : Config) (request : AssemblyRequest) (start : RepairState) :
    Repaired ⊕ Turn -> List Event -> Prop
  | last :
      Booked config request start
        (.inl { state := observe start (reportOf config request start.files.files)
                report := reportOf config request start.files.files })
        [(reportOf config request start.files.files).announcement (start.pass + 1)]
  | onward {t : Turn} {more : List Event} (ops : List FileOperation) :
      t.next.files.files = ops.foldl FileSet.applyOperation start.files.files ->
      t.next.pass = start.pass + 1 ->
      t.next.previous =
        some ((reportOf config request start.files.files).errors.map Diagnostic.key) ->
      t.next.errorsFixed = start.errorsFixed + fixedCount start.previous
        ((reportOf config request start.files.files).errors.map Diagnostic.key) ->
      Event.passCount more = 0 ->
      Booked config request start (.inr t)
        ((reportOf config request start.files.files).announcement (start.pass + 1) :: more)

theorem passCount_generatedEvents (orders : List WorkOrder) :
    Event.passCount (generatedEvents orders) = 0 := by
  refine List.countP_eq_zero.mpr ?_
  intro e he
  obtain ⟨order, _, he⟩ := List.mem_flatMap.mp he
  obtain ⟨op, _, rfl⟩ := List.mem_map.mp he
  exact Bool.false_ne_true

theorem Reports.applyWritten (state : RepairState) (generated fixes : List WorkOrder) :
    Reports (Repair.applyCollected company state generated fixes) fun next reported =>
      Event.passCount reported = 0 ∧
        next.files.files =
          (WorkOrder.operations generated ++ WorkOrder.operations fixes).foldl
            FileSet.applyOperation state.files.files ∧
        next.pass = state.pass ∧ next.previous = state.previous ∧
        next.errorsFixed = state.errorsFixed := by
  have hbooks : Yields (Repair.applyCollected company state generated fixes) fun next =>
      next.previous = state.previous ∧ next.errorsFixed = state.errorsFixed := by
    unfold Repair.applyCollected
    refine Yields.andThen fun written => Yields.andThen fun _ => Yields.andThen fun mended => ?_
    exact Yields.ret ⟨rfl, rfl⟩
  have hvalue := Yields.and (applyCollected_files state generated fixes) hbooks
  refine Reports.weaken (Reports.and (Reports.applyCollected state generated fixes) hvalue) ?_
  rintro next _ ⟨⟨rfl, hpass, _⟩, hfiles, hprevious, hfixed⟩
  refine ⟨?_, ?_, hpass, hprevious, hfixed⟩
  · rw [Event.passCount_append, Event.passCount_append, passCount_generatedEvents,
      passCount_of_writes (List.prefix_refl _), passCount_of_writes (List.prefix_refl _)]
  · rw [hfiles, List.foldl_append]

theorem Reports.turn (start : RepairState) :
    Reports (turn company config request start) (Booked config request start) := by
  unfold Repair.turn
  refine Reports.bind (Reports.emit _) ?_
  rintro _ _ rfl
  refine Reports.ite (fun _ => Reports.ret .last) fun _ => ?_
  refine Reports.bind (Reports.deadlinePassed _) ?_
  rintro late _ rfl
  refine Reports.ite (fun _ => Reports.ret .last) fun _ => ?_
  refine Reports.bind (Reports.collect _ _ _ _ _) ?_
  rintro ⟨generated, fixes⟩ _ rfl
  refine Reports.ite (fun _ => Reports.ret .last) fun _ => ?_
  refine Reports.bind (Reports.applyWritten _ generated fixes) ?_
  rintro next more ⟨hquiet, hfiles, hpass, hprevious, hfixed⟩
  refine Reports.ret ?_
  rw [List.append_nil]
  exact .onward _ hfiles hpass hprevious hfixed hquiet

/-!
# All passes
-/

def reportsFrom (company : Company ε) (config : Config) (request : AssemblyRequest) (left : Nat)
    (start : RepairState) (log : Log) : List Report :=
  (snapshotsFrom company config request left start log).map (reportOf config request)

theorem exists_reportsFrom (left : Nat) (start : RepairState) (log : Log) :
    exists rest, reportsFrom company config request left start log =
      reportOf config request start.files.files :: rest := by
  cases left with
  | zero =>
      exact ⟨[], rfl⟩
  | succ left =>
      exact ⟨_, rfl⟩

structure Books (start : RepairState) (left : Nat) (found : List Report) (told : List Event)
    (done : Repaired) : Prop where
  most : found.length ≤ left + 1
  last : found.getLast? = some done.report
  once : forall r, r ∈ found -> r.NamesOnce
  pass : done.state.pass = start.pass + found.length
  announced : told.filter Event.isPass =
    found.mapIdx fun i r => r.announcement (start.pass + i + 1)
  fixed : forall first, found.head? = some first ->
    done.state.errorsFixed = start.errorsFixed +
      fixedCount start.previous (first.errors.map Diagnostic.key) + Report.goneCount found

theorem fixedCount_errors {r s : Report} (h : r.NamesOnce) :
    fixedCount (some (r.errors.map Diagnostic.key)) (s.errors.map Diagnostic.key) =
      (r.errorsMissingFrom s).length := by
  rw [<- Report.length_errorsMissingFrom]
  show ((r.errors.map Diagnostic.key).eraseDups.filter _).length = _
  rw [eraseDups_of_nodup h]
  simp only [List.contains_eq_mem, decide_not]

theorem books_last (start : RepairState) (left : Nat) :
    Books start left [reportOf config request start.files.files]
      [(reportOf config request start.files.files).announcement (start.pass + 1)]
      { state := observe start (reportOf config request start.files.files)
        report := reportOf config request start.files.files } where
  most := Nat.le_add_left _ _
  last := rfl
  once := by
    intro r hr
    rw [List.mem_singleton.mp hr]
    exact Validator.nodup_keys_errors _ _
  pass := rfl
  announced := rfl
  fixed := by
    rintro first ⟨⟩
    rfl

theorem Books.onward {start next : RepairState} {left : Nat} {found : List Report}
    {more told : List Event} {done : Repaired} (hpass : next.pass = start.pass + 1)
    (hprevious : next.previous =
      some ((reportOf config request start.files.files).errors.map Diagnostic.key))
    (hfixed : next.errorsFixed = start.errorsFixed + fixedCount start.previous
      ((reportOf config request start.files.files).errors.map Diagnostic.key))
    (hquiet : Event.passCount more = 0) {second : Report} {rest : List Report}
    (hfound : found = second :: rest) (hbooks : Books next left found told done) :
    Books start (left + 1) (reportOf config request start.files.files :: found)
      ((reportOf config request start.files.files).announcement (start.pass + 1) :: more ++ told)
      done := by
  have honce : (reportOf config request start.files.files).NamesOnce :=
    Validator.nodup_keys_errors _ _
  have hmost := hbooks.most
  have hdone := hbooks.pass
  subst hfound
  refine ⟨?_, ?_, ?_, ?_, ?_, ?_⟩
  · rw [List.length_cons]
    omega
  · rw [List.getLast?_cons_cons]
    exact hbooks.last
  · intro r hr
    rcases List.mem_cons.mp hr with rfl | hr
    · exact honce
    · exact hbooks.once r hr
  · rw [hdone, hpass, @List.length_cons _ (reportOf config request start.files.files)]
    omega
  · rw [List.mapIdx_cons, List.cons_append, List.filter_cons_of_pos rfl, List.filter_append,
      Event.filter_isPass_of_passCount hquiet, List.nil_append, hbooks.announced, hpass]
    congr 2
    funext i r
    congr 1
    omega
  · rintro first ⟨⟩
    have hlater := hbooks.fixed second rfl
    rw [hprevious, fixedCount_errors honce, hfixed] at hlater
    rw [Report.goneCount_cons_cons, hlater, Nat.add_assoc]

theorem reports_passes_zero (start : RepairState) :
    Reports (passes company config request 0 start) fun done told =>
      done = finished (request.validator config start.files.files) start ∧
        told = [announced (request.validator config start.files.files) start] := by
  rw [passes_zero rfl]
  refine Reports.bind (Reports.emit _) ?_
  rintro _ _ rfl
  exact Reports.ret ⟨rfl, rfl⟩

theorem books_passes {left : Nat} {start : RepairState} {log later : Log} {done : Repaired}
    (hrun : passes company config request left start log = (later, .ok done)) :
    exists told, later.events = log.events ++ told ∧
      Books start left (reportsFrom company config request left start log) told done := by
  induction left generalizing start log with
  | zero =>
      have hends := @reports_passes_zero ε company config request start log.events log rfl
      rw [hrun] at hends
      obtain ⟨_, hlater, rfl, rfl⟩ := hends
      exact ⟨_, hlater, books_last start 0⟩
  | succ left ih =>
      rw [passes_eq_turn] at hrun
      have hturn := @Reports.turn ε company config request start log.events log rfl
      cases hfirst : turn company config request start log with
      | mk mid outcome =>
          rw [hfirst] at hturn
          cases outcome with
          | error e =>
              rw [bind_of_error hfirst] at hrun
              cases hrun
          | ok side =>
              rw [bind_of_ok hfirst] at hrun
              obtain ⟨told, hmid, hbooked⟩ := hturn
              cases hbooked with
              | last =>
                  cases hrun
                  rw [reportsFrom, snapshotsFrom, hfirst]
                  exact ⟨_, hmid, books_last start (left + 1)⟩
              | @onward t more ops _ hpass hprevious hfixed hquiet =>
                  obtain ⟨rest, hrest⟩ :=
                    @exists_reportsFrom ε company config request left t.next mid
                  obtain ⟨told, hlater, hbooks⟩ := ih hrun
                  rw [reportsFrom, snapshotsFrom_of_turn hfirst]
                  refine ⟨_, ?_, hbooks.onward hpass hprevious hfixed hquiet hrest⟩
                  rw [hlater, hmid, List.append_assoc]

/-!
# The account
-/

theorem errorCounts_announced (found : List Report) (number : Nat -> Nat) :
    (found.mapIdx fun i r => r.announcement (number i)).filterMap Event.errorCount? =
      found.map fun r => (r.errors.length : Int) := by
  induction found generalizing number with
  | nil =>
      rfl
  | cons r rest ih =>
      rw [List.mapIdx_cons, List.map_cons, <- ih fun i => number (i + 1)]
      rfl

/--
The account of passes that came to their end: what they found, one report after the other, and the
events that told it.
-/
structure Account (config : Config) (request : AssemblyRequest) (found : List Report)
    (told : List Event) (before later : Log) (done : Repaired) : Prop where
  least : 1 ≤ found.length
  most : found.length ≤ (request.optionsIn config).maxPasses
  passes : done.state.pass = found.length
  last : found.getLast? = some done.report
  events : later.events = before.events ++ told
  announced : told.filter Event.isPass = found.mapIdx fun i r => r.announcement (i + 1)
  fixCalls : callCount isFixCall later ≤
    callCount isFixCall before + ((request.optionsIn config).maxPasses - 1)
  generatorCalls : callCount (fun c => !isFixCall c) later ≤
    callCount (fun c => !isFixCall c) before + ((request.optionsIn config).maxPasses - 1)
  fixed : done.state.errorsFixed = Report.goneCount found
  balance : exists first last,
    (told.filterMap Event.errorCount?).head? = some first ∧
      (told.filterMap Event.errorCount?).getLast? = some last ∧
      last = first - done.state.errorsFixed + Report.newCount found

theorem Books.balance {s : FileSet} {left : Nat} {found : List Report} {told : List Event}
    {done : Repaired} (h : Books { files := s } left found told done) {first : Report}
    {rest : List Report} (hfound : found = first :: rest) :
    done.state.errorsFixed = Report.goneCount found ∧
      exists most last,
        (told.filterMap Event.errorCount?).head? = some most ∧
          (told.filterMap Event.errorCount?).getLast? = some last ∧
          last = most - done.state.errorsFixed + Report.newCount found := by
  have hfixed : done.state.errorsFixed = Report.goneCount found := by
    have hcount := h.fixed first (by rw [hfound]; rfl)
    rw [hcount]
    exact Nat.zero_add _
  have hcounts : told.filterMap Event.errorCount? =
      found.map fun r => (r.errors.length : Int) := by
    rw [Event.filterMap_errorCount?, h.announced]
    exact errorCounts_announced found _
  subst hfound
  have hbalance := Report.getLast_balance rest first h.once
  refine ⟨hfixed, first.errors.length,
    ((first :: rest).getLast (List.cons_ne_nil _ _)).errors.length, ?_, ?_, ?_⟩
  · rw [hcounts]
    rfl
  · rw [hcounts, List.getLast?_map, List.getLast?_eq_some_getLast (List.cons_ne_nil _ _)]
    rfl
  · rw [hfixed]
    omega

/--
However long the collaborators go on writing, the passes end: they come to their end with an account
of all errors that went and came, unless somebody failed or wrote what is not acceptable.
-/
theorem passes_account {s : FileSet}
    (hmax : 1 ≤ (request.optionsIn config).maxPasses) (before : Log) :
    let left := (request.optionsIn config).maxPasses - 1
    let start : RepairState := { files := s }
    Contract (fun log => log = before) (allPasses company config request s)
      (fun done later => exists told,
        Account config request (reportsFrom company config request left start before) told before
          later done)
      (Spoiled company config request (snapshotsFrom company config request left start before)
        s.strict) := by
  intro left start
  show Contract _ (passes company config request left start) _ _
  rintro log rfl
  cases hrun : passes company config request left start log with
  | mk later outcome =>
      cases outcome with
      | error e =>
          exact spoiled_of_passes hrun
      | ok done =>
          have hcalls : forall kind, OfOne kind ->
              callCount kind later ≤ callCount kind log + left := by
            intro kind hone
            have hasked := @Asks.passes ε company config request kind hone left start log
            rwa [hrun] at hasked
          obtain ⟨told, hlater, hbooks⟩ := books_passes hrun
          obtain ⟨rest, hfound⟩ := @exists_reportsFrom ε company config request left start log
          obtain ⟨hfixed, hbalance⟩ := hbooks.balance hfound
          have hmost : (reportsFrom company config request left start log).length ≤
              (request.optionsIn config).maxPasses := by
            have hbound := hbooks.most
            omega
          have hleast : 1 ≤ (reportsFrom company config request left start log).length := by
            rw [hfound]
            exact Nat.le_add_left _ _
          have hannounced := hbooks.announced
          simp only [start, Nat.zero_add] at hannounced
          exact
            ⟨told,
              { least := hleast
                most := hmost
                passes := hbooks.pass.trans (Nat.zero_add _)
                last := hbooks.last
                events := hlater
                announced := hannounced
                fixCalls := hcalls isFixCall ofOne_isFixCall
                generatorCalls := hcalls _ ofOne_not_isFixCall
                fixed := hfixed
                balance := hbalance }⟩

/-- The files that are written when the repair is asked for the n-th time. -/
def rewriting (asked : Nat) : WorkOrder :=
  let names := if asked = 0 then "x, z, w" else "z, w"
  let exported := if asked = 0 then "x" else "z"
  { id := "rewriting"
    files :=
      [{ path := "a.ts", action := .modify,
         content := some ("import \x7b " ++ names ++ " \x7d from './t'\nimport './lost'\n") },
        { path := "t.ts", action := .modify,
          content := some ("export const " ++ exported ++ " = 1\n") }] }

/-- Both collaborators write for ever, and what they write mends some errors and makes others. -/
def restlessCompany : Company Unit :=
  { onEvent := fun _ => none
    fixes := some fun asked _ => .ok [rewriting asked]
    generate := some fun _ _ _ => .ok
      [{ id := "extra", files := [{ path := "b.ts", action := .create, content := some "" }] }] }

def restlessFiles : FileSet :=
  { files :=
      { entries :=
          [("a.ts", "import \x7b x \x7d from './t'\nimport './lost'\n"),
            ("t.ts", "export const y = 1\n")] } }

/-- Three passes find one, two and one errors: two are gone in all, and two are new. -/
theorem passes_account_restless :
    let request : AssemblyRequest := { projectId := "restless" }
    let left := (request.optionsIn {}).maxPasses - 1
    let start : RepairState := { files := restlessFiles }
    1 ≤ (request.optionsIn {}).maxPasses ∧
      (allPasses restlessCompany {} request restlessFiles {}).2.toOption.map
          (fun done => (done.state.pass, done.state.errorsFixed, done.report.errors.length)) =
        some (3, 2, 1) ∧
      Contract (fun log => log = {}) (allPasses restlessCompany {} request restlessFiles)
        (fun done later => exists told,
          Account {} request (reportsFrom restlessCompany {} request left start {}) told {} later
            done)
        (Spoiled restlessCompany {} request
          (snapshotsFrom restlessCompany {} request left start {}) restlessFiles.strict) := by
  intro request left start
  have hmax : 1 ≤ (request.optionsIn {}).maxPasses := by decide
  exact ⟨hmax, by decide +kernel, passes_account hmax {}⟩

end Repair
end Joinery
