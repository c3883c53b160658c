import Joinery.Proofs.Assembly.Chronicle
import Joinery.Proofs.Assembly.Overwriting

/-!
# Generated files

## What is announced and what is counted

The work orders of a missing-file generator are told twice: every operation that writes a file is
announced by an event, and the account of the result counts those that create one.  Over a whole
assembly both are functions of the work orders that the generator has given, call by call.  They
agree unless the generator modifies a file.
-/

namespace Joinery

def Event.isGenerated : Event -> Bool
  | .missingFileGenerated _ => true
  | _ => false

def WorkOrder.countOf (action : FileAction) (orders : List WorkOrder) : Nat :=
  (WorkOrder.operations orders).countP fun op => op.action = action

@[simp] theorem WorkOrder.countOf_append (action : FileAction) (orders more : List WorkOrder) :
    countOf action (orders ++ more) = countOf action orders + countOf action more := by
  unfold countOf operations
  rw [List.flatMap_append, List.countP_append]

theorem WorkOrder.countOf_cons (action : FileAction) (order : WorkOrder)
    (rest : List WorkOrder) :
    countOf action (order :: rest) =
      (order.files.countP fun op => op.action = action) + countOf action rest := by
  unfold countOf operations
  rw [List.flatMap_cons, List.countP_append]

theorem WorkOrder.countOf_eq_zero_iff {action : FileAction} {orders : List WorkOrder} :
    countOf action orders = 0 <->
      forall op, op ∈ WorkOrder.operations orders -> op.action ≠ action := by
  unfold countOf
  rw [List.countP_eq_zero]
  simp only [decide_eq_true_eq]

namespace Company

variable {ε : Type} {company : Company ε}

/-!
# What the generator has given
-/

def answer (company : Company ε) (asked : Nat) (missing : List MissingFile)
    (files : Table String) : List WorkOrder :=
  match company.generate with
  | none => []
  | some generate => (generate asked missing files).toOption.getD []

def answersFrom (company : Company ε) : Nat -> List Call -> List WorkOrder
  | _, [] => []
  | asked, .fixes _ :: rest => company.answersFrom asked rest
  | asked, .missing missing files :: rest =>
      company.answer asked missing files ++ company.answersFrom (asked + 1) rest

def given (company : Company ε) (log : Log) : List WorkOrder :=
  company.answersFrom 0 log.calls

@[simp] theorem answersFrom_append (asked : Nat) (calls more : List Call) :
    company.answersFrom asked (calls ++ more) = company.answersFrom asked calls ++
      company.answersFrom (asked + (calls.filter fun c => !Run.isFixCall c).length) more := by
  induction calls generalizing asked with
  | nil =>
      rfl
  | cons call rest ih =>
      cases call with
      | fixes request =>
          exact ih asked
      | missing missing files =>
          have hcount : asked + ((Call.missing missing files :: rest).filter
              fun c => !Run.isFixCall c).length =
                asked + 1 + (rest.filter fun c => !Run.isFixCall c).length := by
            rw [List.filter_cons_of_pos rfl, List.length_cons]
            omega
          rw [List.cons_append, answersFrom, answersFrom, ih, List.append_assoc, hcount]

end Company

namespace Run

variable {ε α β : Type} {company : Company ε} {told : List Event} {given : List WorkOrder}

/-- So far these files have been announced, and the generator has given these work orders. -/
structure Stands (company : Company ε) (told : List Event) (given : List WorkOrder) (log : Log) :
    Prop where
  told : log.events.filter Event.isGenerated = told
  given : company.given log = given

/-!
# Parts that have nothing to do with the generator
-/

/-- The run neither announces a generated file nor asks for one, and its value has the property. -/
def Unconcerned (company : Company ε) (m : Run ε α) (property : α -> Prop) : Prop :=
  forall told given, Contract (Stands company told given) m
    (fun a log => property a ∧ Stands company told given log) (fun _ => True)

theorem Contract.of_and {fact : Prop} {pre : Log -> Prop} {m : Run ε α}
    {post : α -> Log -> Prop} {failed : Log -> Prop}
    (h : fact -> Contract pre m post failed) :
    Contract (fun log => fact ∧ pre log) m post failed :=
  fun log hlog => h hlog.1 log hlog.2

theorem Unconcerned.before {m : Run ε α} {next : α -> Run ε β} {first : α -> Prop}
    {post : β -> Log -> Prop} (hm : Unconcerned company m first)
    (hnext : forall a, first a ->
      Contract (Stands company told given) (next a) post (fun _ => True)) :
    Contract (Stands company told given) (m >>= next) post (fun _ => True) := by
  apply Contract.bind (hm told given)
  intro a
  exact Contract.of_and (hnext a)

theorem Unconcerned.ret {a : α} {property : α -> Prop} (h : property a) :
    Unconcerned company (pure a : Run ε α) property := by
  intro told given
  apply Contract.ret
  intro log hlog
  exact ⟨h, hlog⟩

theorem Unconcerned.bind {m : Run ε α} {next : α -> Run ε β} {first : α -> Prop}
    {property : β -> Prop} (hm : Unconcerned company m first)
    (hnext : forall a, first a -> Unconcerned company (next a) property) :
    Unconcerned company (m >>= next) property :=
  fun told given => hm.before fun a ha => hnext a ha told given

theorem Unconcerned.andThen {m : Run ε α} {next : α -> Run ε β} {property : β -> Prop}
    (hm : Unconcerned company m fun _ => True)
    (hnext : forall a, Unconcerned company (next a) property) :
    Unconcerned company (m >>= next) property :=
  hm.bind fun a _ => hnext a

theorem Unconcerned.weaken {m : Run ε α} {first property : α -> Prop}
    (h : Unconcerned company m first) (himp : forall a, first a -> property a) :
    Unconcerned company m property := by
  intro told given
  apply Contract.weaken (h told given) (fun _ hlog => hlog) _ (fun _ hlog => hlog)
  intro a log hlog
  exact ⟨himp a hlog.1, hlog.2⟩

theorem Unconcerned.ite {b : Bool} {m n : Run ε α} {property : α -> Prop}
    (hm : b = true -> Unconcerned company m property)
    (hn : b = false -> Unconcerned company n property) :
    Unconcerned company (if b then m else n) property :=
  fun told given => Contract.ite (fun hb => hm hb told given) fun hb => hn hb told given

theorem Unconcerned.step {m : Run ε α}
    (h : forall log, (m log).1.events.filter Event.isGenerated =
        log.events.filter Event.isGenerated ∧ company.given (m log).1 = company.given log) :
    Unconcerned company m fun _ => True := by
  intro told given log hlog
  obtain ⟨htold, hgiven⟩ := h log
  cases hrun : m log with
  | mk later outcome =>
      rw [hrun] at htold hgiven
      cases outcome with
      | ok a =>
          exact ⟨trivial, htold.trans hlog.told, hgiven.trans hlog.given⟩
      | error e =>
          trivial

theorem emit_log (company : Company ε) (event : Event) (log : Log) :
    (emit company event log).1 = { log with events := log.events ++ [event] } := by
  unfold emit
  dsimp only
  split <;> rfl

theorem Unconcerned.emit {event : Event} (h : event.isGenerated = false) :
    Unconcerned company (Run.emit company event) fun _ => True := by
  apply Unconcerned.step
  intro log
  rw [emit_log]
  constructor
  · rw [List.filter_append, List.filter_cons_of_neg (by rw [h]; exact Bool.false_ne_true)]
    exact List.append_nil _
  · rfl

theorem Unconcerned.emitAll {events : List Event}
    (h : forall e, e ∈ events -> e.isGenerated = false) :
    Unconcerned company (Run.emitAll company events) fun _ => True := by
  induction events with
  | nil =>
      exact Unconcerned.ret trivial
  | cons event rest ih =>
      apply Unconcerned.andThen (Unconcerned.emit (h event (List.mem_cons_self ..)))
      intro _
      exact ih fun e he => h e (List.mem_cons_of_mem event he)

theorem Unconcerned.deadlinePassed (deadline : Option (Nat -> Bool)) :
    Unconcerned company (Run.deadlinePassed deadline : Run ε Bool) fun _ => True := by
  apply Unconcerned.step
  intro log
  cases deadline <;> exact ⟨rfl, rfl⟩

theorem Unconcerned.askFixes (provider : Nat -> FixRequest -> Except ε (List WorkOrder))
    (request : FixRequest) :
    Unconcerned company (Run.askFixes provider request) fun _ => True := by
  apply Unconcerned.step
  intro log
  have hlog : (Run.askFixes provider request log).1 =
      { log with calls := log.calls ++ [.fixes request] } := by
    unfold Run.askFixes answered
    split <;> rfl
  rw [hlog]
  constructor
  · rfl
  · exact (Company.answersFrom_append ..).trans (List.append_nil _)

theorem Unconcerned.applyOrders (orders : List WorkOrder) (s : FileSet) (count : Nat) :
    Unconcerned company (Run.applyOrders company s count orders) fun done =>
      done.1.counts = s.counts.add (FileSet.countOf (WorkOrder.operations orders)) := by
  induction orders generalizing s count with
  | nil =>
      exact Unconcerned.ret rfl
  | cons order rest ih =>
      unfold Run.applyOrders
      cases happly : s.apply order with
      | error e =>
          exact fun _ _ => Contract.fail fun _ _ => trivial
      | ok applied =>
          obtain ⟨next, counts⟩ := applied
          have hvalid : order.IsValid s.strict := (FileSet.apply_files happly).1
          rw [FileSet.apply_eq hvalid] at happly
          cases happly
          have hprocessed : forall e, e ∈ order.files.map processed -> e.isGenerated = false := by
            intro e he
            obtain ⟨op, _, rfl⟩ := List.mem_map.mp he
            rfl
          apply Unconcerned.andThen (Unconcerned.emitAll hprocessed)
          intro _
          apply Unconcerned.weaken (ih _ _)
          intro done hdone
          rw [hdone, FileSet.add_assoc, <- FileSet.countOf_append]
          rfl

end Run

namespace Repair

open Run

variable {ε : Type} {company : Company ε} {config : Config} {request : AssemblyRequest}
  {told : List Event} {given : List WorkOrder}

/-!
# What a pass announces and counts
-/

def Tallied (company : Company ε) (count : Nat) (log : Log) : Prop :=
  exists given, count = WorkOrder.countOf .create given ∧
    Stands company (generatedEvents given) given log

theorem of_tallied {α : Type} {count : Nat} {m : Run ε α} {post : α -> Log -> Prop}
    {failed : Log -> Prop}
    (h : forall given, count = WorkOrder.countOf .create given ->
      Contract (Stands company (generatedEvents given) given) m post failed) :
    Contract (Tallied company count) m post failed := by
  intro log hlog
  obtain ⟨given, hcount, hstands⟩ := hlog
  exact h given hcount log hstands

theorem answers_askMissing
    {generate : Nat -> List MissingFile -> Table String -> Except ε (List WorkOrder)}
    (hgenerate : company.generate = some generate) (missing : List MissingFile)
    (files : Table String) :
    Contract (Stands company told given) (Run.askMissing generate missing files)
      (fun generated => Stands company told (given ++ generated)) (fun _ => True) := by
  intro log hlog
  unfold Run.askMissing answered
  cases hanswer : generate (callCount (fun c => !isFixCall c) log) missing files with
  | error e =>
      trivial
  | ok generated =>
      constructor
      · exact hlog.told
      · have hthis : company.answer (callCount (fun c => !isFixCall c) log) missing files =
            generated := by
          unfold Company.answer
          rw [hgenerate]
          show (generate _ missing files).toOption.getD [] = generated
          rw [hanswer]
          rfl
        have hanswers := @Company.answersFrom_append ε company 0 log.calls [.missing missing files]
        rw [Nat.zero_add] at hanswers
        show company.answersFrom 0 (log.calls ++ [.missing missing files]) = given ++ generated
        rw [hanswers, <- hlog.given, <- hthis]
        exact congrArg (company.given log ++ ·) (List.append_nil _)

theorem answers_generatedFor (options : Options) (files : Table String)
    (missing : List MissingFile) :
    Contract (Stands company told given) (generatedFor company options files missing)
      (fun generated => Stands company told (given ++ generated)) (fun _ => True) := by
  rcases generatedFor_cases company options files missing with heq | ⟨generate, hgenerate, heq⟩
  · rw [heq]
    apply Contract.ret
    intro log hlog
    rw [List.append_nil]
    exact hlog
  · rw [heq]
    exact answers_askMissing hgenerate missing files

theorem Unconcerned.repairsFor (options : Options) (report : Report) (wanted : FixRequest) :
    Unconcerned company (Repair.repairsFor company options report wanted) fun _ => True := by
  apply Unconcerned.ite
  · intro _
    exact Unconcerned.ret trivial
  · intro _
    unfold fixesFor
    cases company.fixes with
    | none =>
        exact Unconcerned.ret trivial
    | some provider =>
        exact Unconcerned.askFixes provider wanted

theorem answers_collect (options : Options) (pass : Nat) (files : Table String)
    (report : Report) (missing : List MissingFile) :
    Contract (Stands company told given)
      (collect company options pass files report missing)
      (fun written => Stands company told (given ++ written.1)) (fun _ => True) := by
  rw [collect_eq]
  apply Contract.bind (answers_generatedFor options files missing)
  intro generated
  apply (Unconcerned.repairsFor options report _).before
  intro fixes _
  exact Contract.ret fun _ hlog => hlog

theorem announces_emitAll (orders : List WorkOrder) :
    Contract (Stands company told given) (Run.emitAll company (generatedEvents orders))
      (fun _ => Stands company (told ++ generatedEvents orders) given) (fun _ => True) := by
  have hall : forall e, e ∈ generatedEvents orders -> e.isGenerated = true := by
    intro e he
    obtain ⟨order, _, hmem⟩ := List.mem_flatMap.mp he
    obtain ⟨op, _, rfl⟩ := List.mem_map.mp hmem
    rfl
  generalize generatedEvents orders = events at hall
  induction events generalizing told with
  | nil =>
      apply Contract.ret
      intro log hlog
      rw [List.append_nil]
      exact hlog
  | cons event rest ih =>
      have hfirst : Contract (Stands company told given) (Run.emit company event)
          (fun _ => Stands company (told ++ [event]) given) (fun _ => True) := by
        intro log hlog
        have hlater : Stands company (told ++ [event]) given (Run.emit company event log).1 := by
          rw [emit_log]
          constructor
          · rw [List.filter_append, hlog.told,
              List.filter_cons_of_pos (hall event (List.mem_cons_self ..)), List.filter_nil]
          · exact hlog.given
        cases hrun : Run.emit company event log with
        | mk later outcome =>
            rw [hrun] at hlater
            cases outcome with
            | ok _ =>
                exact hlater
            | error e =>
                trivial
      apply Contract.bind hfirst
      intro _
      have hrest := @ih (told ++ [event]) fun e he => hall e (List.mem_cons_of_mem event he)
      rw [List.append_assoc, List.singleton_append] at hrest
      exact hrest

theorem announces_applyCollected (state : RepairState) (generated fixes : List WorkOrder) :
    Contract (Stands company told given) (applyCollected company state generated fixes)
      (fun next log =>
        next.generated = state.generated + WorkOrder.countOf .create generated ∧
          Stands company (told ++ generatedEvents generated) given log)
      (fun _ => True) := by
  unfold applyCollected
  apply (Unconcerned.applyOrders generated state.files 0).before
  intro written hwritten
  apply Contract.bind (announces_emitAll generated)
  intro _
  apply (Unconcerned.applyOrders fixes written.1 0).before
  intro mended _
  apply Contract.ret
  intro log hlog
  constructor
  · show state.generated + (written.1.counts.created - state.files.counts.created) = _
    rw [hwritten, FileSet.countOf_eq]
    show _ + (state.files.counts.created + WorkOrder.countOf .create generated - _) = _
    rw [Nat.add_sub_cancel_left]
  · exact hlog

@[simp] theorem generatedEvents_append (orders more : List WorkOrder) :
    generatedEvents (orders ++ more) = generatedEvents orders ++ generatedEvents more :=
  List.flatMap_append

theorem tallied_turn (start : RepairState) :
    Contract (Tallied company start.generated) (turn company config request start)
      (fun outcome => outcome.elim (fun done => Tallied company done.state.generated)
        fun t => Tallied company t.next.generated)
      (fun _ => True) := by
  apply of_tallied
  intro given hcount
  have hlast : forall (report : Report),
      Contract (Stands company (generatedEvents given) given)
        (pure (.inl { state := observe start report, report := report }) :
          Run ε (Repaired ⊕ Turn))
        (fun outcome => outcome.elim (fun done => Tallied company done.state.generated)
          fun t => Tallied company t.next.generated)
        (fun _ => True) := by
    intro report
    apply Contract.ret
    intro log hlog
    exact ⟨given, hcount, hlog⟩
  unfold turn
  apply (Unconcerned.emit rfl).before
  intro _ _
  apply Contract.ite (fun _ => hlast _)
  intro _
  apply (Unconcerned.deadlinePassed _).before
  intro late _
  apply Contract.ite (fun _ => hlast _)
  intro _
  apply Contract.bind (answers_collect _ _ _ _ _)
  intro written
  apply Contract.ite
  · -- nothing was written, so that what is given is what was given before
    intro hnothing
    rw [Bool.and_eq_true, List.isEmpty_iff] at hnothing
    rw [hnothing.1, List.append_nil]
    exact hlast _
  · intro _
    apply Contract.bind (announces_applyCollected _ _ _)
    intro next
    apply Contract.ret
    intro log hlog
    refine ⟨given ++ written.1, ?_, ?_⟩
    · rw [WorkOrder.countOf_append, <- hcount]
      exact hlog.1
    · rw [generatedEvents_append]
      exact hlog.2

theorem tallied_passes (left : Nat) (start : RepairState) :
    Contract (Tallied company start.generated) (passes company config request left start)
      (fun done => Tallied company done.state.generated) (fun _ => True) := by
  induction left generalizing start with
  | zero =>
      rw [passes_zero rfl]
      apply of_tallied
      intro given hcount
      apply (Unconcerned.emit rfl).before
      intro _ _
      apply Contract.ret
      intro log hlog
      exact ⟨given, hcount, hlog⟩
  | succ left ih =>
      rw [passes_eq_turn]
      apply Contract.bind (tallied_turn start)
      intro outcome
      cases outcome with
      | inl done =>
          exact Contract.ret fun _ hlog => hlog
      | inr t =>
          exact ih t.next

end Repair

namespace Assembly

open Run Repair

variable {ε : Type} {company : Company ε} {config : Config} {request : AssemblyRequest}

/-!
# What an assembly announces and counts
-/

/-- Before the validation nothing is asked of the generator, and nothing counts as generated. -/
abbrev Idle (company : Company ε) (m : Run ε Progress) (p : Progress) : Prop :=
  Unconcerned company m fun next => next.generated = p.generated

theorem idle_unlessLate {label : String} {p : Progress} {phase : Run ε Progress}
    (h : Idle company phase p) : Idle company (unlessLate company request label p phase) p := by
  unfold unlessLate
  apply Unconcerned.andThen (Unconcerned.deadlinePassed _)
  intro late
  apply Unconcerned.ite
  · intro _
    apply Unconcerned.andThen (Unconcerned.emit rfl)
    intro _
    exact Unconcerned.ret rfl
  · intro _
    exact h

theorem idle_applyPhase (group : PhaseGroup) (p : Progress) :
    Idle company (applyPhase company config request group p) p := by
  apply idle_unlessLate
  apply Unconcerned.andThen (Unconcerned.emit rfl)
  intro _
  apply Unconcerned.bind (Unconcerned.applyOrders _ _ _)
  intro done _
  apply Unconcerned.andThen (Unconcerned.emit rfl)
  intro _
  exact Unconcerned.ret rfl

theorem idle_applyPhases (groups : List PhaseGroup) (p : Progress) :
    Idle company (applyPhases company config request groups p) p := by
  induction groups generalizing p with
  | nil =>
      exact Unconcerned.ret rfl
  | cons group rest ih =>
      apply Unconcerned.bind (idle_applyPhase group p)
      intro next hnext
      apply Unconcerned.weaken (ih next)
      intro last hlast
      exact hlast.trans hnext

theorem idle_dropPlurals (options : Options) (p : Progress) :
    Idle company (dropPlurals company config options p) p := by
  apply Unconcerned.ite
  · intro _
    have hremoved : forall (paths : List String) (e : Event),
        e ∈ paths.map (fun path => Event.fileProcessed path (.applied .delete)) ->
          e.isGenerated = false := by
      intro paths e he
      obtain ⟨path, _, rfl⟩ := List.mem_map.mp he
      rfl
    apply Unconcerned.andThen (Unconcerned.emitAll (hremoved _))
    intro _
    exact Unconcerned.ret rfl
  · intro _
    exact Unconcerned.ret rfl

theorem idle_dependencyPhase (options : Options) (p : Progress) :
    Idle company (dependencyPhase company config request options p) p := by
  apply Unconcerned.ite
  · intro _
    apply idle_unlessLate
    apply Unconcerned.andThen (Unconcerned.emit rfl)
    intro _
    apply Unconcerned.andThen (Unconcerned.emit rfl)
    intro _
    apply Unconcerned.andThen (Unconcerned.emit rfl)
    intro _
    exact Unconcerned.ret rfl
  · intro _
    exact Unconcerned.ret rfl

theorem tallied_validationPhase (options : Options) {p : Progress} (hp : p.generated = 0) :
    Contract (Stands company [] []) (validationPhase company config request options p)
      (fun next => Tallied company next.generated) (fun _ => True) := by
  have hnothing : forall {next : Progress} {log : Log}, next.generated = p.generated ->
      Stands company [] [] log -> Tallied company next.generated log := by
    intro next log hnext hlog
    exact ⟨[], hnext.trans hp, hlog⟩
  apply Contract.ite
  · intro _
    apply (Unconcerned.deadlinePassed _).before
    intro late _
    apply Contract.ite
    · intro _
      apply (Unconcerned.emit rfl).before
      intro _ _
      exact Contract.ret fun _ hlog => hnothing rfl hlog
    · intro _
      apply (Unconcerned.emit rfl).before
      intro _ _
      have hstart : forall log, Stands company [] [] log -> Tallied company 0 log :=
        fun log hlog => ⟨[], rfl, hlog⟩
      apply Contract.bind (Contract.weaken (tallied_passes _ _) hstart
        (fun _ _ hlog => hlog) fun _ hlog => hlog)
      intro mended
      apply of_tallied
      intro given hcount
      apply (Unconcerned.emit rfl).before
      intro _ _
      exact Contract.ret fun _ hlog => ⟨given, hcount, hlog⟩
  · intro _
    exact Contract.ret fun _ hlog => hnothing rfl hlog

theorem tallied_run :
    Contract (Stands company [] []) (run company config request)
      (fun result log => exists count : Nat,
        result.stats.missingFilesGenerated = count ∧ Tallied company count log)
      (fun _ => True) := by
  unfold run
  dsimp only
  split
  · exact Contract.fail fun _ _ => trivial
  · apply (idle_applyPhases _ _).before
    intro applied happlied
    apply (idle_dropPlurals _ _).before
    intro single hsingle
    apply (idle_dependencyPhase _ _).before
    intro listed hlisted
    apply Contract.bind (tallied_validationPhase _ (hlisted.trans (hsingle.trans happlied)))
    intro validated
    apply Contract.ret
    intro log hlog
    exact ⟨validated.generated, rfl, hlog⟩

theorem length_generatedEvents (orders : List WorkOrder) :
    (generatedEvents orders).length =
      WorkOrder.countOf .create orders + WorkOrder.countOf .modify orders := by
  have hops : forall ops : List FileOperation,
      (ops.filter fun op => op.action ≠ .delete).length =
        (ops.countP fun op => op.action = .create) + ops.countP fun op => op.action = .modify := by
    intro ops
    induction ops with
    | nil =>
        rfl
    | cons op rest ih =>
        rw [List.countP_cons, List.countP_cons, <- List.countP_eq_length_filter,
          List.countP_cons, List.countP_eq_length_filter, ih]
        cases op.action <;> simp <;> omega
  induction orders with
  | nil =>
      rfl
  | cons order rest ih =>
      rw [generatedEvents, List.flatMap_cons, List.length_append, List.length_map, hops,
        WorkOrder.countOf_cons, WorkOrder.countOf_cons]
      change _ + (generatedEvents rest).length = _
      omega

/--
In every assembly that returns, the events announce what the generator has given, all operations but
deletions, and the result counts those that create a file.  So the two differ by the files that the
generator has modified.
-/
theorem assemble_counts_generated {locks : Locks} {result : AssemblyResult}
    (h : (assemble company config locks request).result = .ok result) :
    let log := (assemble company config locks request).log
    let given := company.given log
    log.events.filter Event.isGenerated = generatedEvents given ∧
      result.stats.missingFilesGenerated = WorkOrder.countOf .create given ∧
      (log.events.countP Event.isGenerated : Int) =
        result.stats.missingFilesGenerated + WorkOrder.countOf .modify given ∧
      (result.stats.missingFilesGenerated = log.events.countP Event.isGenerated <->
        forall op, op ∈ WorkOrder.operations given -> op.action ≠ .modify) := by
  intro log given
  have hrun := @tallied_run ε company config request {} ⟨rfl, rfl⟩
  rw [log_of_assemble h] at hrun
  obtain ⟨count, hstat, others, rfl, hstands⟩ := hrun
  obtain rfl : given = others := hstands.given
  have hevents : log.events.countP Event.isGenerated =
      WorkOrder.countOf .create given + WorkOrder.countOf .modify given := by
    rw [List.countP_eq_length_filter, hstands.told, length_generatedEvents]
  rw [hstat, hevents, <- WorkOrder.countOf_eq_zero_iff]
  refine ⟨hstands.told, rfl, by omega, by omega⟩

/-- The generator creates a file in its first work order and writes over it in its second one. -/
def rewritingGenerator : Company Unit :=
  { onEvent := fun _ => none
    fixes := none
    generate := some fun asked _ _ => .ok
      [{ id := "generated"
         files :=
          [{ path := "src/b.ts", action := if asked = 0 then .create else .modify,
             content := some "" },
            { path := "src/old.ts", action := .delete }] }] }

/-- An import that leads nowhere whatever is written. -/
def danglingRequest : AssemblyRequest :=
  { projectId := "dangling"
    existing := [("src/a.ts", some "import './lost'\n")] }

theorem assemble_counts_generated_rewriting :
    exists result,
      (assemble rewritingGenerator {} {} danglingRequest).result = .ok result ∧
      let log := (assemble rewritingGenerator {} {} danglingRequest).log
      log.events.filter Event.isGenerated =
          [.missingFileGenerated "src/b.ts", .missingFileGenerated "src/b.ts"] ∧
        result.stats.missingFilesGenerated = 1 ∧
        (result.stats.missingFilesGenerated = log.events.countP Event.isGenerated <->
          forall op, op ∈ WorkOrder.operations (rewritingGenerator.given log) ->
            op.action ≠ .modify) := by
  have hends : (assemble rewritingGenerator {} {} danglingRequest).result.isOk = true := by
    decide +kernel
  obtain ⟨result, hresult⟩ := exists_of_isOk hends
  obtain ⟨_, hcount, _, hagree⟩ := assemble_counts_generated hresult
  have hgiven : WorkOrder.countOf .create
      (rewritingGenerator.given (assemble rewritingGenerator {} {} danglingRequest).log) = 1 := by
    decide +kernel
  exact ⟨result, hresult, by decide +kernel, hcount.trans (congrArg Int.ofNat hgiven), hagree⟩

/-- A file that the generator modifies is announced and not counted. -/
theorem modified_file_not_counted :
    let modifying : Company Unit :=
      { onEvent := fun _ => none
        fixes := none
        generate := some fun _ _ _ => .ok
          [{ id := "generated"
             files :=
              [{ path := "src/db.ts", action := .modify,
                 content := some "export const db = 1\n" }] }] }
    let request : AssemblyRequest :=
      { projectId := "modifying"
        existing := [("src/a.ts", some "import \x7b db \x7d from './db'\n")] }
    let outcome := assemble modifying {} {} request
    outcome.result.toOption.map (·.stats.missingFilesGenerated) = some 0 ∧
      outcome.log.events.filter Event.isGenerated = [.missingFileGenerated "src/db.ts"] := by
  decide +kernel

end Assembly
end Joinery
