import Joinery.Assembly.Assemble
import Joinery.Proofs.Assembly.Contract
import Mathlib.Data.List.Forall2

/-!
# Assemblies one after the other

## Locks that come back

Every assembly gives the locks back as it found them, whether it returns, refuses its work
orders, or ends with a failure of its listener or of a collaborator.  Nothing else is handed on
from one assembly to the next one, so that in a sequence of assemblies each ends as it
would have ended alone.
-/

namespace Joinery

/-- Somebody failed on the last thing that a run told or asked. -/
inductive Company.Blamed {ε : Type} (company : Company ε) (log : Log) (e : ε) : Prop where
  | listener :
      company.onEvent log.events = some e -> Company.Blamed company log e
  | fixes {provider : Nat -> FixRequest -> Except ε (List WorkOrder)} {before : List Call}
      {request : FixRequest} :
      company.fixes = some provider -> log.calls = before ++ [.fixes request] ->
      provider (before.filter Run.isFixCall).length request = .error e ->
      Company.Blamed company log e
  | generator {provider : Nat -> List MissingFile -> Table String -> Except ε (List WorkOrder)}
      {before : List Call} {missing : List MissingFile} {files : Table String} :
      company.generate = some provider -> log.calls = before ++ [.missing missing files] ->
      provider (before.filter fun c => !Run.isFixCall c).length missing files = .error e ->
      Company.Blamed company log e

namespace Run

variable {ε α β : Type} {company : Company ε}

/-- Whatever is raised was raised by the listener or by a collaborator. -/
def Accountable (company : Company ε) (m : Run ε α) : Prop :=
  forall log later e, m log = (later, .error (.raised e)) -> company.Blamed later e

/-!
# Where failures come from
-/

theorem Accountable.ret (a : α) : Accountable company (pure a : Run ε α) := by
  intro log later e h
  cases h

theorem Accountable.refuse (error : InputError) :
    Accountable company (Run.fail (.input error) : Run ε α) := by
  intro log later e h
  cases h

theorem Accountable.bind {m : Run ε α} {next : α -> Run ε β} (hm : Accountable company m)
    (hnext : forall a, Accountable company (next a)) : Accountable company (m >>= next) := by
  intro log later e h
  cases hrun : m log with
  | mk mid outcome =>
      cases outcome with
      | ok a =>
          rw [bind_of_ok hrun] at h
          exact hnext a mid later e h
      | error failure =>
          rw [bind_of_error hrun] at h
          cases h
          exact hm log _ e hrun

theorem Accountable.ite {b : Bool} {m n : Run ε α} (hm : Accountable company m)
    (hn : Accountable company n) : Accountable company (if b then m else n) := by
  cases b with
  | true =>
      exact hm
  | false =>
      exact hn

theorem Accountable.emit (event : Event) : Accountable company (Run.emit company event) := by
  intro log later e h
  unfold Run.emit at h
  dsimp only at h
  cases hlistener : company.onEvent (log.events ++ [event]) with
  | none =>
      rw [hlistener] at h
      cases h
  | some failure =>
      rw [hlistener] at h
      cases h
      exact .listener hlistener

theorem Accountable.emitAll (events : List Event) :
    Accountable company (Run.emitAll company events) := by
  induction events with
  | nil =>
      exact Accountable.ret ()
  | cons event rest ih =>
      exact Accountable.bind (Accountable.emit event) fun _ => ih

theorem Accountable.deadlinePassed (deadline : Option (Nat -> Bool)) :
    Accountable company (Run.deadlinePassed deadline) := by
  intro log later e h
  cases deadline <;> cases h

theorem answered_eq_raised {log later : Log} {answer : Except ε α} {e : ε}
    (h : answered log answer = (later, .error (.raised e))) : later = log ∧ answer = .error e := by
  cases answer with
  | ok a =>
      cases h
  | error failure =>
      cases h
      exact ⟨rfl, rfl⟩

theorem Accountable.askFixes {provider : Nat -> FixRequest -> Except ε (List WorkOrder)}
    (hprovider : company.fixes = some provider) (request : FixRequest) :
    Accountable company (Run.askFixes provider request) := by
  intro log later e h
  obtain ⟨rfl, hanswer⟩ := answered_eq_raised h
  exact .fixes hprovider rfl hanswer

theorem Accountable.askMissing
    {provider : Nat -> List MissingFile -> Table String -> Except ε (List WorkOrder)}
    (hprovider : company.generate = some provider) (missing : List MissingFile)
    (files : Table String) : Accountable company (Run.askMissing provider missing files) := by
  intro log later e h
  obtain ⟨rfl, hanswer⟩ := answered_eq_raised h
  exact .generator hprovider rfl hanswer

theorem Accountable.applyOrders (orders : List WorkOrder) (files : FileSet) (count : Nat) :
    Accountable company (Run.applyOrders company files count orders) := by
  induction orders generalizing files count with
  | nil =>
      exact Accountable.ret _
  | cons order rest ih =>
      unfold Run.applyOrders
      cases files.apply order with
      | error e =>
          exact Accountable.refuse e
      | ok applied =>
          exact Accountable.bind (Accountable.emitAll _) fun _ => ih _ _

end Run

namespace Repair

open Run

variable {ε : Type} {company : Company ε} {config : Config} {request : AssemblyRequest}

theorem Accountable.fixesFor (options : Options) (wanted : FixRequest) :
    Accountable company (fixesFor company options wanted) := by
  unfold Repair.fixesFor
  cases hprovider : company.fixes with
  | none =>
      exact Accountable.ret _
  | some given =>
      exact Accountable.askFixes hprovider wanted

theorem Accountable.generatedFor (options : Options) (files : Table String)
    (missing : List MissingFile) :
    Accountable company (generatedFor company options files missing) := by
  rcases generatedFor_cases company options files missing with heq | ⟨_, hprovider, heq⟩
  · rw [heq]
    exact Accountable.ret _
  · rw [heq]
    exact Accountable.askMissing hprovider missing files

theorem Accountable.repairsFor (options : Options) (report : Report) (wanted : FixRequest) :
    Accountable company (repairsFor company options report wanted) :=
  Accountable.ite (Accountable.ret _) (Accountable.fixesFor options wanted)

theorem Accountable.collect (options : Options) (pass : Nat) (files : Table String)
    (report : Report) (missing : List MissingFile) :
    Accountable company (collect company options pass files report missing) := by
  rw [collect_eq]
  refine Accountable.bind (Accountable.generatedFor options files missing) fun _ => ?_
  exact Accountable.bind (Accountable.repairsFor options report _) fun _ => Accountable.ret _

theorem Accountable.applyCollected (state : RepairState) (generated fixes : List WorkOrder) :
    Accountable company (Repair.applyCollected company state generated fixes) := by
  unfold Repair.applyCollected
  refine Accountable.bind (Accountable.applyOrders _ _ _) fun _ => ?_
  refine Accountable.bind (Accountable.emitAll _) fun _ => ?_
  exact Accountable.bind (Accountable.applyOrders _ _ _) fun _ => Accountable.ret _

theorem Accountable.passes (left : Nat) (start : RepairState) :
    Accountable company (Repair.passes company config request left start) := by
  induction left generalizing start with
  | zero =>
      unfold Repair.passes
      refine Accountable.bind (Accountable.emit _) fun _ => ?_
      exact Accountable.ite (Accountable.ret _) (Accountable.ret _)
  | succ left ih =>
      unfold Repair.passes
      refine Accountable.bind (Accountable.emit _) fun _ => ?_
      refine Accountable.ite (Accountable.ret _) ?_
      refine Accountable.bind (Accountable.deadlinePassed _) fun _ => ?_
      refine Accountable.ite (Accountable.ret _) ?_
      refine Accountable.bind (Accountable.collect _ _ _ _ _) fun _ => ?_
      refine Accountable.ite (Accountable.ret _) ?_
      exact Accountable.bind (Accountable.applyCollected _ _ _) ih

end Repair

namespace Assembly

open Run

variable {ε : Type} {company : Company ε} {config : Config} {request : AssemblyRequest}

theorem Accountable.unlessLate {label : String} {p : Progress} {phase : Run ε Progress}
    (hphase : Accountable company phase) :
    Accountable company (unlessLate company request label p phase) := by
  unfold Assembly.unlessLate Assembly.skip
  refine Accountable.bind (Accountable.deadlinePassed _) fun _ => Accountable.ite ?_ hphase
  exact Accountable.bind (Accountable.emit _) fun _ => Accountable.ret _

theorem Accountable.applyPhases (groups : List PhaseGroup) (p : Progress) :
    Accountable company (applyPhases company config request groups p) := by
  induction groups generalizing p with
  | nil =>
      exact Accountable.ret p
  | cons group rest ih =>
      unfold Assembly.applyPhases Assembly.applyPhase
      refine Accountable.bind (Accountable.unlessLate ?_) ih
      refine Accountable.bind (Accountable.emit _) fun _ => ?_
      refine Accountable.bind (Accountable.applyOrders _ _ _) fun _ => ?_
      exact Accountable.bind (Accountable.emit _) fun _ => Accountable.ret _

theorem Accountable.dropPlurals (options : Options) (p : Progress) :
    Accountable company (dropPlurals company config options p) := by
  unfold Assembly.dropPlurals
  refine Accountable.ite ?_ (Accountable.ret p)
  exact Accountable.bind (Accountable.emitAll _) fun _ => Accountable.ret _

theorem Accountable.dependencyPhase (options : Options) (p : Progress) :
    Accountable company (dependencyPhase company config request options p) := by
  unfold Assembly.dependencyPhase
  refine Accountable.ite (Accountable.unlessLate ?_) (Accountable.ret p)
  refine Accountable.bind (Accountable.emit _) fun _ => ?_
  refine Accountable.bind (Accountable.emit _) fun _ => ?_
  exact Accountable.bind (Accountable.emit _) fun _ => Accountable.ret _

theorem Accountable.validationPhase (options : Options) (p : Progress) :
    Accountable company (validationPhase company config request options p) := by
  unfold Assembly.validationPhase
  refine Accountable.ite (Accountable.unlessLate ?_) (Accountable.ret p)
  refine Accountable.bind (Accountable.emit _) fun _ => ?_
  refine Accountable.bind (Repair.Accountable.passes _ _) fun _ => ?_
  exact Accountable.bind (Accountable.emit _) fun _ => Accountable.ret _

theorem Accountable.run : Accountable company (run company config request) := by
  unfold Assembly.run
  dsimp only
  cases FileSet.seed (request.optionsIn config).strictContent request.existing with
  | error e =>
      exact Accountable.refuse e
  | ok files =>
      refine Accountable.bind (Accountable.applyPhases _ _) fun _ => ?_
      refine Accountable.bind (Accountable.dropPlurals _ _) fun _ => ?_
      refine Accountable.bind (Accountable.dependencyPhase _ _) fun _ => ?_
      exact Accountable.bind (Accountable.validationPhase _ _) fun _ => Accountable.ret _

/-!
# A sequence of assemblies
-/

/-- One assembly: how the others behave while it lasts, and what is asked for. -/
structure Turn (ε : Type) where
  company : Company ε
  request : AssemblyRequest

def assembleEach (config : Config) : Locks -> List (Turn ε) -> List (Outcome ε)
  | _, [] => []
  | locks, turn :: rest =>
      let outcome := assemble turn.company config locks turn.request
      outcome :: assembleEach config outcome.locks rest

/-- An assembly ends with a result, with work orders that are refused, or by somebody's failure. -/
inductive Ends (company : Company ε) (outcome : Outcome ε) : Prop where
  | returned {result : AssemblyResult} :
      outcome.result = .ok result -> Ends company outcome
  | refused {e : InputError} :
      outcome.result = .error (.failed (.input e)) -> Ends company outcome
  | raised {e : ε} :
      outcome.result = .error (.failed (.raised e)) -> company.Blamed outcome.log e ->
      Ends company outcome

theorem assemble_of_isLocked {locks : Locks} (h : locks.isLocked request.projectId = true) :
    assemble company config locks request =
      { result := .error (.concurrent request.projectId), log := {}, locks := locks } := by
  unfold assemble
  rw [(Locks.acquire_eq_none_iff locks request.projectId).mpr h]

theorem assemble_of_free (company : Company ε) (config : Config) (request : AssemblyRequest)
    {locks : Locks} (h : locks.isLocked request.projectId = false) :
    assemble company config locks request =
      { result := (run company config request {}).2.mapError .failed
        log := (run company config request {}).1
        locks := locks } := by
  have hfree : locks.acquire request.projectId ≠ none := by
    rw [Ne, Locks.acquire_eq_none_iff, h]
    exact Bool.false_ne_true
  obtain ⟨held, hheld⟩ := Option.ne_none_iff_exists'.mp hfree
  unfold assemble
  rw [hheld]
  dsimp only
  rw [Locks.release_acquire hheld]

theorem locks_assemble (company : Company ε) (config : Config) (locks : Locks)
    (request : AssemblyRequest) : (assemble company config locks request).locks = locks := by
  cases hlocked : locks.isLocked request.projectId with
  | true =>
      rw [assemble_of_isLocked hlocked]
  | false =>
      rw [assemble_of_free company config request hlocked]

theorem ends_assemble {locks : Locks} (h : locks.isLocked request.projectId = false) :
    Ends company (assemble company config locks request) := by
  rw [assemble_of_free company config request h]
  cases hrun : run company config request {} with
  | mk log outcome =>
      cases outcome with
      | ok result =>
          exact .returned rfl
      | error failure =>
          cases failure with
          | input e =>
              exact .refused rfl
          | raised e =>
              exact .raised rfl (Accountable.run {} log e hrun)

/--
In a sequence of assemblies each ends as it would have ended alone.  One whose project is locked is
rejected before anything is told or asked; any other one ends with a result, with a refusal or by a
failure of its listener or of a collaborator, and in every case the locks are what they were.
-/
theorem assembleEach_apart (config : Config) (locks : Locks) (turns : List (Turn ε)) :
    List.Forall₂
      (fun turn outcome =>
        outcome = assemble turn.company config locks turn.request ∧ outcome.locks = locks ∧
          if locks.isLocked turn.request.projectId then
            outcome.result = .error (.concurrent turn.request.projectId) ∧
              outcome.log.events = [] ∧ outcome.log.calls = []
          else Ends turn.company outcome)
      turns (assembleEach config locks turns) := by
  induction turns with
  | nil =>
      exact .nil
  | cons turn rest ih =>
      unfold assembleEach
      dsimp only
      rw [locks_assemble]
      refine .cons ⟨rfl, locks_assemble _ _ _ _, ?_⟩ ih
      cases hlocked : locks.isLocked turn.request.projectId with
      | true =>
          rw [if_pos rfl, assemble_of_isLocked hlocked]
          exact ⟨rfl, rfl, rfl⟩
      | false =>
          rw [if_neg Bool.false_ne_true]
          exact ends_assemble hlocked

def openOrder : WorkOrder :=
  { id := "1"
    files := [{ path := "a.ts", action := .create, content := some "import './b'\n" }] }

/--
A project that is locked, a listener that fails on its third event, a work order without files, a
generator that fails, and an assembly that comes to its end.
-/
def troubledTurns : List (Turn String) :=
  [{ company := Company.silent, request := { projectId := "held", workOrders := [openOrder] } },
    { company :=
        { Company.silent with
            onEvent := fun events => if events.length = 3 then some "listener" else none }
      request := { projectId := "free", workOrders := [openOrder] } },
    { company := Company.silent
      request := { projectId := "free", workOrders := [openOrder, { id := "2" }] } },
    { company := { Company.silent with generate := some fun _ _ _ => .error "generator" }
      request := { projectId := "free", workOrders := [openOrder] } },
    { company := Company.silent, request := { projectId := "free", workOrders := [openOrder] } }]

def failureOf (outcome : Outcome ε) : Option (Error ε) :=
  match outcome.result with
  | .ok _ => none
  | .error e => some e

theorem assembleEach_apart_troubled :
    (assembleEach {} { active := ["held"] } troubledTurns).map failureOf =
        [some (.concurrent "held"), some (.failed (.raised "listener")),
          some (.failed (.input (.order "2" .noFiles))), some (.failed (.raised "generator")),
          none] ∧
      List.Forall₂
        (fun turn outcome =>
          outcome = assemble turn.company {} { active := ["held"] } turn.request ∧
            outcome.locks = { active := ["held"] } ∧
            if Locks.isLocked { active := ["held"] } turn.request.projectId then
              outcome.result = .error (.concurrent turn.request.projectId) ∧
                outcome.log.events = [] ∧ outcome.log.calls = []
            else Ends turn.company outcome)
        troubledTurns (assembleEach {} { active := ["held"] } troubledTurns) :=
  ⟨by decide +kernel, assembleEach_apart {} { active := ["held"] } troubledTurns⟩

end Assembly
end Joinery
