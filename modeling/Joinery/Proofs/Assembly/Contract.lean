import Joinery.Assembly.Repair

/-!
# Contracts of runs

## What a part of a run guarantees

A contract names what a part of a run relies on in the log, what holds of its value
and of the log when it ends well, and what holds of the log when it fails.  The rules
follow the way in which runs are put together, so that the contract of a run is found
by reading it from its first step to its last one.
-/

namespace Joinery

def Company.silent {ε : Type} : Company ε :=
  { onEvent := fun _ => none, fixes := none, generate := none }

theorem exists_of_isOk {ε α : Type} {outcome : Except ε α} (h : outcome.isOk = true) :
    exists a, outcome = .ok a := by
  cases outcome with
  | error e =>
      cases h
  | ok a =>
      exact ⟨a, rfl⟩

theorem exists_of_toOption_map {ε α β : Type} {outcome : Except ε α} {f : α -> β} {b : β}
    (h : outcome.toOption.map f = some b) : exists a, outcome = .ok a ∧ f a = b := by
  cases outcome with
  | error e =>
      cases h
  | ok a =>
      exact ⟨a, rfl, Option.some.inj h⟩

namespace Run

variable {ε α β : Type}

/-!
# One part after the other
-/

theorem bind_of_ok {m : Run ε α} {log later : Log} {a : α} (h : m log = (later, .ok a))
    (next : α -> Run ε β) : (m >>= next) log = next a later := by
  dsimp only [bind]
  rw [h]

theorem bind_of_error {m : Run ε α} {log later : Log} {e : Failure ε}
    (h : m log = (later, .error e)) (next : α -> Run ε β) :
    (m >>= next) log = (later, .error e) := by
  dsimp only [bind]
  rw [h]

/-!
# Contracts
-/

/-- What a run does from every log that it may be started with. -/
def Contract (pre : Log -> Prop) (m : Run ε α) (post : α -> Log -> Prop)
    (failed : Log -> Prop) : Prop :=
  forall log, pre log ->
    match m log with
    | (later, .ok a) => post a later
    | (later, .error _) => failed later

/-!
# Rules
-/

theorem Contract.ret {pre : Log -> Prop} {a : α} {post : α -> Log -> Prop}
    {failed : Log -> Prop} (h : forall log, pre log -> post a log) :
    Contract pre (pure a : Run ε α) post failed := by
  intro log hpre
  exact h log hpre

theorem Contract.fail {pre : Log -> Prop} {e : Failure ε} {post : α -> Log -> Prop}
    {failed : Log -> Prop} (h : forall log, pre log -> failed log) :
    Contract pre (Run.fail e) post failed := by
  intro log hpre
  exact h log hpre

theorem Contract.bind {pre : Log -> Prop} {m : Run ε α} {next : α -> Run ε β}
    {mid : α -> Log -> Prop} {post : β -> Log -> Prop} {failed : Log -> Prop}
    (hm : Contract pre m mid failed) (hnext : forall a, Contract (mid a) (next a) post failed) :
    Contract pre (m >>= next) post failed := by
  intro log hpre
  have hfirst := hm log hpre
  cases hrun : m log with
  | mk later outcome =>
      rw [hrun] at hfirst
      cases outcome with
      | ok a =>
          rw [bind_of_ok hrun]
          exact hnext a later hfirst
      | error e =>
          rw [bind_of_error hrun]
          exact hfirst

theorem Contract.weaken {pre pre' : Log -> Prop} {m : Run ε α} {post post' : α -> Log -> Prop}
    {failed failed' : Log -> Prop} (h : Contract pre m post failed)
    (hpre : forall log, pre' log -> pre log)
    (hpost : forall a log, post a log -> post' a log)
    (hfailed : forall log, failed log -> failed' log) :
    Contract pre' m post' failed' := by
  intro log hlog
  have hbase := h log (hpre log hlog)
  cases hrun : m log with
  | mk later outcome =>
      rw [hrun] at hbase
      cases outcome with
      | ok a =>
          exact hpost a later hbase
      | error e =>
          exact hfailed later hbase

theorem Contract.ite {pre : Log -> Prop} {b : Bool} {m n : Run ε α} {post : α -> Log -> Prop}
    {failed : Log -> Prop} (hm : b = true -> Contract pre m post failed)
    (hn : b = false -> Contract pre n post failed) :
    Contract pre (if b then m else n) post failed := by
  cases b with
  | true =>
      exact hm rfl
  | false =>
      exact hn rfl

/-!
# What a run may yield

Where the log does not matter, only the value of a run is spoken of.
-/

/-- Every value that the run ends with has the property. -/
def Yields (m : Run ε α) (property : α -> Prop) : Prop :=
  Contract (fun _ => True) m (fun a _ => property a) (fun _ => True)

theorem Yields.ret {a : α} {property : α -> Prop} (h : property a) :
    Yields (pure a : Run ε α) property :=
  Contract.ret fun _ _ => h

theorem Yields.bind {m : Run ε α} {next : α -> Run ε β} {first : α -> Prop}
    {property : β -> Prop} (hm : Yields m first)
    (hnext : forall a, first a -> Yields (next a) property) :
    Yields (m >>= next) property := by
  refine Contract.bind hm ?_
  intro a log ha
  exact hnext a ha log trivial

theorem Yields.andThen {m : Run ε α} {next : α -> Run ε β} {property : β -> Prop}
    (hnext : forall a, Yields (next a) property) : Yields (m >>= next) property := by
  have hfirst : Yields m fun _ => True := by
    intro log _
    cases m log with
    | mk later outcome =>
        cases outcome with
        | ok a =>
            trivial
        | error e =>
            trivial
  exact Yields.bind hfirst fun a _ => hnext a

theorem Yields.weaken {m : Run ε α} {first property : α -> Prop} (h : Yields m first)
    (himp : forall a, first a -> property a) : Yields m property :=
  Contract.weaken h (fun _ hlog => hlog) (fun a _ ha => himp a ha) fun _ hlog => hlog

theorem Yields.and {m : Run ε α} {first second : α -> Prop} (hfirst : Yields m first)
    (hsecond : Yields m second) : Yields m fun a => first a ∧ second a := by
  intro log hlog
  have hone := hfirst log hlog
  have htwo := hsecond log hlog
  cases hrun : m log with
  | mk later outcome =>
      rw [hrun] at hone htwo
      cases outcome with
      | ok a =>
          exact ⟨hone, htwo⟩
      | error e =>
          trivial

theorem Yields.ite {b : Bool} {m n : Run ε α} {property : α -> Prop}
    (hm : b = true -> Yields m property) (hn : b = false -> Yields n property) :
    Yields (if b then m else n) property :=
  Contract.ite hm hn

theorem Yields.of_eq {m : Run ε α} {property : α -> Prop} (h : Yields m property) {log later : Log}
    {a : α} (hrun : m log = (later, .ok a)) : property a := by
  have hvalue := h log trivial
  rw [hrun] at hvalue
  exact hvalue

/-!
# What a run is sure to yield
-/

/-- The run ends well, with a value that has the property. -/
def Surely (m : Run ε α) (property : α -> Prop) : Prop :=
  Contract (fun _ => True) m (fun a _ => property a) (fun _ => False)

theorem Surely.ret {a : α} {property : α -> Prop} (h : property a) :
    Surely (pure a : Run ε α) property :=
  Contract.ret fun _ _ => h

theorem Surely.bind {m : Run ε α} {next : α -> Run ε β} {first : α -> Prop}
    {property : β -> Prop} (hm : Surely m first)
    (hnext : forall a, first a -> Surely (next a) property) :
    Surely (m >>= next) property := by
  refine Contract.bind hm ?_
  intro a log ha
  exact hnext a ha log trivial

theorem Surely.ite {b : Bool} {m n : Run ε α} {property : α -> Prop}
    (hm : b = true -> Surely m property) (hn : b = false -> Surely n property) :
    Surely (if b then m else n) property :=
  Contract.ite hm hn

theorem Surely.exists_value {m : Run ε α} {property : α -> Prop} (h : Surely m property)
    (log : Log) : exists later a, m log = (later, .ok a) ∧ property a := by
  have hends := h log trivial
  cases hrun : m log with
  | mk later outcome =>
      rw [hrun] at hends
      cases outcome with
      | ok a =>
          exact ⟨later, a, rfl, hends⟩
      | error e =>
          exact hends.elim

end Run
namespace Repair

variable {ε : Type} {company : Company ε} {options : Options}

/-!
# The collaborators after a pass
-/

def generatedFor (company : Company ε) (options : Options) (files : Table String)
    (missing : List MissingFile) : Run ε (List WorkOrder) :=
  match generatorFor company options with
  | none => pure []
  | some generate => if missing.isEmpty then pure [] else Run.askMissing generate missing files

def repairsFor (company : Company ε) (options : Options) (report : Report)
    (wanted : FixRequest) : Run ε (List WorkOrder) :=
  if report.passes then pure [] else fixesFor company options wanted

theorem collect_eq (company : Company ε) (options : Options) (pass : Nat) (files : Table String)
    (report : Report) (missing : List MissingFile) :
    collect company options pass files report missing =
      generatedFor company options files missing >>= fun generated =>
        repairsFor company options report
          { pass := pass
            errors := report.errors
            missingExports := report.missingExports
            files := files
            missingFiles := missing } >>= fun fixes =>
          pure (generated, fixes) := by
  unfold collect generatedFor repairsFor
  dsimp only
  cases generatorFor company options with
  | none =>
      cases report.passes <;> rfl
  | some generate =>
      cases missing.isEmpty <;> cases report.passes <;> rfl

theorem generate_eq_of_generatorFor
    {generate : Nat -> List MissingFile -> Table String -> Except ε (List WorkOrder)}
    (h : generatorFor company options = some generate) : company.generate = some generate := by
  unfold generatorFor at h
  split at h
  · exact h
  · cases h

theorem generatedFor_cases (company : Company ε) (options : Options) (files : Table String)
    (missing : List MissingFile) :
    generatedFor company options files missing = pure [] ∨
      exists generate, company.generate = some generate ∧
        generatedFor company options files missing = Run.askMissing generate missing files := by
  unfold generatedFor
  cases hgenerator : generatorFor company options with
  | none =>
      exact Or.inl rfl
  | some generate =>
      cases missing.isEmpty with
      | true =>
          exact Or.inl rfl
      | false =>
          exact Or.inr ⟨generate, generate_eq_of_generatorFor hgenerator, rfl⟩

end Repair

end Joinery
