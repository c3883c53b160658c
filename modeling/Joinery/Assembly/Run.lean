import Joinery.Assembly.Event
import Joinery.Assembly.Grouping
import Joinery.Config.Resolving
import Joinery.ExportFix
import Joinery.FileSet.Basic

/-!
# Runs

## Steps that leave a trace

A run talks to a listener, to a clock and to collaborators that write further work
orders.  All of this is kept in a log, also when the run fails, so that what
happened can be read off the log afterwards.  What the others answer may depend on
all that they have seen so far.
-/

namespace Joinery

inductive Call where
  | fixes (request : FixRequest)
  | missing (missing : List MissingFile) (files : Table String)
deriving DecidableEq, Repr

structure Log where
  events : List Event := []
  calls : List Call := []
  checks : Nat := 0
deriving DecidableEq, Repr

/-- Why a run ended without a result. -/
inductive Failure (ε : Type) where
  /-- a work order is not acceptable -/
  | input (error : InputError)
  /-- the listener or a collaborator failed -/
  | raised (error : ε)
deriving DecidableEq, Repr

/-- The others that a run talks to; each is told how often it has been asked before. -/
structure Company (ε : Type) where
  /-- the failure of the listener on the last of these events, if it fails -/
  onEvent : List Event -> Option ε
  fixes : Option (Nat -> FixRequest -> Except ε (List WorkOrder))
  generate : Option (Nat -> List MissingFile -> Table String -> Except ε (List WorkOrder))

def Run (ε α : Type) : Type :=
  Log -> Log × Except (Failure ε) α

namespace Run

instance : Monad (Run ε) where
  pure a := fun log => (log, .ok a)
  bind m next := fun log =>
    match m log with
    | (later, .ok a) => next a later
    | (later, .error e) => (later, .error e)

def fail (e : Failure ε) : Run ε α :=
  fun log => (log, .error e)

def emit (company : Company ε) (event : Event) : Run ε Unit :=
  fun log =>
    let events := log.events ++ [event]
    match company.onEvent events with
    | none => ({ log with events := events }, .ok ())
    | some e => ({ log with events := events }, .error (.raised e))

/-- Tell the listener several things in order. -/
def emitAll (company : Company ε) : List Event -> Run ε Unit
  | [] => pure ()
  | event :: rest => do
      emit company event
      emitAll company rest

def deadlinePassed (deadline : Option (Nat -> Bool)) : Run ε Bool :=
  match deadline with
  | none => pure false
  | some passed => fun log => ({ log with checks := log.checks + 1 }, .ok (passed log.checks))

def callCount (kind : Call -> Bool) (log : Log) : Nat :=
  (log.calls.filter kind).length

def isFixCall : Call -> Bool
  | .fixes _ => true
  | .missing .. => false

def answered (log : Log) (answer : Except ε α) : Log × Except (Failure ε) α :=
  match answer with
  | .ok a => (log, .ok a)
  | .error e => (log, .error (.raised e))

def askFixes (provider : Nat -> FixRequest -> Except ε (List WorkOrder)) (request : FixRequest) :
    Run ε (List WorkOrder) :=
  fun log =>
    answered { log with calls := log.calls ++ [.fixes request] }
      (provider (callCount isFixCall log) request)

def askMissing
    (provider : Nat -> List MissingFile -> Table String -> Except ε (List WorkOrder))
    (missing : List MissingFile) (files : Table String) : Run ε (List WorkOrder) :=
  fun log =>
    answered { log with calls := log.calls ++ [.missing missing files] }
      (provider (callCount (fun c => !isFixCall c) log) missing files)

def processed (op : FileOperation) : Event :=
  .fileProcessed op.path (.applied op.action)

def applyOrders (company : Company ε) (files : FileSet) (count : Nat) :
    List WorkOrder -> Run ε (FileSet × Nat)
  | [] => pure (files, count)
  | order :: rest =>
      match files.apply order with
      | .error e => fail (.input e)
      | .ok (next, applied) => do
          emitAll company (order.files.map processed)
          applyOrders company next (count + applied.total) rest

end Run
end Joinery
