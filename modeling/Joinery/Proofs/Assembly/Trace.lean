import Joinery.Proofs.Assembly.Contract
import Joinery.Proofs.FileSet.Reachable

/-!
# Traces of runs

## The events that a step reports

A step that asks nobody only appends its events to the log.  It fails only if the
listener fails on one of them, or if it is handed a work order that is not acceptable,
and then the log ends with some first part of its events.
-/

namespace Joinery

namespace Event

def isPass : Event -> Bool
  | .validationPass .. => true
  | _ => false

def written? : Event -> Option String
  | .fileProcessed path _ => some path
  | _ => none

def passCount (events : List Event) : Nat :=
  events.countP isPass

/-- The files that are written once validation has begun. -/
def repairedPaths (events : List Event) : List String :=
  (events.dropWhile fun e => !e.isPass).filterMap written?

variable {events tail : List Event}

@[simp] theorem passCount_append (events tail : List Event) :
    passCount (events ++ tail) = passCount events + passCount tail :=
  List.countP_append

theorem dropWhile_of_no_pass (h : passCount events = 0) (tail : List Event) :
    (events ++ tail).dropWhile (fun e => !e.isPass) = tail.dropWhile fun e => !e.isPass := by
  refine List.dropWhile_append_of_pos ?_
  intro e he
  have hno := List.countP_eq_zero.mp h e he
  simpa using hno

theorem repairedPaths_of_no_pass (h : passCount events = 0) : repairedPaths events = [] := by
  unfold repairedPaths
  have hdrop := dropWhile_of_no_pass h []
  rw [List.append_nil] at hdrop
  rw [hdrop]
  rfl

theorem repairedPaths_append (h : passCount events ≠ 0) (tail : List Event) :
    repairedPaths (events ++ tail) = repairedPaths events ++ tail.filterMap written? := by
  unfold repairedPaths
  rw [<- List.filterMap_append]
  congr 1
  induction events with
  | nil =>
      exact absurd rfl h
  | cons e rest ih =>
      cases hpass : e.isPass with
      | true =>
          rw [List.cons_append, List.dropWhile_cons_of_neg (by simp [hpass]),
            List.dropWhile_cons_of_neg (by simp [hpass]), List.cons_append]
      | false =>
          rw [List.cons_append, List.dropWhile_cons_of_pos (by simp [hpass]),
            List.dropWhile_cons_of_pos (by simp [hpass])]
          refine ih ?_
          intro hrest
          refine h ?_
          unfold passCount at hrest
          unfold passCount
          rw [List.countP_cons_of_neg (by simp [hpass]), hrest]

theorem repairedPaths_pass (events : List Event) (pass errors warnings : Int) :
    repairedPaths (events ++ [.validationPass pass errors warnings]) = repairedPaths events := by
  by_cases h : passCount events = 0
  · rw [repairedPaths_of_no_pass h]
    unfold repairedPaths
    rw [dropWhile_of_no_pass h]
    rfl
  · rw [repairedPaths_append h]
    exact List.append_nil _

theorem repairedPaths_other {e : Event} (hpass : e.isPass = false) (hwritten : e.written? = none)
    (events : List Event) : repairedPaths (events ++ [e]) = repairedPaths events := by
  by_cases h : passCount events = 0
  · have hone : passCount [e] = 0 :=
      List.countP_eq_zero.mpr fun d hd => by simp [List.mem_singleton.mp hd, hpass]
    have hall : passCount (events ++ [e]) = 0 := by rw [passCount_append, h, hone]
    rw [repairedPaths_of_no_pass h, repairedPaths_of_no_pass hall]
  · rw [repairedPaths_append h, List.filterMap_cons_none hwritten]
    exact List.append_nil _

end Event

namespace Run

variable {ε α : Type} {company : Company ε} {events : List Event}

/-- The listener fails on the last event. -/
def Raised (company : Company ε) (log : Log) : Prop :=
  company.onEvent log.events ≠ none

theorem Contract.emit (event : Event) :
    Contract (fun log => log.events = events) (emit company event)
      (fun _ log => log.events = events ++ [event])
      (fun log => log.events = events ++ [event] ∧ Raised company log) := by
  rintro log rfl
  cases hlistener : company.onEvent (log.events ++ [event]) with
  | none =>
      have hrun : Run.emit company event log =
          ({ log with events := log.events ++ [event] }, .ok ()) := by
        simp only [Run.emit, hlistener]
      rw [hrun]
  | some e =>
      have hrun : Run.emit company event log =
          ({ log with events := log.events ++ [event] }, .error (.raised e)) := by
        simp only [Run.emit, hlistener]
      rw [hrun]
      refine ⟨rfl, ?_⟩
      show company.onEvent (log.events ++ [event]) ≠ none
      rw [hlistener]
      exact Option.some_ne_none e

theorem Contract.emitAll (reported : List Event) :
    Contract (fun log => log.events = events) (emitAll company reported)
      (fun _ log => log.events = events ++ reported)
      (fun log => (exists front, front <+: reported ∧ log.events = events ++ front) ∧
        Raised company log) := by
  induction reported generalizing events with
  | nil =>
      refine Contract.ret ?_
      rintro log rfl
      exact (List.append_nil _).symm
  | cons event rest ih =>
      have hfirst : Contract (fun log => log.events = events) (Run.emit company event)
          (fun _ log => log.events = events ++ [event])
          (fun log => (exists front, front <+: event :: rest ∧ log.events = events ++ front) ∧
            Raised company log) := by
        refine Contract.weaken (Contract.emit event) (fun _ h => h) (fun _ _ h => h) ?_
        rintro log ⟨hevents, hraised⟩
        exact ⟨⟨[event], ⟨rest, rfl⟩, hevents⟩, hraised⟩
      refine Contract.bind hfirst fun _ => ?_
      refine Contract.weaken ih (fun _ h => h) ?_ ?_
      · intro _ log h
        rw [h, List.append_assoc, List.singleton_append]
      · rintro log ⟨⟨front, hfront, hevents⟩, hraised⟩
        refine ⟨⟨event :: front, List.cons_prefix_cons.mpr ⟨rfl, hfront⟩, ?_⟩, hraised⟩
        rw [hevents, List.append_assoc, List.singleton_append]

def writes (orders : List WorkOrder) : List Event :=
  (WorkOrder.operations orders).map processed

@[simp] theorem writes_cons (order : WorkOrder) (rest : List WorkOrder) :
    writes (order :: rest) = order.files.map processed ++ writes rest := by
  simp [writes, WorkOrder.operations]

theorem Contract.applyOrders {s : FileSet} {orders : List WorkOrder} {count : Nat} :
    Contract (fun log => log.events = events) (applyOrders company s count orders)
      (fun done log =>
        (forall order, order ∈ orders -> order.IsValid s.strict) ∧
          done.1.files = (WorkOrder.operations orders).foldl FileSet.applyOperation s.files ∧
          done.1.strict = s.strict ∧ log.events = events ++ writes orders)
      (fun log => (exists front, front <+: writes orders ∧ log.events = events ++ front) ∧
        ((forall order, order ∈ orders -> order.IsValid s.strict) -> Raised company log)) := by
  induction orders generalizing s count events with
  | nil =>
      refine Contract.ret ?_
      rintro log rfl
      exact ⟨by simp, rfl, rfl, (List.append_nil _).symm⟩
  | cons order rest ih =>
      unfold Run.applyOrders
      cases happly : s.apply order with
      | error e =>
          refine Contract.fail ?_
          rintro log rfl
          refine ⟨⟨[], List.nil_prefix, (List.append_nil _).symm⟩, ?_⟩
          intro hvalid
          rw [FileSet.apply_eq (hvalid order (List.mem_cons_self ..))] at happly
          cases happly
      | ok applied =>
          obtain ⟨next, counts⟩ := applied
          obtain ⟨hvalid, hfiles, hstrict⟩ := FileSet.apply_files happly
          have hfirst : Contract (fun log => log.events = events)
              (Run.emitAll company (order.files.map processed))
              (fun _ log => log.events = events ++ order.files.map processed)
              (fun log =>
                (exists front, front <+: writes (order :: rest) ∧ log.events = events ++ front) ∧
                  ((forall o, o ∈ order :: rest -> o.IsValid s.strict) -> Raised company log)) := by
            refine Contract.weaken (Contract.emitAll _) (fun _ h => h) (fun _ _ h => h) ?_
            rintro log ⟨⟨front, hfront, hevents⟩, hraised⟩
            refine ⟨⟨front, ?_, hevents⟩, fun _ => hraised⟩
            rw [writes_cons]
            exact hfront.trans (List.prefix_append _ _)
          refine Contract.bind hfirst fun _ => ?_
          refine Contract.weaken (ih (s := next)) (fun _ h => h) ?_ ?_
          · rintro done log ⟨hrest, hdone, hdonestrict, hevents⟩
            refine ⟨?_, ?_, hdonestrict.trans hstrict, ?_⟩
            · intro o ho
              rcases List.mem_cons.mp ho with rfl | ho
              · exact hvalid
              · rw [<- hstrict]
                exact hrest o ho
            · rw [hdone, hfiles]
              simp [WorkOrder.operations]
            · rw [hevents, writes_cons, List.append_assoc]
          · rintro log ⟨⟨front, hfront, hevents⟩, hraised⟩
            refine ⟨⟨order.files.map processed ++ front, ?_, ?_⟩, ?_⟩
            · rw [writes_cons]
              exact (List.prefix_append_right_inj _).mpr hfront
            · rw [hevents, List.append_assoc]
            · intro hall
              refine hraised ?_
              intro o ho
              rw [hstrict]
              exact hall o (List.mem_cons_of_mem _ ho)

theorem passCount_of_writes {orders : List WorkOrder} {front : List Event}
    (h : front <+: writes orders) : Event.passCount front = 0 := by
  refine List.countP_eq_zero.mpr ?_
  intro e he
  obtain ⟨op, _, rfl⟩ := List.mem_map.mp (h.subset he)
  exact Bool.false_ne_true

theorem written_writes (orders : List WorkOrder) :
    (writes orders).filterMap Event.written? = (WorkOrder.operations orders).map (·.path) := by
  unfold writes
  rw [List.filterMap_map]
  exact congrFun List.filterMap_eq_map _

end Run
end Joinery
