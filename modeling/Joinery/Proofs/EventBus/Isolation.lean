import Joinery.EventBus

/-!
# Projects on one bus

## As if each had a bus of its own

Many projects may share a bus, and their listeners may fail.  A project notices neither of this: its
deliveries and its listeners are those that it would have alone, and with listeners that never fail.
What one step does to another project is compared with no step at all, and what it does to its own
project with the same step on the other bus; a whole history follows step by step.

A publication is carried out call by call.  A listener that fails raises its failure in the middle
of the calls, where it is caught, so that no step of a history fails.
-/

namespace Joinery
namespace EventBus

variable {listener ε : Type}

/--
What is done with a bus.  The function that ends a subscription knows its project and its listener
and nothing else.
-/
inductive Act (listener : Type) where
  | subscribe (project : String) (l : listener)
  | unsubscribe (project : String) (l : listener)
  | publish (project : String) (event : Event)
  /-- an event is given to the handler of a project -/
  | hand (project : String) (event : Event)
deriving DecidableEq, Repr

namespace Act

def project : Act listener -> String
  | .subscribe project _ => project
  | .unsubscribe project _ => project
  | .publish project _ => project
  | .hand project _ => project

def direct : Act listener -> Act listener
  | .hand project event => .publish project event
  | act => act

end Act

def Delivery.calm (d : Delivery listener) : Delivery listener :=
  { d with failed := false }

/-- A bus with all deliveries that were made over it, each with the project of its event. -/
structure Exchange (listener : Type) where
  bus : EventBus listener := {}
  made : List (String × Delivery listener) := []

namespace Exchange

def madeFor (x : Exchange listener) (project : String) : List (String × Delivery listener) :=
  x.made.filter fun entry => entry.1 = project

def deliver (x : Exchange listener) (project : String) (deliveries : List (Delivery listener)) :
    Exchange listener :=
  { x with made := x.made ++ deliveries.map fun d => (project, d) }

variable {fails : listener -> Event -> Bool} {x y : Exchange listener} {project : String}

theorem madeFor_deliver (x : Exchange listener) (project other : String)
    (deliveries : List (Delivery listener)) :
    (x.deliver other deliveries).madeFor project =
      if other = project then
        x.madeFor project ++ deliveries.map fun d => (other, d)
      else x.madeFor project := by
  unfold madeFor deliver
  rw [List.filter_append]
  by_cases hother : other = project
  · rw [if_pos hother]
    congr 1
    apply List.filter_eq_self.mpr
    intro entry hentry
    obtain ⟨d, _, rfl⟩ := List.mem_map.mp hentry
    exact decide_eq_true hother
  · rw [if_neg hother]
    have hnone : (deliveries.map fun d => (other, d)).filter (fun entry => entry.1 = project) =
        [] := by
      apply List.filter_eq_nil_iff.mpr
      intro entry hentry
      obtain ⟨d, _, rfl⟩ := List.mem_map.mp hentry
      simpa using hother
    rw [hnone, List.append_nil]

/-- Two buses look the same to a project. -/
structure Alike (project : String) (x y : Exchange listener) : Prop where
  listeners : x.bus.listeners project = y.bus.listeners project
  made : x.madeFor project = y.madeFor project

theorem Alike.deliver_other (h : Alike project x y) {other : String} (hother : other ≠ project)
    (deliveries : List (Delivery listener)) : Alike project (x.deliver other deliveries) y := by
  constructor
  · exact h.listeners
  · rw [madeFor_deliver, if_neg hother]
    exact h.made

theorem Alike.publish (h : Alike project x y) (event : Event) :
    Alike project (x.deliver project (x.bus.publish fails project event))
      (y.deliver project (y.bus.publish fails project event)) := by
  constructor
  · exact h.listeners
  · rw [madeFor_deliver, madeFor_deliver, if_pos rfl, if_pos rfl, h.made, EventBus.publish,
      h.listeners]
    rfl

def calm (x : Exchange listener) : Exchange listener :=
  { x with made := x.made.map fun entry => (entry.1, entry.2.calm) }

theorem madeFor_calm (x : Exchange listener) (project : String) :
    x.calm.madeFor project = (x.madeFor project).map fun entry => (entry.1, entry.2.calm) :=
  List.filter_map

theorem calm_deliver (x : Exchange listener) (project : String) (event : Event) :
    (x.deliver project (x.bus.publish fails project event)).calm =
      x.calm.deliver project (x.calm.bus.publish (fun _ _ => false) project event) := by
  unfold deliver calm
  simp only [List.map_append, List.map_map]
  congr 2
  unfold EventBus.publish
  rw [List.map_map, List.map_map]
  rfl

/-!
# Call by call
-/

def call (raises : listener -> Event -> Option ε) (l : listener) (event : Event) :
    ExceptT ε (StateM (Exchange listener)) Unit :=
  match raises l event with
  | none => pure ()
  | some e => throw e

/-- Call some listeners one after the other; a failure is caught and noted. -/
def serve (raises : listener -> Event -> Option ε) (project : String) (event : Event) :
    List listener -> ExceptT ε (StateM (Exchange listener)) Unit
  | [] => pure ()
  | l :: rest => do
      try
        call raises l event
        modify (·.deliver project [{ receiver := l, event := event, failed := false }])
      catch _ =>
        modify (·.deliver project [{ receiver := l, event := event, failed := true }])
      serve raises project event rest

theorem run_serve (raises : listener -> Event -> Option ε) (project : String) (event : Event)
    (ls : List listener) (x : Exchange listener) :
    (serve raises project event ls).run.run x =
      (.ok (), x.deliver project (ls.map fun l =>
        { receiver := l, event := event, failed := (raises l event).isSome })) := by
  induction ls generalizing x with
  | nil =>
      show (Except.ok (), x) = _
      simp [deliver]
  | cons l rest ih =>
      have hfirst : (serve raises project event (l :: rest)).run.run x =
          (serve raises project event rest).run.run
            (x.deliver project
              [{ receiver := l, event := event, failed := (raises l event).isSome }]) := by
        rw [serve, call]
        cases raises l event <;> rfl
      rw [hfirst, ih]
      simp [deliver]

variable [BEq listener]

/-!
# Steps
-/

def step (fails : listener -> Event -> Bool) (x : Exchange listener) :
    Act listener -> Exchange listener
  | .subscribe project l => { x with bus := x.bus.subscribe project l }
  | .unsubscribe project l => { x with bus := x.bus.unsubscribe project l }
  | .publish project event => x.deliver project (x.bus.publish fails project event)
  | .hand project event => x.deliver project (x.bus.handlerFor fails project event)

def after (fails : listener -> Event -> Bool) (steps : List (Act listener)) : Exchange listener :=
  steps.foldl (step fails) {}

/-!
# What a project sees
-/

theorem Alike.step_other (h : Alike project x y) {act : Act listener}
    (hact : act.project ≠ project) : Alike project (x.step fails act) y := by
  cases act with
  | subscribe other l =>
      constructor
      · have hkept := listeners_subscribe x.bus other project l
        rw [if_neg fun heq => hact heq.symm] at hkept
        exact hkept.trans h.listeners
      · exact h.made
  | unsubscribe other l =>
      constructor
      · have hkept := listeners_unsubscribe x.bus other project l
        rw [if_neg fun heq => hact heq.symm] at hkept
        exact hkept.trans h.listeners
      · exact h.made
  | publish other event =>
      exact h.deliver_other hact _
  | hand other event =>
      exact h.deliver_other hact _

theorem Alike.step_own (h : Alike project x y) {act : Act listener}
    (hact : act.project = project) : Alike project (x.step fails act) (y.step fails act) := by
  subst hact
  cases act with
  | subscribe project l =>
      constructor
      · show (x.bus.subscribe project l).listeners project =
          (y.bus.subscribe project l).listeners project
        rw [listeners_subscribe, listeners_subscribe, if_pos rfl, if_pos rfl]
        exact congrArg (· ++ [l]) h.listeners
      · exact h.made
  | unsubscribe project l =>
      constructor
      · show (x.bus.unsubscribe project l).listeners project =
          (y.bus.unsubscribe project l).listeners project
        rw [listeners_unsubscribe, listeners_unsubscribe, if_pos rfl, if_pos rfl]
        exact congrArg (·.erase l) h.listeners
      · exact h.made
  | publish project event =>
      exact h.publish event
  | hand project event =>
      exact h.publish event

theorem Alike.foldl (h : Alike project x y) (steps : List (Act listener)) :
    Alike project (steps.foldl (step fails) x)
      ((steps.filter fun act => act.project = project).foldl (step fails) y) := by
  induction steps generalizing x y with
  | nil =>
      exact h
  | cons act rest ih =>
      by_cases hact : act.project = project
      · rw [List.filter_cons_of_pos (by simpa using hact), List.foldl_cons, List.foldl_cons]
        exact ih (h.step_own hact)
      · rw [List.filter_cons_of_neg (by simpa using hact), List.foldl_cons]
        exact ih (h.step_other hact)

theorem madeFor_foldl (h : x.madeFor project = x.made) {steps : List (Act listener)}
    (hsteps : forall act, act ∈ steps -> act.project = project) :
    (steps.foldl (step fails) x).madeFor project = (steps.foldl (step fails) x).made := by
  induction steps generalizing x with
  | nil =>
      exact h
  | cons act rest ih =>
      have hdelivered : forall deliveries, (x.deliver project deliveries).madeFor project =
          (x.deliver project deliveries).made := by
        intro deliveries
        rw [madeFor_deliver, if_pos rfl, h]
        rfl
      rw [List.foldl_cons]
      apply ih _ fun other hother => hsteps other (List.mem_cons_of_mem act hother)
      have hact := hsteps act (List.mem_cons_self ..)
      cases act with
      | subscribe other l =>
          exact h
      | unsubscribe other l =>
          exact h
      | publish other event =>
          obtain rfl : other = project := hact
          exact hdelivered _
      | hand other event =>
          obtain rfl : other = project := hact
          exact hdelivered _

/-!
# Listeners that fail
-/

theorem calm_step (x : Exchange listener) (act : Act listener) :
    (x.step fails act).calm = x.calm.step (fun _ _ => false) act := by
  cases act with
  | subscribe project l =>
      rfl
  | unsubscribe project l =>
      rfl
  | publish project event =>
      exact calm_deliver x project event
  | hand project event =>
      exact calm_deliver x project event

theorem calm_foldl (x : Exchange listener) (steps : List (Act listener)) :
    (steps.foldl (step fails) x).calm = steps.foldl (step fun _ _ => false) x.calm := by
  induction steps generalizing x with
  | nil =>
      rfl
  | cons act rest ih =>
      rw [List.foldl_cons, List.foldl_cons, ih, calm_step]

theorem step_direct (x : Exchange listener) (act : Act listener) :
    x.step fails act.direct = x.step fails act := by
  cases act <;> rfl

/-!
# Carried out call by call
-/

def perform (raises : listener -> Event -> Option ε) :
    Act listener -> ExceptT ε (StateM (Exchange listener)) Unit
  | .subscribe project l => modify fun x => { x with bus := x.bus.subscribe project l }
  | .unsubscribe project l => modify fun x => { x with bus := x.bus.unsubscribe project l }
  | .publish project event => do
      let x <- get
      serve raises project event (x.bus.listeners project)
  | .hand project event => do
      let x <- get
      serve raises project event (x.bus.listeners project)

def performAll (raises : listener -> Event -> Option ε) :
    List (Act listener) -> ExceptT ε (StateM (Exchange listener)) Unit
  | [] => pure ()
  | act :: rest => do
      perform raises act
      performAll raises rest

theorem run_perform (raises : listener -> Event -> Option ε) (act : Act listener)
    (x : Exchange listener) :
    (perform raises act).run.run x = (.ok (), x.step (fun l e => (raises l e).isSome) act) := by
  cases act with
  | subscribe project l =>
      rfl
  | unsubscribe project l =>
      rfl
  | publish project event =>
      exact run_serve raises project event (x.bus.listeners project) x
  | hand project event =>
      exact run_serve raises project event (x.bus.listeners project) x

theorem run_performAll (raises : listener -> Event -> Option ε) (steps : List (Act listener))
    (x : Exchange listener) :
    (performAll raises steps).run.run x =
      (.ok (), steps.foldl (step fun l e => (raises l e).isSome) x) := by
  induction steps generalizing x with
  | nil =>
      rfl
  | cons act rest ih =>
      have hfirst : (performAll raises (act :: rest)).run.run x =
          (performAll raises rest).run.run (x.step (fun l e => (raises l e).isSome) act) := by
        have hact := run_perform raises act x
        simp only [performAll, ExceptT.run_bind, StateT.run_bind, hact]
        rfl
      rw [hfirst]
      exact ih _

/-!
# Isolation
-/

/--
After every history, and so after each of its steps, a project has the listeners and the deliveries
that it would have on a bus of its own.  They are those of listeners that never fail, but for the
failures being noted, and no step fails.  A handler does what a publication to its project does.
-/
theorem projects_isolated (raises : listener -> Event -> Option ε) (steps : List (Act listener))
    (project : String) :
    let fails := fun l event => (raises l event).isSome
    let whole := after fails steps
    let own := after fails (steps.filter fun act => act.project = project)
    let quiet := after (fun _ _ => false) steps
    (performAll raises steps).run.run {} = (.ok (), whole) ∧
      whole.madeFor project = own.made ∧
      whole.bus.count project = own.bus.count project ∧
      (whole.madeFor project).map (fun entry => (entry.2.receiver, entry.2.event)) =
        (quiet.madeFor project).map (fun entry => (entry.2.receiver, entry.2.event)) ∧
      whole.bus.count project = quiet.bus.count project ∧
      after fails (steps.map Act.direct) = whole := by
  intro fails whole own quiet
  have halike : Alike project whole own := Alike.foldl ⟨rfl, rfl⟩ steps
  have hown : own.madeFor project = own.made := by
    apply madeFor_foldl rfl
    intro act hact
    simpa using (List.mem_filter.mp hact).2
  have hquiet : whole.calm = quiet := calm_foldl {} steps
  refine ⟨run_performAll raises steps {}, halike.made.trans hown,
    congrArg List.length halike.listeners, ?_, ?_, ?_⟩
  · rw [<- hquiet, madeFor_calm, List.map_map]
    rfl
  · rw [<- hquiet]
    rfl
  · show (steps.map Act.direct).foldl (step fails) {} = steps.foldl (step fails) {}
    rw [List.foldl_map]
    simp only [step_direct]

example :
    let steps : List (Act String) :=
      [.subscribe "a" "broken", .subscribe "a" "r", .subscribe "b" "r", .hand "a" (.error "x"),
        .unsubscribe "b" "r", .publish "b" (.error "y")]
    ((after (fun l _ => l == "broken") steps).made.map fun entry =>
        (entry.1, entry.2.receiver, entry.2.failed)) =
      [("a", "broken", true), ("a", "r", false)] := by
  decide

end Exchange
end EventBus
end Joinery
