import Joinery.Assembly.Event
import Joinery.Table

/-!
# Event bus

## Several listeners to a project

Listeners subscribe to the events of a project and are served in the order of their
subscriptions.  A listener that fails does not keep an event from the others.  The
end of a subscription takes out the listener's first place among those of the
project, so that a listener who subscribed twice is served once more.
-/

namespace Joinery

/-- The listeners of each project, in the order of their subscriptions. -/
structure EventBus (listener : Type) where
  subscribers : Table (List listener) := Table.empty
deriving Repr

namespace EventBus

variable {listener : Type}

def listeners (bus : EventBus listener) (project : String) : List listener :=
  (bus.subscribers.get? project).getD []

def count (bus : EventBus listener) (project : String) : Nat :=
  (bus.listeners project).length

def subscribe (bus : EventBus listener) (project : String) (l : listener) : EventBus listener :=
  { subscribers := bus.subscribers.insert project (bus.listeners project ++ [l]) }

def unsubscribe [BEq listener] (bus : EventBus listener) (project : String) (l : listener) :
    EventBus listener :=
  let left := (bus.listeners project).erase l
  if left.isEmpty then { subscribers := bus.subscribers.erase project }
  else { subscribers := bus.subscribers.insert project left }

structure Delivery (listener : Type) where
  receiver : listener
  event : Event
  failed : Bool
deriving Repr

def publish (bus : EventBus listener) (fails : listener -> Event -> Bool) (project : String)
    (event : Event) : List (Delivery listener) :=
  (bus.listeners project).map fun l =>
    { receiver := l, event := event, failed := fails l event }

def handlerFor (bus : EventBus listener) (fails : listener -> Event -> Bool) (project : String) :
    Event -> List (Delivery listener) :=
  bus.publish fails project

/-!
# Who listens after a step
-/

theorem listeners_subscribe (bus : EventBus listener) (project other : String) (l : listener) :
    (bus.subscribe project l).listeners other =
      if other = project then bus.listeners other ++ [l] else bus.listeners other := by
  unfold subscribe
  split
  · next heq =>
      subst heq
      simp [listeners]
  · next hne =>
      simp [listeners, Ne.symm hne]

theorem listeners_unsubscribe [BEq listener] (bus : EventBus listener) (project other : String)
    (l : listener) :
    (bus.unsubscribe project l).listeners other =
      if other = project then (bus.listeners other).erase l else bus.listeners other := by
  unfold unsubscribe
  by_cases hother : other = project
  · subst hother
    rw [if_pos rfl]
    dsimp only
    split
    · next hnone =>
        rw [List.isEmpty_iff.mp hnone]
        simp [listeners]
    · simp [listeners]
  · rw [if_neg hother]
    dsimp only
    split
    · simp [listeners, Ne.symm hother]
    · simp [listeners, Ne.symm hother]

end EventBus
end Joinery
