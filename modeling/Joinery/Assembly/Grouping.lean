import Joinery.Sorting
import Joinery.WorkOrder

/-!
# Phases of work orders

## Grouping by label

Work orders are grouped under the labels of phases.  The given labels come first,
labels that nobody announced follow in the order in which they are met, and a work
order without a known label joins the first phase.  Within a phase the work orders
with a number come first, in the order of their numbers.
-/

namespace Joinery

structure PhaseGroup where
  label : String
  orders : List WorkOrder
deriving DecidableEq, Repr

namespace PhaseGroup

def applyLabel : String :=
  "apply_work_orders"

def namedLabel? (order : WorkOrder) : Option String :=
  match order.phase with
  | none => none
  | some label => if label.isEmpty then none else some label

def labels (orders : List WorkOrder) (phases : List String) : List String :=
  let named := orders.filterMap namedLabel?
  if named.isEmpty then [applyLabel]
  else ((if phases.isEmpty then [applyLabel] else phases) ++ named).eraseDups

def labelOf (labels : List String) (order : WorkOrder) : String :=
  match order.phase with
  | none => labels.headD applyLabel
  | some label => if labels.contains label then label else labels.headD applyLabel

def inOrder (a b : WorkOrder) : Bool :=
  match a.order, b.order with
  | some m, some n => m ≤ n
  | some _, none => true
  | none, some _ => false
  | none, none => true

def group (orders : List WorkOrder) (phases : List String) : List PhaseGroup :=
  let all := labels orders phases
  let groups := all.map fun label =>
    { label := label
      orders := sortBy inOrder (orders.filter fun o => labelOf all o = label) : PhaseGroup }
  groups.filter fun g => !g.orders.isEmpty

end PhaseGroup
end Joinery
