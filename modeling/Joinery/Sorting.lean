/-!
# Sorting

## Lists in an order

A list is sorted by inserting its elements one after the other, the last one first.
An element goes before all those that it may stand before, so that elements of one
rank keep their order.  Merge sort gives the same lists but does not compute in proofs.
-/

namespace Joinery

def insertBy (le : α -> α -> Bool) (a : α) : List α -> List α
  | [] => [a]
  | b :: rest => if le a b then a :: b :: rest else b :: insertBy le a rest

def sortBy (le : α -> α -> Bool) : List α -> List α
  | [] => []
  | a :: rest => insertBy le a (sortBy le rest)

end Joinery
