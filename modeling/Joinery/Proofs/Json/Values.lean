import Joinery.Json.Reader

/-!
# The value of tokens

## What the reader builds

The tokens of a value are read as this value, whatever is open around it and whatever follows.
Of the entries of a mapping that were written under one key only the last one stays.
-/

namespace Joinery
namespace Json

/-!
# Values as they are written
-/

mutual

def tokensOf : Value -> List Token
  | .list items => .listOpen :: (tokensOfItems items ++ [.listClose])
  | .mapping entries => .mappingOpen :: (tokensOfEntries entries ++ [.mappingClose])
  | v => [.scalar v]

def tokensOfItems : List Value -> List Token
  | [] => []
  | [v] => tokensOf v
  | v :: w :: rest => tokensOf v ++ .comma :: tokensOfItems (w :: rest)

def tokensOfEntries : List (Value × Value) -> List Token
  | [] => []
  | [(k, v)] => .scalar k :: .colon :: tokensOf v
  | (k, v) :: e :: rest =>
      .scalar k :: .colon :: (tokensOf v ++ .comma :: tokensOfEntries (e :: rest))

end

mutual

def settled : Value -> Value
  | .list items => .list (settledItems items)
  | .mapping entries => .mapping (entriesInOrder (settledEntries entries))
  | v => v

def settledItems : List Value -> List Value
  | [] => []
  | v :: rest => settled v :: settledItems rest

def settledEntries : List (Value × Value) -> List (Value × Value)
  | [] => []
  | (k, v) :: rest => (k, settled v) :: settledEntries rest

end

mutual

/-- The number of lists and mappings around the innermost part of a value. -/
def depth : Value -> Nat
  | .list items => depthOfItems items + 1
  | .mapping entries => depthOfEntries entries + 1
  | _ => 0

def depthOfItems : List Value -> Nat
  | [] => 0
  | v :: rest => max (depth v) (depthOfItems rest)

def depthOfEntries : List (Value × Value) -> Nat
  | [] => 0
  | (_, v) :: rest => max (depth v) (depthOfEntries rest)

end

mutual

def hasTextKeys : Value -> Bool
  | .list items => haveTextKeys items
  | .mapping entries => haveTextKeysInside entries
  | _ => true

def haveTextKeys : List Value -> Bool
  | [] => true
  | v :: rest => hasTextKeys v && haveTextKeys rest

def haveTextKeysInside : List (Value × Value) -> Bool
  | [] => true
  | (.text _, v) :: rest => hasTextKeys v && haveTextKeysInside rest
  | _ :: _ => false

end

/-!
# Reading tokens
-/

def run (r : Reading) (ts : List Token) : Option Reading :=
  ts.foldlM Reading.step r

theorem run_cons (r : Reading) (t : Token) (ts : List Token) :
    run r (t :: ts) = (r.step t).bind fun next => run next ts :=
  rfl

def Expected.AwaitsValue (e : Expected) : Prop :=
  e = .value ∨ e = .valueOrClose

def Expected.entries? : Expected -> Option (List (Value × Value))
  | .key entries => some entries
  | .keyOrClose => some []
  | _ => none

theorem step_of_awaitsValue {e : Expected} (he : e.AwaitsValue) (stack : List Frame) {t : Token}
    (ht : t ≠ .listClose) : Reading.step ⟨stack, e⟩ t = Reading.openValue stack t := by
  rcases he with rfl | rfl
  · rfl
  · cases t with
    | listClose =>
        exact absurd rfl ht
    | _ =>
        rfl

theorem step_of_entries? {e : Expected} {before : List (Value × Value)}
    (he : e.entries? = some before) (stack : List Frame) (key : String) :
    Reading.step ⟨stack, e⟩ (.scalar (.text key)) = some ⟨stack, .colon before key⟩ := by
  cases e with
  | key entries =>
      cases he
      rfl
  | keyOrClose =>
      cases he
      rfl
  | _ =>
      cases he

theorem openValue_listOpen {stack : List Frame} (h : stack.length < depthLimit) :
    Reading.openValue stack .listOpen = some ⟨.list [] :: stack, .valueOrClose⟩ :=
  if_pos h

theorem openValue_mappingOpen {stack : List Frame} (h : stack.length < depthLimit) :
    Reading.openValue stack .mappingOpen = some ⟨stack, .keyOrClose⟩ :=
  if_pos h

mutual

theorem run_tokensOf (v : Value) (hkeys : hasTextKeys v = true) {stack : List Frame}
    (hdepth : stack.length + depth v ≤ depthLimit) {e : Expected} (he : e.AwaitsValue)
    (rest : List Token) :
    run ⟨stack, e⟩ (tokensOf v ++ rest) = run (Reading.put stack (settled v)) rest := by
  match v with
  | .list items =>
      rw [depth] at hdepth
      rw [tokensOf, List.cons_append, List.append_assoc, List.singleton_append, run_cons,
        step_of_awaitsValue he stack Token.noConfusion, openValue_listOpen (by omega),
        Option.bind_some, settled]
      match items with
      | [] =>
          rfl
      | v :: more =>
          exact run_tokensOfItems (v :: more) (List.cons_ne_nil _ _) hkeys (by omega)
            (Or.inr rfl) [] rest
  | .mapping entries =>
      -- unlike a list, a mapping is put on the stack with the colon behind its first key
      rw [depth] at hdepth
      rw [tokensOf, List.cons_append, List.append_assoc, List.singleton_append, run_cons,
        step_of_awaitsValue he stack Token.noConfusion, openValue_mappingOpen (by omega),
        Option.bind_some, settled]
      match entries with
      | [] =>
          rfl
      | entry :: more =>
          have hbefore : Expected.entries? .keyOrClose = some [] := rfl
          exact run_tokensOfEntries (entry :: more) (List.cons_ne_nil _ _) hkeys (by omega)
            hbefore rest
  | .null | .bool _ | .int _ | .real _ | .text _ | .halves _ | .bytes _ | .moment _ | .set _ =>
      rw [tokensOf, List.singleton_append, run_cons,
        step_of_awaitsValue he stack Token.noConfusion, Reading.openValue, Option.bind_some,
        settled]
      all_goals
        intros
        contradiction

theorem run_tokensOfItems (items : List Value) (hne : items ≠ [])
    (hkeys : haveTextKeys items = true) {stack : List Frame}
    (hdepth : stack.length + depthOfItems items < depthLimit) {e : Expected}
    (he : e.AwaitsValue) (before : List Value) (rest : List Token) :
    run ⟨.list before :: stack, e⟩ (tokensOfItems items ++ .listClose :: rest) =
      run (Reading.put stack (.list (before.reverse ++ settledItems items))) rest := by
  match items with
  | [] =>
      exact absurd rfl hne
  | [v] =>
      rw [haveTextKeys, Bool.and_eq_true] at hkeys
      rw [depthOfItems] at hdepth
      rw [tokensOfItems, run_tokensOf v hkeys.1 (by rw [List.length_cons]; omega) he,
        Reading.put, run_cons]
      show run (Reading.put stack (.list (settled v :: before).reverse)) rest = _
      rw [List.reverse_cons]
      rfl
  | v :: w :: more =>
      rw [haveTextKeys, Bool.and_eq_true] at hkeys
      rw [depthOfItems] at hdepth
      rw [tokensOfItems, List.append_assoc,
        run_tokensOf v hkeys.1 (by rw [List.length_cons]; omega) he, Reading.put,
        List.cons_append, run_cons]
      show run ⟨.list (settled v :: before) :: stack, .value⟩ _ = _
      rw [run_tokensOfItems (w :: more) (List.cons_ne_nil _ _) hkeys.2 (by omega) (Or.inl rfl),
        List.reverse_cons, List.append_assoc]
      rfl

theorem run_tokensOfEntries (entries : List (Value × Value)) (hne : entries ≠ [])
    (hkeys : haveTextKeysInside entries = true) {stack : List Frame}
    (hdepth : stack.length + depthOfEntries entries < depthLimit) {e : Expected}
    {before : List (Value × Value)} (he : e.entries? = some before) (rest : List Token) :
    run ⟨stack, e⟩ (tokensOfEntries entries ++ .mappingClose :: rest) =
      run (Reading.put stack
        (.mapping (entriesInOrder (before.reverse ++ settledEntries entries)))) rest := by
  match entries with
  | [] =>
      exact absurd rfl hne
  | [(.text key, v)] =>
      rw [haveTextKeysInside, Bool.and_eq_true] at hkeys
      rw [depthOfEntries] at hdepth
      rw [tokensOfEntries, List.cons_append, List.cons_append, run_cons, step_of_entries? he,
        Option.bind_some, run_cons]
      show run ⟨.mapping before key :: stack, .value⟩ _ = _
      rw [run_tokensOf v hkeys.1 (by rw [List.length_cons]; omega) (Or.inl rfl), Reading.put,
        run_cons]
      show run (Reading.put stack
        (.mapping (entriesInOrder ((.text key, settled v) :: before).reverse))) rest = _
      rw [List.reverse_cons]
      rfl
  | (.text key, v) :: entry :: more =>
      rw [haveTextKeysInside, Bool.and_eq_true] at hkeys
      rw [depthOfEntries] at hdepth
      rw [tokensOfEntries, List.cons_append, List.cons_append, run_cons, step_of_entries? he,
        Option.bind_some, run_cons]
      show run ⟨.mapping before key :: stack, .value⟩ _ = _
      rw [List.append_assoc,
        run_tokensOf v hkeys.1 (by rw [List.length_cons]; omega) (Or.inl rfl), Reading.put,
        List.cons_append, run_cons]
      show run ⟨stack, .key ((.text key, settled v) :: before)⟩ _ = _
      rw [run_tokensOfEntries (entry :: more) (List.cons_ne_nil _ _) hkeys.2 (by omega) rfl,
        List.reverse_cons, List.append_assoc]
      rfl

end

theorem ofTokens?_tokensOf {v : Value} (hkeys : hasTextKeys v = true)
    (hdepth : depth v ≤ depthLimit) : ofTokens? (tokensOf v) = some (settled v) := by
  have hopen : ([] : List Frame).length + depth v ≤ depthLimit := by
    rw [List.length_nil]
    omega
  have hrun := run_tokensOf v hkeys hopen (Or.inl rfl) []
  rw [List.append_nil] at hrun
  show (run ⟨[], .value⟩ (tokensOf v)).bind Reading.value? = _
  rw [hrun]
  rfl

end Json
end Joinery
