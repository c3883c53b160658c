import Joinery.Sorting

/-!
# Tables with text keys

## Entries in the order of their first writing

A table maps texts to values and remembers in which order its keys came in.
Writing under a key that is there keeps the key's place; a key that was taken out
and comes back goes to the end.
-/

namespace Joinery

/-!
# Entries under keys
-/

namespace Entries

variable {κ α : Type} [DecidableEq κ]

def write (key : κ) (value : α) : List (κ × α) -> List (κ × α)
  | [] => [(key, value)]
  | (k, v) :: rest => if k = key then (k, value) :: rest else (k, v) :: write key value rest

theorem map_fst_write (key : κ) (value : α) (entries : List (κ × α)) :
    (write key value entries).map (·.1) =
      if key ∈ entries.map (·.1) then entries.map (·.1) else entries.map (·.1) ++ [key] := by
  induction entries with
  | nil =>
      rfl
  | cons e rest ih =>
      by_cases h : e.1 = key
      · simp [write, h]
      · have hne : ¬key = e.1 := fun heq => h heq.symm
        by_cases hin : key ∈ rest.map (·.1)
        · simp [write, h, ih, hin]
        · simp [write, h, hne, ih, hin]

theorem nodup_write {entries : List (κ × α)} (h : (entries.map (·.1)).Nodup) (key : κ)
    (value : α) : ((write key value entries).map (·.1)).Nodup := by
  rw [map_fst_write]
  split
  · exact h
  · next hnew =>
      refine List.nodup_append.mpr ⟨h, by simp, ?_⟩
      intro k hk other hother heq
      cases List.mem_singleton.mp hother
      exact hnew (heq ▸ hk)

variable [BEq κ] [LawfulBEq κ]

omit [DecidableEq κ] in
theorem lookup_cons_of_ne {k key : κ} (h : k ≠ key) (value : α)
    (rest : List (κ × α)) : ((k, value) :: rest).lookup key = rest.lookup key := by
  have hne : (key == k) = false := beq_eq_false_iff_ne.mpr h.symm
  rw [List.lookup_cons, hne]

@[simp] theorem lookup_write_self (key : κ) (value : α) (entries : List (κ × α)) :
    (write key value entries).lookup key = some value := by
  induction entries with
  | nil =>
      exact List.lookup_cons_self
  | cons e rest ih =>
      obtain ⟨k, v⟩ := e
      by_cases h : k = key
      · rw [write, if_pos h, h, List.lookup_cons_self]
      · rw [write, if_neg h, lookup_cons_of_ne h, ih]

@[simp] theorem lookup_write_other {key other : κ} (h : key ≠ other) (value : α)
    (entries : List (κ × α)) :
    (write key value entries).lookup other = entries.lookup other := by
  induction entries with
  | nil =>
      exact lookup_cons_of_ne h value []
  | cons e rest ih =>
      obtain ⟨k, v⟩ := e
      by_cases hk : k = key
      · have hne : k ≠ other := fun heq => h (hk.symm.trans heq)
        rw [write, if_pos hk, lookup_cons_of_ne hne, lookup_cons_of_ne hne]
      · rw [write, if_neg hk, List.lookup_cons, List.lookup_cons, ih]

end Entries

/-!
# Tables
-/

/-- Entries with distinct keys, in the order in which the keys came in. -/
structure Table (α : Type) where
  entries : List (String × α)
  distinct : (entries.map (·.1)).Nodup := by simp
deriving Repr

namespace Table

variable {α β : Type}

theorem ext {s t : Table α} (h : s.entries = t.entries) : s = t := by
  cases s
  cases t
  cases h
  rfl

instance [DecidableEq α] : DecidableEq (Table α) :=
  fun s t =>
    if h : s.entries = t.entries then isTrue (ext h)
    else isFalse (by intro heq; exact h (by rw [heq]))

def empty : Table α :=
  ⟨[], List.nodup_nil⟩

instance : Inhabited (Table α) :=
  ⟨empty⟩

def keys (t : Table α) : List String :=
  t.entries.map (·.1)

theorem nodup_keys (t : Table α) : t.keys.Nodup :=
  t.distinct

def size (t : Table α) : Nat :=
  t.entries.length

def get? (t : Table α) (key : String) : Option α :=
  t.entries.lookup key

def contains (t : Table α) (key : String) : Bool :=
  (t.get? key).isSome

def insert (t : Table α) (key : String) (value : α) : Table α :=
  ⟨Entries.write key value t.entries, Entries.nodup_write t.distinct key value⟩

def filterKeys (keep : String -> Bool) (t : Table α) : Table α :=
  ⟨t.entries.filter fun e => keep e.1, t.distinct.sublist (List.filter_sublist.map _)⟩

def erase (t : Table α) (key : String) : Table α :=
  t.filterKeys fun k => decide (k ≠ key)

def mapValues (f : String -> α -> β) (t : Table α) : Table β :=
  ⟨t.entries.map fun e => (e.1, f e.1 e.2), by rw [List.map_map]; exact t.distinct⟩

def ofList (entries : List (String × α)) : Table α :=
  entries.foldl (fun t e => t.insert e.1 e.2) empty

def sortedEntries (t : Table α) : List (String × α) :=
  sortBy (fun a b => decide (a.1 ≤ b.1)) t.entries

/-!
# What is there after a change
-/

@[simp] theorem get?_empty (key : String) : (empty : Table α).get? key = none :=
  rfl

@[simp] theorem get?_insert_self (t : Table α) (key : String) (value : α) :
    (t.insert key value).get? key = some value :=
  Entries.lookup_write_self key value t.entries

@[simp] theorem get?_insert_other (t : Table α) {key other : String} (h : key ≠ other)
    (value : α) : (t.insert key value).get? other = t.get? other :=
  Entries.lookup_write_other h value t.entries

@[simp] theorem get?_filterKeys (keep : String -> Bool) (t : Table α) (key : String) :
    (t.filterKeys keep).get? key = if keep key then t.get? key else none := by
  show (t.entries.filter fun e => keep e.1).lookup key =
    if keep key then t.entries.lookup key else none
  induction t.entries with
  | nil =>
      simp
  | cons e rest ih =>
      obtain ⟨k, v⟩ := e
      rw [List.filter_cons]
      by_cases h : k = key
      · subst h
        by_cases hkeep : keep k = true
        · rw [if_pos hkeep, if_pos hkeep, List.lookup_cons_self, List.lookup_cons_self]
        · rw [if_neg hkeep, ih, if_neg hkeep, if_neg hkeep]
      · rw [Entries.lookup_cons_of_ne h, <- ih]
        split
        · exact Entries.lookup_cons_of_ne h v _
        · rfl

@[simp] theorem get?_erase_self (t : Table α) (key : String) : (t.erase key).get? key = none := by
  simp [erase]

@[simp] theorem get?_erase_other (t : Table α) {key other : String} (h : key ≠ other) :
    (t.erase key).get? other = t.get? other := by
  simp [erase, h.symm]

@[simp] theorem get?_mapValues (f : String -> α -> β) (t : Table α) (key : String) :
    (t.mapValues f).get? key = (t.get? key).map (f key) := by
  show (t.entries.map fun e => (e.1, f e.1 e.2)).lookup key = (t.entries.lookup key).map (f key)
  induction t.entries with
  | nil =>
      rfl
  | cons e rest ih =>
      obtain ⟨k, v⟩ := e
      by_cases h : k = key
      · subst h
        rw [List.map_cons, List.lookup_cons_self, List.lookup_cons_self, Option.map_some]
      · rw [List.map_cons, Entries.lookup_cons_of_ne h, Entries.lookup_cons_of_ne h, ih]

theorem keys_insert (t : Table α) (key : String) (value : α) :
    (t.insert key value).keys = if key ∈ t.keys then t.keys else t.keys ++ [key] :=
  Entries.map_fst_write key value t.entries

@[simp] theorem keys_filterKeys (keep : String -> Bool) (t : Table α) :
    (t.filterKeys keep).keys = t.keys.filter keep := by
  rw [keys, keys, List.filter_map]
  rfl

theorem keys_erase (t : Table α) (key : String) :
    (t.erase key).keys = t.keys.filter fun k => decide (k ≠ key) :=
  keys_filterKeys _ t

@[simp] theorem keys_mapValues (f : String -> α -> β) (t : Table α) :
    (t.mapValues f).keys = t.keys := by
  simp [mapValues, keys]

theorem mem_keys_iff (t : Table α) (key : String) :
    key ∈ t.keys <-> exists value, t.get? key = some value := by
  rw [<- Option.isSome_iff_exists, get?, List.lookup_isSome_iff, keys, List.mem_map]
  refine exists_congr fun e => and_congr_right fun _ => ?_
  rw [beq_iff_eq, eq_comm]

end Table
end Joinery
