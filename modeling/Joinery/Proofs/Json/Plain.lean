import Joinery.Json.Printer
import Joinery.Proofs.Json.Values
import Joinery.Proofs.Sorting
import Mathlib.Data.List.Induction
import Mathlib.Data.List.Nodup

/-!
# Plain values

## What JSON can keep

A plain value is made of truth values, integers of 64 bits, numbers, texts, lists and mappings
with distinct texts as keys.  Its mappings are settled, and it stays plain when its keys are put
in order; what stands under a key is told by the entries alone.
-/

namespace Joinery

namespace Json

/-!
# Keys in order
-/

theorem sortKeysOfAll_eq (items : List Value) : sortKeysOfAll items = items.map sortKeys := by
  induction items with
  | nil =>
      rfl
  | cons v items ih =>
      rw [sortKeysOfAll, ih]
      rfl

theorem sortKeysOfEntries_eq (entries : List (Value × Value)) :
    sortKeysOfEntries entries = entries.map fun e => (e.1, sortKeys e.2) := by
  induction entries with
  | nil =>
      rfl
  | cons e entries ih =>
      rw [sortKeysOfEntries, ih]
      rfl

def keyLe (a b : Value × Value) : Bool :=
  decide (keyText a.1 ≤ keyText b.1)

theorem sortKeys_list (items : List Value) :
    sortKeys (.list items) = .list (items.map sortKeys) := by
  rw [sortKeys, sortKeysOfAll_eq]

theorem sortKeys_mapping (entries : List (Value × Value)) :
    sortKeys (.mapping entries) =
      .mapping (sortBy keyLe (entries.map fun e => (e.1, sortKeys e.2))) := by
  rw [sortKeys, sortKeysOfEntries_eq]
  rfl

/-!
# Values that are kept
-/

/-- A number is written so that it is read back. -/
def ReadsBack (wide : WideIntegers) (x : Binary64) : Prop :=
  number wide (x.write numberStyle).toList = some (.real x, [])

def isReal (x : Binary64) : Option (Value × List Char) -> Bool
  | some (.real y, []) => decide (y = x)
  | _ => false

theorem isReal_iff {x : Binary64} {read : Option (Value × List Char)} :
    isReal x read = true <-> read = some (.real x, []) := by
  constructor
  · intro h
    unfold isReal at h
    split at h
    · rw [of_decide_eq_true h]
    · cases h
  · rintro rfl
    exact decide_eq_true rfl

instance (wide : WideIntegers) (x : Binary64) : Decidable (ReadsBack wide x) :=
  decidable_of_iff _ isReal_iff

/--
A value of plain JSON, nested at most so many times.  Its keys are texts and distinct, its
integers fit into 64 bits, and its numbers are read back.
-/
inductive IsPlain (wide : WideIntegers) : Nat -> Value -> Prop where
  | null {n : Nat} : IsPlain wide n .null
  | bool {n : Nat} (value : Bool) : IsPlain wide n (.bool value)
  | int {n : Nat} {i : Int} (hfits : Numeral.fits i = true) : IsPlain wide n (.int i)
  | real {n : Nat} {x : Binary64} (hreads : ReadsBack wide x) : IsPlain wide n (.real x)
  | text {n : Nat} (s : String) : IsPlain wide n (.text s)
  | list {n : Nat} {items : List Value} (hitems : forall v, v ∈ items -> IsPlain wide n v) :
      IsPlain wide (n + 1) (.list items)
  | mapping {n : Nat} {entries : List (Value × Value)}
      (hkeys : forall e, e ∈ entries -> exists key, e.1 = .text key)
      (hdistinct : (entries.map Prod.fst).Nodup)
      (hvalues : forall e, e ∈ entries -> IsPlain wide n e.2) :
      IsPlain wide (n + 1) (.mapping entries)

namespace IsPlain

variable {wide : WideIntegers} {n : Nat} {v : Value}

/-!
# Plain values are read as they are written
-/

theorem haveTextKeys_iff (items : List Value) :
    haveTextKeys items = true <-> forall v, v ∈ items -> hasTextKeys v = true := by
  induction items with
  | nil =>
      simp [haveTextKeys]
  | cons v items ih =>
      simp [haveTextKeys, ih]

theorem haveTextKeysInside_of_forall {entries : List (Value × Value)}
    (hkeys : forall e, e ∈ entries -> exists key, e.1 = .text key)
    (hvalues : forall e, e ∈ entries -> hasTextKeys e.2 = true) :
    haveTextKeysInside entries = true := by
  induction entries with
  | nil =>
      rfl
  | cons e entries ih =>
      obtain ⟨k, v⟩ := e
      obtain ⟨key, rfl⟩ := hkeys (k, v) List.mem_cons_self
      rw [haveTextKeysInside, hvalues _ List.mem_cons_self, Bool.true_and]
      exact ih (fun f hf => hkeys f (List.mem_cons_of_mem _ hf))
        fun f hf => hvalues f (List.mem_cons_of_mem _ hf)

theorem hasTextKeys (h : IsPlain wide n v) : hasTextKeys v = true := by
  induction h with
  | list hitems ih =>
      exact (haveTextKeys_iff _).mpr ih
  | mapping hkeys hdistinct hvalues ih =>
      exact haveTextKeysInside_of_forall hkeys ih
  | _ =>
      rfl

theorem depthOfItems_le {items : List Value} {bound : Nat}
    (h : forall v, v ∈ items -> depth v ≤ bound) : depthOfItems items ≤ bound := by
  induction items with
  | nil =>
      exact Nat.zero_le _
  | cons v items ih =>
      rw [depthOfItems]
      exact Nat.max_le.mpr
        ⟨h v List.mem_cons_self, ih fun w hw => h w (List.mem_cons_of_mem _ hw)⟩

theorem depthOfEntries_le {entries : List (Value × Value)} {bound : Nat}
    (h : forall e, e ∈ entries -> depth e.2 ≤ bound) : depthOfEntries entries ≤ bound := by
  induction entries with
  | nil =>
      exact Nat.zero_le _
  | cons e entries ih =>
      rw [depthOfEntries]
      exact Nat.max_le.mpr
        ⟨h e List.mem_cons_self, ih fun f hf => h f (List.mem_cons_of_mem _ hf)⟩

theorem depth_le (h : IsPlain wide n v) : depth v ≤ n := by
  induction h with
  | list hitems ih =>
      exact Nat.succ_le_succ (depthOfItems_le ih)
  | mapping hkeys hdistinct hvalues ih =>
      exact Nat.succ_le_succ (depthOfEntries_le ih)
  | _ =>
      exact Nat.zero_le _

theorem settledItems_eq {items : List Value} (h : forall v, v ∈ items -> settled v = v) :
    settledItems items = items := by
  induction items with
  | nil =>
      rfl
  | cons v items ih =>
      rw [settledItems, h v List.mem_cons_self, ih fun w hw => h w (List.mem_cons_of_mem _ hw)]

theorem settledEntries_eq {entries : List (Value × Value)}
    (h : forall e, e ∈ entries -> settled e.2 = e.2) : settledEntries entries = entries := by
  induction entries with
  | nil =>
      rfl
  | cons e entries ih =>
      rw [settledEntries, h e List.mem_cons_self, ih fun f hf => h f (List.mem_cons_of_mem _ hf)]

theorem setEntry_new {key : String} {known : List (Value × Value)}
    (h : .text key ∉ known.map Prod.fst) (value : Value) :
    setEntry key value known = known ++ [(.text key, value)] := by
  induction known with
  | nil =>
      rfl
  | cons e known ih =>
      obtain ⟨k, v⟩ := e
      have hrest := ih fun hmem => h (List.mem_cons_of_mem _ hmem)
      cases k with
      | text other =>
          have hne : other ≠ key := by
            rintro rfl
            exact h List.mem_cons_self
          rw [setEntry, if_neg hne, hrest]
          rfl
      | _ =>
          exact congrArg ((_, v) :: ·) hrest

theorem entriesInOrder_eq {entries : List (Value × Value)}
    (hkeys : forall e, e ∈ entries -> exists key, e.1 = .text key)
    (hdistinct : (entries.map Prod.fst).Nodup) : entriesInOrder entries = entries := by
  induction entries using List.reverseRecOn with
  | nil =>
      rfl
  | append_singleton entries e ih =>
      obtain ⟨k, v⟩ := e
      obtain ⟨key, rfl⟩ := hkeys (k, v) (by simp)
      rw [List.map_append, List.nodup_append] at hdistinct
      obtain ⟨hfront, _, hapart⟩ := hdistinct
      have hsame := ih (fun f hf => hkeys f (List.mem_append_left _ hf)) hfront
      have hnew : .text key ∉ entries.map Prod.fst := fun hmem =>
        hapart _ hmem (.text key) (by simp) rfl
      rw [entriesInOrder] at hsame ⊢
      rw [List.foldl_append, hsame]
      exact setEntry_new hnew v

theorem settled_eq (h : IsPlain wide n v) : settled v = v := by
  induction h with
  | list hitems ih =>
      rw [settled, settledItems_eq ih]
  | mapping hkeys hdistinct hvalues ih =>
      rw [settled, settledEntries_eq ih, entriesInOrder_eq hkeys hdistinct]
  | _ =>
      simp [settled]

/-!
# Plain values can be written
-/

theorem areWritable_of_forall {items : List Value}
    (h : forall v, v ∈ items -> isWritable v = true) : areWritable items = true := by
  induction items with
  | nil =>
      rfl
  | cons v items ih =>
      rw [areWritable, h v List.mem_cons_self, ih fun w hw => h w (List.mem_cons_of_mem _ hw)]
      rfl

theorem areWritableEntries_of_forall {entries : List (Value × Value)}
    (h : forall e, e ∈ entries -> isWritable e.2 = true) :
    areWritableEntries entries = true := by
  induction entries with
  | nil =>
      rfl
  | cons e entries ih =>
      rw [areWritableEntries, h e List.mem_cons_self,
        ih fun f hf => h f (List.mem_cons_of_mem _ hf)]
      rfl

theorem isWritable (h : IsPlain wide n v) : isWritable v = true := by
  induction h with
  | int hfits =>
      exact hfits
  | list hitems ih =>
      exact areWritable_of_forall ih
  | mapping hkeys hdistinct hvalues ih =>
      exact areWritableEntries_of_forall ih
  | _ =>
      rfl

theorem sorted (h : IsPlain wide n v) : IsPlain wide n (sortKeys v) := by
  induction h with
  | list hitems ih =>
      rw [sortKeys_list]
      refine .list fun w hw => ?_
      obtain ⟨v, hv, rfl⟩ := List.mem_map.mp hw
      exact ih v hv
  | mapping hkeys hdistinct hvalues ih =>
      rename_i entries
      have hperm := sortBy_perm keyLe (entries.map fun e => (e.1, sortKeys e.2))
      have hfrom : forall e, e ∈ sortBy keyLe (entries.map fun e => (e.1, sortKeys e.2)) ->
          exists f, f ∈ entries ∧ (f.1, sortKeys f.2) = e := fun e he =>
        List.mem_map.mp (hperm.mem_iff.mp he)
      rw [sortKeys_mapping]
      refine .mapping ?_ ?_ ?_
      · intro e he
        obtain ⟨f, hf, rfl⟩ := hfrom e he
        exact hkeys f hf
      · refine (hperm.map Prod.fst).nodup_iff.mpr ?_
        rw [List.map_map]
        exact hdistinct
      · intro e he
        obtain ⟨f, hf, rfl⟩ := hfrom e he
        exact ih f hf
  | null =>
      exact .null
  | bool value =>
      exact .bool value
  | int hfits =>
      exact .int hfits
  | real hreads =>
      exact .real hreads
  | text s =>
      exact .text s

end IsPlain

/-!
# What stands under a key
-/

@[simp] theorem entry?_cons_self (key : String) (v : Value) (entries : List (Value × Value)) :
    Value.entry? key ((.text key, v) :: entries) = some v :=
  if_pos rfl

@[simp] theorem entry?_cons_other {key : String} {e : Value × Value} (h : e.1 ≠ .text key)
    (entries : List (Value × Value)) :
    Value.entry? key (e :: entries) = Value.entry? key entries := by
  obtain ⟨k, v⟩ := e
  cases k with
  | text other =>
      refine if_neg ?_
      rintro rfl
      exact h rfl
  | _ =>
      rfl

theorem entry?_eq_some_iff {entries : List (Value × Value)}
    (hdistinct : (entries.map Prod.fst).Nodup) {key : String} {v : Value} :
    Value.entry? key entries = some v <-> (.text key, v) ∈ entries := by
  induction entries with
  | nil =>
      simp [Value.entry?]
  | cons e entries ih =>
      obtain ⟨hnew, hrest⟩ := List.nodup_cons.mp hdistinct
      by_cases hkey : e.1 = .text key
      · obtain ⟨k, w⟩ := e
        cases hkey
        rw [entry?_cons_self, List.mem_cons]
        constructor
        · rintro ⟨⟩
          exact Or.inl rfl
        · rintro (heq | hmem)
          · rw [(Prod.mk.inj heq).2]
          · exact absurd (List.mem_map_of_mem hmem) hnew
      · rw [entry?_cons_other hkey, ih hrest, List.mem_cons]
        constructor
        · exact Or.inr
        · rintro (heq | hmem)
          · exact absurd (congrArg Prod.fst heq).symm hkey
          · exact hmem

end Json
end Joinery
