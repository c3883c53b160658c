import Joinery.Table

/-!
# Tables with rewritten values

## The same keys with other values

Writing under keys that are there changes values and nothing else.  Such writes, however
many, are one rewriting of the table, value by value.
-/

namespace Joinery

namespace Entries

variable {κ α : Type} [DecidableEq κ] {key : κ} {entries : List (κ × α)}

theorem write_of_mem (hdistinct : (entries.map (·.1)).Nodup)
    (hkey : key ∈ entries.map (·.1)) (value : α) :
    write key value entries = entries.map fun e => (e.1, if e.1 = key then value else e.2) := by
  induction entries with
  | nil =>
      cases hkey
  | cons entry rest ih =>
      obtain ⟨hnew, hrest⟩ := List.nodup_cons.mp hdistinct
      by_cases h : entry.1 = key
      · have hsame : rest.map (fun e => (e.1, if e.1 = key then value else e.2)) = rest := by
          refine (List.map_congr_left ?_).trans (List.map_id _)
          intro e he
          have hne : ¬e.1 = key := by
            intro heq
            exact hnew (List.mem_map.mpr ⟨e, he, heq.trans h.symm⟩)
          simp [hne]
        rw [write, if_pos h, List.map_cons, if_pos h, hsame]
      · have hin : key ∈ rest.map (·.1) := by
          rcases List.mem_cons.mp hkey with heq | hin
          · exact absurd heq.symm h
          · exact hin
        rw [write, if_neg h, List.map_cons, if_neg h, ih hrest hin]

theorem write_of_not_mem (h : key ∉ entries.map (·.1)) (value : α) :
    write key value entries = entries ++ [(key, value)] := by
  induction entries with
  | nil =>
      rfl
  | cons entry rest ih =>
      rw [List.map_cons, List.mem_cons, not_or] at h
      have hne : ¬entry.1 = key := fun heq => h.1 heq.symm
      rw [write, if_neg hne, ih h.2, List.cons_append]

end Entries

namespace Table

variable {α β γ : Type}

theorem contains_iff_mem_keys (t : Table α) (key : String) :
    t.contains key = true <-> key ∈ t.keys := by
  rw [mem_keys_iff, <- Option.isSome_iff_exists]
  rfl

@[simp] theorem contains_mapValues (f : String -> α -> β) (t : Table α) :
    (t.mapValues f).contains = t.contains := by
  funext key
  unfold contains
  rw [get?_mapValues, Option.isSome_map]

@[simp] theorem mapValues_mapValues (f : String -> α -> β) (g : String -> β -> γ) (t : Table α) :
    (t.mapValues f).mapValues g = t.mapValues fun key value => g key (f key value) := by
  apply ext
  simp [mapValues]

theorem mem_of_get? {t : Table α} {key : String} {value : α} (h : t.get? key = some value) :
    (key, value) ∈ t.entries := by
  obtain ⟨before, after, hentries, -⟩ := List.lookup_eq_some_iff.mp h
  rw [hentries]
  exact List.mem_append_right _ (List.mem_cons_self ..)

theorem get?_of_mem {t : Table α} {key : String} {value : α} (h : (key, value) ∈ t.entries) :
    t.get? key = some value := by
  obtain ⟨before, after, hentries⟩ := List.append_of_mem h
  have hdistinct := t.distinct
  rw [hentries, List.map_append] at hdistinct
  refine List.lookup_eq_some_iff.mpr ⟨before, after, hentries, fun e he => ?_⟩
  have hne : e.1 ≠ key :=
    (List.nodup_append.mp hdistinct).2.2 _ (List.mem_map_of_mem he) _ (List.mem_cons_self ..)
  simpa using hne.symm

theorem mapValues_congr {f g : String -> α -> β} {t : Table α}
    (h : forall key value, t.get? key = some value -> f key value = g key value) :
    t.mapValues f = t.mapValues g := by
  apply ext
  refine List.map_congr_left ?_
  rintro ⟨key, value⟩ hmem
  rw [h key value (get?_of_mem hmem)]

@[simp] theorem mapValues_id (t : Table α) : (t.mapValues fun _ value => value) = t := by
  apply ext
  simp [mapValues]

theorem insert_eq_mapValues {t : Table α} {key : String} (hkey : key ∈ t.keys) (value : α) :
    t.insert key value = t.mapValues fun k old => if k = key then value else old :=
  ext (Entries.write_of_mem t.distinct hkey value)

/-!
# Writing a table anew
-/

theorem entries_insert_of_not_mem {t : Table α} {key : String} (h : key ∉ t.keys) (value : α) :
    (t.insert key value).entries = t.entries ++ [(key, value)] :=
  Entries.write_of_not_mem h value

theorem entries_foldl_insert {entries : List (String × α)} {t : Table α}
    (h : (t.keys ++ entries.map (·.1)).Nodup) :
    (entries.foldl (fun t entry => t.insert entry.1 entry.2) t).entries =
      t.entries ++ entries := by
  induction entries generalizing t with
  | nil =>
      rw [List.append_nil]
      rfl
  | cons entry rest ih =>
      have hnew : entry.1 ∉ t.keys := by
        intro hmem
        exact (List.nodup_append.mp h).2.2 _ hmem _ (List.mem_cons_self ..) rfl
      have hkeys : (t.insert entry.1 entry.2).keys = t.keys ++ [entry.1] := by
        rw [keys_insert, if_neg hnew]
      rw [List.foldl_cons, ih (by simpa [hkeys] using h), entries_insert_of_not_mem hnew,
        List.append_assoc, List.singleton_append]

theorem entries_ofList {entries : List (String × α)} (h : (entries.map (·.1)).Nodup) :
    (ofList entries).entries = entries :=
  entries_foldl_insert (t := empty) h

theorem mem_keys_foldl_insert_iff {key : String} (entries : List (String × α)) (t : Table α) :
    key ∈ (entries.foldl (fun t entry => t.insert entry.1 entry.2) t).keys <->
      key ∈ t.keys ∨ exists entry, entry ∈ entries ∧ entry.1 = key := by
  induction entries generalizing t with
  | nil =>
      simp
  | cons entry rest ih =>
      have hinsert : key ∈ (t.insert entry.1 entry.2).keys <-> key ∈ t.keys ∨ entry.1 = key := by
        rw [keys_insert]
        split
        · next hmem =>
            constructor
            · exact Or.inl
            · rintro (hkey | rfl)
              · exact hkey
              · exact hmem
        · rw [List.mem_append, List.mem_singleton, eq_comm]
      rw [List.foldl_cons, ih, hinsert, or_assoc]
      simp only [List.mem_cons, or_and_right, exists_or, exists_eq_left]

theorem mem_keys_ofList_iff {key : String} (entries : List (String × α)) :
    key ∈ (ofList entries).keys <-> exists entry, entry ∈ entries ∧ entry.1 = key := by
  unfold ofList
  rw [mem_keys_foldl_insert_iff]
  simp [keys, empty]

end Table
end Joinery
