import Joinery.FileSet.Plurals
import Joinery.Proofs.FileSet.History

/-!
# Reachable file sets

## What all file sets have in common

A file set comes from the files that a project has, and then changes by work orders and
by losing its plural duplicates.  What every write respects therefore holds of all files
of a file set; above all, no file has an empty key.
-/

namespace Joinery

def Table.Holds (allowed : String -> String -> Prop) (files : Table String) : Prop :=
  forall key text, files.get? key = some text -> allowed key text

namespace Table

variable {allowed : String -> String -> Prop} {files : Table String}

theorem holds_empty : Holds allowed Table.empty := by
  intro key text h
  simp at h

theorem Holds.insert (h : Holds allowed files) {key text : String} (hkey : allowed key text) :
    Holds allowed (files.insert key text) := by
  intro other value hvalue
  by_cases heq : key = other
  · subst heq
    obtain rfl : text = value := by simpa using hvalue
    exact hkey
  · exact h other value (by simpa [heq] using hvalue)

theorem Holds.erase (h : Holds allowed files) (key : String) : Holds allowed (files.erase key) := by
  intro other value hvalue
  by_cases heq : key = other
  · simp [heq] at hvalue
  · exact h other value (by simpa [heq] using hvalue)

theorem Holds.eraseAll (h : Holds allowed files) (keys : List String) :
    Holds allowed (keys.foldl (fun files key => files.erase key) files) := by
  induction keys generalizing files with
  | nil =>
      exact h
  | cons key rest ih =>
      exact ih (h.erase key)

end Table

def FileOperation.Respects (allowed : String -> String -> Prop) (op : FileOperation) : Prop :=
  op.action ≠ .delete -> allowed (Path.canonical op.path) (op.content.getD "")

namespace FileSet

variable {allowed : String -> String -> Prop}

theorem holds_applyOperation {files : Table String} (h : Table.Holds allowed files)
    {op : FileOperation} (hop : op.Respects allowed) :
    Table.Holds allowed (applyOperation files op) := by
  unfold applyOperation
  unfold FileOperation.Respects at hop
  cases haction : op.action with
  | create =>
      rw [haction] at hop
      exact h.insert (hop (by simp))
  | modify =>
      rw [haction] at hop
      exact h.insert (hop (by simp))
  | delete =>
      exact h.erase _

theorem holds_applyOperations {files : Table String} (h : Table.Holds allowed files)
    {ops : List FileOperation} (hops : forall op, op ∈ ops -> op.Respects allowed) :
    Table.Holds allowed (ops.foldl applyOperation files) := by
  induction ops generalizing files with
  | nil =>
      exact h
  | cons op rest ih =>
      exact ih (holds_applyOperation h (hops op (List.mem_cons_self ..)))
        fun o ho => hops o (List.mem_cons_of_mem op ho)

theorem holds_seed {strict : Bool} {existing : List (String × Option String)} {s : FileSet}
    (h : seed strict existing = .ok s)
    (hexisting : forall entry, entry ∈ existing -> Path.canonical entry.1 ≠ "" ->
      allowed (Path.canonical entry.1) (entry.2.getD "")) :
    Table.Holds allowed s.files := by
  have hfold : forall (rest : List (String × Option String)) (files after : Table String),
      Table.Holds allowed files ->
      (forall entry, entry ∈ rest -> Path.canonical entry.1 ≠ "" ->
        allowed (Path.canonical entry.1) (entry.2.getD "")) ->
      rest.foldlM (m := Except InputError)
          (fun files entry =>
            if (Path.canonical entry.1).isEmpty then .error .emptyExistingPath
            else .ok (files.insert (Path.canonical entry.1) (entry.2.getD ""))) files =
        .ok after ->
      Table.Holds allowed after := by
    intro rest
    induction rest with
    | nil =>
        intro files after hfiles _ hafter
        cases hafter
        exact hfiles
    | cons entry rest ih =>
        intro files after hfiles hrest hafter
        rw [List.foldlM_cons] at hafter
        cases hempty : (Path.canonical entry.1).isEmpty with
        | true =>
            rw [hempty] at hafter
            cases hafter
        | false =>
            rw [hempty] at hafter
            refine ih _ after (hfiles.insert (hrest entry (List.mem_cons_self ..) ?_))
              (fun e he => hrest e (List.mem_cons_of_mem entry he)) hafter
            simpa using hempty
  unfold seed at h
  dsimp only at h
  split at h
  · cases h
  · next files hfiles =>
      cases h
      exact hfold existing Table.empty files Table.holds_empty hexisting hfiles

theorem apply_files {s next : FileSet} {order : WorkOrder} {counts : Counts}
    (h : s.apply order = .ok (next, counts)) :
    order.IsValid s.strict ∧ next.files = order.files.foldl applyOperation s.files ∧
      next.strict = s.strict := by
  unfold apply at h
  split at h
  · cases h
  · next hfault =>
      cases h
      exact ⟨orderFault_eq_none_iff.mp hfault, rfl, rfl⟩

/-- The file sets that seeds, work orders and the removal of plural duplicates make. -/
inductive Reachable : FileSet -> Prop
  | seed {strict : Bool} {existing : List (String × Option String)} {s : FileSet}
      (h : seed strict existing = .ok s) : Reachable s
  | apply {s next : FileSet} {order : WorkOrder} {counts : Counts} (hs : Reachable s)
      (h : s.apply order = .ok (next, counts)) : Reachable next
  | removePlurals {s : FileSet} (hs : Reachable s) (extensions : List String) :
      Reachable (s.removePlurals extensions).1

theorem Reachable.holds {s : FileSet} (hs : Reachable s) :
    Table.Holds (fun key _ => key ≠ "") s.files := by
  induction hs with
  | seed h =>
      exact holds_seed h fun _ _ hne => hne
  | apply _ h ih =>
      obtain ⟨hvalid, hfiles, _⟩ := apply_files h
      rw [hfiles]
      refine holds_applyOperations ih ?_
      intro op hop _
      exact (hvalid.2 op hop).1
  | removePlurals _ extensions ih =>
      exact ih.eraseAll _

end FileSet
end Joinery
