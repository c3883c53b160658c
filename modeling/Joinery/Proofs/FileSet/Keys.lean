import Joinery.Proofs.FileSet.Reachable
import Joinery.Proofs.FileSet.Stable
import Joinery.Proofs.Path.Canonical

/-!
# Keys of a file set

## Finding a file under its own key

The key of a file is the canonical form of the path that it was written under.  When
the key is given as a path again, its file is found, and is taken out by a deletion, as
long as the key does not start with a blank or with `./`.  A key that does is taken for
the spelling of another key.
-/

namespace Joinery

def WorkOrder.deletion (id path : String) : WorkOrder :=
  { id := id, files := [{ path := path, action := .delete }] }

namespace FileSet

variable {s : FileSet}

theorem Reachable.applyFrom (hs : s.Reachable) (counts : Counts) (orders : List WorkOrder) :
    (s.applyFrom counts orders).result.Reachable := by
  induction orders generalizing s counts with
  | nil =>
      exact hs
  | cons order rest ih =>
      rw [FileSet.applyFrom]
      cases happly : s.apply order with
      | error e =>
          exact hs
      | ok applied =>
          exact ih (.apply hs happly) (counts.add applied.2)

theorem Reachable.applyAll (hs : s.Reachable) (orders : List WorkOrder) :
    (s.applyAll orders).result.Reachable :=
  hs.applyFrom {} orders

theorem reachable_of_canonical {files : Table String}
    (hcanonical : forall key, key ∈ files.keys -> Path.canonical key = key ∧ key ≠ "") :
    { files := files : FileSet }.Reachable :=
  .seed (seed_entries (fun key hkey => (hcanonical key hkey).1)
    fun key hkey => (hcanonical key hkey).2)

theorem Reachable.holds_canonical (hs : s.Reachable) :
    Table.Holds (fun key _ => exists path, Path.canonical path = key) s.files := by
  induction hs with
  | seed h =>
      exact holds_seed h fun entry _ _ => ⟨entry.1, rfl⟩
  | apply _ h ih =>
      obtain ⟨_, hfiles, _⟩ := apply_files h
      rw [hfiles]
      refine holds_applyOperations ih ?_
      intro op _ _
      exact ⟨op.path, rfl⟩
  | removePlurals _ extensions ih =>
      exact ih.eraseAll _

theorem Reachable.isKey (hs : s.Reachable) {key text : String}
    (hkey : s.files.get? key = some text) : Path.IsKey key.toList := by
  obtain ⟨path, rfl⟩ := hs.holds_canonical key text hkey
  exact Path.isKey_canonical path

theorem apply_deletion {path : String} (hpath : Path.canonical path ≠ "") (id : String) :
    s.apply (.deletion id path) =
      .ok
        ({ s with
            files := s.files.erase (Path.canonical path)
            counts := s.counts.add { deleted := 1 } },
          { deleted := 1 }) := by
  have hvalid : (WorkOrder.deletion id path).IsValid s.strict := by
    refine ⟨List.cons_ne_nil _ _, ?_⟩
    intro op hop
    cases List.mem_singleton.mp hop
    exact ⟨hpath, fun hdelete => absurd rfl hdelete⟩
  rw [apply_eq hvalid]
  rfl

theorem apply_deletion_of_empty {path : String} (hpath : Path.canonical path = "") (id : String) :
    s.apply (.deletion id path) = .error (.order id .emptyPath) := by
  unfold apply orderFault WorkOrder.deletion
  simp [faultOf, hpath]

theorem removes_iff {key : String} (hkey : key ∈ s.paths) (hne : key ≠ "") (id : String) :
    (exists next counts, s.apply (.deletion id key) = .ok (next, counts) ∧ key ∉ next.paths) <->
      Path.canonical key = key := by
  have hkeys : (s.files.erase (Path.canonical key)).keys =
      s.files.keys.filter fun k => decide (k ≠ Path.canonical key) := Table.keys_erase _ _
  constructor
  · rintro ⟨next, counts, happly, hgone⟩
    by_cases hempty : Path.canonical key = ""
    · rw [apply_deletion_of_empty hempty] at happly
      cases happly
    · rw [apply_deletion hempty] at happly
      cases happly
      by_contra hother
      refine hgone ?_
      show key ∈ (s.files.erase (Path.canonical key)).keys
      rw [hkeys]
      exact List.mem_filter.mpr ⟨hkey, decide_eq_true fun heq => hother heq.symm⟩
  · intro hsame
    have hempty : Path.canonical key ≠ "" := hsame.symm ▸ hne
    refine ⟨_, _, apply_deletion hempty id, ?_⟩
    show key ∉ (s.files.erase (Path.canonical key)).keys
    rw [hkeys, hsame]
    intro hmem
    exact of_decide_eq_true (List.mem_filter.mp hmem).2 rfl

/--
Every key of a file set is non-empty.  It is its own key, so that its file is found and taken out
under it, exactly if it starts neither with a blank nor with `./`.
-/
theorem Reachable.found_iff (hs : s.Reachable) {key text : String}
    (hkey : s.files.get? key = some text) :
    key ≠ "" ∧
      (Path.canonical key = key <-> Path.startsLoose key.toList = false) ∧
      (Path.canonical key = key -> s.contains key = true ∧ s.get? key = some text) ∧
      forall id,
        (exists next counts,
            s.apply (.deletion id key) = .ok (next, counts) ∧ key ∉ next.paths) <->
          Path.canonical key = key := by
  have hne : key ≠ "" := hs.holds key text hkey
  refine ⟨hne, Path.canonical_eq_self_iff (hs.isKey hkey), ?_, ?_⟩
  · intro hsame
    have hget : s.get? key = some text := by
      unfold get?
      rw [hsame, hkey]
    refine ⟨?_, hget⟩
    show (s.get? key).isSome = true
    rw [hget]
    rfl
  · exact removes_iff ((Table.mem_keys_iff s.files key).mpr ⟨text, hkey⟩) hne

/-- A path with a backslash and two slashes together is found under its key. -/
theorem found_iff_spelling :
    let s : FileSet := { files := { entries := [("src/a.ts", "x"), ("./src/b.ts", "y")] } }
    s.Reachable ∧ s.files.get? "src/a.ts" = some "x" ∧ "src/a.ts" ≠ "" ∧
      (Path.canonical "src/a.ts" = "src/a.ts" <-> Path.startsLoose "src/a.ts".toList = false) ∧
      (Path.canonical "src/a.ts" = "src/a.ts" ->
        s.contains "src/a.ts" = true ∧ s.get? "src/a.ts" = some "x") ∧
      forall id,
        (exists next counts,
            s.apply (.deletion id "src/a.ts") = .ok (next, counts) ∧ "src/a.ts" ∉ next.paths) <->
          Path.canonical "src/a.ts" = "src/a.ts" := by
  intro s
  have hseed : seed true [(".\\src//a.ts", some "x"), ("/./src/b.ts", some "y")] = .ok s := by
    rw [seed_eq (by decide +kernel)]
    refine congrArg Except.ok ?_
    decide +kernel
  have hkey : s.files.get? "src/a.ts" = some "x" := by decide +kernel
  have hs : s.Reachable := .seed hseed
  exact ⟨hs, hkey, hs.found_iff hkey⟩

/-- The slash before `./` hides it, and the file is neither found nor taken out under its key. -/
theorem loose_key_not_found :
    let s : FileSet := { files := { entries := [("./src/a.ts", "x")] } }
    seed true [("/./src/a.ts", some "x")] = .ok s ∧ s.paths = ["./src/a.ts"] ∧
      Path.canonical "./src/a.ts" = "src/a.ts" ∧ s.contains "./src/a.ts" = false ∧
      s.get? "./src/a.ts" = none ∧
      s.apply (.deletion "w" "./src/a.ts") =
        .ok ({ s with counts := { deleted := 1 } }, { deleted := 1 }) := by
  intro s
  refine ⟨?_, by decide +kernel, by decide +kernel, by decide +kernel, by decide +kernel, ?_⟩
  · rw [seed_eq (by decide +kernel)]
    refine congrArg Except.ok ?_
    decide +kernel
  · rw [apply_deletion (by decide +kernel)]
    refine congrArg Except.ok ?_
    decide +kernel

end FileSet
end Joinery
