import Joinery.FileSet.Plurals
import Joinery.Proofs.FileSet.History
import Joinery.Proofs.Sorting
import Joinery.Proofs.Table

/-!
# File sets that stay as they are

## Reading files back and removing plural duplicates again

The files of a file set can be handed over as existing files again: under keys in
canonical form they come back in the same order.  Nothing is left to remove once the
plural duplicates are gone.
-/

namespace Joinery
namespace FileSet

theorem seed_entries {strict : Bool} {files : Table String}
    (hcanonical : forall key, key ∈ files.keys -> Path.canonical key = key)
    (hne : forall key, key ∈ files.keys -> key ≠ "") :
    seed strict (files.entries.map fun entry => (entry.1, some entry.2)) =
      .ok { files := files, strict := strict } := by
  have hkey : forall entry, entry ∈ files.entries -> entry.1 ∈ files.keys :=
    fun entry hentry => List.mem_map_of_mem hentry
  have hcons : forall entry, entry ∈ files.entries ->
      FileEvent.ofSeed (entry.1, some entry.2) = .write entry.1 entry.2 := by
    intro entry hentry
    show FileEvent.write (Path.canonical entry.1) entry.2 = _
    rw [hcanonical _ (hkey entry hentry)]
  rw [seed_eq]
  · have hreplay : FileEvent.replay
        ((files.entries.map fun entry => (entry.1, some entry.2)).map FileEvent.ofSeed) =
          files := by
      rw [List.map_map]
      show ((files.entries.map fun entry => FileEvent.ofSeed (entry.1, some entry.2)).foldl
        FileEvent.apply Table.empty) = files
      rw [List.map_congr_left hcons, List.foldl_map]
      exact Table.ext (Table.entries_ofList files.distinct)
    rw [hreplay]
  · intro entry hentry
    obtain ⟨file, hfile, rfl⟩ := List.mem_map.mp hentry
    show Path.canonical file.1 ≠ ""
    rw [hcanonical _ (hkey file hfile)]
    exact hne _ (hkey file hfile)

/-!
# Plural duplicates
-/

theorem mem_pluralDuplicates_iff {extensions paths : List String} {path : String} :
    path ∈ pluralDuplicates extensions paths <->
      path ∈ paths ∧ hasSourceName extensions path = true ∧
        exists single other, singular? (directoryAndStem path).2 = some single ∧ other ∈ paths ∧
          hasSourceName extensions other = true ∧
          directoryAndStem other = ((directoryAndStem path).1, single) := by
  unfold pluralDuplicates
  simp only [List.mem_filter, mem_sortBy_iff, and_assoc]
  refine and_congr_right fun _ => and_congr_right fun _ => ?_
  cases singular? (directoryAndStem path).2 with
  | none =>
      simp
  | some single =>
      simp only [List.contains_eq_mem, decide_eq_true_eq, List.mem_map, List.mem_filter]
      constructor
      · rintro ⟨other, ⟨hother, hsource⟩, heq⟩
        exact ⟨single, other, rfl, hother, hsource, heq⟩
      · rintro ⟨_, other, heq, hother, hsource, hstem⟩
        cases heq
        exact ⟨other, ⟨hother, hsource⟩, hstem⟩

theorem eraseAll_eq (keys : List String) (files : Table String) :
    keys.foldl (fun files key => files.erase key) files =
      files.filterKeys fun key => decide (key ∉ keys) := by
  induction keys generalizing files with
  | nil =>
      exact Table.ext (List.filter_eq_self.mpr fun _ _ => rfl).symm
  | cons key rest ih =>
      rw [List.foldl_cons, ih]
      apply Table.ext
      simp [Table.erase, Table.filterKeys, List.filter_filter, Bool.and_comm]

@[simp] theorem keys_eraseAll (keys : List String) (files : Table String) :
    (keys.foldl (fun files key => files.erase key) files).keys =
      files.keys.filter fun key => decide (key ∉ keys) := by
  rw [eraseAll_eq, Table.keys_filterKeys]

theorem pluralDuplicates_removePlurals (s : FileSet) (extensions : List String) :
    pluralDuplicates extensions (s.removePlurals extensions).1.paths = [] := by
  have hpaths : (s.removePlurals extensions).1.paths =
      s.paths.filter fun path => decide (path ∉ pluralDuplicates extensions s.paths) :=
    keys_eraseAll _ _
  refine List.eq_nil_iff_forall_not_mem.mpr ?_
  intro path hpath
  rw [hpaths] at hpath
  obtain ⟨hmem, hsource, single, other, hsingle, hother, hothersource, hstem⟩ :=
    mem_pluralDuplicates_iff.mp hpath
  obtain ⟨hold, hkept⟩ := List.mem_filter.mp hmem
  refine of_decide_eq_true hkept (mem_pluralDuplicates_iff.mpr ?_)
  exact ⟨hold, hsource, single, other, hsingle, (List.mem_filter.mp hother).1, hothersource, hstem⟩

theorem removePlurals_of_nil {s : FileSet} {extensions : List String}
    (h : pluralDuplicates extensions s.paths = []) : s.removePlurals extensions = (s, []) := by
  unfold removePlurals
  rw [h]
  rfl

end FileSet
end Joinery
