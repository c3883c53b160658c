import Joinery.Dependencies
import Joinery.Proofs.Sorting
import Joinery.Proofs.Validation.StarExports

/-!
# The packages of a project

## A list that is sorted and complete

The packages of some files are the roots of their external sources, all of them and
nothing else.  They are listed in strict order, so that none is named twice.
-/

namespace Joinery

/-- The list of the packages that some files take from outside. -/
structure ListsPackages (resolver : Resolver) (files : Table String) (packages : List String) :
    Prop where
  sorted : packages.Pairwise (· < ·)
  complete : forall root, root ∈ packages <->
    root ≠ "" ∧ exists path text source, (path, text) ∈ files.entries ∧
      resolver.isSourceFile path = true ∧
      source ∈ Dependencies.sourcesOf (SourceModule.scan path text) ∧
      resolver.isExternal source = true ∧ Resolver.packageRoot source = root

namespace Dependencies

variable {resolver : Resolver} {modules : ModuleTable} {files : Table String}

theorem packageOf?_eq_some_iff {source root : String} :
    packageOf? resolver source = some root <->
      root ≠ "" ∧ resolver.isExternal source = true ∧ Resolver.packageRoot source = root := by
  unfold packageOf?
  cases resolver.isExternal source with
  | false =>
      simp
  | true =>
      by_cases hempty : Resolver.packageRoot source = ""
      · simp only [if_true, String.isEmpty_iff, hempty]
        constructor
        · intro h
          cases h
        · rintro ⟨hne, _, rfl⟩
          exact absurd rfl hne
      · simp only [if_true, String.isEmpty_iff, hempty, if_false, Option.some.injEq, true_and]
        constructor
        · rintro rfl
          exact ⟨hempty, rfl⟩
        · exact And.right

theorem mem_packages_iff {root : String} :
    root ∈ packages resolver modules <->
      exists entry source, entry ∈ modules.entries ∧ source ∈ sourcesOf entry.2 ∧
        packageOf? resolver source = some root := by
  unfold packages
  rw [mem_sortBy_iff, List.mem_eraseDups, List.mem_filterMap]
  constructor
  · rintro ⟨source, hsource, hroot⟩
    obtain ⟨entry, hentry, hsource⟩ := List.mem_flatMap.mp hsource
    exact ⟨entry, source, hentry, hsource, hroot⟩
  · rintro ⟨entry, source, hentry, hsource, hroot⟩
    exact ⟨source, List.mem_flatMap.mpr ⟨entry, hentry, hsource⟩, hroot⟩

theorem pairwise_packages (resolver : Resolver) (modules : ModuleTable) :
    (packages resolver modules).Pairwise (· < ·) := by
  unfold packages
  refine sortBy_strict id ?_
  rw [List.map_id]
  exact nodup_eraseDups _

theorem mem_scanAll_iff {entry : String × SourceModule} :
    entry ∈ (scanAll resolver files).entries <->
      exists path text, (path, text) ∈ files.entries ∧ resolver.isSourceFile path = true ∧
        (path, SourceModule.scan path text) = entry := by
  refine List.mem_map.trans ?_
  constructor
  · rintro ⟨⟨path, text⟩, hfile, hentry⟩
    obtain ⟨hfile, hsource⟩ := List.mem_filter.mp hfile
    exact ⟨path, text, hfile, hsource, hentry⟩
  · rintro ⟨path, text, hfile, hsource, hentry⟩
    exact ⟨(path, text), List.mem_filter.mpr ⟨hfile, hsource⟩, hentry⟩

theorem listsPackages_packages (resolver : Resolver) (files : Table String) :
    ListsPackages resolver files (packages resolver (scanAll resolver files)) := by
  refine ⟨pairwise_packages _ _, ?_⟩
  intro root
  rw [mem_packages_iff]
  constructor
  · rintro ⟨entry, source, hentry, hsource, hroot⟩
    obtain ⟨path, text, hfile, hpath, rfl⟩ := mem_scanAll_iff.mp hentry
    obtain ⟨hne, hexternal, hroot⟩ := packageOf?_eq_some_iff.mp hroot
    exact ⟨hne, path, text, source, hfile, hpath, hsource, hexternal, hroot⟩
  · rintro ⟨hne, path, text, source, hfile, hpath, hsource, hexternal, hroot⟩
    exact ⟨_, source, mem_scanAll_iff.mpr ⟨path, text, hfile, hpath, rfl⟩, hsource,
      packageOf?_eq_some_iff.mpr ⟨hne, hexternal, hroot⟩⟩

end Dependencies
end Joinery
