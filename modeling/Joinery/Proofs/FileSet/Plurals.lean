import Joinery.Proofs.FileSet.Keys
import Joinery.Proofs.Sorting

/-!
# What the removal of plural duplicates leaves

## The singular file stays

A file is removed for the sake of another one, its singular.  The stem of a singular does not
end in `s`, so that no singular is a plural itself: what justifies a removal is never removed.
-/

namespace Joinery
namespace FileSet

variable {s : FileSet} {extensions paths : List String} {path single : String}

structure IsSource (extensions : List String) (directory stem path : String) : Prop where
  source : hasSourceName extensions path = true
  directory : Path.parentText path = directory
  stem : Path.stem (Path.fileName path) = stem

/-- The path is that of a source file beside one whose stem lacks the last `s`. -/
structure IsPluralOf (extensions paths : List String) (single path : String) : Prop where
  listed : path ∈ paths
  plural : IsSource extensions (Path.parentText path) (single ++ "s") path
  simple : single.toList.getLast? ≠ some 's'
  beside : exists other, other ∈ paths ∧ IsSource extensions (Path.parentText path) single other

theorem singular?_eq_some_iff {stem : String} :
    singular? stem = some single <->
      stem = single ++ "s" ∧ single.toList.getLast? ≠ some 's' := by
  unfold singular?
  constructor
  · intro h
    split at h
    · next rest hreverse =>
        split at h
        · cases h
        · next hlast =>
            cases h
            have hstem : stem.toList = rest.reverse ++ ['s'] := by
              rw [<- List.reverse_reverse stem.toList, hreverse, List.reverse_cons]
            refine ⟨String.toList_injective ?_, ?_⟩
            · rw [String.toList_append, String.toList_ofList, hstem]
              rfl
            · rwa [String.toList_ofList, List.getLast?_reverse]
    · cases h
  · rintro ⟨rfl, hlast⟩
    have hreverse : (single ++ "s").toList.reverse = 's' :: single.toList.reverse := by
      rw [String.toList_append, List.reverse_append]
      rfl
    rw [hreverse]
    show (if single.toList.reverse.head? = some 's' then none else
      some (String.ofList single.toList.reverse.reverse)) = some single
    rw [List.head?_reverse, if_neg hlast, List.reverse_reverse, String.ofList_toList]

theorem mem_pluralDuplicates_iff_isPluralOf :
    path ∈ pluralDuplicates extensions paths <->
      exists single, IsPluralOf extensions paths single path := by
  rw [mem_pluralDuplicates_iff]
  constructor
  · rintro ⟨hlisted, hsource, single, other, hsingle, hother, hothersource, hplace⟩
    obtain ⟨hstem, hsimple⟩ := singular?_eq_some_iff.mp hsingle
    obtain ⟨hdirectory, hname⟩ := Prod.mk.inj hplace
    exact ⟨single, hlisted, ⟨hsource, rfl, hstem⟩, hsimple, other, hother, hothersource, hdirectory,
      hname⟩
  · rintro ⟨single, hlisted, hplural, hsimple, other, hother, hsingular⟩
    exact ⟨hlisted, hplural.source, single, other,
      singular?_eq_some_iff.mpr ⟨hplural.stem, hsimple⟩, hother, hsingular.source,
      Prod.ext hsingular.directory hsingular.stem⟩

theorem IsSource.not_mem_pluralDuplicates {directory : String}
    (h : IsSource extensions directory single path) (hsimple : single.toList.getLast? ≠ some 's') :
    path ∉ pluralDuplicates extensions paths := by
  intro hmem
  obtain ⟨shorter, hplural⟩ := mem_pluralDuplicates_iff_isPluralOf.mp hmem
  refine hsimple ?_
  rw [<- h.stem, hplural.plural.stem, String.toList_append]
  exact List.getLast?_concat

theorem pairwise_pluralDuplicates (extensions : List String) (h : paths.Nodup) :
    (pluralDuplicates extensions paths).Pairwise (· < ·) := by
  refine List.Pairwise.filter _ (sortBy_strict id ?_)
  rw [List.map_id]
  exact h.filter _

theorem pluralDuplicates_of_perm (extensions : List String) {others : List String}
    (h : others.Perm paths) (hpaths : paths.Nodup) :
    pluralDuplicates extensions others = pluralDuplicates extensions paths := by
  have hsorted := pairwise_pluralDuplicates extensions hpaths
  have hsorted' := pairwise_pluralDuplicates extensions (h.nodup_iff.mpr hpaths)
  have hmem : forall path, path ∈ pluralDuplicates extensions others <->
      path ∈ pluralDuplicates extensions paths := by
    intro path
    simp only [mem_pluralDuplicates_iff, h.mem_iff]
  have hne : forall {a b : String}, a < b -> a ≠ b := by
    rintro a _ hlt rfl
    exact String.lt_irrefl a hlt
  have hperm := (List.perm_ext_iff_of_nodup (hsorted'.imp hne) (hsorted.imp hne)).mpr hmem
  exact hperm.eq_of_pairwise (fun a b _ _ hab hba => absurd hba (String.lt_asymm hab)) hsorted'
    hsorted

theorem IsPluralOf.stays (h : IsPluralOf extensions s.paths single path) :
    exists other, other ∈ (s.removePlurals extensions).1.paths ∧
      IsSource extensions (Path.parentText path) single other := by
  obtain ⟨other, hother, hsource⟩ := h.beside
  refine ⟨other, ?_, hsource⟩
  show other ∈ (List.foldl _ s.files _).keys
  rw [keys_eraseAll]
  exact List.mem_filter.mpr
    ⟨hother, decide_eq_true (hsource.not_mem_pluralDuplicates h.simple)⟩

theorem removePlurals_eq (s : FileSet) (extensions : List String) :
    let removed := pluralDuplicates extensions s.paths
    s.removePlurals extensions =
      ({ s with
          files := s.files.filterKeys fun path => decide (path ∉ removed)
          counts := { s.counts with deleted := s.counts.deleted + removed.length } },
        removed) := by
  intro removed
  unfold removePlurals
  dsimp only
  rw [eraseAll_eq]

/--
Exactly the plurals are removed, in strict order and each counted as one deletion; the singular of
each stays, and so does every other file as it is.  The order of the files does not matter, and a
second removal finds nothing.
-/
theorem removePlurals_keeps_singulars (s : FileSet) (extensions : List String) :
    let after := (s.removePlurals extensions).1
    let removed := (s.removePlurals extensions).2
    (forall path, path ∈ removed <-> exists single, IsPluralOf extensions s.paths single path) ∧
      (forall path single, IsPluralOf extensions s.paths single path ->
        exists other, other ∈ after.paths ∧
          IsSource extensions (Path.parentText path) single other) ∧
      after =
        { s with
            files := s.files.filterKeys fun path => decide (path ∉ removed)
            counts := { s.counts with deleted := s.counts.deleted + removed.length } } ∧
      removed.Pairwise (· < ·) ∧
      (forall t : FileSet, t.paths.Perm s.paths -> (t.removePlurals extensions).2 = removed) ∧
      after.removePlurals extensions = (after, []) := by
  intro after removed
  have hnodup : s.paths.Nodup := s.files.nodup_keys
  have hremoved : removed = pluralDuplicates extensions s.paths := rfl
  refine ⟨?_, ?_, ?_, ?_, ?_, ?_⟩
  · intro path
    rw [hremoved]
    exact mem_pluralDuplicates_iff_isPluralOf
  · intro path single h
    exact h.stays
  · exact congrArg Prod.fst (removePlurals_eq s extensions)
  · rw [hremoved]
    exact pairwise_pluralDuplicates extensions hnodup
  · intro t ht
    have ht' : (t.removePlurals extensions).2 = pluralDuplicates extensions t.paths := rfl
    rw [ht', hremoved]
    exact pluralDuplicates_of_perm extensions ht hnodup
  · exact removePlurals_of_nil (pluralDuplicates_removePlurals s extensions)

/-- Of three files in a chain only the middle one is a plural, and an `ss` makes none. -/
theorem removePlurals_keeps_singulars_chain :
    let s : FileSet :=
      { files :=
          { entries :=
              [("src/users.tsx", "1"), ("src/userss.ts", "2"), ("src/user.ts", "3"),
                ("users.ts", "4"), ("src/class.ts", "5"), ("src/clas.ts", "6"),
                ("src/a.b.ts", "7"), ("src/a.bs.ts", "8")] } }
    let after := (s.removePlurals [".ts", ".tsx"]).1
    (s.removePlurals [".ts", ".tsx"]).2 = ["src/a.bs.ts", "src/users.tsx"] ∧
      IsPluralOf [".ts", ".tsx"] s.paths "user" "src/users.tsx" ∧
      (exists other, other ∈ after.paths ∧ IsSource [".ts", ".tsx"] "src" "user" other) ∧
      after.paths.length = 6 ∧ after.counts = { deleted := 2 } ∧
      after.removePlurals [".ts", ".tsx"] = (after, []) := by
  intro s after
  have hremoved : (s.removePlurals [".ts", ".tsx"]).2 = ["src/a.bs.ts", "src/users.tsx"] := by
    decide +kernel
  have hdirectory : Path.parentText "src/users.tsx" = "src" := by decide +kernel
  have hplural : IsPluralOf [".ts", ".tsx"] s.paths "user" "src/users.tsx" := by
    refine ⟨by decide +kernel, ⟨?_, rfl, ?_⟩, by decide, "src/user.ts", ?_, ⟨?_, ?_, ?_⟩⟩ <;>
      decide +kernel
  obtain ⟨_, hstays, _, _, _, hagain⟩ := s.removePlurals_keeps_singulars [".ts", ".tsx"]
  have hbeside := hstays _ _ hplural
  rw [hdirectory] at hbeside
  exact ⟨hremoved, hplural, hbeside, by decide +kernel, by decide +kernel, hagain⟩

end FileSet
end Joinery
