import Joinery.Proofs.Validation.Report

/-!
# Validating rewritten files

## Rewritings that keep the links between modules

A rewriting of files may leave alone what each module imports and which modules it
passes on as a whole.  Then every import leads where it led before, and a name is newly
missing only if some module stopped exporting it.
-/

namespace Joinery

open SourceModule

/-- The rewriting changes neither what a module imports nor what it passes on as a whole. -/
structure KeepsLinks (rewrite : String -> String -> String) : Prop where
  imports : forall path text,
    (scan path (rewrite path text)).imports = (scan path text).imports
  starSources : forall path text,
    (scan path (rewrite path text)).exports.starSources = (scan path text).exports.starSources

/-- The names that a rewriting of some files takes from the exports of a file are lost there. -/
def LosesOnly (lost : String -> String -> Prop) (files : Table String)
    (rewrite : String -> String -> String) : Prop :=
  forall path text name, files.get? path = some text ->
    name ∈ (scan path text).exports.names ->
    name ∈ (scan path (rewrite path text)).exports.names ∨ lost path name

/-- A file exports what is its own, and what a star re-export leads to. -/
def ExportIndex.PassesOn (index : ExportIndex) (path other : String) : Prop :=
  other = path ∨ other ∈ ExportIndex.reachable index.starTargets (index.depth - 1) [path]

theorem ExportIndex.mem_ownNames_iff {index : ExportIndex} {path name : String} :
    name ∈ index.ownNames path <->
      exists m, index.modules.get? path = some m ∧ name ∈ m.exports.names := by
  unfold ownNames
  cases index.modules.get? path with
  | none =>
      simp
  | some m =>
      simp

theorem ExportIndex.mem_starTargets_iff {index : ExportIndex} {path target : String} :
    target ∈ index.starTargets path <->
      exists m source, index.modules.get? path = some m ∧ source ∈ m.exports.starSources ∧
        index.resolver.resolve source path index.available = some target := by
  unfold starTargets
  cases index.modules.get? path with
  | none =>
      simp
  | some m =>
      simp [List.mem_filterMap]

namespace Validator

variable {v : Validator} {files : Table String} {rewrite : String -> String -> String}

theorem get?_modules (v : Validator) (files : Table String) (path : String) :
    (v.exportIndex files).modules.get? path =
      if v.resolver.isSourceFile path then (files.get? path).map (scan path) else none :=
  get?_scanAll v.resolver files path

theorem get?_modules_mapValues (v : Validator) (files : Table String)
    (rewrite : String -> String -> String) (path : String) :
    (v.exportIndex (files.mapValues rewrite)).modules.get? path =
      if v.resolver.isSourceFile path then
        (files.get? path).map fun text => scan path (rewrite path text)
      else none := by
  rw [get?_modules, Table.get?_mapValues, Option.map_map]
  rfl

theorem available_mapValues (v : Validator) (files : Table String)
    (rewrite : String -> String -> String) :
    (v.exportIndex (files.mapValues rewrite)).available = (v.exportIndex files).available :=
  Table.contains_mapValues rewrite files

theorem starTargets_mapValues (hlinks : KeepsLinks rewrite) :
    (v.exportIndex (files.mapValues rewrite)).starTargets =
      (v.exportIndex files).starTargets := by
  funext path
  unfold ExportIndex.starTargets
  rw [get?_modules_mapValues, available_mapValues, get?_modules]
  cases v.resolver.isSourceFile path with
  | false =>
      rfl
  | true =>
      cases files.get? path with
      | none =>
          rfl
      | some text =>
          show (scan path (rewrite path text)).exports.starSources.filterMap _ =
            (scan path text).exports.starSources.filterMap _
          rw [hlinks.starSources]
          rfl

theorem ownNames_mapValues {lost : String -> String -> Prop} (hlost : LosesOnly lost files rewrite)
    {path name : String} (h : name ∈ (v.exportIndex files).ownNames path) :
    name ∈ (v.exportIndex (files.mapValues rewrite)).ownNames path ∨ lost path name := by
  unfold ExportIndex.ownNames at h ⊢
  rw [get?_modules] at h
  rw [get?_modules_mapValues]
  cases hsource : v.resolver.isSourceFile path with
  | false =>
      rw [hsource] at h
      cases h
  | true =>
      rw [hsource] at h
      cases hfile : files.get? path with
      | none =>
          rw [hfile] at h
          cases h
      | some text =>
          rw [hfile] at h
          exact hlost path text name hfile h

theorem mem_names_iff {index : ExportIndex} {path name : String} :
    name ∈ index.names path <->
      (exists m, index.modules.get? path = some m) ∧
        (name ∈ index.ownNames path ∨
          name ≠ defaultExport ∧ exists other, other ≠ path ∧
            other ∈ ExportIndex.reachable index.starTargets (index.depth - 1) [path] ∧
            name ∈ index.ownNames other) := by
  unfold ExportIndex.names
  cases hmodule : index.modules.get? path with
  | none =>
      simp
  | some m =>
      have hown : index.ownNames path = m.exports.names := by
        unfold ExportIndex.ownNames
        rw [hmodule]
      rw [hown]
      simp only [List.mem_append, List.mem_filter, List.mem_flatMap, decide_eq_true_eq]
      constructor
      · rintro (hname | ⟨⟨other, ⟨hreach, hne⟩, hname⟩, hdefault⟩)
        · exact ⟨⟨m, rfl⟩, Or.inl hname⟩
        · exact ⟨⟨m, rfl⟩, Or.inr ⟨hdefault, other, hne, hreach, hname⟩⟩
      · rintro ⟨_, hname | ⟨hdefault, other, hne, hreach, hname⟩⟩
        · exact Or.inl hname
        · exact Or.inr ⟨⟨other, ⟨hreach, hne⟩, hname⟩, hdefault⟩

theorem mem_names_of_own {path text name : String} (hsource : v.resolver.isSourceFile path = true)
    (hfile : files.get? path = some text) (h : name ∈ (scan path text).exports.names) :
    name ∈ (v.exportIndex files).names path := by
  have hmodule : (v.exportIndex files).modules.get? path = some (scan path text) := by
    rw [get?_modules, hsource, hfile]
    rfl
  exact mem_names_iff.mpr ⟨⟨_, hmodule⟩, Or.inl (ExportIndex.mem_ownNames_iff.mpr ⟨_, hmodule, h⟩)⟩

theorem names_mapValues (hlinks : KeepsLinks rewrite) {lost : String -> String -> Prop}
    (hlost : LosesOnly lost files rewrite) {path name : String}
    (h : name ∈ (v.exportIndex files).names path) :
    name ∈ (v.exportIndex (files.mapValues rewrite)).names path ∨
      exists other, (v.exportIndex files).PassesOn path other ∧ lost other name := by
  rw [mem_names_iff] at h
  obtain ⟨⟨m, hmodule⟩, h⟩ := h
  have hmodule' : exists m', (v.exportIndex (files.mapValues rewrite)).modules.get? path =
      some m' := by
    rw [get?_modules] at hmodule
    rw [get?_modules_mapValues]
    cases hsource : v.resolver.isSourceFile path with
    | false =>
        rw [hsource] at hmodule
        cases hmodule
    | true =>
        cases hfile : files.get? path with
        | none =>
            rw [hsource, hfile] at hmodule
            cases hmodule
        | some text =>
            exact ⟨_, rfl⟩
  rcases h with hown | ⟨hdefault, other, hne, hreach, hown⟩
  · rcases ownNames_mapValues hlost hown with hown' | hgone
    · exact Or.inl (mem_names_iff.mpr ⟨hmodule', Or.inl hown'⟩)
    · exact Or.inr ⟨path, Or.inl rfl, hgone⟩
  · rcases ownNames_mapValues hlost hown with hown' | hgone
    · refine Or.inl (mem_names_iff.mpr ⟨hmodule', Or.inr ⟨hdefault, other, hne, ?_, hown'⟩⟩)
      rw [starTargets_mapValues hlinks]
      exact hreach
    · exact Or.inr ⟨other, Or.inr hreach, hgone⟩

/-!
# Findings
-/

theorem checkImport_unresolved_congr {index other : ExportIndex}
    (h : index.available = other.available) (path : String) (record : Import) :
    (v.checkImport index path record).unresolved =
      (v.checkImport other path record).unresolved := by
  unfold checkImport
  rw [h]
  split
  · rfl
  · dsimp only
    split
    · rfl
    · split <;> rfl

theorem checks_mapValues (hlinks : KeepsLinks rewrite) :
    v.checks (files.mapValues rewrite) =
      (files.entries.filter fun file => v.resolver.isSourceFile file.1).flatMap fun file =>
        (scan file.1 file.2).imports.map fun record =>
          v.checkImport (v.exportIndex (files.mapValues rewrite)) file.1 record := by
  rw [checks_eq]
  show ((files.entries.map fun entry => (entry.1, rewrite entry.1 entry.2)).filter _).flatMap _ = _
  rw [List.filter_map, List.flatMap_map]
  simp only [hlinks.imports, Function.comp_def]

theorem unresolved_mapValues (hlinks : KeepsLinks rewrite) :
    (v.validate (files.mapValues rewrite)).unresolved = (v.validate files).unresolved := by
  rw [unresolved_eq, unresolved_eq, checks_mapValues hlinks, checks_eq, List.flatMap_assoc,
    List.flatMap_assoc]
  simp only [List.flatMap_map]
  have hsame : forall path record,
      (v.checkImport (v.exportIndex (files.mapValues rewrite)) path record).unresolved =
        (v.checkImport (v.exportIndex files) path record).unresolved :=
    checkImport_unresolved_congr (available_mapValues v files rewrite)
  simp only [hsame]

theorem warnings_mapValues (hlinks : KeepsLinks rewrite) :
    (v.validate (files.mapValues rewrite)).warnings = (v.validate files).warnings := by
  rw [warnings_eq, warnings_eq, unresolved_mapValues hlinks]

theorem missingExports_mapValues (hlinks : KeepsLinks rewrite) {lost : String -> String -> Prop}
    (hlost : LosesOnly lost files rewrite) {m : MissingExport}
    (h : m ∈ (v.validate (files.mapValues rewrite)).missingExports) :
    m ∈ (v.validate files).missingExports ∨
      exists other, (v.exportIndex files).PassesOn m.target other ∧ lost other m.name := by
  rw [missingExports_eq, checks_mapValues hlinks] at h
  rw [missingExports_eq, checks_eq]
  simp only [List.mem_flatMap, List.mem_map] at h
  simp only [List.mem_flatMap, List.mem_map]
  obtain ⟨_, ⟨file, hfile, record, hrecord, rfl⟩, hm⟩ := h
  rw [mem_missing_iff, available_mapValues] at hm
  obtain ⟨hexternal, hfound, hchecks, hsource, hname, hpath, hline⟩ := hm
  obtain ⟨hrequested, hlacks⟩ := List.mem_filter.mp hname
  rw [Bool.and_eq_true, decide_eq_true_eq, Bool.not_eq_true', List.contains_eq_mem,
    decide_eq_false_iff_not] at hlacks
  obtain ⟨hdefault, hlacks⟩ := hlacks
  by_cases hhad : m.name ∈ (v.exportIndex files).names m.target
  · rcases names_mapValues hlinks hlost hhad with hhas | hgone
    · exact absurd hhas hlacks
    · exact Or.inr hgone
  · refine Or.inl ⟨_, ⟨file, hfile, record, hrecord, rfl⟩, ?_⟩
    refine mem_missing_iff.mpr ⟨hexternal, hfound, hchecks, hsource, ?_, hpath, hline⟩
    refine List.mem_filter.mpr ⟨hrequested, ?_⟩
    rw [Bool.and_eq_true, decide_eq_true_eq, Bool.not_eq_true', List.contains_eq_mem,
      decide_eq_false_iff_not]
    exact ⟨hdefault, hhad⟩

end Validator
end Joinery
