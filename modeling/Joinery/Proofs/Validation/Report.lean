import Joinery.Proofs.Table
import Joinery.Validation.Report
import Mathlib.Algebra.GroupWithZero.Nat

/-!
# What a report says

## Findings of single imports

A report lists the findings of all imports of all source files, one import after the
other.  Its errors are exactly the missing exports, and its warnings the unresolved
imports, where these are reported.
-/

namespace Joinery

theorem get?_scanAll (resolver : Resolver) (files : Table String) (path : String) :
    (scanAll resolver files).get? path =
      if resolver.isSourceFile path then (files.get? path).map (SourceModule.scan path)
      else none := by
  unfold scanAll
  rw [Table.get?_mapValues, Table.get?_filterKeys, apply_ite (Option.map _)]
  rfl

namespace Report

theorem foldl_append (checks : List Report) (start : Report) :
    (checks.foldl append start).diagnostics =
        start.diagnostics ++ checks.flatMap (·.diagnostics) ∧
      (checks.foldl append start).unresolved = start.unresolved ++ checks.flatMap (·.unresolved) ∧
      (checks.foldl append start).missingExports =
        start.missingExports ++ checks.flatMap (·.missingExports) ∧
      (checks.foldl append start).modules = start.modules := by
  induction checks generalizing start with
  | nil =>
      simp
  | cons check rest ih =>
      obtain ⟨hdiagnostics, hunresolved, hmissing, hmodules⟩ := ih (start.append check)
      rw [List.foldl_cons, hdiagnostics, hunresolved, hmissing, hmodules]
      simp [append]

theorem importCount_foldl_append (checks : List Report) (start : Report) :
    (checks.foldl append start).importCount =
      start.importCount + (checks.map (·.importCount)).sum := by
  induction checks generalizing start with
  | nil =>
      rfl
  | cons check rest ih =>
      rw [List.foldl_cons, ih, List.map_cons, List.sum_cons, append, Nat.add_assoc]

end Report

namespace Validator

variable {v : Validator} {files : Table String}

/-- The findings of the single imports of a snapshot, in order. -/
def checks (v : Validator) (files : Table String) : List Report :=
  (v.exportIndex files).modules.entries.flatMap fun file =>
    file.2.imports.map fun record => v.checkImport (v.exportIndex files) file.1 record

theorem diagnostics_eq (v : Validator) (files : Table String) :
    (v.validate files).diagnostics = (v.checks files).flatMap (·.diagnostics) :=
  (Report.foldl_append _ _).1

theorem unresolved_eq (v : Validator) (files : Table String) :
    (v.validate files).unresolved = (v.checks files).flatMap (·.unresolved) :=
  (Report.foldl_append _ _).2.1

theorem missingExports_eq (v : Validator) (files : Table String) :
    (v.validate files).missingExports = (v.checks files).flatMap (·.missingExports) :=
  (Report.foldl_append _ _).2.2.1

theorem modules_eq (v : Validator) (files : Table String) :
    (v.validate files).modules = scanAll v.resolver files :=
  (Report.foldl_append _ _).2.2.2

theorem importCount_eq (v : Validator) (files : Table String) :
    (v.validate files).importCount = ((v.checks files).map (·.importCount)).sum :=
  (Report.importCount_foldl_append _ _).trans (Nat.zero_add _)

theorem checkImport_diagnostics (index : ExportIndex) (path : String) (record : Import) :
    (v.checkImport index path record).diagnostics =
      (if v.reportsImports then
        (v.checkImport index path record).unresolved.map UnresolvedImport.diagnostic else []) ++
      (v.checkImport index path record).missingExports.map MissingExport.diagnostic := by
  unfold checkImport
  split
  · simp
  · dsimp only
    split
    · cases v.reportsImports <;> simp
    · split
      · simp
      · simp

theorem filter_diagnostics {check : Report} (h : check ∈ v.checks files) :
    check.diagnostics.filter Diagnostic.isError =
        check.missingExports.map MissingExport.diagnostic ∧
      check.diagnostics.filter Diagnostic.isWarning =
        if v.reportsImports then check.unresolved.map UnresolvedImport.diagnostic else [] := by
  have hmissing : forall l : List MissingExport,
      (l.map MissingExport.diagnostic).filter Diagnostic.isError =
          l.map MissingExport.diagnostic ∧
        (l.map MissingExport.diagnostic).filter Diagnostic.isWarning = [] := by
    intro l
    rw [List.filter_map, List.filter_map]
    exact ⟨congrArg _ (List.filter_eq_self.mpr fun _ _ => rfl),
      congrArg _ (List.filter_eq_nil_iff.mpr fun _ _ h => by cases h)⟩
  have hunresolved : forall l : List UnresolvedImport,
      (l.map UnresolvedImport.diagnostic).filter Diagnostic.isError = [] ∧
        (l.map UnresolvedImport.diagnostic).filter Diagnostic.isWarning =
          l.map UnresolvedImport.diagnostic := by
    intro l
    rw [List.filter_map, List.filter_map]
    exact ⟨congrArg _ (List.filter_eq_nil_iff.mpr fun _ _ h => by cases h),
      congrArg _ (List.filter_eq_self.mpr fun _ _ => rfl)⟩
  obtain ⟨file, _, hmem⟩ := List.mem_flatMap.mp h
  obtain ⟨record, _, rfl⟩ := List.mem_map.mp hmem
  rw [checkImport_diagnostics, List.filter_append, List.filter_append, (hmissing _).1,
    (hmissing _).2, List.append_nil]
  cases v.reportsImports with
  | true =>
      simp only [if_true]
      rw [(hunresolved _).1, (hunresolved _).2]
      exact ⟨rfl, rfl⟩
  | false =>
      exact ⟨rfl, rfl⟩

theorem errors_eq (v : Validator) (files : Table String) :
    (v.validate files).errors =
      (v.validate files).missingExports.map MissingExport.diagnostic := by
  show (v.validate files).diagnostics.filter Diagnostic.isError = _
  rw [diagnostics_eq, missingExports_eq, List.filter_flatMap, List.map_flatMap, List.flatMap_def,
    List.flatMap_def, List.map_congr_left fun check h => (filter_diagnostics h).1]

theorem warnings_eq (v : Validator) (files : Table String) :
    (v.validate files).warnings =
      if v.reportsImports then
        (v.validate files).unresolved.map UnresolvedImport.diagnostic else [] := by
  show (v.validate files).diagnostics.filter Diagnostic.isWarning = _
  rw [diagnostics_eq, unresolved_eq, List.filter_flatMap, List.flatMap_def,
    List.map_congr_left fun check h => (filter_diagnostics h).2]
  cases v.reportsImports with
  | true =>
      simp only [if_true]
      rw [List.map_flatMap, List.flatMap_def]
  | false =>
      simp

theorem mem_missing_iff {index : ExportIndex} {path : String} {record : Import}
    {m : MissingExport} :
    m ∈ (v.checkImport index path record).missingExports <->
      v.resolver.isExternal record.source = false ∧
        (v.resolver.candidates record.source path).find? index.available = some m.target ∧
        v.checksExports = true ∧ v.resolver.isSourceFile m.target = true ∧
        m.name ∈ missingNames (index.names m.target) record ∧ m.file = path ∧
        m.line = record.line := by
  unfold checkImport
  cases hexternal : v.resolver.isExternal record.source with
  | true =>
      simp
  | false =>
      simp only [Bool.false_eq_true, if_false, true_and]
      cases hfound : (v.resolver.candidates record.source path).find? index.available with
      | none =>
          simp
      | some target =>
          dsimp only
          by_cases hchecked : (v.checksExports && v.resolver.isSourceFile target) = true
          · rw [if_pos hchecked]
            simp only [List.mem_map]
            rw [Bool.and_eq_true] at hchecked
            constructor
            · rintro ⟨name, hname, rfl⟩
              exact ⟨rfl, hchecked.1, hchecked.2, hname, rfl, rfl⟩
            · rintro ⟨heq, _, _, hname, hfile, hline⟩
              cases heq
              refine ⟨m.name, hname, ?_⟩
              rw [<- hfile, <- hline]
          · rw [if_neg hchecked]
            simp only [List.not_mem_nil, false_iff]
            rintro ⟨heq, hchecks, hsource, _⟩
            cases heq
            exact hchecked (by rw [hchecks, hsource]; rfl)

theorem mem_unresolved_iff {index : ExportIndex} {path : String} {record : Import}
    {u : UnresolvedImport} :
    u ∈ (v.checkImport index path record).unresolved <->
      v.resolver.isExternal record.source = false ∧
        (v.resolver.candidates record.source path).find? index.available = none ∧
        u =
          { file := path
            line := record.line
            source := record.source
            candidates := v.resolver.candidates record.source path
            requested := record.requested } := by
  unfold checkImport
  cases hexternal : v.resolver.isExternal record.source with
  | true =>
      simp
  | false =>
      simp only [Bool.false_eq_true, if_false, true_and]
      cases hfound : (v.resolver.candidates record.source path).find? index.available with
      | none =>
          simp
      | some target =>
          dsimp only
          split
          · simp
          · simp

theorem checks_eq (v : Validator) (files : Table String) :
    v.checks files =
      (files.entries.filter fun file => v.resolver.isSourceFile file.1).flatMap fun file =>
        (SourceModule.scan file.1 file.2).imports.map fun record =>
          v.checkImport (v.exportIndex files) file.1 record := by
  unfold checks
  show ((files.entries.filter _).map _).flatMap _ = _
  rw [List.flatMap_map]

theorem mem_missingExports_iff {m : MissingExport} :
    m ∈ (v.validate files).missingExports <->
      exists path text record, (path, text) ∈ files.entries ∧
        v.resolver.isSourceFile path = true ∧ record ∈ (SourceModule.scan path text).imports ∧
        m ∈ (v.checkImport (v.exportIndex files) path record).missingExports := by
  rw [missingExports_eq, checks_eq]
  simp only [List.mem_flatMap, List.mem_map, List.mem_filter]
  constructor
  · rintro ⟨_, ⟨⟨path, text⟩, ⟨hmem, hsource⟩, record, hrecord, rfl⟩, hm⟩
    exact ⟨path, text, record, hmem, hsource, hrecord, hm⟩
  · rintro ⟨path, text, record, hmem, hsource, hrecord, hm⟩
    exact ⟨_, ⟨(path, text), ⟨hmem, hsource⟩, record, hrecord, rfl⟩, hm⟩

theorem exists_of_mem_unresolved {u : UnresolvedImport} (h : u ∈ (v.validate files).unresolved) :
    exists path text record, (path, text) ∈ files.entries ∧
      v.resolver.isSourceFile path = true ∧ record ∈ (SourceModule.scan path text).imports ∧
      u ∈ (v.checkImport (v.exportIndex files) path record).unresolved := by
  rw [unresolved_eq, checks_eq] at h
  simp only [List.mem_flatMap, List.mem_map, List.mem_filter] at h
  obtain ⟨_, ⟨⟨path, text⟩, ⟨hmem, hsource⟩, record, hrecord, rfl⟩, hu⟩ := h
  exact ⟨path, text, record, hmem, hsource, hrecord, hu⟩

theorem missing_between {m : MissingExport}
    (h : m ∈ (v.validate files).missingExports) {exporter importer : String}
    (hexporter : files.get? m.target = some exporter)
    (himporter : files.get? m.file = some importer) :
    (exists record, record ∈ (SourceModule.scan m.file importer).imports ∧
      m.name ∈ record.requested) ∧
    m.name ∉ (SourceModule.scan m.target exporter).exports.names := by
  obtain ⟨path, text, record, hmem, _, hrecord, hm⟩ := mem_missingExports_iff.mp h
  obtain ⟨_, _, _, hsource, hname, rfl, _⟩ := mem_missing_iff.mp hm
  have htext := Table.get?_of_mem hmem
  rw [himporter] at htext
  cases htext
  obtain ⟨hrequested, hmissing⟩ := List.mem_filter.mp hname
  refine ⟨⟨record, hrecord, List.mem_eraseDups.mp hrequested⟩, fun hexported => ?_⟩
  have hmodule : (v.exportIndex files).modules.get? m.target =
      some (SourceModule.scan m.target exporter) := by
    rw [show (v.exportIndex files).modules = scanAll v.resolver files from rfl, get?_scanAll,
      if_pos hsource, hexporter]
    rfl
  have hnames : m.name ∈ (v.exportIndex files).names m.target := by
    unfold ExportIndex.names
    rw [hmodule]
    exact List.mem_append_left _ hexported
  rw [Bool.and_eq_true, Bool.not_eq_true', List.contains_eq_mem] at hmissing
  exact of_decide_eq_false hmissing.2 hnames

/-- A source file has this import, and what the import means is looked up in this source file. -/
structure LooksUp (v : Validator) (files : Table String) (importer : String) (record : Import)
    (target : String) : Prop where
  checked : v.checksExports = true
  imported : exists text, (importer, text) ∈ files.entries ∧
    record ∈ (SourceModule.scan importer text).imports
  importer_source : v.resolver.isSourceFile importer = true
  target_source : v.resolver.isSourceFile target = true
  resolved : v.resolver.resolve record.source importer files.contains = some target

theorem isExternal_of_resolve {r : Resolver} {source file target : String}
    {available : String -> Bool} (h : r.resolve source file available = some target) :
    r.isExternal source = false := by
  unfold Resolver.resolve Resolver.candidates at h
  cases hbase : r.basePath source file with
  | none =>
      rw [hbase] at h
      cases h
  | some base =>
      unfold Resolver.basePath at hbase
      unfold Resolver.isExternal Resolver.classify
      split at hbase
      · next hrelative =>
          rw [if_pos hrelative]
          rfl
      · next hrelative =>
          obtain ⟨entry, halias, _⟩ := Option.map_eq_some_iff.mp hbase
          rw [if_neg hrelative, halias]
          rfl

theorem LooksUp.mem_missingExports_iff {importer target name : String} {record : Import}
    (h : v.LooksUp files importer record target) (hrequested : name ∈ record.requested)
    (hname : name ≠ defaultExport) :
    ⟨importer, record.line, target, name⟩ ∈ (v.validate files).missingExports <->
      name ∉ (v.exportIndex files).names target := by
  have hmissing : forall other : Import,
      name ∈ missingNames ((v.exportIndex files).names target) other ->
        name ∉ (v.exportIndex files).names target := by
    intro other hother
    obtain ⟨_, hnot⟩ := List.mem_filter.mp hother
    rw [Bool.and_eq_true, Bool.not_eq_true', List.contains_eq_mem] at hnot
    exact of_decide_eq_false hnot.2
  rw [Validator.mem_missingExports_iff]
  constructor
  · rintro ⟨_, _, other, _, _, _, hm⟩
    obtain ⟨_, _, _, _, hlacks, _⟩ := mem_missing_iff.mp hm
    exact hmissing other hlacks
  · intro hlacks
    obtain ⟨text, hfile, hrecord⟩ := h.imported
    refine ⟨importer, text, record, hfile, h.importer_source, hrecord, mem_missing_iff.mpr ?_⟩
    refine ⟨isExternal_of_resolve h.resolved, h.resolved, h.checked, h.target_source, ?_, rfl, rfl⟩
    refine List.mem_filter.mpr ⟨List.mem_eraseDups.mpr hrequested, ?_⟩
    simp [hname, hlacks]

end Validator
end Joinery
