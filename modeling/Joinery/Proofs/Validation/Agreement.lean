import Joinery.Proofs.Distinct
import Joinery.Proofs.SourceModule.ImportLines
import Joinery.Proofs.Validation.Locality
import Mathlib.Data.List.Nodup
import Mathlib.Data.List.Pairwise

/-!
# The parts of a report

## How they agree with each other

A report is made import by import: its files come in the order of the snapshot and the imports
of a file from the first line to the last.  Two imports of one file stand on distinct lines, and
about one import nothing is said twice, so that no two diagnostics of a report are the same.
What is not to be reported is left out, and everything else stays as it is.
-/

namespace Joinery
namespace Validator

variable {v : Validator} {files : Table String} {index : ExportIndex} {path : String}
  {record : Import}

/-!
# What is said about one import
-/

theorem nodup_missingNames (exported : List String) (record : Import) :
    (missingNames exported record).Nodup :=
  (nodup_eraseDups _).filter _

theorem name_eq_of_message_eq {m n : MissingExport} (htarget : m.target = n.target)
    (h : m.diagnostic.message = n.diagnostic.message) : m.name = n.name := by
  have htext := congrArg String.toList h
  unfold MissingExport.diagnostic at htext
  simp only [htarget, String.toList_append] at htext
  have hfront := List.append_cancel_right (List.append_cancel_right htext)
  exact String.toList_inj.mp (List.append_cancel_left hfront)

theorem nodup_keys_checkImport (v : Validator) (index : ExportIndex) (path : String)
    (record : Import) :
    ((v.checkImport index path record).diagnostics.map Diagnostic.key).Nodup := by
  unfold checkImport
  split
  · exact List.nodup_nil
  · dsimp only
    split
    · cases v.reportsImports
      · exact List.nodup_nil
      · exact List.nodup_singleton _
    · next target _ =>
        split
        · rw [List.map_map, List.map_map]
          refine List.Nodup.map ?_ (nodup_missingNames _ _)
          intro name name' hkey
          have hmessage := congrArg DiagnosticKey.message hkey
          exact name_eq_of_message_eq (m := ⟨path, record.line, target, name⟩)
            (n := ⟨path, record.line, target, name'⟩) rfl hmessage
        · exact List.nodup_nil

/-!
# The statements of a snapshot
-/

def statements (v : Validator) (files : Table String) : List (String × Import) :=
  (files.entries.filter fun file => v.resolver.isSourceFile file.1).flatMap fun file =>
    (SourceModule.scan file.1 file.2).imports.map fun record => (file.1, record)

def checkStatement (v : Validator) (files : Table String) (s : String × Import) : Report :=
  v.checkImport (v.exportIndex files) s.1 s.2

theorem checks_eq_map (v : Validator) (files : Table String) :
    v.checks files = (v.statements files).map (v.checkStatement files) := by
  rw [checks_eq, statements, List.map_flatMap]
  simp only [List.map_map]
  rfl

theorem diagnostics_eq_flatMap (v : Validator) (files : Table String) :
    (v.validate files).diagnostics =
      (v.statements files).flatMap fun s => (v.checkStatement files s).diagnostics := by
  rw [diagnostics_eq, checks_eq_map, List.flatMap_map]

/-- The one statement stands in an earlier file, or on an earlier line of the same file. -/
def StandsBefore (files : Table String) (s t : String × Import) : Prop :=
  files.keys.idxOf s.1 < files.keys.idxOf t.1 ∨ s.1 = t.1 ∧ s.2.line < t.2.line

theorem pairwise_statements (v : Validator) (files : Table String) :
    (v.statements files).Pairwise (StandsBefore files) := by
  have hfiles : files.entries.Pairwise fun a b =>
      files.keys.idxOf a.1 < files.keys.idxOf b.1 := by
    have hkeys := pairwise_idxOf files.nodup_keys
    rwa [Table.keys, List.pairwise_map] at hkeys
  refine List.pairwise_flatMap.mpr ⟨?_, ?_⟩
  · intro file _
    refine List.pairwise_map.mpr ((SourceModule.pairwise_line_imports file.1 file.2).imp ?_)
    intro record other hline
    exact Or.inr ⟨rfl, hline⟩
  · refine (hfiles.filter _).imp ?_
    intro file other hlt s hs t ht
    obtain ⟨_, _, rfl⟩ := List.mem_map.mp hs
    obtain ⟨_, _, rfl⟩ := List.mem_map.mp ht
    exact Or.inl hlt

theorem eq_of_mem_statements {s t : String × Import}
    (hs : s ∈ v.statements files) (ht : t ∈ v.statements files) (hfile : s.1 = t.1)
    (hline : s.2.line = t.2.line) : s = t := by
  have happart : (v.statements files).Pairwise fun a b => ¬ (a.1 = b.1 ∧ a.2.line = b.2.line) := by
    refine (pairwise_statements v files).imp ?_
    rintro a b (hlt | ⟨_, hlt⟩) ⟨hfile, hline⟩
    · rw [hfile] at hlt
      exact Nat.lt_irrefl _ hlt
    · rw [hline] at hlt
      exact Nat.lt_irrefl _ hlt
  have hsymm : Std.Symm fun a b : String × Import => ¬ (a.1 = b.1 ∧ a.2.line = b.2.line) :=
    ⟨fun a b hab hba => hab ⟨hba.1.symm, hba.2.symm⟩⟩
  by_contra hne
  exact happart.forall hs ht hne ⟨hfile, hline⟩

/-- A diagnostic says something about this statement of the snapshot. -/
structure SaysOf (v : Validator) (files : Table String) (d : Diagnostic) (record : Import) :
    Prop where
  statement : (d.file, record) ∈ v.statements files
  line : d.line = record.line
  found : d ∈ (v.checkImport (v.exportIndex files) d.file record).diagnostics

theorem saysOf_of_mem {s : String × Import} {d : Diagnostic} (hs : s ∈ v.statements files)
    (hd : d ∈ (v.checkStatement files s).diagnostics) : d.file = s.1 ∧ v.SaysOf files d s.2 := by
  obtain ⟨hfile, hline⟩ := place_of_mem_diagnostics hd
  refine ⟨hfile, ?_, hline, ?_⟩
  · rw [hfile]
    exact hs
  · rw [hfile]
    exact hd

theorem exists_saysOf {d : Diagnostic} (hd : d ∈ (v.validate files).diagnostics) :
    exists record, v.SaysOf files d record ∧
      forall other, v.SaysOf files d other -> other = record := by
  rw [diagnostics_eq_flatMap] at hd
  obtain ⟨s, hs, hd⟩ := List.mem_flatMap.mp hd
  obtain ⟨hfile, hsays⟩ := saysOf_of_mem hs hd
  refine ⟨s.2, hsays, ?_⟩
  intro other hother
  have hline : other.line = s.2.line := Int.ofNat_inj.mp (hother.line.symm.trans hsays.line)
  exact congrArg Prod.snd (eq_of_mem_statements hother.statement hs hfile hline)

/-!
# Whole reports
-/

/--
The one diagnostic is about an earlier file of the snapshot, or about an earlier line of the same
file, or both are about one statement.
-/
def Precedes (v : Validator) (files : Table String) (d e : Diagnostic) : Prop :=
  files.keys.idxOf d.file < files.keys.idxOf e.file ∨
    d.file = e.file ∧
      (d.line < e.line ∨ exists record, v.SaysOf files d record ∧ v.SaysOf files e record)

theorem pairwise_diagnostics {related : Diagnostic -> Diagnostic -> Prop}
    (hwithin : forall s, s ∈ v.statements files ->
      (v.checkStatement files s).diagnostics.Pairwise related)
    (hbetween : forall s t d e, s ∈ v.statements files -> t ∈ v.statements files ->
      StandsBefore files s t -> d ∈ (v.checkStatement files s).diagnostics ->
        e ∈ (v.checkStatement files t).diagnostics -> related d e) :
    (v.validate files).diagnostics.Pairwise related := by
  rw [diagnostics_eq_flatMap]
  refine List.pairwise_flatMap.mpr ⟨hwithin, ?_⟩
  refine (pairwise_statements v files).imp_of_mem ?_
  intro s t hs ht hbefore d hd e he
  exact hbetween s t d e hs ht hbefore hd he

theorem pairwise_precedes (v : Validator) (files : Table String) :
    (v.validate files).diagnostics.Pairwise (v.Precedes files) := by
  refine pairwise_diagnostics ?_ ?_
  · intro s hs
    refine List.pairwise_of_forall_mem_list ?_
    intro d hd e he
    obtain ⟨hfile, hsays⟩ := saysOf_of_mem hs hd
    obtain ⟨hfile', hsays'⟩ := saysOf_of_mem hs he
    exact Or.inr ⟨hfile.trans hfile'.symm, Or.inr ⟨s.2, hsays, hsays'⟩⟩
  · intro s t d e hs ht hbefore hd he
    obtain ⟨hfile, hsays⟩ := saysOf_of_mem hs hd
    obtain ⟨hfile', hsays'⟩ := saysOf_of_mem ht he
    unfold Precedes
    rw [hfile, hfile', hsays.line, hsays'.line]
    rcases hbefore with hlt | ⟨hsame, hlt⟩
    · exact Or.inl hlt
    · exact Or.inr ⟨hsame, Or.inl (Int.ofNat_lt.mpr hlt)⟩

theorem nodup_keys_diagnostics (v : Validator) (files : Table String) :
    ((v.validate files).diagnostics.map Diagnostic.key).Nodup := by
  refine List.pairwise_map.mpr (pairwise_diagnostics ?_ ?_)
  · intro s _
    exact List.pairwise_map.mp (nodup_keys_checkImport v _ s.1 s.2)
  · intro s t d e hs ht hbefore hd he hkey
    obtain ⟨hfile, hsays⟩ := saysOf_of_mem hs hd
    obtain ⟨hfile', hsays'⟩ := saysOf_of_mem ht he
    have hsame : s.1 = t.1 := by
      rw [<- hfile, <- hfile']
      exact congrArg DiagnosticKey.file hkey
    have hline : (s.2.line : Int) = t.2.line := by
      rw [<- hsays.line, <- hsays'.line]
      exact congrArg DiagnosticKey.line hkey
    -- equal keys are about one file and one line, and no two statements share both
    rcases hbefore with hlt | ⟨_, hlt⟩
    · rw [hsame] at hlt
      exact Nat.lt_irrefl _ hlt
    · omega

theorem nodup_keys_errors (v : Validator) (files : Table String) :
    ((v.validate files).errors.map Diagnostic.key).Nodup :=
  (nodup_keys_diagnostics v files).sublist (List.filter_sublist.map _)

/-!
# What is not reported
-/

def full (v : Validator) : Validator :=
  { v with reportsImports := true, checksExports := true }

def shows (v : Validator) (d : Diagnostic) : Bool :=
  (v.reportsImports || !d.isWarning) && (v.checksExports || !d.isError)

theorem checkImport_full (v : Validator) (index : ExportIndex) (path : String) (record : Import) :
    (v.full.checkImport index path record).unresolved =
        (v.checkImport index path record).unresolved ∧
      (v.full.checkImport index path record).importCount =
        (v.checkImport index path record).importCount ∧
      (v.checkImport index path record).missingExports =
        if v.checksExports then (v.full.checkImport index path record).missingExports else [] := by
  unfold checkImport full
  dsimp only
  split
  · simp
  · split
    · simp
    · cases v.checksExports
      · split <;> simp
      · simp

theorem filter_shows_unresolved (v : Validator) (found : List UnresolvedImport) :
    (found.map UnresolvedImport.diagnostic).filter v.shows =
      if v.reportsImports then found.map UnresolvedImport.diagnostic else [] := by
  have hshows : forall u : UnresolvedImport, v.shows u.diagnostic = v.reportsImports := by
    intro u
    unfold shows UnresolvedImport.diagnostic Diagnostic.isWarning Diagnostic.isError
    simp
  rw [List.filter_map, List.filter_congr fun u _ => show (v.shows ∘ _) u = _ from hshows u]
  cases v.reportsImports <;> simp

theorem filter_shows_missing (v : Validator) (found : List MissingExport) :
    (found.map MissingExport.diagnostic).filter v.shows =
      if v.checksExports then found.map MissingExport.diagnostic else [] := by
  have hshows : forall m : MissingExport, v.shows m.diagnostic = v.checksExports := by
    intro m
    unfold shows MissingExport.diagnostic Diagnostic.isWarning Diagnostic.isError
    simp
  rw [List.filter_map, List.filter_congr fun m _ => show (v.shows ∘ _) m = _ from hshows m]
  cases v.checksExports <;> simp

theorem diagnostics_full (v : Validator) (index : ExportIndex) (path : String) (record : Import) :
    (v.checkImport index path record).diagnostics =
      (v.full.checkImport index path record).diagnostics.filter v.shows := by
  obtain ⟨hunresolved, _, hmissing⟩ := checkImport_full v index path record
  have hall : v.full.reportsImports = true := rfl
  rw [checkImport_diagnostics, checkImport_diagnostics, List.filter_append, if_pos hall,
    filter_shows_unresolved, filter_shows_missing, hunresolved, hmissing]
  cases v.checksExports <;> rfl

/-- What is found is the same, whatever is reported of it. -/
structure AgreesWithFull (v : Validator) (files : Table String) : Prop where
  diagnostics :
    (v.validate files).diagnostics = (v.full.validate files).diagnostics.filter v.shows
  modules : (v.validate files).modules = (v.full.validate files).modules
  unresolved : (v.validate files).unresolved = (v.full.validate files).unresolved
  importCount : (v.validate files).importCount = (v.full.validate files).importCount

theorem agreesWithFull (v : Validator) (files : Table String) : v.AgreesWithFull files := by
  have hstatements : v.full.statements files = v.statements files := rfl
  constructor
  · rw [diagnostics_eq_flatMap, diagnostics_eq_flatMap, List.filter_flatMap, hstatements]
    exact List.flatMap_congr fun s _ => diagnostics_full v _ s.1 s.2
  · rw [modules_eq, modules_eq]
    rfl
  · rw [unresolved_eq, unresolved_eq, checks_eq_map, checks_eq_map, List.flatMap_map,
      List.flatMap_map, hstatements]
    exact List.flatMap_congr fun s _ => (checkImport_full v _ s.1 s.2).1.symm
  · rw [importCount_eq, importCount_eq, checks_eq_map, checks_eq_map, List.map_map, List.map_map,
      hstatements]
    exact congrArg List.sum (List.map_congr_left fun s _ => (checkImport_full v _ s.1 s.2).2.1.symm)

/-- The parts of a report agree with each other and with those of a report of everything. -/
structure Agrees (v : Validator) (files : Table String) : Prop where
  distinct : ((v.validate files).diagnostics.map Diagnostic.key).Nodup
  statement : forall d, d ∈ (v.validate files).diagnostics ->
    exists record, v.SaysOf files d record ∧
      forall other, v.SaysOf files d other -> other = record
  inOrder : (v.validate files).diagnostics.Pairwise (v.Precedes files)
  errors :
    (v.validate files).errors = (v.validate files).missingExports.map MissingExport.diagnostic
  full : v.AgreesWithFull files

/-- The report of every snapshot agrees with itself, whatever it may repeat. -/
theorem validate_agrees (v : Validator) (files : Table String) : v.Agrees files where
  distinct := nodup_keys_diagnostics v files
  statement := fun _ hd => exists_saysOf hd
  inOrder := pairwise_precedes v files
  errors := errors_eq v files
  full := agreesWithFull v files

/-- A missing name is asked for four times, by two statements, and an import leads nowhere. -/
theorem validate_agrees_repeated :
    let v : Validator := { resolver := Resolver.make none [], reportsImports := false }
    let user :=
      "import \x7b a, b, b \x7d from './t'\nconst \x7b b, b: c \x7d = require('./t')\nimport './lost'\n"
    let files : Table String :=
      { entries := [("src/a.ts", user), ("src/t.ts", "export const a = 1\n")] }
    (v.validate files).diagnostics.map (·.line) = [1, 2] ∧
      (v.full.validate files).diagnostics.map (·.line) = [1, 2, 3] ∧ v.Agrees files := by
  intro v user files
  exact ⟨by decide +kernel, by decide +kernel, validate_agrees v files⟩

end Validator
end Joinery
