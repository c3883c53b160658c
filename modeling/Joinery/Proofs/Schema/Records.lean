import Joinery.Assembly.Saved
import Joinery.Proofs.Json.Plain
import Joinery.Proofs.Sorting
import Joinery.Proofs.Table

/-!
# Records and their data

## Reading fields in any order

A record is written as a mapping with a key for each of its fields.  Putting the keys in order
moves the fields but not what stands under a key, so each field is read from the value that was
written for it.
-/

namespace Joinery
namespace Decode

open Config (mapping)
open Decoded (collect)
open Json (sortKeys keyLe sortKeys_list sortKeys_mapping entry?_eq_some_iff)

def sortedFields (fields : List (String × Value)) : Fields :=
  sortBy keyLe (fields.map fun f => (.text f.1, sortKeys f.2))

theorem sortKeys_record (fields : List (String × Value)) :
    sortKeys (mapping fields) = .mapping (sortedFields fields) := by
  rw [mapping, sortKeys_mapping, List.map_map]
  rfl

theorem nodup_keys {fields : List (String × Value)} (hdistinct : (fields.map Prod.fst).Nodup)
    (write : Value -> Value) :
    ((fields.map fun f => (Value.text f.1, write f.2)).map Prod.fst).Nodup := by
  have hkeys : (fields.map fun f => (Value.text f.1, write f.2)).map Prod.fst =
      (fields.map Prod.fst).map .text := by
    rw [List.map_map, List.map_map]
    rfl
  rw [hkeys]
  exact hdistinct.map fun _ _ heq => Value.text.inj heq

theorem entry?_sortedFields {fields : List (String × Value)}
    (hdistinct : (fields.map Prod.fst).Nodup) {name : String} {v : Value}
    (h : (name, v) ∈ fields) : Value.entry? name (sortedFields fields) = some (sortKeys v) := by
  have hperm : (sortedFields fields).Perm (fields.map fun f => (.text f.1, sortKeys f.2)) :=
    sortBy_perm keyLe _
  have hkeys : ((sortedFields fields).map Prod.fst).Nodup :=
    (hperm.map Prod.fst).nodup_iff.mpr (nodup_keys hdistinct sortKeys)
  rw [entry?_eq_some_iff hkeys, hperm.mem_iff]
  exact List.mem_map.mpr ⟨(name, v), h, rfl⟩

section Fields

variable {α : Type} {fields : List (String × Value)} {name : String} {v : Value}
  {decode : Decoder α} {a : α}

theorem required_sortedFields (hdistinct : (fields.map Prod.fst).Nodup)
    (hmem : (name, v) ∈ fields) (hread : decode (sortKeys v) = .value a) :
    required (sortedFields fields) name decode = .value a := by
  rw [required, entry?_sortedFields hdistinct hmem]
  simp only [hread]
  rfl

theorem defaulted_sortedFields (default : α) (hdistinct : (fields.map Prod.fst).Nodup)
    (hmem : (name, v) ∈ fields) (hread : decode (sortKeys v) = .value a) :
    defaulted (sortedFields fields) name default decode = .value a := by
  rw [defaulted, entry?_sortedFields hdistinct hmem]
  simp only [hread]
  rfl

theorem required_text (hdistinct : (fields.map Prod.fst).Nodup) {s : String}
    (hmem : (name, .text s) ∈ fields) : required (sortedFields fields) name string = .value s :=
  required_sortedFields hdistinct hmem rfl

theorem defaulted_int (hdistinct : (fields.map Prod.fst).Nodup) {i : Int}
    (hmem : (name, .int i) ∈ fields) :
    defaulted (sortedFields fields) name 0 integer = .value i :=
  defaulted_sortedFields 0 hdistinct hmem rfl

theorem list_map {write : α -> Value} {items : List α}
    (h : forall a, a ∈ items -> decode (sortKeys (write a)) = .value a) :
    Decode.list decode (sortKeys (.list (items.map write))) = .value items := by
  have hitems : forall position, collect
      (Decode.items decode position ((items.map write).map sortKeys)) = .value items := by
    induction items with
    | nil =>
        exact fun _ => rfl
    | cons a items ih =>
        intro position
        rw [List.map_cons, List.map_cons, Decode.items, collect, h a List.mem_cons_self,
          ih fun b hb => h b (List.mem_cons_of_mem _ hb)]
        rfl
  rw [sortKeys_list]
  exact hitems 0

end Fields

end Decode

open Config (mapping tableValue)
open Decode
open Json (sortKeys)

namespace Diagnostic

def fields (d : Diagnostic) : List (String × Value) :=
  [("file", .text d.file), ("line", .int d.line), ("message", .text d.message),
    ("severity", .text d.severity.text), ("fixable", .bool d.fixable)]

theorem nodup_names (d : Diagnostic) : (d.fields.map Prod.fst).Nodup := by
  show ["file", "line", "message", "severity", "fixable"].Nodup
  decide

theorem decode_toValue (d : Diagnostic) : decode (sortKeys d.toValue) = .value d := by
  have hseverity : enumeration Severity.words (sortKeys (.text d.severity.text)) =
      .value d.severity := by
    cases d.severity <;> rfl
  show decode (sortKeys (mapping d.fields)) = _
  rw [sortKeys_record]
  show Diagnostic.mk <$> required (sortedFields d.fields) "file" string
    <*> defaulted (sortedFields d.fields) "line" 0 integer
    <*> required (sortedFields d.fields) "message" string
    <*> required (sortedFields d.fields) "severity" (enumeration Severity.words)
    <*> defaulted (sortedFields d.fields) "fixable" false bool = _
  have hnames := d.nodup_names
  have hfixable : defaulted (sortedFields d.fields) "fixable" false bool = .value d.fixable :=
    defaulted_sortedFields false hnames (v := .bool d.fixable) (by simp [fields]) rfl
  rw [required_text hnames (s := d.file) (by simp [fields]),
    defaulted_int hnames (i := d.line) (by simp [fields]),
    required_text hnames (s := d.message) (by simp [fields]),
    required_sortedFields hnames (by simp [fields]) hseverity, hfixable]
  rfl

end Diagnostic

namespace PhaseResult

def fields (p : PhaseResult) : List (String × Value) :=
  [("phase", .text p.phase), ("status", .text p.status.text),
    ("files_processed", .int p.filesProcessed),
    ("errors", .list (p.diagnostics.map Diagnostic.toValue))]

theorem nodup_names (p : PhaseResult) : (p.fields.map Prod.fst).Nodup := by
  show ["phase", "status", "files_processed", "errors"].Nodup
  decide

theorem decode_toValue (p : PhaseResult) : decode (sortKeys p.toValue) = .value p := by
  have hnames := p.nodup_names
  have hstatus : enumeration PhaseStatus.words (sortKeys (.text p.status.text)) =
      .value p.status := by
    cases p.status <;> rfl
  have hdiagnostics : Decode.list Diagnostic.decode
      (sortKeys (.list (p.diagnostics.map Diagnostic.toValue))) = .value p.diagnostics :=
    list_map fun d _ => d.decode_toValue
  show decode (sortKeys (mapping p.fields)) = _
  rw [sortKeys_record]
  show PhaseResult.mk <$> required (sortedFields p.fields) "phase" string
    <*> required (sortedFields p.fields) "status" (enumeration PhaseStatus.words)
    <*> defaulted (sortedFields p.fields) "files_processed" 0 integer
    <*> defaulted (sortedFields p.fields) "errors" [] (Decode.list Diagnostic.decode) = _
  rw [required_text hnames (s := p.phase) (by simp [fields]),
    required_sortedFields hnames (by simp [fields]) hstatus,
    defaulted_int hnames (i := p.filesProcessed) (by simp [fields]),
    defaulted_sortedFields [] hnames (by simp [fields]) hdiagnostics]
  rfl

end PhaseResult

namespace Stats

def fields (s : Stats) : List (String × Value) :=
  [("total_files", .int s.totalFiles), ("files_created", .int s.filesCreated),
    ("files_modified", .int s.filesModified), ("files_deleted", .int s.filesDeleted),
    ("missing_files_generated", .int s.missingFilesGenerated),
    ("validation_passes", .int s.validationPasses), ("errors_fixed", .int s.errorsFixed),
    ("time_ms", .real s.timeMs)]

theorem nodup_names (s : Stats) : (s.fields.map Prod.fst).Nodup := by
  show ["total_files", "files_created", "files_modified", "files_deleted",
    "missing_files_generated", "validation_passes", "errors_fixed", "time_ms"].Nodup
  decide

theorem decode_toValue (s : Stats) : decode (sortKeys s.toValue) = .value s := by
  have hnames := s.nodup_names
  have htime : defaulted (sortedFields s.fields) "time_ms" ({} : Stats).timeMs real =
      .value s.timeMs :=
    defaulted_sortedFields _ hnames (v := .real s.timeMs) (by simp [fields]) rfl
  show decode (sortKeys (mapping s.fields)) = _
  rw [sortKeys_record]
  show Stats.mk <$> defaulted (sortedFields s.fields) "total_files" 0 integer
    <*> defaulted (sortedFields s.fields) "files_created" 0 integer
    <*> defaulted (sortedFields s.fields) "files_modified" 0 integer
    <*> defaulted (sortedFields s.fields) "files_deleted" 0 integer
    <*> defaulted (sortedFields s.fields) "missing_files_generated" 0 integer
    <*> defaulted (sortedFields s.fields) "validation_passes" 0 integer
    <*> defaulted (sortedFields s.fields) "errors_fixed" 0 integer
    <*> defaulted (sortedFields s.fields) "time_ms" ({} : Stats).timeMs real = _
  rw [defaulted_int hnames (i := s.totalFiles) (by simp [fields]),
    defaulted_int hnames (i := s.filesCreated) (by simp [fields]),
    defaulted_int hnames (i := s.filesModified) (by simp [fields]),
    defaulted_int hnames (i := s.filesDeleted) (by simp [fields]),
    defaulted_int hnames (i := s.missingFilesGenerated) (by simp [fields]),
    defaulted_int hnames (i := s.validationPasses) (by simp [fields]),
    defaulted_int hnames (i := s.errorsFixed) (by simp [fields]), htime]
  rfl

end Stats

namespace Table

theorem sortedEntries_perm (t : Table α) : t.sortedEntries.Perm t.entries :=
  sortBy_perm _ _

theorem collect_entries (entries : List (String × String)) :
    Decoded.collect ((entries.map fun e => (Value.text e.1, Value.text e.2)).map (entry string)) =
      .value entries := by
  induction entries with
  | nil =>
      rfl
  | cons e entries ih =>
      rw [List.map_cons, List.map_cons, Decoded.collect, ih]
      rfl

theorem decode_tableValue (t : Table String) :
    mappingOf string (sortKeys (tableValue t)) = .value t.sortedEntries := by
  have hsorted : sortedFields (t.entries.map fun e => (e.1, .text e.2)) =
      t.sortedEntries.map fun e => (.text e.1, .text e.2) := by
    rw [sortedFields, List.map_map]
    exact sortBy_comap (fun _ _ => rfl) t.entries
  rw [tableValue, sortKeys_record, hsorted]
  exact collect_entries t.sortedEntries

theorem entries_ofList_sortedEntries (t : Table α) :
    (ofList t.sortedEntries).entries = t.sortedEntries :=
  entries_ofList ((t.sortedEntries_perm.map _).nodup_iff.mpr t.distinct)

end Table

namespace AssemblyResult

def fields (r : AssemblyResult) : List (String × Value) :=
  [("success", .bool r.success), ("project_id", .text r.projectId),
    ("files", tableValue r.files), ("dependencies", .list (r.dependencies.map .text)),
    ("validation_errors", .list (r.diagnostics.map Diagnostic.toValue)),
    ("stats", r.stats.toValue), ("phases", .list (r.phases.map PhaseResult.toValue))]

theorem nodup_names (r : AssemblyResult) : (r.fields.map Prod.fst).Nodup := by
  show ["success", "project_id", "files", "dependencies", "validation_errors", "stats",
    "phases"].Nodup
  decide

theorem decode_toValue (r : AssemblyResult) : decode (sortKeys r.toValue) = .value r.sorted := by
  have hnames := r.nodup_names
  have hsuccess : required (sortedFields r.fields) "success" bool = .value r.success :=
    required_sortedFields hnames (v := .bool r.success) (by simp [fields]) rfl
  have hdependencies : Decode.list string (sortKeys (.list (r.dependencies.map .text))) =
      .value r.dependencies :=
    list_map fun _ _ => rfl
  have hdiagnostics : Decode.list Diagnostic.decode
      (sortKeys (.list (r.diagnostics.map Diagnostic.toValue))) = .value r.diagnostics :=
    list_map fun d _ => d.decode_toValue
  have hphases : Decode.list PhaseResult.decode
      (sortKeys (.list (r.phases.map PhaseResult.toValue))) = .value r.phases :=
    list_map fun p _ => p.decode_toValue
  show decode (sortKeys (mapping r.fields)) = _
  rw [sortKeys_record]
  show AssemblyResult.mk <$> required (sortedFields r.fields) "success" bool
    <*> required (sortedFields r.fields) "project_id" string
    <*> (defaulted (sortedFields r.fields) "files" [] (mappingOf string)).map Table.ofList
    <*> defaulted (sortedFields r.fields) "dependencies" [] (Decode.list string)
    <*> defaulted (sortedFields r.fields) "validation_errors" [] (Decode.list Diagnostic.decode)
    <*> defaulted (sortedFields r.fields) "stats" {} Stats.decode
    <*> defaulted (sortedFields r.fields) "phases" [] (Decode.list PhaseResult.decode) = _
  rw [hsuccess, required_text hnames (s := r.projectId) (by simp [fields]),
    defaulted_sortedFields [] hnames (by simp [fields]) r.files.decode_tableValue,
    defaulted_sortedFields [] hnames (by simp [fields]) hdependencies,
    defaulted_sortedFields [] hnames (by simp [fields]) hdiagnostics,
    defaulted_sortedFields {} hnames (by simp [fields]) r.stats.decode_toValue,
    defaulted_sortedFields [] hnames (by simp [fields]) hphases]
  rfl

end AssemblyResult

end Joinery
