import Joinery.Proofs.Disk.Reading
import Joinery.Proofs.Json.Written
import Joinery.Proofs.Schema.Records
import Joinery.Proofs.Sorting

/-!
# Saved results are read back

## From a result to a file and back

A result with integers of 64 bits is plain data, so its text has the value that was written;
the fields of all its records are found under their keys, whatever the order of the keys.  The
file is where it was written, and what is read from there is the same result, its files in the
order of their paths.
-/

namespace Joinery

open Json (IsPlain sortKeys)
open Config (mapping tableValue)

/-!
# Records are plain data
-/

section Plain

variable {n : Nat}

theorem isPlain_record {fields : List (String × Value)} (hnames : (fields.map Prod.fst).Nodup)
    (hvalues : forall f, f ∈ fields -> IsPlain .rounded n f.2) :
    IsPlain .rounded (n + 1) (mapping fields) := by
  refine .mapping ?_ ?_ ?_
  · intro e he
    obtain ⟨f, _, rfl⟩ := List.mem_map.mp he
    exact ⟨f.1, rfl⟩
  · exact Decode.nodup_keys hnames id
  · intro e he
    obtain ⟨f, hf, rfl⟩ := List.mem_map.mp he
    exact hvalues f hf

theorem isPlain_list {items : List α} {write : α -> Value}
    (h : forall a, a ∈ items -> IsPlain .rounded n (write a)) :
    IsPlain .rounded (n + 1) (.list (items.map write)) := by
  refine .list fun v hv => ?_
  obtain ⟨a, ha, rfl⟩ := List.mem_map.mp hv
  exact h a ha

theorem isPlain_tableValue (t : Table String) : IsPlain .rounded (n + 1) (tableValue t) := by
  refine isPlain_record ?_ ?_
  · rw [List.map_map]
    exact t.distinct
  · intro f hf
    obtain ⟨e, _, rfl⟩ := List.mem_map.mp hf
    exact .text e.2

theorem Diagnostic.isPlain {d : Diagnostic} (hline : Numeral.fits d.line = true) :
    IsPlain .rounded (n + 1) d.toValue := by
  refine isPlain_record d.nodup_names ?_
  intro f hf
  simp only [List.mem_cons, List.not_mem_nil, or_false] at hf
  rcases hf with rfl | rfl | rfl | rfl | rfl
  · exact .text d.file
  · exact .int hline
  · exact .text d.message
  · exact .text d.severity.text
  · exact .bool d.fixable

end Plain

namespace PhaseResult

def integers (p : PhaseResult) : List Int :=
  p.filesProcessed :: p.diagnostics.map (·.line)

theorem isPlain {p : PhaseResult} {n : Nat}
    (h : forall i, i ∈ p.integers -> Numeral.fits i = true) :
    IsPlain .rounded (n + 3) p.toValue := by
  refine isPlain_record p.nodup_names ?_
  intro f hf
  simp only [List.mem_cons, List.not_mem_nil, or_false] at hf
  rcases hf with rfl | rfl | rfl | rfl
  · exact .text p.phase
  · exact .text p.status.text
  · exact .int (h _ List.mem_cons_self)
  · refine isPlain_list fun d hd => ?_
    exact Diagnostic.isPlain (h _ (List.mem_cons_of_mem _ (List.mem_map_of_mem hd)))

end PhaseResult

namespace Stats

def integers (s : Stats) : List Int :=
  [s.totalFiles, s.filesCreated, s.filesModified, s.filesDeleted, s.missingFilesGenerated,
    s.validationPasses, s.errorsFixed]

theorem isPlain {s : Stats} {n : Nat} (h : forall i, i ∈ s.integers -> Numeral.fits i = true)
    (htime : Json.ReadsBack .rounded s.timeMs) : IsPlain .rounded (n + 1) s.toValue := by
  refine isPlain_record s.nodup_names ?_
  intro f hf
  simp only [List.mem_cons, List.not_mem_nil, or_false] at hf
  rcases hf with rfl | rfl | rfl | rfl | rfl | rfl | rfl | rfl
  · exact .int (h _ (by simp [integers]))
  · exact .int (h _ (by simp [integers]))
  · exact .int (h _ (by simp [integers]))
  · exact .int (h _ (by simp [integers]))
  · exact .int (h _ (by simp [integers]))
  · exact .int (h _ (by simp [integers]))
  · exact .int (h _ (by simp [integers]))
  · exact .real htime

end Stats

namespace AssemblyResult

def integers (r : AssemblyResult) : List Int :=
  r.diagnostics.map (·.line) ++ r.stats.integers ++ r.phases.flatMap PhaseResult.integers

/-- A result that a file can hold: its integers need no more than 64 bits, and its time is written
so that it is read back. -/
structure IsSavable (r : AssemblyResult) : Prop where
  integers : forall i, i ∈ r.integers -> Numeral.fits i = true
  time : Json.ReadsBack .rounded r.stats.timeMs

instance (r : AssemblyResult) : Decidable r.IsSavable :=
  decidable_of_iff
    ((forall i, i ∈ r.integers -> Numeral.fits i = true) ∧
      Json.ReadsBack .rounded r.stats.timeMs)
    ⟨fun h => ⟨h.1, h.2⟩, fun h => ⟨h.integers, h.time⟩⟩

theorem IsSavable.isPlain {r : AssemblyResult} (h : r.IsSavable) :
    IsPlain .rounded 5 r.toValue := by
  refine isPlain_record r.nodup_names ?_
  intro f hf
  simp only [List.mem_cons, List.not_mem_nil, or_false] at hf
  rcases hf with rfl | rfl | rfl | rfl | rfl | rfl | rfl
  · exact .bool r.success
  · exact .text r.projectId
  · exact isPlain_tableValue r.files
  · exact isPlain_list fun s _ => .text s
  · refine isPlain_list fun d hd => Diagnostic.isPlain (h.integers _ ?_)
    simp only [AssemblyResult.integers, List.mem_append, List.mem_map]
    exact Or.inl (Or.inl ⟨d, hd, rfl⟩)
  · refine Stats.isPlain (fun i hi => h.integers i ?_) h.time
    simp only [AssemblyResult.integers, List.mem_append]
    exact Or.inl (Or.inr hi)
  · refine isPlain_list fun p hp => PhaseResult.isPlain fun i hi => h.integers i ?_
    simp only [AssemblyResult.integers, List.mem_append, List.mem_flatMap]
    exact Or.inr ⟨p, hp, hi⟩

theorem IsSavable.exists_text {r : AssemblyResult} (h : r.IsSavable) :
    exists text, r.savedText? = some text ∧ ofText text = .ok r.sorted := by
  have hparse := h.isPlain.sorted.parse_indented (by decide) 0
  refine ⟨Json.indented 0 (sortKeys r.toValue), ?_, ?_⟩
  · rw [savedText?]
    exact if_pos h.isPlain.isWritable
  · rw [ofText, hparse]
    simp only [decode_toValue]
    rfl

/-!
# The file of a result
-/

/--
A result that was saved is read back.  If the file can be opened the result is written and read
again, and what is read is the same but for the order of its files: these are in the order of
their paths.
-/
theorem load_save {d made opened : Disk} {l : Location} {r : AssemblyResult}
    (hmade : d.ensureDirectory l.parent = ⟨made, .ok ()⟩)
    (hopened : made.write l ByteArray.empty = .ok opened) (hr : r.IsSavable) :
    exists saved loaded, save d l r = ⟨saved, .ok ()⟩ ∧ load saved l = .ok loaded ∧
      loaded = { r with files := loaded.files } ∧
      loaded.files.entries.Perm r.files.entries ∧ loaded.files.keys.Pairwise (· < ·) := by
  obtain ⟨text, htext, hread⟩ := hr.exists_text
  obtain ⟨saved, hsaved, hfile⟩ := Disk.read_of_write hopened (Utf8.encode text)
  have hempty : d.writeWithin l ByteArray.empty = ⟨opened, .ok ()⟩ := by
    rw [Disk.writeWithin, hmade, Disk.Changed.andThen, hopened]
    rfl
  have hentries : r.sorted.files.entries = r.files.sortedEntries :=
    r.files.entries_ofList_sortedEntries
  refine ⟨saved, r.sorted, ?_, ?_, rfl, ?_, ?_⟩
  · rw [save, hempty, htext]
    show (opened.after (opened.write l (Utf8.encode text))).mapError Obstacle.disk = _
    rw [hsaved]
    rfl
  · simp only [load, hfile, Utf8.decode_encode, hread, Except.mapError, bind, Except.bind]
  · rw [hentries]
    exact r.files.sortedEntries_perm
  · rw [Table.keys, hentries]
    exact List.pairwise_map.mpr (sortBy_strict Prod.fst r.files.distinct)

/-- A result with texts that need escapes, files out of order, and a phase that failed. -/
def failedRun : AssemblyResult :=
  { success := false
    projectId := "p \"\\\x01\x7f"
    files := { entries := [("src/𝓐.ts", "\t'\"\r\n"), ("src/b.ts", "\x08\x0c/é"), ("a.ts", "")] }
    dependencies := ["react", "@scope/lib"]
    diagnostics := [{ file := "a.ts", line := -1, message := "\u2028", severity := .warning }]
    stats := { totalFiles := 18446744073709551615, timeMs := Binary64.nearest false 25 2 }
    phases :=
      [{ phase := "validation"
         status := .failed
         filesProcessed := -9223372036854775808
         diagnostics :=
          [{ file := "src/b.ts"
             line := 3
             message := "\u0000\x1f"
             severity := .error
             fixable := true }] }] }

theorem load_save_failedRun :
    let d := Disk.blank ["home"]
    let l : Location := { slashes := 0, names := ["out", "result.json"] }
    let made : Disk := d.put ["home", "out"] .directory
    let opened : Disk := made.put ["home", "out", "result.json"] (.file ByteArray.empty)
    d.ensureDirectory l.parent = ⟨made, .ok ()⟩ ∧ made.write l ByteArray.empty = .ok opened ∧
      failedRun.IsSavable ∧
      exists saved loaded, save d l failedRun = ⟨saved, .ok ()⟩ ∧ load saved l = .ok loaded ∧
        loaded = { failedRun with files := loaded.files } ∧
        loaded.files.entries.Perm failedRun.files.entries ∧
        loaded.files.keys.Pairwise (· < ·) := by
  have hsavable : failedRun.IsSavable := by
    decide +kernel
  exact ⟨rfl, rfl, hsavable, load_save rfl rfl hsavable⟩

end AssemblyResult

end Joinery
