import Joinery.Proofs.Validation.StarExports
import Mathlib.Data.List.Flatten
import Mathlib.Data.List.Forall2

/-!
# Editing one file

## What other files notice

When one file of a snapshot is edited, other files notice its exports and nothing else
of it.  If it exports no less than before, by its own text and by star re-exports, then
no other file gets a new finding: errors may vanish, and the imports that lead nowhere
stay what they were.  What the edited file imports is a matter of its own.
-/

namespace Joinery

open SourceModule

/-- The same files in the same order, with the same texts but for one file. -/
def EditedAt (edited : String) (before after : Table String) : Prop :=
  List.Forall₂ (fun old new => new.1 = old.1 ∧ (old.1 ≠ edited -> new.2 = old.2))
    before.entries after.entries

namespace EditedAt

variable {edited : String} {before after : Table String}

theorem symm (h : EditedAt edited before after) : EditedAt edited after before := by
  refine List.Forall₂.flip (h.imp ?_)
  rintro old new ⟨hkey, htext⟩
  refine ⟨hkey.symm, ?_⟩
  intro hne
  rw [hkey] at hne
  exact (htext hne).symm

theorem get?_other (h : EditedAt edited before after) {path : String} (hne : path ≠ edited) :
    after.get? path = before.get? path := by
  unfold EditedAt at h
  unfold Table.get?
  generalize before.entries = before, after.entries = after at h ⊢
  induction h with
  | nil =>
      rfl
  | @cons old new before after hentry _ ih =>
      obtain ⟨hkey, htext⟩ := hentry
      rw [List.lookup_cons, List.lookup_cons, hkey, ih]
      by_cases heq : path = old.1
      · rw [htext (heq ▸ hne)]
      · rw [beq_eq_false_iff_ne.mpr heq]

theorem contains (h : EditedAt edited before after) : after.contains = before.contains := by
  unfold EditedAt at h
  funext path
  unfold Table.contains Table.get?
  generalize before.entries = before, after.entries = after at h ⊢
  induction h with
  | nil =>
      rfl
  | @cons old new before after hentry _ ih =>
      rw [List.lookup_cons, List.lookup_cons, hentry.1]
      split
      · rfl
      · exact ih

theorem filter_entries (h : EditedAt edited before after) {file : String} (hne : file ≠ edited) :
    after.entries.filter (fun entry => entry.1 = file) =
      before.entries.filter fun entry => entry.1 = file := by
  unfold EditedAt at h
  generalize before.entries = before, after.entries = after at h ⊢
  induction h with
  | nil =>
      rfl
  | @cons old new before after hentry _ ih =>
      obtain ⟨hkey, htext⟩ := hentry
      by_cases heq : old.1 = file
      · have hsame : new = old := Prod.ext hkey (htext (heq ▸ hne))
        rw [List.filter_cons_of_pos (by simpa [hsame] using heq),
          List.filter_cons_of_pos (by simpa using heq), ih, hsame]
      · rw [List.filter_cons_of_neg (by simpa [hkey] using heq),
          List.filter_cons_of_neg (by simpa using heq), ih]

end EditedAt

/-- One text exports what another one does, by name and as a whole. -/
structure ExportsAsMuch (path old new : String) : Prop where
  names : forall name, name ∈ (scan path old).exports.names ->
    name ∈ (scan path new).exports.names
  starSources : forall source, source ∈ (scan path old).exports.starSources ->
    source ∈ (scan path new).exports.starSources

namespace Report

def about (r : Report) (file : String) : List Diagnostic :=
  r.diagnostics.filter fun d => d.file = file

def unresolvedIn (r : Report) (file : String) : List UnresolvedImport :=
  r.unresolved.filter fun u => u.file = file

end Report

namespace Validator

variable {v : Validator} {edited : String} {before after : Table String}

/-!
# Export sets
-/

theorem exists_module_of_edited (h : EditedAt edited before after) {old new : String}
    (hold : before.get? edited = some old) (hnew : after.get? edited = some new)
    (hexports : ExportsAsMuch edited old new) {path : String} {m : SourceModule}
    (hm : (scanAll v.resolver before).get? path = some m) :
    exists later, (scanAll v.resolver after).get? path = some later ∧
      (forall name, name ∈ m.exports.names -> name ∈ later.exports.names) ∧
      forall source, source ∈ m.exports.starSources -> source ∈ later.exports.starSources := by
  by_cases hpath : path = edited
  · subst hpath
    rw [get?_scanAll, hold] at hm
    rw [get?_scanAll, hnew]
    split at hm
    · next hsource =>
        cases hm
        exact ⟨_, if_pos hsource, hexports.names, hexports.starSources⟩
    · cases hm
  · rw [get?_scanAll, <- h.get?_other hpath, <- get?_scanAll] at hm
    exact ⟨m, hm, fun _ hname => hname, fun _ hsource => hsource⟩

theorem ownNames_of_edited (h : EditedAt edited before after) {old new : String}
    (hold : before.get? edited = some old) (hnew : after.get? edited = some new)
    (hexports : ExportsAsMuch edited old new) (deeper : Nat) {path name : String}
    (hname : name ∈ (v.exportIndex before).ownNames path) :
    name ∈ ({ v with depth := deeper }.exportIndex after).ownNames path := by
  obtain ⟨m, hm, hname⟩ := ExportIndex.mem_ownNames_iff.mp hname
  obtain ⟨later, hlater, hnames, _⟩ := exists_module_of_edited h hold hnew hexports hm
  exact ExportIndex.mem_ownNames_iff.mpr ⟨later, hlater, hnames name hname⟩

theorem starTargets_of_edited (h : EditedAt edited before after) {old new : String}
    (hold : before.get? edited = some old) (hnew : after.get? edited = some new)
    (hexports : ExportsAsMuch edited old new) (deeper : Nat) {path target : String}
    (htarget : target ∈ (v.exportIndex before).starTargets path) :
    target ∈ ({ v with depth := deeper }.exportIndex after).starTargets path := by
  obtain ⟨m, source, hm, hsource, hresolve⟩ := ExportIndex.mem_starTargets_iff.mp htarget
  obtain ⟨later, hlater, _, hsources⟩ := exists_module_of_edited h hold hnew hexports hm
  refine ExportIndex.mem_starTargets_iff.mpr ⟨later, source, hlater, hsources source hsource, ?_⟩
  show v.resolver.resolve source path after.contains = some target
  rw [h.contains]
  exact hresolve

theorem names_of_edited (h : EditedAt edited before after) {old new : String}
    (hold : before.get? edited = some old) (hnew : after.get? edited = some new)
    (hexports : ExportsAsMuch edited old new) {deeper : Nat} (hdepth : v.depth ≤ deeper)
    {path name : String} (hname : name ∈ (v.exportIndex before).names path) :
    name ∈ ({ v with depth := deeper }.exportIndex after).names path :=
  ExportIndex.names_mono (fun _ _ => ownNames_of_edited h hold hnew hexports deeper)
    (fun _ _ => starTargets_of_edited h hold hnew hexports deeper) hdepth hname

/-!
# Findings of one file
-/

theorem filter_flatMap_of_owner {α β : Type} {l : List α} {found : α -> List β}
    {owner : α -> String} {file : β -> String}
    (h : forall a, a ∈ l -> forall b, b ∈ found a -> file b = owner a) (path : String) :
    (l.flatMap found).filter (fun b => file b = path) =
      (l.filter fun a => owner a = path).flatMap found := by
  induction l with
  | nil =>
      rfl
  | cons a rest ih =>
      have hrest := ih fun a' ha' => h a' (List.mem_cons_of_mem a ha')
      rw [List.flatMap_cons, List.filter_append, hrest]
      by_cases hpath : owner a = path
      · have hall : (found a).filter (fun b => file b = path) = found a := by
          refine List.filter_eq_self.mpr ?_
          intro b hb
          rw [h a (List.mem_cons_self ..) b hb]
          exact decide_eq_true hpath
        rw [List.filter_cons_of_pos (by simpa using hpath), List.flatMap_cons, hall]
      · have hnone : (found a).filter (fun b => file b = path) = [] := by
          refine List.filter_eq_nil_iff.mpr ?_
          intro b hb
          rw [h a (List.mem_cons_self ..) b hb]
          simpa using hpath
        rw [List.filter_cons_of_neg (by simpa using hpath), hnone, List.nil_append]

theorem place_of_mem_diagnostics {index : ExportIndex} {path : String} {record : Import}
    {d : Diagnostic} (h : d ∈ (v.checkImport index path record).diagnostics) :
    d.file = path ∧ d.line = record.line := by
  rw [checkImport_diagnostics] at h
  rcases List.mem_append.mp h with h | h
  · split at h
    · obtain ⟨u, hu, rfl⟩ := List.mem_map.mp h
      rw [(mem_unresolved_iff.mp hu).2.2]
      exact ⟨rfl, rfl⟩
    · cases h
  · obtain ⟨m, hm, rfl⟩ := List.mem_map.mp h
    exact (mem_missing_iff.mp hm).2.2.2.2.2

def entriesOf (v : Validator) (files : Table String) (path : String) : List (String × String) :=
  (files.entries.filter fun entry => entry.1 = path).filter fun entry =>
    v.resolver.isSourceFile entry.1

theorem about_eq (v : Validator) (files : Table String) (path : String) :
    (v.validate files).about path =
      (v.entriesOf files path).flatMap fun entry =>
        (scan entry.1 entry.2).imports.flatMap fun record =>
          (v.checkImport (v.exportIndex files) entry.1 record).diagnostics := by
  unfold Report.about entriesOf
  rw [diagnostics_eq, checks_eq, List.flatMap_assoc, List.filter_comm]
  simp only [List.flatMap_map]
  refine filter_flatMap_of_owner ?_ path
  intro entry _ d hd
  obtain ⟨record, _, hd⟩ := List.mem_flatMap.mp hd
  exact (place_of_mem_diagnostics hd).1

theorem unresolvedIn_eq (v : Validator) (files : Table String) (path : String) :
    (v.validate files).unresolvedIn path =
      (v.entriesOf files path).flatMap fun entry =>
        (scan entry.1 entry.2).imports.flatMap fun record =>
          (v.checkImport (v.exportIndex files) entry.1 record).unresolved := by
  unfold Report.unresolvedIn entriesOf
  rw [unresolved_eq, checks_eq, List.flatMap_assoc, List.filter_comm]
  simp only [List.flatMap_map]
  refine filter_flatMap_of_owner ?_ path
  intro entry _ u hu
  obtain ⟨record, _, hu⟩ := List.mem_flatMap.mp hu
  rw [(mem_unresolved_iff.mp hu).2.2]

theorem filter_isWarning_about (v : Validator) (files : Table String) (path : String) :
    ((v.validate files).about path).filter Diagnostic.isWarning =
      if v.reportsImports then
        ((v.validate files).unresolvedIn path).map UnresolvedImport.diagnostic
      else [] := by
  unfold Report.about Report.unresolvedIn
  rw [List.filter_comm]
  show (v.validate files).warnings.filter _ = _
  rw [warnings_eq]
  split
  · rw [List.filter_map]
    rfl
  · rfl

/-!
# Findings before and after
-/

theorem missingNames_sublist {exported more : List String}
    (h : forall name, name ∈ exported -> name ∈ more) (record : Import) :
    (missingNames more record).Sublist (missingNames exported record) := by
  refine List.monotone_filter_right _ ?_
  intro name hlacks
  rw [Bool.and_eq_true, Bool.not_eq_true', List.contains_eq_mem, decide_eq_false_iff_not]
    at hlacks ⊢
  exact ⟨hlacks.1, fun hname => hlacks.2 (h name hname)⟩

theorem checkImport_sublist {index wider : ExportIndex}
    (havailable : wider.available = index.available)
    (hnames : forall path name, name ∈ index.names path -> name ∈ wider.names path) (path : String)
    (record : Import) :
    (v.checkImport wider path record).diagnostics.Sublist
      (v.checkImport index path record).diagnostics := by
  unfold checkImport
  rw [havailable]
  split
  · exact List.Sublist.refl _
  · dsimp only
    split
    · exact List.Sublist.refl _
    · next target _ =>
        split
        · exact ((missingNames_sublist (hnames target) record).map _).map _
        · exact List.Sublist.refl _

theorem entriesOf_of_edited (h : EditedAt edited before after) {file : String} (hne : file ≠ edited)
    (deeper : Nat) :
    { v with depth := deeper }.entriesOf after file = v.entriesOf before file := by
  unfold entriesOf
  rw [h.filter_entries hne]

theorem about_sublist (h : EditedAt edited before after) {old new : String}
    (hold : before.get? edited = some old) (hnew : after.get? edited = some new)
    (hexports : ExportsAsMuch edited old new) {deeper : Nat} (hdepth : v.depth ≤ deeper)
    {file : String} (hne : file ≠ edited) :
    (({ v with depth := deeper }.validate after).about file).Sublist
      ((v.validate before).about file) := by
  rw [about_eq, about_eq, entriesOf_of_edited h hne]
  refine List.Sublist.flatMap_right _ ?_
  intro entry _
  refine List.Sublist.flatMap_right _ ?_
  intro record _
  exact checkImport_sublist h.contains
    (fun _ _ => names_of_edited h hold hnew hexports hdepth) entry.1 record

theorem unresolvedIn_of_edited (h : EditedAt edited before after) (deeper : Nat) {file : String}
    (hne : file ≠ edited) :
    ({ v with depth := deeper }.validate after).unresolvedIn file =
      (v.validate before).unresolvedIn file := by
  rw [unresolvedIn_eq, unresolvedIn_eq, entriesOf_of_edited h hne]
  have hsame : forall path record,
      (v.checkImport ({ v with depth := deeper }.exportIndex after) path record).unresolved =
        (v.checkImport (v.exportIndex before) path record).unresolved :=
    checkImport_unresolved_congr h.contains
  exact congrArg (List.flatMap · _) (funext fun entry =>
    congrArg (List.flatMap · _) (funext fun record => hsame entry.1 record))

/--
An edit that takes no export away adds no finding to another file, also at a greater depth, and it
leaves the imports that lead nowhere as they are; an edit that leaves the exports as they are leaves
all findings of other files as they are.
-/
theorem about_of_edited (v : Validator) {edited : String} {before after : Table String}
    (h : EditedAt edited before after) {old new : String} (hold : before.get? edited = some old)
    (hnew : after.get? edited = some new) (hexports : ExportsAsMuch edited old new) {deeper : Nat}
    (hdepth : v.depth ≤ deeper) {file : String} (hne : file ≠ edited) :
    (({ v with depth := deeper }.validate after).about file).Sublist
        ((v.validate before).about file) ∧
      (({ v with depth := deeper }.validate after).about file).filter Diagnostic.isWarning =
        ((v.validate before).about file).filter Diagnostic.isWarning ∧
      ({ v with depth := deeper }.validate after).unresolvedIn file =
        (v.validate before).unresolvedIn file ∧
      (ExportsAsMuch edited new old -> deeper = v.depth ->
        ({ v with depth := deeper }.validate after).about file =
          (v.validate before).about file) := by
  have hunresolved := unresolvedIn_of_edited (v := v) h deeper hne
  have hsublist := about_sublist h hold hnew hexports hdepth hne
  refine ⟨hsublist, ?_, hunresolved, ?_⟩
  · rw [filter_isWarning_about, filter_isWarning_about, hunresolved]
  · rintro hback rfl
    -- the edit can be taken back, which adds nothing either
    have hreverse := about_sublist (v := v) h.symm hnew hold hback (Nat.le_refl _) hne
    exact hsublist.antisymm hreverse

/-- A file behind a barrel gets an export and an import; one of two errors of its user vanishes. -/
theorem about_of_edited_barrel :
    let v : Validator := { resolver := Resolver.make none [], depth := 2 }
    let old := "export const a = 1\n"
    let new := "import x from './gone'\nexport const a = 1\nexport const b = 2\n"
    let user := "import \x7b a, b, c \x7d from './all'\nimport y from './lost'\n"
    let before : Table String :=
      { entries :=
          [("src/t.ts", old), ("src/all.ts", "export * from './t'\n"), ("src/a.ts", user)] }
    let after : Table String :=
      { entries :=
          [("src/t.ts", new), ("src/all.ts", "export * from './t'\n"), ("src/a.ts", user)] }
    EditedAt "src/t.ts" before after ∧ before.get? "src/t.ts" = some old ∧
      after.get? "src/t.ts" = some new ∧ ExportsAsMuch "src/t.ts" old new ∧ v.depth ≤ 3 ∧
      "src/a.ts" ≠ "src/t.ts" ∧ ((v.validate before).about "src/a.ts").length = 3 ∧
      (({ v with depth := 3 }.validate after).about "src/a.ts").Sublist
        ((v.validate before).about "src/a.ts") ∧
      (({ v with depth := 3 }.validate after).about "src/a.ts").filter Diagnostic.isWarning =
        ((v.validate before).about "src/a.ts").filter Diagnostic.isWarning ∧
      ({ v with depth := 3 }.validate after).unresolvedIn "src/a.ts" =
        (v.validate before).unresolvedIn "src/a.ts" ∧
      (ExportsAsMuch "src/t.ts" new old -> 3 = v.depth ->
        ({ v with depth := 3 }.validate after).about "src/a.ts" =
          (v.validate before).about "src/a.ts") := by
  intro v old new user before after
  have hedited : EditedAt "src/t.ts" before after := by
    unfold EditedAt
    decide +kernel
  have hexports : ExportsAsMuch "src/t.ts" old new := ⟨by decide +kernel, by decide +kernel⟩
  have hold : before.get? "src/t.ts" = some old := by decide +kernel
  have hnew : after.get? "src/t.ts" = some new := by decide +kernel
  have hdepth : v.depth ≤ 3 := by decide
  have hne : "src/a.ts" ≠ "src/t.ts" := by decide
  refine ⟨hedited, hold, hnew, hexports, hdepth, hne, by decide +kernel, ?_⟩
  exact about_of_edited v hedited hold hnew hexports hdepth hne

end Validator
end Joinery
