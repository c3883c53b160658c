import Joinery.Proofs.ExportFix.Wanted
import Joinery.Proofs.FileSet.Reachable
import Joinery.Proofs.SourceModule.ExportList
import Joinery.Proofs.Validation.Rewriting

/-!
# Mending files

## Repairs as one rewriting

The operations of a repair write to different files, all of which are there.  Applied one
after the other they therefore rewrite the files at once: each file gets an export list
of the names that it can export by one, and stays as it is if there are none.
-/

namespace Joinery
namespace ExportFix

open SourceModule Text

def mend (text : String) (names : List String) : String :=
  if (addable text names).isEmpty then text else withExportList text (addable text names)

def edit (target text : String) (names : List String) : FileOperation :=
  { path := target
    action := .modify
    content := some (mend text names)
    description := some ("Export " ++ ", ".intercalate (addable text names) ++ " by name") }

def operationsFor (files : Table String) (entries : List (String × List String)) :
    List FileOperation :=
  entries.filterMap fun entry => operationFor files entry.1 entry.2

def operations (request : FixRequest) : List FileOperation :=
  operationsFor request.files request.missingByTarget.entries

/-!
# What can be added
-/

theorem mem_addable {text name : String} {names : List String} (h : name ∈ addable text names) :
    name ∈ names := by
  unfold addable at h
  dsimp only at h
  split at h
  · cases h
  · split at h
    · cases h
    · exact (List.mem_filter.mp h).1

@[simp] theorem addable_nil (text : String) : addable text [] = [] :=
  List.eq_nil_iff_forall_not_mem.mpr fun _ hname => List.not_mem_nil (mem_addable hname)

theorem of_addable {text : String} {names : List String} (h : addable text names ≠ []) :
    (scan "" text).exports.commonjs = false ∧ findAll exportListStart text.toList = [] := by
  unfold addable at h
  dsimp only at h
  split at h
  · exact absurd rfl h
  · next hexports =>
      split at h
      · exact absurd rfl h
      · next hlist =>
          rw [Bool.or_eq_true, not_or, Bool.not_eq_true, Bool.not_eq_true] at hexports
          rw [Bool.not_eq_true, Bool.not_eq_false', List.isEmpty_iff] at hlist
          exact ⟨hexports.2, hlist⟩

theorem addable_eq_nil_iff {text : String} {names : List String} :
    addable text names = [] <-> forall name, name ∈ names -> addable text [name] = [] := by
  unfold addable
  dsimp only
  split
  · exact iff_of_true rfl fun _ _ => rfl
  · split
    · exact iff_of_true rfl fun _ _ => rfl
    · simp only [List.filter_eq_nil_iff, List.mem_singleton, forall_eq]

theorem addable_withExportList (text : String) (names more : List String) :
    addable (withExportList text names) more = [] := by
  cases hmore : addable (withExportList text names) more with
  | nil =>
      rfl
  | cons name rest =>
      have hne : addable (withExportList text names) more ≠ [] := by
        rw [hmore]
        exact List.cons_ne_nil _ _
      exact absurd (of_addable hne).2 hasExportList_withExportList

theorem mend_of_nil {text : String} {names : List String} (h : addable text names = []) :
    mend text names = text := by
  unfold mend
  rw [h]
  rfl

theorem mend_of_ne_nil {text : String} {names : List String} (h : addable text names ≠ []) :
    mend text names = withExportList text (addable text names) := by
  unfold mend
  rw [if_neg (by rw [List.isEmpty_iff]; exact h)]

/-!
# The operations of a repair
-/

theorem operationFor_eq (files : Table String) (target : String) (names : List String) :
    operationFor files target names =
      (files.get? target).bind fun text =>
        if (addable text names).isEmpty then none else some (edit target text names) := by
  unfold operationFor edit
  cases files.get? target with
  | none =>
      rfl
  | some text =>
      dsimp only [Option.bind_some]
      by_cases h : addable text names = []
      · simp [h]
      · have hsome : (addable text names).isEmpty = false := by
          rw [List.isEmpty_eq_false_iff]
          exact h
        rw [mend_of_ne_nil h, hsome]

theorem operationFor_eq_some_iff {files : Table String} {target : String} {names : List String}
    {op : FileOperation} :
    operationFor files target names = some op <->
      exists text, files.get? target = some text ∧ addable text names ≠ [] ∧
        op = edit target text names := by
  rw [operationFor_eq, Option.bind_eq_some_iff]
  constructor
  · rintro ⟨text, htext, hop⟩
    split at hop
    · cases hop
    · next hempty =>
        cases hop
        exact ⟨text, htext, fun hnil => hempty (List.isEmpty_iff.mpr hnil), rfl⟩
  · rintro ⟨text, htext, hne, rfl⟩
    refine ⟨text, htext, ?_⟩
    rw [if_neg (by rw [List.isEmpty_iff]; exact hne)]

theorem operationsFor_cons (files : Table String) (entry : String × List String)
    (rest : List (String × List String)) :
    operationsFor files (entry :: rest) =
      (operationFor files entry.1 entry.2).toList ++ operationsFor files rest := by
  unfold operationsFor
  rw [List.filterMap_cons]
  cases operationFor files entry.1 entry.2 <;> rfl

theorem mem_operations_iff {request : FixRequest} {op : FileOperation} :
    op ∈ operations request <->
      exists text, request.files.get? op.path = some text ∧
        addable text (request.wanted op.path) ≠ [] ∧
        op = edit op.path text (request.wanted op.path) := by
  constructor
  · intro hop
    obtain ⟨⟨target, names⟩, hentry, hop⟩ := List.mem_filterMap.mp hop
    obtain ⟨text, htext, hne, rfl⟩ := operationFor_eq_some_iff.mp hop
    have hwanted : request.wanted target = names := by
      unfold FixRequest.wanted
      rw [Table.get?_of_mem hentry]
      rfl
    refine ⟨text, htext, ?_, ?_⟩
    · show addable text (request.wanted target) ≠ []
      rw [hwanted]
      exact hne
    · show edit target text names = edit target text (request.wanted target)
      rw [hwanted]
  · rintro ⟨text, htext, hne, hop⟩
    cases hnames : request.missingByTarget.get? op.path with
    | none =>
        have hwanted : request.wanted op.path = [] := by
          unfold FixRequest.wanted
          rw [hnames]
          rfl
        rw [hwanted] at hne
        exact absurd (addable_nil text) hne
    | some names =>
        have hwanted : request.wanted op.path = names := by
          unfold FixRequest.wanted
          rw [hnames]
          rfl
        rw [hwanted] at hne hop
        refine List.mem_filterMap.mpr ⟨(op.path, names), Table.mem_of_get? hnames, ?_⟩
        exact operationFor_eq_some_iff.mpr ⟨text, htext, hne, hop⟩

theorem nodup_operations (request : FixRequest) :
    ((operations request).map (·.path)).Nodup := by
  have hsub : forall entries : List (String × List String),
      ((operationsFor request.files entries).map (·.path)).Sublist (entries.map (·.1)) := by
    intro entries
    induction entries with
    | nil =>
        exact List.Sublist.refl _
    | cons entry rest ih =>
        rw [operationsFor_cons]
        cases hop : operationFor request.files entry.1 entry.2 with
        | none =>
            exact ih.cons _
        | some op =>
            obtain ⟨text, _, _, rfl⟩ := operationFor_eq_some_iff.mp hop
            exact ih.cons_cons _
  exact request.missingByTarget.distinct.sublist (hsub _)

theorem applyOperation_edit (files : Table String) (target text : String) (names : List String) :
    FileSet.applyOperation files (edit target text names) =
      files.insert (Path.canonical target) (mend text names) := by
  simp only [FileSet.applyOperation, edit, Option.getD_some]

theorem foldl_operationFor {files current : Table String} {target : String} {names : List String}
    (hcanonical : forall key, key ∈ files.keys -> Path.canonical key = key)
    (hsame : current.get? target = files.get? target) :
    (operationFor files target names).toList.foldl FileSet.applyOperation current =
      current.mapValues fun path text => if path = target then mend text names else text := by
  cases hop : operationFor files target names with
  | none =>
      have hkeeps : (current.mapValues fun path text =>
          if path = target then mend text names else text) =
            current.mapValues fun _ text => text := by
        refine Table.mapValues_congr ?_
        intro path text htext
        by_cases hpath : path = target
        · subst hpath
          have hnil : addable text names = [] := by
            by_contra hne
            rw [operationFor_eq_some_iff.mpr ⟨text, hsame.symm.trans htext, hne, rfl⟩] at hop
            cases hop
          rw [if_pos rfl, mend_of_nil hnil]
        · rw [if_neg hpath]
      rw [hkeeps, Table.mapValues_id]
      rfl
  | some op =>
      obtain ⟨text, htext, _, rfl⟩ := operationFor_eq_some_iff.mp hop
      have hvalue : current.get? target = some text := hsame.trans htext
      have hkey : Path.canonical target = target :=
        hcanonical target ((Table.mem_keys_iff files target).mpr ⟨text, htext⟩)
      rw [Option.toList_some, List.foldl_cons, List.foldl_nil, applyOperation_edit, hkey,
        Table.insert_eq_mapValues
          ((Table.mem_keys_iff current target).mpr ⟨text, hvalue⟩)]
      refine Table.mapValues_congr ?_
      intro path old hold
      by_cases hpath : path = target
      · subst hpath
        rw [hvalue] at hold
        cases hold
        rw [if_pos rfl]
      · rw [if_neg hpath, if_neg hpath]

theorem foldl_operationsFor {files : Table String}
    (hcanonical : forall key, key ∈ files.keys -> Path.canonical key = key)
    {entries : List (String × List String)} (hentries : (entries.map (·.1)).Nodup)
    (current : Table String)
    (hsame : forall key, key ∈ entries.map (·.1) -> current.get? key = files.get? key) :
    (operationsFor files entries).foldl FileSet.applyOperation current =
      current.mapValues fun path text => mend text ((entries.lookup path).getD []) := by
  induction entries generalizing current with
  | nil =>
      have hid : (fun (path text : String) =>
          mend text ((([] : List (String × List String)).lookup path).getD [])) =
            fun _ text => text := by
        funext path text
        exact mend_of_nil (addable_nil text)
      rw [hid, Table.mapValues_id]
      rfl
  | cons entry rest ih =>
      obtain ⟨target, names⟩ := entry
      obtain ⟨hnew, hrest⟩ := List.nodup_cons.mp hentries
      have hsameRest : forall key, key ∈ rest.map (·.1) ->
          (current.mapValues fun path text =>
            if path = target then mend text names else text).get? key = files.get? key := by
        intro key hkey
        have hne : key ≠ target := fun heq => hnew (heq ▸ hkey)
        rw [Table.get?_mapValues, hsame key (List.mem_cons_of_mem _ hkey)]
        simp only [if_neg hne, Option.map_id']
      rw [operationsFor_cons, List.foldl_append,
        foldl_operationFor hcanonical (hsame target (List.mem_cons_self ..)),
        ih hrest _ hsameRest, Table.mapValues_mapValues]
      refine Table.mapValues_congr ?_
      intro path text _
      by_cases hpath : path = target
      · subst hpath
        have hlookup : rest.lookup path = none := by
          refine List.lookup_eq_none_iff.mpr fun row hrow => bne_iff_ne.mpr fun heq => hnew ?_
          exact List.mem_map.mpr ⟨row, hrow, heq.symm⟩
        rw [if_pos rfl, hlookup, List.lookup_cons_self]
        exact mend_of_nil (addable_nil _)
      · rw [if_neg hpath, Entries.lookup_cons_of_ne fun heq => hpath heq.symm]

theorem foldl_operations (request : FixRequest)
    (hcanonical : forall key, key ∈ request.files.keys -> Path.canonical key = key) :
    (operations request).foldl FileSet.applyOperation request.files =
      request.files.mapValues fun path text => mend text (request.wanted path) :=
  foldl_operationsFor hcanonical request.missingByTarget.distinct request.files fun _ _ => rfl

/-!
# What mending keeps
-/

variable {wanted : String -> List String}

theorem keepsLinks_mend (h : forall path name, name ∈ wanted path -> IsIdentifier name) :
    KeepsLinks fun path text => mend text (wanted path) := by
  constructor
  · intro path text
    by_cases hnil : addable text (wanted path) = []
    · rw [mend_of_nil hnil]
    · rw [mend_of_ne_nil hnil]
      exact imports_withExportList fun name hname => h path name (mem_addable hname)
  · intro path text
    by_cases hnil : addable text (wanted path) = []
    · rw [mend_of_nil hnil]
    · rw [mend_of_ne_nil hnil]
      exact starSources_withExportList fun name hname => h path name (mem_addable hname)

/-- The name that mending takes from the exports of a file, where its text ends in an exported
enumeration without a name. -/
def Lost (wanted : String -> List String) (files : Table String) (path name : String) : Prop :=
  name = "enum" ∧ exists text, files.get? path = some text ∧ addable text (wanted path) ≠ [] ∧
    endsInUnnamedEnum text = true

theorem losesOnly_mend {files : Table String}
    (h : forall path name, name ∈ wanted path -> IsIdentifier name) :
    LosesOnly (Lost wanted files) files fun path text => mend text (wanted path) := by
  intro path text name htext hname
  show name ∈ (scan path (mend text (wanted path))).exports.names ∨ _
  by_cases hnil : addable text (wanted path) = []
  · rw [mend_of_nil hnil]
    exact Or.inl hname
  · rw [mend_of_ne_nil hnil]
    rcases names_withExportList (fun name hname => h path name (mem_addable hname))
        (of_addable hnil).1 hname with hkept | ⟨rfl, hend⟩
    · exact Or.inl hkept
    · exact Or.inr ⟨rfl, text, htext, hnil, hend⟩

end ExportFix
end Joinery
