import Joinery.Proofs.ExportFix.Mending
import Joinery.Proofs.FileSet.History

/-!
# Soundness of the repair of exports

## What a repair changes in the next report

A repair takes errors away and adds none, with one exception: a text that ends in an
exported enumeration without a name exports the word `enum` until something is written
behind it.  What a repair writes down as exported is exported afterwards, unless an
earlier list of names lacks its closing brace and takes the new one in.
-/

namespace Joinery

open SourceModule

def Validator.request (v : Validator) (files : Table String) (pass : Int)
    (missing : List MissingFile) : FixRequest :=
  { pass := pass
    errors := (v.validate files).errors
    missingExports := (v.validate files).missingExports
    files := files
    missingFiles := missing }

def Validator.wanted (v : Validator) (files : Table String) (target : String) : List String :=
  (v.request files 0 []).wanted target

def Validator.mendAll (v : Validator) (files : Table String) : Table String :=
  files.mapValues fun path text => ExportFix.mend text (v.wanted files path)

namespace ExportFix

variable {v : Validator} {files : Table String} {s : FileSet} {pass : Int}
  {missing : List MissingFile}

theorem mem_operations_request_iff {op : FileOperation} :
    op ∈ operations (v.request files pass missing) <->
      exists text, files.get? op.path = some text ∧ addable text (v.wanted files op.path) ≠ [] ∧
        op = edit op.path text (v.wanted files op.path) :=
  mem_operations_iff

theorem isIdentifier_of_wanted {path name : String} (h : name ∈ v.wanted files path) :
    IsIdentifier name := by
  obtain ⟨m, hm, _, rfl⟩ := FixRequest.mem_wanted_iff.mp h
  exact Validator.isIdentifier_of_missing hm

theorem unresolved_mendAll (v : Validator) (files : Table String) :
    (v.validate (v.mendAll files)).unresolved = (v.validate files).unresolved :=
  Validator.unresolved_mapValues (keepsLinks_mend fun _ _ => isIdentifier_of_wanted)

theorem warnings_mendAll (v : Validator) (files : Table String) :
    (v.validate (v.mendAll files)).warnings = (v.validate files).warnings :=
  Validator.warnings_mapValues (keepsLinks_mend fun _ _ => isIdentifier_of_wanted)

theorem missingExports_mendAll {m : MissingExport}
    (h : m ∈ (v.validate (v.mendAll files)).missingExports) :
    m ∈ (v.validate files).missingExports ∨
      exists other, (v.exportIndex files).PassesOn m.target other ∧
        Lost (v.wanted files) files other m.name :=
  Validator.missingExports_mapValues (keepsLinks_mend fun _ _ => isIdentifier_of_wanted)
    (losesOnly_mend fun _ _ => isIdentifier_of_wanted) h

/-!
# The message of a missing export
-/

theorem message_inj {m n : MissingExport} (hm : IsIdentifier m.name) (hn : IsIdentifier n.name)
    (h : m.diagnostic.message = n.diagnostic.message) : m.name = n.name ∧ m.target = n.target := by
  have hplain : forall k : MissingExport, IsIdentifier k.name ->
      k.name.toList.takeWhile (fun ch => ch != '\'') = k.name.toList := by
    intro k hk
    refine List.takeWhile_eq_self_iff.mpr ?_
    intro ch hch
    have hclass := hk.char hch
    rw [bne_iff_ne]
    rintro rfl
    revert hclass
    decide +kernel
  have htext : forall k : MissingExport, k.diagnostic.message.toList =
      "Named import '".toList ++
        (k.name.toList ++ '\'' :: (" not found in exports of ".toList ++ k.target.toList)) := by
    intro k
    have hmiddle : ("' not found in exports of ").toList =
        '\'' :: " not found in exports of ".toList := by decide +kernel
    unfold MissingExport.diagnostic
    rw [String.toList_append, String.toList_append, String.toList_append, hmiddle]
    simp only [List.append_assoc, List.cons_append]
  have hlists := congrArg String.toList h
  rw [htext, htext] at hlists
  have hrest := List.append_cancel_left hlists
  have hname : m.name.toList = n.name.toList := by
    have hfirst := congrArg (List.takeWhile fun ch => ch != '\'') hrest
    rw [List.takeWhile_append_of_pos, List.takeWhile_append_of_pos] at hfirst
    · simpa using hfirst
    · intro ch hch
      exact List.takeWhile_eq_self_iff.mp (hplain n hn) ch hch
    · intro ch hch
      exact List.takeWhile_eq_self_iff.mp (hplain m hm) ch hch
  refine ⟨String.toList_inj.mp hname, ?_⟩
  rw [hname] at hrest
  have htarget := List.append_cancel_left hrest
  injection htarget with _ htarget
  exact String.toList_inj.mp (List.append_cancel_left htarget)

theorem not_mem_errors {target name : String} (hname : IsIdentifier name)
    (h : name ∈ (v.exportIndex files).names target) (file : String) (line : Int) :
    (MissingExport.diagnostic
        { file := file, line := line, target := target, name := name }).key ∉
      (v.validate files).errors.map Diagnostic.key := by
  intro hkey
  rw [Validator.errors_eq] at hkey
  obtain ⟨d, hd, heq⟩ := List.mem_map.mp hkey
  obtain ⟨m, hm, rfl⟩ := List.mem_map.mp hd
  have hmessage := congrArg DiagnosticKey.message heq
  obtain ⟨hsame, htarget⟩ := message_inj (Validator.isIdentifier_of_missing hm) hname hmessage
  have hlacks := (Validator.not_exported_of_missing hm).1
  rw [hsame, htarget] at hlacks
  exact hlacks h

/-!
# Applying a repair
-/

theorem operations_ordersFor (request : FixRequest) :
    WorkOrder.operations (ordersFor request) = operations request := by
  show (if (operations request).isEmpty then [] else _).flatMap _ = _
  cases hops : operations request with
  | nil =>
      rfl
  | cons op rest =>
      rw [List.isEmpty_cons, if_neg Bool.false_ne_true, List.flatMap_singleton, <- hops]
      rfl

theorem isValid_ordersFor (request : FixRequest)
    (hcanonical : forall key, key ∈ request.files.keys -> Path.canonical key = key)
    (hkeys : forall key, key ∈ request.files.keys -> key ≠ "") {strict : Bool} {order : WorkOrder}
    (h : order ∈ ordersFor request) : order.IsValid strict := by
  have horder : order.files ≠ [] ∧ order.files = operations request := by
    unfold ordersFor at h
    dsimp only at h
    split at h
    · cases h
    · next hne =>
        cases List.mem_singleton.mp h
        exact ⟨fun hnil => hne (List.isEmpty_iff.mpr hnil), rfl⟩
  refine ⟨horder.1, ?_⟩
  intro op hop
  rw [horder.2] at hop
  obtain ⟨text, htext, _, hedit⟩ := mem_operations_iff.mp hop
  have hpath : op.path ∈ request.files.keys := (Table.mem_keys_iff _ _).mpr ⟨text, htext⟩
  refine ⟨?_, ?_⟩
  · rw [hcanonical _ hpath]
    exact hkeys _ hpath
  · intro _ _
    rw [hedit]
    exact Option.some_ne_none _

theorem applyAll_ordersFor (v : Validator) (pass : Int) (missing : List MissingFile)
    (hs : Table.Holds (fun key _ => key ≠ "") s.files)
    (hcanonical : forall key, key ∈ s.paths -> Path.canonical key = key) :
    exists counts,
      s.applyAll (ordersFor (v.request s.files pass missing)) =
        { result := { s with files := v.mendAll s.files, counts := s.counts.add counts }
          outcome := .ok counts } := by
  have hkeys : forall key, key ∈ s.files.keys -> key ≠ "" := by
    intro key hkey
    obtain ⟨text, htext⟩ := (Table.mem_keys_iff _ _).mp hkey
    exact hs key text htext
  refine ⟨FileSet.countOf (operations (v.request s.files pass missing)), ?_⟩
  unfold FileSet.applyAll
  have hvalid : forall order, order ∈ ordersFor (v.request s.files pass missing) ->
      order.IsValid s.strict :=
    fun order horder => isValid_ordersFor (v.request s.files pass missing) hcanonical hkeys horder
  rw [FileSet.applyFrom_eq hvalid, operations_ordersFor]
  have hfold : (operations (v.request s.files pass missing)).foldl FileSet.applyOperation s.files =
      v.mendAll s.files :=
    foldl_operations (v.request s.files pass missing) hcanonical
  rw [hfold]
  simp [Counts.add]

/--
What a repair guarantees.  Its new errors ask for the word `enum` where it was passed on from a file
that ended in an exported enumeration without a name and got a list; imports are resolved as before;
and each operation appends a list of names that are exported afterwards, if no earlier list lacks
its closing brace.
-/
structure Repairs (v : Validator) (before after : Table String) (ops : List FileOperation) :
    Prop where
  errors : forall d, d ∈ (v.validate after).errors ->
    d.key ∈ (v.validate before).errors.map Diagnostic.key ∨
      exists m, m ∈ (v.validate after).missingExports ∧ m.diagnostic = d ∧ m.name = "enum" ∧
        exists op text, op ∈ ops ∧ (v.exportIndex before).PassesOn m.target op.path ∧
          before.get? op.path = some text ∧ endsInUnnamedEnum text = true
  warnings : (v.validate after).warnings = (v.validate before).warnings
  unresolved : (v.validate after).unresolved = (v.validate before).unresolved
  exported : forall op, op ∈ ops ->
    exists text names, before.get? op.path = some text ∧ names ≠ [] ∧
      op.content = some (withExportList text names) ∧
      after.get? op.path = some (withExportList text names) ∧
      (leavesBraceOpen text = false ->
        forall name, name ∈ names ->
          name ∈ (v.exportIndex after).names op.path ∧
          forall file line,
            (MissingExport.diagnostic
                { file := file, line := line, target := op.path, name := name }).key ∉
              (v.validate after).errors.map Diagnostic.key)

theorem repairs_mendAll (v : Validator) (files : Table String) (pass : Int)
    (missing : List MissingFile) :
    Repairs v files (v.mendAll files) (operations (v.request files pass missing)) := by
  refine ⟨?_, warnings_mendAll v files, unresolved_mendAll v files, ?_⟩
  · intro d hd
    rw [Validator.errors_eq] at hd
    obtain ⟨m, hm, rfl⟩ := List.mem_map.mp hd
    rcases missingExports_mendAll hm with hold | ⟨path, hpasses, hname, text, htext, hne, hend⟩
    · refine Or.inl (List.mem_map_of_mem ?_)
      rw [Validator.errors_eq]
      exact List.mem_map_of_mem hold
    · refine Or.inr ⟨m, hm, rfl, hname, edit path text (v.wanted files path), text, ?_, hpasses,
        htext, hend⟩
      exact mem_operations_request_iff.mpr ⟨text, htext, hne, rfl⟩
  · intro op hop
    obtain ⟨text, htext, hne, hedit⟩ := mem_operations_request_iff.mp hop
    have hafter : (v.mendAll files).get? op.path =
        some (withExportList text (addable text (v.wanted files op.path))) := by
      unfold Validator.mendAll
      rw [Table.get?_mapValues, htext]
      exact congrArg some (mend_of_ne_nil hne)
    refine ⟨text, addable text (v.wanted files op.path), htext, hne, ?_, hafter, ?_⟩
    · rw [hedit]
      exact congrArg some (mend_of_ne_nil hne)
    · intro hclosed name hname
      have hidentifiers : forall n, n ∈ addable text (v.wanted files op.path) -> IsIdentifier n :=
        fun n hn => isIdentifier_of_wanted (mem_addable hn)
      obtain ⟨m, hm, htarget, _⟩ := FixRequest.mem_wanted_iff.mp (mem_addable hname)
      have hsource : v.resolver.isSourceFile op.path = true := by
        rw [<- htarget]
        exact (Validator.not_exported_of_missing hm).2
      have hexported : name ∈ (v.exportIndex (v.mendAll files)).names op.path :=
        Validator.mem_names_of_own hsource hafter
          (mem_names_withExportList hidentifiers hclosed hname)
      exact ⟨hexported, not_mem_errors (hidentifiers name hname) hexported⟩

/-- The work orders of a repair are accepted, and do what a repair guarantees. -/
theorem applyAll_ordersFor_repairs {s : FileSet} (hs : s.Reachable)
    (hcanonical : forall key, key ∈ s.paths -> Path.canonical key = key) (v : Validator)
    (pass : Int) (missing : List MissingFile) :
    exists mended counts,
      s.applyAll (ordersFor (v.request s.files pass missing)) =
        { result := mended, outcome := .ok counts } ∧
      Repairs v s.files mended.files
        (WorkOrder.operations (ordersFor (v.request s.files pass missing))) := by
  obtain ⟨counts, happly⟩ := applyAll_ordersFor v pass missing hs.holds hcanonical
  refine ⟨_, counts, happly, ?_⟩
  rw [operations_ordersFor]
  exact repairs_mendAll v s.files pass missing

/-- A helper that a module with a default export keeps to itself is exported by its repair. -/
theorem applyAll_ordersFor_repairs_helper :
    let v : Validator := { resolver := Resolver.make none [] }
    let s : FileSet :=
      { files :=
          { entries :=
              [("src/t.ts",
                  "export default function f() \x7b\x7d\nfunction helper() \x7b\x7d\n"),
                ("src/a.ts", "import f, \x7b helper, other \x7d from './t'\n")] } }
    ordersFor (v.request s.files 1 []) ≠ [] ∧
      exists mended counts,
        s.applyAll (ordersFor (v.request s.files 1 [])) =
          { result := mended, outcome := .ok counts } ∧
        Repairs v s.files mended.files
          (WorkOrder.operations (ordersFor (v.request s.files 1 []))) := by
  intro v s
  have hseed : FileSet.seed true (s.files.entries.map fun entry => (entry.1, some entry.2)) =
      .ok s := by
    rw [FileSet.seed_eq (by decide +kernel)]
    refine congrArg Except.ok ?_
    decide +kernel
  refine ⟨by decide +kernel, ?_⟩
  exact applyAll_ordersFor_repairs (.seed hseed) (by decide +kernel) v 1 []

/-- The repair of a module that ends in an exported enumeration without a name adds an error. -/
theorem repair_adds_error :
    let v : Validator := { resolver := Resolver.make none [] }
    let s : FileSet :=
      { files :=
          { entries :=
              [("src/t.ts",
                  "export default function f() \x7b\x7d\nfunction helper() \x7b\x7d\n" ++
                    "export const enum\n"),
                ("src/a.ts", "import \x7b helper, enum \x7d from './t'\n")] } }
    let mended := (s.applyAll (ordersFor (v.request s.files 1 []))).result
    FileSet.seed true (s.files.entries.map fun entry => (entry.1, some entry.2)) = .ok s ∧
      (forall key, key ∈ s.paths -> Path.canonical key = key) ∧
      exists key, key ∈ (v.validate mended.files).errors.map Diagnostic.key ∧
        key ∉ (v.validate s.files).errors.map Diagnostic.key := by
  intro v s mended
  refine ⟨?_, by decide +kernel, ?_⟩
  · rw [FileSet.seed_eq (by decide +kernel)]
    refine congrArg Except.ok ?_
    decide +kernel
  · refine ⟨{ file := "src/a.ts"
              line := 1
              message := "Named import 'enum' not found in exports of src/t.ts"
              severity := .error }, ?_, ?_⟩
    · decide +kernel
    · decide +kernel

end ExportFix
end Joinery
