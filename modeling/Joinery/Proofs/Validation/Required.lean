import Joinery.Proofs.Resolver.Location
import Joinery.Proofs.SourceModule.ExportedObjects
import Joinery.Proofs.Validation.StarExports

/-!
# Names that are required

## One file that exports an object and one that requires names of it

The names that are required and the keys of the object are read by different rules.  A name is
read whole, but a key without the dollar signs at its end, so that the two files agree on all
names but those.
-/

namespace Joinery

open SourceModule

/-!
# Where the source leads
-/

namespace Resolver

theorem resolve_eq_of_unique {r : Resolver} {source file target : String}
    {available : String -> Bool} (hmem : target ∈ r.candidates source file)
    (havailable : available target = true)
    (honly : forall path, path ∈ r.candidates source file -> available path = true ->
      path = target) : r.resolve source file available = some target := by
  unfold resolve
  cases hfound : (r.candidates source file).find? available with
  | none =>
      exact absurd havailable (List.find?_eq_none.mp hfound target hmem)
  | some path =>
      rw [honly path (List.mem_of_find?_eq_some hfound) (List.find?_some hfound)]

theorem candidates_sibling (r : Resolver) :
    r.candidates "./m" "src/a.js" = candidatesOfBase r.extensions "src/m" := by
  have hbase : r.basePath "./m" "src/a.js" = some "src/m" := by
    unfold basePath
    rw [if_pos (by decide)]
    decide +kernel
  unfold candidates
  rw [hbase]

theorem resolve_sibling {r : Resolver} (hextension : ".js" ∈ r.extensions)
    {available : String -> Bool}
    (havailable : forall path, available path = true <-> path = "src/m.js" ∨ path = "src/a.js") :
    r.resolve "./m" "src/a.js" available = some "src/m.js" := by
  refine resolve_eq_of_unique ?_ ((havailable _).mpr (Or.inl rfl)) fun path hpath hthere => ?_
  · rw [candidates_sibling, mem_candidatesOfBase_iff]
    exact Or.inr ⟨".js", hextension, Or.inl (by decide)⟩
  · have hbegins : "src/m".toList <+: path.toList := by
      have hindex : indexOf "src/m" = "src/m" ++ "/index" := by
        decide +kernel
      rw [candidates_sibling, mem_candidatesOfBase_iff, hindex] at hpath
      rcases hpath with ⟨_, rfl⟩ | ⟨extension, _, rfl | rfl⟩
      · exact List.prefix_rfl
      · rw [String.toList_append]
        exact List.prefix_append _ _
      · rw [String.toList_append, String.toList_append, List.append_assoc]
        exact List.prefix_append _ _
    refine ((havailable path).mp hthere).resolve_right ?_
    rintro rfl
    exact absurd hbegins (by decide)

end Resolver

/-!
# Two files
-/

namespace Validator

variable {v : Validator} {files : Table String} {exporter importer text other : String}

theorem checks_eq_singleton {record : Import}
    (hfiles : files.entries.Perm [(exporter, text), (importer, other)])
    (hsource : v.resolver.isSourceFile importer = true)
    (hnone : (scan exporter text).imports = []) (hone : (scan importer other).imports = [record]) :
    v.checks files = [v.checkImport (v.exportIndex files) importer record] := by
  have hperm := (hfiles.filter fun file => v.resolver.isSourceFile file.1).flatMap_right fun file =>
    (scan file.1 file.2).imports.map fun record =>
      v.checkImport (v.exportIndex files) file.1 record
  rw [<- checks_eq] at hperm
  refine List.perm_singleton.mp (hperm.trans (List.Perm.of_eq ?_))
  cases hexporter : v.resolver.isSourceFile exporter <;> simp [hexporter, hsource, hnone, hone]

theorem checkImport_of_resolve {index : ExportIndex} {path target : String} {record : Import}
    (hchecks : v.checksExports = true) (hsource : v.resolver.isSourceFile target = true)
    (h : v.resolver.resolve record.source path index.available = some target) :
    v.checkImport index path record =
      let missing := (missingNames (index.names target) record).map fun name =>
        ({ file := path, line := record.line, target := target, name := name } : MissingExport)
      { diagnostics := missing.map MissingExport.diagnostic
        missingExports := missing
        importCount := 1 } := by
  have hfound : (v.resolver.candidates record.source path).find? index.available = some target := h
  unfold checkImport
  rw [if_neg (by rw [isExternal_of_resolve h]; exact Bool.false_ne_true)]
  dsimp only
  rw [hfound]
  dsimp only
  rw [hchecks, hsource, Bool.true_and, if_pos rfl]

end Validator

def requireSibling (list : Items Property) (q : Quote) (semicolon : Bool) : ImportStatement :=
  { indent := []
    body := .requires "const" (.names list) (by decide)
    source := ⟨"./m", by decide, by decide⟩
    quote := q
    semicolon := semicolon
    indented := rfl }

theorem requested_requireSibling (list : Items Property) (q : Quote) (semicolon : Bool) :
    ((requireSibling list q semicolon).record 1).requested =
      list.items.map fun p => p.item.key.name := by
  show (list.items.map fun p => p.item.binding).filterMap _ = _
  rw [List.filterMap_map, <- List.filterMap_eq_map]
  rfl

theorem missingNames_object (keys : List String) (record : Import) :
    Validator.missingNames (defaultExport :: keys).eraseDups record =
      record.requested.eraseDups.filter fun name => name ≠ defaultExport ∧ name ∉ keys := by
  refine List.filter_congr fun name _ => ?_
  by_cases hdefault : name = defaultExport
  · simp [hdefault]
  · simp [hdefault, List.contains_eq_mem, List.mem_eraseDups]

/--
Of the names that a file requires from an object, those are missing that are neither a key of it as
it is read nor the default export, each of them once, and nothing else is reported.  A key is read
without the dollar signs at its end: what ends with one is missing even if the object has it.
-/
theorem validate_required (v : Validator) (files : Table String) (exported : Items ObjectEntry)
    (required : Items Property) (q : Quote) (closed closed' : Bool) (lines lines' : Nat)
    (hchecks : v.checksExports = true) (hextension : ".js" ∈ v.resolver.extensions)
    (hfiles : files.entries.Perm
      [("src/m.js", String.ofList (objectText exported closed lines)),
        ("src/a.js", String.ofList
          ((requireSibling required q closed').text ++ List.replicate lines' '\n'))]) :
    let keys := exported.items.filterMap fun p => readKey? p.item.key.name
    let missing := (required.items.map fun p => p.item.key.name).eraseDups.filter fun name =>
      name ≠ defaultExport ∧ name ∉ keys
    (v.validate files).diagnostics =
        (missing.map fun name =>
          ({ file := "src/a.js"
             line := 1
             message := "Named import '" ++ name ++ "' not found in exports of src/m.js"
             severity := .error
             fixable := true } : Diagnostic)) ∧
      (v.validate files).unresolved = [] ∧
      ((forall p, p ∈ exported.items -> p.item.key.chars.getLast? ≠ some '$') ->
        keys = exported.items.map fun p => p.item.key.name) := by
  intro keys missing
  have hkeys : files.keys.Perm ["src/m.js", "src/a.js"] := hfiles.map Prod.fst
  have hcontains : forall path, files.contains path = true <->
      path = "src/m.js" ∨ path = "src/a.js" := by
    intro path
    rw [files.contains_iff_mem_keys, hkeys.mem_iff]
    simp
  have hsource : forall path, ".js".toList <:+ path.toList -> v.resolver.isSourceFile path = true :=
    fun path hpath => List.any_eq_true.mpr ⟨".js", hextension, List.isSuffixOf_iff_suffix.mpr hpath⟩
  obtain ⟨hnone, hexports⟩ := scan_object "src/m.js" exported closed lines
  have hone := scan_import_statement "src/a.js" (requireSibling required q closed') lines'
  have hresolve := Resolver.resolve_sibling hextension hcontains
  have hmodule : (v.exportIndex files).modules.get? "src/m.js" =
      some (scan "src/m.js" (String.ofList (objectText exported closed lines))) := by
    show (scanAll v.resolver files).get? "src/m.js" = _
    rw [get?_scanAll, if_pos (hsource "src/m.js" (by decide)),
      Table.get?_of_mem (hfiles.mem_iff.mpr (List.mem_cons_self ..))]
    rfl
  have hnames : (v.exportIndex files).names "src/m.js" = (defaultExport :: keys).eraseDups := by
    rw [ExportIndex.names_of_no_stars hmodule (by rw [hexports]), hexports]
  have hcheck := Validator.checks_eq_singleton hfiles (hsource "src/a.js" (by decide)) hnone hone
  have hfound := @Validator.checkImport_of_resolve v (v.exportIndex files) "src/a.js" "src/m.js"
    ((requireSibling required q closed').record 1) hchecks (hsource "src/m.js" (by decide)) hresolve
  rw [hnames, missingNames_object, requested_requireSibling] at hfound
  rw [Validator.diagnostics_eq, Validator.unresolved_eq, hcheck, hfound, List.flatMap_singleton,
    List.flatMap_singleton]
  dsimp only
  refine ⟨?_, rfl, fun hword => ?_⟩
  · have hmessage : forall name : String,
        "Named import '" ++ name ++ "' not found in exports of " ++ "src/m.js" =
          "Named import '" ++ name ++ "' not found in exports of src/m.js" := by
      intro name
      rw [String.append_assoc]
      rfl
    rw [List.map_map]
    refine List.map_congr_left fun name _ => ?_
    rw [<- hmessage]
    rfl
  · rw [<- List.filterMap_eq_map]
    exact List.filterMap_congr fun p hp => (readKey?_eq_self_iff p.item.key).mpr (hword p hp)

theorem isValue_call : IsValue " f(1)".toList := by
  refine ⟨⟨" f(1".toList, ')', rfl, rfl⟩, ?_⟩
  rw [List.forall_mem_cons, List.forall_mem_cons, List.forall_mem_singleton]
  decide

/-- An object with a value behind a colon, and names that are required under others. -/
theorem validate_required_renamed :
    let a : Identifier := ⟨"a", 'a', [], rfl, rfl, nofun⟩
    let b : Identifier := ⟨"b", 'b', [], rfl, rfl, nofun⟩
    let exported : Items ObjectEntry :=
      { items := [⟨[' '], ⟨a, some " f(1)".toList, by
            rintro _ ⟨⟩
            exact isValue_call⟩, [' '], rfl, rfl⟩]
        last := none
        last_blank := nofun }
    let required : Items Property :=
      { items := [⟨[' '], ⟨a, none⟩, [], rfl, rfl⟩, ⟨[' '], ⟨b, some a⟩, [' '], rfl, rfl⟩]
        last := none
        last_blank := nofun }
    let files : Table String :=
      { entries :=
          [("src/a.js", "const \x7b a, b: a \x7d = require('./m')\n"),
            ("src/m.js", "module.exports = \x7b a: f(1) \x7d;\n")] }
    let v : Validator := { resolver := Resolver.make none [] }
    v.checksExports = true ∧ ".js" ∈ v.resolver.extensions ∧
      files.entries.Perm
        [("src/m.js", String.ofList (objectText exported true 1)),
          ("src/a.js", String.ofList
            ((requireSibling required .single false).text ++ List.replicate 1 '\n'))] ∧
      (v.validate files).diagnostics =
        [{ file := "src/a.js"
           line := 1
           message := "Named import 'b' not found in exports of src/m.js"
           severity := .error
           fixable := true }] := by
  intro a b exported required files v
  have hperm : files.entries.Perm
      [("src/m.js", String.ofList (objectText exported true 1)),
        ("src/a.js", String.ofList
          ((requireSibling required .single false).text ++ List.replicate 1 '\n'))] := by
    have hexporter : String.ofList (objectText exported true 1) =
        "module.exports = \x7b a: f(1) \x7d;\n" := by
      decide +kernel
    have himporter : String.ofList
        ((requireSibling required .single false).text ++ List.replicate 1 '\n') =
          "const \x7b a, b: a \x7d = require('./m')\n" := by
      decide +kernel
    rw [hexporter, himporter]
    exact List.Perm.swap ..
  have hextension : ".js" ∈ v.resolver.extensions := by
    decide
  obtain ⟨hdiagnostics, _, _⟩ :=
    validate_required v files exported required .single true false 1 1 rfl hextension hperm
  refine ⟨rfl, hextension, hperm, ?_⟩
  rw [hdiagnostics]
  decide +kernel

/-- The object has the key `a$`, but it is read as `a`: the one is missing and the other is not. -/
theorem key_read_without_dollar :
    let v : Validator := { resolver := Resolver.make none [] }
    let exporter := "module.exports = \x7b a$ \x7d\n"
    let project (importer : String) : Table String :=
      { entries := [("src/m.js", exporter), ("src/a.js", importer)] }
    (scan "src/m.js" exporter).exports.names = [defaultExport, "a"] ∧
      (v.validate (project "const \x7b a$ \x7d = require('./m')\n")).missingExports =
        [⟨"src/a.js", 1, "src/m.js", "a$"⟩] ∧
      (v.validate (project "const \x7b a \x7d = require('./m')\n")).diagnostics = [] := by
  decide +kernel

end Joinery
