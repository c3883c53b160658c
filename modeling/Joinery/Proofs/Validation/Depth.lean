import Joinery.Proofs.Validation.Locality

/-!
# Validation at two depths

## What a greater depth finds

At a greater depth a validation follows star re-exports further and knows more names.
Its findings are those at the smaller depth but for the names that are found on the way:
what is missing is filtered, and everything else stays as it is.
-/

namespace Joinery
namespace Validator

variable {v : Validator} {deeper : Nat}

/-- The same validation, but that star re-exports are followed up to another depth. -/
def atDepth (v : Validator) (depth : Nat) : Validator :=
  { v with depth := depth }

/-- Does the target of a missing name export it, if star re-exports are followed so far? -/
def findsAt (v : Validator) (depth : Nat) (files : Table String) (m : MissingExport) : Bool :=
  (((v.atDepth depth).exportIndex files).names m.target).contains m.name

@[simp] theorem available_atDepth (v : Validator) (depth : Nat) (files : Table String) :
    ((v.atDepth depth).exportIndex files).available = (v.exportIndex files).available :=
  rfl

theorem names_deeper (hdepth : v.depth - 1 ≤ deeper - 1) (files : Table String)
    (path name : String) (h : name ∈ (v.exportIndex files).names path) :
    name ∈ ((v.atDepth deeper).exportIndex files).names path := by
  rw [ExportIndex.mem_names_iff_exportsWithin] at h ⊢
  have hown : forall path name, name ∈ (v.exportIndex files).ownNames path ->
      name ∈ ((v.atDepth deeper).exportIndex files).ownNames path := fun _ _ hname => hname
  have htargets : forall path target, target ∈ (v.exportIndex files).starTargets path ->
      target ∈ ((v.atDepth deeper).exportIndex files).starTargets path := fun _ _ htarget => htarget
  exact ExportIndex.exportsWithin_mono hown htargets (Nat.add_le_add_right hdepth 1) h

/-!
# Single imports
-/

theorem missingNames_filter {exported more : List String}
    (h : forall name, name ∈ exported -> name ∈ more) (record : Import) :
    missingNames more record =
      (missingNames exported record).filter fun name => !more.contains name := by
  unfold missingNames
  rw [List.filter_filter]
  refine List.filter_congr ?_
  intro name _
  cases hmore : more.contains name with
  | true =>
      simp
  | false =>
      have hlacks : exported.contains name = false := by
        rw [List.contains_eq_mem, decide_eq_false_iff_not] at hmore ⊢
        exact fun hname => hmore (h name hname)
      rw [hlacks]
      simp

theorem missingExports_checkImport_filter {index wider : ExportIndex}
    (havailable : wider.available = index.available)
    (hnames : forall path name, name ∈ index.names path -> name ∈ wider.names path) (path : String)
    (record : Import) :
    (v.checkImport wider path record).missingExports =
      (v.checkImport index path record).missingExports.filter fun m =>
        !(wider.names m.target).contains m.name := by
  unfold checkImport
  rw [havailable]
  split
  · rfl
  · dsimp only
    split
    · rfl
    · next target _ =>
        split
        · dsimp only
          rw [missingNames_filter (hnames target), List.filter_map]
          rfl
        · rfl

theorem unresolved_checkImport_deeper (v : Validator) (deeper : Nat) (files : Table String)
    (path : String) (record : Import) :
    ((v.atDepth deeper).checkImport ((v.atDepth deeper).exportIndex files) path record).unresolved =
      (v.checkImport (v.exportIndex files) path record).unresolved :=
  checkImport_unresolved_congr (v := v) (available_atDepth v deeper files) path record

theorem missingExports_checkImport_deeper (hdepth : v.depth - 1 ≤ deeper - 1)
    (files : Table String) (path : String) (record : Import) :
    ((v.atDepth deeper).checkImport ((v.atDepth deeper).exportIndex files) path
        record).missingExports =
      (v.checkImport (v.exportIndex files) path record).missingExports.filter fun m =>
        !v.findsAt deeper files m :=
  missingExports_checkImport_filter (available_atDepth v deeper files) (names_deeper hdepth files)
    path record

/-!
# Whole reports
-/

theorem missingExports_deeper (hdepth : v.depth - 1 ≤ deeper - 1) (files : Table String) :
    ((v.atDepth deeper).validate files).missingExports =
      (v.validate files).missingExports.filter fun m => !v.findsAt deeper files m := by
  rw [missingExports_eq, missingExports_eq, checks_eq, checks_eq, List.filter_flatMap,
    List.flatMap_assoc, List.flatMap_assoc]
  simp only [List.flatMap_map, missingExports_checkImport_deeper hdepth files]
  rfl

theorem unresolved_deeper (v : Validator) (deeper : Nat) (files : Table String) :
    ((v.atDepth deeper).validate files).unresolved = (v.validate files).unresolved := by
  rw [unresolved_eq, unresolved_eq, checks_eq, checks_eq, List.flatMap_assoc, List.flatMap_assoc]
  simp only [List.flatMap_map, unresolved_checkImport_deeper]
  rfl

theorem warnings_deeper (v : Validator) (deeper : Nat) (files : Table String) :
    ((v.atDepth deeper).validate files).warnings = (v.validate files).warnings := by
  rw [warnings_eq, warnings_eq, unresolved_deeper]
  rfl

theorem errors_deeper (hdepth : v.depth - 1 ≤ deeper - 1) (files : Table String) :
    ((v.atDepth deeper).validate files).errors =
      ((v.validate files).missingExports.filter fun m => !v.findsAt deeper files m).map
        MissingExport.diagnostic := by
  rw [errors_eq, missingExports_deeper hdepth]

theorem diagnostics_deeper_sublist (hdepth : v.depth - 1 ≤ deeper - 1) (files : Table String) :
    ((v.atDepth deeper).validate files).diagnostics.Sublist (v.validate files).diagnostics := by
  rw [diagnostics_eq, diagnostics_eq, checks_eq, checks_eq, List.flatMap_assoc, List.flatMap_assoc]
  simp only [List.flatMap_map]
  refine List.Sublist.flatMap_right _ ?_
  intro file _
  refine List.Sublist.flatMap_right _ ?_
  intro record _
  exact checkImport_sublist (v := v) (available_atDepth v deeper files) (names_deeper hdepth files)
    file.1 record

theorem diagnostics_of_depth_le_one {depth : Nat} (hv : v.depth ≤ 1) (hdepth : depth ≤ 1)
    (files : Table String) :
    ((v.atDepth depth).validate files).diagnostics = (v.validate files).diagnostics := by
  have hback : (v.atDepth depth).depth - 1 ≤ v.depth - 1 := by
    show depth - 1 ≤ v.depth - 1
    omega
  exact (diagnostics_deeper_sublist (by omega) files).antisymm
    (diagnostics_deeper_sublist hback files)

theorem diagnostics_deeper_eq_iff (hdepth : v.depth - 1 ≤ deeper - 1) (files : Table String) :
    ((v.atDepth deeper).validate files).diagnostics = (v.validate files).diagnostics <->
      forall m, m ∈ (v.validate files).missingExports -> v.findsAt deeper files m = false := by
  constructor
  · intro h
    have herrors : ((v.atDepth deeper).validate files).errors = (v.validate files).errors :=
      congrArg (List.filter Diagnostic.isError) h
    rw [errors_deeper hdepth, errors_eq] at herrors
    have hlength := congrArg List.length herrors
    rw [List.length_map, List.length_map, List.length_filter_eq_length_iff] at hlength
    intro m hm
    have hleft := hlength m hm
    rw [Bool.not_eq_true'] at hleft
    exact hleft
  · intro h
    rw [diagnostics_eq, diagnostics_eq, checks_eq, checks_eq, List.flatMap_assoc,
      List.flatMap_assoc]
    simp only [List.flatMap_map]
    refine List.flatMap_congr fun file hfile => List.flatMap_congr fun record hrecord => ?_
    obtain ⟨hfile, hsource⟩ := List.mem_filter.mp hfile
    have hall : ((v.checkImport (v.exportIndex files) file.1 record).missingExports.filter fun m =>
        !v.findsAt deeper files m) =
          (v.checkImport (v.exportIndex files) file.1 record).missingExports := by
      refine List.filter_eq_self.mpr ?_
      intro m hm
      rw [h m (mem_missingExports_iff.mpr ⟨_, _, record, hfile, hsource, hrecord, hm⟩)]
      rfl
    rw [checkImport_diagnostics, checkImport_diagnostics, unresolved_checkImport_deeper,
      missingExports_checkImport_deeper hdepth, hall]
    rfl

end Validator
end Joinery
