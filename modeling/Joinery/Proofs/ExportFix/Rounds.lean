import Joinery.Proofs.ExportFix.Soundness
import Joinery.Proofs.Validation.StarExports

/-!
# Rounds of repairs

## When nothing is left to mend

A mended file holds an export list and is not mended again.  Another file is mended in a
later round only for a name that got lost where it passes it on from by a star re-export,
and this is the word `enum`, which a file that would lose it exports itself.  So nothing
gets lost in the second round, and the third one finds nothing to mend.  Where star
re-exports are not followed, the second one does not either.
-/

namespace Joinery

open SourceModule

namespace ExportFix

variable {v : Validator} {files : Table String}

/-- No file can export a name that it lacks. -/
def Settled (v : Validator) (files : Table String) : Prop :=
  forall path text, files.get? path = some text -> addable text (v.wanted files path) = []

/-- The file is not mended, whatever it lacks. -/
def Finished (files : Table String) (path : String) : Prop :=
  forall text, files.get? path = some text -> forall names, addable text names = []

/-- No file can export a name that gets lost in another one, from which it passes the name on. -/
def KeepsNames (v : Validator) (files : Table String) : Prop :=
  forall path text other name, files.get? path = some text -> other ≠ path ->
    (v.exportIndex files).PassesOn path other -> Lost (v.wanted files) files other name ->
    addable text [name] = []

/-- Does a text pass a module on as a whole, and can it export the word `enum` by a list? -/
def passesOnEnum (text : String) : Bool :=
  !(scan "" text).exports.starSources.isEmpty && !(addable text ["enum"]).isEmpty

theorem settled_iff (pass : Int) (missing : List MissingFile) :
    Settled v files <-> operations (v.request files pass missing) = [] := by
  constructor
  · intro h
    refine List.eq_nil_iff_forall_not_mem.mpr ?_
    intro op hop
    obtain ⟨text, htext, hne, _⟩ := mem_operations_request_iff.mp hop
    exact hne (h op.path text htext)
  · intro h path text htext
    by_contra hne
    have hop : edit path text (v.wanted files path) ∈ operations (v.request files pass missing) :=
      mem_operations_request_iff.mpr ⟨text, htext, hne, rfl⟩
    rw [h] at hop
    cases hop

theorem settled_of_passes (h : (v.validate files).passes = true) : Settled v files := by
  intro path text _
  have hnone : (v.validate files).missingExports = [] := by
    have herrors : (v.validate files).errors = [] := List.isEmpty_iff.mp h
    rw [Validator.errors_eq] at herrors
    exact List.map_eq_nil_iff.mp herrors
  have hwanted : v.wanted files path = [] := by
    refine List.eq_nil_iff_forall_not_mem.mpr ?_
    intro name hname
    obtain ⟨m, hm, _⟩ := FixRequest.mem_wanted_iff.mp hname
    replace hm : m ∈ (v.validate files).missingExports := hm
    rw [hnone] at hm
    cases hm
  rw [hwanted]
  exact addable_nil text

theorem get?_mendAll (v : Validator) (files : Table String) (path : String) :
    (v.mendAll files).get? path =
      (files.get? path).map fun text => mend text (v.wanted files path) :=
  Table.get?_mapValues _ _ _

theorem keys_mendAll (v : Validator) (files : Table String) : (v.mendAll files).keys = files.keys :=
  Table.keys_mapValues _ _

theorem finished_of_operation {pass : Int} {missing : List MissingFile} {op : FileOperation}
    (h : op ∈ operations (v.request files pass missing)) :
    Finished (v.mendAll files) op.path ∧ ¬Finished files op.path := by
  obtain ⟨text, htext, hne, _⟩ := mem_operations_request_iff.mp h
  constructor
  · intro mended hmended names
    rw [get?_mendAll, htext, Option.map_some, Option.some.injEq, mend_of_ne_nil hne] at hmended
    rw [<- hmended]
    exact addable_withExportList text _ names
  · intro hfinished
    exact hne (hfinished text htext _)

theorem Finished.mendAll {path : String} (h : Finished files path) :
    Finished (v.mendAll files) path := by
  intro mended hmended names
  rw [get?_mendAll, Option.map_eq_some_iff] at hmended
  obtain ⟨text, htext, rfl⟩ := hmended
  rw [mend_of_nil (h text htext _)]
  exact h text htext names

theorem unmended_of_addable {path mended : String} {names : List String}
    (hmended : (v.mendAll files).get? path = some mended) (hne : addable mended names ≠ []) :
    files.get? path = some mended ∧ addable mended (v.wanted files path) = [] := by
  rw [get?_mendAll, Option.map_eq_some_iff] at hmended
  obtain ⟨text, htext, rfl⟩ := hmended
  by_cases hnil : addable text (v.wanted files path) = []
  · rw [mend_of_nil hnil]
    exact ⟨htext, hnil⟩
  · rw [mend_of_ne_nil hnil] at hne
    exact absurd (addable_withExportList text _ names) hne

theorem wanted_mendAll {path name : String} (h : name ∈ v.wanted (v.mendAll files) path) :
    name ∈ v.wanted files path ∨
      (exists other, (v.exportIndex files).PassesOn path other ∧
        Lost (v.wanted files) files other name) ∧
      name ∉ (v.exportIndex (v.mendAll files)).names path ∧
      v.resolver.isSourceFile path = true := by
  obtain ⟨m, hm, rfl, rfl⟩ := FixRequest.mem_wanted_iff.mp h
  replace hm : m ∈ (v.validate (v.mendAll files)).missingExports := hm
  rcases missingExports_mendAll hm with hold | hlost
  · exact Or.inl (FixRequest.mem_wanted_iff.mpr ⟨m, hold, rfl, rfl⟩)
  · exact Or.inr ⟨hlost, Validator.not_exported_of_missing hm⟩

theorem settled_mendAll (h : KeepsNames v files) : Settled v (v.mendAll files) := by
  intro path mended hmended
  by_contra hne
  obtain ⟨hfile, hnil⟩ := unmended_of_addable hmended hne
  refine hne (addable_eq_nil_iff.mpr ?_)
  intro name hname
  rcases wanted_mendAll hname with hold | ⟨⟨other, hpasses, hlost⟩, _⟩
  · exact addable_eq_nil_iff.mp hnil name hold
  · refine h path mended other name hfile ?_ hpasses hlost
    -- A file in which a name got lost was mended.
    rintro rfl
    obtain ⟨_, text, htext, hmend, _⟩ := hlost
    rw [hfile] at htext
    cases htext
    exact hmend hnil

theorem mem_names_of_endsInUnnamedEnum {path text : String} (h : endsInUnnamedEnum text = true) :
    "enum" ∈ (scan path text).exports.names := by
  obtain ⟨found, hfound, hvalue⟩ := List.any_eq_true.mp h
  rw [Bool.and_eq_true, beq_iff_eq] at hvalue
  exact mem_names_iff.mpr (Or.inl ⟨found, hfound, hvalue.1⟩)

theorem keepsNames_mendAll (v : Validator) (files : Table String) :
    KeepsNames v (v.mendAll files) := by
  rintro path text other name htext hother hpasses ⟨rfl, mended, hmended, hne, hend⟩
  obtain ⟨_, hnil⟩ := unmended_of_addable hmended hne
  refine absurd (addable_eq_nil_iff.mpr ?_) hne
  intro name hname
  rcases wanted_mendAll hname with hold | ⟨⟨_, _, rfl, _⟩, hlacks, hsource⟩
  · exact addable_eq_nil_iff.mp hnil name hold
  · exact absurd (Validator.mem_names_of_own hsource hmended
      (mem_names_of_endsInUnnamedEnum hend)) hlacks

theorem settled_mendAll_mendAll (v : Validator) (files : Table String) :
    Settled v (v.mendAll (v.mendAll files)) :=
  settled_mendAll (keepsNames_mendAll v files)

/--
In the first round no name gets lost where it matters, unless star re-exports are followed, a text
ends in an exported enumeration without a name, and another one passes a module on.
-/
theorem keepsNames_of_texts {p : String -> Prop}
    (hfiles : forall path text, files.get? path = some text -> p text)
    (h : v.depth ≤ 1 ∨ (forall text, p text -> endsInUnnamedEnum text = false) ∨
      forall text, p text -> passesOnEnum text = false) :
    KeepsNames v files := by
  rintro path text other name htext hne hpasses ⟨rfl, lost, hlost, _, hend⟩
  obtain ⟨hdepth, target, htarget⟩ := hpasses.followed hne
  rcases h with h | h | h
  · exact absurd hdepth (Nat.not_le.mpr (Nat.lt_succ_of_le h))
  · rw [h lost (hfiles other lost hlost)] at hend
    cases hend
  · obtain ⟨m, source, hmodule, hsource, _⟩ := ExportIndex.mem_starTargets_iff.mp htarget
    rw [Validator.get?_modules, htext] at hmodule
    split at hmodule
    · cases hmodule
      have hstar : (scan "" text).exports.starSources.isEmpty = false :=
        List.isEmpty_eq_false_iff.mpr (List.ne_nil_of_mem hsource)
      have hpassesOn := h text (hfiles path text htext)
      unfold passesOnEnum at hpassesOn
      rw [hstar, Bool.not_false, Bool.true_and, Bool.not_eq_false', List.isEmpty_iff] at hpassesOn
      exact hpassesOn
    · cases hmodule

/-- So many rounds leave nothing to mend. -/
def SettlesIn (v : Validator) : Nat -> Table String -> Prop
  | 0, files => Settled v files
  | rounds + 1, files => Settled v files ∨ SettlesIn v rounds (v.mendAll files)

theorem settlesIn_two (v : Validator) (files : Table String) : SettlesIn v 2 files :=
  Or.inr (Or.inr (settled_mendAll_mendAll v files))

theorem settlesIn_one (h : KeepsNames v files) : SettlesIn v 1 files :=
  Or.inr (settled_mendAll h)

end ExportFix
end Joinery
