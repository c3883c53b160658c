import Joinery.ExportFix
import Joinery.Proofs.SourceModule.Identifiers
import Joinery.Proofs.Table
import Joinery.Proofs.Validation.Report

/-!
# Names asked of a file

## Missing exports by target

A repair looks at the missing exports of a report target by target.  Gathering them keeps
exactly the names that each target lacks, and all of them are identifiers, since they
were read from import statements.
-/

namespace Joinery

open SourceModule

namespace FixRequest

def gather (known : Table (List String)) (item : MissingExport) : Table (List String) :=
  let names := (known.get? item.target).getD []
  known.insert item.target (if names.contains item.name then names else names ++ [item.name])

def wanted (request : FixRequest) (target : String) : List String :=
  (request.missingByTarget.get? target).getD []

theorem mem_gather_iff {known : Table (List String)} {item : MissingExport} {target name : String} :
    name ∈ ((gather known item).get? target).getD [] <->
      name ∈ (known.get? target).getD [] ∨ item.target = target ∧ item.name = name := by
  by_cases htarget : item.target = target
  · subst htarget
    unfold gather
    rw [Table.get?_insert_self, Option.getD_some]
    split
    · next hknown =>
        rw [List.contains_eq_mem, decide_eq_true_eq] at hknown
        constructor
        · exact Or.inl
        · rintro (hname | ⟨_, rfl⟩)
          · exact hname
          · exact hknown
    · rw [List.mem_append, List.mem_singleton]
      constructor
      · rintro (hname | rfl)
        · exact Or.inl hname
        · exact Or.inr ⟨rfl, rfl⟩
      · rintro (hname | ⟨_, rfl⟩)
        · exact Or.inl hname
        · exact Or.inr rfl
  · simp [gather, htarget]

theorem mem_foldl_gather_iff (items : List MissingExport) (known : Table (List String))
    (target name : String) :
    name ∈ ((items.foldl gather known).get? target).getD [] <->
      name ∈ (known.get? target).getD [] ∨
        exists item, item ∈ items ∧ item.target = target ∧ item.name = name := by
  induction items generalizing known with
  | nil =>
      simp
  | cons item rest ih =>
      rw [List.foldl_cons, ih, mem_gather_iff, or_assoc]
      simp only [List.mem_cons]
      constructor
      · rintro (hname | ⟨htarget, hname⟩ | ⟨other, hother, htarget, hname⟩)
        · exact Or.inl hname
        · exact Or.inr ⟨item, Or.inl rfl, htarget, hname⟩
        · exact Or.inr ⟨other, Or.inr hother, htarget, hname⟩
      · rintro (hname | ⟨other, rfl | hother, htarget, hname⟩)
        · exact Or.inl hname
        · exact Or.inr (Or.inl ⟨htarget, hname⟩)
        · exact Or.inr (Or.inr ⟨other, hother, htarget, hname⟩)

theorem mem_wanted_iff {request : FixRequest} {target name : String} :
    name ∈ request.wanted target <->
      exists item, item ∈ request.missingExports ∧ item.target = target ∧ item.name = name := by
  refine (mem_foldl_gather_iff request.missingExports Table.empty target name).trans ?_
  constructor
  · rintro (h | h)
    · cases h
    · exact h
  · exact Or.inr

end FixRequest

namespace Validator

variable {v : Validator} {files : Table String}

theorem isIdentifier_of_missing {m : MissingExport} (h : m ∈ (v.validate files).missingExports) :
    IsIdentifier m.name := by
  obtain ⟨path, text, record, _, _, hrecord, hm⟩ := mem_missingExports_iff.mp h
  obtain ⟨_, _, _, _, hname, _⟩ := mem_missing_iff.mp hm
  have hrequested : m.name ∈ record.requested :=
    List.mem_eraseDups.mp (List.mem_filter.mp hname).1
  exact requested_isIdentifier hrecord hrequested

theorem not_exported_of_missing {m : MissingExport}
    (h : m ∈ (v.validate files).missingExports) :
    m.name ∉ (v.exportIndex files).names m.target ∧ v.resolver.isSourceFile m.target = true := by
  obtain ⟨path, text, record, _, _, _, hm⟩ := mem_missingExports_iff.mp h
  obtain ⟨_, _, _, hsource, hname, _⟩ := mem_missing_iff.mp hm
  have hlacks := (List.mem_filter.mp hname).2
  rw [Bool.and_eq_true, Bool.not_eq_true', List.contains_eq_mem, decide_eq_false_iff_not] at hlacks
  exact ⟨hlacks.2, hsource⟩

end Validator
end Joinery
