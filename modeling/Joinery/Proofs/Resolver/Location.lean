import Joinery.Proofs.FileSet.Keys
import Joinery.Proofs.Path.Normal
import Joinery.Proofs.Validation.Report

/-!
# Keys and candidates

## Two spellings of one place

File sets spell a path as a key, and the resolver spells it in normal form.  A key keeps
the dots and the last slash of a path, and a candidate keeps the slash that the
directory of an alias begins with.  Where neither is the case, a key and a candidate
that mean the same place of the project are the same text, and so the import is found.
-/

namespace Joinery
namespace Resolver

open Joinery.Path

/-!
# Candidates
-/

theorem projectPath_cases {path : String} (h : (projectPath path).toList.head? ≠ some '/') :
    projectPath path = "" ∨ IsNormal (projectPath path).toList := by
  unfold projectPath at h ⊢
  split
  · next hempty =>
      exact Or.inl (String.isEmpty_iff.mp hempty)
  · next hempty =>
      rw [if_neg hempty] at h
      dsimp only at h ⊢
      split
      · exact Or.inl rfl
      · next hdot =>
          rw [if_neg hdot] at h
          unfold normal at h hdot ⊢
          rw [String.toList_ofList] at h ⊢
          by_cases hhead : path.toList.head? = some '/'
          · exact absurd (head?_normalChars hhead) h
          · rcases normalChars_cases hhead with hchars | hnormal
            · rw [hchars] at hdot
              exact absurd rfl hdot
            · exact Or.inr hnormal

/-- The file that stands for the directory of a base, without an extension. -/
def indexOf (base : String) : String :=
  if base.isEmpty then indexName else join base indexName

theorem mem_candidatesOfBase_iff {extensions : List String} {base candidate : String} :
    candidate ∈ candidatesOfBase extensions base <->
      (base ≠ "" ∧ candidate = base) ∨
        exists extension, extension ∈ extensions ∧
          (candidate = base ++ extension ∨ candidate = indexOf base ++ extension) := by
  have hbase : candidate ∈ (if base.isEmpty then [] else [base]) <->
      base ≠ "" ∧ candidate = base := by
    cases hempty : base.isEmpty with
    | true =>
        simp [String.isEmpty_iff.mp hempty]
    | false =>
        simp [String.isEmpty_eq_false_iff.mp hempty]
  show candidate ∈ _ ++ _ ++ extensions.map (indexOf base ++ ·) <-> _
  rw [List.mem_append, List.mem_append, hbase, List.mem_map, List.mem_map, or_assoc]
  refine or_congr_right ?_
  constructor
  · rintro (⟨extension, hmem, rfl⟩ | ⟨extension, hmem, rfl⟩)
    · exact ⟨extension, hmem, Or.inl rfl⟩
    · exact ⟨extension, hmem, Or.inr rfl⟩
  · rintro ⟨extension, hmem, rfl | rfl⟩
    · exact Or.inl ⟨extension, hmem, rfl⟩
    · exact Or.inr ⟨extension, hmem, rfl⟩

theorem isNormal_indexOf {base : String} (h : base = "" ∨ IsNormal base.toList) :
    IsNormal (indexOf base).toList := by
  have hindex : IsName indexName.toList := by decide
  have hfree : '/' ∉ indexName.toList := by decide
  unfold indexOf
  rcases h with rfl | h
  · exact isNormal_name hindex hfree
  · have hempty : base.isEmpty = false := by
      rw [String.isEmpty_eq_false_iff]
      rintro rfl
      exact h.ne_nil rfl
    have hlast : ¬base.toList.getLast? = some '/' := h.getLast?
    unfold join
    rw [if_neg (by simp [hempty]), if_neg (by decide), if_neg (by simp [hempty, hlast]),
      String.toList_append, String.toList_append, List.append_assoc]
    exact h.child hindex hfree

theorem head?_of_mem_candidatesOfBase {extensions : List String} {base candidate : String}
    (h : candidate ∈ candidatesOfBase extensions base) (hbase : base.toList.head? = some '/') :
    candidate.toList.head? = some '/' := by
  have hlonger : forall more : String, (base ++ more).toList.head? = some '/' := by
    intro more
    rw [String.toList_append, List.head?_append, hbase]
    rfl
  have hindex : exists more, indexOf base = base ++ more := by
    have hempty : ¬base.isEmpty = true := by
      intro hempty
      rw [String.isEmpty_iff.mp hempty] at hbase
      cases hbase
    unfold indexOf join
    rw [if_neg hempty, if_neg (by decide)]
    split
    · exact ⟨_, rfl⟩
    · exact ⟨"/" ++ indexName, String.append_assoc⟩
  obtain ⟨more, hmore⟩ := hindex
  rcases mem_candidatesOfBase_iff.mp h with ⟨_, rfl⟩ | ⟨extension, _, rfl | rfl⟩
  · exact hbase
  · exact hlonger extension
  · rw [hmore, String.append_assoc]
    exact hlonger _

theorem normal_of_mem_candidates {r : Resolver}
    (hplain : forall extension, extension ∈ r.extensions -> IsPlainExtension extension)
    {source file candidate : String} (h : candidate ∈ r.candidates source file)
    (hhead : candidate.toList.head? ≠ some '/') : normal candidate = candidate := by
  have hbase : exists path, candidate ∈ candidatesOfBase r.extensions (projectPath path) := by
    unfold candidates basePath at h
    split at h
    · cases h
    · next base heq =>
        split at heq
        · cases heq
          exact ⟨_, h⟩
        · obtain ⟨entry, _, rfl⟩ := Option.map_eq_some_iff.mp heq
          exact ⟨_, h⟩
  obtain ⟨path, hmem⟩ := hbase
  have hunrooted : (projectPath path).toList.head? ≠ some '/' :=
    fun hrooted => hhead (head?_of_mem_candidatesOfBase hmem hrooted)
  have hcases := projectPath_cases hunrooted
  rw [normal_eq_self_iff]
  rcases mem_candidatesOfBase_iff.mp hmem with ⟨hne, rfl⟩ | ⟨extension, hextension, rfl | rfl⟩
  · exact (hcases.resolve_left hne).normalChars_eq
  · rcases hcases with hempty | hnormal
    · rw [hempty, String.empty_append] at hhead ⊢
      exact normalChars_extension (hplain extension hextension) hhead
    · rw [String.toList_append]
      exact (hnormal.extend (hplain extension hextension)).normalChars_eq
  · rw [String.toList_append]
    exact ((isNormal_indexOf hcases).extend (hplain extension hextension)).normalChars_eq

/-- Where they mean one place, a key and a candidate are the same text exactly if the key is in
normal form and the candidate does not start with a slash. -/
theorem candidate_eq_key_iff {r : Resolver}
    (hplain : forall extension, extension ∈ r.extensions -> IsPlainExtension extension)
    {key : String} (hkey : IsKey key.toList) {source file candidate : String}
    (h : candidate ∈ r.candidates source file) (hsame : SameLocation key candidate) :
    candidate = key <-> normal key = key ∧ candidate.toList.head? ≠ some '/' := by
  constructor
  · rintro rfl
    exact ⟨normal_of_mem_candidates hplain h hkey.noSlash, hkey.noSlash⟩
  · rintro ⟨hnormal, hhead⟩
    have hcandidate := normal_eq_self_iff.mp (normal_of_mem_candidates hplain h hhead)
    unfold SameLocation at hsame
    rw [normal_eq_self_iff.mp hnormal, hcandidate, dropWhile_slash_of_head hkey.noSlash,
      dropWhile_slash_of_head hhead] at hsame
    exact String.toList_injective hsame.symm

end Resolver

namespace Validator

/-!
# Imports that are found
-/

theorem resolves_of_mem (v : Validator) {files : Table String} {source file candidate : String}
    (hcandidate : candidate ∈ v.resolver.candidates source file) (hfile : candidate ∈ files.keys) :
    (exists target, target ∈ files.keys ∧
        v.resolver.resolve source file files.contains = some target) ∧
      (forall u, u ∈ (v.validate files).unresolved -> u.file = file -> u.source ≠ source) ∧
      forall d, d ∈ (v.validate files).warnings -> d.file = file ->
        d.message ≠ "Unresolved import: " ++ source := by
  have hcontains := files.contains_iff_mem_keys
  have hunresolved : forall u, u ∈ (v.validate files).unresolved -> u.file = file ->
      u.source ≠ source := by
    intro u hu hfile' hsource
    obtain ⟨path, text, record, _, _, _, hcheck⟩ := exists_of_mem_unresolved hu
    obtain ⟨_, hnone, rfl⟩ := mem_unresolved_iff.mp hcheck
    cases hfile'
    cases hsource
    exact List.find?_eq_none.mp hnone candidate hcandidate ((hcontains candidate).mpr hfile)
  refine ⟨?_, hunresolved, ?_⟩
  · cases hresolve : v.resolver.resolve source file files.contains with
    | none =>
        exact absurd ((hcontains candidate).mpr hfile)
          (List.find?_eq_none.mp hresolve candidate hcandidate)
    | some target =>
        exact ⟨target, (hcontains target).mp (List.find?_some hresolve), rfl⟩
  · intro d hd hfile' hmessage
    rw [warnings_eq] at hd
    split at hd
    · obtain ⟨u, hu, rfl⟩ := List.mem_map.mp hd
      exact hunresolved u hu hfile' ((String.append_right_inj _).mp hmessage)
    · cases hd

/--
An import is found if the place that one of its candidates means is that of a key in normal form,
unless the candidate starts with a slash; the extensions must leave normal forms normal.
-/
theorem resolves_of_sameLocation {s : FileSet} (hs : s.Reachable) (v : Validator)
    (hplain : forall extension, extension ∈ v.resolver.extensions ->
      Path.IsPlainExtension extension)
    {key : String} (hkey : key ∈ s.paths) (hnormal : Path.normal key = key)
    {source file candidate : String} (hcandidate : candidate ∈ v.resolver.candidates source file)
    (hhead : candidate.toList.head? ≠ some '/') (hsame : Path.SameLocation key candidate) :
    (exists target, target ∈ s.paths ∧
        v.resolver.resolve source file s.files.contains = some target) ∧
      (forall u, u ∈ (v.validate s.files).unresolved -> u.file = file -> u.source ≠ source) ∧
      forall d, d ∈ (v.validate s.files).warnings -> d.file = file ->
        d.message ≠ "Unresolved import: " ++ source := by
  obtain ⟨text, htext⟩ := (Table.mem_keys_iff s.files key).mp hkey
  have heq : candidate = key :=
    (Resolver.candidate_eq_key_iff hplain (hs.isKey htext) hcandidate hsame).mpr ⟨hnormal, hhead⟩
  exact v.resolves_of_mem hcandidate (heq ▸ hkey)

/-- A step up and a dot on the way lead to the key of the file that is meant. -/
theorem resolves_of_sameLocation_relative :
    let s : FileSet :=
      { files := { entries := [("src/lib/a.ts", ""), ("src/app/b.ts", "import '../lib/./a'\n")] } }
    let v : Validator := { resolver := Resolver.make none [] }
    s.Reachable ∧
      (forall extension, extension ∈ v.resolver.extensions -> Path.IsPlainExtension extension) ∧
      "src/lib/a.ts" ∈ s.paths ∧ Path.normal "src/lib/a.ts" = "src/lib/a.ts" ∧
      "src/lib/a.ts" ∈ v.resolver.candidates "../lib/./a" "src/app/b.ts" ∧
      "src/lib/a.ts".toList.head? ≠ some '/' ∧
      Path.SameLocation "src/lib/a.ts" "src/lib/a.ts" ∧
      (exists target, target ∈ s.paths ∧
        v.resolver.resolve "../lib/./a" "src/app/b.ts" s.files.contains = some target) ∧
      (forall u, u ∈ (v.validate s.files).unresolved -> u.file = "src/app/b.ts" ->
        u.source ≠ "../lib/./a") ∧
      forall d, d ∈ (v.validate s.files).warnings -> d.file = "src/app/b.ts" ->
        d.message ≠ "Unresolved import: " ++ "../lib/./a" := by
  intro s v
  have hs : s.Reachable := FileSet.reachable_of_canonical (by decide +kernel)
  have hplain : forall extension, extension ∈ v.resolver.extensions ->
      Path.IsPlainExtension extension := by decide +kernel
  have hkey : "src/lib/a.ts" ∈ s.paths := by decide +kernel
  have hnormal : Path.normal "src/lib/a.ts" = "src/lib/a.ts" := by decide +kernel
  have hcandidate : "src/lib/a.ts" ∈ v.resolver.candidates "../lib/./a" "src/app/b.ts" := by
    decide +kernel
  have hhead : "src/lib/a.ts".toList.head? ≠ some '/' := by decide
  have hsame : Path.SameLocation "src/lib/a.ts" "src/lib/a.ts" := rfl
  exact ⟨hs, hplain, hkey, hnormal, hcandidate, hhead, hsame,
    resolves_of_sameLocation hs v hplain hkey hnormal hcandidate hhead hsame⟩

/-- The one import that is reported has a candidate that means the place of a key. -/
def Misses (v : Validator) (s : FileSet) (source file : String) : Prop :=
  (exists key, key ∈ s.paths ∧ exists candidate, candidate ∈ v.resolver.candidates source file ∧
      Path.SameLocation key candidate) ∧
    v.resolver.resolve source file s.files.contains = none ∧
    (v.validate s.files).unresolved.map (fun u => (u.file, u.source)) = [(file, source)]

instance (v : Validator) (s : FileSet) (source file : String) :
    Decidable (v.Misses s source file) :=
  inferInstanceAs (Decidable (_ ∧ _ ∧ _))

/--
A dot inside a key, the slash before the directory of an alias and the slash after an extension each
hide a file.
-/
theorem misses_sameLocation :
    let dotted : FileSet :=
      { files := { entries := [("src/./lib/a.ts", ""), ("src/b.ts", "import './lib/a'\n")] } }
    let rooted : FileSet :=
      { files := { entries := [("src/lib/a.ts", ""), ("src/b.ts", "import '@/lib/a'\n")] } }
    let slashed : FileSet :=
      { files := { entries := [("src/a.ts", ""), ("src/b.js", "import './a'\n")] } }
    (dotted.Reachable ∧
        { resolver := Resolver.make none [] : Validator }.Misses dotted "./lib/a" "src/b.ts") ∧
      (rooted.Reachable ∧
        { resolver := Resolver.make (some { entries := [("@/", "/src/")] }) [] : Validator }.Misses
          rooted "@/lib/a" "src/b.ts") ∧
      (slashed.Reachable ∧
        { resolver := Resolver.make none [".js", ".ts/"] : Validator }.Misses slashed "./a"
          "src/b.js") := by
  intro dotted rooted slashed
  refine ⟨⟨FileSet.reachable_of_canonical ?_, ?_⟩,
    ⟨FileSet.reachable_of_canonical ?_, ?_⟩,
    ⟨FileSet.reachable_of_canonical ?_, ?_⟩⟩ <;>
    decide +kernel

end Validator
end Joinery
