import Joinery.MissingFile
import Joinery.Proofs.Distinct
import Joinery.Proofs.Resolver.Location
import Mathlib.Data.List.Induction

/-!
# What is asked of missing files

## Each gap once, and how it is closed

Unresolved imports count for their first candidate.  The entries of the missing files are those
of the first candidates, each once and in the order in which they come up, and each gathers what
the imports that count for it ask for.  The file is to be written where all of these imports find
it: the suggested path is one of their candidates and none of these is there yet.
-/

namespace Joinery
namespace MissingFile

variable {resolver : Resolver} {unresolved : List UnresolvedImport} {path : String}

def asking (unresolved : List UnresolvedImport) (path : String) : List UnresolvedImport :=
  unresolved.filter fun u => u.candidates.head? = some path

def wanted (unresolved : List UnresolvedImport) : List String :=
  (unresolved.filterMap (·.candidates.head?)).eraseDups

def gathered (resolver : Resolver) (unresolved : List UnresolvedImport) (path : String) :
    MissingFile :=
  { path := path
    suggestedPath := resolver.suggestedPath path
    requiredExports := ((asking unresolved path).flatMap (·.requested)).eraseDups
    importedBy := ((asking unresolved path).map (·.file)).eraseDups }

theorem mem_asking_iff {u : UnresolvedImport} :
    u ∈ asking unresolved path <-> u ∈ unresolved ∧ u.candidates.head? = some path := by
  unfold asking
  rw [List.mem_filter, decide_eq_true_eq]

theorem mem_wanted_iff : path ∈ wanted unresolved <-> exists u, u ∈ asking unresolved path := by
  unfold wanted
  simp only [List.mem_eraseDups, List.mem_filterMap, mem_asking_iff]

theorem nodup_wanted (unresolved : List UnresolvedImport) : (wanted unresolved).Nodup :=
  nodup_eraseDups _

def demand (resolver : Resolver) (unresolved : List UnresolvedImport) : Table MissingFile where
  entries := (wanted unresolved).map fun path => (path, gathered resolver unresolved path)
  distinct := by
    rw [List.map_map]
    exact (List.map_id _).symm ▸ nodup_wanted unresolved

theorem keys_demand (resolver : Resolver) (unresolved : List UnresolvedImport) :
    (demand resolver unresolved).keys = wanted unresolved := by
  show ((wanted unresolved).map fun path => (path, gathered resolver unresolved path)).map (·.1) = _
  rw [List.map_map]
  exact List.map_id _

/-!
# Gathering
-/

/-- A path that nothing counts for so far would get an empty entry, and a wanted path has its
own. -/
theorem get?_demand (resolver : Resolver) (unresolved : List UnresolvedImport) (path : String) :
    ((demand resolver unresolved).get? path).getD
        { path := path, suggestedPath := resolver.suggestedPath path } =
      gathered resolver unresolved path := by
  by_cases hmem : path ∈ wanted unresolved
  · have hentry : (path, gathered resolver unresolved path) ∈
        (demand resolver unresolved).entries :=
      List.mem_map.mpr ⟨path, hmem, rfl⟩
    rw [Table.get?_of_mem hentry]
    rfl
  · have hnone : (demand resolver unresolved).get? path = none := by
      rw [<- Option.not_isSome_iff_eq_none]
      intro hsome
      refine hmem ?_
      rw [<- keys_demand resolver unresolved, Table.mem_keys_iff]
      exact Option.isSome_iff_exists.mp hsome
    have hasking : asking unresolved path = [] := by
      refine List.eq_nil_iff_forall_not_mem.mpr ?_
      intro u hu
      exact hmem (mem_wanted_iff.mpr ⟨u, hu⟩)
    unfold gathered
    rw [hnone, hasking]
    rfl

theorem gathered_concat_of_ne {u : UnresolvedImport} (h : u.candidates.head? ≠ some path) :
    gathered resolver (unresolved ++ [u]) path = gathered resolver unresolved path := by
  have hasking : asking (unresolved ++ [u]) path = asking unresolved path := by
    unfold asking
    rw [List.filter_append, List.filter_cons_of_neg (by simpa using h), List.filter_nil,
      List.append_nil]
  unfold gathered
  rw [hasking]

theorem gathered_concat_of_other {u : UnresolvedImport} (h : u.candidates.head? = some path)
    {other : String} (hne : other ≠ path) :
    gathered resolver (unresolved ++ [u]) other = gathered resolver unresolved other := by
  refine gathered_concat_of_ne ?_
  rw [h]
  exact fun heq => hne (Option.some.inj heq).symm

theorem gathered_concat {u : UnresolvedImport} (h : u.candidates.head? = some path) :
    gathered resolver (unresolved ++ [u]) path = (gathered resolver unresolved path).request u := by
  have hasking : asking (unresolved ++ [u]) path = asking unresolved path ++ [u] := by
    unfold asking
    rw [List.filter_append, List.filter_cons_of_pos (by simpa using h), List.filter_nil]
  unfold gathered request
  rw [hasking, List.flatMap_append, List.map_append, eraseDups_eraseDups_append,
    eraseDups_eraseDups_append, List.flatMap_singleton]
  rfl

theorem wanted_concat (unresolved : List UnresolvedImport) (u : UnresolvedImport) :
    wanted (unresolved ++ [u]) =
      match u.candidates.head? with
      | none => wanted unresolved
      | some path => if path ∈ wanted unresolved then wanted unresolved
          else wanted unresolved ++ [path] := by
  unfold wanted
  rw [List.filterMap_append]
  cases hfirst : u.candidates.head? with
  | none =>
      simp [hfirst]
  | some path =>
      have hone : [u].filterMap (·.candidates.head?) = [path] := by simp [hfirst]
      rw [hone, eraseDups_concat]
      simp only [List.mem_eraseDups]

theorem insert_demand_of_mem {u : UnresolvedImport} (h : u.candidates.head? = some path)
    (hmem : path ∈ wanted unresolved) :
    (demand resolver unresolved).insert path (gathered resolver (unresolved ++ [u]) path) =
      demand resolver (unresolved ++ [u]) := by
  have hwanted : wanted (unresolved ++ [u]) = wanted unresolved := by
    rw [wanted_concat, h]
    exact if_pos hmem
  rw [Table.insert_eq_mapValues (by rw [keys_demand]; exact hmem)]
  apply Table.ext
  simp only [demand, Table.mapValues, hwanted, List.map_map]
  refine List.map_congr_left ?_
  intro other _
  by_cases hother : other = path
  · subst hother
    simp
  · simp [hother, gathered_concat_of_other h hother]

theorem insert_demand_of_not_mem {u : UnresolvedImport} (h : u.candidates.head? = some path)
    (hmem : path ∉ wanted unresolved) :
    (demand resolver unresolved).insert path (gathered resolver (unresolved ++ [u]) path) =
      demand resolver (unresolved ++ [u]) := by
  have hwanted : wanted (unresolved ++ [u]) = wanted unresolved ++ [path] := by
    rw [wanted_concat, h]
    exact if_neg hmem
  have hnew : path ∉ (demand resolver unresolved).keys := by
    rw [keys_demand]
    exact hmem
  apply Table.ext
  rw [Table.entries_insert_of_not_mem hnew]
  simp only [demand, hwanted, List.map_append]
  refine congrArg (· ++ _) (List.map_congr_left ?_)
  intro other hother
  rw [gathered_concat_of_other h fun heq => hmem (heq ▸ hother)]

theorem gather_demand (resolver : Resolver) (unresolved : List UnresolvedImport)
    (u : UnresolvedImport) :
    gather resolver (demand resolver unresolved) u = demand resolver (unresolved ++ [u]) := by
  cases hcandidates : u.candidates with
  | nil =>
      have hfirst : u.candidates.head? = none := by rw [hcandidates]; rfl
      have hgather : gather resolver (demand resolver unresolved) u =
          demand resolver unresolved := by
        unfold gather
        rw [hcandidates]
      have hwanted : wanted (unresolved ++ [u]) = wanted unresolved := by
        rw [wanted_concat, hfirst]
      rw [hgather]
      apply Table.ext
      simp only [demand, hwanted]
      refine List.map_congr_left ?_
      intro path _
      rw [gathered_concat_of_ne (by simp [hfirst])]
  | cons path rest =>
      have hfirst : u.candidates.head? = some path := by rw [hcandidates]; rfl
      have hgather : gather resolver (demand resolver unresolved) u =
          (demand resolver unresolved).insert path
            (gathered resolver (unresolved ++ [u]) path) := by
        unfold gather
        rw [hcandidates]
        dsimp only
        rw [get?_demand, gathered_concat hfirst]
      rw [hgather]
      by_cases hmem : path ∈ wanted unresolved
      · exact insert_demand_of_mem hfirst hmem
      · exact insert_demand_of_not_mem hfirst hmem

theorem foldl_gather (resolver : Resolver) (unresolved : List UnresolvedImport) :
    unresolved.foldl (gather resolver) Table.empty = demand resolver unresolved := by
  induction unresolved using List.reverseRecOn with
  | nil =>
      rfl
  | append_singleton front u ih =>
      rw [List.foldl_append, ih]
      exact gather_demand resolver front u

theorem find_eq (resolver : Resolver) (unresolved : List UnresolvedImport) :
    find resolver unresolved = (wanted unresolved).map (gathered resolver unresolved) := by
  unfold find
  rw [foldl_gather]
  show ((wanted unresolved).map fun path => (path, gathered resolver unresolved path)).map (·.2) = _
  rw [List.map_map]
  rfl

end MissingFile

/-!
# Suggested paths
-/

namespace Resolver

variable {r : Resolver}

theorem hasExtension_self {extensions : List String} {extension : String}
    (h : extension ∈ extensions) : Path.hasExtension extensions extension = true :=
  List.any_eq_true.mpr ⟨extension, h, List.isSuffixOf_iff_suffix.mpr (List.suffix_refl _)⟩

theorem suggestedPath_mem_candidatesOfBase {base path : String}
    (h : (candidatesOfBase r.extensions base).head? = some path) :
    r.suggestedPath path ∈ candidatesOfBase r.extensions base := by
  have hfirst : path ∈ candidatesOfBase r.extensions base := List.mem_of_head? h
  unfold suggestedPath
  split
  · exact hfirst
  · next hnone =>
      cases hempty : base.isEmpty with
      | true =>
          -- The first candidate is an extension, and that has itself as an extension.
          refine absurd ?_ hnone
          unfold candidatesOfBase at h
          rw [hempty, String.isEmpty_iff.mp hempty] at h
          cases hextensions : r.extensions with
          | nil =>
              rw [hextensions] at h
              cases h
          | cons extension rest =>
              rw [hextensions] at h
              cases h
              show Path.hasExtension _ ("" ++ extension) = true
              rw [String.empty_append]
              exact hasExtension_self (List.mem_append_left _ (List.mem_cons_self ..))
      | false =>
          have hbase : path = base := by
            unfold candidatesOfBase at h
            rw [hempty] at h
            exact (Option.some.inj h).symm
          subst hbase
          cases hextensions : r.extensions with
          | nil =>
              rw [hextensions] at hfirst
              rw [List.headD_nil, String.append_empty]
              exact hfirst
          | cons extension rest =>
              exact mem_candidatesOfBase_iff.mpr
                (Or.inr ⟨extension, List.mem_cons_self .., Or.inl rfl⟩)

theorem suggestedPath_mem_candidates {source file path : String}
    (h : (r.candidates source file).head? = some path) :
    r.suggestedPath path ∈ r.candidates source file := by
  unfold candidates at h ⊢
  cases hbase : r.basePath source file with
  | none =>
      rw [hbase] at h
      cases h
  | some base =>
      rw [hbase] at h
      exact suggestedPath_mem_candidatesOfBase h

theorem candidates_ne_nil {source file : String} (hextensions : r.extensions ≠ [])
    (h : r.isExternal source = false) : r.candidates source file ≠ [] := by
  unfold isExternal classify at h
  unfold candidates basePath
  cases hrelative : isRelative source with
  | true =>
      rw [if_pos rfl]
      dsimp only
      unfold candidatesOfBase
      simp [hextensions]
  | false =>
      rw [hrelative, if_neg Bool.false_ne_true] at h
      rw [if_neg Bool.false_ne_true]
      cases halias : r.aliasOf source with
      | none =>
          rw [halias] at h
          cases h
      | some entry =>
          rw [Option.map_some]
          dsimp only
          unfold candidatesOfBase
          simp [hextensions]

theorem extensions_make_ne_nil (aliases : Option (Table String)) (extensions : List String) :
    (make aliases extensions).extensions ≠ [] := by
  cases extensions with
  | nil =>
      exact List.cons_ne_nil _ _
  | cons first rest =>
      exact List.cons_ne_nil first rest

theorem resolve_insert {files : Table String} {source file path : String}
    (hnone : (r.candidates source file).find? files.contains = none)
    (hpath : path ∈ r.candidates source file) (content : String) :
    r.resolve source file (files.insert path content).contains = some path := by
  have habsent := List.find?_eq_none.mp hnone
  unfold resolve
  cases hfound : (r.candidates source file).find? (files.insert path content).contains with
  | none =>
      refine absurd ?_ (List.find?_eq_none.mp hfound path hpath)
      simp [Table.contains]
  | some other =>
      congr 1
      have hmem := List.mem_of_find?_eq_some hfound
      have hthere : (files.insert path content).contains other = true := List.find?_some hfound
      by_contra hne
      exact habsent other hmem (by simpa [Table.contains, Ne.symm hne] using hthere)

end Resolver

namespace Validator

/-!
# Closing the gaps
-/

variable {v : Validator} {files : Table String}

theorem exists_import_of_unresolved {u : UnresolvedImport}
    (h : u ∈ (v.validate files).unresolved) :
    (exists text record, (u.file, text) ∈ files.entries ∧
        record ∈ (SourceModule.scan u.file text).imports ∧ record.source = u.source ∧
        record.requested = u.requested) ∧
      v.resolver.isExternal u.source = false ∧
      u.candidates = v.resolver.candidates u.source u.file ∧
      (v.resolver.candidates u.source u.file).find? files.contains = none := by
  obtain ⟨path, text, record, hfile, _, hrecord, hcheck⟩ := exists_of_mem_unresolved h
  obtain ⟨hproject, hnone, rfl⟩ := mem_unresolved_iff.mp hcheck
  exact ⟨⟨text, record, hfile, hrecord, rfl, rfl⟩, hproject, rfl, hnone⟩

/--
Every unresolved import counts for one missing file, that of its first candidate; the missing files
come in the order of these, each with all that is asked of it.  Once a missing file is written under
its suggested path, which is not taken, all imports that count for it resolve to it.
-/
theorem find_closes_gaps (v : Validator) (files : Table String)
    (hextensions : v.resolver.extensions ≠ []) :
    let unresolved := (v.validate files).unresolved
    let missing := MissingFile.find v.resolver unresolved
    (missing.map (·.path) = (unresolved.filterMap (·.candidates.head?)).eraseDups ∧
        (missing.map (·.path)).Nodup) ∧
      (forall u, u ∈ unresolved ->
        (exists text record, (u.file, text) ∈ files.entries ∧
          record ∈ (SourceModule.scan u.file text).imports ∧ record.source = u.source ∧
          record.requested = u.requested) ∧
        exists m, (m ∈ missing ∧ u.candidates.head? = some m.path) ∧
          forall other, other ∈ missing -> u.candidates.head? = some other.path -> other = m) ∧
      forall m, m ∈ missing ->
        let group := unresolved.filter fun u => u.candidates.head? = some m.path
        m.requiredExports = (group.flatMap (·.requested)).eraseDups ∧
          m.importedBy = (group.map (·.file)).eraseDups ∧
          m.suggestedPath ∉ files.keys ∧
          forall u, u ∈ group ->
            m.suggestedPath ∈ v.resolver.candidates u.source u.file ∧
              forall content, v.resolver.resolve u.source u.file
                (files.insert m.suggestedPath content).contains = some m.suggestedPath := by
  intro unresolved missing
  have hmissing : missing =
      (MissingFile.wanted unresolved).map (MissingFile.gathered v.resolver unresolved) :=
    MissingFile.find_eq v.resolver unresolved
  have hpaths : missing.map (·.path) = MissingFile.wanted unresolved := by
    rw [hmissing, List.map_map]
    exact List.map_id _
  refine ⟨⟨hpaths, ?_⟩, ?_, ?_⟩
  · rw [hpaths]
    exact MissingFile.nodup_wanted unresolved
  · intro u hu
    obtain ⟨himport, hproject, hcandidates, _⟩ := exists_import_of_unresolved hu
    refine ⟨himport, ?_⟩
    cases hfirst : u.candidates.head? with
    | none =>
        rw [hcandidates, List.head?_eq_none_iff] at hfirst
        exact absurd hfirst (Resolver.candidates_ne_nil hextensions hproject)
    | some path =>
        have hwanted : path ∈ MissingFile.wanted unresolved :=
          MissingFile.mem_wanted_iff.mpr ⟨u, MissingFile.mem_asking_iff.mpr ⟨hu, hfirst⟩⟩
        refine ⟨MissingFile.gathered v.resolver unresolved path, ⟨?_, rfl⟩, ?_⟩
        · rw [hmissing]
          exact List.mem_map.mpr ⟨path, hwanted, rfl⟩
        · intro other hother hpath
          rw [hmissing] at hother
          obtain ⟨path', _, rfl⟩ := List.mem_map.mp hother
          rw [Option.some.inj hpath]
          rfl
  · intro m hm group
    rw [hmissing] at hm
    obtain ⟨path, hpath, rfl⟩ := List.mem_map.mp hm
    have hsuggested : forall u, u ∈ group ->
        v.resolver.suggestedPath path ∈ v.resolver.candidates u.source u.file ∧
          (v.resolver.candidates u.source u.file).find? files.contains = none := by
      intro u hu
      obtain ⟨hmem, hfirst⟩ := MissingFile.mem_asking_iff.mp hu
      obtain ⟨_, _, hcandidates, hnone⟩ := exists_import_of_unresolved hmem
      rw [hcandidates] at hfirst
      exact ⟨Resolver.suggestedPath_mem_candidates hfirst, hnone⟩
    refine ⟨rfl, rfl, ?_, ?_⟩
    · obtain ⟨u, hu⟩ := MissingFile.mem_wanted_iff.mp hpath
      obtain ⟨hcandidate, hnone⟩ := hsuggested u hu
      intro hkey
      refine List.find?_eq_none.mp hnone _ hcandidate ?_
      exact Option.isSome_iff_exists.mpr ((Table.mem_keys_iff files _).mp hkey)
    · intro u hu
      obtain ⟨hcandidate, hnone⟩ := hsuggested u hu
      exact ⟨hcandidate, Resolver.resolve_insert hnone hcandidate⟩

/-- Two spellings of one gap ask for a default export and for names; a style sheet keeps its
extension. -/
theorem find_closes_gaps_spellings :
    let v : Validator := { resolver := Resolver.make none [] }
    let files : Table String :=
      { entries :=
          [("src/a.ts", "import d, \x7b x \x7d from './m'\nimport './s.css'\n"),
            ("src/b.ts", "import \x7b y, x \x7d from '@/m'\n")] }
    let shared : MissingFile :=
      { path := "src/m"
        suggestedPath := "src/m.ts"
        requiredExports := ["default", "x", "y"]
        importedBy := ["src/a.ts", "src/b.ts"] }
    v.resolver.extensions ≠ [] ∧
      MissingFile.find v.resolver (v.validate files).unresolved =
        [shared,
          { path := "src/s.css", suggestedPath := "src/s.css", importedBy := ["src/a.ts"] }] ∧
      "src/m.ts" ∉ files.keys ∧
      forall content, v.resolver.resolve "@/m" "src/b.ts"
        (files.insert "src/m.ts" content).contains = some "src/m.ts" := by
  intro v files shared
  have hextensions : v.resolver.extensions ≠ [] := Resolver.extensions_make_ne_nil none []
  have hfind : MissingFile.find v.resolver (v.validate files).unresolved =
      [shared,
        { path := "src/s.css", suggestedPath := "src/s.css", importedBy := ["src/a.ts"] }] := by
    decide +kernel
  have haliased :
      ({ file := "src/b.ts"
         line := 1
         source := "@/m"
         candidates := v.resolver.candidates "@/m" "src/b.ts"
         requested := ["y", "x"] } : UnresolvedImport) ∈
        (v.validate files).unresolved.filter fun u => u.candidates.head? = some shared.path := by
    decide +kernel
  obtain ⟨_, _, hclosed⟩ := v.find_closes_gaps files hextensions
  have hshared : shared ∈ MissingFile.find v.resolver (v.validate files).unresolved := by
    rw [hfind]
    exact List.mem_cons_self ..
  obtain ⟨_, _, hfree, hgroup⟩ := hclosed shared hshared
  exact ⟨hextensions, hfind, hfree, (hgroup _ haliased).2⟩

end Validator
end Joinery
