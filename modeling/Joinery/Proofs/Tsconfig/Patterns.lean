import Joinery.Proofs.Dependencies
import Joinery.Proofs.Resolver.Spelling
import Joinery.Tsconfig.Aliases

/-!
# What path patterns capture

## From patterns with a star to prefixes

A pattern loses the star at its end on the way into the table of aliases, and an alias stands
for every source that begins with it.  So a pattern with a star captures what it matches, and
a pattern without one captures the longer sources that begin with it as well.
-/

namespace Joinery
namespace Tsconfig

def pathsOf (data : Value) : List (Value × Value) :=
  match ((data.get? "compilerOptions").getD .null).get? "paths" with
  | some (.mapping patterns) => patterns
  | _ => []

def patternOf? : Value × Value -> Option (String × String)
  | (.text pattern, .list (.text target :: _)) => some (pattern, target)
  | _ => none

def patternsOf (data : Value) : List (String × String) :=
  (pathsOf data).filterMap patternOf?

def patternsIn (text : String) : List (String × String) :=
  ((Json.parse .rounded (toJson text.toList)).map patternsOf).getD []

/-- A pattern that becomes an alias. -/
structure IsUsable (pattern : String) : Prop where
  ne_empty : pattern ≠ ""
  ne_star : pattern ≠ "*"
  undotted : pattern.toList.head? ≠ some '.'

/-- A pattern with a star matches the sources that begin like it, another one only itself. -/
inductive Matches : String -> String -> Prop where
  | star {start source : String} : start.toList <+: source.toList -> Matches (start ++ "*") source
  | exact {source : String} : '*' ∉ source.toList -> Matches source source

/-- No star stands in a pattern except at its end. -/
def StarsAtEnd (pattern : String) : Prop :=
  '*' ∉ pattern.toList.dropLast

variable {pattern source text : String} {aliases : Table String}

/-!
# Patterns and their starts
-/

@[simp] theorem withoutStar_append (start : String) : withoutStar (start ++ "*") = start := by
  have hreverse : (start ++ "*").toList.reverse = '*' :: start.toList.reverse := by
    rw [String.toList_append, List.reverse_append]
    rfl
  unfold withoutStar
  rw [hreverse]
  show String.ofList start.toList.reverse.reverse = start
  rw [List.reverse_reverse, String.ofList_toList]

theorem withoutStar_of_not_mem (h : '*' ∉ pattern.toList) : withoutStar pattern = pattern := by
  unfold withoutStar
  split
  · next rest hreverse =>
      have hmem : '*' ∈ pattern.toList.reverse := by
        rw [hreverse]
        exact List.mem_cons_self ..
      exact absurd (List.mem_reverse.mp hmem) h
  · rfl

theorem StarsAtEnd.cases (h : StarsAtEnd pattern) :
    (exists start, pattern = start ++ "*") ∨ '*' ∉ pattern.toList := by
  rcases List.eq_nil_or_concat' pattern.toList with hnil | ⟨front, last, hconcat⟩
  · right
    rw [hnil]
    exact List.not_mem_nil
  · unfold StarsAtEnd at h
    rw [hconcat, List.dropLast_concat] at h
    by_cases hlast : last = '*'
    · left
      refine ⟨String.ofList front, String.toList_injective ?_⟩
      rw [hconcat, hlast, String.toList_append, String.toList_ofList]
      rfl
    · right
      rw [hconcat, List.mem_append, List.mem_singleton, not_or]
      exact ⟨h, fun heq => hlast heq.symm⟩

theorem StarsAtEnd.isUsable_iff (h : StarsAtEnd pattern) :
    IsUsable pattern <->
      withoutStar pattern ≠ "" ∧ (withoutStar pattern).toList.head? ≠ some '.' := by
  rcases h.cases with ⟨start, rfl⟩ | hnone
  · rw [withoutStar_append]
    constructor
    · rintro ⟨-, hstar, hdot⟩
      have hne : start ≠ "" := by
        rintro rfl
        exact hstar rfl
      refine ⟨hne, ?_⟩
      intro hhead
      rw [String.toList_append, List.head?_append, hhead] at hdot
      exact hdot rfl
    · rintro ⟨hne, hdot⟩
      obtain ⟨c, cs, hcs⟩ := List.exists_cons_of_ne_nil (mt String.toList_eq_nil_iff.mp hne)
      have hchars : (start ++ "*").toList = c :: (cs ++ ['*']) := by
        rw [String.toList_append, hcs]
        rfl
      refine ⟨?_, ?_, ?_⟩
      · intro heq
        rw [heq] at hchars
        cases hchars
      · intro heq
        rw [heq] at hchars
        exact absurd (List.cons.inj hchars).2.symm (by simp)
      · rw [hchars]
        rwa [hcs] at hdot
  · rw [withoutStar_of_not_mem hnone]
    constructor
    · rintro ⟨hne, -, hdot⟩
      exact ⟨hne, hdot⟩
    · rintro ⟨hne, hdot⟩
      refine ⟨hne, ?_, hdot⟩
      rintro rfl
      exact hnone (by decide)

theorem StarsAtEnd.matches_iff (h : StarsAtEnd pattern) :
    Matches pattern source <->
      (withoutStar pattern).toList <+: source.toList ∧
        ('*' ∈ pattern.toList ∨ pattern = source) := by
  constructor
  · intro hmatches
    cases hmatches with
    | star hstart =>
        rw [withoutStar_append]
        exact ⟨hstart, Or.inl (by simp)⟩
    | exact hnone =>
        rw [withoutStar_of_not_mem hnone]
        exact ⟨List.prefix_refl _, Or.inr rfl⟩
  · rintro ⟨hstart, hend⟩
    rcases h.cases with ⟨start, rfl⟩ | hnone
    · rw [withoutStar_append] at hstart
      exact .star hstart
    · rcases hend with hstar | rfl
      · exact absurd hstar hnone
      · exact .exact hnone

/--
Sources that begin with a pattern without its star are those that the pattern matches and,
for a pattern that has no star, those that are longer.
-/
theorem StarsAtEnd.prefix_iff (h : StarsAtEnd pattern) :
    (withoutStar pattern).toList <+: source.toList <->
      Matches pattern source ∨
        '*' ∉ pattern.toList ∧ pattern.toList <+: source.toList ∧ pattern ≠ source := by
  rw [h.matches_iff]
  by_cases hstar : '*' ∈ pattern.toList
  · simp [hstar]
  · rw [withoutStar_of_not_mem hstar]
    by_cases heq : pattern = source
    · simp [heq]
    · simp [hstar, heq]

/-!
# The keys of the table
-/

theorem aliasOf?_eq_some_iff {base : String} {entry : Value × Value} {made : String × String} :
    aliasOf? base entry.1 entry.2 = some made <->
      exists pattern target, patternOf? entry = some (pattern, target) ∧
        withoutStar pattern ≠ "" ∧ (withoutStar pattern).toList.head? ≠ some '.' ∧
        made = (withoutStar pattern, targetDirectory base target) := by
  obtain ⟨key, targets⟩ := entry
  unfold aliasOf?
  dsimp only
  split
  · next pattern target rest =>
      simp only [patternOf?, Option.some.injEq, Prod.mk.injEq, Option.ite_none_left_eq_some,
        Bool.or_eq_true, String.isEmpty_iff, decide_eq_true_eq, not_or]
      constructor
      · rintro ⟨⟨hne, hdot⟩, rfl⟩
        exact ⟨pattern, target, ⟨rfl, rfl⟩, hne, hdot, rfl⟩
      · rintro ⟨_, _, ⟨rfl, rfl⟩, hne, hdot, rfl⟩
        exact ⟨⟨hne, hdot⟩, rfl⟩
  · next hother =>
      constructor
      · intro h
        cases h
      · rintro ⟨pattern, target, hpattern, -⟩
        unfold patternOf? at hpattern
        split at hpattern
        · next heq =>
            cases heq
            exact absurd rfl (hother _ _ _ rfl)
        · cases hpattern

theorem mem_keys_aliasesOf_iff {data : Value} {key : String} :
    key ∈ (aliasesOf data).keys <->
      exists entry, entry ∈ patternsOf data ∧ withoutStar entry.1 = key ∧
        key ≠ "" ∧ key.toList.head? ≠ some '.' := by
  have haliases : exists base, aliasesOf data =
      Table.ofList ((pathsOf data).filterMap fun entry => aliasOf? base entry.1 entry.2) := by
    refine ⟨baseDirectory ((data.get? "compilerOptions").getD .null), ?_⟩
    unfold aliasesOf pathsOf
    dsimp only
    cases ((data.get? "compilerOptions").getD .null).get? "paths" with
    | none => rfl
    | some value => cases value <;> rfl
  obtain ⟨base, haliases⟩ := haliases
  rw [haliases, Table.mem_keys_ofList_iff]
  unfold patternsOf
  simp only [List.mem_filterMap, aliasOf?_eq_some_iff]
  constructor
  · rintro ⟨_, ⟨entry, hentry, pattern, target, hpattern, hne, hdot, rfl⟩, rfl⟩
    exact ⟨(pattern, target), ⟨entry, hentry, hpattern⟩, rfl, hne, hdot⟩
  · rintro ⟨⟨pattern, target⟩, ⟨entry, hentry, hpattern⟩, rfl, hne, hdot⟩
    exact ⟨_, ⟨entry, hentry, pattern, target, hpattern, hne, hdot, rfl⟩, rfl⟩

theorem exists_of_parse (h : parse text = .ok aliases) :
    exists data, patternsIn text = patternsOf data ∧ aliases = aliasesOf data := by
  unfold parse at h
  unfold patternsIn
  split at h
  · cases h
  · next entries hdata =>
      cases h
      exact ⟨.mapping entries, by rw [hdata]; rfl, rfl⟩
  · cases h

end Tsconfig

namespace Resolver

open Text

theorem classify_eq_aliased_iff {r : Resolver} {source : String}
    (hrelative : isRelative source = false) :
    r.classify source = .aliased <->
      exists key, key ∈ r.aliases.keys ∧ key.toList <+: source.toList := by
  unfold classify aliasOf
  rw [if_neg (by rw [hrelative]; exact Bool.false_ne_true)]
  cases hfound : longestAlias source r.aliases.entries with
  | none =>
      have hnone := longestAlias_eq_none_iff.mp hfound
      simp only [Option.isSome_none, Bool.false_eq_true, if_false, reduceCtorEq, false_iff]
      rintro ⟨key, hkey, hbegins⟩
      obtain ⟨entry, hentry, rfl⟩ := List.mem_map.mp hkey
      have hnot := hnone entry hentry
      rw [beginsWith, List.isPrefixOf_iff_prefix.mpr hbegins] at hnot
      cases hnot
  | some best =>
      obtain ⟨hmem, hbegins, -⟩ := longestAlias_spec hfound
      simp only [Option.isSome_some, if_true, true_iff]
      exact ⟨best.1, List.mem_map_of_mem hmem, List.isPrefixOf_iff_prefix.mp hbegins⟩

theorem classify_of_not_relative {r : Resolver} {source : String}
    (hrelative : isRelative source = false) (haliased : r.classify source ≠ .aliased) :
    r.classify source = .external := by
  unfold classify at haliased ⊢
  rw [if_neg (by rw [hrelative]; exact Bool.false_ne_true)] at haliased ⊢
  split at haliased
  · exact absurd rfl haliased
  · next hnone =>
      rw [if_neg hnone]

theorem packageRoot_ne_empty {source : String} (hne : source ≠ "")
    (hslash : source.toList.head? ≠ some '/') : packageRoot source ≠ "" := by
  obtain ⟨c, rest, hsource⟩ := List.exists_cons_of_ne_nil (mt String.toList_eq_nil_iff.mp hne)
  have hc : '/' ∉ [c] := by
    rw [List.mem_singleton]
    rintro rfl
    rw [hsource] at hslash
    exact hslash rfl
  obtain ⟨piece, pieces, _, hpieces⟩ := exists_splitOn_append hc rest
  rw [List.singleton_append, List.singleton_append, <- hsource] at hpieces
  unfold packageRoot
  intro hroot
  have hchars := congrArg String.toList hroot
  rw [String.toList_ofList, hpieces] at hchars
  split at hchars <;>
    rw [List.take_succ_cons, List.intercalate_cons_cons_left] at hchars <;> cases hchars

end Resolver

namespace Tsconfig

/--
The sources that the path patterns capture are those that one of them matches and those that
go on where a pattern without a star ends.  All others are external, and so are their packages
listed.
-/
theorem classify_parse (hparse : parse text = .ok aliases)
    (hstars : forall entry, entry ∈ patternsIn text -> StarsAtEnd entry.1)
    (hrelative : Resolver.isRelative source = false) (extensions : List String) :
    (Resolver.classify ⟨aliases, extensions⟩ source = .aliased <->
      exists entry, entry ∈ patternsIn text ∧ IsUsable entry.1 ∧
        (Matches entry.1 source ∨
          '*' ∉ entry.1.toList ∧ entry.1.toList <+: source.toList ∧ entry.1 ≠ source)) ∧
    (Resolver.classify ⟨aliases, extensions⟩ source ≠ .aliased ->
      Resolver.classify ⟨aliases, extensions⟩ source = .external ∧
      (source ≠ "" -> source.toList.head? ≠ some '/' ->
        forall modules : ModuleTable, forall entry, entry ∈ modules.entries ->
          source ∈ Dependencies.sourcesOf entry.2 ->
          Resolver.packageRoot source ∈ Dependencies.packages ⟨aliases, extensions⟩ modules)) := by
  constructor
  · obtain ⟨data, hpatterns, rfl⟩ := exists_of_parse hparse
    rw [hpatterns] at hstars ⊢
    rw [Resolver.classify_eq_aliased_iff hrelative]
    constructor
    · rintro ⟨key, hkey, hbegins⟩
      obtain ⟨entry, hentry, rfl, hne, hdot⟩ := mem_keys_aliasesOf_iff.mp hkey
      exact ⟨entry, hentry, (hstars entry hentry).isUsable_iff.mpr ⟨hne, hdot⟩,
        (hstars entry hentry).prefix_iff.mp hbegins⟩
    · rintro ⟨entry, hentry, husable, hcaptures⟩
      obtain ⟨hne, hdot⟩ := (hstars entry hentry).isUsable_iff.mp husable
      exact ⟨withoutStar entry.1, mem_keys_aliasesOf_iff.mpr ⟨entry, hentry, rfl, hne, hdot⟩,
        (hstars entry hentry).prefix_iff.mpr hcaptures⟩
  · intro haliased
    have hexternal := Resolver.classify_of_not_relative hrelative haliased
    refine ⟨hexternal, ?_⟩
    intro hne hslash modules entry hentry hsource
    refine Dependencies.mem_packages_iff.mpr ⟨entry, source, hentry, hsource, ?_⟩
    refine Dependencies.packageOf?_eq_some_iff.mpr
      ⟨Resolver.packageRoot_ne_empty hne hslash, ?_, rfl⟩
    unfold Resolver.isExternal
    rw [hexternal]
    rfl

def mixedFile : String :=
  "\x7b\"compilerOptions\": \x7b\"paths\": \x7b\"@/*\": [\"./src/*\"], \"lib\": [\"src/lib\"]\x7d\x7d\x7d"

theorem patternsIn_mixedFile :
    patternsIn mixedFile = [("@/*", "./src/*"), ("lib", "src/lib")] := by
  decide +kernel

theorem parse_mixedFile :
    parse mixedFile = .ok { entries := [("@/", "src/"), ("lib", "src/lib")] } := by
  decide +kernel

theorem starsAtEnd_mixedFile {entry : String × String} (h : entry ∈ patternsIn mixedFile) :
    StarsAtEnd entry.1 := by
  rw [patternsIn_mixedFile] at h
  unfold StarsAtEnd
  revert entry
  decide

theorem classify_parse_mixedFile :
    let aliases : Table String := { entries := [("@/", "src/"), ("lib", "src/lib")] }
    parse mixedFile = .ok aliases ∧
      (forall entry, entry ∈ patternsIn mixedFile -> StarsAtEnd entry.1) ∧
      Resolver.isRelative "@/lib" = false ∧ Resolver.isRelative "react/jsx" = false ∧
      Resolver.classify ⟨aliases, [".ts"]⟩ "@/lib" = .aliased ∧
      Resolver.classify ⟨aliases, [".ts"]⟩ "react/jsx" = .external ∧
      forall modules : ModuleTable, forall entry, entry ∈ modules.entries ->
        "react/jsx" ∈ Dependencies.sourcesOf entry.2 ->
        "react" ∈ Dependencies.packages ⟨aliases, [".ts"]⟩ modules := by
  dsimp only
  have hstars : forall entry, entry ∈ patternsIn mixedFile -> StarsAtEnd entry.1 :=
    fun _ hentry => starsAtEnd_mixedFile hentry
  have hlib : Resolver.isRelative "@/lib" = false := rfl
  have hreact : Resolver.isRelative "react/jsx" = false := rfl
  have haliased := (classify_parse parse_mixedFile hstars hlib [".ts"]).1
  have hexternal := (classify_parse parse_mixedFile hstars hreact [".ts"]).2
  obtain ⟨hclassified, hlisted⟩ := hexternal (by decide)
  refine ⟨parse_mixedFile, hstars, hlib, hreact, ?_, hclassified, ?_⟩
  · refine haliased.mpr ⟨("@/*", "./src/*"), ?_, ⟨by decide, by decide, by decide⟩, Or.inl ?_⟩
    · rw [patternsIn_mixedFile]
      exact List.mem_cons_self ..
    · have hprefix : "@/".toList <+: "@/lib".toList := by decide
      exact Matches.star hprefix
  · exact hlisted (by decide) (by decide)

/-- The pattern `lib` has no star and takes `library` for an alias. -/
theorem exact_pattern_captures_longer :
    exists text aliases source, parse text = .ok aliases ∧
      (forall entry, entry ∈ patternsIn text -> StarsAtEnd entry.1) ∧
      Resolver.isRelative source = false ∧
      Resolver.classify ⟨aliases, Resolver.defaultExtensions⟩ source = .aliased ∧
      ¬ exists entry, entry ∈ patternsIn text ∧ IsUsable entry.1 ∧ Matches entry.1 source := by
  refine ⟨mixedFile, _, "library", parse_mixedFile, fun entry => starsAtEnd_mixedFile, rfl,
    by decide, ?_⟩
  rintro ⟨entry, hentry, -, hmatches⟩
  rw [(starsAtEnd_mixedFile hentry).matches_iff] at hmatches
  rw [patternsIn_mixedFile] at hentry
  revert entry
  decide

end Tsconfig
end Joinery
