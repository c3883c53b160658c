import Joinery.Proofs.Dependencies
import Joinery.Proofs.Path.Normal
import Joinery.Proofs.Tsconfig.Patterns
import Joinery.Proofs.Validation.Agreement

/-!
# Accounts of imports

## Every import is entered

Validation and the list of packages read the same imports and decide on their own which of them
concern them.  Validation counts the imports of project files and reports those that lead nowhere;
the list names the packages of all others.  An import is never in both accounts, and it is in one of
them unless its source is an absolute path, which is taken for no package.
-/

namespace Joinery

namespace SourceModule

open Text Matcher

variable {α β : Type} {P : α -> Prop} {Q : β -> Prop}

/-!
# Sources are not empty
-/

/-- All that a form answers has a property. -/
def Gives (P : α -> Prop) (m : Matcher α) : Prop :=
  forall c found, found ∈ m c -> P found.1

theorem Gives.give {value : α} (h : P value) : Gives P (Matcher.give value) := by
  intro c found hfound
  rw [mem_give_iff.mp hfound]
  exact h

theorem Gives.bind {m : Matcher α} {next : α -> Matcher β} (hm : Gives P m)
    (hnext : forall value, P value -> Gives Q (next value)) : Gives Q (m >>= next) := by
  intro c found hfound
  obtain ⟨first, hfirst, hrest⟩ := mem_bind_iff.mp hfound
  exact hnext first.1 (hm c first hfirst) first.2 found hrest

theorem Gives.after {m : Matcher α} {next : α -> Matcher β}
    (hnext : forall value, Gives Q (next value)) : Gives Q (m >>= next) := by
  have hm : Gives (fun _ => True) m := fun _ _ _ => trivial
  exact hm.bind fun value _ => hnext value

theorem gives_quoted : Gives (· ≠ "") quoted := by
  have htext : forall p, Gives (· ≠ []) (Matcher.stretch1 p) := by
    intro p
    rw [stretch1_eq]
    apply Gives.after
    intro first
    apply Gives.after
    intro rest
    exact Gives.give (List.cons_ne_nil first rest)
  refine Gives.after fun opening => ?_
  refine Gives.bind (htext _) fun text hne => Gives.after fun _ => Gives.give ?_
  intro hempty
  have hchars := congrArg String.toList hempty
  rw [String.toList_ofList] at hchars
  exact hne hchars

theorem gives_fromSource : Gives (· ≠ "") fromSource :=
  Gives.after fun _ => Gives.after fun _ => gives_quoted

theorem gives_requireCall : Gives (· ≠ "") requireCall := by
  refine Gives.after fun _ => Gives.after fun _ => Gives.after fun _ => Gives.after fun _ => ?_
  refine Gives.bind gives_quoted fun source hne => ?_
  exact Gives.after fun _ => Gives.after fun _ => Gives.give hne

def NamesSource (made : Nat -> Option Import) : Prop :=
  forall line record, made line = some record -> record.source ≠ ""

theorem NamesSource.some {made : Nat -> Import} (h : forall line, (made line).source ≠ "") :
    NamesSource fun line => Option.some (made line) := by
  intro line record hmade
  cases hmade
  exact h line

theorem ImportKind.namesSource (kind : ImportKind) : Gives NamesSource kind.form := by
  cases kind with
  | takes =>
      refine Gives.after fun _ => Gives.after fun _ => Gives.after fun marked => ?_
      refine Gives.after fun default => Gives.after fun selected => Gives.after fun _ => ?_
      refine Gives.bind gives_fromSource fun source hne => Gives.give ?_
      intro line record hmade
      split at hmade
      · cases hmade
      · cases hmade
        exact hne
  | runs =>
      refine Gives.after fun _ => Gives.after fun _ => Gives.after fun _ => ?_
      refine Gives.bind gives_quoted fun source hne => ?_
      exact Gives.give (NamesSource.some fun _ => hne)
  | requires =>
      refine Gives.after fun _ => Gives.after fun _ => Gives.after fun bindings => ?_
      refine Gives.after fun _ => Gives.after fun _ => Gives.after fun _ => ?_
      refine Gives.bind gives_requireCall fun source hne => ?_
      exact Gives.give (NamesSource.some fun _ => hne)
  | calls =>
      refine Gives.after fun _ => ?_
      refine Gives.bind gives_requireCall fun source hne => ?_
      exact Gives.give (NamesSource.some fun _ => hne)

theorem source_ne_empty {path text : String} {record : Import}
    (h : record ∈ (scan path text).imports) : record.source ≠ "" := by
  obtain ⟨kind, entry, hform, rfl⟩ := exists_of_mem_importsOfCode h
  obtain ⟨found, hfound, hmade⟩ := List.mem_filterMap.mp hform
  obtain ⟨record, hrecord, rfl⟩ := Option.map_eq_some_iff.mp hmade
  obtain ⟨stop, hanswer⟩ := exists_mem_of_mem_findFrom hfound
  exact kind.namesSource _ _ hanswer _ record hrecord

end SourceModule

namespace Resolver

/-!
# The account of a source
-/

theorem packageRoot_prefix (source : String) : (packageRoot source).toList <+: source.toList := by
  have hprefix := Text.intercalate_take_prefix '/' (List.splitOn '/' source.toList)
    (if source.toList.head? = some '@' then 2 else 1)
  rw [List.intercalate_splitOn] at hprefix
  rw [packageRoot, String.toList_ofList]
  exact hprefix

theorem packageRoot_eq_empty {source : String} (h : source.toList.head? = some '/') :
    packageRoot source = "" := by
  obtain ⟨rest, hrest⟩ := List.head?_eq_some_iff.mp h
  unfold packageRoot
  rw [hrest]
  rfl

/-- Where an import is entered. -/
inductive Account where
  /-- among the imports of project files -/
  | project
  /-- among the packages -/
  | package
  /-- nowhere, since an absolute path names no package -/
  | none
deriving DecidableEq, Repr

def account (r : Resolver) (source : String) : Account :=
  if r.isExternal source then
    if source.toList.head? = some '/' then .none else .package
  else .project

variable {r : Resolver} {source : String}

theorem account_eq_project_iff : r.account source = .project <-> r.isExternal source = false := by
  unfold account
  cases r.isExternal source with
  | false =>
      simp
  | true =>
      rw [if_pos rfl]
      split <;> simp

theorem account_eq_none_iff :
    r.account source = .none <-> r.isExternal source = true ∧ source.toList.head? = some '/' := by
  unfold account
  cases r.isExternal source with
  | false =>
      simp
  | true =>
      rw [if_pos rfl]
      split
      · next hslash =>
          exact iff_of_true rfl ⟨rfl, hslash⟩
      · next hslash =>
          exact iff_of_false Account.noConfusion fun h => hslash h.2

theorem account_eq_package_iff (hne : source ≠ "") :
    r.account source = .package <-> (Dependencies.packageOf? r source).isSome = true := by
  rw [Option.isSome_iff_exists]
  unfold account
  constructor
  · intro h
    split at h
    · next hexternal =>
        split at h
        · cases h
        · next hslash =>
            exists packageRoot source
            exact Dependencies.packageOf?_eq_some_iff.mpr
              ⟨packageRoot_ne_empty hne hslash, hexternal, rfl⟩
    · cases h
  · intro h
    obtain ⟨root, hroot⟩ := h
    obtain ⟨hfull, hexternal, rfl⟩ := Dependencies.packageOf?_eq_some_iff.mp hroot
    rw [if_pos hexternal, if_neg]
    intro hslash
    exact hfull (packageRoot_eq_empty hslash)

end Resolver

namespace Validator

variable {v : Validator} {files : Table String} {s : String × Import}

/-!
# The accounts of a snapshot
-/

theorem mem_statements_iff :
    s ∈ v.statements files <->
      exists text, (s.1, text) ∈ files.entries ∧ v.resolver.isSourceFile s.1 = true ∧
        s.2 ∈ (SourceModule.scan s.1 text).imports := by
  unfold statements
  rw [List.mem_flatMap]
  constructor
  · intro h
    obtain ⟨file, hfile, hmem⟩ := h
    obtain ⟨record, hrecord, rfl⟩ := List.mem_map.mp hmem
    obtain ⟨hentry, hsource⟩ := List.mem_filter.mp hfile
    exact ⟨file.2, hentry, hsource, hrecord⟩
  · intro h
    obtain ⟨text, hentry, hsource, hrecord⟩ := h
    exact ⟨(s.1, text), List.mem_filter.mpr ⟨hentry, hsource⟩,
      List.mem_map.mpr ⟨s.2, hrecord, rfl⟩⟩

theorem source_ne_empty (h : s ∈ v.statements files) : s.2.source ≠ "" := by
  obtain ⟨text, _, _, hrecord⟩ := mem_statements_iff.mp h
  exact SourceModule.source_ne_empty hrecord

theorem importCount_checkStatement (v : Validator) (files : Table String) (s : String × Import) :
    (v.checkStatement files s).importCount =
      if v.resolver.account s.2.source = .project then 1 else 0 := by
  unfold checkStatement checkImport
  cases hexternal : v.resolver.isExternal s.2.source with
  | true =>
      rw [if_pos rfl, if_neg]
      rw [Resolver.account_eq_project_iff, hexternal]
      exact Bool.noConfusion
  | false =>
      rw [if_neg Bool.false_ne_true, if_pos (Resolver.account_eq_project_iff.mpr hexternal)]
      dsimp only
      split
      · rfl
      · split <;> rfl

theorem importCount_eq_countP (v : Validator) (files : Table String) :
    (v.validate files).importCount =
      (v.statements files).countP fun s => v.resolver.account s.2.source = .project := by
  rw [importCount_eq, checks_eq_map, List.map_map]
  induction v.statements files with
  | nil =>
      rfl
  | cons s rest ih =>
      rw [List.map_cons, List.sum_cons, ih, List.countP_cons, Function.comp_apply,
        importCount_checkStatement, Nat.add_comm]
      simp only [decide_eq_true_eq]

/-- What is said about an import of a file in the account that it has. -/
inductive Entered (v : Validator) (files : Table String) (s : String × Import) :
    Resolver.Account -> Prop where
  | resolved {target : String} : v.resolver.isExternal s.2.source = false ->
      v.resolver.resolve s.2.source s.1 files.contains = some target ->
      files.contains target = true -> Entered v files s .project
  | unresolved {u : UnresolvedImport} : v.resolver.isExternal s.2.source = false ->
      v.resolver.resolve s.2.source s.1 files.contains = none ->
      u ∈ (v.validate files).unresolved ->
      u.file = s.1 ∧ u.line = s.2.line ∧ u.source = s.2.source -> Entered v files s .project
  | package : v.resolver.isExternal s.2.source = true ->
      Resolver.packageRoot s.2.source ∈
        Dependencies.packages v.resolver (v.validate files).modules ->
      Resolver.packageRoot s.2.source ≠ "" ->
      (Resolver.packageRoot s.2.source).toList <+: s.2.source.toList ->
      Entered v files s .package
  | none : v.resolver.isExternal s.2.source = true -> s.2.source.toList.head? = some '/' ->
      Dependencies.packageOf? v.resolver s.2.source = none -> Entered v files s .none

theorem entered_project (h : s ∈ v.statements files)
    (hinternal : v.resolver.isExternal s.2.source = false) : v.Entered files s .project := by
  cases hfound : v.resolver.resolve s.2.source s.1 files.contains with
  | some target =>
      have htarget : files.contains target = true := List.find?_some hfound
      exact .resolved hinternal hfound htarget
  | none =>
      let found : UnresolvedImport :=
        { file := s.1
          line := s.2.line
          source := s.2.source
          candidates := v.resolver.candidates s.2.source s.1
          requested := s.2.requested }
      suffices hmem : found ∈ (v.validate files).unresolved from
        .unresolved hinternal hfound hmem ⟨rfl, rfl, rfl⟩
      rw [unresolved_eq, checks_eq_map, List.flatMap_map]
      apply List.mem_flatMap.mpr
      exists s
      exact ⟨h, mem_unresolved_iff.mpr ⟨hinternal, hfound, rfl⟩⟩

theorem entered_package (h : s ∈ v.statements files)
    (hexternal : v.resolver.isExternal s.2.source = true)
    (hslash : s.2.source.toList.head? ≠ some '/') : v.Entered files s .package := by
  obtain ⟨text, hentry, hsource, hrecord⟩ := mem_statements_iff.mp h
  have hroot := Resolver.packageRoot_ne_empty (source_ne_empty h) hslash
  refine .package hexternal ?_ hroot (Resolver.packageRoot_prefix _)
  rw [modules_eq]
  apply Dependencies.mem_packages_iff.mpr
  refine ⟨_, s.2.source, Dependencies.mem_scanAll_iff.mpr ⟨s.1, text, hentry, hsource, rfl⟩, ?_, ?_⟩
  · apply List.mem_append_left
    exact List.mem_map_of_mem hrecord
  · exact Dependencies.packageOf?_eq_some_iff.mpr ⟨hroot, hexternal, rfl⟩

theorem entered_none (hexternal : v.resolver.isExternal s.2.source = true)
    (hslash : s.2.source.toList.head? = some '/') : v.Entered files s .none := by
  refine .none hexternal hslash ?_
  apply Option.eq_none_iff_forall_ne_some.mpr
  intro root hroot
  obtain ⟨hne, _, rfl⟩ := Dependencies.packageOf?_eq_some_iff.mp hroot
  exact hne (Resolver.packageRoot_eq_empty hslash)

theorem entered_account (h : s ∈ v.statements files) :
    v.Entered files s (v.resolver.account s.2.source) := by
  unfold Resolver.account
  split
  · next hexternal =>
      split
      · next hslash =>
          exact entered_none hexternal hslash
      · next hslash =>
          exact entered_package h hexternal hslash
  · next hinternal =>
      exact entered_project h (Bool.eq_false_iff.mpr hinternal)

theorem length_eq_countP_accounts {α : Type} (account : α -> Resolver.Account) (l : List α) :
    l.length = (l.countP fun a => account a = .project) + (l.countP fun a => account a = .package) +
      l.countP fun a => account a = .none := by
  induction l with
  | nil =>
      rfl
  | cons a rest ih =>
      rw [List.length_cons, ih, List.countP_cons, List.countP_cons, List.countP_cons]
      cases account a <;> simp <;> omega

/--
Every import of every source file is entered in its account, and the accounts of all imports add up:
those that validation counts, those that have a package, and the absolute paths that are no aliases.
-/
theorem validate_enters_imports (v : Validator) (files : Table String) :
    let imports := v.statements files
    (forall s, s ∈ imports -> v.Entered files s (v.resolver.account s.2.source)) ∧
    (v.validate files).importCount =
      (imports.countP fun s => !v.resolver.isExternal s.2.source) ∧
    imports.length = (v.validate files).importCount +
      (imports.countP fun s => (Dependencies.packageOf? v.resolver s.2.source).isSome) +
      imports.countP fun s =>
        v.resolver.isExternal s.2.source && s.2.source.toList.head? == some '/' := by
  intro imports
  have hcount := importCount_eq_countP v files
  have hinternal : (imports.countP fun s => v.resolver.account s.2.source = .project) =
      imports.countP fun s => !v.resolver.isExternal s.2.source := by
    apply List.countP_congr
    intro s _
    rw [decide_eq_true_eq, Resolver.account_eq_project_iff, Bool.not_eq_true']
  have hpackage : (imports.countP fun s => v.resolver.account s.2.source = .package) =
      imports.countP fun s => (Dependencies.packageOf? v.resolver s.2.source).isSome := by
    apply List.countP_congr
    intro s hs
    rw [decide_eq_true_eq, Resolver.account_eq_package_iff (source_ne_empty hs)]
  have hnone : (imports.countP fun s => v.resolver.account s.2.source = .none) =
      imports.countP fun s =>
        v.resolver.isExternal s.2.source && s.2.source.toList.head? == some '/' := by
    apply List.countP_congr
    intro s _
    rw [decide_eq_true_eq, Resolver.account_eq_none_iff, Bool.and_eq_true, beq_iff_eq]
  have hlength := length_eq_countP_accounts
    (fun s : String × Import => v.resolver.account s.2.source) imports
  refine ⟨fun s => entered_account, hcount.trans hinternal, ?_⟩
  rw [hcount, <- hpackage, <- hnone]
  exact hlength

def mixedImports : Table String :=
  { entries := [("src/a.ts", "import './b'\nimport '@scope/pkg/part'\nimport '/lib/c'\n")] }

theorem validate_enters_imports_mixed :
    let v : Validator := { resolver := Resolver.make none [] }
    v.Entered mixedImports ("src/a.ts", { source := "./b", line := 1 }) .project ∧
      v.Entered mixedImports ("src/a.ts", { source := "@scope/pkg/part", line := 2 }) .package ∧
      v.Entered mixedImports ("src/a.ts", { source := "/lib/c", line := 3 }) .none ∧
      3 = (v.validate mixedImports).importCount + 1 + 1 := by
  intro v
  have himports : v.statements mixedImports =
      [("src/a.ts", { source := "./b", line := 1 }),
        ("src/a.ts", { source := "@scope/pkg/part", line := 2 }),
        ("src/a.ts", { source := "/lib/c", line := 3 })] := by
    decide +kernel
  have hentered := validate_enters_imports v mixedImports
  simp only [himports] at hentered
  obtain ⟨hall, _, hlength⟩ := hentered
  exact ⟨hall _ (by decide), hall _ (by decide), hall _ (by decide), hlength⟩

/-- The import of an absolute path is neither counted nor reported, and it adds no package. -/
theorem absolute_path_not_entered :
    let v : Validator := { resolver := Resolver.make none [] }
    let files : Table String := { entries := [("src/a.ts", "import x from '/'\n")] }
    let imports := v.statements files
    let report := v.validate files
    imports.map (fun s => (s.1, s.2.source)) = [("src/a.ts", "/")] ∧
      v.resolver.isExternal "/" = true ∧ report.importCount = 0 ∧ report.unresolved = [] ∧
      Dependencies.packages v.resolver report.modules = [] ∧
      imports.length ≠ report.importCount +
        imports.countP fun s => (Dependencies.packageOf? v.resolver s.2.source).isSome := by
  decide +kernel

end Validator
end Joinery
