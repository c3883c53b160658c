import Joinery.Proofs.Distinct
import Joinery.Proofs.Validation.Rewriting
import Joinery.Validation.ExportMemory
import Mathlib.Data.List.Perm.Subperm

/-!
# Names passed on by star re-exports

## A bounded search and a recursion

The names of a file are looked for along star re-exports, up to a number of steps, and
each file on the way is visited once.  The same names are given by a recursion that
knows nothing of visited files: a module exports its own names and, but for the
default, what the targets of its star re-exports export with one step less.  On cycles
the recursion comes back to files that it has been to, which adds nothing new.
-/

namespace Joinery

/-- Some steps, at most as many as are allowed, lead from one file to another. -/
inductive Leads (next : String -> List String) : Nat -> String -> String -> Prop
  | here (steps : Nat) (path : String) : Leads next steps path path
  | step {steps : Nat} {path target other : String} (htarget : target ∈ next path)
      (h : Leads next steps target other) : Leads next (steps + 1) path other

namespace Leads

variable {next : String -> List String} {path other : String}

theorem zero_iff : Leads next 0 path other <-> other = path := by
  constructor
  · intro h
    cases h
    rfl
  · rintro rfl
    exact here 0 other

theorem succ_iff {steps : Nat} :
    Leads next (steps + 1) path other <->
      other = path ∨ exists target, target ∈ next path ∧ Leads next steps target other := by
  constructor
  · intro h
    cases h with
    | here =>
        exact Or.inl rfl
    | step htarget h =>
        exact Or.inr ⟨_, htarget, h⟩
  · rintro (rfl | ⟨target, htarget, h⟩)
    · exact here _ other
    · exact step htarget h

theorem mono {steps more : Nat} (hle : steps ≤ more) (h : Leads next steps path other) :
    Leads next more path other := by
  induction h generalizing more with
  | here =>
      exact here more _
  | step htarget _ ih =>
      obtain ⟨fewer, rfl⟩ : exists fewer, more = fewer + 1 :=
        Nat.exists_eq_succ_of_ne_zero (by omega)
      exact step htarget (ih (Nat.le_of_succ_le_succ hle))

end Leads

namespace ExportIndex

variable {next : String -> List String} {index : ExportIndex}

/-!
# The search
-/

theorem closed_of_length_eq {seen : List String} (hseen : seen.Nodup)
    (h : (seen ++ seen.flatMap next).eraseDups.length = seen.length) {path target : String}
    (hpath : path ∈ seen) (htarget : target ∈ next path) : target ∈ seen := by
  have hsub : seen.Subperm (seen ++ seen.flatMap next).eraseDups := by
    refine List.subperm_of_subset hseen ?_
    intro p hp
    exact List.mem_eraseDups.mpr (List.mem_append_left _ hp)
  have hperm := hsub.perm_of_length_le (Nat.le_of_eq h)
  refine hperm.mem_iff.mpr (List.mem_eraseDups.mpr ?_)
  exact List.mem_append_right _ (List.mem_flatMap.mpr ⟨path, hpath, htarget⟩)

theorem mem_of_leads {seen : List String}
    (hclosed : forall path target, path ∈ seen -> target ∈ next path -> target ∈ seen) {steps : Nat}
    {path other : String} (h : Leads next steps path other) (hpath : path ∈ seen) :
    other ∈ seen := by
  induction h with
  | here =>
      exact hpath
  | step htarget _ ih =>
      exact ih (hclosed _ _ hpath htarget)

theorem mem_reachable_iff {steps : Nat} {seen : List String} (hseen : seen.Nodup)
    {other : String} :
    other ∈ reachable next steps seen <->
      exists path, path ∈ seen ∧ Leads next steps path other := by
  induction steps generalizing seen with
  | zero =>
      simp [reachable, Leads.zero_iff]
  | succ steps ih =>
      rw [reachable]
      split
      · next hlength =>
          constructor
          · intro hother
            exact ⟨other, hother, .here _ other⟩
          · rintro ⟨path, hpath, h⟩
            exact mem_of_leads (fun _ _ => closed_of_length_eq hseen hlength) h hpath
      · rw [ih (nodup_eraseDups _)]
        simp only [List.mem_eraseDups, List.mem_append, List.mem_flatMap]
        constructor
        · rintro ⟨target, hpath | ⟨path, hpath, htarget⟩, h⟩
          · exact ⟨target, hpath, h.mono (Nat.le_succ steps)⟩
          · exact ⟨path, hpath, .step htarget h⟩
        · rintro ⟨path, hpath, h⟩
          rcases Leads.succ_iff.mp h with rfl | ⟨target, htarget, h⟩
          · exact ⟨other, Or.inl hpath, .here steps other⟩
          · exact ⟨target, Or.inr ⟨path, hpath, htarget⟩, h⟩

theorem PassesOn.followed {path other : String} (h : index.PassesOn path other)
    (hne : other ≠ path) :
    2 ≤ index.depth ∧ exists target, target ∈ index.starTargets path := by
  have hreach := h.resolve_left hne
  rw [mem_reachable_iff (by simp)] at hreach
  obtain ⟨start, hstart, hleads⟩ := hreach
  cases List.mem_singleton.mp hstart
  cases hsteps : index.depth - 1 with
  | zero =>
      rw [hsteps] at hleads
      exact absurd (Leads.zero_iff.mp hleads) hne
  | succ steps =>
      rw [hsteps] at hleads
      obtain ⟨target, htarget, _⟩ := (Leads.succ_iff.mp hleads).resolve_left hne
      exact ⟨by omega, target, htarget⟩

/-!
# The recursion
-/

/--
What a file exports when star re-exports are followed to a depth: at depth 1 its own names, and at
each greater depth also what the targets of its star re-exports export at the depth before.
-/
def exportsWithin (index : ExportIndex) : Nat -> String -> List String
  | 0, _ => []
  | depth + 1, path =>
      index.ownNames path ++
        (index.starTargets path).flatMap fun target =>
          (index.exportsWithin depth target).filter fun name => name ≠ defaultExport

theorem exportsWithin_one (index : ExportIndex) (path : String) :
    index.exportsWithin 1 path = index.ownNames path := by
  simp [exportsWithin]

theorem mem_exportsWithin_succ_iff {depth : Nat} {path name : String} :
    name ∈ index.exportsWithin (depth + 1) path <->
      name ∈ index.ownNames path ∨
        name ≠ defaultExport ∧ exists target, target ∈ index.starTargets path ∧
          name ∈ index.exportsWithin depth target := by
  simp only [exportsWithin, List.mem_append, List.mem_flatMap, List.mem_filter, decide_eq_true_eq]
  refine or_congr_right ?_
  constructor
  · rintro ⟨target, htarget, hname, hdefault⟩
    exact ⟨hdefault, target, htarget, hname⟩
  · rintro ⟨hdefault, target, htarget, hname⟩
    exact ⟨target, htarget, hname, hdefault⟩

theorem mem_exportsWithin_iff {steps : Nat} {path name : String} :
    name ∈ index.exportsWithin (steps + 1) path <->
      name ∈ index.ownNames path ∨
        name ≠ defaultExport ∧ exists other, Leads index.starTargets steps path other ∧
          name ∈ index.ownNames other := by
  induction steps generalizing path with
  | zero =>
      rw [exportsWithin_one]
      simp only [Leads.zero_iff]
      constructor
      · exact Or.inl
      · rintro (hown | ⟨_, other, rfl, hown⟩)
        · exact hown
        · exact hown
  | succ steps ih =>
      rw [mem_exportsWithin_succ_iff]
      constructor
      · rintro (hown | ⟨hdefault, target, htarget, hname⟩)
        · exact Or.inl hown
        · rcases ih.mp hname with hown | ⟨_, other, h, hown⟩
          · exact Or.inr ⟨hdefault, target, .step htarget (.here steps target), hown⟩
          · exact Or.inr ⟨hdefault, other, .step htarget h, hown⟩
      · rintro (hown | ⟨hdefault, other, h, hown⟩)
        · exact Or.inl hown
        · rcases Leads.succ_iff.mp h with rfl | ⟨target, htarget, h⟩
          · exact Or.inl hown
          · exact Or.inr ⟨hdefault, target, htarget, ih.mpr (Or.inr ⟨hdefault, other, h, hown⟩)⟩

theorem exportsWithin_of_none {path : String} (h : index.modules.get? path = none) (depth : Nat) :
    index.exportsWithin depth path = [] := by
  cases depth with
  | zero =>
      rfl
  | succ depth =>
      unfold exportsWithin ownNames starTargets
      rw [h]
      rfl

theorem mem_names_iff_exportsWithin {path name : String} :
    name ∈ index.names path <-> name ∈ index.exportsWithin (index.depth - 1 + 1) path := by
  rw [Validator.mem_names_iff]
  cases hmodule : index.modules.get? path with
  | none =>
      simp [exportsWithin_of_none hmodule]
  | some m =>
      have hstart : [path].Nodup := by simp
      rw [mem_exportsWithin_iff]
      simp only [mem_reachable_iff hstart, List.mem_singleton, exists_eq_left]
      constructor
      · rintro ⟨_, hown | ⟨hdefault, other, _, h, hown⟩⟩
        · exact Or.inl hown
        · exact Or.inr ⟨hdefault, other, h, hown⟩
      · rintro (hown | ⟨hdefault, other, h, hown⟩)
        · exact ⟨⟨m, rfl⟩, Or.inl hown⟩
        · by_cases hne : other = path
          · subst hne
            exact ⟨⟨m, rfl⟩, Or.inl hown⟩
          · exact ⟨⟨m, rfl⟩, Or.inr ⟨hdefault, other, hne, h, hown⟩⟩

theorem exportsWithin_mono {wider : ExportIndex}
    (hown : forall path name, name ∈ index.ownNames path -> name ∈ wider.ownNames path)
    (htargets : forall path target, target ∈ index.starTargets path ->
      target ∈ wider.starTargets path)
    {depth deeper : Nat} (hle : depth ≤ deeper) {path name : String}
    (h : name ∈ index.exportsWithin depth path) : name ∈ wider.exportsWithin deeper path := by
  induction depth generalizing deeper path with
  | zero =>
      cases h
  | succ depth ih =>
      obtain ⟨shallower, rfl⟩ : exists shallower, deeper = shallower + 1 :=
        Nat.exists_eq_succ_of_ne_zero (by omega)
      refine mem_exportsWithin_succ_iff.mpr ?_
      rcases mem_exportsWithin_succ_iff.mp h with hname | ⟨hdefault, target, htarget, hname⟩
      · exact Or.inl (hown path name hname)
      · exact Or.inr ⟨hdefault, target, htargets path target htarget,
          ih (Nat.le_of_succ_le_succ hle) hname⟩

theorem names_mono {wider : ExportIndex}
    (hown : forall path name, name ∈ index.ownNames path -> name ∈ wider.ownNames path)
    (htargets : forall path target, target ∈ index.starTargets path ->
      target ∈ wider.starTargets path)
    (hle : index.depth ≤ wider.depth) {path name : String} (h : name ∈ index.names path) :
    name ∈ wider.names path := by
  rw [mem_names_iff_exportsWithin] at h ⊢
  exact exportsWithin_mono hown htargets (by omega) h

/-!
# Remembered answers
-/

/-- What is remembered is what would be worked out anew. -/
structure Remembers (index : ExportIndex) (memory : ExportMemory) : Prop where
  links : forall links, memory.links = some links -> links = index.starLinks
  known : forall path names, memory.known.get? path = some names -> names = index.names path

variable {memory : ExportMemory}

theorem remembers_nothing (index : ExportIndex) : index.Remembers {} := by
  constructor
  · intro links h
    cases h
  · intro path names h
    cases h

theorem Remembers.insert (h : index.Remembers memory) {links : Option (Table (List String))}
    (hlinks : forall l, links = some l -> l = index.starLinks) (path : String) :
    index.Remembers { links := links, known := memory.known.insert path (index.names path) } := by
  refine ⟨hlinks, ?_⟩
  intro other names hknown
  by_cases heq : path = other
  · subst heq
    simpa using hknown.symm
  · exact h.known other names (by simpa [heq] using hknown)

theorem get?_starLinks (index : ExportIndex) (path : String) :
    (index.starLinks.get? path).getD [] = index.starTargets path := by
  unfold starTargets starLinks
  cases h : index.modules.get? path with
  | none =>
      simp [h]
  | some m =>
      simp [h]

theorem namesAlong_starLinks {path : String} {m : SourceModule}
    (h : index.modules.get? path = some m) :
    index.namesAlong index.starLinks path m = index.names path := by
  unfold namesAlong names
  rw [h]
  simp only [get?_starLinks]

theorem names_of_depth_le_one (hdepth : index.depth ≤ 1) {path : String} {m : SourceModule}
    (h : index.modules.get? path = some m) : index.names path = m.exports.names := by
  unfold names
  rw [h, Nat.sub_eq_zero_of_le hdepth]
  simp [reachable]

theorem names_of_no_stars {path : String} {m : SourceModule}
    (hmodule : index.modules.get? path = some m) (hstars : m.exports.starSources = []) :
    index.names path = m.exports.names := by
  have htargets : index.starTargets path = [] := by
    unfold starTargets
    rw [hmodule]
    dsimp only
    rw [hstars]
    rfl
  have hreachable : forall steps, reachable index.starTargets steps [path] = [path] := by
    intro steps
    cases steps with
    | zero =>
        rfl
    | succ steps =>
        have hwider : ([path] ++ [path].flatMap index.starTargets).eraseDups = [path] := by
          rw [List.flatMap_singleton, htargets]
          rfl
        simp only [reachable, hwider, if_true]
  unfold names
  rw [hmodule]
  simp [hreachable]

theorem ask_eq (h : index.Remembers memory) (path : String) :
    (index.ask memory path).1 = index.names path ∧ index.Remembers (index.ask memory path).2 := by
  unfold ask
  cases hknown : memory.known.get? path with
  | some names =>
      exact ⟨h.known path names hknown, h⟩
  | none =>
      cases hmodule : index.modules.get? path with
      | none =>
          have hnames : index.names path = [] := by
            unfold names
            rw [hmodule]
          have hinsert := h.insert h.links path
          rw [hnames] at hinsert
          exact ⟨hnames.symm, hinsert⟩
      | some m =>
          dsimp only
          split
          · next hdepth =>
              rw [<- names_of_depth_le_one hdepth hmodule]
              exact ⟨rfl, h.insert h.links path⟩
          · have hlinks : memory.links.getD index.starLinks = index.starLinks := by
              cases hmemory : memory.links with
              | none =>
                  rfl
              | some links =>
                  exact h.links links hmemory
            rw [hlinks, namesAlong_starLinks hmodule]
            refine ⟨rfl, h.insert ?_ path⟩
            intro l hl
            cases hl
            rfl

theorem askAll_eq (h : index.Remembers memory) (asked : List String) :
    (index.askAll memory asked).1 = asked.map index.names ∧
      index.Remembers (index.askAll memory asked).2 := by
  induction asked generalizing memory with
  | nil =>
      exact ⟨rfl, h⟩
  | cons path rest ih =>
      obtain ⟨hanswer, hnext⟩ := ask_eq h path
      obtain ⟨hanswers, hlast⟩ := ih hnext
      refine ⟨?_, hlast⟩
      show (index.ask memory path).1 :: (index.askAll (index.ask memory path).2 rest).1 = _
      rw [hanswer, hanswers, List.map_cons]

/--
Whatever was asked before, a file exports what the recursion says, however its star re-exports run;
a greater depth takes no name away.
-/
theorem ask_iff_exportsWithin (index : ExportIndex) (hdepth : 1 ≤ index.depth)
    (before : List String) (path name : String) :
    (name ∈ (index.ask (index.askAll {} before).2 path).1 <->
        name ∈ index.exportsWithin index.depth path) ∧
      (index.ask (index.askAll {} before).2 path).1 = index.names path ∧
      forall deeper, index.depth ≤ deeper -> name ∈ index.names path ->
        name ∈ ({ index with depth := deeper } : ExportIndex).names path := by
  have hanswer := (ask_eq (askAll_eq (remembers_nothing index) before).2 path).1
  refine ⟨?_, hanswer, ?_⟩
  · rw [hanswer, mem_names_iff_exportsWithin, Nat.sub_add_cancel hdepth]
  · intro deeper hle
    have hown : forall p n, n ∈ index.ownNames p ->
        n ∈ ({ index with depth := deeper } : ExportIndex).ownNames p := fun _ _ h => h
    have htargets : forall p target, target ∈ index.starTargets p ->
        target ∈ ({ index with depth := deeper } : ExportIndex).starTargets p := fun _ _ h => h
    exact names_mono hown htargets hle

/-- Two modules that pass each other on, one of them also itself, and a file that is no module. -/
theorem ask_iff_exportsWithin_cycle :
    let v : Validator := { resolver := Resolver.make none [], depth := 4 }
    let index := v.exportIndex
      { entries :=
          [("a.ts", "export * from './b'\nexport const a = 1\n"),
            ("b.ts", "export * from './a'\nexport * from './b'\nexport * from './notes.md'\n" ++
              "export const b = 1\nexport default b\n"),
            ("notes.md", "export const c = 1\n")] }
    1 ≤ index.depth ∧ index.names "a.ts" = ["a", "b"] ∧ index.names "notes.md" = [] ∧
      ("b" ∈ (index.ask (index.askAll {} ["b.ts", "notes.md", "a.ts"]).2 "a.ts").1 <->
        "b" ∈ index.exportsWithin index.depth "a.ts") ∧
      (index.ask (index.askAll {} ["b.ts", "notes.md", "a.ts"]).2 "a.ts").1 = index.names "a.ts" ∧
      forall deeper, index.depth ≤ deeper -> "b" ∈ index.names "a.ts" ->
        "b" ∈ ({ index with depth := deeper } : ExportIndex).names "a.ts" := by
  intro v index
  refine ⟨by decide, by decide +kernel, by decide +kernel, ?_⟩
  exact ask_iff_exportsWithin index (by decide) ["b.ts", "notes.md", "a.ts"] "a.ts" "b"

end ExportIndex
end Joinery
