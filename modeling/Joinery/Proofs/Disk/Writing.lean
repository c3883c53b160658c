import Joinery.Disk.Project
import Joinery.Proofs.Disk.Reading
import Joinery.Proofs.Path.Normal

/-!
# Where the files of a project are written

## Nothing outside of the directory

All keys are looked at before the first file is written.  A key that leads out of the
directory, or that no file can have, is an error that leaves the disk as it was.  Otherwise
files come only to the places of the keys, all of them in the directory, and besides them at
most directories are made.  So it is also where the disk keeps a file from being written
after others were, or after directories were made for it.
-/

namespace Joinery

namespace Location

open Text

variable {start names : List String} {name path : String}

theorem mem_follow (h : name ∈ follow start names) :
    name ∈ start ∨ name ∈ names ∧ name ≠ ".." := by
  induction names generalizing start with
  | nil =>
      exact Or.inl h
  | cons first rest ih =>
      rcases ih h with hplace | ⟨hrest, hne⟩
      · dsimp only at hplace
        split at hplace
        · exact Or.inl ((List.dropLast_subset _) hplace)
        · next hup =>
            rcases List.mem_append.mp hplace with hstart | hfirst
            · exact Or.inl hstart
            · obtain rfl := List.mem_singleton.mp hfirst
              exact Or.inr ⟨List.mem_cons_self .., hup⟩
      · exact Or.inr ⟨List.mem_cons_of_mem _ hrest, hne⟩

theorem exists_mem_namesOf_iff {c : Char} (hslash : c ≠ '/') (hdot : c ≠ '.') :
    (exists name, name ∈ namesOf path ∧ c ∈ name.toList) <-> c ∈ path.toList := by
  have hjoined : ['/'].intercalate (List.splitOn '/' path.toList) = path.toList :=
    List.intercalate_splitOn '/'
  rw [<- hjoined, mem_intercalate_iff hslash]
  unfold namesOf
  constructor
  · rintro ⟨name, hname, hc⟩
    obtain ⟨piece, hpiece, rfl⟩ := List.mem_map.mp (List.mem_filter.mp hname).1
    rw [String.toList_ofList] at hc
    exact ⟨piece, hpiece, hc⟩
  · rintro ⟨piece, hpiece, hc⟩
    refine ⟨String.ofList piece, List.mem_filter.mpr ⟨List.mem_map_of_mem hpiece, ?_⟩, ?_⟩
    · rw [Bool.and_eq_true, decide_eq_true_eq, decide_eq_true_eq]
      constructor
      · intro hempty
        rw [<- String.toList_ofList (l := piece), hempty] at hc
        cases hc
      · intro hsingle
        rw [<- String.toList_ofList (l := piece), hsingle] at hc
        exact hdot (List.mem_singleton.mp hc)
    · rwa [String.toList_ofList]

theorem holdsNull_iff {l : Location} :
    l.holdsNull = true <-> exists name, name ∈ l.names ∧ '\x00' ∈ name.toList := by
  simp [holdsNull]

theorem holdsNull_ofText_iff : (ofText path).holdsNull = true <-> '\x00' ∈ path.toList :=
  holdsNull_iff.trans (exists_mem_namesOf_iff (by decide) (by decide))

end Location

namespace Disk

/-- Names from the root on as they are when nothing is left to be resolved in them. -/
structure ArePlain (names : List String) : Prop where
  up : ".." ∉ names
  null : forall name, name ∈ names -> '\x00' ∉ name.toList

/-- Nothing keeps a file from being written below a directory under this key. -/
structure IsAllowed (base : List String) (path : String) : Prop where
  null : '\x00' ∉ path.toList
  within : base <+: targetOf base path

instance (base : List String) (path : String) : Decidable (IsAllowed base path) :=
  decidable_of_iff ('\x00' ∉ path.toList ∧ base <+: targetOf base path)
    ⟨fun h => ⟨h.1, h.2⟩, fun h => ⟨h.null, h.within⟩⟩

/-- What is new on a disk are some of these files, and directories where nothing was. -/
def Gains (d : Disk) (files : List (List String × String)) (d' : Disk) : Prop :=
  forall names, d'.item? names = d.item? names ∨
    (d.item? names = none ∧ d'.item? names = some .directory) ∨
    exists content, (names, content) ∈ files ∧ d'.item? names = some (.file (Utf8.encode content))

variable {d d' : Disk} {base names target : List String} {content path : String}
  {files more : List (List String × String)}

theorem Gains.refl (d : Disk) (files : List (List String × String)) : d.Gains files d :=
  fun _ => Or.inl rfl

theorem Gains.trans {d'' : Disk} (h : d.Gains files d') (hmore : d'.Gains more d'') :
    d.Gains (files ++ more) d'' := by
  intro names
  rcases hmore names with hsame | ⟨hnone, hdirectory⟩ | ⟨content, hmem, hfile⟩
  · rw [hsame]
    rcases h names with hsame | hdirectory | ⟨content, hmem, hfile⟩
    · exact Or.inl hsame
    · exact Or.inr (Or.inl hdirectory)
    · exact Or.inr (Or.inr ⟨content, List.mem_append_left _ hmem, hfile⟩)
  · -- where nothing was after the first change, nothing was before
    rcases h names with hsame | ⟨-, hother⟩ | ⟨content, -, hother⟩
    · exact Or.inr (Or.inl ⟨hsame.symm.trans hnone, hdirectory⟩)
    · rw [hnone] at hother
      cases hother
    · rw [hnone] at hother
      cases hother
  · exact Or.inr (Or.inr ⟨content, List.mem_append_right _ hmem, hfile⟩)

/-!
# Plain names lead to themselves
-/

theorem ArePlain.dropLast (h : ArePlain names) : ArePlain names.dropLast where
  up := fun hmem => h.up ((List.dropLast_subset _) hmem)
  null := fun name hmem => h.null name ((List.dropLast_subset _) hmem)

theorem ArePlain.follow {start : List String} (h : ArePlain start)
    (hnames : forall name, name ∈ names -> '\x00' ∉ name.toList) :
    ArePlain (Location.follow start names) where
  up := by
    intro hmem
    rcases Location.mem_follow hmem with hstart | ⟨-, hne⟩
    · exact h.up hstart
    · exact hne rfl
  null := by
    intro name hmem
    rcases Location.mem_follow hmem with hstart | ⟨hname, -⟩
    · exact h.null name hstart
    · exact hnames name hname

theorem arePlain_absolute (h : ArePlain d.workingDirectory) {l : Location}
    (hnull : l.holdsNull = false) : ArePlain (l.absolute d.workingDirectory) := by
  have hnames : forall name, name ∈ l.names -> '\x00' ∉ name.toList := by
    intro name hname hmem
    rw [Location.holdsNull_iff.mpr ⟨name, hname, hmem⟩] at hnull
    cases hnull
  unfold Location.absolute
  split
  · exact ArePlain.follow ⟨List.not_mem_nil, by simp⟩ hnames
  · exact h.follow hnames

/-- A key never starts at the root, so its place is found from the base directory on. -/
theorem targetOf_eq (base : List String) (path : String) :
    targetOf base path = Location.follow base (Location.namesOf (Path.canonical path)) := by
  have hslashes := Path.leadingSlashes_of_head (Path.isKey_canonical path).noSlash
  simp only [targetOf, Location.ofText, Location.isRooted, hslashes, Nat.lt_irrefl, decide_false,
    Bool.false_eq_true, if_false]

theorem IsAllowed.arePlain (h : IsAllowed base path) (hbase : ArePlain base) :
    ArePlain (targetOf base path) := by
  rw [targetOf_eq]
  refine hbase.follow ?_
  intro name hname hmem
  refine h.null (Path.mem_of_mem_canonical (by decide) ?_)
  exact (Location.exists_mem_namesOf_iff (by decide) (by decide)).mp ⟨name, hname, hmem⟩

theorem walk_eq_append {start rest reached : List String} (hup : ".." ∉ rest)
    (h : d.walk start rest = .ok reached) : reached = start ++ rest := by
  induction rest generalizing start with
  | nil =>
      cases h
      exact (List.append_nil _).symm
  | cons name rest ih =>
      obtain ⟨hname, hrest⟩ := not_or.mp (mt List.mem_cons.mpr hup)
      rw [walk] at h
      split at h
      · cases h
      · cases h
      · split at h
        · cases h
        · rw [if_neg fun heq => hname heq.symm] at h
          rw [ih hrest h, List.append_assoc, List.singleton_append]

theorem walk_ne_null (start rest : List String) : d.walk start rest ≠ .error .nullCharacter := by
  intro h
  induction rest generalizing start with
  | nil =>
      cases h
  | cons name rest ih =>
      rw [walk] at h
      split at h
      · cases h
      · cases h
      · split at h
        · cases h
        · exact ih _ h

theorem ArePlain.reach_eq (h : ArePlain names) {reached : List String}
    (hreach : d.reach (.rooted names) = .ok reached) : reached = names := by
  unfold reach at hreach
  split at hreach
  · cases hreach
  · split at hreach
    · cases hreach
    · exact walk_eq_append h.up hreach

theorem ArePlain.reach_ne_null (h : ArePlain names) :
    d.reach (.rooted names) ≠ .error .nullCharacter := by
  intro hreach
  unfold reach at hreach
  split at hreach
  · next hnull =>
      obtain ⟨name, hname, hmem⟩ := Location.holdsNull_iff.mp hnull
      exact h.null name hname hmem
  · split at hreach
    · cases hreach
    · exact walk_ne_null _ _ hreach

/-!
# Making directories
-/

theorem ArePlain.makeDirectory_cases (h : ArePlain names) :
    (d.item? names = none ∧
      d.makeDirectory (.rooted names) = .ok (d.put names .directory)) ∨
    exists fault, fault ≠ .nullCharacter ∧ d.makeDirectory (.rooted names) = .error fault := by
  unfold makeDirectory
  cases hreach : d.reach (.rooted names) with
  | error fault =>
      refine Or.inr ⟨fault, ?_, rfl⟩
      rintro rfl
      exact h.reach_ne_null hreach
  | ok reached =>
      obtain rfl := h.reach_eq hreach
      dsimp only
      split
      · exact Or.inr ⟨.alreadyThere, by decide, rfl⟩
      · next hnone =>
          exact Or.inl ⟨hnone, rfl⟩

theorem gains_put_directory (hnone : d.item? names = none) :
    d.Gains [] (d.put names .directory) := by
  intro other
  by_cases heq : names = other
  · subst heq
    have hne : names ≠ [] := by
      rintro rfl
      cases hnone
    exact Or.inr (Or.inl ⟨hnone, by simp [hne]⟩)
  · exact Or.inl (by simp [heq])

/-- What changes on a disk are some of these files and new directories, and what keeps more from
coming there is no fault of a name. -/
structure Advances (d : Disk) (files : List (List String × String)) (c : Changed DiskError Unit) :
    Prop where
  gains : d.Gains files c.disk
  fault : forall e, c.outcome = .error e -> e.fault ≠ .nullCharacter

theorem Advances.andThen {c : Changed DiskError Unit}
    {next : Disk -> Unit -> Changed DiskError Unit} (h : d.Advances files c)
    (hnext : c.outcome = .ok () -> c.disk.Advances more (next c.disk ())) :
    d.Advances (files ++ more) (c.andThen next) := by
  unfold Changed.andThen
  cases houtcome : c.outcome with
  | ok done =>
      exact ⟨h.gains.trans (hnext houtcome).gains, (hnext houtcome).fault⟩
  | error e =>
      refine ⟨h.gains.trans (Gains.refl _ more), ?_⟩
      rintro _ ⟨⟩
      exact h.fault e houtcome

theorem ArePlain.advances_ensureLast (h : ArePlain names) (d : Disk) :
    d.Advances [] (d.ensureLast (.rooted names)) := by
  unfold ensureLast
  rcases h.makeDirectory_cases (d := d) with ⟨hnone, hmade⟩ | ⟨fault, hfault, hmade⟩
  · rw [hmade]
    exact ⟨gains_put_directory hnone, fun _ he => by cases he⟩
  · rw [hmade]
    refine ⟨Gains.refl d [], ?_⟩
    intro e he
    dsimp only at he
    split at he
    · cases he
    · cases he
      exact hfault

theorem ArePlain.advances_ensureWithin (h : ArePlain names) (d : Disk) (depth : Nat) :
    d.Advances [] (d.ensureWithin (.rooted names) depth) := by
  induction depth generalizing names with
  | zero =>
      refine ⟨Gains.refl d [], ?_⟩
      rintro _ ⟨⟩
      exact fun heq => by cases heq
  | succ depth ih =>
      rw [ensureWithin]
      split
      · exact Advances.andThen (ih h.dropLast) fun _ => h.advances_ensureLast _
      · exact h.advances_ensureLast d

/-!
# Writing files
-/

theorem ArePlain.write_fault (h : ArePlain names) {content : ByteArray} {e : DiskError}
    (hwrite : d.write (.rooted names) content = .error e) : e.fault ≠ .nullCharacter := by
  unfold write at hwrite
  split at hwrite
  · next fault hreach =>
      cases hwrite
      rintro heq
      obtain rfl : fault = .nullCharacter := heq
      exact h.reach_ne_null hreach
  · split at hwrite
    · cases hwrite
      exact fun heq => by cases heq
    · cases hwrite

theorem gains_put_file {names : List String} (hne : names ≠ []) (content : String) :
    d.Gains [(names, content)] (d.put names (.file (Utf8.encode content))) := by
  intro other
  by_cases heq : names = other
  · subst heq
    exact Or.inr (Or.inr ⟨content, List.mem_singleton.mpr rfl, by simp [hne]⟩)
  · exact Or.inl (by simp [heq])

theorem ArePlain.advances_write (h : ArePlain target) (d : Disk) (content : String) :
    d.Advances [(target, content)]
      (d.after (d.write (.rooted target) (Utf8.encode content))) := by
  cases hwrite : d.write (.rooted target) (Utf8.encode content) with
  | error e =>
      refine ⟨Gains.refl d _, ?_⟩
      rintro _ ⟨⟩
      exact h.write_fault hwrite
  | ok written =>
      obtain ⟨reached, hreach, hitem, rfl⟩ := exists_of_write hwrite
      obtain rfl := h.reach_eq hreach
      have hne : reached ≠ [] := by
        rintro rfl
        exact hitem rfl
      exact ⟨gains_put_file hne content, fun _ he => by cases he⟩

theorem ArePlain.item?_of_write (h : ArePlain target) {written : Disk} {content : ByteArray}
    (hwrite : d.write (.rooted target) content = .ok written) :
    written.item? target = some (.file content) := by
  obtain ⟨reached, hreach, hitem, rfl⟩ := exists_of_write hwrite
  obtain rfl := h.reach_eq hreach
  refine item?_put_self d ?_ _
  rintro rfl
  exact hitem rfl

/-- One file is written to its place, or a fault that is none of a name keeps it from there. -/
theorem ArePlain.advances_writeTarget (h : ArePlain target) (d : Disk) (content : String) :
    d.Advances [(target, content)] (d.writeTarget target content) := by
  rw [writeTarget, writeWithin, ensureDirectory]
  exact (h.dropLast.advances_ensureWithin d _).andThen fun _ => h.advances_write _ content

theorem ArePlain.item?_writeTarget (h : ArePlain target)
    (hdone : (d.writeTarget target content).outcome = .ok ()) :
    (d.writeTarget target content).disk.item? target = some (.file (Utf8.encode content)) := by
  unfold writeTarget writeWithin Changed.andThen at hdone ⊢
  generalize d.ensureDirectory (Location.rooted target).parent = made at hdone ⊢
  obtain ⟨made, outcome⟩ := made
  cases outcome with
  | error e =>
      cases hdone
  | ok done =>
      dsimp only at hdone ⊢
      cases hwrite : made.write (.rooted target) (Utf8.encode content) with
      | error e =>
          rw [hwrite] at hdone
          cases hdone
      | ok written =>
          exact h.item?_of_write hwrite

/-- Each place holds the content of the last of the files that go there. -/
def HoldsLast (files : List (List String × String)) (d : Disk) : Prop :=
  forall before names content after, files = before ++ (names, content) :: after ->
    names ∉ after.map (·.1) -> d.item? names = some (.file (Utf8.encode content))

/-- How writing files ends: a fault that is none of a name, or all files in their places. -/
def Completes (files : List (List String × String)) (done : List (List String))
    (c : Changed Obstacle (List (List String))) : Prop :=
  (exists e, e.fault ≠ .nullCharacter ∧ c.outcome = .error (.disk e)) ∨
    (c.outcome = .ok (done.reverse ++ files.map (·.1)) ∧ HoldsLast files c.disk)

theorem Gains.item?_of_not_mem (h : d.Gains files d') (hnot : names ∉ files.map (·.1))
    {item : DiskItem} (hitem : d.item? names = some item) : d'.item? names = some item := by
  rcases h names with hsame | ⟨hnone, -⟩ | ⟨content, hmem, -⟩
  · rw [hsame, hitem]
  · rw [hnone] at hitem
    cases hitem
  · exact absurd (List.mem_map.mpr ⟨_, hmem, rfl⟩) hnot

theorem writeTargets_spec (hfiles : forall file, file ∈ files -> ArePlain file.1) (d : Disk)
    (done : List (List String)) :
    d.Gains files (writeTargets d done files).disk ∧
      Completes files done (writeTargets d done files) := by
  induction files generalizing d done with
  | nil =>
      refine ⟨Gains.refl d [], Or.inr ⟨by rw [writeTargets, List.map_nil, List.append_nil], ?_⟩⟩
      intro before names content after hsplit
      exact absurd hsplit (by simp)
  | cons file rest ih =>
      obtain ⟨target, content⟩ := file
      obtain ⟨hplain, hrest⟩ := List.forall_mem_cons.mp hfiles
      have hstep := hplain.advances_writeTarget d content
      rw [writeTargets, Changed.andThen, Changed.mapError]
      dsimp only
      cases hends : (d.writeTarget target content).outcome with
      | error e =>
          exact ⟨hstep.gains.trans (Gains.refl _ rest), Or.inl ⟨e, hstep.fault e hends, rfl⟩⟩
      | ok written =>
          obtain ⟨hmore, hends'⟩ := ih hrest (d.writeTarget target content).disk (target :: done)
          refine ⟨hstep.gains.trans hmore, ?_⟩
          rcases hends' with hfault | ⟨houtcome, hholds⟩
          · exact Or.inl hfault
          · refine Or.inr ⟨?_, ?_⟩
            · refine houtcome.trans ?_
              rw [List.reverse_cons, List.append_assoc, List.singleton_append, List.map_cons]
            · intro before names last after hsplit hnot
              cases before with
              | nil =>
                  cases hsplit
                  exact hmore.item?_of_not_mem hnot (hplain.item?_writeTarget hends)
              | cons first before =>
                  exact hholds before names last after (List.cons.inj hsplit).2 hnot

/-!
# Looking at all keys first
-/

def refusal (directory : Location) (path : String) : Obstacle :=
  if '\x00' ∈ path.toList then nullFault (.ofText path) else .outside directory.text path

theorem targets_of_allowed {entries : List (String × String)} (directory : Location)
    (h : forall entry, entry ∈ entries -> IsAllowed base entry.1) :
    targets directory base entries =
      .ok (entries.map fun entry => (targetOf base entry.1, entry.2)) := by
  induction entries with
  | nil =>
      rfl
  | cons entry rest ih =>
      obtain ⟨hentry, hrest⟩ := List.forall_mem_cons.mp h
      have hnull : ¬(Location.ofText entry.1).holdsNull = true :=
        mt Location.holdsNull_ofText_iff.mp hentry.null
      rw [targets, if_neg hnull, if_pos (List.isPrefixOf_iff_prefix.mpr hentry.within), ih hrest]
      rfl

theorem targets_of_refused {before after : List (String × String)} (directory : Location)
    (hbefore : forall entry, entry ∈ before -> IsAllowed base entry.1)
    (hnot : ¬ IsAllowed base path) :
    targets directory base (before ++ (path, content) :: after) =
      .error (refusal directory path) := by
  induction before with
  | nil =>
      rw [List.nil_append, targets, refusal]
      by_cases hnull : '\x00' ∈ path.toList
      · rw [if_pos (Location.holdsNull_ofText_iff.mpr hnull), if_pos hnull]
      · have hout : ¬ base.isPrefixOf (targetOf base path) = true :=
          fun h => hnot ⟨hnull, List.isPrefixOf_iff_prefix.mp h⟩
        rw [if_neg (mt Location.holdsNull_ofText_iff.mp hnull), if_neg hout, if_neg hnull]
  | cons entry rest ih =>
      obtain ⟨hentry, hrest⟩ := List.forall_mem_cons.mp hbefore
      have hnull : ¬(Location.ofText entry.1).holdsNull = true :=
        mt Location.holdsNull_ofText_iff.mp hentry.null
      rw [List.cons_append, targets, if_neg hnull,
        if_pos (List.isPrefixOf_iff_prefix.mpr hentry.within), ih hrest]
      rfl

def placed (base : List String) (entries : List (String × String)) : List (List String × String) :=
  entries.map fun entry => (targetOf base entry.1, entry.2)

/-- Files are written to their places in a directory, all of them or up to some fault. -/
structure WritesWithin (d : Disk) (base : List String) (files : List (List String × String))
    (c : Changed Obstacle (List (List String))) : Prop where
  inside : forall file, file ∈ files -> base <+: file.1
  gains : d.Gains files c.disk
  ends : Completes files [] c

/--
The keys are looked at in their order.  The first one that leads out of the directory is
reported and the disk stays as it is; so it does for a null character in the directory or in
a key before.  If there are none, all files that come to the disk or change are in the
directory, at the places of the keys, and what each place holds in the end is its last content.
-/
theorem writeProject_contained {d : Disk} (hd : ArePlain d.workingDirectory)
    (directory : Location) (files : Table String) :
    let base := directory.absolute d.workingDirectory
    (directory.holdsNull = true ->
      d.writeProject directory files = ⟨d, .error (nullFault directory)⟩) ∧
    (directory.holdsNull = false ->
      (forall before path content after, files.entries = before ++ (path, content) :: after ->
        (forall entry, entry ∈ before -> IsAllowed base entry.1) ->
          ('\x00' ∉ path.toList -> ¬ base <+: targetOf base path ->
            d.writeProject directory files = ⟨d, .error (.outside directory.text path)⟩) ∧
          ('\x00' ∈ path.toList ->
            d.writeProject directory files = ⟨d, .error (nullFault (.ofText path))⟩)) ∧
      ((forall entry, entry ∈ files.entries -> IsAllowed base entry.1) ->
        d.WritesWithin base (placed base files.entries) (d.writeProject directory files))) := by
  have hplain : directory.holdsNull = false -> ArePlain (directory.absolute d.workingDirectory) :=
    arePlain_absolute hd
  unfold writeProject
  dsimp only
  generalize directory.absolute d.workingDirectory = base at hplain ⊢
  refine ⟨fun hnull => if_pos hnull, ?_⟩
  intro hnull
  rw [if_neg (by rw [hnull]; exact Bool.false_ne_true)]
  constructor
  · intro before path content after hentries hbefore
    rw [hentries]
    constructor
    · intro hpath hout
      rw [targets_of_refused directory hbefore fun h => hout h.within, refusal, if_neg hpath]
    · intro hpath
      rw [targets_of_refused directory hbefore fun h => h.null hpath, refusal, if_pos hpath]
  · intro hallowed
    rw [targets_of_allowed directory hallowed]
    have hfiles : forall file, file ∈ placed base files.entries ->
        ArePlain file.1 ∧ base <+: file.1 := by
      intro file hfile
      obtain ⟨entry, hentry, rfl⟩ := List.mem_map.mp hfile
      dsimp only
      exact ⟨(hallowed entry hentry).arePlain (hplain hnull), (hallowed entry hentry).within⟩
    obtain ⟨hgains, hends⟩ := writeTargets_spec (fun file hfile => (hfiles file hfile).1) d []
    exact ⟨fun file hfile => (hfiles file hfile).2, hgains, hends⟩

/-- Two keys of one place, and two keys that lead out of the directory behind one that does not. -/
theorem writeProject_contained_twice :
    let d := Disk.blank ["home"]
    let directory := Location.ofText "./x/../out"
    let place := ["home", "out", "src", "a.ts"]
    let twice : Table String :=
      { entries := [("/src//a.ts", "old"), ("b\\..\\..\\out/src/a.ts", "new")] }
    let escaping : Table String := { entries := [("a.ts", ""), ("b/../../c", ""), ("../d", "")] }
    ArePlain d.workingDirectory ∧
      (d.writeProject directory twice).outcome = .ok [place, place] ∧
      (d.writeProject directory twice).disk.item? place = some (.file (Utf8.encode "new")) ∧
      d.writeProject directory escaping = ⟨d, .error (.outside "x/../out" "b/../../c")⟩ := by
  intro d directory place twice escaping
  have hd : ArePlain d.workingDirectory := ⟨by decide, by decide⟩
  have hnull : directory.holdsNull = false := by
    decide +kernel
  have hbase : directory.absolute d.workingDirectory = ["home", "out"] := by
    decide +kernel
  have htext : directory.text = "x/../out" := by
    decide +kernel
  have hplaced : placed ["home", "out"] twice.entries = [(place, "old"), (place, "new")] := by
    decide +kernel
  obtain ⟨-, htwice⟩ := writeProject_contained hd directory twice
  obtain ⟨-, hescaping⟩ := writeProject_contained hd directory escaping
  rw [hbase] at htwice hescaping
  obtain ⟨-, hwithin⟩ := htwice hnull
  obtain ⟨hrefused, -⟩ := hescaping hnull
  have hallowed : forall entry, entry ∈ twice.entries -> IsAllowed ["home", "out"] entry.1 := by
    decide +kernel
  have hends := (hwithin hallowed).ends
  rw [hplaced] at hends
  have hok : (d.writeProject directory twice).outcome.isOk = true := by
    decide +kernel
  obtain ⟨error, -, herror⟩ | ⟨houtcome, hholds⟩ := hends
  · rw [herror] at hok
    cases hok
  · refine ⟨hd, houtcome, hholds [(place, "old")] place "new" [] rfl List.not_mem_nil, ?_⟩
    obtain ⟨hout, -⟩ :=
      hrefused [("a.ts", "")] "b/../../c" "" [("../d", "")] rfl (by decide +kernel)
    rw [htext] at hout
    exact hout (by decide) (by decide +kernel)

/-- A null character in a key is reported although another key leads out of the directory. -/
theorem null_reported_before_escape :
    let d := Disk.blank ["home"]
    let directory := Location.ofText "out"
    let base := directory.absolute d.workingDirectory
    let files : Table String := { entries := [("a\x00b", "x"), ("../c", "y")] }
    ArePlain d.workingDirectory ∧ base <+: targetOf base "a\x00b" ∧
      ¬ base <+: targetOf base "../c" ∧
      forall path, (d.writeProject directory files).outcome ≠
        .error (.outside directory.text path) := by
  intro d directory base files
  refine ⟨⟨by decide, by decide⟩, by decide +kernel, by decide +kernel, ?_⟩
  have houtcome : (d.writeProject directory files).outcome =
      .error (.disk ⟨.nullCharacter, "a\x00b"⟩) := by
    decide +kernel
  intro path heq
  rw [houtcome] at heq
  cases heq

end Disk
end Joinery
