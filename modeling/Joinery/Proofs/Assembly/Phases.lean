import Joinery.Assembly.Assemble
import Joinery.Proofs.Assembly.Passes
import Joinery.Proofs.FileSet.Stable
import Joinery.Proofs.Sorting

/-!
# Phases without collaborators

## What the phases of an assembly leave

Every file that an assembly holds before its validation comes from the request: its key
is the canonical form of a path, and its text was handed over with it.  No pass takes
place before the validation, and whatever is established there of the files is kept to
the end.
-/

namespace Joinery

open ExportFix Run

namespace AssemblyRequest

def paths (request : AssemblyRequest) : List String :=
  request.existing.map (·.1) ++ (WorkOrder.operations request.workOrders).map (·.path)

def texts (request : AssemblyRequest) : List String :=
  request.existing.map (fun entry => entry.2.getD "") ++
    (WorkOrder.operations request.workOrders).map fun op => op.content.getD ""

/-- The canonical form of every path is a fixed point. -/
def HasFixedPaths (request : AssemblyRequest) : Prop :=
  forall path, path ∈ request.paths ->
    Path.canonical (Path.canonical path) = Path.canonical path

def Allows (request : AssemblyRequest) (key text : String) : Prop :=
  key ≠ "" ∧ Path.canonical key = key ∧ text ∈ request.texts

end AssemblyRequest

theorem Keyed.of_holds {request : AssemblyRequest} {files : Table String}
    (h : Table.Holds request.Allows files) : Keyed files := by
  have hkey : forall key, key ∈ files.keys -> key ≠ "" ∧ Path.canonical key = key := by
    intro key hmem
    obtain ⟨text, htext⟩ := (Table.mem_keys_iff files key).mp hmem
    obtain ⟨hne, hcanonical, _⟩ := h key text htext
    exact ⟨hne, hcanonical⟩
  exact ⟨fun key hmem => (hkey key hmem).1, fun key hmem => (hkey key hmem).2⟩

theorem PhaseGroup.mem_of_mem_group {orders : List WorkOrder} {phases : List String}
    {group : PhaseGroup} (hgroup : group ∈ PhaseGroup.group orders phases) {order : WorkOrder}
    (horder : order ∈ group.orders) : order ∈ orders := by
  obtain ⟨label, _, rfl⟩ := List.mem_map.mp (List.mem_filter.mp hgroup).1
  exact (List.mem_filter.mp (mem_sortBy_iff.mp horder)).1

namespace Assembly

variable {ε : Type} {company : Company ε} {config : Config} {request : AssemblyRequest}

def Quiet (log : Log) : Prop :=
  Event.passCount log.events = 0

theorem Contract.of_start {α : Type} {pre : Log -> Prop} {m : Run ε α} {post : α -> Log -> Prop}
    {failed : Log -> Prop}
    (h : forall start, pre start ->
      Contract (fun log => log.events = start.events) m post failed) :
    Contract pre m post failed := by
  intro log hlog
  exact h log hlog log rfl

theorem Quiet.append {start log : Log} (h : Quiet start) {tail : List Event}
    (htail : Event.passCount tail = 0) (hlog : log.events = start.events ++ tail) : Quiet log := by
  unfold Quiet at h
  unfold Quiet
  rw [hlog, Event.passCount_append, h, htail]

theorem Contract.emitQuiet {event : Event} (h : event.isPass = false) :
    Contract Quiet (Run.emit company event) (fun _ log => Quiet log)
      (fun log => Quiet log ∧ Raised company log) := by
  have hcount : Event.passCount [event] = 0 :=
    List.countP_eq_zero.mpr fun e he => by simp [List.mem_singleton.mp he, h]
  refine Contract.of_start fun start hstart => ?_
  refine Contract.weaken (Contract.emit event) (fun _ h => h) ?_ ?_
  · intro _ log hlog
    exact hstart.append hcount hlog
  · rintro log ⟨hlog, hraised⟩
    exact ⟨hstart.append hcount hlog, hraised⟩

theorem Contract.emitAllQuiet {reported : List Event}
    (h : forall e, e ∈ reported -> e.isPass = false) :
    Contract Quiet (Run.emitAll company reported) (fun _ log => Quiet log)
      (fun log => Quiet log ∧ Raised company log) := by
  induction reported with
  | nil =>
      exact Contract.ret fun _ hlog => hlog
  | cons event rest ih =>
      refine Contract.bind (Contract.emitQuiet (h event (List.mem_cons_self ..))) fun _ => ?_
      exact ih fun e he => h e (List.mem_cons_of_mem _ he)

/-!
# Before the validation
-/

/-- Where an assembly stands before its validation. -/
structure Prepared (request : AssemblyRequest) (p : Progress) : Prop where
  files : Table.Holds request.Allows p.files.files
  dependencies : p.dependencies = []
  passes : p.passes = 0

theorem unlessLate_eq (h : request.deadline = none) (label : String) (p : Progress)
    (phase : Run ε Progress) : unlessLate company request label p phase = phase := by
  unfold unlessLate
  rw [h]
  rfl

theorem prepared_seed (hpaths : request.HasFixedPaths) {strict : Bool} {files : FileSet}
    (h : FileSet.seed strict request.existing = .ok files) :
    Prepared request { files := files } := by
  refine ⟨FileSet.holds_seed h ?_, rfl, rfl⟩
  intro entry hentry hne
  refine ⟨hne, hpaths entry.1 ?_, ?_⟩
  · exact List.mem_append_left _ (List.mem_map_of_mem hentry)
  · exact List.mem_append_left _
      (List.mem_map_of_mem (f := fun entry : String × Option String => entry.2.getD "") hentry)

theorem respects_of_mem (hpaths : request.HasFixedPaths) {order : WorkOrder}
    (horder : order ∈ request.workOrders) {strict : Bool} (hvalid : order.IsValid strict)
    {op : FileOperation} (hop : op ∈ order.files) : op.Respects request.Allows := by
  have hmem : op ∈ WorkOrder.operations request.workOrders :=
    List.mem_flatMap.mpr ⟨order, horder, hop⟩
  intro _
  refine ⟨(hvalid.2 op hop).1, hpaths op.path ?_, ?_⟩
  · exact List.mem_append_right _ (List.mem_map_of_mem hmem)
  · exact List.mem_append_right _
      (List.mem_map_of_mem (f := fun op : FileOperation => op.content.getD "") hmem)

theorem Contract.applyPhase (hsolo : Solo company config request)
    (hpaths : request.HasFixedPaths) {group : PhaseGroup}
    (hgroup : forall order, order ∈ group.orders -> order ∈ request.workOrders) {p : Progress}
    (hp : Prepared request p) :
    Contract Quiet (applyPhase company config request group p)
      (fun next log => Prepared request next ∧ Quiet log) Quiet := by
  have hemit : forall event : Event, event.isPass = false ->
      Contract Quiet (Run.emit company event) (fun _ log => Quiet log) Quiet := by
    intro event hevent
    exact Contract.weaken (Contract.emitQuiet hevent) (fun _ h => h) (fun _ _ h => h) fun _ h => h.1
  have happly : Contract Quiet (Run.applyOrders company p.files 0 group.orders)
      (fun done log => Table.Holds request.Allows done.1.files ∧ Quiet log) Quiet := by
    refine Contract.of_start fun start hstart => ?_
    refine Contract.weaken Contract.applyOrders (fun _ h => h) ?_ ?_
    · rintro done log ⟨hvalid, hfiles, _, hlog⟩
      constructor
      · rw [hfiles]
        refine FileSet.holds_applyOperations hp.files ?_
        intro op hop
        obtain ⟨order, horder, hop⟩ := List.mem_flatMap.mp hop
        exact respects_of_mem hpaths (hgroup order horder) (hvalid order horder) hop
      · exact hstart.append (passCount_of_writes (List.prefix_refl _)) hlog
    · rintro log ⟨⟨front, hfront, hlog⟩, _⟩
      exact hstart.append (passCount_of_writes hfront) hlog
  unfold Assembly.applyPhase
  rw [unlessLate_eq hsolo.deadline]
  refine Contract.bind (hemit _ rfl) fun _ => ?_
  refine Contract.bind happly ?_
  rintro ⟨files, count⟩ log ⟨hfiles, hlog⟩
  refine Contract.bind (hemit _ rfl) (fun _ => Contract.ret fun later hlater => ?_) log hlog
  exact ⟨⟨hfiles, hp.dependencies, hp.passes⟩, hlater⟩

theorem Contract.applyPhases (hsolo : Solo company config request)
    (hpaths : request.HasFixedPaths) {groups : List PhaseGroup}
    (hgroups : forall group, group ∈ groups -> forall order, order ∈ group.orders ->
      order ∈ request.workOrders) {p : Progress} (hp : Prepared request p) :
    Contract Quiet (applyPhases company config request groups p)
      (fun next log => Prepared request next ∧ Quiet log) Quiet := by
  induction groups generalizing p with
  | nil =>
      exact Contract.ret fun _ hlog => ⟨hp, hlog⟩
  | cons group rest ih =>
      refine Contract.bind
        (Contract.applyPhase hsolo hpaths (hgroups group (List.mem_cons_self ..)) hp) ?_
      rintro next log ⟨hnext, hlog⟩
      exact ih (fun g hg => hgroups g (List.mem_cons_of_mem _ hg)) hnext log hlog

/-!
# Plural duplicates and packages
-/

/-- What the removal of plural duplicates makes of the files. -/
structure Singled (config : Config) (request : AssemblyRequest) (p next : Progress) : Prop where
  prepared : Prepared request next
  plurals : (request.optionsIn config).deduplicatePlurals = true ->
    FileSet.pluralDuplicates config.resolver.extensions next.files.paths = []
  same : ((request.optionsIn config).deduplicatePlurals = true ->
      FileSet.pluralDuplicates config.resolver.extensions p.files.paths = []) ->
    next.files = p.files

theorem Contract.dropPlurals {p : Progress} (hp : Prepared request p) :
    Contract Quiet (dropPlurals company config (request.optionsIn config) p)
      (fun next log => Singled config request p next ∧ Quiet log)
      (fun log => Quiet log ∧ Raised company log) := by
  unfold Assembly.dropPlurals
  refine Contract.ite ?_ ?_
  · intro hwanted
    have hquiet : forall e, e ∈ (p.files.removePlurals config.resolver.extensions).2.map
        (fun path => Event.fileProcessed path (.applied .delete)) -> e.isPass = false := by
      intro e he
      obtain ⟨path, _, rfl⟩ := List.mem_map.mp he
      rfl
    refine Contract.bind (Contract.emitAllQuiet hquiet) fun _ => Contract.ret fun log hlog => ?_
    refine ⟨⟨⟨hp.files.eraseAll _, hp.dependencies, hp.passes⟩, ?_, ?_⟩, hlog⟩
    · intro _
      exact FileSet.pluralDuplicates_removePlurals _ _
    · intro hnone
      show (p.files.removePlurals config.resolver.extensions).1 = p.files
      rw [FileSet.removePlurals_of_nil (hnone hwanted)]
  · intro hunwanted
    refine Contract.ret fun log hlog => ⟨⟨hp, ?_, fun _ => rfl⟩, hlog⟩
    intro hwanted
    rw [hunwanted] at hwanted
    cases hwanted

def dependenciesOf (config : Config) (request : AssemblyRequest) (files : Table String) :
    List String :=
  if (request.optionsIn config).extractDependencies then
    Dependencies.packages (config.resolverFor request.aliases files)
      (scanAll (config.resolverFor request.aliases files) files)
  else []

/-- Where an assembly stands after listing the packages of its files. -/
structure Listed (config : Config) (request : AssemblyRequest) (p next : Progress) : Prop where
  files : next.files = p.files
  dependencies : next.dependencies = dependenciesOf config request p.files.files
  passes : next.passes = 0

theorem Contract.dependencyPhase (hsolo : Solo company config request) {p : Progress}
    (hp : Prepared request p) :
    Contract Quiet (dependencyPhase company config request (request.optionsIn config) p)
      (fun next log => Listed config request p next ∧ Quiet log)
      (fun log => Quiet log ∧ Raised company log) := by
  unfold Assembly.dependencyPhase
  refine Contract.ite ?_ ?_
  · intro hwanted
    rw [unlessLate_eq hsolo.deadline]
    refine Contract.bind (Contract.emitQuiet rfl) fun _ => ?_
    refine Contract.bind (Contract.emitQuiet rfl) fun _ => ?_
    refine Contract.bind (Contract.emitQuiet rfl) fun _ => Contract.ret fun log hlog => ?_
    refine ⟨⟨rfl, ?_, hp.passes⟩, hlog⟩
    unfold dependenciesOf
    rw [if_pos hwanted]
    rfl
  · intro hunwanted
    refine Contract.ret fun log hlog => ⟨⟨rfl, ?_, hp.passes⟩, hlog⟩
    unfold dependenciesOf
    rw [if_neg (by rw [hunwanted]; exact Bool.false_ne_true)]
    exact hp.dependencies

/-!
# The validation
-/

def checksAnything (config : Config) (request : AssemblyRequest) : Bool :=
  (request.optionsIn config).validateImports || (request.optionsIn config).validateExports

/-- What the log shows of the validation, if so many rounds settle the files. -/
structure Moderate (rounds : Nat) (log : Log) : Prop where
  passes : Event.passCount log.events ≤ rounds + 1
  once : (Event.repairedPaths log.events).Nodup

theorem Quiet.moderate {rounds : Nat} {log : Log} (h : Quiet log) : Moderate rounds log := by
  unfold Quiet at h
  refine ⟨by omega, ?_⟩
  rw [Event.repairedPaths_of_no_pass h]
  exact List.nodup_nil

/-- Where an assembly stands after its validation. -/
structure Validated (config : Config) (request : AssemblyRequest) (rounds : Nat)
    (p next : Progress) (log : Log) : Prop where
  moderate : Moderate rounds log
  passes : next.passes = Event.passCount log.events
  keys : next.files.files.keys = p.files.files.keys
  dependencies : next.dependencies = dependenciesOf config request next.files.files
  settled : checksAnything config request = true ->
    rounds ≤ (request.optionsIn config).maxPasses - 1 ->
    Settled (request.validator config next.files.files) next.files.files
  same : rounds = 0 -> next.files.files = p.files.files

theorem Moderate.other {rounds : Nat} {log later : Log} (h : Moderate rounds log) {event : Event}
    (hpass : event.isPass = false) (hwritten : event.written? = none)
    (hlater : later.events = log.events ++ [event]) :
    Moderate rounds later ∧
      Event.passCount later.events = Event.passCount log.events := by
  have hcount : Event.passCount later.events = Event.passCount log.events := by
    have hone : Event.passCount [event] = 0 :=
      List.countP_eq_zero.mpr fun e he => by simp [List.mem_singleton.mp he, hpass]
    rw [hlater, Event.passCount_append, hone, Nat.add_zero]
  refine ⟨⟨?_, ?_⟩, hcount⟩
  · rw [hcount]
    exact h.passes
  · rw [hlater, Event.repairedPaths_other hpass hwritten]
    exact h.once

theorem dependencies_of_ends (hsolo : Solo company config request) {p : Progress}
    {events : List Event} {left rounds : Nat} {done : Repaired} {log : Log}
    (hdependencies : p.dependencies = dependenciesOf config request p.files.files)
    (h : Repair.Ends (request.validator config p.files.files) events left rounds
      { files := p.files } done log) :
    (if (request.optionsIn config).extractDependencies && done.state.repaired then
        Dependencies.packages (config.resolverFor request.aliases done.state.files.files)
          done.report.modules
      else p.dependencies) =
      dependenciesOf config request done.state.files.files := by
  have hmodules : done.report.modules =
      scanAll (config.resolverFor request.aliases done.state.files.files)
        done.state.files.files := by
    rw [h.report, Repair.validator_eq hsolo.aliases p.files.files done.state.files.files,
      Validator.modules_eq]
    rfl
  rw [hmodules, hdependencies]
  unfold dependenciesOf
  rcases h.repaired with ⟨_, hrepaired⟩ | ⟨hrepaired, hfiles⟩
  · rw [hrepaired, Bool.and_true]
    cases (request.optionsIn config).extractDependencies <;> rfl
  · rw [hrepaired, hfiles, Bool.and_false]
    rfl

theorem moderate_of_bounded {start log : Log} {rounds : Nat} (hquiet : Quiet start)
    (h : Repair.Bounded start.events rounds log) : Moderate rounds log := by
  have hcount := h.passes
  unfold Quiet at hquiet
  exact ⟨by omega, h.once⟩

theorem Contract.repairs (hsolo : Solo company config request) {files : FileSet} {rounds : Nat}
    (hkeyed : Keyed files.files)
    (hrounds : SettlesIn (request.validator config files.files) rounds files.files) {start : Log}
    (hquiet : Quiet start) :
    Contract (fun log => log.events = start.events)
      (Repair.passes company config request ((request.optionsIn config).maxPasses - 1)
        { files := files })
      (Repair.Ends (request.validator config files.files) start.events
        ((request.optionsIn config).maxPasses - 1) rounds { files := files })
      (fun log => Moderate rounds log ∧ Raised company log) := by
  have hnone : Event.repairedPaths start.events = [] := Event.repairedPaths_of_no_pass hquiet
  have honce : (Event.repairedPaths start.events).Nodup := by
    rw [hnone]
    exact List.nodup_nil
  have hfinished : forall path, path ∈ Event.repairedPaths start.events ->
      Finished files.files path := by
    rw [hnone]
    exact fun _ hpath => absurd hpath List.not_mem_nil
  have hvalidator : forall other,
      request.validator config other = request.validator config files.files :=
    fun other => Repair.validator_eq hsolo.aliases other files.files
  refine Contract.weaken
    (Repair.Contract.passes hsolo hvalidator hkeyed honce hfinished hrounds)
    (fun _ h => h) (fun _ _ h => h) ?_
  rintro log ⟨hlog, hraised⟩
  exact ⟨moderate_of_bounded hquiet hlog, hraised⟩

theorem Contract.emitModerate {rounds : Nat} {log : Log} (h : Moderate rounds log) {event : Event}
    (hpass : event.isPass = false) (hwritten : event.written? = none) :
    Contract (fun later => later.events = log.events) (Run.emit company event)
      (fun _ later => Moderate rounds later ∧
        Event.passCount later.events = Event.passCount log.events)
      (fun later => Moderate rounds later ∧ Raised company later) := by
  refine Contract.weaken (Contract.emit event) (fun _ h => h) ?_ ?_
  · intro _ later hlater
    exact h.other hpass hwritten hlater
  · rintro later ⟨hlater, hraised⟩
    exact ⟨(h.other hpass hwritten hlater).1, hraised⟩

theorem validated_of_ends (hsolo : Solo company config request) {p next : Progress}
    (hdependencies : p.dependencies = dependenciesOf config request p.files.files)
    {start log later : Log} {rounds : Nat} {done : Repaired} (hquiet : Quiet start)
    (h : Repair.Ends (request.validator config p.files.files) start.events
      ((request.optionsIn config).maxPasses - 1) rounds { files := p.files } done log)
    (hlater : Moderate rounds later)
    (hcount : Event.passCount later.events = Event.passCount log.events)
    (hfiles : next.files = done.state.files) (hpasses : next.passes = done.state.pass)
    (hnext : next.dependencies =
      if (request.optionsIn config).extractDependencies && done.state.repaired then
        Dependencies.packages (config.resolverFor request.aliases done.state.files.files)
          done.report.modules
      else p.dependencies) :
    Validated config request rounds p next later := by
  refine ⟨hlater, ?_, ?_, ?_, ?_, ?_⟩
  · have hcounted : done.state.pass + Event.passCount start.events =
        0 + Event.passCount log.events := h.pass
    unfold Quiet at hquiet
    rw [hpasses, hcount]
    omega
  · rw [hfiles]
    exact h.keys
  · rw [hnext, hfiles]
    exact dependencies_of_ends hsolo hdependencies h
  · intro _ hle
    rw [hfiles, Repair.validator_eq hsolo.aliases done.state.files.files p.files.files]
    exact h.settled hle
  · intro hzero
    rw [hfiles]
    rcases h.repaired with ⟨hne, _⟩ | ⟨_, hsame⟩
    · exact absurd hzero hne
    · exact congrArg FileSet.files hsame

theorem Contract.validationPhase (rounds : Nat) (hsolo : Solo company config request) {p : Progress}
    (hkeyed : Keyed p.files.files)
    (hrounds : checksAnything config request = true ->
      SettlesIn (request.validator config p.files.files) rounds p.files.files)
    (hdependencies : p.dependencies = dependenciesOf config request p.files.files)
    (hpasses : p.passes = 0) :
    Contract Quiet (validationPhase company config request (request.optionsIn config) p)
      (Validated config request rounds p)
      (fun log => Moderate rounds log ∧ Raised company log) := by
  unfold Assembly.validationPhase
  refine Contract.ite ?_ ?_
  · intro hwanted
    rw [unlessLate_eq hsolo.deadline]
    have hstart : Contract Quiet (Run.emit company (.phaseStart validationLabel))
        (fun _ log => Quiet log) (fun log => Moderate rounds log ∧ Raised company log) := by
      refine Contract.weaken (Contract.emitQuiet rfl) (fun _ h => h) (fun _ _ h => h) ?_
      rintro log ⟨hlog, hraised⟩
      exact ⟨hlog.moderate, hraised⟩
    refine Contract.bind hstart fun _ => Contract.of_start fun start hquiet => ?_
    refine Contract.bind (Contract.repairs hsolo hkeyed (hrounds hwanted) hquiet) ?_
    intro done log hdone
    have hmoderate : Moderate rounds log := moderate_of_bounded hquiet hdone.bounded
    refine Contract.bind (Contract.emitModerate hmoderate rfl rfl)
      (fun _ => Contract.ret ?_) log rfl
    rintro later ⟨hlater, hcount⟩
    exact validated_of_ends hsolo hdependencies hquiet hdone hlater hcount rfl rfl rfl
  · intro hunwanted
    refine Contract.ret fun log hlog => ?_
    refine ⟨hlog.moderate, ?_, rfl, hdependencies, ?_, fun _ => rfl⟩
    · replace hlog : Event.passCount log.events = 0 := hlog
      rw [hlog, hpasses]
    · intro hwanted
      unfold checksAnything at hwanted
      rw [hunwanted] at hwanted
      cases hwanted

end Assembly
end Joinery
