import Joinery.Proofs.Assembly.Trace
import Joinery.Proofs.Assembly.Verdict
import Mathlib.Data.List.Forall2

/-!
# The chronicle of an assembly

## One chapter for each phase

The events of an assembly that returns can be cut into chapters, one for each phase of its
result and in the same order.  Only the removal of plural duplicates is reported between
two chapters.  The account of the result counts what the events tell.
-/

namespace Joinery

namespace Event

def isApplied (action : FileAction) : Event -> Bool
  | .fileProcessed _ (.applied other) => decide (other = action)
  | _ => false

def passNumber? : Event -> Option Int
  | .validationPass pass _ _ => some pass
  | _ => none

def isRepair : Event -> Bool
  | .validationPass .. => true
  | .fileProcessed .. => true
  | .missingFileGenerated _ => true
  | _ => false

def tally (events : List Event) : Counts :=
  { created := events.countP (isApplied .create)
    modified := events.countP (isApplied .modify)
    deleted := events.countP (isApplied .delete) }

@[simp] theorem tally_append (events tail : List Event) :
    tally (events ++ tail) = (tally events).add (tally tail) := by
  simp [tally, Counts.add, List.countP_append]

theorem tally_of_none {events : List Event}
    (h : forall e, e ∈ events -> forall action, e.isApplied action = false) :
    tally events = {} := by
  have hnone : forall action, events.countP (isApplied action) = 0 := by
    intro action
    refine List.countP_eq_zero.mpr fun e he => ?_
    rw [h e he action]
    exact Bool.false_ne_true
  simp [tally, hnone]

theorem tally_processed (ops : List FileOperation) :
    tally (ops.map Run.processed) = FileSet.countOf ops := by
  have hkind : forall action,
      isApplied action ∘ Run.processed = fun op => decide (op.action = action) := by
    intro action
    rfl
  simp only [tally, List.countP_map, hkind, FileSet.countOf_eq]

theorem tally_deletions (paths : List String) :
    tally (paths.map fun path => .fileProcessed path (.applied .delete)) =
      { deleted := paths.length } := by
  have hcount : forall action, (paths.map fun path => fileProcessed path (.applied .delete)).countP
      (isApplied action) = if action = .delete then paths.length else 0 := by
    intro action
    induction paths with
    | nil =>
        exact (ite_self 0).symm
    | cons path rest ih =>
        rw [List.map_cons, List.countP_cons, ih]
        cases action <;> rfl
  simp [tally, hcount]

end Event

theorem FileSet.total_countOf (ops : List FileOperation) :
    (FileSet.countOf ops).total = ops.length := by
  induction ops with
  | nil =>
      rfl
  | cons op rest ih =>
      rw [show op :: rest = [op] ++ rest from rfl, FileSet.countOf_append, List.length_append,
        <- ih]
      cases haction : op.action <;>
        simp [FileSet.countOf, Counts.total, Counts.add, Counts.one, haction] <;> omega

/-!
# Chapters
-/

/-- One phase, with what was reported between its start and its end. -/
structure Chapter where
  phase : PhaseResult
  body : List Event

namespace Chapter

def events (c : Chapter) : List Event :=
  match c.phase.status with
  | .failed => [.error ("Deadline passed before phase " ++ c.phase.phase)]
  | status => .phaseStart c.phase.phase :: (c.body ++ [.phaseComplete c.phase.phase status])

def operations (group : PhaseGroup) (c : Chapter) : List FileOperation :=
  if c.phase.status = .failed then [] else WorkOrder.operations group.orders

def skipped (label : String) : Chapter :=
  { phase := { phase := label, status := .failed }, body := [] }

theorem tally_events {c : Chapter} (h : c.phase.status = .failed -> c.body = []) :
    Event.tally c.events = Event.tally c.body := by
  have hstart : Event.tally [.phaseStart c.phase.phase] = {} := rfl
  have hcomplete : forall status, Event.tally [.phaseComplete c.phase.phase status] = {} := by
    intro status
    rfl
  have htold : forall status, Event.tally
      (.phaseStart c.phase.phase :: (c.body ++ [.phaseComplete c.phase.phase status])) =
        Event.tally c.body := by
    intro status
    rw [<- List.singleton_append, Event.tally_append, Event.tally_append, hstart, hcomplete]
    simp [Counts.add]
  unfold events
  cases hstatus : c.phase.status with
  | success =>
      exact htold _
  | incomplete =>
      exact htold _
  | failed =>
      rw [h hstatus]
      rfl

end Chapter

/-- The chapters of an assembly: its work orders, what is removed, its packages, its validation. -/
structure Story where
  applied : List Chapter
  removed : List String
  listed : List Chapter
  validated : List Chapter
  passes : Nat

namespace Story

def chapters (s : Story) : List Chapter :=
  s.applied ++ s.listed ++ s.validated

def events (s : Story) : List Event :=
  s.applied.flatMap Chapter.events ++
    s.removed.map (fun path => .fileProcessed path (.applied .delete)) ++
    s.listed.flatMap Chapter.events ++ s.validated.flatMap Chapter.events

def operations (groups : List PhaseGroup) (s : Story) : List FileOperation :=
  (List.zipWith Chapter.operations groups s.applied).flatten

end Story

namespace Chapter

/-- The chapter of one phase of work orders holds one event for each operation, in order. -/
structure Applies (group : PhaseGroup) (c : Chapter) : Prop where
  label : c.phase.phase = group.label
  body : c.body = (c.operations group).map Run.processed
  processed : c.phase.filesProcessed = c.body.length

/-- The chapter of the packages holds their number. -/
structure Lists (c : Chapter) : Prop where
  label : c.phase.phase = Assembly.dependencyLabel
  body : c.phase.status = .failed ∧ c.body = [] ∨
    c.phase.status = .success ∧ exists count, c.body = [.dependencyExtracted count]

structure Validates (passes : Nat) (c : Chapter) : Prop where
  label : c.phase.phase = Assembly.validationLabel
  body : c.phase.status = .failed -> c.body = []
  numbers : c.body.filterMap Event.passNumber? = (List.range' 1 passes).map Int.ofNat
  kinds : forall e, e ∈ c.body -> e.isRepair = true

end Chapter

/-- The story agrees with a result and with what was wanted. -/
structure Story.Tells (config : Config) (request : AssemblyRequest) (result : AssemblyResult)
    (s : Story) : Prop where
  phases : result.phases = s.chapters.map Chapter.phase
  applied : List.Forall₂ Chapter.Applies
    (PhaseGroup.group request.workOrders (request.phases.getD config.phases)) s.applied
  removed : exists files,
    FileSet.seed (request.optionsIn config).strictContent request.existing = .ok files ∧
      s.removed =
        if (request.optionsIn config).deduplicatePlurals then
          FileSet.pluralDuplicates config.resolver.extensions
            ((s.operations
              (PhaseGroup.group request.workOrders (request.phases.getD config.phases))).foldl
              FileSet.applyOperation files.files).keys
        else []
  listed : if (request.optionsIn config).extractDependencies then
      exists c, s.listed = [c] ∧ c.Lists
    else s.listed = []
  validated : if (request.optionsIn config).validateImports ||
        (request.optionsIn config).validateExports then
      exists c, s.validated = [c] ∧ c.Validates s.passes
    else s.validated = [] ∧ s.passes = 0
  passes : result.stats.validationPasses = s.passes
  created : result.stats.filesCreated = s.events.countP (Event.isApplied .create)
  modified : result.stats.filesModified = s.events.countP (Event.isApplied .modify)
  deleted : result.stats.filesDeleted = s.events.countP (Event.isApplied .delete)

namespace Run

variable {ε α β : Type} {company : Company ε}

/-- Where a part of a run ends well, its value and the events that it reported are related so. -/
def Reports (m : Run ε α) (post : α -> List Event -> Prop) : Prop :=
  forall events, Contract (fun log => log.events = events) m
    (fun a log => exists reported, log.events = events ++ reported ∧ post a reported)
    (fun _ => True)

/-!
# What a part of a run reports
-/

theorem Reports.ret {a : α} {post : α -> List Event -> Prop} (h : post a []) :
    Reports (pure a : Run ε α) post := by
  intro events
  refine Contract.ret ?_
  rintro log rfl
  exact ⟨[], (List.append_nil _).symm, h⟩

theorem Reports.bind {m : Run ε α} {next : α -> Run ε β} {first : α -> List Event -> Prop}
    {post : β -> List Event -> Prop} (hm : Reports m first)
    (hnext : forall a reported, first a reported ->
      Reports (next a) fun b more => post b (reported ++ more)) :
    Reports (m >>= next) post := by
  intro events
  refine Contract.bind (hm events) ?_
  rintro a log ⟨reported, hlog, hfirst⟩
  have hrest := hnext a reported hfirst (events ++ reported)
  refine Contract.weaken hrest (fun _ h => h) ?_ (fun _ h => h) log hlog
  rintro b later ⟨more, hlater, hpost⟩
  exact ⟨reported ++ more, by rw [hlater, List.append_assoc], hpost⟩

theorem Reports.weaken {m : Run ε α} {post post' : α -> List Event -> Prop} (h : Reports m post)
    (himp : forall a reported, post a reported -> post' a reported) : Reports m post' := by
  intro events
  refine Contract.weaken (h events) (fun _ h => h) ?_ (fun _ h => h)
  rintro a log ⟨reported, hlog, hpost⟩
  exact ⟨reported, hlog, himp a reported hpost⟩

theorem Reports.and {m : Run ε α} {post : α -> List Event -> Prop} {property : α -> Prop}
    (h : Reports m post) (hvalue : Yields m property) :
    Reports m fun a reported => post a reported ∧ property a := by
  intro events log hlog
  have hends := h events log hlog
  have hyields := hvalue log trivial
  cases hrun : m log with
  | mk later outcome =>
      rw [hrun] at hends hyields
      cases outcome with
      | ok a =>
          obtain ⟨reported, hlater, hpost⟩ := hends
          exact ⟨reported, hlater, hpost, hyields⟩
      | error e =>
          trivial

theorem Reports.ite {b : Bool} {m n : Run ε α} {post : α -> List Event -> Prop}
    (hm : b = true -> Reports m post) (hn : b = false -> Reports n post) :
    Reports (if b then m else n) post :=
  fun events => Contract.ite (fun hb => hm hb events) fun hb => hn hb events

theorem Reports.emit (event : Event) :
    Reports (Run.emit company event) fun _ reported => reported = [event] := by
  intro events
  refine Contract.weaken (Contract.emit event) (fun _ h => h) ?_ fun _ _ => trivial
  intro _ log hlog
  exact ⟨[event], hlog, rfl⟩

theorem Reports.emitAll (all : List Event) :
    Reports (Run.emitAll company all) fun _ reported => reported = all := by
  intro events
  refine Contract.weaken (Contract.emitAll all) (fun _ h => h) ?_ fun _ _ => trivial
  intro _ log hlog
  exact ⟨all, hlog, rfl⟩

theorem Reports.nothing {m : Run ε α} (h : forall log, (m log).1.events = log.events) :
    Reports m fun _ reported => reported = [] := by
  rintro events log rfl
  have hevents := h log
  cases hrun : m log with
  | mk later outcome =>
      rw [hrun] at hevents
      cases outcome with
      | error e =>
          trivial
      | ok a =>
          exact ⟨[], by rw [List.append_nil]; exact hevents, rfl⟩

theorem Reports.deadlinePassed (deadline : Option (Nat -> Bool)) :
    Reports (Run.deadlinePassed deadline : Run ε Bool) fun _ reported => reported = [] := by
  refine Reports.nothing ?_
  intro log
  cases deadline <;> rfl

theorem answered_events (log : Log) (answer : Except ε α) :
    (answered log answer).1.events = log.events := by
  cases answer <;> rfl

theorem Reports.applyOrders (orders : List WorkOrder) (s : FileSet) (count : Nat) :
    Reports (Run.applyOrders company s count orders) fun done reported =>
      reported = writes orders ∧
        done.1.files = (WorkOrder.operations orders).foldl FileSet.applyOperation s.files ∧
        done.1.counts = s.counts.add (Event.tally reported) ∧
        done.2 = count + reported.length := by
  induction orders generalizing s count with
  | nil =>
      exact Reports.ret ⟨rfl, rfl, rfl, rfl⟩
  | cons order rest ih =>
      unfold Run.applyOrders
      cases happly : s.apply order with
      | error e =>
          exact fun _ => Contract.fail fun _ _ => trivial
      | ok applied =>
          obtain ⟨next, counts⟩ := applied
          have hvalid : order.IsValid s.strict := (FileSet.apply_files happly).1
          rw [FileSet.apply_eq hvalid] at happly
          cases happly
          refine Reports.bind (Reports.emitAll _) ?_
          rintro _ _ rfl
          refine Reports.weaken (ih _ _) ?_
          rintro done _ ⟨rfl, hfiles, hcounts, hcount⟩
          refine ⟨(writes_cons order rest).symm, ?_, ?_, ?_⟩
          · simp [hfiles, WorkOrder.operations]
          · rw [hcounts, Event.tally_append, Event.tally_processed, FileSet.add_assoc]
          · rw [hcount, List.length_append, List.length_map, FileSet.total_countOf, Nat.add_assoc]

end Run

namespace Assembly

open Run

variable {ε : Type} {company : Company ε} {config : Config} {request : AssemblyRequest}

/-!
# Phases
-/

theorem Reports.skip (label : String) (p : Progress) :
    Reports (skip company label p) fun next reported =>
      next = p.addPhase (Chapter.skipped label).phase ∧
        reported = (Chapter.skipped label).events := by
  unfold Assembly.skip
  refine Reports.bind (Reports.emit _) ?_
  rintro _ _ rfl
  exact Reports.ret ⟨rfl, rfl⟩

theorem Reports.unlessLate {label : String} {p : Progress} {phase : Run ε Progress}
    {post : Progress -> List Event -> Prop}
    (hskip : post (p.addPhase (Chapter.skipped label).phase) (Chapter.skipped label).events)
    (hphase : Reports phase post) : Reports (unlessLate company request label p phase) post := by
  unfold Assembly.unlessLate
  refine Reports.bind (Reports.deadlinePassed _) ?_
  rintro late _ rfl
  refine Reports.ite (fun _ => ?_) fun _ => hphase
  refine Reports.weaken (Reports.skip label p) ?_
  rintro _ _ ⟨rfl, rfl⟩
  exact hskip

/-- What a phase of work orders makes of the files, and how it is told. -/
structure AppliedIn (group : PhaseGroup) (p : Progress) (c : Chapter) (next : Progress) : Prop where
  tells : c.Applies group
  phases : next.phases = p.phases ++ [c.phase]
  files : next.files.files =
    (c.operations group).foldl FileSet.applyOperation p.files.files
  counts : next.files.counts = p.files.counts.add (Event.tally c.events)
  passes : next.passes = p.passes

theorem applies_skipped (group : PhaseGroup) : (Chapter.skipped group.label).Applies group :=
  ⟨rfl, rfl, rfl⟩

theorem statusOf_ne_failed (report : Report) : statusOf report ≠ .failed := by
  unfold statusOf
  split <;> exact fun h => by cases h

theorem Chapter.events_of_told {c : Chapter} (h : c.phase.status ≠ .failed) :
    c.events =
      .phaseStart c.phase.phase :: (c.body ++ [.phaseComplete c.phase.phase c.phase.status]) := by
  unfold Chapter.events
  cases hstatus : c.phase.status with
  | success =>
      rfl
  | incomplete =>
      rfl
  | failed =>
      exact absurd hstatus h

theorem Reports.applyPhase (group : PhaseGroup) (p : Progress) :
    Reports (applyPhase company config request group p) fun next reported =>
      exists c : Chapter, reported = c.events ∧ AppliedIn group p c next := by
  unfold Assembly.applyPhase
  refine Reports.unlessLate ⟨_, rfl, applies_skipped group, rfl, rfl, rfl, rfl⟩ ?_
  refine Reports.bind (Reports.emit _) ?_
  rintro _ _ rfl
  refine Reports.bind (Reports.applyOrders _ _ _) ?_
  rintro ⟨files, count⟩ _ ⟨rfl, hfiles, hcounts, hcount⟩
  refine Reports.bind (Reports.emit _) ?_
  rintro _ _ rfl
  refine Reports.ret ?_
  have htold := statusOf_ne_failed (reportOn config request files.files)
  let c : Chapter :=
    { phase :=
        { phase := group.label
          status := statusOf (reportOn config request files.files)
          filesProcessed := count
          diagnostics := (reportOn config request files.files).diagnostics }
      body := writes group.orders }
  have hoperations : c.operations group = WorkOrder.operations group.orders := if_neg htold
  refine ⟨c, ?_, ?_⟩
  · rw [Chapter.events_of_told htold]
    simp [c]
  · refine ⟨⟨rfl, ?_, ?_⟩, rfl, ?_, ?_, rfl⟩
    · rw [hoperations]
      rfl
    · have hcount : count = (writes group.orders).length := hcount.trans (Nat.zero_add _)
      exact congrArg Int.ofNat hcount
    · rw [hoperations]
      exact hfiles
    · rw [Chapter.tally_events fun h => absurd h htold]
      exact hcounts

theorem Reports.applyPhases (groups : List PhaseGroup) (p : Progress) :
    Reports (applyPhases company config request groups p) fun next reported =>
      exists cs : List Chapter, reported = cs.flatMap Chapter.events ∧
        List.Forall₂ Chapter.Applies groups cs ∧
        next.phases = p.phases ++ cs.map Chapter.phase ∧
        next.files.files = ((List.zipWith Chapter.operations groups cs).flatten).foldl
          FileSet.applyOperation p.files.files ∧
        next.files.counts = p.files.counts.add (Event.tally reported) ∧
        next.passes = p.passes := by
  induction groups generalizing p with
  | nil =>
      exact Reports.ret ⟨[], rfl, List.Forall₂.nil, (List.append_nil _).symm, rfl, rfl, rfl⟩
  | cons group rest ih =>
      unfold Assembly.applyPhases
      refine Reports.bind (Reports.applyPhase group p) ?_
      rintro next _ ⟨c, rfl, hc⟩
      refine Reports.weaken (ih next) ?_
      rintro last _ ⟨cs, rfl, hcs, hphases, hfiles, hcounts, hpasses⟩
      refine ⟨c :: cs, rfl, List.Forall₂.cons hc.tells hcs, ?_, ?_, ?_, ?_⟩
      · rw [hphases, hc.phases, List.append_assoc]
        rfl
      · rw [hfiles, hc.files]
        simp
      · rw [hcounts, hc.counts, Event.tally_append, FileSet.add_assoc]
      · rw [hpasses, hc.passes]

def removedFrom (config : Config) (request : AssemblyRequest) (files : Table String) :
    List String :=
  if (request.optionsIn config).deduplicatePlurals then
    FileSet.pluralDuplicates config.resolver.extensions files.keys
  else []

theorem Reports.dropPlurals (p : Progress) :
    Reports (dropPlurals company config (request.optionsIn config) p) fun next reported =>
      reported = (removedFrom config request p.files.files).map
          (fun path => .fileProcessed path (.applied .delete)) ∧
        next.phases = p.phases ∧
        next.files.counts = p.files.counts.add (Event.tally reported) ∧
        next.passes = p.passes := by
  unfold Assembly.dropPlurals removedFrom
  refine Reports.ite ?_ ?_
  · intro hwanted
    rw [if_pos hwanted]
    refine Reports.bind (Reports.emitAll _) ?_
    rintro _ _ rfl
    refine Reports.ret ⟨List.append_nil _, rfl, ?_, rfl⟩
    rw [List.append_nil, Event.tally_deletions]
    rfl
  · intro hunwanted
    rw [if_neg (by rw [hunwanted]; exact Bool.false_ne_true)]
    exact Reports.ret ⟨rfl, rfl, rfl, rfl⟩

theorem Reports.dependencyPhase (p : Progress) :
    Reports (dependencyPhase company config request (request.optionsIn config) p)
      fun next reported =>
        exists cs : List Chapter, reported = cs.flatMap Chapter.events ∧
          (if (request.optionsIn config).extractDependencies then exists c, cs = [c] ∧ c.Lists
            else cs = []) ∧
          next.phases = p.phases ++ cs.map Chapter.phase ∧
          next.files.counts = p.files.counts.add (Event.tally reported) ∧
          next.passes = p.passes := by
  unfold Assembly.dependencyPhase
  refine Reports.ite ?_ ?_
  · intro hwanted
    simp only [hwanted, if_true]
    refine Reports.unlessLate ?_ ?_
    · exact ⟨[Chapter.skipped dependencyLabel], rfl, ⟨_, rfl, rfl, Or.inl ⟨rfl, rfl⟩⟩, rfl, rfl,
        rfl⟩
    · refine Reports.bind (Reports.emit _) ?_
      rintro _ _ rfl
      refine Reports.bind (Reports.emit _) ?_
      rintro _ _ rfl
      refine Reports.bind (Reports.emit _) ?_
      rintro _ _ rfl
      refine Reports.ret ?_
      let c : Chapter :=
        { phase :=
            { phase := dependencyLabel
              status := .success
              filesProcessed :=
                (scanAll (config.resolverFor request.aliases p.files.files) p.files.files).size }
          body := [.dependencyExtracted
            (Dependencies.packages (config.resolverFor request.aliases p.files.files)
              (scanAll (config.resolverFor request.aliases p.files.files)
                p.files.files)).length] }
      exact ⟨[c], rfl, ⟨c, rfl, rfl, Or.inr ⟨rfl, _, rfl⟩⟩, rfl, rfl, rfl⟩
  · intro hunwanted
    simp only [hunwanted, Bool.false_eq_true, if_false]
    exact Reports.ret ⟨[], rfl, rfl, (List.append_nil _).symm, rfl, rfl⟩

end Assembly

namespace Repair

open Run

variable {ε : Type} {company : Company ε} {config : Config} {request : AssemblyRequest}

/-!
# Passes
-/

/-- What passes make of a state, and how they are told. -/
structure MendedIn (start : RepairState) (done : Repaired) (reported : List Event) : Prop where
  numbers : exists count, done.state.pass = start.pass + count ∧
    reported.filterMap Event.passNumber? = (List.range' (start.pass + 1) count).map Int.ofNat
  kinds : forall e, e ∈ reported -> e.isRepair = true
  counts : done.state.files.counts = start.files.counts.add (Event.tally reported)

theorem Reports.fixesFor (options : Options) (request : FixRequest) :
    Reports (fixesFor company options request) fun _ reported => reported = [] := by
  unfold Repair.fixesFor
  cases company.fixes with
  | none =>
      exact Reports.ret rfl
  | some given =>
      exact Reports.nothing fun log => answered_events _ _

theorem Reports.generatedFor (options : Options) (files : Table String)
    (missing : List MissingFile) :
    Reports (generatedFor company options files missing) fun _ reported => reported = [] := by
  rcases generatedFor_cases company options files missing with heq | ⟨_, _, heq⟩
  · rw [heq]
    exact Reports.ret rfl
  · rw [heq]
    exact Reports.nothing fun log => answered_events _ _

theorem Reports.repairsFor (options : Options) (report : Report) (wanted : FixRequest) :
    Reports (repairsFor company options report wanted) fun _ reported => reported = [] :=
  Reports.ite (fun _ => Reports.ret rfl) fun _ => Reports.fixesFor options wanted

theorem Reports.collect (options : Options) (pass : Nat) (files : Table String) (report : Report)
    (missing : List MissingFile) :
    Reports (collect company options pass files report missing) fun _ reported =>
      reported = [] := by
  rw [collect_eq]
  refine Reports.bind (Reports.generatedFor options files missing) ?_
  rintro generated _ rfl
  refine Reports.bind (Reports.repairsFor options report _) ?_
  rintro fixes _ rfl
  exact Reports.ret rfl

theorem Reports.applyCollected (state : RepairState) (generated fixes : List WorkOrder) :
    Reports (applyCollected company state generated fixes) fun next reported =>
      reported = writes generated ++ (generatedEvents generated ++ writes fixes) ∧
        next.pass = state.pass ∧
        next.files.counts = state.files.counts.add (Event.tally reported) := by
  have hgenerated : Event.tally (generatedEvents generated) = {} := by
    refine Event.tally_of_none fun e he action => ?_
    obtain ⟨order, _, he⟩ := List.mem_flatMap.mp he
    obtain ⟨op, _, rfl⟩ := List.mem_map.mp he
    rfl
  unfold Repair.applyCollected
  refine Reports.bind (Reports.applyOrders _ _ _) ?_
  rintro ⟨written, _⟩ _ ⟨rfl, _, hwritten, _⟩
  refine Reports.bind (Reports.emitAll _) ?_
  rintro _ _ rfl
  refine Reports.bind (Reports.applyOrders _ _ _) ?_
  rintro ⟨mended, _⟩ _ ⟨rfl, _, hmended, _⟩
  refine Reports.ret ⟨by simp, rfl, ?_⟩
  have hwritten : written.counts = state.files.counts.add (Event.tally (writes generated)) :=
    hwritten
  have hmended : mended.counts = written.counts.add (Event.tally (writes fixes)) := hmended
  show mended.counts = _
  rw [hmended, hwritten, List.append_nil, Event.tally_append, Event.tally_append, hgenerated,
    FileSet.add_assoc]
  simp [Counts.add]

theorem passNumber?_writes (orders : List WorkOrder) :
    (writes orders).filterMap Event.passNumber? = [] := by
  refine List.filterMap_eq_nil_iff.mpr fun e he => ?_
  obtain ⟨op, _, rfl⟩ := List.mem_map.mp he
  rfl

theorem isRepair_writes {orders : List WorkOrder} {e : Event} (h : e ∈ writes orders) :
    e.isRepair = true := by
  obtain ⟨op, _, rfl⟩ := List.mem_map.mp h
  rfl

theorem passNumber?_generated (orders : List WorkOrder) :
    (generatedEvents orders).filterMap Event.passNumber? = [] := by
  refine List.filterMap_eq_nil_iff.mpr fun e he => ?_
  obtain ⟨order, _, he⟩ := List.mem_flatMap.mp he
  obtain ⟨op, _, rfl⟩ := List.mem_map.mp he
  rfl

theorem isRepair_generated {orders : List WorkOrder} {e : Event} (h : e ∈ generatedEvents orders) :
    e.isRepair = true := by
  obtain ⟨order, _, he⟩ := List.mem_flatMap.mp h
  obtain ⟨op, _, rfl⟩ := List.mem_map.mp he
  rfl

theorem mendedIn_observe (start : RepairState) (report : Report) (errors warnings : Int) :
    MendedIn start { state := observe start report, report := report }
      [.validationPass (observe start report).pass errors warnings] := by
  refine ⟨⟨1, rfl, rfl⟩, ?_, rfl⟩
  intro e he
  rw [List.mem_singleton.mp he]
  rfl

theorem MendedIn.after {start next : RepairState} {report : Report} {done : Repaired}
    {generated fixes : List WorkOrder} {errors warnings : Int} {reported : List Event}
    (hpass : next.pass = start.pass + 1)
    (hcounts : next.files.counts = start.files.counts.add
      (Event.tally (writes generated ++ (generatedEvents generated ++ writes fixes))))
    (h : MendedIn next done reported) :
    MendedIn start done
      ([.validationPass (observe start report).pass errors warnings] ++
        ((writes generated ++ (generatedEvents generated ++ writes fixes)) ++ reported)) := by
  obtain ⟨count, hdone, hnumbers⟩ := h.numbers
  refine ⟨⟨count + 1, ?_, ?_⟩, ?_, ?_⟩
  · rw [hdone, hpass, Nat.add_assoc, Nat.add_comm 1]
  · rw [hpass] at hnumbers
    simp only [List.filterMap_append, passNumber?_writes, passNumber?_generated, hnumbers,
      List.nil_append]
    rfl
  · intro e he
    simp only [List.mem_append, List.mem_singleton] at he
    rcases he with rfl | (hwrite | hgenerated | hfix) | hlater
    · rfl
    · exact isRepair_writes hwrite
    · exact isRepair_generated hgenerated
    · exact isRepair_writes hfix
    · exact h.kinds e hlater
  · have hpassTally : Event.tally
        [.validationPass (observe start report).pass errors warnings] = {} := rfl
    rw [h.counts, hcounts, FileSet.add_assoc, <- Event.tally_append, Event.tally_append [_],
      hpassTally]
    simp [Counts.add]

theorem Reports.passes (left : Nat) (start : RepairState) :
    Reports (passes company config request left start) (MendedIn start) := by
  induction left generalizing start with
  | zero =>
      unfold Repair.passes
      refine Reports.bind (Reports.emit _) ?_
      rintro _ _ rfl
      have hlast := mendedIn_observe start
        ((request.validator config start.files.files).validate start.files.files)
      exact Reports.ite (fun _ => Reports.ret (hlast _ _)) fun _ => Reports.ret (hlast _ _)
  | succ left ih =>
      unfold Repair.passes
      refine Reports.bind (Reports.emit _) ?_
      rintro _ _ rfl
      have hlast := mendedIn_observe start
        ((request.validator config start.files.files).validate start.files.files)
      refine Reports.ite (fun _ => Reports.ret (hlast _ _)) fun _ => ?_
      refine Reports.bind (Reports.deadlinePassed _) ?_
      rintro late _ rfl
      refine Reports.ite (fun _ => Reports.ret (hlast _ _)) fun _ => ?_
      refine Reports.bind (Reports.collect _ _ _ _ _) ?_
      rintro ⟨generated, fixes⟩ _ rfl
      refine Reports.ite (fun _ => Reports.ret (hlast _ _)) fun _ => ?_
      refine Reports.bind (Reports.applyCollected _ _ _) ?_
      rintro next _ ⟨rfl, hpass, hcounts⟩
      refine Reports.weaken (ih next) ?_
      intro done reported hdone
      exact hdone.after hpass hcounts

end Repair

namespace Assembly

open Run

variable {ε : Type} {company : Company ε} {config : Config} {request : AssemblyRequest}

/-!
# The whole assembly
-/

theorem Reports.validationPhase {p : Progress} (hp : p.passes = 0) :
    Reports (validationPhase company config request (request.optionsIn config) p)
      fun next reported =>
        exists cs : List Chapter, reported = cs.flatMap Chapter.events ∧
          (if (request.optionsIn config).validateImports ||
              (request.optionsIn config).validateExports then
            exists c, cs = [c] ∧ c.Validates next.passes
          else cs = [] ∧ next.passes = 0) ∧
          next.phases = p.phases ++ cs.map Chapter.phase ∧
          next.files.counts = p.files.counts.add (Event.tally reported) := by
  unfold Assembly.validationPhase
  refine Reports.ite ?_ ?_
  · intro hwanted
    simp only [hwanted, if_true]
    refine Reports.unlessLate ?_ ?_
    · refine ⟨[Chapter.skipped validationLabel], rfl, ⟨_, rfl, rfl, fun _ => rfl, ?_, ?_⟩, rfl, rfl⟩
      · show [] = (List.range' 1 p.passes).map Int.ofNat
        rw [hp]
        rfl
      · intro e he
        cases he
    · refine Reports.bind (Reports.emit _) ?_
      rintro _ _ rfl
      refine Reports.bind (Repair.Reports.passes _ _) ?_
      intro mended body hmended
      refine Reports.bind (Reports.emit _) ?_
      rintro _ _ rfl
      refine Reports.ret ?_
      have htold := statusOf_ne_failed mended.report
      let c : Chapter :=
        { phase :=
            { phase := validationLabel
              status := statusOf mended.report
              filesProcessed := mended.state.files.size
              diagnostics := mended.report.diagnostics }
          body := body }
      have hevents : [Event.phaseStart validationLabel] ++
          (body ++ ([.phaseComplete validationLabel (statusOf mended.report)] ++ [])) =
            c.events := by
        rw [Chapter.events_of_told htold]
        rfl
      rw [hevents]
      refine ⟨[c], by simp, ⟨c, rfl, rfl, fun hfailed => absurd hfailed htold, ?_, hmended.kinds⟩,
        rfl, ?_⟩
      · obtain ⟨count, hcount, hnumbers⟩ := hmended.numbers
        have hpasses : mended.state.pass = count := hcount.trans (Nat.zero_add _)
        show body.filterMap Event.passNumber? = (List.range' 1 mended.state.pass).map Int.ofNat
        rw [hpasses]
        exact hnumbers
      · rw [Chapter.tally_events fun hfailed => absurd hfailed htold]
        exact hmended.counts
  · intro hunwanted
    simp only [hunwanted, Bool.false_eq_true, if_false]
    exact Reports.ret ⟨[], rfl, ⟨rfl, hp⟩, (List.append_nil _).symm, rfl⟩

theorem counts_seed {strict : Bool} {existing : List (String × Option String)} {files : FileSet}
    (h : FileSet.seed strict existing = .ok files) : files.counts = {} := by
  unfold FileSet.seed at h
  dsimp only at h
  split at h
  · cases h
  · cases h
    rfl

theorem Reports.run :
    Reports (run company config request) fun result reported =>
      exists story : Story, reported = story.events ∧ story.Tells config request result := by
  unfold Assembly.run
  dsimp only
  cases hseed : FileSet.seed (request.optionsIn config).strictContent request.existing with
  | error e =>
      exact fun _ => Contract.fail fun _ _ => trivial
  | ok files =>
      refine Reports.bind (Reports.applyPhases _ _) ?_
      rintro applied _ ⟨told, rfl, htold, hphases₁, hfiles, hcounts₁, hpasses₁⟩
      refine Reports.bind (Reports.dropPlurals _) ?_
      rintro single _ ⟨rfl, hphases₂, hcounts₂, hpasses₂⟩
      refine Reports.bind (Reports.dependencyPhase _) ?_
      rintro listed _ ⟨packages, rfl, hpackages, hphases₃, hcounts₃, hpasses₃⟩
      have hpasses : listed.passes = 0 := by rw [hpasses₃, hpasses₂, hpasses₁]
      refine Reports.bind (Reports.validationPhase hpasses) ?_
      rintro validated _ ⟨passes, rfl, hvalidated, hphases₄, hcounts₄⟩
      refine Reports.ret ?_
      let story : Story :=
        { applied := told
          removed := removedFrom config request applied.files.files
          listed := packages
          validated := passes
          passes := validated.passes }
      have hcounts : validated.files.counts = Event.tally story.events := by
        have hstart : files.counts = {} := counts_seed hseed
        rw [hcounts₄, hcounts₃, hcounts₂, hcounts₁]
        simp only [story, Story.events, Event.tally_append, hstart]
        simp [Counts.add]
      refine ⟨story, by simp [story, Story.events], ?_⟩
      refine
        { phases := ?_
          applied := htold
          removed := ⟨files, hseed, ?_⟩
          listed := hpackages
          validated := hvalidated
          passes := rfl
          created := congrArg (fun counts : Counts => (counts.created : Int)) hcounts
          modified := congrArg (fun counts : Counts => (counts.modified : Int)) hcounts
          deleted := congrArg (fun counts : Counts => (counts.deleted : Int)) hcounts }
      · show validated.phases = _
        rw [hphases₄, hphases₃, hphases₂, hphases₁]
        simp [story, Story.chapters]
      · show removedFrom config request applied.files.files = _
        rw [hfiles]
        rfl

theorem log_of_assemble {locks : Locks} {result : AssemblyResult}
    (h : (assemble company config locks request).result = .ok result) :
    run company config request {} =
      ((assemble company config locks request).log, .ok result) := by
  unfold assemble at h ⊢
  cases hlock : locks.acquire request.projectId with
  | none =>
      rw [hlock] at h
      cases h
  | some held =>
      rw [hlock] at h
      cases hrun : run company config request {} with
      | mk later outcome =>
          simp only [hrun] at h ⊢
          cases outcome with
          | error e =>
              cases h
          | ok r =>
              cases h
              rfl

/--
Whatever the collaborators write and wherever the deadline strikes, the events of an assembly that
returns are the chapters of its phases in order, with the removed plural duplicates behind those of
the work orders, and the account of the result counts them.
-/
theorem assemble_tells_story {locks : Locks} {result : AssemblyResult}
    (h : (assemble company config locks request).result = .ok result) :
    exists story : Story,
      (assemble company config locks request).log.events = story.events ∧
        story.Tells config request result := by
  have hrun := @Reports.run ε company config request [] {} rfl
  rw [log_of_assemble h] at hrun
  obtain ⟨reported, hevents, story, hstory, htells⟩ := hrun
  exact ⟨story, by rw [hevents, List.nil_append, hstory], htells⟩

/-- Two phases, a plural duplicate, and a missing export that is mended before a second pass. -/
def chronicledRequest : AssemblyRequest :=
  { projectId := "chronicled"
    workOrders :=
      [{ id := "1"
         phase := some "lib"
         files :=
          [{ path := "t.ts", action := .create,
             content := some "export default function f() {}\nfunction g() {}\n" },
            { path := "ts.ts", action := .create, content := some "" }] },
        { id := "2"
          phase := some "app"
          files :=
            [{ path := "a.ts", action := .create, content := some "import { g } from './t'\n" },
              { path := "old.ts", action := .delete }] }]
    options := some { deduplicatePlurals := true } }

theorem assemble_tells_story_chronicled :
    exists result,
      (assemble Company.silent {} {} chronicledRequest : Outcome Unit).result = .ok result ∧
      exists story : Story,
        (assemble Company.silent {} {} chronicledRequest : Outcome Unit).log.events =
            story.events ∧
          story.Tells {} chronicledRequest result := by
  have hends : (assemble Company.silent {} {} chronicledRequest : Outcome Unit).result.isOk =
      true := by
    decide +kernel
  obtain ⟨result, hresult⟩ := exists_of_isOk hends
  exact ⟨result, hresult, assemble_tells_story hresult⟩

end Assembly
end Joinery
