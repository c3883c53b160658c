import Joinery.Assembly.Repair
import Joinery.Proofs.Assembly.Trace
import Joinery.Proofs.ExportFix.Rounds

/-!
# Passes without collaborators

## Validation and the repair of exports alone

Where nobody else writes files, a pass either finds nothing to mend and is the last one,
or mends the files and is followed by another.  The number of passes is therefore bounded
by the number of rounds that the files need, and no file is written twice.
-/

namespace Joinery

open ExportFix Run

variable {ε : Type} {company : Company ε} {config : Config} {request : AssemblyRequest}

/--
An assembly that asks nobody: there is no collaborator and no deadline, the aliases are given, and
exports are repaired.
-/
structure Solo (company : Company ε) (config : Config) (request : AssemblyRequest) : Prop where
  fixes : company.fixes = none
  generate : company.generate = none
  deadline : request.deadline = none
  aliases : request.aliases ≠ none
  autoFix : (request.optionsIn config).autoFixExports = true

/-- Each key is a path in canonical form. -/
structure Keyed (files : Table String) : Prop where
  nonempty : forall key, key ∈ files.keys -> key ≠ ""
  canonical : forall key, key ∈ files.keys -> Path.canonical key = key

theorem Keyed.of_keys {files other : Table String} (h : Keyed files)
    (hkeys : other.keys = files.keys) : Keyed other := by
  constructor
  · rw [hkeys]
    exact h.nonempty
  · rw [hkeys]
    exact h.canonical

namespace Repair

theorem validator_eq (h : request.aliases ≠ none) (files other : Table String) :
    request.validator config files = request.validator config other := by
  obtain ⟨aliases, haliases⟩ := Option.ne_none_iff_exists'.mp h
  unfold AssemblyRequest.validator Config.resolverFor Config.aliasesFor
  rw [haliases]

theorem generatorFor_none (h : company.generate = none) (options : Options) :
    generatorFor company options = none := by
  unfold generatorFor
  rw [h]
  exact ite_self none

section

variable {v : Validator} {left : Nat} {start : RepairState}

def finished (v : Validator) (start : RepairState) : Repaired :=
  { state := observe start (v.validate start.files.files), report := v.validate start.files.files }

def announced (v : Validator) (start : RepairState) : Event :=
  .validationPass (finished v start).state.pass (finished v start).report.errors.length
    (finished v start).report.warnings.length

def mending (v : Validator) (start : RepairState) : List WorkOrder :=
  ordersFor (v.request start.files.files (finished v start).state.pass [])

theorem passes_zero (hv : request.validator config start.files.files = v) :
    passes company config request 0 start =
      Run.emit company (announced v start) >>= fun _ => pure (finished v start) := by
  unfold passes
  dsimp only
  rw [hv]
  show Run.emit company (announced v start) >>= (fun _ => _) = _
  congr 1
  funext _
  exact ite_self _

theorem mending_eq_nil_iff : mending v start = [] <-> Settled v start.files.files := by
  rw [settled_iff (finished v start).state.pass []]
  unfold mending ordersFor
  dsimp only
  show (if (operations _).isEmpty then [] else _) = [] <-> _
  cases operations (v.request start.files.files (finished v start).state.pass []) <;> simp

theorem passes_succ (hsolo : Solo company config request)
    (hv : request.validator config start.files.files = v) :
    passes company config request (left + 1) start =
      Run.emit company (announced v start) >>= fun _ =>
        if (mending v start).isEmpty then pure (finished v start)
        else
          applyCollected company (finished v start).state [] (mending v start) >>=
            passes company config request left := by
  unfold passes
  dsimp only
  rw [hv, generatorFor_none hsolo.generate, hsolo.deadline]
  show Run.emit company (announced v start) >>= (fun _ => _) = _
  congr 1
  funext _
  cases hpasses : (v.validate start.files.files).passes with
  | true =>
      rw [mending_eq_nil_iff.mpr (settled_of_passes hpasses)]
      rfl
  | false =>
      have hcollect : collect company (request.optionsIn config) (finished v start).state.pass
          start.files.files (v.validate start.files.files) [] =
            pure ([], mending v start) := by
        unfold collect fixesFor
        rw [generatorFor_none hsolo.generate, hpasses, hsolo.fixes, hsolo.autoFix]
        rfl
      show (collect company (request.optionsIn config) (finished v start).state.pass
          start.files.files (v.validate start.files.files) [] >>= fun _ => _) = _
      rw [hcollect]
      rfl

/-!
# Passes in the log
-/

variable {events : List Event}

theorem Contract.applyCollected (company : Company ε) (events : List Event) (state : RepairState)
    (orders : List WorkOrder) :
    Contract (fun log => log.events = events) (applyCollected company state [] orders)
      (fun next log =>
        next.files.files =
            (WorkOrder.operations orders).foldl FileSet.applyOperation state.files.files ∧
          next.pass = state.pass ∧ next.repaired = true ∧ log.events = events ++ writes orders)
      (fun log => (exists front, front <+: writes orders ∧ log.events = events ++ front) ∧
        ((forall order, order ∈ orders -> order.IsValid state.files.strict) ->
          Raised company log)) := by
  show Contract _ (Run.applyOrders company state.files 0 orders >>= fun done => pure _) _ _
  refine Contract.bind Contract.applyOrders fun done => Contract.ret ?_
  rintro log ⟨_, hfiles, _, hevents⟩
  exact ⟨hfiles, rfl, rfl, hevents⟩

/-- What the log shows of the passes after some events, if so many rounds settle the files. -/
structure Bounded (events : List Event) (rounds : Nat) (log : Log) : Prop where
  passes : Event.passCount log.events ≤ Event.passCount events + rounds + 1
  once : (Event.repairedPaths log.events).Nodup

structure Ends (v : Validator) (events : List Event) (left rounds : Nat) (start : RepairState)
    (done : Repaired) (log : Log) : Prop where
  bounded : Bounded events rounds log
  pass : done.state.pass + Event.passCount events = start.pass + Event.passCount log.events
  keys : done.state.files.files.keys = start.files.files.keys
  report : done.report = v.validate done.state.files.files
  settled : rounds ≤ left -> Settled v done.state.files.files
  repaired : rounds ≠ 0 ∧ done.state.repaired = true ∨
    done.state.repaired = start.repaired ∧ done.state.files = start.files

theorem passCount_announced (events : List Event) (v : Validator) (start : RepairState) :
    Event.passCount (events ++ [announced v start]) = Event.passCount events + 1 :=
  Event.passCount_append events [announced v start]

theorem repairedPaths_announced (events : List Event) (v : Validator) (start : RepairState) :
    Event.repairedPaths (events ++ [announced v start]) = Event.repairedPaths events :=
  Event.repairedPaths_pass events _ _ _

theorem bounded_announced {rounds : Nat} (honce : (Event.repairedPaths events).Nodup) {log : Log}
    (h : log.events = events ++ [announced v start]) : Bounded events rounds log := by
  constructor
  · rw [h, passCount_announced]
    omega
  · rw [h, repairedPaths_announced]
    exact honce

theorem ends_finished {rounds : Nat} (honce : (Event.repairedPaths events).Nodup)
    (hsettled : rounds ≤ left -> Settled v start.files.files) {log : Log}
    (h : log.events = events ++ [announced v start]) :
    Ends v events left rounds start (finished v start) log := by
  refine ⟨bounded_announced honce h, ?_, rfl, rfl, hsettled, Or.inr ⟨rfl, rfl⟩⟩
  rw [h, passCount_announced]
  show start.pass + 1 + _ = _
  omega

def mended (events : List Event) (v : Validator) (start : RepairState) : List Event :=
  events ++ [announced v start] ++ writes (mending v start)

theorem repairedPaths_mended (events : List Event) (v : Validator) (start : RepairState) :
    Event.repairedPaths (mended events v start) =
      Event.repairedPaths events ++
        (operations (v.request start.files.files (finished v start).state.pass [])).map
          (·.path) := by
  have hstarted : Event.passCount (events ++ [announced v start]) ≠ 0 := by
    rw [passCount_announced]
    omega
  unfold mended
  rw [Event.repairedPaths_append hstarted, repairedPaths_announced, written_writes]
  unfold mending
  rw [operations_ordersFor]

theorem nodup_mended (honce : (Event.repairedPaths events).Nodup)
    (hfinished : forall path, path ∈ Event.repairedPaths events ->
      Finished start.files.files path) :
    (Event.repairedPaths (mended events v start)).Nodup := by
  rw [repairedPaths_mended]
  refine List.nodup_append.mpr ⟨honce, nodup_operations _, ?_⟩
  rintro path hpath other hother rfl
  obtain ⟨op, hop, rfl⟩ := List.mem_map.mp hother
  exact (finished_of_operation hop).2 (hfinished op.path hpath)

theorem finished_mended (hfinished : forall path, path ∈ Event.repairedPaths events ->
      Finished start.files.files path) {path : String}
    (hpath : path ∈ Event.repairedPaths (mended events v start)) :
    Finished (v.mendAll start.files.files) path := by
  rw [repairedPaths_mended] at hpath
  rcases List.mem_append.mp hpath with hpath | hpath
  · exact (hfinished path hpath).mendAll
  · obtain ⟨op, hop, rfl⟩ := List.mem_map.mp hpath
    exact (finished_of_operation hop).1

theorem passCount_mended (events : List Event) (v : Validator) (start : RepairState) :
    Event.passCount (mended events v start) = Event.passCount events + 1 := by
  unfold mended
  rw [Event.passCount_append, passCount_announced, passCount_of_writes (List.prefix_refl _)]

theorem bounded_of_front {rounds : Nat}
    (honce : (Event.repairedPaths (mended events v start)).Nodup) {front : List Event}
    (hfront : front <+: writes (mending v start)) {log : Log}
    (h : log.events = events ++ [announced v start] ++ front) : Bounded events rounds log := by
  have hstarted : Event.passCount (events ++ [announced v start]) ≠ 0 := by
    rw [passCount_announced]
    omega
  constructor
  · rw [h, Event.passCount_append, passCount_announced, passCount_of_writes hfront]
    omega
  · unfold mended at honce
    rw [Event.repairedPaths_append hstarted] at honce
    rw [h, Event.repairedPaths_append hstarted]
    exact honce.sublist ((List.Sublist.refl _).append (hfront.sublist.filterMap _))

theorem foldl_mending (hkeyed : Keyed start.files.files) :
    (WorkOrder.operations (mending v start)).foldl FileSet.applyOperation start.files.files =
      v.mendAll start.files.files := by
  unfold mending
  rw [operations_ordersFor]
  exact foldl_operations (v.request start.files.files (finished v start).state.pass [])
    hkeyed.canonical

theorem isValid_mending (hkeyed : Keyed start.files.files) {strict : Bool} {order : WorkOrder}
    (h : order ∈ mending v start) : order.IsValid strict :=
  isValid_ordersFor (v.request start.files.files (finished v start).state.pass [])
    hkeyed.canonical hkeyed.nonempty h

theorem Contract.announce {rounds : Nat} (honce : (Event.repairedPaths events).Nodup) :
    Contract (fun log => log.events = events) (Run.emit company (announced v start))
      (fun _ log => log.events = events ++ [announced v start])
      (fun log => Bounded events rounds log ∧ Raised company log) := by
  refine Contract.weaken (Contract.emit _) (fun _ h => h) (fun _ _ h => h) ?_
  rintro log ⟨hlog, hraised⟩
  exact ⟨bounded_announced honce hlog, hraised⟩

theorem Ends.of_mended {rounds : Nat} {next : RepairState} {done : Repaired} {log : Log}
    (hkeys : next.files.files.keys = start.files.files.keys) (hpass : next.pass = start.pass + 1)
    (hrepaired : next.repaired = true)
    (h : Ends v (mended events v start) left rounds next done log) :
    Ends v events (left + 1) (rounds + 1) start done log := by
  have hpasses := h.bounded.passes
  have hcount := h.pass
  rw [passCount_mended] at hpasses hcount
  refine ⟨⟨by omega, h.bounded.once⟩, by omega, h.keys.trans hkeys, h.report, ?_, ?_⟩
  · intro hle
    exact h.settled (Nat.le_of_succ_le_succ hle)
  · rcases h.repaired with ⟨_, hdone⟩ | ⟨hdone, _⟩
    · exact Or.inl ⟨Nat.succ_ne_zero rounds, hdone⟩
    · exact Or.inl ⟨Nat.succ_ne_zero rounds, hdone.trans hrepaired⟩

theorem Contract.mend {rounds : Nat} (hkeyed : Keyed start.files.files)
    (honce : (Event.repairedPaths events).Nodup)
    (hfinished : forall path, path ∈ Event.repairedPaths events ->
      Finished start.files.files path) :
    Contract (fun log => log.events = events ++ [announced v start])
      (Repair.applyCollected company (finished v start).state [] (mending v start))
      (fun next log => next.files.files = v.mendAll start.files.files ∧
        next.pass = start.pass + 1 ∧ next.repaired = true ∧
          log.events = mended events v start)
      (fun log => Bounded events rounds log ∧ Raised company log) := by
  have happly := Contract.applyCollected company (events ++ [announced v start])
    (finished v start).state (mending v start)
  refine Contract.weaken happly (fun _ h => h) ?_ ?_
  · rintro next log ⟨hfiles, hpass, hrepaired, hlog⟩
    have hstart : (finished v start).state.files.files = start.files.files := rfl
    rw [hstart, foldl_mending hkeyed] at hfiles
    exact ⟨hfiles, hpass, hrepaired, hlog⟩
  · rintro log ⟨⟨front, hfront, hlog⟩, hraised⟩
    exact ⟨bounded_of_front (nodup_mended honce hfinished) hfront hlog,
      hraised fun order horder => isValid_mending hkeyed horder⟩

/-- Passes that ask nobody stay within the bounds, and fail only if the listener does. -/
theorem Contract.passes (hsolo : Solo company config request)
    (hv : forall files, request.validator config files = v) {rounds : Nat}
    (hkeyed : Keyed start.files.files) (honce : (Event.repairedPaths events).Nodup)
    (hfinished : forall path, path ∈ Event.repairedPaths events ->
      Finished start.files.files path)
    (hrounds : SettlesIn v rounds start.files.files) :
    Contract (fun log => log.events = events) (passes company config request left start)
      (Ends v events left rounds start)
      (fun log => Bounded events rounds log ∧ Raised company log) := by
  -- what a pass repairs stays finished, so that no later pass writes to it
  induction left generalizing start events rounds with
  | zero =>
      rw [passes_zero (hv _)]
      refine Contract.bind (Contract.announce honce) fun _ => Contract.ret ?_
      intro log hlog
      refine ends_finished honce ?_ hlog
      intro hle
      rw [Nat.le_zero.mp hle] at hrounds
      exact hrounds
  | succ left ih =>
      rw [passes_succ hsolo (hv _)]
      refine Contract.bind (Contract.announce honce) fun _ => Contract.ite ?_ ?_
      · intro hempty
        refine Contract.ret ?_
        intro log hlog
        exact ends_finished honce
          (fun _ => mending_eq_nil_iff.mp (List.isEmpty_iff.mp hempty)) hlog
      · intro hempty
        have hunsettled : ¬Settled v start.files.files := by
          intro hsettled
          rw [mending_eq_nil_iff.mpr hsettled] at hempty
          cases hempty
        cases rounds with
        | zero =>
            exact absurd hrounds hunsettled
        | succ rounds =>
            refine Contract.bind (Contract.mend hkeyed honce hfinished) ?_
            rintro next log ⟨hfiles, hpass, hrepaired, hlog⟩
            have hkeys : next.files.files.keys = start.files.files.keys := by
              rw [hfiles, keys_mendAll]
            have hfinishedNext : forall path,
                path ∈ Event.repairedPaths (mended events v start) ->
                Finished next.files.files path := by
              intro path hpath
              rw [hfiles]
              exact finished_mended hfinished hpath
            have hroundsNext : SettlesIn v rounds next.files.files := by
              rw [hfiles]
              exact hrounds.resolve_left hunsettled
            have hrest := ih (hkeyed.of_keys hkeys) (nodup_mended honce hfinished) hfinishedNext
              hroundsNext
            refine Contract.weaken hrest (fun _ h => h) ?_ ?_ log hlog
            · intro done later hdone
              exact hdone.of_mended hkeys hpass hrepaired
            · rintro later ⟨⟨hpasses, hlater⟩, hraised⟩
              rw [passCount_mended] at hpasses
              exact ⟨⟨by omega, hlater⟩, hraised⟩

end

end Repair
end Joinery
