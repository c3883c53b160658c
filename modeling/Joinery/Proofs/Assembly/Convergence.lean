import Joinery.Proofs.Assembly.Phases
import Joinery.Proofs.Assembly.Verdict

/-!
# Convergence of an assembly

## Assembling what was assembled

An assembly that asks nobody needs two passes.  It needs a third one only if star
re-exports are followed, one text ends in an exported enumeration without a name, and
another one passes a module on and can export the word `enum` itself.  If it may take
them, its files are settled, and assembling them once more changes nothing.
-/

namespace Joinery

open ExportFix Run SourceModule

namespace AssemblyRequest

/-- May a file that passes another one on have to export a name that got lost there? -/
def mayLoseNames (config : Config) (request : AssemblyRequest) : Bool :=
  decide (2 ≤ config.resolver.reexportDepth) && request.texts.any endsInUnnamedEnum &&
    request.texts.any passesOnEnum

/-- The number of passes after which the files of a request are settled. -/
def passBound (config : Config) (request : AssemblyRequest) : Nat :=
  if request.mayLoseNames config then 3 else 2

def again (request : AssemblyRequest) (files : Table String) : AssemblyRequest :=
  { request with
      workOrders := []
      existing := files.entries.map fun entry => (entry.1, some entry.2) }

end AssemblyRequest

namespace Assembly

variable {ε : Type} {company : Company ε} {config : Config} {request : AssemblyRequest}

/-- What an assembly that asks nobody ends with, if so many rounds settle the files. -/
structure Converged (config : Config) (request : AssemblyRequest) (rounds : Nat)
    (result : AssemblyResult) (log : Log) : Prop where
  moderate : Moderate rounds log
  passes : result.stats.validationPasses = Event.passCount log.events
  keyed : Keyed result.files
  plurals : (request.optionsIn config).deduplicatePlurals = true ->
    FileSet.pluralDuplicates config.resolver.extensions result.files.keys = []
  dependencies : result.dependencies = dependenciesOf config request result.files
  settled : checksAnything config request = true ->
    rounds ≤ (request.optionsIn config).maxPasses - 1 ->
    Settled (request.validator config result.files) result.files

def finish (company : Company ε) (config : Config) (request : AssemblyRequest) (p : Progress) :
    Run ε AssemblyResult := do
  let single <- dropPlurals company config (request.optionsIn config) p
  let listed <- dependencyPhase company config request (request.optionsIn config) single
  let validated <- validationPhase company config request (request.optionsIn config) listed
  pure (resultOf config request validated)

theorem Contract.finish (rounds : Nat) (hsolo : Solo company config request) {p : Progress}
    (hp : Prepared request p)
    (hrounds : forall next, Singled config request p next ->
      checksAnything config request = true ->
      SettlesIn (request.validator config next.files.files) rounds next.files.files) :
    Contract Quiet (finish company config request p)
      (fun result log => Converged config request rounds result log ∧
        (rounds = 0 ->
          ((request.optionsIn config).deduplicatePlurals = true ->
            FileSet.pluralDuplicates config.resolver.extensions p.files.paths = []) ->
          result.files = p.files.files))
      (fun log => Moderate rounds log ∧ Raised company log) := by
  have hquiet : forall log, Quiet log ∧ Raised company log ->
      Moderate rounds log ∧ Raised company log :=
    fun log hlog => ⟨hlog.1.moderate, hlog.2⟩
  refine Contract.bind
    (Contract.weaken (Contract.dropPlurals hp) (fun _ h => h) (fun _ _ h => h) hquiet) ?_
  rintro single log ⟨hsingle, hlog⟩
  refine Contract.bind
    (Contract.weaken (Contract.dependencyPhase hsolo hsingle.prepared) (fun _ h => h)
      (fun _ _ h => h) hquiet) ?_ log hlog
  rintro listed later ⟨hlisted, hlater⟩
  refine Contract.bind (Contract.validationPhase rounds hsolo ?_ ?_ ?_
    hlisted.passes) (fun validated => Contract.ret ?_) later hlater
  · rw [hlisted.files]
    exact Keyed.of_holds hsingle.prepared.files
  · rw [hlisted.files]
    exact hrounds single hsingle
  · rw [hlisted.files]
    exact hlisted.dependencies
  · intro last hvalidated
    have hkeys : validated.files.files.keys = single.files.files.keys := by
      rw [hvalidated.keys, hlisted.files]
    refine ⟨⟨hvalidated.moderate, congrArg Int.ofNat hvalidated.passes, ?_, ?_,
      hvalidated.dependencies, hvalidated.settled⟩, ?_⟩
    · exact (Keyed.of_holds hsingle.prepared.files).of_keys hkeys
    · intro hwanted
      show FileSet.pluralDuplicates _ validated.files.files.keys = []
      rw [hkeys]
      exact hsingle.plurals hwanted
    · intro hzero hnone
      show validated.files.files = p.files.files
      rw [hvalidated.same hzero, hlisted.files, hsingle.same hnone]

theorem Contract.run (hsolo : Solo company config request) (hpaths : request.HasFixedPaths)
    {rounds : Nat} (hrounds : forall files, Table.Holds request.Allows files ->
      SettlesIn (request.validator config files) rounds files) :
    Contract Quiet (run company config request) (Converged config request rounds)
      (Moderate rounds) := by
  unfold Assembly.run
  dsimp only
  cases hseed : FileSet.seed (request.optionsIn config).strictContent request.existing with
  | error e =>
      exact Contract.fail fun _ hlog => hlog.moderate
  | ok files =>
      have hgroups : forall group,
          group ∈ PhaseGroup.group request.workOrders (request.phases.getD config.phases) ->
          forall order, order ∈ group.orders -> order ∈ request.workOrders :=
        fun group hgroup order horder => PhaseGroup.mem_of_mem_group hgroup horder
      refine Contract.bind
        (Contract.weaken (Contract.applyPhases hsolo hpaths hgroups (prepared_seed hpaths hseed))
          (fun _ h => h) (fun _ _ h => h) fun _ h => h.moderate) ?_
      rintro applied log ⟨happlied, hlog⟩
      exact Contract.weaken (Contract.finish rounds hsolo happlied
        fun next hnext _ => hrounds _ hnext.prepared.files) (fun _ h => h) (fun _ _ h => h.1)
        (fun _ h => h.1) log hlog

theorem settlesIn_of_holds {files : Table String} (h : Table.Holds request.Allows files) :
    SettlesIn (request.validator config files) (request.passBound config - 1) files := by
  unfold AssemblyRequest.passBound
  cases hlose : request.mayLoseNames config with
  | true =>
      exact settlesIn_two _ files
  | false =>
      unfold AssemblyRequest.mayLoseNames at hlose
      rw [Bool.and_eq_false_iff, Bool.and_eq_false_iff, decide_eq_false_iff_not, or_assoc] at hlose
      refine settlesIn_one (keepsNames_of_texts
        (fun path text htext => (h path text htext).2.2)
        (hlose.imp (fun hdepth => ?_) (Or.imp ?_ ?_)))
      · exact Nat.le_of_lt_succ (Nat.not_le.mp hdepth)
      · intro hends text htext
        exact Bool.not_eq_true _ ▸ List.any_eq_false.mp hends text htext
      · intro hpasses text htext
        exact Bool.not_eq_true _ ▸ List.any_eq_false.mp hpasses text htext

/-!
# Assembling again
-/

theorem hasFixedPaths_again {files : Table String} (h : Keyed files) (request : AssemblyRequest) :
    (request.again files).HasFixedPaths := by
  intro path hpath
  have hmem : path ∈ files.keys := by
    rcases List.mem_append.mp hpath with hpath | hpath
    · obtain ⟨entry, hentry, rfl⟩ := List.mem_map.mp hpath
      obtain ⟨file, hfile, rfl⟩ := List.mem_map.mp hentry
      exact List.mem_map_of_mem hfile
    · cases hpath
  rw [h.canonical path hmem]
  exact h.canonical path hmem

theorem Contract.runAgain (hsolo : Solo company config request) {files : Table String}
    (hkeyed : Keyed files)
    (hplurals : (request.optionsIn config).deduplicatePlurals = true ->
      FileSet.pluralDuplicates config.resolver.extensions files.keys = [])
    (hsettled : checksAnything config request = true ->
      Settled (request.validator config files) files) :
    Contract Quiet (Assembly.run company config (request.again files))
      (fun again _ => again.files = files ∧
        again.dependencies = dependenciesOf config request files)
      (Raised company) := by
  have hagain : Solo company config (request.again files) :=
    ⟨hsolo.fixes, hsolo.generate, hsolo.deadline, hsolo.aliases, hsolo.autoFix⟩
  have hseed : FileSet.seed ((request.again files).optionsIn config).strictContent
      (request.again files).existing =
        .ok { files := files, strict := (request.optionsIn config).strictContent } :=
    FileSet.seed_entries hkeyed.canonical hkeyed.nonempty
  have hprepared := prepared_seed (hasFixedPaths_again hkeyed request) hseed
  have hrun : Assembly.run company config (request.again files) =
      Assembly.finish company config (request.again files)
        { files := { files := files, strict := (request.optionsIn config).strictContent } } := by
    unfold Assembly.run
    dsimp only
    rw [hseed]
    rfl
  rw [hrun]
  refine Contract.weaken (Contract.finish 0 hagain hprepared ?_) (fun _ h => h) ?_
    (fun _ h => h.2)
  · intro next hnext hwanted
    rw [hnext.same hplurals]
    exact hsettled hwanted
  · rintro result log ⟨hconverged, hsame⟩
    have hfiles : result.files = files := hsame rfl hplurals
    refine ⟨hfiles, ?_⟩
    rw [hconverged.dependencies, hfiles]
    rfl

/-- Two results say the same of the same files. -/
structure Agree (result other : AssemblyResult) : Prop where
  files : other.files = result.files
  diagnostics : other.diagnostics = result.diagnostics
  dependencies : other.dependencies = result.dependencies
  success : other.success = result.success

theorem assemble_cases (company : Company ε) (config : Config) (locks : Locks)
    (request : AssemblyRequest) :
    (locks.acquire request.projectId = none ∧
        (assemble company config locks request).log = {} ∧
        (assemble company config locks request).result = .error (.concurrent request.projectId)) ∨
      (locks.acquire request.projectId ≠ none ∧
        (assemble company config locks request).log = (run company config request {}).1 ∧
        (assemble company config locks request).result =
          (run company config request {}).2.mapError Error.failed) := by
  unfold assemble
  cases locks.acquire request.projectId with
  | none =>
      exact Or.inl ⟨rfl, rfl, rfl⟩
  | some held =>
      exact Or.inr ⟨Option.some_ne_none held, rfl, rfl⟩

theorem agree_again (hsolo : Solo company config request) {result : AssemblyResult}
    (hdescribes : Describes config request result) (hkeyed : Keyed result.files)
    (hplurals : (request.optionsIn config).deduplicatePlurals = true ->
      FileSet.pluralDuplicates config.resolver.extensions result.files.keys = [])
    (hdependencies : result.dependencies = dependenciesOf config request result.files)
    (hsettled : checksAnything config request = true ->
      Settled (request.validator config result.files) result.files)
    {locks : Locks} :
    (forall other,
        (assemble company config locks (request.again result.files)).result = .ok other ->
        Agree result other) ∧
      (locks.acquire request.projectId ≠ none ->
        (forall events, company.onEvent events = none) ->
        exists other,
          (assemble company config locks (request.again result.files)).result = .ok other) := by
  have hagain := Contract.runAgain hsolo hkeyed hplurals hsettled {} rfl
  constructor
  · intro other hother
    obtain ⟨later, hrun⟩ := run_of_assemble hother
    rw [hrun] at hagain
    have hother := run_describes.of_eq hrun
    have hreport : reportOn config (request.again result.files) other.files =
        reportOn config request result.files := by
      rw [hagain.1]
      rfl
    refine ⟨hagain.1, ?_, hagain.2.trans hdependencies.symm, ?_⟩
    · rw [hother.diagnostics, hdescribes.diagnostics, hreport]
    · rw [hother.success, hdescribes.success, hreport]
  · intro hfree hlistener
    rcases assemble_cases company config locks (request.again result.files) with
      ⟨hlocked, _⟩ | ⟨_, _, hresult⟩
    · exact absurd hlocked hfree
    rw [hresult]
    cases hrun : run company config (request.again result.files) {} with
    | mk later outcome =>
        rw [hrun] at hagain
        cases outcome with
        | ok other =>
            exact ⟨other, rfl⟩
        | error e =>
            exact absurd (hlistener later.events) hagain

/--
An assembly that asks nobody takes at most two passes, or three where a name may get lost on its way
through a star re-export; no file is repaired twice.  If it may take these passes, assembling its
files again yields the same files, findings, packages and verdict.
-/
theorem assemble_converges (hsolo : Solo company config request) (hpaths : request.HasFixedPaths)
    (locks : Locks) :
    let outcome := assemble company config locks request
    Event.passCount outcome.log.events ≤ request.passBound config ∧
      (Event.repairedPaths outcome.log.events).Nodup ∧
      forall result, outcome.result = .ok result ->
        result.stats.validationPasses = Event.passCount outcome.log.events ∧
        (request.passBound config ≤ (request.optionsIn config).maxPasses ->
          forall (listener : Company ε) (locksThen : Locks), Solo listener config request ->
            (forall again,
                (assemble listener config locksThen (request.again result.files)).result =
                  .ok again ->
                Agree result again) ∧
              (locksThen.acquire request.projectId ≠ none ->
                (forall events, listener.onEvent events = none) ->
                exists again,
                  (assemble listener config locksThen (request.again result.files)).result =
                    .ok again)) := by
  intro outcome
  have hbound : request.passBound config - 1 + 1 = request.passBound config := by
    unfold AssemblyRequest.passBound
    split <;> rfl
  have hrun := Contract.run hsolo hpaths (fun _ hfiles => settlesIn_of_holds hfiles) {} rfl
  rcases assemble_cases company config locks request with
    ⟨_, hlog, hresult⟩ | ⟨_, hlog, hresult⟩
  · have hquiet : Quiet outcome.log := by
      show Event.passCount (assemble company config locks request).log.events = 0
      rw [hlog]
      rfl
    have hmoderate : Moderate (request.passBound config - 1) outcome.log := hquiet.moderate
    refine ⟨by have hpasses := hmoderate.passes; omega, hmoderate.once, ?_⟩
    intro result hok
    rw [show outcome.result = _ from hresult] at hok
    cases hok
  · cases hend : run company config request {} with
    | mk later ended =>
        rw [hend] at hrun hlog hresult
        have hmoderate : Moderate (request.passBound config - 1) later := by
          cases ended with
          | ok result =>
              exact hrun.moderate
          | error e =>
              exact hrun
        rw [show outcome.log = later from hlog]
        refine ⟨by have hpasses := hmoderate.passes; omega, hmoderate.once, ?_⟩
        intro result hok
        rw [show outcome.result = _ from hresult] at hok
        cases ended with
        | error e =>
            cases hok
        | ok ended =>
            cases hok
            refine ⟨hrun.passes, ?_⟩
            intro hmax listener locksThen hlistener
            exact agree_again hlistener (run_describes.of_eq hend) hrun.keyed hrun.plurals
              hrun.dependencies fun hwanted => hrun.settled hwanted (by omega)

def helperRequest : AssemblyRequest :=
  { projectId := "helper"
    workOrders :=
      [{ id := "1"
         files :=
          [{ path := "./src//t.ts"
             action := .create
             content := some
              "export default function f() \x7b\x7d\nfunction helper() \x7b\x7d\n" },
            { path := "src/a.ts"
              action := .create
              content := some "import \x7b helper \x7d from '@/t'\nimport x from 'pkg/x'\n" }] }]
    aliases := some Resolver.defaultAliases }

theorem assemble_converges_helper :
    exists result again,
      (assemble Company.silent {} {} helperRequest : Outcome Unit).result = .ok result ∧
      result.stats.validationPasses = 2 ∧
      (assemble Company.silent {} {} (helperRequest.again result.files) : Outcome Unit).result =
        .ok again ∧
      Agree result again := by
  have hsolo : Solo (Company.silent : Company Unit) {} helperRequest :=
    ⟨rfl, rfl, rfl, Option.some_ne_none _, rfl⟩
  have hpaths : helperRequest.HasFixedPaths := by
    unfold AssemblyRequest.HasFixedPaths
    decide +kernel
  have hends : (assemble Company.silent {} {} helperRequest : Outcome Unit).result.isOk = true := by
    decide +kernel
  have hpasses : (assemble Company.silent {} {} helperRequest : Outcome Unit).result.toOption.map
      (fun result => result.stats.validationPasses) = some 2 := by
    decide +kernel
  obtain ⟨result, hresult⟩ := exists_of_isOk hends
  obtain ⟨_, _, hconverges⟩ := assemble_converges hsolo hpaths {}
  obtain ⟨_, hagain⟩ := hconverges result hresult
  obtain ⟨hagree, hreturns⟩ := hagain (by decide +kernel) Company.silent {} hsolo
  obtain ⟨again, hrun⟩ := hreturns (by decide +kernel) fun _ => rfl
  rw [hresult] at hpasses
  exact ⟨result, again, hresult, Option.some.inj hpasses, hrun, hagree again hrun⟩

/--
A module that ends in an exported enumeration without a name is repaired, and a module that passes
it on loses the word `enum`, which it declares itself.
-/
def enumRequest : AssemblyRequest :=
  { projectId := "enum"
    existing :=
      [("src/t.ts", some ("export default function f() \x7b\x7d\nfunction helper() \x7b\x7d\n" ++
          "export const enum\n")),
        ("src/b.ts", some
          "export * from './t'\nexport default class B \x7b\x7d\nconst enum E \x7b\x7d\n"),
        ("src/a.ts", some
          "import \x7b helper \x7d from './t'\nimport \x7b enum \x7d from './b'\n")]
    aliases := some Resolver.defaultAliases }

theorem enumRequest_takes_three_passes :
    let config : Config := { resolver := { reexportDepth := 2 } }
    Solo (Company.silent : Company Unit) config enumRequest ∧ enumRequest.HasFixedPaths ∧
      exists result,
        (assemble Company.silent config {} enumRequest : Outcome Unit).result = .ok result ∧
        ¬result.stats.validationPasses ≤ 2 := by
  intro config
  refine ⟨⟨rfl, rfl, rfl, Option.some_ne_none _, rfl⟩, ?_, ?_⟩
  · unfold AssemblyRequest.HasFixedPaths
    decide +kernel
  · have hends : (assemble Company.silent config {} enumRequest : Outcome Unit).result.isOk =
        true := by
      decide +kernel
    have hpasses :
        (assemble Company.silent config {} enumRequest : Outcome Unit).result.toOption.map
          (fun result => result.stats.validationPasses) = some 3 := by
      decide +kernel
    obtain ⟨result, hresult⟩ := exists_of_isOk hends
    rw [hresult] at hpasses
    refine ⟨result, hresult, ?_⟩
    rw [show result.stats.validationPasses = 3 from Option.some.inj hpasses]
    decide

end Assembly
end Joinery
