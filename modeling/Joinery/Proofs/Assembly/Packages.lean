import Joinery.Assembly.Assemble
import Joinery.Proofs.Assembly.Verdict
import Joinery.Proofs.Dependencies
import Joinery.Proofs.Validation.Report

/-!
# The packages of an assembly

## The list that is carried along

The packages are listed before the files are validated, and once more if they are repaired.
Between two phases the list therefore belongs to the files of the moment, unless the deadline
has overtaken its phase.  Then it is empty, and since time does not run back, the phase that
could fill it again is overtaken as well.
-/

namespace Joinery
namespace Assembly

open Run

variable {ε α β : Type} {company : Company ε} {config : Config} {request : AssemblyRequest}

/-- A deadline that has passed stays so. -/
def Steady (deadline : Option (Nat -> Bool)) : Prop :=
  forall passed, deadline = some passed ->
    forall look later, look ≤ later -> passed look = true -> passed later = true

/-- Every look at the clock from now on finds that the deadline has passed. -/
def Overtaken (request : AssemblyRequest) (log : Log) : Prop :=
  exists passed, request.deadline = some passed ∧
    forall look, log.checks ≤ look -> passed look = true

def UpToDate (config : Config) (request : AssemblyRequest) (p : Progress) : Prop :=
  p.dependencies =
    Dependencies.packages (config.resolverFor request.aliases p.files.files)
      (scanAll (config.resolverFor request.aliases p.files.files) p.files.files)

/-!
# Looks at the clock
-/

theorem Overtaken.emit (event : Event) :
    Contract (Overtaken request) (Run.emit company event) (fun _ => Overtaken request)
      (fun _ => True) := by
  rintro log ⟨passed, hdeadline, hpassed⟩
  unfold Run.emit
  dsimp only
  cases company.onEvent (log.events ++ [event]) with
  | none =>
      exact ⟨passed, hdeadline, hpassed⟩
  | some e =>
      trivial

theorem overtaken_of_deadlinePassed (hsteady : Steady request.deadline) :
    Contract (fun _ => True) (Run.deadlinePassed request.deadline : Run ε Bool)
      (fun late log => late = true -> Overtaken request log) (fun _ => True) := by
  intro log _
  unfold Run.deadlinePassed
  cases hdeadline : request.deadline with
  | none =>
      intro hlate
      cases hlate
  | some passed =>
      intro hlate
      refine ⟨passed, hdeadline, ?_⟩
      intro look hlook
      exact hsteady passed hdeadline log.checks look (Nat.le_of_succ_le hlook) hlate

theorem deadlinePassed_of_overtaken :
    Contract (Overtaken request) (Run.deadlinePassed request.deadline : Run ε Bool)
      (fun late _ => late = true) (fun _ => True) := by
  rintro log ⟨passed, hdeadline, hpassed⟩
  unfold Run.deadlinePassed
  rw [hdeadline]
  exact hpassed log.checks (Nat.le_refl _)

/-!
# Phases
-/

theorem skip_yields (label : String) (p : Progress) :
    Yields (skip company label p) fun next =>
      next = p.addPhase { phase := label, status := .failed } := by
  unfold skip
  apply Yields.andThen
  intro _
  exact Yields.ret rfl

theorem unlessLate_of_overtaken (label : String) (p : Progress) (phase : Run ε Progress) :
    Contract (Overtaken request) (unlessLate company request label p phase)
      (fun next _ => next = p.addPhase { phase := label, status := .failed }) (fun _ => True) := by
  unfold unlessLate
  refine Contract.bind deadlinePassed_of_overtaken fun late => ?_
  rintro log rfl
  exact skip_yields label p log trivial

theorem unlessLate_contract {label : String} {p : Progress} {phase : Run ε Progress}
    {post : Progress -> Log -> Prop} (hsteady : Steady request.deadline)
    (hskip : forall log, Overtaken request log ->
      post (p.addPhase { phase := label, status := .failed }) log)
    (hphase : Yields phase fun next => forall log, post next log) :
    Contract (fun _ => True) (unlessLate company request label p phase) post (fun _ => True) := by
  unfold unlessLate
  refine Contract.bind (overtaken_of_deadlinePassed hsteady) fun late => Contract.ite ?_ ?_
  · rintro rfl
    unfold skip
    refine Contract.bind ?_ fun _ => Contract.ret hskip
    refine Contract.weaken (Overtaken.emit _) ?_ (fun _ _ h => h) fun _ h => h
    intro log hlog
    exact hlog rfl
  · rintro rfl
    refine Contract.weaken hphase (fun _ _ => trivial) ?_ fun _ h => h
    intro next log hnext
    exact hnext log

theorem applyPhase_yields (group : PhaseGroup) (p : Progress) :
    Yields (applyPhase company config request group p) fun next =>
      next.dependencies = p.dependencies ∧ next.phases.length = p.phases.length + 1 := by
  unfold applyPhase unlessLate
  apply Yields.andThen
  intro late
  refine Yields.ite (fun _ => ?_) fun _ => ?_
  · refine Yields.weaken (skip_yields _ _) ?_
    rintro next rfl
    exact ⟨rfl, List.length_append⟩
  · apply Yields.andThen
    intro _
    apply Yields.andThen
    rintro ⟨files, count⟩
    apply Yields.andThen
    intro _
    exact Yields.ret ⟨rfl, List.length_append⟩

theorem applyPhases_yields (groups : List PhaseGroup) (p : Progress) :
    Yields (applyPhases company config request groups p) fun next =>
      next.dependencies = p.dependencies ∧
        next.phases.length = p.phases.length + groups.length := by
  induction groups generalizing p with
  | nil =>
      exact Yields.ret ⟨rfl, rfl⟩
  | cons group rest ih =>
      unfold applyPhases
      refine Yields.bind (applyPhase_yields group p) ?_
      rintro next ⟨hpackages, hcount⟩
      refine Yields.weaken (ih next) ?_
      rintro last ⟨hlast, hall⟩
      refine ⟨hlast.trans hpackages, ?_⟩
      rw [hall, hcount, List.length_cons]
      omega

theorem dropPlurals_yields (options : Options) (p : Progress) :
    Yields (dropPlurals company config options p) fun next =>
      next.dependencies = p.dependencies ∧ next.phases = p.phases := by
  unfold dropPlurals
  refine Yields.ite (fun _ => ?_) fun _ => Yields.ret ⟨rfl, rfl⟩
  apply Yields.andThen
  intro _
  exact Yields.ret ⟨rfl, rfl⟩

/-- How the phase of the packages went, and what it left. -/
structure ListedIn (config : Config) (request : AssemblyRequest) (p : Progress)
    (phase : PhaseResult) (next : Progress) (log : Log) : Prop where
  phases : next.phases = p.phases ++ [phase]
  label : phase.phase = dependencyLabel
  listed : phase.status ≠ .failed -> UpToDate config request next
  skipped : phase.status = .failed -> next.dependencies = p.dependencies ∧ Overtaken request log

theorem dependencyPhase_contract {options : Options} (hwanted : options.extractDependencies = true)
    (hsteady : Steady request.deadline) (p : Progress) :
    Contract (fun _ => True) (dependencyPhase company config request options p)
      (fun next log => exists phase, ListedIn config request p phase next log)
      (fun _ => True) := by
  unfold dependencyPhase
  rw [hwanted]
  refine Contract.ite (fun _ => ?_) fun h => Bool.noConfusion h
  refine unlessLate_contract hsteady ?_ ?_
  · intro log hlate
    exact ⟨_, rfl, rfl, fun hnot => absurd rfl hnot, fun _ => ⟨rfl, hlate⟩⟩
  · apply Yields.andThen
    intro _
    apply Yields.andThen
    intro _
    apply Yields.andThen
    intro _
    refine Yields.ret ?_
    intro log
    exact ⟨_, rfl, rfl, fun _ => rfl, fun hfailed => PhaseStatus.noConfusion hfailed⟩

/-!
# Repairs
-/

theorem applyCollected_yields (state : RepairState) (generated fixes : List WorkOrder) :
    Yields (Repair.applyCollected company state generated fixes) fun next =>
      next.repaired = true := by
  unfold Repair.applyCollected
  apply Yields.andThen
  rintro ⟨written, _⟩
  apply Yields.andThen
  intro _
  apply Yields.andThen
  rintro ⟨mended, _⟩
  exact Yields.ret rfl

theorem passes_repaired (left : Nat) (start : RepairState) :
    Yields (Repair.passes company config request left start) fun done =>
      (start.repaired = true -> done.state.repaired = true) ∧
        (done.state.repaired = true ∨ done.state.files = start.files) := by
  induction left generalizing start with
  | zero =>
      unfold Repair.passes
      apply Yields.andThen
      intro _
      exact Yields.ite (fun _ => Yields.ret ⟨id, Or.inr rfl⟩) fun _ => Yields.ret ⟨id, Or.inr rfl⟩
  | succ left ih =>
      unfold Repair.passes
      apply Yields.andThen
      intro _
      refine Yields.ite (fun _ => Yields.ret ⟨id, Or.inr rfl⟩) fun _ => ?_
      apply Yields.andThen
      intro late
      refine Yields.ite (fun _ => Yields.ret ⟨id, Or.inr rfl⟩) fun _ => ?_
      apply Yields.andThen
      rintro ⟨generated, fixes⟩
      refine Yields.ite (fun _ => Yields.ret ⟨id, Or.inr rfl⟩) fun _ => ?_
      refine Yields.bind (applyCollected_yields _ generated fixes) ?_
      intro next hnext
      refine Yields.weaken (ih next) ?_
      rintro done ⟨hrepaired, _⟩
      exact ⟨fun _ => hrepaired hnext, Or.inl (hrepaired hnext)⟩

theorem packages_of_mended {p : Progress} {mended : Repaired} (h : UpToDate config request p)
    (hreport : mended.report = reportOn config request mended.state.files.files)
    (hfiles : mended.state.repaired = true ∨ mended.state.files = p.files) :
    (if mended.state.repaired then
        Dependencies.packages (config.resolverFor request.aliases mended.state.files.files)
          mended.report.modules
      else p.dependencies) =
      Dependencies.packages (config.resolverFor request.aliases mended.state.files.files)
        (scanAll (config.resolverFor request.aliases mended.state.files.files)
          mended.state.files.files) := by
  cases hrepaired : mended.state.repaired with
  | true =>
      rw [if_pos rfl, hreport]
      exact congrArg _ (Validator.modules_eq _ _)
  | false =>
      have hsame : mended.state.files = p.files :=
        hfiles.resolve_left fun htrue => Bool.noConfusion (hrepaired.symm.trans htrue)
      rw [if_neg Bool.false_ne_true, hsame]
      exact h

theorem validationPhase_listed {p : Progress}
    (hwanted : (request.optionsIn config).extractDependencies = true)
    (h : UpToDate config request p) :
    Yields (validationPhase company config request (request.optionsIn config) p) fun next =>
      UpToDate config request next ∧ p.phases <+: next.phases := by
  unfold validationPhase unlessLate
  rw [hwanted]
  refine Yields.ite (fun _ => ?_) fun _ => Yields.ret ⟨h, List.prefix_refl _⟩
  apply Yields.andThen
  intro late
  refine Yields.ite (fun _ => ?_) fun _ => ?_
  · refine Yields.weaken (skip_yields _ _) ?_
    rintro next rfl
    exact ⟨h, List.prefix_append _ _⟩
  · apply Yields.andThen
    intro _
    refine Yields.bind (Yields.and (passes_current _ _) (passes_repaired _ _)) ?_
    rintro mended ⟨hreport, -, hfiles⟩
    apply Yields.andThen
    intro _
    exact Yields.ret ⟨packages_of_mended h hreport hfiles, List.prefix_append _ _⟩

theorem validationPhase_of_overtaken (options : Options) (p : Progress) :
    Contract (Overtaken request) (validationPhase company config request options p)
      (fun next _ => next.dependencies = p.dependencies ∧ p.phases <+: next.phases)
      (fun _ => True) := by
  unfold validationPhase
  refine Contract.ite (fun _ => ?_) fun _ => Contract.ret fun _ _ => ⟨rfl, List.prefix_refl _⟩
  refine Contract.weaken (unlessLate_of_overtaken _ _ _) (fun _ h => h) ?_ fun _ h => h
  rintro next log rfl
  exact ⟨rfl, List.prefix_append _ _⟩

/-!
# The result
-/

/-- What a result says of its packages, by the phase that follows those of the work orders. -/
structure TellsPackages (config : Config) (request : AssemblyRequest) (result : AssemblyResult)
    (phase : PhaseResult) : Prop where
  place : result.phases[(PhaseGroup.group request.workOrders
    (request.phases.getD config.phases)).length]? = some phase
  label : phase.phase = dependencyLabel
  listed : phase.status ≠ .failed -> result.dependencies =
    Dependencies.packages (config.resolverFor request.aliases result.files)
      (scanAll (config.resolverFor request.aliases result.files) result.files)
  skipped : phase.status = .failed -> result.dependencies = []

theorem getElem?_of_prefix {before phases : List PhaseResult} {phase : PhaseResult} {count : Nat}
    (hcount : before.length = count) (h : before ++ [phase] <+: phases) :
    phases[count]? = some phase := by
  obtain ⟨later, rfl⟩ := h
  subst hcount
  rw [List.append_assoc, List.getElem?_append_right (Nat.le_refl _), Nat.sub_self]
  rfl

theorem run_tellsPackages (hwanted : (request.optionsIn config).extractDependencies = true)
    (hsteady : Steady request.deadline) :
    Yields (run company config request) fun result =>
      exists phase, TellsPackages config request result phase := by
  unfold run
  dsimp only
  cases FileSet.seed (request.optionsIn config).strictContent request.existing with
  | error e =>
      exact Contract.fail fun _ hlog => hlog
  | ok files =>
      refine Yields.bind (applyPhases_yields _ _) ?_
      rintro applied ⟨happlied, hcount⟩
      refine Yields.bind (dropPlurals_yields _ _) ?_
      rintro single ⟨hsingle, hphases⟩
      rw [<- hphases] at hcount
      have hnone : single.dependencies = [] := hsingle.trans happlied
      refine Contract.bind (dependencyPhase_contract hwanted hsteady single) fun listed => ?_
      rintro log ⟨phase, hlisted⟩
      have hplace : forall validated : Progress, listed.phases <+: validated.phases ->
          validated.phases[(PhaseGroup.group request.workOrders
            (request.phases.getD config.phases)).length]? = some phase := by
        intro validated hprefix
        rw [hlisted.phases] at hprefix
        exact getElem?_of_prefix (hcount.trans (Nat.zero_add _)) hprefix
      by_cases hstatus : phase.status = .failed
      · -- the validation is late as well, so that nothing is listed
        obtain ⟨hskipped, hlate⟩ := hlisted.skipped hstatus
        refine Contract.bind (validationPhase_of_overtaken _ _) (fun validated => ?_) log hlate
        refine Contract.ret ?_
        rintro _ ⟨hvalidated, hprefix⟩
        exact ⟨phase, hplace validated hprefix, hlisted.label, fun hnot => absurd hstatus hnot,
          fun _ => hvalidated.trans (hskipped.trans hnone)⟩
      · refine Yields.bind (validationPhase_listed hwanted (hlisted.listed hstatus)) ?_ log trivial
        rintro validated ⟨hvalidated, hprefix⟩
        exact Yields.ret ⟨phase, hplace validated hprefix, hlisted.label, fun _ => hvalidated,
          fun hfailed => absurd hfailed hstatus⟩

/--
Whatever the collaborators write, the packages of a result are those of the files that it returns:
the distinct package roots of their external sources under the aliases in force for these files, in
strict order.  Only where the deadline overtook the phase of the packages, none is listed.
-/
theorem assemble_lists_packages {locks : Locks} {result : AssemblyResult}
    (h : (assemble company config locks request).result = .ok result)
    (hwanted : (request.optionsIn config).extractDependencies = true)
    (hsteady : Steady request.deadline) :
    exists phase, TellsPackages config request result phase ∧
      (phase.status ≠ .failed ->
        ListsPackages (config.resolverFor request.aliases result.files) result.files
          result.dependencies) := by
  obtain ⟨later, hrun⟩ := run_of_assemble h
  obtain ⟨phase, hphase⟩ := (run_tellsPackages hwanted hsteady).of_eq hrun
  refine ⟨phase, hphase, ?_⟩
  intro hstatus
  rw [hphase.listed hstatus]
  exact Dependencies.listsPackages_packages _ _

/-- A missing file takes in two packages and comes with aliases that turn one into a directory. -/
def adoptingCompany : Company Unit :=
  { onEvent := fun _ => none
    fixes := none
    generate := some fun asked _ _ => .ok <|
      if asked = 0 then
        [{ id := "generated"
           files :=
            [{ path := "src/b.ts", action := .create,
               content := some "import h from 'react/hooks'\nexport * from '@ui/kit/icons'\n" },
              { path := "tsconfig.json", action := .create,
                content := some
                  "\x7b\"compilerOptions\": \x7b\"paths\": \x7b\"own/*\": [\"src/*\"]\x7d\x7d\x7d" }] }]
      else [] }

def adoptingRequest : AssemblyRequest :=
  { projectId := "adopting"
    workOrders :=
      [{ id := "1"
         files :=
          [{ path := "src/a.ts", action := .create,
             content := some "import './b'\nimport x from 'own/c'\nimport h from 'react'\n" }] }]
    deadline := some fun look => decide (9 ≤ look) }

theorem assemble_lists_packages_adopting :
    exists result,
      (assemble adoptingCompany {} {} adoptingRequest).result = .ok result ∧
      (adoptingRequest.optionsIn {}).extractDependencies = true ∧ Steady adoptingRequest.deadline ∧
      result.dependencies = ["@ui/kit", "react"] ∧
      exists phase, TellsPackages {} adoptingRequest result phase ∧
        (phase.status ≠ .failed ->
          ListsPackages (Config.resolverFor {} adoptingRequest.aliases result.files) result.files
            result.dependencies) := by
  have hpackages : (assemble adoptingCompany {} {} adoptingRequest).result.toOption.map
      (·.dependencies) = some ["@ui/kit", "react"] := by
    decide +kernel
  obtain ⟨result, hresult, hlist⟩ := exists_of_toOption_map hpackages
  have hwanted : (adoptingRequest.optionsIn {}).extractDependencies = true := rfl
  have hsteady : Steady adoptingRequest.deadline := by
    rintro passed ⟨⟩ look later hle hpassed
    exact decide_eq_true (Nat.le_trans (of_decide_eq_true hpassed) hle)
  exact ⟨result, hresult, hwanted, hsteady, hlist,
    assemble_lists_packages hresult hwanted hsteady⟩

end Assembly
end Joinery
