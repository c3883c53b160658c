import Joinery.Proofs.Assembly.Locking
import Joinery.Proofs.Assembly.Passes
import Joinery.Proofs.Assembly.Verdict
import Joinery.Proofs.FileSet.History

/-!
# Assemblies that only look

## Files that stay as they are

An assembly without work orders, helpers and repairs has nothing to write.  If its
listener does not fail, it returns the files that it was given, whatever the deadline
and the other steps that are wanted.
-/

namespace Joinery

open Run

variable {ε α β : Type}

/-- Nobody helps, and nobody fails. -/
structure Company.Unaided (company : Company ε) : Prop where
  fixes : company.fixes = none
  generate : company.generate = none
  listens : forall events, company.onEvent events = none

/-- An assembly that is to find out what is wrong with some files, and nothing else. -/
structure AssemblyRequest.Inspects (request : AssemblyRequest) (config : Config)
    (files : Table String) : Prop where
  existing : request.existing = files.entries.map fun entry => (entry.1, some entry.2)
  workOrders : request.workOrders = []
  aliases : request.aliases = none
  imports : (request.optionsIn config).validateImports = true
  exports : (request.optionsIn config).validateExports = true
  fixes : (request.optionsIn config).autoFixExports = false
  plurals : (request.optionsIn config).deduplicatePlurals = false

theorem FileSet.seed_strict (strict : Bool) (existing : List (String × Option String)) :
    seed strict existing = (seed false existing).map fun s => { s with strict := strict } := by
  unfold seed
  dsimp only
  split <;> rfl

@[simp] theorem PhaseGroup.group_nil (phases : List String) : group [] phases = [] := by
  unfold group
  dsimp only
  refine List.filter_eq_nil_iff.mpr ?_
  intro g hg
  obtain ⟨label, _, rfl⟩ := List.mem_map.mp hg
  exact Bool.false_ne_true

namespace Run

theorem Surely.emit {company : Company ε} (hcompany : company.Unaided) (event : Event) :
    Surely (Run.emit company event) fun _ => True := by
  intro log _
  unfold Run.emit
  dsimp only
  rw [hcompany.listens]
  trivial

theorem Surely.deadlinePassed (deadline : Option (Nat -> Bool)) :
    Surely (Run.deadlinePassed deadline : Run ε Bool) fun _ => True := by
  intro log _
  cases deadline <;> trivial

end Run

variable {company : Company ε} {config : Config} {request : AssemblyRequest}
  {files : Table String}

namespace Repair

theorem collect_unaided (hcompany : company.Unaided) {options : Options}
    (hfixes : options.autoFixExports = false) (pass : Nat) (files : Table String)
    (report : Report) (missing : List MissingFile) :
    Surely (collect company options pass files report missing) fun written =>
      written = ([], []) := by
  unfold collect fixesFor
  rw [generatorFor_none hcompany.generate, hcompany.fixes, hfixes]
  refine Surely.bind (Surely.ret rfl) ?_
  rintro generated rfl
  dsimp only
  refine Surely.ite (fun _ => ?_) fun _ => ?_
  · refine Surely.bind (Surely.ret rfl) ?_
    rintro fixes rfl
    exact Surely.ret rfl
  · refine Surely.bind (Surely.ret rfl) ?_
    rintro fixes rfl
    exact Surely.ret rfl

theorem passes_unaided (hcompany : company.Unaided)
    (hfixes : (request.optionsIn config).autoFixExports = false) (left : Nat)
    (start : RepairState) :
    Surely (passes company config request left start) fun done =>
      done.state.files = start.files := by
  unfold passes
  refine Surely.bind (Surely.emit hcompany _) fun _ _ => ?_
  refine Surely.ite (fun _ => Surely.ret rfl) fun _ => ?_
  cases left with
  | zero =>
      exact Surely.ret rfl
  | succ left =>
      refine Surely.bind (Surely.deadlinePassed _) fun late _ => ?_
      refine Surely.ite (fun _ => Surely.ret rfl) fun _ => ?_
      refine Surely.bind (collect_unaided hcompany hfixes _ _ _ _) ?_
      rintro _ rfl
      exact Surely.ret rfl

end Repair

namespace Assembly

theorem unlessLate_unaided (hcompany : company.Unaided) {label : String} {p : Progress}
    {phase : Run ε Progress} (hphase : Surely phase fun next => next.files = p.files) :
    Surely (unlessLate company request label p phase) fun next => next.files = p.files := by
  unfold unlessLate
  refine Surely.bind (Surely.deadlinePassed _) fun late _ =>
    Surely.ite (fun _ => ?_) fun _ => hphase
  unfold skip
  exact Surely.bind (Surely.emit hcompany _) fun _ _ => Surely.ret rfl

theorem dependencyPhase_unaided (hcompany : company.Unaided) (options : Options) (p : Progress) :
    Surely (dependencyPhase company config request options p) fun next =>
      next.files = p.files := by
  unfold dependencyPhase
  refine Surely.ite (fun _ => unlessLate_unaided hcompany ?_) fun _ => Surely.ret rfl
  refine Surely.bind (Surely.emit hcompany _) fun _ _ => ?_
  refine Surely.bind (Surely.emit hcompany _) fun _ _ => ?_
  exact Surely.bind (Surely.emit hcompany _) fun _ _ => Surely.ret rfl

theorem validationPhase_unaided (hcompany : company.Unaided)
    (hfixes : (request.optionsIn config).autoFixExports = false) (p : Progress) :
    Surely (validationPhase company config request (request.optionsIn config) p) fun next =>
      next.files = p.files := by
  unfold validationPhase
  refine Surely.ite (fun _ => unlessLate_unaided hcompany ?_) fun _ => Surely.ret rfl
  refine Surely.bind (Surely.emit hcompany _) fun _ _ => ?_
  refine Surely.bind (Repair.passes_unaided hcompany hfixes _ _) fun mended hmended => ?_
  exact Surely.bind (Surely.emit hcompany _) fun _ _ => Surely.ret hmended

theorem run_inspects (hcompany : company.Unaided) (hinspects : request.Inspects config files)
    {s : FileSet}
    (hseed : FileSet.seed false (files.entries.map fun entry => (entry.1, some entry.2)) = .ok s) :
    Surely (run company config request) fun result => result.files = s.files := by
  unfold run
  dsimp only
  rw [hinspects.existing, FileSet.seed_strict, hseed, hinspects.workOrders, PhaseGroup.group_nil]
  refine Surely.bind (Surely.ret rfl) ?_
  rintro applied rfl
  unfold dropPlurals
  rw [hinspects.plurals]
  refine Surely.bind (Surely.ret rfl) ?_
  rintro single rfl
  refine Surely.bind (dependencyPhase_unaided hcompany _ _) fun listed hlisted => ?_
  refine Surely.bind (validationPhase_unaided hcompany hinspects.fixes _)
    fun validated hvalidated => ?_
  refine Surely.ret ?_
  show validated.files.files = s.files
  rw [hvalidated, hlisted]

theorem assemble_inspects_of_error (hinspects : request.Inspects config files) {e : InputError}
    (hseed : FileSet.seed false (files.entries.map fun entry => (entry.1, some entry.2)) = .error e)
    {locks : Locks} (hfree : locks.isLocked request.projectId = false) :
    (assemble company config locks request).result = .error (.failed (.input e)) := by
  rw [assemble_of_free company config request hfree]
  unfold run
  dsimp only
  rw [hinspects.existing, FileSet.seed_strict, hseed]
  rfl

theorem assemble_inspects (hcompany : company.Unaided) (hinspects : request.Inspects config files)
    {s : FileSet}
    (hseed : FileSet.seed false (files.entries.map fun entry => (entry.1, some entry.2)) = .ok s)
    {locks : Locks} (hfree : locks.isLocked request.projectId = false) :
    exists result, (assemble company config locks request).result = .ok result ∧
      result.files = s.files ∧ Describes config request result := by
  rw [assemble_of_free company config request hfree]
  obtain ⟨later, result, hrun, hfiles⟩ :=
    (run_inspects hcompany hinspects hseed).exists_value {}
  refine ⟨result, ?_, hfiles, run_describes.of_eq hrun⟩
  rw [hrun]
  rfl

end Assembly
end Joinery
