import Joinery.Proofs.Assembly.Locking
import Joinery.Proofs.Assembly.Overwriting

/-!
# The calls of collaborators

## How often they are asked, and who is to blame

In one pass each collaborator is asked at most once, and in the last one of so many passes as are
allowed nobody is asked.  A run of passes that does not come to its end was stopped by somebody's
failure, or it was handed a work order that is not acceptable, and then a collaborator wrote this
work order when it was asked.
-/

namespace Joinery

namespace Run

variable {ε α β : Type} {company : Company ε} {kind : Call -> Bool} {most : Nat}

/-!
# How often somebody is asked
-/

/-- The run makes at most so many calls of a kind, also if it fails. -/
def Asks (kind : Call -> Bool) (most : Nat) (m : Run ε α) : Prop :=
  forall log, callCount kind (m log).1 ≤ callCount kind log + most

theorem Asks.nobody {m : Run ε α} (h : forall log, (m log).1.calls = log.calls) :
    Asks kind most m := by
  intro log
  unfold callCount
  rw [h log]
  exact Nat.le_add_right _ _

theorem Asks.ret (a : α) : Asks kind most (pure a : Run ε α) :=
  Asks.nobody fun _ => rfl

theorem Asks.bind {first later : Nat} {m : Run ε α} {next : α -> Run ε β} (hm : Asks kind first m)
    (hnext : forall a, Asks kind later (next a)) (hsum : first + later ≤ most) :
    Asks kind most (m >>= next) := by
  intro log
  have hfirst := hm log
  cases hrun : m log with
  | mk mid outcome =>
      rw [hrun] at hfirst
      have hmid : callCount kind mid ≤ callCount kind log + first := hfirst
      cases outcome with
      | ok a =>
          rw [bind_of_ok hrun]
          have hlater := hnext a mid
          omega
      | error e =>
          rw [bind_of_error hrun]
          show callCount kind mid ≤ _
          omega

theorem Asks.after {m : Run ε α} {next : α -> Run ε β} (hm : Asks kind 0 m)
    (hnext : forall a, Asks kind most (next a)) : Asks kind most (m >>= next) :=
  Asks.bind hm hnext (Nat.le_of_eq (Nat.zero_add _))

theorem Asks.before {m : Run ε α} {next : α -> Run ε β} (hm : Asks kind most m)
    (hnext : forall a, Asks kind 0 (next a)) : Asks kind most (m >>= next) :=
  Asks.bind hm hnext (Nat.le_refl _)

theorem Asks.ite {b : Bool} {m n : Run ε α} (hm : Asks kind most m) (hn : Asks kind most n) :
    Asks kind most (if b then m else n) := by
  cases b with
  | true =>
      exact hm
  | false =>
      exact hn

theorem Asks.emit (event : Event) : Asks kind most (Run.emit company event) := by
  refine Asks.nobody ?_
  intro log
  unfold Run.emit
  dsimp only
  split <;> rfl

theorem Asks.emitAll (events : List Event) : Asks kind most (Run.emitAll company events) := by
  induction events generalizing most with
  | nil =>
      exact Asks.ret ()
  | cons event rest ih =>
      exact Asks.after (Asks.emit event) fun _ => ih

theorem Asks.deadlinePassed (deadline : Option (Nat -> Bool)) :
    Asks kind most (Run.deadlinePassed deadline : Run ε Bool) := by
  refine Asks.nobody ?_
  intro log
  cases deadline <;> rfl

theorem Asks.applyOrders (orders : List WorkOrder) (s : FileSet) (count : Nat) :
    Asks kind most (Run.applyOrders company s count orders) := by
  induction orders generalizing s count with
  | nil =>
      exact Asks.ret _
  | cons order rest ih =>
      unfold Run.applyOrders
      cases s.apply order with
      | error e =>
          exact Asks.nobody fun _ => rfl
      | ok applied =>
          exact Asks.after (Asks.emitAll _) fun _ => ih _ _

def weight (kind : Call -> Bool) (call : Call) : Nat :=
  if kind call then 1 else 0

@[simp] theorem callCount_append (kind : Call -> Bool) (log : Log) (call : Call) :
    callCount kind { log with calls := log.calls ++ [call] } =
      callCount kind log + weight kind call := by
  unfold callCount weight
  rw [List.filter_append, List.length_append, List.filter_singleton]
  cases kind call <;> rfl

theorem answered_log (log : Log) (answer : Except ε α) : (answered log answer).1 = log := by
  cases answer <;> rfl

theorem Asks.askFixes (provider : Nat -> FixRequest -> Except ε (List WorkOrder))
    (request : FixRequest) :
    Asks kind (weight kind (.fixes request)) (Run.askFixes provider request) := by
  intro log
  unfold Run.askFixes
  rw [answered_log, callCount_append]

theorem Asks.askMissing
    (provider : Nat -> List MissingFile -> Table String -> Except ε (List WorkOrder))
    (missing : List MissingFile) (files : Table String) :
    Asks kind (weight kind (.missing missing files)) (Run.askMissing provider missing files) := by
  intro log
  unfold Run.askMissing
  rw [answered_log, callCount_append]

end Run

namespace Repair

open Run

variable {ε : Type} {company : Company ε} {config : Config} {request : AssemblyRequest}
  {kind : Call -> Bool} {strict : Bool}

/-!
# The calls of passes
-/

def OfOne (kind : Call -> Bool) : Prop :=
  forall request missing files,
    weight kind (.missing missing files) + weight kind (.fixes request) ≤ 1

theorem ofOne_isFixCall : OfOne isFixCall :=
  fun _ _ _ => Nat.le_refl 1

theorem ofOne_not_isFixCall : OfOne fun c => !isFixCall c :=
  fun _ _ _ => Nat.le_refl 1

theorem Asks.fixesFor (options : Options) (wanted : FixRequest) :
    Asks kind (weight kind (.fixes wanted)) (Repair.fixesFor company options wanted) := by
  unfold Repair.fixesFor
  cases company.fixes with
  | none =>
      exact Asks.ret _
  | some given =>
      exact Asks.askFixes given wanted

theorem Asks.repairsFor (options : Options) (report : Report) (wanted : FixRequest) :
    Asks kind (weight kind (.fixes wanted))
      (Repair.repairsFor company options report wanted) :=
  Asks.ite (Asks.ret _) (Asks.fixesFor options wanted)

theorem Asks.generatedFor (options : Options) (files : Table String)
    (missing : List MissingFile) :
    Asks kind (weight kind (.missing missing files))
      (Repair.generatedFor company options files missing) := by
  rcases generatedFor_cases company options files missing with heq | ⟨generate, _, heq⟩
  · rw [heq]
    exact Asks.ret _
  · rw [heq]
    exact Asks.askMissing generate missing files

theorem Asks.collect (hone : OfOne kind) (options : Options) (pass : Nat) (files : Table String)
    (report : Report) (missing : List MissingFile) :
    Asks kind 1 (Repair.collect company options pass files report missing) := by
  rw [collect_eq]
  refine Asks.bind (Asks.generatedFor options files missing) (fun _ =>
    Asks.before (Asks.repairsFor options report _) fun _ => Asks.ret _) ?_
  exact hone _ missing files

theorem Asks.applyCollected (state : RepairState) (generated fixes : List WorkOrder) :
    Asks kind 0 (Repair.applyCollected company state generated fixes) := by
  unfold Repair.applyCollected
  refine Asks.after (Asks.applyOrders _ _ _) fun _ => ?_
  refine Asks.after (Asks.emitAll _) fun _ => ?_
  exact Asks.after (Asks.applyOrders _ _ _) fun _ => Asks.ret _

theorem Asks.turn (hone : OfOne kind) (start : RepairState) :
    Asks kind 1 (turn company config request start) := by
  unfold Repair.turn
  refine Asks.after (Asks.emit _) fun _ => Asks.ite (Asks.ret _) ?_
  refine Asks.after (Asks.deadlinePassed _) fun _ => Asks.ite (Asks.ret _) ?_
  refine Asks.before (Asks.collect hone _ _ _ _ _) fun _ => ?_
  refine Asks.ite (Asks.ret _) ?_
  exact Asks.after (Asks.applyCollected _ _ _) fun _ => Asks.ret _

theorem Asks.passes (hone : OfOne kind) (left : Nat) (start : RepairState) :
    Asks kind left (Repair.passes company config request left start) := by
  induction left generalizing start with
  | zero =>
      rw [passes_zero rfl]
      exact Asks.after (Asks.emit _) fun _ => Asks.ret _
  | succ left ih =>
      rw [passes_eq_turn]
      refine Asks.bind (Asks.turn hone start) ?_ (Nat.le_of_eq (Nat.add_comm 1 left))
      rintro (done | t)
      · exact Asks.ret done
      · exact ih t.next

/-!
# Who wrote a work order
-/

/--
The work order was written by the repair of exports for one of these snapshots, or by a collaborator
in one of these calls.
-/
inductive Wrote (company : Company ε) (config : Config) (request : AssemblyRequest)
    (snapshots : List (Table String)) (calls : List Call) (order : WorkOrder) : Prop where
  | repair {files : Table String} {pass : Int} {missing : List MissingFile} :
      company.fixes = none -> files ∈ snapshots ->
      order ∈ ExportFix.ordersFor ((request.validator config files).request files pass missing) ->
      Wrote company config request snapshots calls order
  | fixes {provider : Nat -> FixRequest -> Except ε (List WorkOrder)} {before after : List Call}
      {wanted : FixRequest} {orders : List WorkOrder} :
      company.fixes = some provider -> calls = before ++ .fixes wanted :: after ->
      provider (before.filter isFixCall).length wanted = .ok orders -> order ∈ orders ->
      Wrote company config request snapshots calls order
  | generator {provider : Nat -> List MissingFile -> Table String -> Except ε (List WorkOrder)}
      {before after : List Call} {missing : List MissingFile} {files : Table String}
      {orders : List WorkOrder} :
      company.generate = some provider -> calls = before ++ .missing missing files :: after ->
      provider (before.filter fun c => !isFixCall c).length missing files = .ok orders ->
      order ∈ orders -> Wrote company config request snapshots calls order

/-- Somebody failed on the last thing that was told or asked, or wrote what is not acceptable. -/
def Spoiled (company : Company ε) (config : Config) (request : AssemblyRequest)
    (snapshots : List (Table String)) (strict : Bool) (log : Log) : Prop :=
  (exists e, company.Blamed log e) ∨
    exists order, Wrote company config request snapshots log.calls order ∧ ¬ order.IsValid strict

variable {snapshots others : List (Table String)} {calls : List Call} {order : WorkOrder}

theorem Wrote.append (h : Wrote company config request snapshots calls order) (more : List Call) :
    Wrote company config request snapshots (calls ++ more) order := by
  cases h with
  | repair hnone hfiles horder =>
      exact .repair hnone hfiles horder
  | @fixes provider before after wanted orders hprovider hcalls hanswer horder =>
      have hlonger : calls ++ more = before ++ .fixes wanted :: (after ++ more) := by
        rw [hcalls, List.append_assoc, List.cons_append]
      exact .fixes hprovider hlonger hanswer horder
  | @generator provider before after missing files orders hprovider hcalls hanswer horder =>
      have hlonger : calls ++ more = before ++ .missing missing files :: (after ++ more) := by
        rw [hcalls, List.append_assoc, List.cons_append]
      exact .generator hprovider hlonger hanswer horder

theorem Wrote.mono (h : Wrote company config request snapshots calls order)
    (hsub : forall files, files ∈ snapshots -> files ∈ others) :
    Wrote company config request others calls order := by
  cases h with
  | repair hnone hfiles horder =>
      exact .repair hnone (hsub _ hfiles) horder
  | fixes hprovider hcalls hanswer horder =>
      exact .fixes hprovider hcalls hanswer horder
  | generator hprovider hcalls hanswer horder =>
      exact .generator hprovider hcalls hanswer horder

theorem Spoiled.mono {log : Log} (h : Spoiled company config request snapshots strict log)
    (hsub : forall files, files ∈ snapshots -> files ∈ others) :
    Spoiled company config request others strict log := by
  rcases h with hblamed | ⟨order, hwrote, hinvalid⟩
  · exact Or.inl hblamed
  · exact Or.inr ⟨order, hwrote.mono hsub, hinvalid⟩

/-!
# What stops a pass
-/

theorem Contract.emitBlamed (event : Event) :
    Contract (fun log => log.calls = calls) (Run.emit company event)
      (fun _ log => log.calls = calls) (Spoiled company config request snapshots strict) := by
  rintro log rfl
  have hblamed := @Accountable.emit ε company event log
  unfold Run.emit at hblamed ⊢
  dsimp only at hblamed ⊢
  cases hlistener : company.onEvent (log.events ++ [event]) with
  | none =>
      rfl
  | some e =>
      rw [hlistener] at hblamed
      exact Or.inl ⟨e, hblamed _ e rfl⟩

theorem Contract.emitAllBlamed (events : List Event) :
    Contract (fun log => log.calls = calls) (Run.emitAll company events)
      (fun _ log => log.calls = calls) (Spoiled company config request snapshots strict) := by
  induction events with
  | nil =>
      exact Contract.ret fun _ h => h
  | cons event rest ih =>
      exact Contract.bind (Contract.emitBlamed event) fun _ => ih

theorem Contract.applyWritten {orders : List WorkOrder} {s : FileSet} {count : Nat}
    (h : forall order, order ∈ orders -> Wrote company config request snapshots calls order) :
    Contract (fun log => log.calls = calls) (Run.applyOrders company s count orders)
      (fun done log => done.1.strict = s.strict ∧ log.calls = calls)
      (Spoiled company config request snapshots s.strict) := by
  induction orders generalizing s count with
  | nil =>
      exact Contract.ret fun _ hlog => ⟨rfl, hlog⟩
  | cons order rest ih =>
      unfold Run.applyOrders
      cases happly : s.apply order with
      | error e =>
          refine Contract.fail ?_
          rintro log rfl
          refine Or.inr ⟨order, h order (List.mem_cons_self ..), ?_⟩
          intro hvalid
          rw [FileSet.apply_eq hvalid] at happly
          cases happly
      | ok applied =>
          obtain ⟨next, counts⟩ := applied
          obtain ⟨_, _, hstrict⟩ := FileSet.apply_files happly
          refine Contract.bind (Contract.emitAllBlamed _) fun _ => ?_
          have hrest := @ih next (count + counts.total) fun o ho =>
            h o (List.mem_cons_of_mem _ ho)
          rw [hstrict] at hrest
          exact hrest

abbrev AllWritten (company : Company ε) (config : Config) (request : AssemblyRequest)
    (snapshots : List (Table String)) (orders : List WorkOrder) (log : Log) : Prop :=
  forall order, order ∈ orders -> Wrote company config request snapshots log.calls order

theorem Contract.askFixes {provider : Nat -> FixRequest -> Except ε (List WorkOrder)}
    (hprovider : company.fixes = some provider) (wanted : FixRequest)
    (earlier : List WorkOrder) :
    Contract (AllWritten company config request snapshots earlier)
      (Run.askFixes provider wanted)
      (fun orders => AllWritten company config request snapshots (earlier ++ orders))
      (Spoiled company config request snapshots strict) := by
  intro log hearlier
  have hblamed := Accountable.askFixes hprovider wanted log
  unfold Run.askFixes answered at hblamed ⊢
  cases hanswer : provider (callCount isFixCall log) wanted with
  | ok orders =>
      intro order horder
      rcases List.mem_append.mp horder with hmem | hmem
      · exact (hearlier order hmem).append _
      · exact .fixes hprovider rfl hanswer hmem
  | error e =>
      rw [hanswer] at hblamed
      exact Or.inl ⟨e, hblamed _ e rfl⟩

theorem Contract.askMissing
    {provider : Nat -> List MissingFile -> Table String -> Except ε (List WorkOrder)}
    (hprovider : company.generate = some provider) (missing : List MissingFile)
    (files : Table String) :
    Contract (fun _ => True) (Run.askMissing provider missing files)
      (AllWritten company config request snapshots)
      (Spoiled company config request snapshots strict) := by
  intro log _
  have hblamed := Accountable.askMissing hprovider missing files log
  unfold Run.askMissing answered at hblamed ⊢
  cases hanswer : provider (callCount (fun c => !isFixCall c) log) missing files with
  | ok orders =>
      intro order horder
      exact .generator hprovider rfl hanswer horder
  | error e =>
      rw [hanswer] at hblamed
      exact Or.inl ⟨e, hblamed _ e rfl⟩

theorem Contract.fixesFor {files : Table String} (hfiles : files ∈ snapshots) (options : Options)
    (pass : Int) (missing : List MissingFile) (earlier : List WorkOrder) :
    Contract (AllWritten company config request snapshots earlier)
      (Repair.fixesFor company options
        ((request.validator config files).request files pass missing))
      (fun orders => AllWritten company config request snapshots (earlier ++ orders))
      (Spoiled company config request snapshots strict) := by
  unfold Repair.fixesFor
  cases hprovider : company.fixes with
  | none =>
      refine Contract.ret ?_
      intro log hearlier order horder
      rcases List.mem_append.mp horder with hmem | hmem
      · exact hearlier order hmem
      · split at hmem
        · exact .repair hprovider hfiles hmem
        · cases hmem
  | some given =>
      exact Contract.askFixes hprovider _ earlier

theorem Contract.generatedFor (options : Options) (files : Table String)
    (missing : List MissingFile) :
    Contract (fun _ => True) (Repair.generatedFor company options files missing)
      (AllWritten company config request snapshots)
      (Spoiled company config request snapshots strict) := by
  rcases generatedFor_cases company options files missing with heq | ⟨_, hprovider, heq⟩
  · rw [heq]
    refine Contract.ret ?_
    intro _ _ order horder
    cases horder
  · rw [heq]
    exact Contract.askMissing hprovider missing files

theorem Contract.repairsFor {files : Table String} (hfiles : files ∈ snapshots)
    (options : Options) (report : Report) (pass : Int) (missing : List MissingFile)
    (earlier : List WorkOrder) :
    Contract (AllWritten company config request snapshots earlier)
      (Repair.repairsFor company options report
        ((request.validator config files).request files pass missing))
      (fun orders => AllWritten company config request snapshots (earlier ++ orders))
      (Spoiled company config request snapshots strict) := by
  refine Contract.ite (fun _ => Contract.ret ?_) fun _ =>
    Contract.fixesFor hfiles options pass missing earlier
  intro log hearlier order horder
  exact hearlier order (by simpa using horder)

theorem Contract.collect {files : Table String} (hfiles : files ∈ snapshots) (options : Options)
    (pass : Nat) (missing : List MissingFile) :
    Contract (fun _ => True)
      (Repair.collect company options pass files
        ((request.validator config files).validate files) missing)
      (fun written => AllWritten company config request snapshots (written.1 ++ written.2))
      (Spoiled company config request snapshots strict) := by
  rw [collect_eq]
  refine Contract.bind (Contract.generatedFor options files missing) fun generated => ?_
  exact Contract.bind (Contract.repairsFor hfiles options _ pass missing generated) fun _ =>
    Contract.ret fun _ hlog => hlog

theorem Contract.applyCollectedWritten (state : RepairState) (generated fixes : List WorkOrder) :
    Contract (AllWritten company config request snapshots (generated ++ fixes))
      (Repair.applyCollected company state generated fixes)
      (fun next _ => next.files.strict = state.files.strict)
      (Spoiled company config request snapshots state.files.strict) := by
  intro log hwrote
  have hgenerated := fun order horder => hwrote order (List.mem_append_left fixes horder)
  have hfixes := fun order horder => hwrote order (List.mem_append_right generated horder)
  have hall : Contract (fun later => later.calls = log.calls)
      (Repair.applyCollected company state generated fixes)
      (fun next _ => next.files.strict = state.files.strict)
      (Spoiled company config request snapshots state.files.strict) := by
    unfold Repair.applyCollected
    refine Contract.bind (Contract.applyWritten hgenerated) ?_
    rintro ⟨written, _⟩ later ⟨hstrict, hlater⟩
    refine Contract.bind (Contract.emitAllBlamed _) (fun _ => ?_) later hlater
    have happly := @Contract.applyWritten ε company config request snapshots log.calls fixes
      written 0 hfixes
    rw [show written.strict = state.files.strict from hstrict] at happly
    exact Contract.bind happly fun _ => Contract.ret fun _ hdone => hdone.1
  exact hall log rfl

theorem Contract.turn (start : RepairState) :
    Contract (fun _ => True) (turn company config request start)
      (fun outcome _ => forall t, outcome = .inr t -> t.next.files.strict = start.files.strict)
      (Spoiled company config request [start.files.files] start.files.strict) := by
  have hlast : forall {pre : Log -> Prop} (done : Repaired),
      Contract pre (pure (.inl done) : Run ε (Repaired ⊕ Turn))
        (fun outcome _ => forall t, outcome = .inr t -> t.next.files.strict = start.files.strict)
        (Spoiled company config request [start.files.files] start.files.strict) := by
    intro pre done
    refine Contract.ret ?_
    rintro _ _ t ⟨⟩
  have htell : forall event : Event,
      Contract (fun _ => True) (Run.emit company event) (fun _ _ => True)
        (Spoiled company config request [start.files.files] start.files.strict) := by
    intro event log _
    exact Contract.weaken (Contract.emitBlamed event) (fun _ h => h) (fun _ _ _ => trivial)
      (fun _ h => h) log rfl
  have hclock : Contract (fun _ => True) (Run.deadlinePassed request.deadline : Run ε Bool)
      (fun _ _ => True)
      (Spoiled company config request [start.files.files] start.files.strict) := by
    intro log _
    cases request.deadline <;> trivial
  unfold Repair.turn
  refine Contract.bind (htell _) fun _ => Contract.ite (fun _ => hlast _) fun _ => ?_
  refine Contract.bind hclock fun _ => Contract.ite (fun _ => hlast _) fun _ => ?_
  refine Contract.bind (Contract.collect (List.mem_singleton_self _) _ _ _) fun written => ?_
  refine Contract.ite (fun _ => hlast _) fun _ => ?_
  refine Contract.bind (Contract.applyCollectedWritten _ _ _) fun next => Contract.ret ?_
  rintro log hstrict t ⟨⟩
  exact hstrict

/-!
# What stops the passes
-/

def snapshotsFrom (company : Company ε) (config : Config) (request : AssemblyRequest) :
    Nat -> RepairState -> Log -> List (Table String)
  | 0, start, _ => [start.files.files]
  | left + 1, start, log =>
      start.files.files ::
        match turn company config request start log with
        | (later, .ok (.inr t)) => snapshotsFrom company config request left t.next later
        | _ => []

theorem snapshotsFrom_of_turn {left : Nat} {start : RepairState} {log later : Log} {t : Turn}
    (h : turn company config request start log = (later, .ok (.inr t))) :
    snapshotsFrom company config request (left + 1) start log =
      start.files.files :: snapshotsFrom company config request left t.next later := by
  rw [snapshotsFrom, h]

theorem mem_snapshotsFrom (left : Nat) (start : RepairState) (log : Log) :
    start.files.files ∈ snapshotsFrom company config request left start log := by
  cases left with
  | zero =>
      exact List.mem_singleton_self _
  | succ left =>
      exact List.mem_cons_self ..

theorem spoiled_of_passes {left : Nat} {start : RepairState} {log later : Log} {e : Failure ε}
    (h : passes company config request left start log = (later, .error e)) :
    Spoiled company config request (snapshotsFrom company config request left start log)
      start.files.strict later := by
  induction left generalizing start log with
  | zero =>
      have hends : Contract (fun later => later.calls = log.calls)
          (passes company config request 0 start) (fun _ _ => True)
          (Spoiled company config request [start.files.files] start.files.strict) := by
        rw [passes_zero rfl]
        exact Contract.bind (Contract.emitBlamed _) fun _ => Contract.ret fun _ _ => trivial
      have hlater := hends log rfl
      rw [h] at hlater
      exact hlater
  | succ left ih =>
      rw [passes_eq_turn] at h
      have hturn := @Contract.turn ε company config request start log trivial
      cases hfirst : turn company config request start log with
      | mk mid outcome =>
          rw [hfirst] at hturn
          cases outcome with
          | error failure =>
              rw [bind_of_error hfirst] at h
              cases h
              refine Spoiled.mono hturn ?_
              intro files hfiles
              rw [List.mem_singleton.mp hfiles]
              exact mem_snapshotsFrom _ _ _
          | ok side =>
              rw [bind_of_ok hfirst] at h
              cases side with
              | inl done =>
                  cases h
              | inr t =>
                  have hrest := ih h
                  rw [hturn t rfl] at hrest
                  rw [snapshotsFrom_of_turn hfirst]
                  exact hrest.mono fun files hfiles => List.mem_cons_of_mem _ hfiles

end Repair
end Joinery
