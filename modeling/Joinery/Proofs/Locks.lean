import Joinery.Locks
import Mathlib.Data.List.Basic

/-!
# Blocks that hold projects

## The registry as a stack of blocks

The body of a block that holds a project may hold other projects in blocks of its own.  A registry
knows no owners, and a release takes a project out whoever put it in.  Still the registry always
holds what it held at first and the projects of the blocks that are open, each taken in by its own
block, since a block ends before the ones around it do, also when a failure ends it.

What happens in a tree of blocks is therefore told without a registry, by the blocks around each
block alone.
-/

namespace Joinery
namespace Locks

variable {ε α : Type} {locks held : Locks} {project : String}

theorem isLocked_iff (locks : Locks) (project : String) :
    locks.isLocked project = true <-> project ∈ locks.active :=
  List.contains_iff_mem

/-!
# One block
-/

theorem hold_of_isLocked (h : locks.isLocked project = true)
    (body : Locks -> Locks × Except ε α) :
    locks.hold project body = (locks, .error (.concurrent project)) := by
  unfold hold
  rw [(acquire_eq_none_iff locks project).mpr h]

theorem hold_of_free (h : locks.isLocked project = false) {outcome : Except ε α}
    {body : Locks -> Locks × Except ε α}
    (hbody : body { active := project :: locks.active } =
      ({ active := project :: locks.active }, outcome)) :
    locks.hold project body = (locks, outcome.mapError .inside) := by
  have hheld : locks.acquire project = some { active := project :: locks.active } := by
    unfold acquire
    rw [h]
    rfl
  unfold hold
  rw [hheld]
  dsimp only
  rw [hbody]
  dsimp only
  rw [release_acquire hheld]

/-!
# Trees of blocks
-/

/--
What a body does: it ends, it fails, or it runs a block, after which it goes on unless the block
fails with a failure that is not caught.
-/
inductive Body (ε : Type) where
  | finish
  | raise (error : ε)
  | hold (project : String) (inner : Body ε) (caught : HoldError ε -> Bool) (next : Body ε)

/-- What is seen in a body, with the projects of the blocks around it, the innermost first. -/
inductive Sight where
  /-- a block with this project is not run -/
  | rejected (around : List String) (project : String)
  /-- the body has the turn, before and after each block in it -/
  | running (around : List String) (locks : Locks)
deriving DecidableEq, Repr

/-- What was seen in a body, and the failure that left it. -/
structure Report (ε : Type) where
  sights : List Sight
  failure : Option (HoldError ε)
deriving DecidableEq, Repr

namespace Report

def outcome (report : Report ε) : Except (Report ε) (Report ε) :=
  if report.failure.isSome then .error report else .ok report

def rejected (around : List String) (project : String) : Report ε :=
  { sights := [.rejected around project], failure := some (.concurrent project) }

def ofBlock (around : List String) : Except (HoldError (Report ε)) (Report ε) -> Report ε
  | .ok report => report
  | .error (.inside report) => report
  | .error (.concurrent project) => rejected around project

theorem ofBlock_outcome (around : List String) (report : Report ε) :
    ofBlock around (report.outcome.mapError .inside) = report := by
  unfold outcome
  split <;> rfl

def broken (block : Report ε) : Report ε :=
  { sights := [], failure := block.failure }

def joined (before : Sight) (block after : Report ε) : Report ε :=
  { sights := before :: (block.sights ++ after.sights), failure := after.failure }

end Report

namespace Body

def run (around : List String) (locks : Locks) : Body ε -> Locks × Report ε
  | .finish => (locks, { sights := [.running around locks], failure := none })
  | .raise error => (locks, { sights := [.running around locks], failure := some (.inside error) })
  | .hold project inner caught next =>
      let (after, outcome) := locks.hold project fun held =>
        let (left, report) := run (project :: around) held inner
        (left, report.outcome)
      let block := Report.ofBlock around outcome
      let (last, rest) :=
        if block.failure.all caught then run around after next else (after, block.broken)
      (last, block.joined (.running around locks) rest)

end Body

/-!
# The blocks around
-/

/-- The registry with the projects of some blocks, the innermost first. -/
def holding (locks : Locks) (around : List String) : Locks :=
  { active := around ++ locks.active }

theorem isLocked_holding_iff (locks : Locks) (around : List String) (project : String) :
    (locks.holding around).isLocked project = true <->
      locks.isLocked project = true ∨ project ∈ around := by
  rw [isLocked_iff, isLocked_iff, holding, List.mem_append, or_comm]

namespace Body

/--
What is seen in a body under some blocks, told by these blocks alone.  A block is run if its project
is neither locked from the start nor held by a block around it.
-/
def told (locks : Locks) (around : List String) : Body ε -> Report ε
  | .finish => { sights := [.running around (locks.holding around)], failure := none }
  | .raise error =>
      { sights := [.running around (locks.holding around)], failure := some (.inside error) }
  | .hold project inner caught next =>
      let block :=
        if locks.isLocked project = true ∨ project ∈ around then .rejected around project
        else told locks (project :: around) inner
      let rest := if block.failure.all caught then told locks around next else block.broken
      block.joined (.running around (locks.holding around)) rest

theorem run_eq_told (body : Body ε) (locks : Locks) (around : List String) :
    body.run around (locks.holding around) = (locks.holding around, body.told locks around) := by
  induction body generalizing around with
  | finish =>
      rfl
  | raise error =>
      rfl
  | hold project inner caught next ihInner ihNext =>
      have hlocked := isLocked_holding_iff locks around project
      have hrest : forall block : Report ε,
          (if block.failure.all caught then run around (locks.holding around) next
            else (locks.holding around, block.broken)) =
          (locks.holding around,
            if block.failure.all caught then told locks around next else block.broken) := by
        intro block
        rw [ihNext around]
        split <;> rfl
      rw [run, told]
      by_cases h : (locks.holding around).isLocked project = true
      · rw [hold_of_isLocked h, if_pos (hlocked.mp h)]
        dsimp only [Report.ofBlock]
        rw [hrest]
      · have hfree : (locks.holding around).isLocked project = false := Bool.eq_false_iff.mpr h
        rw [hold_of_free hfree (congrArg (fun ran => (ran.1, ran.2.outcome))
          (ihInner (project :: around))), if_neg (mt hlocked.mpr h)]
        dsimp only
        rw [Report.ofBlock_outcome, hrest]

end Body

/-!
# What is seen
-/

/--
A project is rejected if it is locked from the start or held by a block around.  While a body runs,
the blocks around it hold projects that are neither, and the registry has these and those.
-/
def Sight.Lawful (locks : Locks) : Sight -> Prop
  | .rejected around project => locks.isLocked project = true ∨ project ∈ around
  | .running around seen =>
      around.Nodup ∧ (forall project, project ∈ around -> locks.isLocked project = false) ∧
        forall project, seen.isLocked project = true <->
          locks.isLocked project = true ∨ project ∈ around

namespace Body

theorem lawful_told (body : Body ε) {around : List String} (hnodup : around.Nodup)
    (hfree : forall project, project ∈ around -> locks.isLocked project = false) :
    forall sight, sight ∈ (body.told locks around).sights -> sight.Lawful locks := by
  have hrunning : Sight.Lawful locks (.running around (locks.holding around)) :=
    ⟨hnodup, hfree, isLocked_holding_iff locks around⟩
  -- a block that runs adds its project to the blocks around
  induction body generalizing around with
  | finish =>
      intro sight hsight
      cases List.mem_singleton.mp hsight
      exact hrunning
  | raise error =>
      intro sight hsight
      cases List.mem_singleton.mp hsight
      exact hrunning
  | hold project inner caught next ihInner ihNext =>
      have hafter : forall (block : Report ε) (sight : Sight),
          sight ∈ (if block.failure.all caught then told locks around next
            else block.broken).sights -> sight.Lawful locks := by
        intro block sight hsight
        split at hsight
        · exact ihNext hnodup hfree hrunning sight hsight
        · cases hsight
      intro sight hsight
      rw [told] at hsight
      rcases List.mem_cons.mp hsight with rfl | hsight
      · exact hrunning
      rcases List.mem_append.mp hsight with hblock | hrest
      · split at hblock
        · next hlocked =>
            cases List.mem_singleton.mp hblock
            exact hlocked
        · next hopen =>
            rw [not_or, Bool.not_eq_true] at hopen
            have hnodup' : (project :: around).Nodup := List.nodup_cons.mpr ⟨hopen.2, hnodup⟩
            have hfree' : forall other, other ∈ project :: around ->
                locks.isLocked other = false := by
              intro other hother
              rcases List.mem_cons.mp hother with rfl | hother
              · exact hopen.1
              · exact hfree other hother
            exact ihInner hnodup' hfree'
              ⟨hnodup', hfree', isLocked_holding_iff locks (project :: around)⟩ sight hblock
      · exact hafter _ sight hrest

/--
However the blocks of a tree end, the registry is what it was, each block is run or not as the
blocks around it tell, and what is seen in between is lawful.
-/
theorem run_balanced (locks : Locks) (body : Body ε) :
    (body.run [] locks).1 = locks ∧ (body.run [] locks).2 = body.told locks [] ∧
      forall sight, sight ∈ (body.run [] locks).2.sights -> sight.Lawful locks := by
  have hrun : body.run [] locks = (locks, body.told locks []) := body.run_eq_told locks []
  rw [hrun]
  constructor
  · rfl
  constructor
  · rfl
  · apply body.lawful_told List.nodup_nil
    intro project hproject
    cases hproject

/-- Inside two blocks the project of the outer one is rejected; a block around catches this. -/
example :
    (Body.hold "p" (.hold "q" (.hold "p" .finish (fun _ => false) .finish) (fun _ => true) .finish)
        (fun _ => false) (.raise ()) : Body Unit).run [] { active := ["r"] } =
      ({ active := ["r"] },
        { sights :=
            [.running [] { active := ["r"] }, .running ["p"] { active := ["p", "r"] },
              .running ["q", "p"] { active := ["q", "p", "r"] }, .rejected ["q", "p"] "p",
              .running ["p"] { active := ["p", "r"] }, .running [] { active := ["r"] }]
          failure := some (.inside ()) }) := by
  decide

end Body
end Locks
end Joinery
