/-!
# Project locks

## One assembly at a time

A registry keeps the projects that are being assembled.  A project is taken into it
before its assembly and taken out after it, however the assembly ends.
-/

namespace Joinery

/--
The projects that are locked.  A release takes a project out wherever it stands, so it makes no
difference whether one is listed twice.
-/
structure Locks where
  active : List String := []
deriving DecidableEq, Repr

namespace Locks

def isLocked (locks : Locks) (project : String) : Bool :=
  locks.active.contains project

def acquire (locks : Locks) (project : String) : Option Locks :=
  if locks.isLocked project then none else some { active := project :: locks.active }

def release (locks : Locks) (project : String) : Locks :=
  { active := locks.active.filter fun p => p ≠ project }

/-- Why a project could not be held, or what its holder failed with. -/
inductive HoldError (ε : Type) where
  | concurrent (project : String)
  | inside (error : ε)
deriving DecidableEq, Repr

def concurrentMessage (project : String) : String :=
  "Assembly already running for project '" ++ project ++ "'"

def hold (locks : Locks) (project : String) (body : Locks -> Locks × Except ε α) :
    Locks × Except (HoldError ε) α :=
  match locks.acquire project with
  | none => (locks, .error (.concurrent project))
  | some held =>
      let (after, outcome) := body held
      (after.release project, outcome.mapError .inside)

/-!
# Who is locked after a step
-/

theorem acquire_eq_none_iff (locks : Locks) (project : String) :
    locks.acquire project = none ↔ locks.isLocked project = true := by
  unfold acquire
  split <;> simp_all

theorem release_acquire {locks held : Locks} {project : String}
    (h : locks.acquire project = some held) : held.release project = locks := by
  unfold acquire at h
  split at h
  · cases h
  · next hfree =>
      cases h
      have hnot : project ∉ locks.active := by simpa [isLocked] using hfree
      have hkeep : (locks.active.filter fun p => p ≠ project) = locks.active :=
        List.filter_eq_self.mpr fun p hp => by
          simpa using fun heq : p = project => hnot (heq ▸ hp)
      show Locks.mk ((project :: locks.active).filter fun p => p ≠ project) = locks
      rw [List.filter_cons_of_neg (by simp), hkeep]

end Locks
end Joinery
