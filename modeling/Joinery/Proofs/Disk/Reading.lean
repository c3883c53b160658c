import Joinery.Disk.Basic

/-!
# Files are read where they were written

## What a new file leaves in its place

A location leads to a thing by way of directories only.  A file that takes the place of no
directory is in nobody's way, so the same location leads to it again, and what is read there
is what was written.
-/

namespace Joinery

namespace Disk

variable {d : Disk} {names : List String}

/-- A thing that takes the place of no directory is in nobody's way. -/
theorem walk_put (h : d.item? names ≠ some .directory) (item : DiskItem)
    {start rest reached : List String} (hwalk : d.walk start rest = .ok reached) :
    (d.put names item).walk start rest = .ok reached := by
  induction rest generalizing start with
  | nil =>
      exact hwalk
  | cons name rest ih =>
      rw [walk] at hwalk ⊢
      cases hitem : d.item? start with
      | none =>
          rw [hitem] at hwalk
          cases hwalk
      | some here =>
          cases here with
          | file content =>
              rw [hitem] at hwalk
              cases hwalk
          | directory =>
              -- the walk goes on from a directory, and the new thing takes the place of none
              have hne : names ≠ start := by
                rintro rfl
                exact h hitem
              rw [item?_put_other d hne, hitem]
              rw [hitem] at hwalk
              dsimp only at hwalk ⊢
              split at hwalk
              · cases hwalk
              · rename_i hlength
                rw [if_neg hlength]
                exact ih hwalk

theorem reach_put (h : d.item? names ≠ some .directory) (item : DiskItem) {l : Location}
    {reached : List String} (hreach : d.reach l = .ok reached) :
    (d.put names item).reach l = .ok reached := by
  rw [reach] at hreach ⊢
  split at hreach
  · cases hreach
  · rename_i hnull
    split at hreach
    · cases hreach
    · rename_i hlength
      rw [if_neg hnull, if_neg hlength]
      exact walk_put h item hreach

theorem exists_of_write {opened : Disk} {l : Location} {content : ByteArray}
    (h : d.write l content = .ok opened) :
    exists names, d.reach l = .ok names ∧ d.item? names ≠ some .directory ∧
      opened = d.put names (.file content) := by
  rw [write] at h
  cases hreach : d.reach l with
  | error fault =>
      rw [hreach] at h
      cases h
  | ok names =>
      rw [hreach] at h
      dsimp only at h
      split at h
      · cases h
      · rename_i hitem
        cases h
        exact ⟨names, rfl, hitem, rfl⟩

theorem read_of_write {opened : Disk} {l : Location} {first : ByteArray}
    (h : d.write l first = .ok opened) (second : ByteArray) :
    exists saved, opened.write l second = .ok saved ∧ saved.read l = .ok second := by
  obtain ⟨names, hreach, hitem, rfl⟩ := exists_of_write h
  have hne : names ≠ [] := by
    rintro rfl
    exact hitem rfl
  have hopened := reach_put hitem (.file first) hreach
  have hnot : (d.put names (.file first)).item? names ≠ some .directory := by
    simp [hne]
  refine ⟨(d.put names (.file first)).put names (.file second), ?_, ?_⟩
  · simp [write, hopened, hne]
  · have hat : ((d.put names (.file first)).put names (.file second)).at? l =
        .ok (some (.file second)) := by
      rw [at?, reach_put hnot (.file second) hopened]
      simp [Except.map, hne]
    rw [read, hat]

end Disk

end Joinery
