import Mathlib.Data.List.Perm.Subperm

/-!
# Lists without repetitions

## Each element once

A list that loses its repetitions keeps the first occurrence of each element, and one that
has none stays as it is.  Two lists without repetitions share as many elements one way as
the other, so that their lengths differ as their differences do.
-/

namespace Joinery

variable {α : Type}

theorem nodup_eraseDups [BEq α] [LawfulBEq α] (l : List α) : l.eraseDups.Nodup := by
  match l with
  | [] =>
      exact List.nodup_nil
  | a :: rest =>
      rw [List.eraseDups_cons, List.nodup_cons, List.mem_eraseDups]
      refine ⟨?_, nodup_eraseDups (rest.filter fun b => !b == a)⟩
      simp
termination_by l.length
decreasing_by
  exact Nat.lt_succ_of_le (List.length_filter_le _ _)

theorem eraseDups_of_nodup [BEq α] [LawfulBEq α] {l : List α} (h : l.Nodup) : l.eraseDups = l := by
  induction l with
  | nil =>
      rfl
  | cons a rest ih =>
      obtain ⟨hnew, hrest⟩ := List.nodup_cons.mp h
      have hkept : (rest.filter fun b => !b == a) = rest := by
        refine List.filter_eq_self.mpr ?_
        intro b hb
        have hne : ¬ b = a := by
          rintro rfl
          exact hnew hb
        simpa using hne
      rw [List.eraseDups_cons, hkept, ih hrest]

theorem eraseDups_concat [DecidableEq α] (l : List α) (a : α) :
    (l ++ [a]).eraseDups = if a ∈ l then l.eraseDups else l.eraseDups ++ [a] := by
  rw [List.eraseDups_append]
  by_cases h : a ∈ l
  · have hgone : [a].removeAll l = [] := by simp [List.removeAll, h]
    rw [if_pos h, hgone]
    exact List.append_nil _
  · have hstays : [a].removeAll l = [a] := by simp [List.removeAll, h]
    rw [if_neg h, hstays]
    rfl

theorem eraseDups_eraseDups_append [DecidableEq α] (l m : List α) :
    (l.eraseDups ++ m).eraseDups = (l ++ m).eraseDups := by
  have hsame : m.removeAll l.eraseDups = m.removeAll l := by simp [List.removeAll]
  rw [List.eraseDups_append, List.eraseDups_append, eraseDups_of_nodup (nodup_eraseDups l), hsame]

theorem pairwise_idxOf [BEq α] [LawfulBEq α] {l : List α} (h : l.Nodup) :
    l.Pairwise fun a b => l.idxOf a < l.idxOf b := by
  refine List.pairwise_iff_getElem.mpr ?_
  intro i j hi hj hlt
  rw [h.idxOf_getElem i hi, h.idxOf_getElem j hj]
  exact hlt

theorem length_add_length_lacking [DecidableEq α] {l m : List α} (hl : l.Nodup) (hm : m.Nodup) :
    l.length + (m.filter fun a => a ∉ l).length = m.length + (l.filter fun a => a ∉ m).length := by
  have hshared : (l.filter fun a => a ∈ m).length = (m.filter fun a => a ∈ l).length := by
    refine ((List.perm_ext_iff_of_nodup (hl.filter _) (hm.filter _)).mpr ?_).length_eq
    intro a
    simp only [List.mem_filter, decide_eq_true_eq]
    exact and_comm
  have hsplit : forall (x y : List α), x.length =
      (x.filter fun a => a ∈ y).length + (x.filter fun a => a ∉ y).length := by
    intro x y
    have hparts := List.length_eq_length_filter_add (l := x) fun a => decide (a ∈ y)
    simpa only [decide_not] using hparts
  have hfirst := hsplit l m
  have hsecond := hsplit m l
  omega

end Joinery
