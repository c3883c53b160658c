import Mathlib.Data.List.Basic

/-!
# Pieces of a text

Lemmas on texts that are cut at a separator and put together again, beside those of the
library: one letter more in front, the number of the pieces, and what the pieces have in
common with the text.
-/

namespace Joinery
namespace Text

variable {α : Type}

/-!
# Putting pieces together
-/

theorem intercalate_cons (sep : α) (piece : List α) {pieces : List (List α)} (hne : pieces ≠ []) :
    [sep].intercalate (piece :: pieces) = piece ++ sep :: [sep].intercalate pieces := by
  rw [List.intercalate_cons_of_ne_nil hne, List.append_assoc, List.singleton_append]

theorem intercalate_append (sep : α) {pieces more : List (List α)} (hne : pieces ≠ [])
    (hmore : more ≠ []) :
    [sep].intercalate (pieces ++ more) =
      [sep].intercalate pieces ++ sep :: [sep].intercalate more := by
  induction pieces with
  | nil =>
      exact absurd rfl hne
  | cons first rest ih =>
      by_cases hrest : rest = []
      · subst hrest
        rw [List.intercalate_singleton]
        exact intercalate_cons sep first hmore
      · rw [List.cons_append, intercalate_cons sep first (by simp [hrest]), ih hrest,
          intercalate_cons sep first hrest, List.append_assoc, List.cons_append]

theorem intercalate_concat (sep : α) {pieces : List (List α)} (hne : pieces ≠ [])
    (piece : List α) :
    [sep].intercalate (pieces ++ [piece]) = [sep].intercalate pieces ++ sep :: piece := by
  rw [intercalate_append sep hne (List.cons_ne_nil piece []), List.intercalate_singleton]

theorem intercalate_append_intercalate (sep : α) (front : List (List α)) (last first : List α)
    (rest : List (List α)) :
    [sep].intercalate (front ++ [last]) ++ [sep].intercalate (first :: rest) =
      [sep].intercalate (front ++ (last ++ first) :: rest) := by
  induction front with
  | nil =>
      rw [List.nil_append, List.nil_append, List.intercalate_singleton]
      by_cases hrest : rest = []
      · subst hrest
        rw [List.intercalate_singleton, List.intercalate_singleton]
      · rw [intercalate_cons sep first hrest, intercalate_cons sep _ hrest, List.append_assoc]
  | cons piece front ih =>
      rw [List.cons_append, intercalate_cons sep piece (by simp), List.cons_append,
        intercalate_cons sep piece (by simp), List.append_assoc, List.cons_append, ih]

theorem mem_intercalate_iff {sep c : α} (hc : c ≠ sep) {pieces : List (List α)} :
    c ∈ [sep].intercalate pieces <-> exists piece, piece ∈ pieces ∧ c ∈ piece := by
  induction pieces with
  | nil =>
      simp
  | cons piece rest ih =>
      by_cases hrest : rest = []
      · subst hrest
        simp
      · rw [intercalate_cons sep piece hrest]
        simp [hc, ih]

theorem intercalate_of_pieces {p : List α -> Prop} {sep : α} (hempty : p []) (hsep : p [sep])
    (happend : forall {front text}, p front -> p text -> p (front ++ text))
    {pieces : List (List α)} (h : forall piece, piece ∈ pieces -> p piece) :
    p ([sep].intercalate pieces) := by
  induction pieces with
  | nil =>
      exact hempty
  | cons piece pieces ih =>
      have hpiece := h piece (List.mem_cons_self ..)
      have hpieces := ih fun other hother => h other (List.mem_cons_of_mem _ hother)
      by_cases hnil : pieces = []
      · rwa [hnil, List.intercalate_singleton]
      · rw [List.intercalate_cons_of_ne_nil hnil, List.append_assoc]
        exact happend hpiece (happend hsep hpieces)

theorem intercalate_take_prefix (sep : α) (pieces : List (List α)) (count : Nat) :
    [sep].intercalate (pieces.take count) <+: [sep].intercalate pieces := by
  by_cases htake : pieces.take count = []
  · rw [htake]
    exact List.nil_prefix
  by_cases hdrop : pieces.drop count = []
  · have hall : pieces.take count = pieces := by
      have hjoined := List.take_append_drop count pieces
      rwa [hdrop, List.append_nil] at hjoined
    exact ⟨[], by rw [hall, List.append_nil]⟩
  · have hjoined := intercalate_append sep htake hdrop
    rw [List.take_append_drop] at hjoined
    rw [hjoined]
    exact List.prefix_append _ _

/-!
# Cutting a text
-/

theorem splitOn_cons_of_ne [BEq α] [LawfulBEq α] {sep c : α} (h : c ≠ sep) {text piece : List α}
    {pieces : List (List α)} (htext : List.splitOn sep text = piece :: pieces) :
    List.splitOn sep (c :: text) = (c :: piece) :: pieces := by
  rw [List.splitOn_cons_eq_if_modifyHead, if_neg (by simpa using h), htext, List.modifyHead_cons]

@[simp] theorem splitOn_cons_self [BEq α] [LawfulBEq α] (sep : α) (text : List α) :
    List.splitOn sep (sep :: text) = [] :: List.splitOn sep text :=
  List.splitOn_append_cons_self_of_not_mem List.not_mem_nil text

theorem not_mem_of_mem_splitOn [DecidableEq α] {sep : α} {text piece : List α}
    (h : piece ∈ List.splitOn sep text) : sep ∉ piece := by
  induction text generalizing piece with
  | nil =>
      cases List.mem_singleton.mp h
      exact List.not_mem_nil
  | cons c rest ih =>
      by_cases hc : c = sep
      · subst hc
        rw [splitOn_cons_self] at h
        rcases List.mem_cons.mp h with rfl | h
        · exact List.not_mem_nil
        · exact ih h
      · obtain ⟨first, pieces, hpieces⟩ := List.exists_cons_of_ne_nil (List.splitOn_ne_nil sep rest)
        rw [splitOn_cons_of_ne hc hpieces] at h
        rw [hpieces] at ih
        rcases List.mem_cons.mp h with rfl | h
        · intro hmem
          rcases List.mem_cons.mp hmem with heq | hmem
          · exact hc heq.symm
          · exact ih (List.mem_cons_self ..) hmem
        · exact ih (List.mem_cons_of_mem _ h)

theorem subset_of_mem_splitOn [DecidableEq α] {sep : α} {text piece : List α}
    (h : piece ∈ List.splitOn sep text) : piece ⊆ text := by
  intro c hc
  have hne : c ≠ sep := by
    rintro rfl
    exact not_mem_of_mem_splitOn h hc
  have hjoined : [sep].intercalate (List.splitOn sep text) = text := List.intercalate_splitOn sep
  rw [<- hjoined, mem_intercalate_iff hne]
  exact ⟨piece, h, hc⟩

theorem length_splitOn [DecidableEq α] (sep : α) (text : List α) :
    (List.splitOn sep text).length = text.count sep + 1 := by
  induction text with
  | nil =>
      rfl
  | cons c rest ih =>
      by_cases hc : c = sep
      · subst hc
        rw [splitOn_cons_self, List.length_cons, ih, List.count_cons_self]
      · obtain ⟨piece, pieces, hpieces⟩ :=
          List.exists_cons_of_ne_nil (List.splitOn_ne_nil sep rest)
        rw [hpieces] at ih
        rw [splitOn_cons_of_ne hc hpieces, List.count_cons_of_ne hc, <- ih]
        rfl

theorem exists_splitOn_append [DecidableEq α] {sep : α} {front : List α} (h : sep ∉ front)
    (rest : List α) :
    exists piece pieces, List.splitOn sep rest = piece :: pieces ∧
      List.splitOn sep (front ++ rest) = (front ++ piece) :: pieces := by
  induction front with
  | nil =>
      obtain ⟨piece, pieces, hpieces⟩ :=
        List.exists_cons_of_ne_nil (List.splitOn_ne_nil sep rest)
      exact ⟨piece, pieces, hpieces, hpieces⟩
  | cons c front ih =>
      have hc : ¬c = sep := fun heq => h (by rw [heq]; exact List.mem_cons_self ..)
      obtain ⟨piece, pieces, hrest, hsplit⟩ := ih fun hmem => h (List.mem_cons_of_mem c hmem)
      exact ⟨piece, pieces, hrest, splitOn_cons_of_ne hc hsplit⟩

theorem splitOn_flatMap_append [DecidableEq α] {sep : α} {pieces : List (List α)}
    (h : forall piece, piece ∈ pieces -> sep ∉ piece) (rest : List α) :
    List.splitOn sep (pieces.flatMap (fun piece => piece ++ [sep]) ++ rest) =
      pieces ++ List.splitOn sep rest := by
  induction pieces with
  | nil =>
      rfl
  | cons piece pieces ih =>
      have hpiece := h piece (List.mem_cons_self ..)
      have hrest := ih fun other hother => h other (List.mem_cons_of_mem piece hother)
      rw [List.flatMap_cons, List.append_assoc, List.append_assoc, List.singleton_append,
        List.splitOn_append_cons_self_of_not_mem hpiece, hrest]
      rfl

end Text
end Joinery
