import Joinery.Path.Canonical
import Mathlib.Data.List.Basic
import Mathlib.Data.List.TakeWhile

/-!
# What a key looks like

## Keys that are their own keys

A key has no backslash, no slash at its start, no two slashes together and no blank at
its end.  It may begin, though, with a blank or with a dot and a slash, where these only
came to the front when the slashes before them were taken away.  Exactly then the key,
taken as a path, has another key than itself.
-/

namespace Joinery

namespace Text

def EndsTight (text : List Char) : Prop :=
  forall c, text.getLast? = some c -> isBlank c = false

theorem EndsTight.of_suffix {text rest : List Char} (h : EndsTight text) (hrest : rest <:+ text) :
    EndsTight rest := by
  intro c hc
  obtain ⟨front, rfl⟩ := hrest
  refine h c ?_
  rw [List.getLast?_append, hc]
  rfl

theorem endsTight_trim (text : List Char) : EndsTight (trim text) := by
  intro c hc
  unfold trim trimEnd dropEnd at hc
  rw [List.getLast?_reverse] at hc
  have h := List.head?_dropWhile_not isBlank (dropStart isBlank text).reverse
  rw [hc] at h
  exact h

theorem trim_of_tight {text : List Char}
    (hstart : forall c, text.head? = some c -> isBlank c = false) (hend : EndsTight text) :
    trim text = text := by
  have hfirst : dropStart isBlank text = text := by
    cases text with
    | nil =>
        rfl
    | cons c rest =>
        unfold dropStart
        rw [List.dropWhile_cons, hstart c rfl]
        rfl
  have hlast : text.reverse.dropWhile isBlank = text.reverse := by
    cases hreverse : text.reverse with
    | nil =>
        rfl
    | cons c front =>
        have hc : text.getLast? = some c := by
          rw [<- List.head?_reverse, hreverse]
          rfl
        rw [List.dropWhile_cons, hend c hc]
        rfl
  unfold trim trimEnd dropEnd
  rw [hfirst, hlast, List.reverse_reverse]

theorem trimEnd_append {after : List Char} (hafter : forall c, c ∈ after -> isBlank c = true)
    (text : List Char) : trimEnd (text ++ after) = trimEnd text := by
  have hreverse : forall c, c ∈ after.reverse -> isBlank c = true :=
    fun c hc => hafter c (List.mem_reverse.mp hc)
  unfold trimEnd dropEnd
  rw [List.reverse_append, List.dropWhile_append_of_pos hreverse]

theorem trim_append {before after : List Char}
    (hbefore : forall c, c ∈ before -> isBlank c = true)
    (hafter : forall c, c ∈ after -> isBlank c = true) (text : List Char) :
    trim (before ++ (text ++ after)) = trim text := by
  unfold trim dropStart
  rw [List.dropWhile_append_of_pos hbefore, List.dropWhile_append]
  split
  · next hempty =>
      rw [List.isEmpty_iff.mp hempty, List.dropWhile_eq_nil_iff.mpr hafter]
  · exact trimEnd_append hafter _

theorem trim_subset (text : List Char) : trim text ⊆ text := by
  intro c hc
  unfold trim trimEnd dropEnd at hc
  have hend := (List.dropWhile_sublist _).subset (List.mem_reverse.mp hc)
  exact (List.dropWhile_sublist _).subset (List.mem_reverse.mp hend)

theorem length_trim_le (text : List Char) :
    (trim text).length ≤ (dropStart isBlank text).length := by
  unfold trim trimEnd dropEnd
  rw [List.length_reverse]
  exact le_of_le_of_eq (List.dropWhile_sublist _).length_le List.length_reverse

end Text

namespace Path

open Text

def startsLoose : List Char -> Bool
  | [] => false
  | c :: rest => isBlank c || (c == '.' && rest.head? == some '/')

/-!
# The steps
-/

theorem head?_collapseSlashes (path : List Char) : (collapseSlashes path).head? = path.head? := by
  induction path with
  | nil =>
      rfl
  | cons c rest ih =>
      rw [collapseSlashes]
      split
      · next h =>
          rw [Bool.and_eq_true, decide_eq_true_eq, decide_eq_true_eq] at h
          rw [ih, h.2, h.1]
          rfl
      · rfl

theorem getLast?_collapseSlashes (path : List Char) :
    (collapseSlashes path).getLast? = path.getLast? := by
  induction path with
  | nil =>
      rfl
  | cons c rest ih =>
      rw [collapseSlashes]
      cases rest with
      | nil =>
          simp [collapseSlashes]
      | cons next rest =>
          split
          · rw [ih, List.getLast?_cons_cons]
          · rw [List.getLast?_cons, ih, List.getLast?_cons_cons, List.getLast?_cons]
            rfl

theorem collapseSlashes_sublist (path : List Char) : (collapseSlashes path).Sublist path := by
  induction path with
  | nil =>
      exact List.Sublist.refl _
  | cons c rest ih =>
      rw [collapseSlashes]
      split
      · exact ih.cons c
      · exact ih.cons_cons c

theorem collapseSlashes_collapseSlashes (path : List Char) :
    collapseSlashes (collapseSlashes path) = collapseSlashes path := by
  induction path with
  | nil =>
      rfl
  | cons c rest ih =>
      rw [collapseSlashes]
      split
      · exact ih
      · next h =>
          rw [collapseSlashes, head?_collapseSlashes, if_neg h, ih]

theorem dropDotSlashes_suffix (path : List Char) : dropDotSlashes path <:+ path := by
  fun_induction dropDotSlashes path with
  | case1 rest ih =>
      exact ih.trans ((List.suffix_cons '/' rest).trans (List.suffix_cons '.' _))
  | case2 path _ =>
      exact List.suffix_refl path

theorem forwardSlashes_of_not_mem {path : List Char} (h : '\\' ∉ path) :
    forwardSlashes path = path := by
  unfold forwardSlashes
  refine (List.map_congr_left ?_).trans (List.map_id path)
  intro c hc
  have hne : ¬c = '\\' := fun heq => h (heq ▸ hc)
  rw [if_neg hne]
  rfl

theorem not_mem_forwardSlashes (path : List Char) : '\\' ∉ forwardSlashes path := by
  intro h
  obtain ⟨c, _, hc⟩ := List.mem_map.mp h
  split at hc
  · cases hc
  · next hne =>
      exact hne hc

theorem endsTight_forwardSlashes {path : List Char} (h : EndsTight path) :
    EndsTight (forwardSlashes path) := by
  intro c hc
  unfold forwardSlashes at hc
  rw [List.getLast?_map, Option.map_eq_some_iff] at hc
  obtain ⟨last, hlast, rfl⟩ := hc
  split
  · decide
  · exact h last hlast

theorem dropWhile_slash_of_head {path : List Char} (h : path.head? ≠ some '/') :
    path.dropWhile (fun c => c == '/') = path := by
  cases path with
  | nil =>
      rfl
  | cons c rest =>
      have hne : (c == '/') = false := by
        rw [beq_eq_false_iff_ne]
        rintro rfl
        exact h rfl
      rw [List.dropWhile_cons, hne]
      rfl

/-!
# Keys
-/

/-- What all keys have in common, wherever they come from. -/
structure IsKey (key : List Char) : Prop where
  noBackslash : '\\' ∉ key
  noSlash : key.head? ≠ some '/'
  collapsed : collapseSlashes key = key
  tight : EndsTight key

theorem isKey_canonicalChars (path : List Char) : IsKey (canonicalChars path) := by
  have hsuffix : (dropDotSlashes (forwardSlashes (trim path))).dropWhile (fun c => c == '/') <:+
      forwardSlashes (trim path) :=
    (List.dropWhile_suffix _).trans (dropDotSlashes_suffix _)
  unfold canonicalChars
  refine ⟨?_, ?_, collapseSlashes_collapseSlashes _, ?_⟩
  · intro hmem
    exact not_mem_forwardSlashes (trim path)
      (hsuffix.subset ((collapseSlashes_sublist _).subset hmem))
  · rw [head?_collapseSlashes]
    intro hhead
    have h := List.head?_dropWhile_not (fun c => c == '/')
      (dropDotSlashes (forwardSlashes (trim path)))
    rw [hhead] at h
    cases h
  · intro c hc
    rw [getLast?_collapseSlashes] at hc
    exact (endsTight_forwardSlashes (endsTight_trim path)).of_suffix hsuffix c hc

theorem canonicalChars_of_isKey {key : List Char} (h : IsKey key)
    (hstart : startsLoose key = false) : canonicalChars key = key := by
  have hblank : forall c, key.head? = some c -> isBlank c = false := by
    intro c hc
    cases key with
    | nil =>
        cases hc
    | cons first rest =>
        cases hc
        exact (Bool.or_eq_false_iff.mp hstart).1
  have hdots : dropDotSlashes key = key := by
    fun_cases dropDotSlashes key with
    | case1 rest =>
        cases hstart
    | case2 path _ =>
        rfl
  show collapseSlashes ((dropDotSlashes (forwardSlashes (trim key))).dropWhile _) = key
  rw [trim_of_tight hblank h.tight, forwardSlashes_of_not_mem h.noBackslash, hdots,
    dropWhile_slash_of_head h.noSlash, h.collapsed]

theorem length_canonicalChars_le (path : List Char) :
    (canonicalChars path).length ≤ (dropDotSlashes (forwardSlashes (trim path))).length :=
  Nat.le_trans (collapseSlashes_sublist _).length_le (List.dropWhile_suffix _).length_le

theorem length_canonicalChars_lt {key : List Char} (h : IsKey key)
    (hstart : startsLoose key = true) : (canonicalChars key).length < key.length := by
  refine Nat.lt_of_le_of_lt (length_canonicalChars_le key) ?_
  cases key with
  | nil =>
      cases hstart
  | cons first rest =>
      rcases Bool.or_eq_true_iff.mp hstart with hblank | hdot
      · have hdrop : dropStart isBlank (first :: rest) = dropStart isBlank rest := by
          unfold dropStart
          rw [List.dropWhile_cons, if_pos hblank]
        calc (dropDotSlashes (forwardSlashes (trim (first :: rest)))).length
            ≤ (forwardSlashes (trim (first :: rest))).length :=
              (dropDotSlashes_suffix _).length_le
          _ = (trim (first :: rest)).length := List.length_map _
          _ ≤ (dropStart isBlank rest).length := hdrop ▸ length_trim_le (first :: rest)
          _ ≤ rest.length := (List.dropWhile_sublist _).length_le
          _ < (first :: rest).length := Nat.lt_succ_self _
      · rw [Bool.and_eq_true, beq_iff_eq, beq_iff_eq] at hdot
        obtain ⟨rfl, hslash⟩ := hdot
        obtain ⟨rest, rfl⟩ : exists tail, rest = '/' :: tail := by
          cases rest with
          | nil =>
              cases hslash
          | cons next tail =>
              cases hslash
              exact ⟨tail, rfl⟩
        have htight : trim ('.' :: '/' :: rest) = '.' :: '/' :: rest := by
          refine trim_of_tight ?_ h.tight
          intro c hc
          cases hc
          decide
        rw [htight, forwardSlashes_of_not_mem h.noBackslash, dropDotSlashes]
        have hle := (dropDotSlashes_suffix rest).length_le
        simp only [List.length_cons]
        omega

theorem canonicalChars_eq_self_iff {key : List Char} (h : IsKey key) :
    canonicalChars key = key <-> startsLoose key = false := by
  constructor
  · intro hsame
    cases hstart : startsLoose key with
    | false =>
        rfl
    | true =>
        have hlt := length_canonicalChars_lt h hstart
        rw [hsame] at hlt
        exact absurd hlt (Nat.lt_irrefl _)
  · exact canonicalChars_of_isKey h

theorem isKey_canonical (path : String) : IsKey (canonical path).toList := by
  rw [canonical, String.toList_ofList]
  exact isKey_canonicalChars path.toList

theorem mem_of_mem_canonical {path : String} {c : Char} (hslash : c ≠ '/')
    (h : c ∈ (canonical path).toList) : c ∈ path.toList := by
  rw [canonical, String.toList_ofList] at h
  unfold canonicalChars at h
  have hforward : c ∈ forwardSlashes (trim path.toList) :=
    (dropDotSlashes_suffix _).subset
      ((List.dropWhile_suffix _).subset ((collapseSlashes_sublist _).subset h))
  obtain ⟨given, hgiven, heq⟩ := List.mem_map.mp hforward
  split at heq
  · exact absurd heq.symm hslash
  · rw [<- heq]
    exact trim_subset _ hgiven

theorem canonical_eq_self_iff {key : String} (h : IsKey key.toList) :
    canonical key = key <-> startsLoose key.toList = false := by
  rw [<- canonicalChars_eq_self_iff h, canonical]
  constructor
  · intro hsame
    have hchars := congrArg String.toList hsame
    rwa [String.toList_ofList] at hchars
  · intro hsame
    rw [hsame, String.ofList_toList]

end Path
end Joinery
