import Joinery.Path.Normal
import Joinery.Proofs.Path.Canonical
import Joinery.Proofs.Text.Pieces

/-!
# What a normal form looks like

## Segments that are settled

The normal form of a path that does not start with a slash is made of segments between
single slashes: some steps to the parent directory first, then names.  Nothing of this
is changed when the normal form is taken again.
-/

namespace Joinery

namespace Path

open Text

/-- A segment that names something: it is neither empty nor made of one or two dots. -/
def IsName (segment : List Char) : Prop :=
  segment ≠ [] ∧ segment ≠ ['.'] ∧ segment ≠ ['.', '.']

instance (segment : List Char) : Decidable (IsName segment) :=
  inferInstanceAs (Decidable (_ ∧ _))

/-- Segments, the last one first, that are names behind steps to the parent directory. -/
inductive Settled : List (List Char) -> Prop
  | nil : Settled []
  | parent {below : List (List Char)}
      (h : forall segment, segment ∈ below -> segment = ['.', '.']) :
      Settled (['.', '.'] :: below)
  | name {segment : List Char} {below : List (List Char)} (hname : IsName segment)
      (h : Settled below) : Settled (segment :: below)

namespace Settled

variable {segments : List (List Char)}

theorem of_parents (h : forall segment, segment ∈ segments -> segment = ['.', '.']) :
    Settled segments := by
  cases segments with
  | nil =>
      exact nil
  | cons segment below =>
      obtain rfl := h segment (List.mem_cons_self ..)
      exact parent fun s hs => h s (List.mem_cons_of_mem _ hs)

theorem tail {segment : List Char} (h : Settled (segment :: segments)) : Settled segments := by
  cases h with
  | parent h =>
      exact of_parents h
  | name _ h =>
      exact h

theorem ne_nil (h : Settled segments) {segment : List Char} (hmem : segment ∈ segments) :
    segment ≠ [] := by
  induction h with
  | nil =>
      cases hmem
  | parent h =>
      rcases List.mem_cons.mp hmem with rfl | hmem
      · exact List.cons_ne_nil _ _
      · rw [h segment hmem]
        exact List.cons_ne_nil _ _
  | name hname _ ih =>
      rcases List.mem_cons.mp hmem with rfl | hmem
      · exact hname.1
      · exact ih hmem

theorem pushSegment (h : Settled segments) (segment : List Char) :
    Settled (Path.pushSegment false segments segment) := by
  unfold Path.pushSegment
  split
  · exact h
  · next hdot =>
      rw [Bool.or_eq_true, decide_eq_true_eq, decide_eq_true_eq, not_or] at hdot
      split
      · next hparent =>
          subst hparent
          cases segments with
          | nil =>
              exact parent fun s hs => by cases hs
          | cons last below =>
              dsimp only
              split
              · next hlast =>
                  subst hlast
                  refine parent ?_
                  intro s hs
                  rcases List.mem_cons.mp hs with rfl | hs
                  · rfl
                  · cases h with
                    | parent h =>
                        exact h s hs
                    | name hname _ =>
                        exact absurd rfl hname.2.2
              · exact h.tail
      · next hparent =>
          exact name ⟨hdot.1, hdot.2, hparent⟩ h

theorem foldl (h : Settled segments) (more : List (List Char)) :
    Settled (more.foldl (Path.pushSegment false) segments) := by
  induction more generalizing segments with
  | nil =>
      exact h
  | cons segment rest ih =>
      exact ih (h.pushSegment segment)

theorem foldl_reverse (h : Settled segments) :
    segments.reverse.foldl (Path.pushSegment false) [] = segments := by
  have hstep : forall {segment : List Char} {below : List (List Char)},
      Settled (segment :: below) -> Path.pushSegment false below segment = segment :: below := by
    intro segment below h
    cases h with
    | parent h =>
        cases below with
        | nil =>
            rfl
        | cons last below =>
            obtain rfl := h last (List.mem_cons_self ..)
            rfl
    | name hname _ =>
        unfold Path.pushSegment
        rw [if_neg (by simp [hname.1, hname.2.1]), if_neg hname.2.2]
  induction segments with
  | nil =>
      rfl
  | cons segment below ih =>
      rw [List.reverse_cons, List.foldl_append, ih h.tail]
      exact hstep h

end Settled

theorem slashFree_foldl {segments more : List (List Char)}
    (h : forall segment, segment ∈ segments -> '/' ∉ segment)
    (hmore : forall segment, segment ∈ more -> '/' ∉ segment) :
    forall segment, segment ∈ more.foldl (pushSegment false) segments -> '/' ∉ segment := by
  induction more generalizing segments with
  | nil =>
      exact h
  | cons next rest ih =>
      refine ih ?_ fun s hs => hmore s (List.mem_cons_of_mem _ hs)
      have hnext := hmore next (List.mem_cons_self ..)
      have hcons : forall segment, segment ∈ next :: segments -> '/' ∉ segment := by
        intro segment hmem
        rcases List.mem_cons.mp hmem with rfl | hmem
        · exact hnext
        · exact h segment hmem
      unfold pushSegment
      split
      · exact h
      · split
        · cases segments with
          | nil =>
              exact hcons
          | cons last below =>
              dsimp only
              split
              · exact hcons
              · exact fun s hs => h s (List.mem_cons_of_mem _ hs)
        · exact hcons

/-!
# Normal forms
-/

/-- Two paths mean one place of the project: their normal forms differ by leading slashes only. -/
def SameLocation (path other : String) : Prop :=
  (normalChars path.toList).dropWhile (fun c => c == '/') =
    (normalChars other.toList).dropWhile fun c => c == '/'

instance (path other : String) : Decidable (SameLocation path other) :=
  inferInstanceAs (Decidable (_ = _))

theorem normal_eq_self_iff {path : String} :
    normal path = path <-> normalChars path.toList = path.toList := by
  unfold normal
  constructor
  · intro h
    have hchars := congrArg String.toList h
    rwa [String.toList_ofList] at hchars
  · intro h
    rw [h, String.ofList_toList]

/-- A normal form that does not start with a slash, and that names something. -/
def IsNormal (path : List Char) : Prop :=
  exists segments, segments ≠ [] ∧ Settled segments ∧
    (forall segment, segment ∈ segments -> '/' ∉ segment) ∧
    path = ['/'].intercalate segments.reverse

theorem leadingSlashes_of_head {path : List Char} (h : path.head? ≠ some '/') :
    leadingSlashes path = 0 := by
  have hsplit := List.takeWhile_append_dropWhile (p := fun c => c == '/') (l := path)
  rw [dropWhile_slash_of_head h] at hsplit
  have hnone : path.takeWhile (fun c => c == '/') = [] := List.append_left_eq_self.mp hsplit
  unfold leadingSlashes
  rw [hnone]
  rfl

theorem normalChars_eq {path : List Char} (h : path.head? ≠ some '/') :
    normalChars path =
      let joined := ['/'].intercalate ((List.splitOn '/' path).foldl (pushSegment false) []).reverse
      if joined.isEmpty then ['.'] else joined := by
  unfold normalChars
  rw [leadingSlashes_of_head h]
  rfl

theorem intercalate_reverse_ne_nil {segments : List (List Char)} (hne : segments ≠ [])
    (h : Settled segments) : ['/'].intercalate segments.reverse ≠ [] := by
  cases segments with
  | nil =>
      exact absurd rfl hne
  | cons last below =>
      rw [List.reverse_cons]
      by_cases hbelow : below = []
      · subst hbelow
        rw [List.reverse_nil, List.nil_append, List.intercalate_singleton]
        exact h.ne_nil (List.mem_cons_self ..)
      · rw [intercalate_concat '/' (by simpa using hbelow)]
        simp

theorem normalChars_cases {path : List Char} (h : path.head? ≠ some '/') :
    normalChars path = ['.'] ∨ IsNormal (normalChars path) := by
  rw [normalChars_eq h]
  dsimp only
  split
  · exact Or.inl rfl
  · next hjoined =>
      refine Or.inr ⟨_, ?_, Settled.nil.foldl _, ?_, rfl⟩
      · intro hnone
        rw [hnone] at hjoined
        exact hjoined rfl
      · refine slashFree_foldl ?_ fun segment hmem => not_mem_of_mem_splitOn hmem
        intro segment hmem
        cases hmem

theorem IsNormal.ne_nil {path : List Char} (h : IsNormal path) : path ≠ [] := by
  obtain ⟨segments, hne, hsettled, _, rfl⟩ := h
  exact intercalate_reverse_ne_nil hne hsettled

theorem IsNormal.getLast? {path : List Char} (h : IsNormal path) :
    path.getLast? ≠ some '/' := by
  obtain ⟨segments, hne, hsettled, hfree, rfl⟩ := h
  cases segments with
  | nil =>
      exact absurd rfl hne
  | cons last below =>
      have hlast : last.getLast? ≠ some '/' := fun hslash =>
        hfree last (List.mem_cons_self ..) (List.mem_of_getLast? hslash)
      rw [List.reverse_cons]
      by_cases hbelow : below = []
      · subst hbelow
        rw [List.reverse_nil, List.nil_append, List.intercalate_singleton]
        exact hlast
      · rw [intercalate_concat '/' (by simpa using hbelow), List.getLast?_append]
        have hnil : last ≠ [] := hsettled.ne_nil (List.mem_cons_self ..)
        rw [List.getLast?_cons, List.getLast?_eq_some_getLast hnil]
        rw [List.getLast?_eq_some_getLast hnil] at hlast
        exact hlast

theorem IsNormal.head {path : List Char} (h : IsNormal path) : path.head? ≠ some '/' := by
  obtain ⟨segments, hne, hsettled, hfree, rfl⟩ := h
  cases hreverse : segments.reverse with
  | nil =>
      exact absurd (List.reverse_eq_nil_iff.mp hreverse) hne
  | cons first rest =>
      have hmem : first ∈ segments := by
        rw [<- List.mem_reverse, hreverse]
        exact List.mem_cons_self ..
      cases first with
      | nil =>
          exact absurd rfl (hsettled.ne_nil hmem)
      | cons c tail =>
          rw [List.intercalate_cons_cons_left]
          intro hhead
          cases hhead
          exact hfree _ hmem (List.mem_cons_self ..)

theorem IsNormal.normalChars_eq {path : List Char} (h : IsNormal path) :
    normalChars path = path := by
  have hhead := h.head
  obtain ⟨segments, hne, hsettled, hfree, rfl⟩ := h
  have hne' : segments.reverse ≠ [] := by simpa using hne
  have hfree' : forall segment, segment ∈ segments.reverse -> '/' ∉ segment :=
    fun segment hmem => hfree segment (List.mem_reverse.mp hmem)
  have hempty : (['/'].intercalate segments.reverse).isEmpty = false := by
    rw [List.isEmpty_eq_false_iff]
    exact intercalate_reverse_ne_nil hne hsettled
  rw [Path.normalChars_eq hhead, List.splitOn_intercalate _ hfree' hne', hsettled.foldl_reverse]
  dsimp only
  rw [hempty]
  rfl

theorem head?_normalChars {path : List Char} (h : path.head? = some '/') :
    (normalChars path).head? = some '/' := by
  cases path with
  | nil =>
      cases h
  | cons c rest =>
      cases h
      have hslashes : exists more, leadingSlashes ('/' :: rest) = more + 1 := by
        unfold leadingSlashes
        rw [List.takeWhile_cons_of_pos (by rfl)]
        by_cases hcount : ('/' :: rest.takeWhile fun c => c == '/').length = 2
        · exact ⟨1, if_pos hcount⟩
        · exact ⟨0, (if_neg hcount).trans (by simp)⟩
      obtain ⟨more, hmore⟩ := hslashes
      unfold normalChars
      rw [hmore]
      rfl

/-!
# Longer paths
-/

theorem IsNormal.child {path name : List Char} (h : IsNormal path) (hname : IsName name)
    (hfree : '/' ∉ name) : IsNormal (path ++ '/' :: name) := by
  obtain ⟨segments, hne, hsettled, hsegments, rfl⟩ := h
  refine ⟨name :: segments, List.cons_ne_nil _ _, .name hname hsettled, ?_, ?_⟩
  · intro segment hmem
    rcases List.mem_cons.mp hmem with rfl | hmem
    · exact hfree
    · exact hsegments segment hmem
  · rw [List.reverse_cons, intercalate_concat '/' (by simpa using hne)]

theorem isNormal_name {name : List Char} (hname : IsName name) (hfree : '/' ∉ name) :
    IsNormal name := by
  refine ⟨[name], List.cons_ne_nil _ _, .name hname .nil, ?_, by simp⟩
  intro segment hmem
  rw [List.mem_singleton.mp hmem]
  exact hfree

/--
An extension that leaves normal forms normal: what stands behind a slash of it is a name, and it
does not start with `./`.
-/
def IsPlainExtension (extension : String) : Prop :=
  extension ≠ "" ∧ ¬['.', '/'] <+: extension.toList ∧
    forall segment, segment ∈ (List.splitOn '/' extension.toList).tail -> IsName segment

instance (extension : String) : Decidable (IsPlainExtension extension) :=
  inferInstanceAs (Decidable (_ ∧ _ ∧ _))

theorem Settled.names {segments names : List (List Char)} (h : Settled segments)
    (hnames : forall segment, segment ∈ names -> IsName segment) :
    Settled (names.reverse ++ segments) := by
  induction names generalizing segments with
  | nil =>
      exact h
  | cons first rest ih =>
      rw [List.reverse_cons, List.append_assoc]
      exact ih (.name (hnames first (List.mem_cons_self ..)) h) fun s hs =>
        hnames s (List.mem_cons_of_mem _ hs)

theorem Settled.lengthen {last : List Char} {below : List (List Char)}
    (h : Settled (last :: below)) (more : List Char) : Settled ((last ++ more) :: below) := by
  cases more with
  | nil =>
      rw [List.append_nil]
      exact h
  | cons c more =>
      have hne : last ≠ [] := h.ne_nil (List.mem_cons_self ..)
      have hdot : last ≠ ['.'] := by
        cases h with
        | parent _ =>
            decide
        | name hname _ =>
            exact hname.2.1
      refine .name ⟨by simp, ?_, ?_⟩ h.tail
      · intro heq
        rcases List.append_eq_singleton_iff.mp heq with ⟨hnil, _⟩ | ⟨_, hnil⟩
        · exact hne hnil
        · cases hnil
      · intro heq
        match last, hne, hdot, heq with
        | [], hne, _, _ =>
            exact hne rfl
        | [first], _, hdot, heq =>
            cases heq
            exact hdot rfl
        | first :: second :: rest, _, _, heq =>
            simp at heq

theorem exists_splitOn (extension : String) :
    exists first rest, List.splitOn '/' extension.toList = first :: rest ∧
      extension.toList = ['/'].intercalate (first :: rest) ∧
      (forall segment, segment ∈ first :: rest -> '/' ∉ segment) := by
  cases hpieces : List.splitOn '/' extension.toList with
  | nil =>
      exact absurd hpieces (List.splitOn_ne_nil '/' _)
  | cons first rest =>
      refine ⟨first, rest, rfl, ?_, ?_⟩
      · rw [<- hpieces, List.intercalate_splitOn]
      · intro segment hmem
        rw [<- hpieces] at hmem
        exact not_mem_of_mem_splitOn hmem

theorem IsNormal.extend {path : List Char} (h : IsNormal path) {extension : String}
    (hplain : IsPlainExtension extension) : IsNormal (path ++ extension.toList) := by
  obtain ⟨segments, hne, hsettled, hsegments, rfl⟩ := h
  obtain ⟨first, rest, hpieces, hjoin, hfree⟩ := exists_splitOn extension
  have hnames : forall segment, segment ∈ rest -> IsName segment := by
    intro segment hmem
    refine hplain.2.2 segment ?_
    rw [hpieces]
    exact hmem
  cases segments with
  | nil =>
      exact absurd rfl hne
  | cons last below =>
      refine ⟨rest.reverse ++ (last ++ first) :: below, by simp,
        (hsettled.lengthen first).names hnames, ?_, ?_⟩
      · intro segment hmem
        rcases List.mem_append.mp hmem with hmem | hmem
        · exact hfree segment (List.mem_cons_of_mem _ (List.mem_reverse.mp hmem))
        · rcases List.mem_cons.mp hmem with rfl | hmem
          · have hlast := hsegments last (List.mem_cons_self ..)
            have hfirst := hfree first (List.mem_cons_self ..)
            simp [hlast, hfirst]
          · exact hsegments segment (List.mem_cons_of_mem _ hmem)
      · rw [hjoin, List.reverse_cons, intercalate_append_intercalate]
        simp

theorem normalChars_extension {extension : String} (hplain : IsPlainExtension extension)
    (hhead : extension.toList.head? ≠ some '/') :
    normalChars extension.toList = extension.toList := by
  obtain ⟨hne, hstart, hnames⟩ := hplain
  obtain ⟨first, rest, hpieces, hjoin, hfree⟩ := exists_splitOn extension
  rw [hpieces, List.tail_cons] at hnames
  by_cases hdot : first = ['.']
  · subst hdot
    cases rest with
    | nil =>
        rw [hjoin]
        decide
    | cons next rest =>
        refine absurd ⟨['/'].intercalate (next :: rest), ?_⟩ hstart
        rw [hjoin]
        rfl
  · have hfirst : first ≠ [] := by
      rintro rfl
      cases rest with
      | nil =>
          refine hne ?_
          rw [<- String.toList_eq_nil_iff, hjoin]
          rfl
      | cons next rest =>
          rw [hjoin] at hhead
          exact hhead rfl
    have hsettled : Settled [first] := by
      by_cases hparent : first = ['.', '.']
      · rw [hparent]
        exact .parent fun s hs => by cases hs
      · exact .name ⟨hfirst, hdot, hparent⟩ .nil
    refine IsNormal.normalChars_eq ⟨rest.reverse ++ [first], by simp, hsettled.names hnames, ?_, ?_⟩
    · intro segment hmem
      refine hfree segment ?_
      rw [<- List.mem_reverse, List.reverse_cons]
      exact hmem
    · rw [hjoin]
      simp

end Path
end Joinery
