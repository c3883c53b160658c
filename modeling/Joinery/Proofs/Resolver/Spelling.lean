import Joinery.Resolver.Basic
import Joinery.Proofs.Path.Normal
import Mathlib.Data.List.TakeWhile

/-!
# The spellings of one target

## Steps through the directories, and aliases

A relative source is read as steps: it stays, goes up to the parent directory or down to a name.
Normal forms come from a stack of segments, and one segment does to the stack what one step does
to the place where it is taken.  So a source whose steps never leave the project has the path of
the place where it ends as its base, however many steps stay.  An alias is put in front of the
names of a path that is in normal form already.
-/

namespace Joinery
namespace Path

open Text

/-!
# Paths made of segments
-/

structure Segment where
  chars : List Char
  named : IsName chars
  slashFree : '/' ∉ chars

/-- The path through these directories to the last segment; the project itself is the empty path. -/
def pathOf (segments : List Segment) : String :=
  String.ofList (['/'].intercalate (segments.map Segment.chars))

variable {segments more place target : List Segment}

theorem isNormal_pathOf (h : segments ≠ []) :
    IsNormal (['/'].intercalate (segments.map Segment.chars)) := by
  have hnames : forall chars, chars ∈ segments.map Segment.chars -> IsName chars ∧ '/' ∉ chars := by
    intro chars hchars
    obtain ⟨segment, _, rfl⟩ := List.mem_map.mp hchars
    exact ⟨segment.named, segment.slashFree⟩
  have hsettled : Settled ((segments.map Segment.chars).reverse ++ []) :=
    Settled.nil.names fun chars hchars => (hnames chars hchars).1
  rw [List.append_nil] at hsettled
  refine ⟨_, by simpa using h, hsettled, ?_, by rw [List.reverse_reverse]⟩
  intro chars hchars
  exact (hnames chars (List.mem_reverse.mp hchars)).2

theorem toList_pathOf (segments : List Segment) :
    (pathOf segments).toList = ['/'].intercalate (segments.map Segment.chars) :=
  String.toList_ofList

theorem isEmpty_pathOf (h : segments ≠ []) : (pathOf segments).isEmpty = false := by
  rw [String.isEmpty_eq_false_iff, ne_eq, <- String.toList_eq_nil_iff, toList_pathOf]
  exact (isNormal_pathOf h).ne_nil

theorem pathOf_append (h : segments ≠ []) (hmore : more ≠ []) :
    pathOf (segments ++ more) = pathOf segments ++ "/" ++ pathOf more := by
  refine String.toList_injective ?_
  rw [String.toList_append, String.toList_append, toList_pathOf, toList_pathOf, toList_pathOf,
    List.map_append, intercalate_append '/' (by simpa using h) (by simpa using hmore)]
  simp

theorem splitLast_append_slash (front : List Char) {name : List Char} (h : '/' ∉ name) :
    splitLast (front ++ '/' :: name) = (front ++ ['/'], name) := by
  have hlast : ((front ++ '/' :: name).reverse.takeWhile fun c => c != '/').reverse = name := by
    rw [List.reverse_append, List.reverse_cons, List.append_assoc,
      List.takeWhile_append_of_pos, List.singleton_append, List.takeWhile_cons_of_neg (by simp),
      List.append_nil, List.reverse_reverse]
    intro c hc
    rw [bne_iff_ne]
    rintro rfl
    exact h (List.mem_reverse.mp hc)
  unfold splitLast
  dsimp only
  rw [hlast]
  have hlength : (front ++ '/' :: name).length - name.length = (front ++ ['/']).length := by
    simp only [List.length_append, List.length_cons, List.length_nil]
    omega
  have htake : (front ++ '/' :: name).take (front ++ ['/']).length = front ++ ['/'] := by
    rw [List.append_cons front '/' name]
    exact List.take_left
  rw [hlength, htake]

theorem splitLast_of_not_mem {name : List Char} (h : '/' ∉ name) : splitLast name = ([], name) := by
  have hall : name.reverse.takeWhile (fun c => c != '/') = name.reverse := by
    refine List.takeWhile_eq_self_iff.mpr ?_
    intro c hc
    rw [bne_iff_ne]
    rintro rfl
    exact h (List.mem_reverse.mp hc)
  unfold splitLast
  dsimp only
  rw [hall, List.reverse_reverse, Nat.sub_self, List.take_zero]

theorem directory_pathOf (segments : List Segment) (name : Segment) :
    directory (pathOf (segments ++ [name])) = pathOf segments := by
  unfold directory
  dsimp only
  rw [toList_pathOf, List.map_append]
  by_cases h : segments = []
  · subst h
    have hsplit : splitLast (['/'].intercalate ([name].map Segment.chars)) = ([], name.chars) := by
      rw [List.map_singleton, List.intercalate_singleton]
      exact splitLast_of_not_mem name.slashFree
    rw [List.map_nil, List.nil_append, hsplit]
    rfl
  · have hnormal := isNormal_pathOf h
    have hsplit :
        splitLast (['/'].intercalate (segments.map Segment.chars ++ [name].map Segment.chars)) =
          (['/'].intercalate (segments.map Segment.chars) ++ ['/'], name.chars) := by
      rw [List.map_singleton, intercalate_concat '/' (by simpa using h)]
      exact splitLast_append_slash _ name.slashFree
    have hrooted : ¬((['/'].intercalate (segments.map Segment.chars) ++ ['/']).all
        fun c => c == '/') = true := by
      intro hall
      cases hchars : ['/'].intercalate (segments.map Segment.chars) with
      | nil =>
          exact hnormal.ne_nil hchars
      | cons c rest =>
          rw [hchars, List.cons_append, List.all_cons, Bool.and_eq_true, beq_iff_eq] at hall
          exact hnormal.head (by rw [hchars, hall.1]; rfl)
    have hlast : (['/'].intercalate (segments.map Segment.chars)).reverse.head? ≠ some '/' := by
      rw [List.head?_reverse]
      exact hnormal.getLast?
    rw [hsplit, if_neg hrooted, List.reverse_append, List.reverse_singleton, List.singleton_append,
      List.dropWhile_cons_of_pos (by rfl), dropWhile_slash_of_head hlast, List.reverse_reverse]
    rfl

/-!
# Steps
-/

/-- One segment of a source: it stays, goes to the parent directory or to a name. -/
inductive Move where
  | here
  | up
  | down (segment : Segment)

namespace Move

def chars : Move -> List Char
  | here => ['.']
  | up => ['.', '.']
  | down segment => segment.chars

def isHere : Move -> Bool
  | here => true
  | _ => false

/-- A source that starts like this is relative. -/
def IsDotted (step : Move) : Prop :=
  forall segment, step ≠ down segment

/-- Where the step leads from a place, the innermost directory first; not out of the project. -/
def lead : Move -> List Segment -> Option (List Segment)
  | here, place => some place
  | up, [] => none
  | up, _ :: parent => some parent
  | down segment, place => some (segment :: place)

@[simp] theorem chars_ne_nil (step : Move) : step.chars ≠ [] := by
  cases step with
  | here =>
      exact List.cons_ne_nil _ _
  | up =>
      exact List.cons_ne_nil _ _
  | down segment =>
      exact segment.named.1

theorem slash_not_mem_chars (step : Move) : '/' ∉ step.chars := by
  cases step with
  | here =>
      decide
  | up =>
      decide
  | down segment =>
      exact segment.slashFree

theorem isDotted_iff {step : Move} :
    step.IsDotted <-> step.chars = ['.'] ∨ step.chars = ['.', '.'] := by
  cases step with
  | here =>
      exact ⟨fun _ => Or.inl rfl, fun _ _ h => by cases h⟩
  | up =>
      exact ⟨fun _ => Or.inr rfl, fun _ _ h => by cases h⟩
  | down segment =>
      refine ⟨fun h => absurd rfl (h segment), ?_⟩
      rintro (h | h)
      · exact absurd h segment.named.2.1
      · exact absurd h segment.named.2.2

theorem pushSegment_of_lead {step : Move} {next : List Segment} (h : step.lead place = some next) :
    pushSegment false (place.map Segment.chars) step.chars = next.map Segment.chars := by
  cases step with
  | here =>
      cases h
      rfl
  | up =>
      cases place with
      | nil =>
          cases h
      | cons inner parent =>
          cases h
          exact if_neg inner.named.2.2
  | down segment =>
      cases h
      have hnamed := segment.named
      unfold pushSegment
      show (if (decide (segment.chars = []) || decide (segment.chars = ['.'])) = true then _ else
        if segment.chars = ['.', '.'] then _ else _) = _
      rw [if_neg (by simp [hnamed.1, hnamed.2.1]), if_neg hnamed.2.2]
      rfl

end Move

def walked (steps : List Move) : String :=
  String.ofList (['/'].intercalate (steps.map Move.chars))

def arrive (place : List Segment) (steps : List Move) : Option (List Segment) :=
  steps.foldlM (fun place step => step.lead place) place

variable {steps : List Move}

theorem foldl_pushSegment_of_arrive (h : arrive place steps = some target) :
    (steps.map Move.chars).foldl (pushSegment false) (place.map Segment.chars) =
      target.map Segment.chars := by
  induction steps generalizing place with
  | nil =>
      cases h
      rfl
  | cons step rest ih =>
      obtain ⟨next, hnext, hrest⟩ := Option.bind_eq_some_iff.mp h
      rw [List.map_cons, List.foldl_cons, Move.pushSegment_of_lead hnext]
      exact ih hrest

@[simp] theorem arrive_append (place : List Segment) (steps rest : List Move) :
    arrive place (steps ++ rest) = (arrive place steps).bind fun next => arrive next rest :=
  List.foldlM_append

theorem arrive_down (place segments : List Segment) :
    arrive place (segments.map .down) = some (segments.reverse ++ place) := by
  induction segments generalizing place with
  | nil =>
      rfl
  | cons first rest ih =>
      show arrive (first :: place) (rest.map .down) = _
      rw [ih, List.reverse_cons, List.append_assoc]
      rfl

theorem arrive_of_filter {aside common rest : List Segment}
    (h : steps.filter (fun step => !step.isHere) =
      List.replicate aside.length .up ++ rest.map .down) :
    arrive (aside ++ common) steps = some (rest.reverse ++ common) := by
  -- The steps up use `aside` up before the first step down, which makes `common` longer.
  induction steps generalizing aside common rest with
  | nil =>
      obtain ⟨haside, hrest⟩ := List.append_eq_nil_iff.mp h.symm
      cases List.map_eq_nil_iff.mp hrest
      cases aside with
      | nil =>
          rfl
      | cons inner outer =>
          cases haside
  | cons step steps ih =>
      cases step with
      | here =>
          exact ih h
      | up =>
          cases aside with
          | nil =>
              cases rest with
              | nil =>
                  cases h
              | cons first rest =>
                  cases (List.cons.inj h).1
          | cons inner outer =>
              exact ih (List.cons.inj h).2
      | down segment =>
          cases aside with
          | nil =>
              cases rest with
              | nil =>
                  cases h
              | cons first rest =>
                  obtain ⟨hfirst, hrest⟩ := List.cons.inj h
                  cases hfirst
                  have hdown : steps.filter (fun step => !step.isHere) =
                      List.replicate ([] : List Segment).length .up ++ rest.map .down := hrest
                  show arrive ([] ++ segment :: common) steps = _
                  rw [ih hdown, List.reverse_cons, List.append_assoc]
                  rfl
          | cons inner outer =>
              cases (List.cons.inj h).1

theorem toList_walked (steps : List Move) :
    (walked steps).toList = ['/'].intercalate (steps.map Move.chars) :=
  String.toList_ofList

theorem pathOf_eq_walked (segments : List Segment) :
    pathOf segments = walked (segments.map .down) := by
  unfold pathOf walked
  rw [List.map_map]
  rfl

theorem splitOn_walked (h : steps ≠ []) :
    List.splitOn '/' (walked steps).toList = steps.map Move.chars := by
  rw [toList_walked]
  refine List.splitOn_intercalate '/' ?_ (by simpa using h)
  intro chars hchars
  obtain ⟨step, _, rfl⟩ := List.mem_map.mp hchars
  exact step.slash_not_mem_chars

theorem head?_walked (steps : List Move) : (walked steps).toList.head? ≠ some '/' := by
  rw [toList_walked]
  cases steps with
  | nil =>
      intro hhead
      cases hhead
  | cons first rest =>
      rw [List.map_cons]
      cases hchars : first.chars with
      | nil =>
          exact absurd hchars first.chars_ne_nil
      | cons c chars =>
          rw [List.intercalate_cons_cons_left]
          intro hhead
          cases hhead
          exact first.slash_not_mem_chars (by rw [hchars]; exact List.mem_cons_self ..)

theorem join_walked (segments : List Segment) (h : steps ≠ []) :
    join (pathOf segments) (walked steps) = walked (segments.map .down ++ steps) := by
  unfold join
  rw [if_neg (head?_walked steps)]
  by_cases hsegments : segments = []
  · subst hsegments
    exact String.empty_append
  · have hlast : ¬(pathOf segments).toList.getLast? = some '/' := by
      rw [toList_pathOf]
      exact (isNormal_pathOf hsegments).getLast?
    rw [if_neg (by simp [isEmpty_pathOf hsegments, hlast])]
    refine String.toList_injective ?_
    rw [String.toList_append, String.toList_append, pathOf_eq_walked, toList_walked, toList_walked,
      toList_walked, List.map_append, intercalate_append '/' (by simpa using hsegments)
        (by simpa using h)]
    simp

end Path

namespace Resolver

open Text Joinery.Path

/-!
# Relative sources
-/

variable {segments place : List Segment} {steps : List Move}

theorem projectPath_walked (h : arrive [] steps = some place) (hplace : place ≠ []) :
    projectPath (walked steps) = pathOf place.reverse := by
  have hsteps : steps ≠ [] := by
    rintro rfl
    cases h
    exact hplace rfl
  have hempty : ¬(walked steps).isEmpty = true := by
    intro hempty
    have hpieces := splitOn_walked hsteps
    rw [String.isEmpty_iff.mp hempty] at hpieces
    have hmem : [] ∈ steps.map Move.chars := hpieces ▸ List.mem_singleton_self []
    obtain ⟨step, _, hchars⟩ := List.mem_map.mp hmem
    exact step.chars_ne_nil hchars
  have hreverse : place.reverse ≠ [] := by simpa using hplace
  have hjoined : (['/'].intercalate (place.reverse.map Segment.chars)).isEmpty = false :=
    List.isEmpty_eq_false_iff.mpr (isNormal_pathOf hreverse).ne_nil
  have hnormal : normal (walked steps) = pathOf place.reverse := by
    have hfold := foldl_pushSegment_of_arrive h
    unfold normal
    rw [normalChars_eq (head?_walked steps), splitOn_walked hsteps]
    dsimp only
    rw [List.map_nil] at hfold
    rw [hfold, <- List.map_reverse, hjoined]
    rfl
  have hdot : ¬pathOf place.reverse = "." := by
    intro hdot
    have hsegments : place.reverse.map Move.down ≠ [] := by simpa using hplace
    have hpieces := splitOn_walked hsegments
    rw [<- pathOf_eq_walked, hdot] at hpieces
    have hmem : ['.'] ∈ (place.reverse.map Move.down).map Move.chars :=
      hpieces ▸ List.mem_singleton_self ['.']
    obtain ⟨step, hstep, hchars⟩ := List.mem_map.mp hmem
    obtain ⟨segment, _, rfl⟩ := List.mem_map.mp hstep
    exact segment.named.2.1 hchars
  unfold projectPath
  rw [if_neg hempty, hnormal]
  exact if_neg hdot

theorem projectPath_pathOf (h : segments ≠ []) :
    projectPath (pathOf segments) = pathOf segments := by
  have harrive : arrive [] (segments.map .down) = some segments.reverse := by
    rw [arrive_down, List.append_nil]
  have hproject := projectPath_walked harrive (by simpa using h)
  rwa [<- pathOf_eq_walked, List.reverse_reverse] at hproject

theorem isRelative_iff {source : String} :
    isRelative source = true <->
      exists first rest, List.splitOn '/' source.toList = first :: rest ∧
        (first = ['.'] ∨ first = ['.', '.']) := by
  have hbegins : forall start : String, beginsWith start source = true <->
      start.toList <+: source.toList :=
    fun start => List.isPrefixOf_iff_prefix
  unfold isRelative
  rw [Bool.or_eq_true, Bool.or_eq_true, Bool.or_eq_true, beq_iff_eq, beq_iff_eq, hbegins, hbegins]
  constructor
  · have hone : '/' ∉ ['.'] := by decide
    have htwo : '/' ∉ ['.', '.'] := by decide
    rintro (((rfl | rfl) | ⟨rest, hrest⟩) | ⟨rest, hrest⟩)
    · exact ⟨['.'], [], rfl, Or.inl rfl⟩
    · exact ⟨['.', '.'], [], rfl, Or.inr rfl⟩
    · refine ⟨['.'], List.splitOn '/' rest, ?_, Or.inl rfl⟩
      rw [<- hrest]
      exact List.splitOn_append_cons_self_of_not_mem hone rest
    · refine ⟨['.', '.'], List.splitOn '/' rest, ?_, Or.inr rfl⟩
      rw [<- hrest]
      exact List.splitOn_append_cons_self_of_not_mem htwo rest
  · rintro ⟨first, rest, hpieces, hfirst⟩
    have hsource : source.toList = ['/'].intercalate (first :: rest) := by
      rw [<- hpieces, List.intercalate_splitOn]
    cases rest with
    | nil =>
        rcases hfirst with rfl | rfl
        · exact Or.inl (Or.inl (Or.inl (String.toList_injective hsource)))
        · exact Or.inl (Or.inl (Or.inr (String.toList_injective hsource)))
    | cons next rest =>
        rcases hfirst with rfl | rfl
        · exact Or.inl (Or.inr ⟨['/'].intercalate (next :: rest), hsource.symm⟩)
        · exact Or.inr ⟨['/'].intercalate (next :: rest), hsource.symm⟩

theorem isRelative_walked (first : Move) (rest : List Move) :
    isRelative (walked (first :: rest)) = true <-> first.IsDotted := by
  rw [isRelative_iff, splitOn_walked (List.cons_ne_nil first rest), Move.isDotted_iff]
  constructor
  · rintro ⟨_, _, hpieces, hfirst⟩
    rwa [(List.cons.inj hpieces).1]
  · intro hfirst
    exact ⟨first.chars, rest.map Move.chars, rfl, hfirst⟩

theorem basePath_walked (r : Resolver) {first : Move} (hfirst : first.IsDotted)
    (h : arrive segments.reverse (first :: steps) = some place) (hplace : place ≠ [])
    (name : Segment) :
    r.basePath (walked (first :: steps)) (pathOf (segments ++ [name])) =
      some (pathOf place.reverse) := by
  have harrive : arrive [] (segments.map .down ++ first :: steps) = some place := by
    rw [arrive_append, arrive_down, List.append_nil]
    exact h
  unfold basePath
  rw [if_pos ((isRelative_walked first steps).mpr hfirst), directory_pathOf,
    join_walked segments (List.cons_ne_nil first steps), projectPath_walked harrive hplace]

/-!
# Aliases
-/

variable {source : String} {entry : String × String}

/-- The source begins with this alias, and with no other alias that is as long. -/
structure IsLongestAlias (r : Resolver) (source : String) (entry : String × String) : Prop where
  listed : entry ∈ r.aliases.entries
  begins : beginsWith entry.1 source = true
  longest : forall other, other ∈ r.aliases.entries -> beginsWith other.1 source = true ->
    other ≠ entry -> other.1.toList.length < entry.1.toList.length

theorem longestAlias_eq_none_iff {entries : List (String × String)} :
    longestAlias source entries = none <->
      forall entry, entry ∈ entries -> beginsWith entry.1 source = false := by
  induction entries with
  | nil =>
      simp [longestAlias]
  | cons first rest ih =>
      unfold longestAlias
      rw [List.forall_mem_cons, <- ih]
      cases hrest : longestAlias source rest with
      | none =>
          cases hfirst : beginsWith first.1 source <;> simp
      | some best =>
          simp only [reduceCtorEq, and_false, iff_false]
          split <;> simp

theorem longestAlias_spec {entries : List (String × String)}
    (h : longestAlias source entries = some entry) :
    entry ∈ entries ∧ beginsWith entry.1 source = true ∧
      forall other, other ∈ entries -> beginsWith other.1 source = true ->
        other.1.toList.length ≤ entry.1.toList.length := by
  -- the first alias is compared with the best one of the rest
  induction entries generalizing entry with
  | nil =>
      cases h
  | cons first rest ih =>
      unfold longestAlias at h
      cases hrest : longestAlias source rest with
      | none =>
          have hnone := longestAlias_eq_none_iff.mp hrest
          rw [hrest] at h
          dsimp only at h
          split at h
          · next hbegins =>
              cases h
              refine ⟨List.mem_cons_self .., hbegins, ?_⟩
              intro other hother hbegins'
              rcases List.mem_cons.mp hother with rfl | hother
              · exact Nat.le_refl _
              · rw [hnone other hother] at hbegins'
                cases hbegins'
          · cases h
      | some best =>
          obtain ⟨hmem, hbegins, hlongest⟩ := ih hrest
          rw [hrest] at h
          dsimp only at h
          split at h
          · next hfirst =>
              cases h
              rw [Bool.and_eq_true, decide_eq_true_eq] at hfirst
              refine ⟨List.mem_cons_self .., hfirst.1, ?_⟩
              intro other hother hbegins'
              rcases List.mem_cons.mp hother with rfl | hother
              · exact Nat.le_refl _
              · exact Nat.le_trans (hlongest other hother hbegins') hfirst.2
          · next hfirst =>
              cases h
              rw [Bool.and_eq_true, decide_eq_true_eq, not_and, Nat.not_le] at hfirst
              refine ⟨List.mem_cons_of_mem _ hmem, hbegins, ?_⟩
              intro other hother hbegins'
              rcases List.mem_cons.mp hother with rfl | hother
              · exact Nat.le_of_lt (hfirst hbegins')
              · exact hlongest other hother hbegins'

theorem IsLongestAlias.aliasOf_eq {r : Resolver} (h : r.IsLongestAlias source entry) :
    r.aliasOf source = some entry := by
  unfold aliasOf
  cases hfound : longestAlias source r.aliases.entries with
  | none =>
      have hnone := longestAlias_eq_none_iff.mp hfound entry h.listed
      rw [h.begins] at hnone
      cases hnone
  | some best =>
      obtain ⟨hmem, hbegins, hlongest⟩ := longestAlias_spec hfound
      by_cases heq : best = entry
      · rw [heq]
      · exact absurd (h.longest best hmem hbegins heq)
          (Nat.not_lt.mpr (hlongest entry h.listed h.begins))

theorem isRelative_alias {start : String} (hstart : start.toList.head? ≠ some '.')
    (hsegments : segments ≠ []) : isRelative (start ++ pathOf segments) = false := by
  rw [Bool.eq_false_iff]
  intro hrelative
  by_cases hempty : start = ""
  · subst hempty
    rw [String.empty_append, pathOf_eq_walked] at hrelative
    cases segments with
    | nil =>
        exact hsegments rfl
    | cons first rest =>
        exact (isRelative_walked (.down first) (rest.map .down)).mp hrelative first rfl
  · obtain ⟨first, rest, hpieces, hfirst⟩ := isRelative_iff.mp hrelative
    have hchars : (start ++ pathOf segments).toList.head? = some '.' := by
      have hjoin : ['/'].intercalate (List.splitOn '/' (start ++ pathOf segments).toList) =
          (start ++ pathOf segments).toList := List.intercalate_splitOn '/'
      rw [<- hjoin, hpieces]
      rcases hfirst with rfl | rfl <;> rw [List.intercalate_cons_cons_left] <;> rfl
    rw [String.toList_append] at hchars
    cases hcs : start.toList with
    | nil =>
        exact hempty (String.toList_eq_nil_iff.mp hcs)
    | cons c cs =>
        rw [hcs] at hstart hchars
        exact hstart hchars

theorem basePath_alias {r : Resolver} {start directory : String}
    (h : r.IsLongestAlias (start ++ pathOf segments) (start, directory))
    (hstart : start.toList.head? ≠ some '.') (hsegments : segments ≠ []) (file : String) :
    r.basePath (start ++ pathOf segments) file =
      some (projectPath (directory ++ pathOf segments)) := by
  have hdrop : dropLength start (start ++ pathOf segments) = pathOf segments := by
    unfold dropLength
    rw [String.toList_append, List.drop_left, String.ofList_toList]
  unfold basePath
  rw [isRelative_alias hstart hsegments, h.aliasOf_eq, Option.map_some, hdrop]
  rfl

/-!
# One target
-/

/-- The sources that spell a target: from a file some way aside of it, or with an alias. -/
inductive Spells (r : Resolver) (target : List Segment) : String -> String -> Prop
  | relative {common aside rest : List Segment} {name : Segment} {first : Move} {steps : List Move}
      (htarget : target = common ++ rest) (hrest : rest ≠ []) (hfirst : first.IsDotted)
      (hsteps : (first :: steps).filter (fun step => !step.isHere) =
        List.replicate aside.length .up ++ rest.map .down) :
      Spells r target (pathOf (common ++ aside ++ [name])) (walked (first :: steps))
  | aliased {front rest : List Segment} {start file : String}
      (htarget : target = front ++ rest) (hfront : front ≠ []) (hrest : rest ≠ [])
      (hstart : start.toList.head? ≠ some '.')
      (hlongest : r.IsLongestAlias (start ++ pathOf rest) (start, pathOf front ++ "/")) :
      Spells r target file (start ++ pathOf rest)

theorem Spells.basePath_eq {r : Resolver} {target : List Segment} {file : String}
    (h : r.Spells target file source) : r.basePath source file = some (pathOf target) := by
  cases h with
  | @relative common aside rest name first steps htarget hrest hfirst hsteps =>
      have harrive : arrive (common ++ aside).reverse (first :: steps) =
          some (rest.reverse ++ common.reverse) := by
        rw [List.reverse_append]
        refine arrive_of_filter ?_
        rw [List.length_reverse]
        exact hsteps
      rw [r.basePath_walked hfirst harrive (by simp [hrest]) name, <- List.reverse_append,
        List.reverse_reverse, htarget]
  | @aliased front rest start file htarget hfront hrest hstart hlongest =>
      rw [basePath_alias hlongest hstart hrest, <- pathOf_append hfront hrest, <- htarget,
        projectPath_pathOf (by simp [htarget, hfront])]

/-- All spellings of one target have its path as their base, and so they mean the same files. -/
theorem Spells.resolve_eq {r : Resolver} {target : List Segment} {file other source' : String}
    (h : r.Spells target file source) (h' : r.Spells target other source') :
    r.basePath source file = some (pathOf target) ∧
      r.basePath source' other = some (pathOf target) ∧
      r.candidates source file = candidatesOfBase r.extensions (pathOf target) ∧
      r.candidates source' other = r.candidates source file ∧
      forall available : String -> Bool,
        r.resolve source' other available = r.resolve source file available := by
  have hcandidates : forall {file source}, r.Spells target file source ->
      r.candidates source file = candidatesOfBase r.extensions (pathOf target) := by
    intro file source h
    unfold candidates
    rw [h.basePath_eq]
  have hsame : r.candidates source' other = r.candidates source file :=
    (hcandidates h').trans (hcandidates h).symm
  refine ⟨h.basePath_eq, h'.basePath_eq, hcandidates h, hsame, ?_⟩
  intro available
  unfold resolve
  rw [hsame]

/-- A way with a detour and the longer one of two aliases lead to one file. -/
theorem resolve_eq_detour_alias :
    let r := Resolver.make (some { entries := [("@/lib/", "src/lib/"), ("@/", "src/")] }) []
    (exists target, pathOf target = "src/lib/a" ∧
        r.Spells target "src/app/b.ts" "./.././lib/a" ∧ r.Spells target "c.ts" "@/lib/a") ∧
      r.basePath "./.././lib/a" "src/app/b.ts" = some "src/lib/a" ∧
      r.basePath "@/lib/a" "c.ts" = some "src/lib/a" ∧
      forall available : String -> Bool,
        r.resolve "@/lib/a" "c.ts" available =
          r.resolve "./.././lib/a" "src/app/b.ts" available := by
  intro r
  let src : Segment := ⟨['s', 'r', 'c'], by decide, by decide⟩
  let lib : Segment := ⟨['l', 'i', 'b'], by decide, by decide⟩
  let app : Segment := ⟨['a', 'p', 'p'], by decide, by decide⟩
  let a : Segment := ⟨['a'], by decide, by decide⟩
  let b : Segment := ⟨['b', '.', 't', 's'], by decide, by decide⟩
  have htarget : pathOf [src, lib, a] = "src/lib/a" := by decide
  have hdetour : r.Spells [src, lib, a] "src/app/b.ts" "./.././lib/a" := by
    have hfile : pathOf ([src] ++ [app] ++ [b]) = "src/app/b.ts" := by decide
    have hsource : walked [.here, .up, .here, .down lib, .down a] = "./.././lib/a" := by decide
    rw [<- hfile, <- hsource]
    have hplace : [src, lib, a] = [src] ++ [lib, a] := rfl
    exact .relative hplace (List.cons_ne_nil _ _) (fun _ h => by cases h) rfl
  have halias : r.Spells [src, lib, a] "c.ts" "@/lib/a" := by
    have hsource : "@/lib/" ++ pathOf [a] = "@/lib/a" := by decide
    have hdirectory : pathOf [src, lib] ++ "/" = "src/lib/" := by decide
    have hlongest :
        r.IsLongestAlias ("@/lib/" ++ pathOf [a]) ("@/lib/", pathOf [src, lib] ++ "/") := by
      rw [hsource, hdirectory]
      exact ⟨by decide, by decide, by decide⟩
    have hplace : [src, lib, a] = [src, lib] ++ [a] := rfl
    rw [<- hsource]
    exact .aliased hplace (List.cons_ne_nil _ _) (List.cons_ne_nil _ _) (by decide) hlongest
  obtain ⟨hbase, hbase', _, _, hresolve⟩ := hdetour.resolve_eq halias
  rw [htarget] at hbase hbase'
  exact ⟨⟨_, htarget, hdetour, halias⟩, hbase, hbase', hresolve⟩

end Resolver
end Joinery
