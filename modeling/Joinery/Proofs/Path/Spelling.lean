import Joinery.Proofs.Path.Normal

/-!
# The spellings of a key

## Separators of any kind and number

A path can be written with blanks around it, with single dots and slashes in front, and with
slashes or backslashes in any number between its segments.  All of these spellings have one key,
in which a single slash stands between neighbours.

The single dots in front and the repeated slashes can also be taken away in rounds, for as long as
there are any.  A round makes the text shorter, so that the rounds come to an end on every text,
and what is left then is the key again.
-/

namespace Joinery

namespace Path

open Text

/-!
# Rounds

A loop is followed round by round.  It has come to its end when a text does not need another
round.
-/

inductive Rounds (needed : List Char -> Bool) (round : List Char -> List Char) :
    List Char -> Nat -> List Char -> Prop where
  | done {text : List Char} (h : needed text = false) : Rounds needed round text 0 text
  | next {text result : List Char} {count : Nat} (h : needed text = true)
      (rest : Rounds needed round (round text) count result) :
      Rounds needed round text (count + 1) result

theorem exists_rounds {needed : List Char -> Bool} {round result : List Char -> List Char}
    (hshorter : forall text, needed text = true -> (round text).length < text.length)
    (hkept : forall text, needed text = true -> result (round text) = result text)
    (hdone : forall text, needed text = false -> result text = text) (text : List Char) :
    exists count, Rounds needed round text count (result text) ∧
      count + (result text).length ≤ text.length := by
  -- The measure is the length of the text that is left.
  induction hlength : text.length using Nat.strong_induction_on generalizing text with
  | _ length ih =>
      cases hneeded : needed text with
      | false =>
          exists 0
          rw [hdone text hneeded]
          constructor
          · exact .done hneeded
          · omega
      | true =>
          have hlt := hshorter text hneeded
          rcases ih _ (hlength ▸ hlt) (round text) rfl with ⟨count, hrounds, hcount⟩
          rw [hkept text hneeded] at hrounds hcount
          exists count + 1
          constructor
          · exact .next hneeded hrounds
          · omega

/-!
# Dots in front
-/

def startsHere (path : List Char) : Bool :=
  ['.', '/'].isPrefixOf path

theorem dropDotSlashes_of_not (path : List Char) (h : startsHere path = false) :
    dropDotSlashes path = path := by
  fun_cases dropDotSlashes path with
  | case1 rest =>
      cases h
  | case2 path _ =>
      rfl

theorem exists_of_startsHere {path : List Char} (h : startsHere path = true) :
    exists rest, path = '.' :: '/' :: rest := by
  rcases List.isPrefixOf_iff_prefix.mp h with ⟨rest, rfl⟩
  exists rest

theorem rounds_dropDotSlashes (path : List Char) :
    exists count, Rounds startsHere (List.drop 2) path count (dropDotSlashes path) ∧
      count + (dropDotSlashes path).length ≤ path.length := by
  apply exists_rounds
  · intro text h
    rcases exists_of_startsHere h with ⟨rest, rfl⟩
    simp only [List.drop_succ_cons, List.drop_zero, List.length_cons]
    omega
  · intro text h
    rcases exists_of_startsHere h with ⟨rest, rfl⟩
    rfl
  · exact dropDotSlashes_of_not

/-!
# Repeated slashes
-/

/-- One slash for every two that stand together, counted from the start of each run. -/
def halveSlashes : List Char -> List Char
  | '/' :: '/' :: rest => '/' :: halveSlashes rest
  | c :: rest => c :: halveSlashes rest
  | [] => []

/-- Two slashes stand together somewhere. -/
def holdsDoubled (path : List Char) : Bool :=
  contains ['/', '/'] path

theorem holdsDoubled_cons (c : Char) (rest : List Char) :
    holdsDoubled (c :: rest) = (['/', '/'].isPrefixOf (c :: rest) || holdsDoubled rest) :=
  rfl

theorem collapseSlashes_cons_congr (c : Char) {path other : List Char}
    (h : collapseSlashes path = collapseSlashes other) :
    collapseSlashes (c :: path) = collapseSlashes (c :: other) := by
  have hhead : path.head? = other.head? := by
    rw [<- head?_collapseSlashes path, h, head?_collapseSlashes]
  rw [collapseSlashes, collapseSlashes, hhead, h]

theorem collapseSlashes_halveSlashes (path : List Char) :
    collapseSlashes (halveSlashes path) = collapseSlashes path := by
  fun_induction halveSlashes path with
  | case1 rest ih =>
      have hdoubled : collapseSlashes ('/' :: '/' :: rest) = collapseSlashes ('/' :: rest) :=
        if_pos rfl
      rw [hdoubled]
      exact collapseSlashes_cons_congr '/' ih
  | case2 c rest _ ih =>
      exact collapseSlashes_cons_congr c ih
  | case3 =>
      rfl

theorem length_halveSlashes_le (path : List Char) :
    (halveSlashes path).length ≤ path.length := by
  fun_induction halveSlashes path with
  | case1 rest ih =>
      simp only [List.length_cons]
      omega
  | case2 c rest _ ih =>
      simp only [List.length_cons]
      omega
  | case3 =>
      exact Nat.le_refl _

theorem length_halveSlashes_lt (path : List Char) (h : holdsDoubled path = true) :
    (halveSlashes path).length < path.length := by
  fun_induction halveSlashes path with
  | case1 rest ih =>
      have hle := length_halveSlashes_le rest
      simp only [List.length_cons]
      omega
  | case2 c rest hsingle ih =>
      rw [holdsDoubled_cons, Bool.or_eq_true] at h
      cases h with
      | inl hfront =>
          rcases List.isPrefixOf_iff_prefix.mp hfront with ⟨tail, htail⟩
          cases htail
          exact absurd rfl (hsingle tail rfl)
      | inr hrest =>
          have hlt := ih hrest
          simp only [List.length_cons]
          omega
  | case3 =>
      cases h

theorem collapseSlashes_of_not (path : List Char) (h : holdsDoubled path = false) :
    collapseSlashes path = path := by
  induction path with
  | nil =>
      rfl
  | cons c rest ih =>
      rw [holdsDoubled_cons, Bool.or_eq_false_iff] at h
      have hsingle : ¬(c = '/' && rest.head? = some '/') = true := by
        intro hdoubled
        rw [Bool.and_eq_true, decide_eq_true_eq, decide_eq_true_eq] at hdoubled
        rcases hdoubled with ⟨rfl, hhead⟩
        cases rest with
        | nil =>
            cases hhead
        | cons next rest =>
            cases hhead
            cases h.1
      rw [collapseSlashes, if_neg hsingle, ih h.2]

theorem rounds_collapseSlashes (path : List Char) :
    exists count, Rounds holdsDoubled halveSlashes path count (collapseSlashes path) ∧
      count + (collapseSlashes path).length ≤ path.length := by
  apply exists_rounds
  · exact length_halveSlashes_lt
  · exact fun text _ => collapseSlashes_halveSlashes text
  · exact collapseSlashes_of_not

/-!
# Spellings
-/

def isSeparator (c : Char) : Bool :=
  c == '/' || c == '\\'

/-- The name of a directory or a file; single and double dots are names here. -/
structure IsPart (part : List Char) : Prop where
  ne_nil : part ≠ []
  noSlash : '/' ∉ part
  noBackslash : '\\' ∉ part

/-- Parts that neither lose a blank at the ends nor a single dot in front. -/
structure Ordinary (parts : List (List Char)) : Prop where
  ne_nil : parts ≠ []
  isPart : forall part, part ∈ parts -> IsPart part
  firstNotHere : parts.head? ≠ some ['.']
  firstTight : forall part c, parts.head? = some part -> part.head? = some c -> isBlank c = false
  lastTight : forall part, parts.getLast? = some part -> EndsTight part

/-- The parts are written one after the other, with some separators between neighbours. -/
inductive Separated : List (List Char) -> List Char -> Prop where
  | last (part : List Char) : Separated [part] part
  | more (part run : List Char) {parts : List (List Char)} {text : List Char} (hrun : run ≠ [])
      (hseparators : forall c, c ∈ run -> isSeparator c = true) (rest : Separated parts text) :
      Separated (part :: parts) (part ++ (run ++ text))

def dotted (separators : List Char) : List Char :=
  separators.flatMap fun c => ['.', c]

/-- Blanks, dots with a separator each, separators, the parts, and blanks again. -/
inductive IsSpelling (parts : List (List Char)) : List Char -> Prop where
  | of (before dots lead after : List Char) {text : List Char}
      (hbefore : forall c, c ∈ before -> isBlank c = true)
      (hdots : forall c, c ∈ dots -> isSeparator c = true)
      (hlead : forall c, c ∈ lead -> isSeparator c = true) (htext : Separated parts text)
      (hafter : forall c, c ∈ after -> isBlank c = true) :
      IsSpelling parts (before ++ (dotted dots ++ (lead ++ text) ++ after))

section Parts

variable {parts : List (List Char)} {part text run : List Char}

theorem isBlank_of_isSeparator {c : Char} (h : isSeparator c = true) : isBlank c = false := by
  rcases Bool.or_eq_true_iff.mp h with h | h
  · rw [beq_iff_eq.mp h]
    decide
  · rw [beq_iff_eq.mp h]
    decide

@[simp] theorem forwardSlashes_append (path other : List Char) :
    forwardSlashes (path ++ other) = forwardSlashes path ++ forwardSlashes other :=
  List.map_append

theorem eq_slash_of_mem_forwardSlashes (h : forall c, c ∈ run -> isSeparator c = true) {c : Char}
    (hc : c ∈ forwardSlashes run) : c = '/' := by
  rcases List.mem_map.mp hc with ⟨given, hgiven, rfl⟩
  split
  · rfl
  · next hne =>
      rcases Bool.or_eq_true_iff.mp (h given hgiven) with hslash | hback
      · exact beq_iff_eq.mp hslash
      · exact absurd (beq_iff_eq.mp hback) hne

@[simp] theorem IsPart.forwardSlashes_append (h : IsPart part) (tail : List Char) :
    forwardSlashes (part ++ tail) = part ++ forwardSlashes tail := by
  rw [Path.forwardSlashes_append, forwardSlashes_of_not_mem h.noBackslash]

/-!
# What becomes of separators
-/

theorem dropDotSlashes_dotted {dots : List Char} (h : forall c, c ∈ dots -> isSeparator c = true)
    (rest : List Char) :
    dropDotSlashes (forwardSlashes (dotted dots) ++ rest) = dropDotSlashes rest := by
  induction dots with
  | nil =>
      rfl
  | cons c dots ih =>
      have hc : (if c = '\\' then '/' else c) = '/' :=
        eq_slash_of_mem_forwardSlashes h (List.mem_cons_self ..)
      have hcons : forwardSlashes (dotted (c :: dots)) =
          '.' :: (if c = '\\' then '/' else c) :: forwardSlashes (dotted dots) :=
        rfl
      rw [hcons, hc, List.cons_append, List.cons_append, dropDotSlashes]
      exact ih fun d hd => h d (List.mem_cons_of_mem c hd)

theorem collapseSlashes_append (h : '/' ∉ part) (rest : List Char) :
    collapseSlashes (part ++ rest) = part ++ collapseSlashes rest := by
  induction part with
  | nil =>
      rfl
  | cons c part ih =>
      rw [List.mem_cons, not_or] at h
      have hc : ¬(c = '/' && (part ++ rest).head? = some '/') = true := by
        simp [Ne.symm h.1]
      rw [List.cons_append, collapseSlashes, if_neg hc, ih h.2, List.cons_append]

theorem collapseSlashes_run (hne : run ≠ []) (hrun : forall c, c ∈ run -> c = '/')
    {rest : List Char} (hrest : rest.head? ≠ some '/') :
    collapseSlashes (run ++ rest) = '/' :: collapseSlashes rest := by
  induction run with
  | nil =>
      exact absurd rfl hne
  | cons c run ih =>
      have hc : c = '/' := hrun c (List.mem_cons_self ..)
      have htail : forall d, d ∈ run -> d = '/' := fun d hd => hrun d (List.mem_cons_of_mem c hd)
      rw [hc, List.cons_append, collapseSlashes]
      cases run with
      | nil =>
          rw [List.nil_append, if_neg (by simp [hrest])]
      | cons d run =>
          rw [if_pos (by simp [htail d (List.mem_cons_self ..)])]
          exact ih (List.cons_ne_nil d run) htail

/-!
# Parts with separators between them
-/

theorem Separated.exists_front (h : Separated parts text) :
    exists part tail, parts.head? = some part ∧ text = part ++ tail := by
  cases h with
  | last =>
      exists text, []
      simp
  | more part run hrun hseparators rest =>
      exact ⟨part, _, rfl, rfl⟩

theorem head?_append_of_isPart (h : IsPart part) (tail : List Char) :
    (part ++ tail).head? = part.head? := by
  cases part with
  | nil =>
      exact absurd rfl h.ne_nil
  | cons c rest =>
      rfl

theorem Separated.ne_nil (h : Separated parts text)
    (hparts : forall part, part ∈ parts -> IsPart part) : text ≠ [] := by
  rcases h.exists_front with ⟨part, tail, hfirst, rfl⟩
  have hpart := hparts part (List.mem_of_head? hfirst)
  simp [hpart.ne_nil]

theorem Separated.head?_forwardSlashes (h : Separated parts text)
    (hparts : forall part, part ∈ parts -> IsPart part) :
    (forwardSlashes text).head? ≠ some '/' := by
  rcases h.exists_front with ⟨part, tail, hfirst, rfl⟩
  have hpart := hparts part (List.mem_of_head? hfirst)
  rw [hpart.forwardSlashes_append, head?_append_of_isPart hpart]
  intro hslash
  exact hpart.noSlash (List.mem_of_head? hslash)

theorem Separated.collapseSlashes_eq (h : Separated parts text)
    (hparts : forall part, part ∈ parts -> IsPart part) :
    collapseSlashes (forwardSlashes text) = ['/'].intercalate parts := by
  induction h with
  | last part =>
      have hpart := hparts part (List.mem_singleton_self part)
      have hcollapsed := collapseSlashes_append hpart.noSlash []
      rw [List.append_nil] at hcollapsed
      rw [forwardSlashes_of_not_mem hpart.noBackslash, hcollapsed, List.intercalate_singleton]
      exact List.append_nil part
  | @more part run parts text hrun hseparators rest ih =>
      have hpart := hparts part (List.mem_cons_self ..)
      have hrest : forall part, part ∈ parts -> IsPart part :=
        fun next hnext => hparts next (List.mem_cons_of_mem part hnext)
      have hslashes : forwardSlashes run ≠ [] := by
        intro hnil
        exact hrun (List.map_eq_nil_iff.mp hnil)
      have hne : parts ≠ [] := by
        cases rest <;> exact List.cons_ne_nil _ _
      rw [hpart.forwardSlashes_append, forwardSlashes_append, collapseSlashes_append hpart.noSlash,
        collapseSlashes_run hslashes (fun c hc => eq_slash_of_mem_forwardSlashes hseparators hc)
          (rest.head?_forwardSlashes hrest),
        ih hrest, intercalate_cons '/' part hne]

theorem endsTight_append (h : EndsTight text) (hne : text ≠ []) (front : List Char) :
    EndsTight (front ++ text) := by
  intro c hc
  rw [List.getLast?_append_of_ne_nil front hne] at hc
  exact h c hc

theorem Separated.endsTight (h : Separated parts text)
    (hparts : forall part, part ∈ parts -> IsPart part)
    (hlast : forall part, parts.getLast? = some part -> EndsTight part) : EndsTight text := by
  induction h with
  | last part =>
      exact hlast part rfl
  | @more part run parts text hrun hseparators rest ih =>
      have hrest : forall part, part ∈ parts -> IsPart part :=
        fun next hnext => hparts next (List.mem_cons_of_mem part hnext)
      have hne : parts ≠ [] := by
        cases rest <;> exact List.cons_ne_nil _ _
      have htight : EndsTight text := by
        apply ih hrest
        intro next hnext
        apply hlast
        rw [<- hnext]
        exact List.getLast?_cons_of_ne_nil hne
      rw [<- List.append_assoc]
      exact endsTight_append htight (rest.ne_nil hrest) (part ++ run)

end Parts

/-!
# One key
-/

section Key

variable {parts : List (List Char)} {dots lead text : List Char}

theorem Ordinary.starts_tight (h : Ordinary parts)
    (hlead : forall c, c ∈ lead -> isSeparator c = true) (htext : Separated parts text) :
    forall c, (dotted dots ++ (lead ++ text)).head? = some c -> isBlank c = false := by
  intro c hc
  cases dots with
  | cons d dots =>
      cases hc
      decide
  | nil =>
      cases lead with
      | cons d lead =>
          cases hc
          exact isBlank_of_isSeparator (hlead c (List.mem_cons_self ..))
      | nil =>
          rcases htext.exists_front with ⟨part, tail, hfirst, rfl⟩
          have hpart := h.isPart part (List.mem_of_head? hfirst)
          change (part ++ tail).head? = some c at hc
          rw [head?_append_of_isPart hpart] at hc
          exact h.firstTight part c hfirst hc

theorem Ordinary.not_startsHere (h : Ordinary parts)
    (hlead : forall c, c ∈ lead -> isSeparator c = true) (htext : Separated parts text) :
    startsHere (forwardSlashes lead ++ forwardSlashes text) = false := by
  rw [Bool.eq_false_iff]
  intro hhere
  rcases exists_of_startsHere hhere with ⟨rest, hrest⟩
  cases hslashes : forwardSlashes lead with
  | cons c slashes =>
      have hc : c = '/' := by
        apply eq_slash_of_mem_forwardSlashes hlead
        rw [hslashes]
        exact List.mem_cons_self ..
      rw [hslashes, hc] at hrest
      cases hrest
  | nil =>
      rcases htext.exists_front with ⟨part, tail, hfirst, rfl⟩
      have hpart := h.isPart part (List.mem_of_head? hfirst)
      rw [hslashes, List.nil_append, hpart.forwardSlashes_append] at hrest
      cases part with
      | nil =>
          exact hpart.ne_nil rfl
      | cons c part =>
          cases part with
          | nil =>
              rw [(List.cons.inj hrest).1] at hfirst
              exact h.firstNotHere hfirst
          | cons d part =>
              cases hrest
              exact hpart.noSlash (by simp)

theorem Ordinary.canonicalChars_eq (h : Ordinary parts) {path : List Char}
    (hpath : IsSpelling parts path) : canonicalChars path = ['/'].intercalate parts := by
  cases hpath with
  | @of before dots lead after text hbefore hdots hlead htext hafter =>
      have htight : EndsTight (dotted dots ++ (lead ++ text)) := by
        rw [<- List.append_assoc]
        exact endsTight_append (htext.endsTight h.isPart h.lastTight) (htext.ne_nil h.isPart) _
      have htrim : trim (before ++ (dotted dots ++ (lead ++ text) ++ after)) =
          dotted dots ++ (lead ++ text) :=
        (trim_append hbefore hafter _).trans (trim_of_tight (h.starts_tight hlead htext) htight)
      have hslashes : (forwardSlashes lead ++ forwardSlashes text).dropWhile (fun c => c == '/') =
          forwardSlashes text := by
        rw [List.dropWhile_append_of_pos,
          dropWhile_slash_of_head (htext.head?_forwardSlashes h.isPart)]
        intro c hc
        rw [eq_slash_of_mem_forwardSlashes hlead hc]
        rfl
      unfold canonicalChars
      dsimp only
      rw [htrim, forwardSlashes_append, forwardSlashes_append, dropDotSlashes_dotted hdots,
        dropDotSlashes_of_not _ (h.not_startsHere hlead htext), hslashes,
        htext.collapseSlashes_eq h.isPart]

end Key

/-- What the two loops leave of a path, one after the other, in some rounds altogether. -/
def Cleaned (path : List Char) (rounds : Nat) (key : List Char) : Prop :=
  exists first second undotted,
    first + second = rounds ∧
      Rounds startsHere (List.drop 2) (forwardSlashes (trim path)) first undotted ∧
      Rounds holdsDoubled halveSlashes (undotted.dropWhile fun c => c == '/') second key

theorem exists_cleaned (path : List Char) :
    exists rounds, Cleaned path rounds (canonicalChars path) ∧
      rounds + (canonicalChars path).length ≤ path.length := by
  rcases rounds_dropDotSlashes (forwardSlashes (trim path)) with ⟨first, hfirst, hfirstLe⟩
  rcases rounds_collapseSlashes ((dropDotSlashes (forwardSlashes (trim path))).dropWhile
    fun c => c == '/') with ⟨second, hsecond, hsecondLe⟩
  exists first + second
  constructor
  · exact ⟨first, second, _, rfl, hfirst, hsecond⟩
  · have htrim : (forwardSlashes (trim path)).length ≤ path.length :=
      calc (forwardSlashes (trim path)).length = (trim path).length := List.length_map _
        _ ≤ (dropStart isBlank path).length := length_trim_le path
        _ ≤ path.length := (List.dropWhile_sublist _).length_le
    have hslashes := (List.dropWhile_suffix (l := dropDotSlashes (forwardSlashes (trim path)))
      fun c => c == '/').length_le
    have hkey : (canonicalChars path).length = (collapseSlashes
        ((dropDotSlashes (forwardSlashes (trim path))).dropWhile fun c => c == '/')).length :=
      rfl
    omega

theorem exists_cleaned_canonical (path : String) :
    exists rounds,
      Cleaned path.toList rounds (canonical path).toList ∧
        rounds + (canonical path).length ≤ path.length := by
  rw [canonical, String.length_ofList, String.toList_ofList, <- String.length_toList]
  exact exists_cleaned path.toList

/-- Every spelling of some parts has them as its key, with a slash between neighbours. -/
theorem canonical_spelling {parts : List (List Char)} (hparts : Ordinary parts) {path : String}
    (hpath : IsSpelling parts path.toList) :
    canonical path = String.ofList (['/'].intercalate parts) ∧
      forall other : String, exists rounds,
        Cleaned other.toList rounds (canonical other).toList ∧
          rounds + (canonical other).length ≤ other.length := by
  refine ⟨?_, exists_cleaned_canonical⟩
  rw [canonical, hparts.canonicalChars_eq hpath]

/-- Separators of both kinds in front and inside, and a step to the parent directory. -/
theorem canonical_spelling_mixed :
    Ordinary [['s', 'r', 'c'], ['.', '.'], ['a', ' ', 'b']] ∧
      IsSpelling [['s', 'r', 'c'], ['.', '.'], ['a', ' ', 'b']]
        "\t .\\.///src\\/..//a b\n".toList ∧
      canonical "\t .\\.///src\\/..//a b\n" = "src/../a b" := by
  have hparts : Ordinary [['s', 'r', 'c'], ['.', '.'], ['a', ' ', 'b']] := by
    constructor
    · decide
    · intro part hpart
      rcases List.mem_cons.mp hpart with rfl | hpart
      · exact ⟨by decide, by decide, by decide⟩
      · rcases List.mem_cons.mp hpart with rfl | hpart
        · exact ⟨by decide, by decide, by decide⟩
        · cases List.mem_singleton.mp hpart
          exact ⟨by decide, by decide, by decide⟩
    · decide
    · intro part c hpart hc
      cases hpart
      cases hc
      decide
    · intro part hpart c hc
      cases hpart
      cases hc
      decide
  have separators (run : List Char) (h : run.all isSeparator = true) :
      forall c, c ∈ run -> isSeparator c = true :=
    List.all_eq_true.mp h
  have blanks (around : List Char) (h : around.all isBlank = true) :
      forall c, c ∈ around -> isBlank c = true :=
    List.all_eq_true.mp h
  have htext : Separated [['s', 'r', 'c'], ['.', '.'], ['a', ' ', 'b']]
      "src\\/..//a b".toList := by
    apply Separated.more ['s', 'r', 'c'] ['\\', '/'] (by decide) (separators _ rfl)
    apply Separated.more ['.', '.'] ['/', '/'] (by decide) (separators _ rfl)
    exact Separated.last ['a', ' ', 'b']
  have hpath : IsSpelling [['s', 'r', 'c'], ['.', '.'], ['a', ' ', 'b']]
      "\t .\\.///src\\/..//a b\n".toList :=
    .of ['\t', ' '] ['\\', '/'] ['/', '/'] ['\n'] (blanks _ rfl) (separators _ rfl)
      (separators _ rfl) htext (blanks _ rfl)
  constructor
  · exact hparts
  · constructor
    · exact hpath
    · exact (canonical_spelling hparts hpath).1

end Path
end Joinery
