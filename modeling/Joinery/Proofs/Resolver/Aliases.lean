import Joinery.Proofs.Resolver.Spelling
import Joinery.Proofs.Sorting
import Joinery.Proofs.Table

/-!
# The alias of a source

## The longest one, in whatever order they come

Several aliases can stand at the start of one source.  Two of them that are of one length are the
same text, so that one of them is longer than all the others.  This one is found by a search
through the aliases with the longest ones first; the order of the table does not matter, nor do
aliases that the source does not begin with or that are shorter.
-/

namespace Joinery
namespace Resolver

variable {source : String} {entry : String × String} {r other : Resolver}

theorem eq_of_beginsWith {start start' : String} (h : beginsWith start source = true)
    (h' : beginsWith start' source = true)
    (hlength : start.toList.length = start'.toList.length) : start = start' := by
  apply String.toList_injective
  have hprefix := List.isPrefixOf_iff_prefix.mp h
  have hprefix' := List.isPrefixOf_iff_prefix.mp h'
  exact (List.prefix_of_prefix_length_le hprefix hprefix' (Nat.le_of_eq hlength)).eq_of_length
    hlength

/-!
# The first of the sorted aliases
-/

def longerFirst (a b : String × String) : Bool :=
  decide (b.1.toList.length ≤ a.1.toList.length)

def firstAlias (source : String) (entries : List (String × String)) : Option (String × String) :=
  entries.find? fun entry => beginsWith entry.1 source

theorem firstAlias_cons (a : String × String) (entries : List (String × String)) :
    firstAlias source (a :: entries) =
      if beginsWith a.1 source then some a else firstAlias source entries := by
  unfold firstAlias
  rw [List.find?_cons]
  cases beginsWith a.1 source <;> rfl

theorem pairwise_longerFirst (entries : List (String × String)) :
    (sortBy longerFirst entries).Pairwise fun a b => longerFirst a b = true := by
  apply pairwise_sortBy
  · intro a b c hab hbc
    exact decide_eq_true (Nat.le_trans (of_decide_eq_true hbc) (of_decide_eq_true hab))
  · intro a b
    unfold longerFirst
    rw [Bool.or_eq_true, decide_eq_true_eq, decide_eq_true_eq]
    exact Nat.le_total _ _

theorem firstAlias_insertBy (a : String × String) {entries : List (String × String)}
    (hsorted : entries.Pairwise fun a b => longerFirst a b = true) :
    firstAlias source (insertBy longerFirst a entries) =
      match firstAlias source entries with
      | none => if beginsWith a.1 source then some a else none
      | some best =>
          if beginsWith a.1 source && best.1.toList.length ≤ a.1.toList.length then some a
          else some best := by
  induction entries with
  | nil =>
      exact firstAlias_cons a []
  | cons b rest ih =>
      rcases List.pairwise_cons.mp hsorted with ⟨hb, hrest⟩
      rw [insertBy]
      by_cases hle : longerFirst a b = true
      · -- All that stands behind `b` is not longer than `a` either.
        have hlength : b.1.toList.length ≤ a.1.toList.length := of_decide_eq_true hle
        rw [if_pos hle, firstAlias_cons]
        cases hfound : firstAlias source (b :: rest) with
        | none =>
            rfl
        | some best =>
            have hbest : best.1.toList.length ≤ a.1.toList.length := by
              rcases List.mem_cons.mp (List.mem_of_find?_eq_some hfound) with rfl | hmem
              · exact hlength
              · exact Nat.le_trans (of_decide_eq_true (hb best hmem)) hlength
            simp [hbest]
      · have hshorter : ¬b.1.toList.length ≤ a.1.toList.length := by
          intro hlength
          exact hle (decide_eq_true hlength)
        rw [if_neg hle, firstAlias_cons, firstAlias_cons, ih hrest]
        by_cases hbegins : beginsWith b.1 source = true
        · simp only [if_pos hbegins]
          simp [hshorter]
        · simp only [if_neg hbegins]

theorem longestAlias_eq_firstAlias (entries : List (String × String)) :
    longestAlias source entries = firstAlias source (sortBy longerFirst entries) := by
  induction entries with
  | nil =>
      rfl
  | cons a rest ih =>
      apply Eq.trans _ (firstAlias_insertBy a (pairwise_longerFirst rest)).symm
      rw [<- ih]
      cases hbest : longestAlias source rest with
      | none =>
          simp only [longestAlias, hbest]
      | some best =>
          simp only [longestAlias, hbest]

/-!
# One alias longer than all others
-/

theorem isLongestAlias_of_aliasOf (h : r.aliasOf source = some entry) :
    r.IsLongestAlias source entry := by
  rcases longestAlias_spec h with ⟨hlisted, hbegins, hlongest⟩
  constructor
  · exact hlisted
  · exact hbegins
  · intro another hanother hbegins' hne
    apply Nat.lt_of_le_of_ne (hlongest another hanother hbegins')
    intro hlength
    have hkey : another.1 = entry.1 := eq_of_beginsWith hbegins' hbegins hlength
    have hvalue := Table.get?_of_mem hanother
    rw [hkey, Table.get?_of_mem hlisted] at hvalue
    exact hne (Prod.ext hkey (Option.some.inj hvalue).symm)

theorem aliasOf_eq_some_iff :
    r.aliasOf source = some entry <-> r.IsLongestAlias source entry :=
  ⟨isLongestAlias_of_aliasOf, IsLongestAlias.aliasOf_eq⟩

theorem aliasOf_eq_none_iff :
    r.aliasOf source = none <->
      forall key, key ∈ r.aliases.keys -> beginsWith key source = false := by
  unfold aliasOf
  rw [longestAlias_eq_none_iff]
  constructor
  · intro h key hkey
    rcases List.mem_map.mp hkey with ⟨entry, hentry, rfl⟩
    exact h entry hentry
  · intro h entry hentry
    exact h entry.1 (List.mem_map_of_mem hentry)

theorem aliasOf_eq_of_mem_iff
    (h : forall entry, entry ∈ other.aliases.entries <-> entry ∈ r.aliases.entries) :
    other.aliasOf source = r.aliasOf source := by
  apply Option.ext
  intro entry
  rw [aliasOf_eq_some_iff, aliasOf_eq_some_iff]
  constructor
  · intro hlongest
    exact ⟨(h entry).mp hlongest.listed, hlongest.begins,
      fun another hanother => hlongest.longest another ((h another).mpr hanother)⟩
  · intro hlongest
    exact ⟨(h entry).mpr hlongest.listed, hlongest.begins,
      fun another hanother => hlongest.longest another ((h another).mp hanother)⟩

/-!
# Other aliases
-/

/-- Two resolvers understand a source alike. -/
structure AgreeOn (source : String) (r other : Resolver) : Prop where
  classify : other.classify source = r.classify source
  basePath : forall file, other.basePath source file = r.basePath source file
  candidates : forall file, other.candidates source file = r.candidates source file
  resolve : forall file available,
    other.resolve source file available = r.resolve source file available

theorem agreeOn_of_aliasOf (hextensions : other.extensions = r.extensions)
    (h : other.aliasOf source = r.aliasOf source) : AgreeOn source r other := by
  have hbase : forall file, other.basePath source file = r.basePath source file := by
    intro file
    unfold basePath
    rw [h]
  have hcandidates : forall file, other.candidates source file = r.candidates source file := by
    intro file
    unfold candidates
    rw [hbase file, hextensions]
  constructor
  · unfold classify
    rw [h]
  · exact hbase
  · exact hcandidates
  · intro file available
    unfold resolve
    rw [hcandidates file]

variable {start target : String}

theorem mem_entries_insert {another : String × String}
    (h : another ∈ (r.aliases.insert start target).entries) :
    another = (start, target) ∨ another ∈ r.aliases.entries := by
  have hvalue := Table.get?_of_mem h
  by_cases heq : start = another.1
  · left
    rw [<- heq, Table.get?_insert_self] at hvalue
    exact Prod.ext heq.symm (Option.some.inj hvalue).symm
  · right
    exact Table.mem_of_get? (by simpa [heq] using hvalue)

theorem aliasOf_insert
    (h : beginsWith start source = false ∨ exists entry, r.aliasOf source = some entry ∧
      start.toList.length < entry.1.toList.length) :
    ({ r with aliases := r.aliases.insert start target } : Resolver).aliasOf source =
      r.aliasOf source := by
  cases hfound : r.aliasOf source with
  | none =>
      have hstart : beginsWith start source = false := by
        rcases h with hstart | ⟨entry, hentry, _⟩
        · exact hstart
        · rw [hfound] at hentry
          cases hentry
      rw [aliasOf_eq_none_iff] at hfound ⊢
      intro key hkey
      rw [Table.keys_insert] at hkey
      split at hkey
      · exact hfound key hkey
      · rcases List.mem_append.mp hkey with hkey | hkey
        · exact hfound key hkey
        · cases List.mem_singleton.mp hkey
          exact hstart
  | some entry =>
      have hlongest := isLongestAlias_of_aliasOf hfound
      -- The new alias is neither this one nor as long as this one.
      have hstart : beginsWith start source = true ->
          start.toList.length < entry.1.toList.length := by
        intro hbegins
        rcases h with hnot | ⟨found, heq, hlength⟩
        · rw [hbegins] at hnot
          cases hnot
        · rw [hfound] at heq
          cases heq
          exact hlength
      have hne : start ≠ entry.1 := by
        intro heq
        apply Nat.lt_irrefl entry.1.toList.length
        rw [heq] at hstart
        exact hstart hlongest.begins
      apply IsLongestAlias.aliasOf_eq
      constructor
      · apply Table.mem_of_get?
        rw [Table.get?_insert_other _ hne]
        exact Table.get?_of_mem hlongest.listed
      · exact hlongest.begins
      · intro another hanother hbegins hdifferent
        rcases mem_entries_insert hanother with rfl | hold
        · exact hstart hbegins
        · exact hlongest.longest another hold hbegins hdifferent

/-- The alias of a source is the one that is longer than all others, and nothing else matters. -/
theorem aliasOf_unique_longest (r : Resolver) (source : String) :
    r.aliasOf source = firstAlias source (sortBy longerFirst r.aliases.entries) ∧
      (forall entry, r.aliasOf source = some entry <-> r.IsLongestAlias source entry) ∧
      (r.aliasOf source = none <->
        forall key, key ∈ r.aliases.keys -> beginsWith key source = false) ∧
      (forall aliases : Table String, aliases.entries.Perm r.aliases.entries ->
        AgreeOn source r { r with aliases := aliases }) ∧
      forall start target : String,
        (beginsWith start source = false ∨ exists entry, r.aliasOf source = some entry ∧
          start.toList.length < entry.1.toList.length) ->
        AgreeOn source r { r with aliases := r.aliases.insert start target } := by
  constructor
  · exact longestAlias_eq_firstAlias r.aliases.entries
  constructor
  · exact fun entry => aliasOf_eq_some_iff
  constructor
  · exact aliasOf_eq_none_iff
  constructor
  · intro aliases hperm
    exact agreeOn_of_aliasOf rfl (aliasOf_eq_of_mem_iff fun entry => hperm.mem_iff)
  · intro start target h
    exact agreeOn_of_aliasOf rfl (aliasOf_insert h)

/-- Of two aliases, one of which begins with the other one, the longer one is taken. -/
theorem aliasOf_unique_longest_nested :
    let r := Resolver.make (some { entries := [("@/", "src/"), ("@/lib/", "lib/")] }) []
    (beginsWith "@/l" "@/lib/a" = true ∧ "@/l".toList.length < "@/lib/".toList.length) ∧
      r.aliasOf "@/lib/a" = some ("@/lib/", "lib/") ∧
      AgreeOn "@/lib/a" r
        { r with aliases := { entries := [("@/lib/", "lib/"), ("@/", "src/")] } } ∧
      AgreeOn "@/lib/a" r { r with aliases := r.aliases.insert "@/l" "else/" } := by
  intro r
  have hlongest : r.IsLongestAlias "@/lib/a" ("@/lib/", "lib/") :=
    ⟨by decide, by decide, by decide⟩
  rcases aliasOf_unique_longest r "@/lib/a" with ⟨_, hiff, _, horder, hinsert⟩
  have hfound := (hiff ("@/lib/", "lib/")).mpr hlongest
  constructor
  · decide
  constructor
  · exact hfound
  constructor
  · exact horder _ (List.Perm.swap _ _ _)
  · exact hinsert "@/l" "else/" (Or.inr ⟨_, hfound, by decide⟩)

end Resolver
end Joinery
