import Joinery.Proofs.FileSet.History
import Mathlib.Data.List.Induction
import Mathlib.Tactic.ByContra
import Mathlib.Tactic.Push

/-!
# The last operation wins

## What a history leaves under each key

Many paths are spellings of one key, so a key may be written, taken out and written
again any number of times.  What is left is told by the last event on the key alone,
and the place of the key among the others by the first write after the last time that
it was taken out.  Both rules are stated on the list of events, without the table that
they are compared with, and are then kept up by one event after the other.
-/

namespace Joinery
namespace FileEvent

/-- The event at a place is the last one on its key. -/
def IsLast (events : List FileEvent) (place : Nat) (e : FileEvent) : Prop :=
  events[place]? = some e ∧
    forall later f, place < later -> events[later]? = some f -> f.key ≠ e.key

/-- A key comes in at a place: it is first written there after it was last taken out. -/
structure Inserts (events : List FileEvent) (key : String) (place : Nat) : Prop where
  writes : exists text, events[place]? = some (.write key text)
  stays : forall later, place < later -> events[later]? ≠ some (.delete key)
  isFirst : forall earlier text, earlier < place -> events[earlier]? = some (.write key text) ->
    exists between, earlier < between ∧ between < place ∧ events[between]? = some (.delete key)

/-- The files are what the last events on their keys say, in the order of insertion. -/
structure Refines (files : Table String) (events : List FileEvent) : Prop where
  content : forall key text,
    files.get? key = some text <-> exists place, IsLast events place (.write key text)
  distinct : files.keys.Nodup
  inserted : forall key, key ∈ files.keys <-> exists place, Inserts events key place
  ordered : files.keys.Pairwise fun k l =>
    forall i j, Inserts events k i -> Inserts events l j -> i < j

/-!
# One more event
-/

theorem getElem?_concat_of_lt {events : List FileEvent} {e : FileEvent} {place : Nat}
    (h : place < events.length) : (events ++ [e])[place]? = events[place]? :=
  List.getElem?_append_left h

theorem getElem?_concat_self (events : List FileEvent) (e : FileEvent) :
    (events ++ [e])[events.length]? = some e := by
  simp

theorem getElem?_concat_cases {events : List FileEvent} {e f : FileEvent} {place : Nat}
    (h : (events ++ [e])[place]? = some f) :
    (place < events.length ∧ events[place]? = some f) ∨ (place = events.length ∧ f = e) := by
  rcases Nat.lt_trichotomy place events.length with hlt | heq | hgt
  · exact Or.inl ⟨hlt, (getElem?_concat_of_lt hlt) ▸ h⟩
  · subst heq
    rw [getElem?_concat_self] at h
    cases h
    exact Or.inr ⟨rfl, rfl⟩
  · have hend : (events ++ [e]).length ≤ place := by
      simp only [List.length_append, List.length_singleton]
      omega
    rw [List.getElem?_eq_none hend] at h
    cases h

theorem lt_length_of_getElem? {events : List FileEvent} {f : FileEvent} {place : Nat}
    (h : events[place]? = some f) : place < events.length :=
  (List.getElem?_eq_some_iff.mp h).1

theorem getElem?_concat_of_some {events : List FileEvent} {e f : FileEvent} {place : Nat}
    (h : events[place]? = some f) : (events ++ [e])[place]? = some f := by
  rw [getElem?_concat_of_lt (lt_length_of_getElem? h)]
  exact h

/-- The last event on a key is the new one, or it was the last one and the new one is not on
this key. -/
theorem isLast_concat_iff {events : List FileEvent} {e f : FileEvent} {place : Nat} :
    IsLast (events ++ [e]) place f <->
      (place = events.length ∧ f = e) ∨ (IsLast events place f ∧ e.key ≠ f.key) := by
  constructor
  · rintro ⟨hplace, hlater⟩
    rcases getElem?_concat_cases hplace with ⟨hlt, hold⟩ | hnew
    · refine Or.inr ⟨⟨hold, ?_⟩, hlater events.length e hlt (getElem?_concat_self events e)⟩
      intro later g hlt' hg
      exact hlater later g hlt' (getElem?_concat_of_some hg)
    · exact Or.inl hnew
  · rintro (⟨rfl, rfl⟩ | ⟨⟨hold, hlater⟩, hkey⟩)
    · refine ⟨getElem?_concat_self events f, ?_⟩
      intro later g hlt hg
      have hle := lt_length_of_getElem? hg
      simp only [List.length_append, List.length_singleton] at hle
      omega
    · refine ⟨getElem?_concat_of_some hold, ?_⟩
      intro later g hlt hg
      rcases getElem?_concat_cases hg with ⟨_, hg⟩ | ⟨_, rfl⟩
      · exact hlater later g hlt hg
      · exact hkey

theorem exists_inserts {events : List FileEvent} {key text : String} {place : Nat}
    (hwrite : events[place]? = some (.write key text))
    (hstays : forall later, place < later -> events[later]? ≠ some (.delete key)) :
    exists first, Inserts events key first := by
  -- of the writes that nothing takes out, the earliest one is meant
  induction place using Nat.strongRecOn generalizing text with
  | ind place ih =>
      by_cases hfirst : forall earlier text, earlier < place ->
          events[earlier]? = some (.write key text) ->
          exists between, earlier < between ∧ between < place ∧
            events[between]? = some (.delete key)
      · exact ⟨place, ⟨text, hwrite⟩, hstays, hfirst⟩
      · push Not at hfirst
        obtain ⟨earlier, text', hlt, hearlier, hbetween⟩ := hfirst
        refine ih earlier hlt hearlier ?_
        intro later hlater hdelete
        rcases Nat.lt_trichotomy later place with hlow | heq | hhigh
        · exact hbetween later hlater hlow hdelete
        · subst heq
          rw [hwrite] at hdelete
          cases hdelete
        · exact hstays later hhigh hdelete

theorem Inserts.unique {events : List FileEvent} {key : String} {i j : Nat}
    (hi : Inserts events key i) (hj : Inserts events key j) : i = j := by
  have hnot : forall {a b : Nat}, Inserts events key a -> Inserts events key b -> ¬a < b := by
    intro a b ha hb hlt
    obtain ⟨text, hwrite⟩ := ha.writes
    obtain ⟨between, hlow, _, hdelete⟩ := hb.isFirst a text hlt hwrite
    exact ha.stays between hlow hdelete
  have h1 := hnot hi hj
  have h2 := hnot hj hi
  omega

/-!
# Insertion places of the longer list
-/

theorem Inserts.lt_length {events : List FileEvent} {key : String} {place : Nat}
    (h : Inserts events key place) : place < events.length := by
  obtain ⟨text, hwrite⟩ := h.writes
  exact lt_length_of_getElem? hwrite

theorem Inserts.concat {events : List FileEvent} {key : String} {place : Nat} {e : FileEvent}
    (h : Inserts events key place) (he : e ≠ .delete key) : Inserts (events ++ [e]) key place := by
  obtain ⟨text, hwrite⟩ := h.writes
  refine ⟨⟨text, getElem?_concat_of_some hwrite⟩, ?_, ?_⟩
  · intro later hlater hdelete
    rcases getElem?_concat_cases hdelete with ⟨_, hold⟩ | ⟨_, hnew⟩
    · exact h.stays later hlater hold
    · exact he hnew.symm
  · intro earlier text' hlt hearlier
    rw [getElem?_concat_of_lt (Nat.lt_trans hlt h.lt_length)] at hearlier
    obtain ⟨between, hlow, hhigh, hdelete⟩ := h.isFirst earlier text' hlt hearlier
    exact ⟨between, hlow, hhigh, getElem?_concat_of_some hdelete⟩

theorem Inserts.of_concat {events : List FileEvent} {key : String} {place : Nat} {e : FileEvent}
    (h : Inserts (events ++ [e]) key place) :
    (Inserts events key place ∧ e ≠ .delete key) ∨
      (place = events.length ∧ exists text, e = .write key text) := by
  obtain ⟨text, hwrite⟩ := h.writes
  rcases getElem?_concat_cases hwrite with ⟨hlt, hold⟩ | ⟨hplace, hnew⟩
  · refine Or.inl ⟨⟨⟨text, hold⟩, ?_, ?_⟩, ?_⟩
    · intro later hlater hdelete
      exact h.stays later hlater (getElem?_concat_of_some hdelete)
    · intro earlier text' hearlier hwrite'
      obtain ⟨between, hlow, hhigh, hdelete⟩ :=
        h.isFirst earlier text' hearlier (getElem?_concat_of_some hwrite')
      rw [getElem?_concat_of_lt (Nat.lt_trans hhigh hlt)] at hdelete
      exact ⟨between, hlow, hhigh, hdelete⟩
    · intro he
      apply h.stays events.length hlt
      rw [getElem?_concat_self, he]
  · exact Or.inr ⟨hplace, text, hnew.symm⟩

theorem inserts_concat_write {events : List FileEvent} {key text : String}
    (h : forall place, ¬Inserts events key place) :
    Inserts (events ++ [.write key text]) key events.length := by
  refine ⟨⟨text, getElem?_concat_self events _⟩, ?_, ?_⟩
  · intro later hlater hdelete
    have hlt := lt_length_of_getElem? hdelete
    simp only [List.length_append, List.length_singleton] at hlt
    omega
  · intro earlier text' hearlier hwrite
    rw [getElem?_concat_of_lt hearlier] at hwrite
    by_contra hnone
    push Not at hnone
    have hstays : forall later, earlier < later -> events[later]? ≠ some (.delete key) := by
      intro later hlater hdelete
      exact hnone later hlater (lt_length_of_getElem? hdelete) (getElem?_concat_of_some hdelete)
    obtain ⟨place, hplace⟩ := exists_inserts hwrite hstays
    exact h place hplace

theorem Inserts.of_concat_of_inserts {events : List FileEvent} {key : String} {i j : Nat}
    {e : FileEvent} (h : Inserts events key i) (he : e ≠ .delete key)
    (hj : Inserts (events ++ [e]) key j) : Inserts events key j := by
  have hij : i = j := (h.concat he).unique hj
  exact hij ▸ h

/-!
# Files and events side by side
-/

theorem refines_empty : Refines Table.empty [] := by
  refine ⟨?_, List.nodup_nil, ?_, List.Pairwise.nil⟩
  · intro key text
    constructor
    · intro h
      cases h
    · rintro ⟨place, hplace, _⟩
      cases hplace
  · intro key
    constructor
    · intro h
      cases h
    · rintro ⟨place, hplace⟩
      exact absurd hplace.lt_length (Nat.not_lt_zero place)

theorem Refines.content_write {files : Table String} {events : List FileEvent}
    (h : Refines files events) (written value key text : String) :
    (files.insert written value).get? key = some text <->
      exists place, IsLast (events ++ [.write written value]) place (.write key text) := by
  simp only [isLast_concat_iff]
  by_cases hkey : written = key
  · subst hkey
    simp only [Table.get?_insert_self]
    constructor
    · intro htext
      cases htext
      exact ⟨events.length, Or.inl ⟨rfl, rfl⟩⟩
    · rintro ⟨place, ⟨_, heq⟩ | ⟨_, hne⟩⟩
      · cases heq
        rfl
      · exact absurd rfl hne
  · rw [Table.get?_insert_other files hkey, h.content key text]
    constructor
    · rintro ⟨place, hlast⟩
      exact ⟨place, Or.inr ⟨hlast, hkey⟩⟩
    · rintro ⟨place, ⟨_, heq⟩ | ⟨hlast, _⟩⟩
      · cases heq
        exact absurd rfl hkey
      · exact ⟨place, hlast⟩

theorem Refines.content_delete {files : Table String} {events : List FileEvent}
    (h : Refines files events) (deleted key text : String) :
    (files.erase deleted).get? key = some text <->
      exists place, IsLast (events ++ [.delete deleted]) place (.write key text) := by
  simp only [isLast_concat_iff]
  by_cases hkey : deleted = key
  · subst hkey
    simp only [Table.get?_erase_self]
    constructor
    · intro htext
      cases htext
    · rintro ⟨place, ⟨_, heq⟩ | ⟨_, hne⟩⟩
      · cases heq
      · exact absurd rfl hne
  · rw [Table.get?_erase_other files hkey, h.content key text]
    constructor
    · rintro ⟨place, hlast⟩
      exact ⟨place, Or.inr ⟨hlast, hkey⟩⟩
    · rintro ⟨place, ⟨_, heq⟩ | ⟨hlast, _⟩⟩
      · cases heq
      · exact ⟨place, hlast⟩

theorem Refines.inserted_write {files : Table String} {events : List FileEvent}
    (h : Refines files events) (written text key : String) :
    key ∈ (files.insert written text).keys <->
      exists place, Inserts (events ++ [.write written text]) key place := by
  have hne : FileEvent.write written text ≠ .delete key := by
    intro heq
    cases heq
  rw [Table.keys_insert]
  by_cases hin : written ∈ files.keys
  · rw [if_pos hin, h.inserted key]
    constructor
    · rintro ⟨place, hplace⟩
      exact ⟨place, hplace.concat hne⟩
    · rintro ⟨place, hplace⟩
      rcases hplace.of_concat with ⟨hplace, _⟩ | ⟨_, value, heq⟩
      · exact ⟨place, hplace⟩
      · cases heq
        exact (h.inserted written).mp hin
  · have hnew : forall place, ¬Inserts events written place := by
      intro place hplace
      exact hin ((h.inserted written).mpr ⟨place, hplace⟩)
    rw [if_neg hin, List.mem_append, List.mem_singleton, h.inserted key]
    constructor
    · rintro (⟨place, hplace⟩ | rfl)
      · exact ⟨place, hplace.concat hne⟩
      · exact ⟨events.length, inserts_concat_write hnew⟩
    · rintro ⟨place, hplace⟩
      rcases hplace.of_concat with ⟨hplace, _⟩ | ⟨_, value, heq⟩
      · exact Or.inl ⟨place, hplace⟩
      · cases heq
        exact Or.inr rfl

theorem Refines.ordered_write {files : Table String} {events : List FileEvent}
    (h : Refines files events) (written text : String) :
    (files.insert written text).keys.Pairwise fun k l =>
      forall i j, Inserts (events ++ [.write written text]) k i ->
        Inserts (events ++ [.write written text]) l j -> i < j := by
  have hne : forall k, FileEvent.write written text ≠ .delete k := by
    intro k heq
    cases heq
  have hold : forall k, k ∈ files.keys -> forall i,
      Inserts (events ++ [.write written text]) k i -> Inserts events k i := by
    intro k hk i hi
    obtain ⟨place, hplace⟩ := (h.inserted k).mp hk
    exact hplace.of_concat_of_inserts (hne k) hi
  have hpairs : files.keys.Pairwise fun k l =>
      forall i j, Inserts (events ++ [.write written text]) k i ->
        Inserts (events ++ [.write written text]) l j -> i < j := by
    refine h.ordered.imp_of_mem ?_
    intro k l hk hl hlt i j hi hj
    exact hlt i j (hold k hk i hi) (hold l hl j hj)
  rw [Table.keys_insert]
  by_cases hin : written ∈ files.keys
  · rw [if_pos hin]
    exact hpairs
  · rw [if_neg hin]
    refine List.pairwise_append.mpr ⟨hpairs, List.pairwise_singleton _ _, ?_⟩
    intro k hk l hl i j hi hj
    cases List.mem_singleton.mp hl
    rcases hj.of_concat with ⟨hj, _⟩ | ⟨rfl, _⟩
    · exact absurd ((h.inserted written).mpr ⟨j, hj⟩) hin
    · exact (hold k hk i hi).lt_length

theorem Refines.write {files : Table String} {events : List FileEvent} (h : Refines files events)
    (key text : String) : Refines (files.insert key text) (events ++ [.write key text]) :=
  ⟨h.content_write key text, Table.nodup_keys _, h.inserted_write key text,
    h.ordered_write key text⟩

theorem Refines.delete {files : Table String} {events : List FileEvent} (h : Refines files events)
    (key : String) : Refines (files.erase key) (events ++ [.delete key]) := by
  refine ⟨h.content_delete key, Table.nodup_keys _, ?_, ?_⟩
  · intro other
    rw [Table.keys_erase, List.mem_filter, h.inserted other]
    constructor
    · rintro ⟨⟨place, hplace⟩, hne⟩
      refine ⟨place, hplace.concat ?_⟩
      intro heq
      cases heq
      simp at hne
    · rintro ⟨place, hplace⟩
      rcases hplace.of_concat with ⟨hplace, hne⟩ | ⟨_, text, heq⟩
      · refine ⟨⟨place, hplace⟩, ?_⟩
        simp only [decide_eq_true_eq]
        intro heq
        exact hne (heq ▸ rfl)
      · cases heq
  · rw [Table.keys_erase]
    refine (h.ordered.filter _).imp ?_
    intro k l hlt i j hi hj
    have hplace : forall {k : String} {i : Nat}, Inserts (events ++ [.delete key]) k i ->
        Inserts events k i := by
      intro k i hi
      rcases hi.of_concat with ⟨hi, _⟩ | ⟨_, text, heq⟩
      · exact hi
      · cases heq
    exact hlt i j (hplace hi) (hplace hj)

theorem Refines.apply {files : Table String} {events : List FileEvent} (h : Refines files events)
    (e : FileEvent) : Refines (FileEvent.apply files e) (events ++ [e]) := by
  cases e with
  | write key text =>
      exact h.write key text
  | delete key =>
      exact h.delete key

theorem replay_refines (events : List FileEvent) : Refines (replay events) events := by
  induction events using List.reverseRec with
  | nil =>
      exact refines_empty
  | append_singleton events e ih =>
      rw [replay_concat]
      exact ih.apply e

theorem Refines.mem_keys_iff {files : Table String} {events : List FileEvent}
    (h : Refines files events) {place : Nat} {e : FileEvent} (hlast : IsLast events place e) :
    e.key ∈ files.keys <-> e ≠ .delete e.key := by
  rw [Table.mem_keys_iff]
  cases e with
  | write key text =>
      constructor
      · intro _ heq
        cases heq
      · intro _
        exact ⟨text, (h.content key text).mpr ⟨place, hlast⟩⟩
  | delete key =>
      constructor
      · rintro ⟨text, htext⟩ _
        obtain ⟨other, hother⟩ := (h.content key text).mp htext
        rcases Nat.lt_trichotomy place other with hlt | rfl | hgt
        · exact hlast.2 other _ hlt hother.1 rfl
        · have heq := hlast.1.symm.trans hother.1
          cases heq
        · exact hother.2 place _ hgt hlast.1 rfl
      · intro hne
        exact absurd rfl hne

end FileEvent

namespace FileSet

/--
Acceptable seeds and work orders make the files that the last events on each key tell, in the order
in which the keys came in, and every operation is counted.
-/
theorem ofWorkOrders_refines {strict : Bool} {existing : List (String × Option String)}
    {orders : List WorkOrder}
    (hseeds : forall entry, entry ∈ existing -> Path.canonical entry.1 ≠ "")
    (horders : forall order, order ∈ orders -> order.IsValid strict) :
    exists s, ofWorkOrders strict existing orders = .ok s ∧
      FileEvent.Refines s.files (history existing orders) ∧
      (forall place e, FileEvent.IsLast (history existing orders) place e ->
        (e.key ∈ s.paths <-> e ≠ .delete e.key)) ∧
      s.counts =
        { created := (WorkOrder.operations orders).countP fun op => op.action = .create
          modified := (WorkOrder.operations orders).countP fun op => op.action = .modify
          deleted := (WorkOrder.operations orders).countP fun op => op.action = .delete } := by
  have hrefines := FileEvent.replay_refines (history existing orders)
  refine ⟨_, ofWorkOrders_eq hseeds horders, hrefines, ?_, countOf_eq _⟩
  intro place e hlast
  exact hrefines.mem_keys_iff hlast

/--
Under other spellings of its key a file is overwritten, deleted and written again, which takes it to
the end; one delete meets no file.
-/
theorem ofWorkOrders_refines_spellings :
    let existing := [("src/a.ts", some "1"), ("./src//b.ts", none)]
    let orders : List WorkOrder :=
      [{ id := "1"
         files :=
          [{ path := "./src//a.ts", action := .modify, content := some "2" },
            { path := "src\\a.ts", action := .delete, content := none }] },
        { id := "2"
          files :=
            [{ path := "/src/a.ts", action := .create, content := some "3" },
              { path := "src/c.ts", action := .delete, content := none }] }]
    exists s, ofWorkOrders true existing orders = .ok s ∧
      s.files.entries = [("src/b.ts", ""), ("src/a.ts", "3")] ∧
      FileEvent.Refines s.files (history existing orders) ∧
      (forall place e, FileEvent.IsLast (history existing orders) place e ->
        (e.key ∈ s.paths <-> e ≠ .delete e.key)) ∧
      s.counts =
        { created := (WorkOrder.operations orders).countP fun op => op.action = .create
          modified := (WorkOrder.operations orders).countP fun op => op.action = .modify
          deleted := (WorkOrder.operations orders).countP fun op => op.action = .delete } := by
  intro existing orders
  have hseeds : forall entry, entry ∈ existing -> Path.canonical entry.1 ≠ "" := by
    decide +kernel
  have horders : forall order, order ∈ orders -> order.IsValid true := by
    intro order horder
    rw [<- orderFault_eq_none_iff]
    revert order
    decide +kernel
  obtain ⟨s, hs, hrest⟩ := ofWorkOrders_refines hseeds horders
  have hentries : (ofWorkOrders true existing orders).toOption.map (fun s => s.files.entries) =
      some [("src/b.ts", ""), ("src/a.ts", "3")] := by
    decide +kernel
  rw [hs] at hentries
  exact ⟨s, hs, Option.some.inj hentries, hrest⟩

end FileSet
end Joinery
