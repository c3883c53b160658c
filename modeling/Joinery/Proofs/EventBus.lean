import Joinery.EventBus
import Mathlib.Data.List.Perm.Subperm

/-!
# Subscriptions to a bus

## Who is served, and who should be

A subscription is open until the function that ends it is called.  The bus does not know
subscriptions apart that have the same listener and the same project: the end of one of them
takes out the oldest place of the listener.  Nobody is therefore served more often than it has
open subscriptions, but a function that is called twice may end a subscription of somebody
else, and a younger subscription that ends before an older one takes the older one's place.
The bus serves exactly the open subscriptions, in their order, as long as neither happens.
-/

namespace Joinery
namespace EventBus

variable {listener : Type}

/-- What is done with a bus; the function that ends a subscription is known by its number. -/
inductive Step (listener : Type) where
  | subscribe (project : String) (l : listener)
  | unsubscribe (number : Nat)
  | publish (project : String) (event : Event)
deriving DecidableEq, Repr

/-- A subscription, and whether its function has been called. -/
structure Subscription (listener : Type) where
  project : String
  listener : listener
  ended : Bool := false
deriving DecidableEq, Repr

namespace Subscription

def openTo (subs : List (Subscription listener)) (project : String) :
    List (Subscription listener) :=
  subs.filter fun sub => !sub.ended && decide (sub.project = project)

def entitled (subs : List (Subscription listener)) (project : String) : List listener :=
  (openTo subs project).map (·.listener)

def Rivals (sub : Subscription listener) (others : List (Subscription listener)) : Prop :=
  exists other, other ∈ others ∧ other.ended = false ∧ other.project = sub.project ∧
    other.listener = sub.listener

variable {subs : List (Subscription listener)} {number : Nat} {sub : Subscription listener}

@[simp] theorem entitled_append (older newer : List (Subscription listener)) (project : String) :
    entitled (older ++ newer) project = entitled older project ++ entitled newer project := by
  unfold entitled openTo
  rw [List.filter_append, List.map_append]

theorem entitled_cons (sub : Subscription listener) (newer : List (Subscription listener))
    (project : String) :
    entitled (sub :: newer) project =
      if sub.ended = false ∧ sub.project = project then sub.listener :: entitled newer project
      else entitled newer project := by
  unfold entitled openTo
  rw [List.filter_cons]
  cases sub.ended <;> by_cases hproject : sub.project = project <;> simp [hproject]

theorem rivals_iff {others : List (Subscription listener)} :
    sub.Rivals others <-> sub.listener ∈ entitled others sub.project := by
  unfold entitled openTo
  rw [List.mem_map]
  constructor
  · rintro ⟨other, hother, hopen, hproject, hlistener⟩
    refine ⟨other, List.mem_filter.mpr ⟨hother, ?_⟩, hlistener⟩
    rw [hopen, hproject, decide_eq_true rfl]
    rfl
  · rintro ⟨other, hother, hlistener⟩
    obtain ⟨hother, hopen⟩ := List.mem_filter.mp hother
    rw [Bool.and_eq_true, Bool.not_eq_true', decide_eq_true_eq] at hopen
    exact ⟨other, hother, hopen.1, hopen.2, hlistener⟩

instance [DecidableEq listener] (others : List (Subscription listener)) :
    Decidable (sub.Rivals others) :=
  decidable_of_iff (sub.listener ∈ entitled others sub.project) rivals_iff.symm

theorem exists_split (h : subs[number]? = some sub) :
    exists older newer, subs = older ++ sub :: newer ∧ subs.take number = older ∧
      forall other, subs.set number other = older ++ other :: newer := by
  obtain ⟨hlt, rfl⟩ := List.getElem?_eq_some_iff.mp h
  refine ⟨subs.take number, subs.drop (number + 1), ?_, rfl, ?_⟩
  · rw [List.getElem_cons_drop, List.take_append_drop]
  · intro other
    rw [List.set_eq_take_append_cons_drop, if_pos hlt]

theorem entitled_set_of_ended (hsub : subs[number]? = some sub) (hended : sub.ended = true)
    (other : String) :
    entitled (subs.set number { sub with ended := true }) other = entitled subs other := by
  obtain ⟨hlt, hget⟩ := List.getElem?_eq_some_iff.mp hsub
  have hsame : { sub with ended := true } = subs[number] := by
    rw [hget, <- hended]
  rw [hsame, List.set_getElem_self]

theorem entitled_set_of_open (hsub : subs[number]? = some sub) (hopen : sub.ended = false) :
    exists older newer,
      (forall other, entitled subs other =
        if other = sub.project then
          entitled older other ++ sub.listener :: entitled newer other
        else entitled older other ++ entitled newer other) ∧
      subs.take number = older ∧
      forall other, entitled (subs.set number { sub with ended := true }) other =
        entitled older other ++ entitled newer other := by
  obtain ⟨older, newer, hmade, htake, hset⟩ := exists_split hsub
  refine ⟨older, newer, ?_, htake, ?_⟩
  · intro other
    rw [hmade, entitled_append, entitled_cons]
    by_cases hother : other = sub.project
    · rw [if_pos ⟨hopen, hother.symm⟩, if_pos hother]
    · rw [if_neg fun h => hother h.2.symm, if_neg hother]
  · intro other
    rw [hset, entitled_append, entitled_cons, if_neg fun h => Bool.noConfusion h.1]

theorem entitled_set_other (hsub : subs[number]? = some sub) {other : String}
    (hother : other ≠ sub.project) :
    entitled (subs.set number { sub with ended := true }) other = entitled subs other := by
  cases hended : sub.ended with
  | true =>
      exact entitled_set_of_ended hsub hended other
  | false =>
      obtain ⟨older, newer, hbefore, -, hafter⟩ := entitled_set_of_open hsub hended
      rw [hafter, hbefore, if_neg hother]

theorem entitled_set_perm [DecidableEq listener] (hsub : subs[number]? = some sub)
    (hopen : sub.ended = false) :
    (entitled (subs.set number { sub with ended := true }) sub.project).Perm
      ((entitled subs sub.project).erase sub.listener) := by
  obtain ⟨older, newer, hbefore, -, hafter⟩ := entitled_set_of_open hsub hopen
  rw [hafter, hbefore, if_pos rfl]
  have hmiddle : ((entitled older sub.project ++ sub.listener :: entitled newer sub.project).erase
      sub.listener).Perm ((sub.listener :: (entitled older sub.project ++
        entitled newer sub.project)).erase sub.listener) :=
    List.perm_middle.erase sub.listener
  rw [List.erase_cons_head] at hmiddle
  exact hmiddle.symm

end Subscription

/-!
# The oldest place of a listener
-/

/-- Behind the first place of the listener there is nobody else. -/
def Trails (l : listener) (older : List listener) : Prop :=
  forall before behind, older = before ++ l :: behind -> forall other, other ∈ behind -> other = l

theorem trails_cons_self {l : listener} {older : List listener} :
    Trails l (l :: older) <-> forall other, other ∈ older -> other = l := by
  constructor
  · intro h
    exact h [] older rfl
  · intro h before behind heq other hother
    cases before with
    | nil =>
        cases heq
        exact h other hother
    | cons first before =>
        cases heq
        exact h other (List.mem_append_right _ (List.mem_cons_of_mem _ hother))

theorem trails_cons_of_ne {x l : listener} (hne : x ≠ l) {older : List listener} :
    Trails l (x :: older) <-> Trails l older := by
  constructor
  · rintro h before behind rfl
    exact h (x :: before) behind rfl
  · intro h before behind heq
    cases before with
    | nil =>
        cases heq
        exact absurd rfl hne
    | cons first before =>
        cases heq
        exact h before behind rfl

theorem concat_eq_cons_iff {l : listener} {older : List listener} :
    older ++ [l] = l :: older <-> forall other, other ∈ older -> other = l := by
  induction older with
  | nil =>
      exact iff_of_true rfl fun _ h => absurd h List.not_mem_nil
  | cons x older ih =>
      rw [List.cons_append, List.cons.injEq, List.forall_mem_cons]
      constructor
      · rintro ⟨rfl, h⟩
        exact ⟨rfl, ih.mp h⟩
      · rintro ⟨rfl, h⟩
        exact ⟨rfl, ih.mpr h⟩

/-- The oldest place may be taken out instead of another one, if nobody else is in between. -/
theorem erase_append_cons_iff [DecidableEq listener] {l : listener} {older newer : List listener} :
    (older ++ l :: newer).erase l = older ++ newer <-> Trails l older := by
  induction older with
  | nil =>
      refine iff_of_true (List.erase_cons_head l newer) ?_
      intro before behind heq
      exact absurd heq.symm (List.append_ne_nil_of_right_ne_nil before (List.cons_ne_nil l behind))
  | cons x older ih =>
      by_cases hx : x = l
      · subst hx
        have hturned : older ++ x :: newer = (older ++ [x]) ++ newer := by
          rw [List.append_assoc]
          rfl
        rw [List.cons_append, List.erase_cons_head, hturned, List.append_left_inj,
          concat_eq_cons_iff, trails_cons_self]
      · rw [List.cons_append, List.erase_cons_tail (by simpa using hx), List.cons_append,
          List.cons.injEq, trails_cons_of_ne hx, <- ih]
        exact and_iff_right rfl

instance [DecidableEq listener] (l : listener) (older : List listener) :
    Decidable (Trails l older) :=
  decidable_of_iff ((older ++ [l]).erase l = older ++ []) erase_append_cons_iff

theorem erase_perm_iff [DecidableEq listener] {l : listener} {served due : List listener}
    (h : served.Perm due) : (served.erase l).Perm due <-> l ∉ due := by
  constructor
  · intro herase hmem
    have hlength := herase.length_eq.trans h.length_eq.symm
    rw [List.length_erase_of_mem (h.mem_iff.mpr hmem)] at hlength
    have hpos := List.length_pos_of_mem (h.mem_iff.mpr hmem)
    omega
  · intro hnot
    rw [List.erase_of_not_mem fun hmem => hnot (h.mem_iff.mp hmem)]
    exact h

/-- A bus with all the subscriptions that were ever made to it, the oldest one first. -/
structure Usage (listener : Type) where
  bus : EventBus listener := {}
  made : List (Subscription listener) := []

namespace Usage

open Subscription

variable {u : Usage listener} {number : Nat} {sub : Subscription listener}

/-- Every publication serves exactly the open subscriptions, in their order. -/
def Serves (u : Usage listener) : Prop :=
  forall fails project event,
    u.bus.publish fails project event = (openTo u.made project).map fun sub =>
      { receiver := sub.listener, event := event, failed := fails sub.listener event }

/-- Everybody has as many places as it has open subscriptions. -/
def Balances (u : Usage listener) : Prop :=
  forall project, (u.bus.listeners project).Perm (entitled u.made project)

theorem serves_iff :
    Serves u <-> forall project, u.bus.listeners project = entitled u.made project := by
  constructor
  · intro h project
    have hreceivers := congrArg (List.map (·.receiver))
      (h (fun _ _ => false) project (.error ""))
    unfold publish at hreceivers
    rw [List.map_map, List.map_map] at hreceivers
    exact (List.map_id _).symm.trans hreceivers
  · intro h fails project event
    unfold publish
    rw [h project, entitled, List.map_map]
    rfl

theorem Balances.count_eq (h : Balances u) (project : String) :
    u.bus.count project = (openTo u.made project).length :=
  (h project).length_eq.trans (List.length_map _)

/-- What every call of a function that ends a subscription has to meet. -/
def Allowed (permits : Usage listener -> Nat -> Subscription listener -> Prop)
    (u : Usage listener) : Step listener -> Prop
  | .unsubscribe number => forall sub, u.made[number]? = some sub -> permits u number sub
  | _ => True

/-- A function is called again only while no open subscription has its listener and project. -/
def Harmless (u : Usage listener) (_ : Nat) (sub : Subscription listener) : Prop :=
  sub.ended = true -> ¬sub.Rivals u.made

/--
Besides, a function is called for the first time only while nobody else has a place between the
oldest open subscription of its listener and its own.
-/
def InTurn (u : Usage listener) (number : Nat) (sub : Subscription listener) : Prop :=
  Harmless u number sub ∧
    (sub.ended = false -> Trails sub.listener (entitled (u.made.take number) sub.project))

variable [DecidableEq listener]

instance : Decidable (Harmless u number sub) :=
  inferInstanceAs (Decidable (sub.ended = true -> ¬sub.Rivals u.made))

instance : Decidable (InTurn u number sub) :=
  inferInstanceAs (Decidable (_ ∧ (sub.ended = false -> Trails _ _)))

instance (permits : Usage listener -> Nat -> Subscription listener -> Prop)
    [forall u number sub, Decidable (permits u number sub)] (s : Step listener) :
    Decidable (Allowed permits u s) :=
  match s with
  | .subscribe _ _ => isTrue trivial
  | .unsubscribe number =>
      inferInstanceAs (Decidable (forall sub, sub ∈ u.made[number]? -> permits u number sub))
  | .publish _ _ => isTrue trivial

/-- A number that no subscription has yet belongs to no function. -/
def step (u : Usage listener) : Step listener -> Usage listener
  | .subscribe project l =>
      { bus := u.bus.subscribe project l
        made := u.made ++ [{ project := project, listener := l }] }
  | .unsubscribe number =>
      match u.made[number]? with
      | none => u
      | some sub =>
          { bus := u.bus.unsubscribe sub.project sub.listener
            made := u.made.set number { sub with ended := true } }
  | .publish _ _ => u

def after (steps : List (Step listener)) : Usage listener :=
  steps.foldl step {}

def Always (allowed : Usage listener -> Step listener -> Prop) :
    Usage listener -> List (Step listener) -> Prop
  | _, [] => True
  | u, s :: rest => allowed u s ∧ Always allowed (u.step s) rest

instance decidableAlways (allowed : Usage listener -> Step listener -> Prop)
    [forall u s, Decidable (allowed u s)] (u : Usage listener) (steps : List (Step listener)) :
    Decidable (Always allowed u steps) :=
  match steps with
  | [] => isTrue trivial
  | s :: rest =>
      have := decidableAlways allowed (u.step s) rest
      inferInstanceAs (Decidable (allowed u s ∧ Always allowed (u.step s) rest))

/-!
# One step
-/

theorem entitled_subscribe (u : Usage listener) (project other : String) (l : listener) :
    entitled (u.step (.subscribe project l)).made other =
      if other = project then entitled u.made other ++ [l] else entitled u.made other := by
  show entitled (u.made ++ [_]) other = _
  rw [entitled_append, entitled_cons]
  by_cases hother : other = project
  · subst hother
    rw [if_pos ⟨rfl, rfl⟩, if_pos rfl]
    rfl
  · rw [if_neg fun h => hother h.2.symm, if_neg hother]
    exact List.append_nil _

theorem step_unsubscribe (hsub : u.made[number]? = some sub) :
    u.step (.unsubscribe number) =
      { bus := u.bus.unsubscribe sub.project sub.listener
        made := u.made.set number { sub with ended := true } } := by
  simp only [step, hsub]

theorem step_unsubscribe_none (hnone : u.made[number]? = none) :
    u.step (.unsubscribe number) = u := by
  simp only [step, hnone]

/-- A relation of the places to the entitlements is kept by exactly the steps that are allowed. -/
theorem step_related_iff (related : List listener -> List listener -> Prop)
    {permits : Usage listener -> Nat -> Subscription listener -> Prop}
    (hadd : forall served due l, related served due -> related (served ++ [l]) (due ++ [l]))
    (hend : forall (u : Usage listener) number sub, u.made[number]? = some sub ->
      related (u.bus.listeners sub.project) (entitled u.made sub.project) ->
      (related ((u.bus.listeners sub.project).erase sub.listener)
        (entitled (u.made.set number { sub with ended := true }) sub.project) <->
          permits u number sub))
    (u : Usage listener)
    (hu : forall project, related (u.bus.listeners project) (entitled u.made project))
    (s : Step listener) :
    (forall project,
      related ((u.step s).bus.listeners project) (entitled (u.step s).made project)) <->
        Allowed permits u s := by
  cases s with
  | subscribe project l =>
      refine iff_of_true (fun other => ?_) trivial
      rw [entitled_subscribe]
      show related ((u.bus.subscribe project l).listeners other) _
      rw [listeners_subscribe]
      by_cases hother : other = project
      · rw [if_pos hother, if_pos hother]
        exact hadd _ _ l (hu other)
      · rw [if_neg hother, if_neg hother]
        exact hu other
  | unsubscribe number =>
      cases hsub : u.made[number]? with
      | none =>
          rw [step_unsubscribe_none hsub]
          refine iff_of_true hu ?_
          intro sub hsome
          rw [hsub] at hsome
          cases hsome
      | some sub =>
          rw [step_unsubscribe hsub]
          dsimp only
          constructor
          · intro h other hother
            obtain rfl := Option.some.inj (hsub.symm.trans hother)
            have hproject := h sub.project
            rw [listeners_unsubscribe, if_pos rfl] at hproject
            exact (hend u number sub hsub (hu sub.project)).mp hproject
          · intro hpermits other
            rw [listeners_unsubscribe]
            by_cases hother : other = sub.project
            · subst hother
              rw [if_pos rfl]
              exact (hend u number sub hsub (hu sub.project)).mpr (hpermits sub hsub)
            · rw [if_neg hother, entitled_set_other hsub hother]
              exact hu other
  | publish project event =>
      exact iff_of_true hu trivial

theorem balances_step_iff (u : Usage listener) (hu : Balances u) (s : Step listener) :
    Balances (u.step s) <-> Allowed Harmless u s := by
  refine step_related_iff List.Perm (fun _ _ l h => h.append_right [l]) ?_ u hu s
  intro u number sub hsub h
  unfold Harmless
  rw [rivals_iff]
  cases hended : sub.ended with
  | true =>
      rw [entitled_set_of_ended hsub hended, erase_perm_iff h]
      exact ⟨fun hnot _ => hnot, fun hnot => hnot rfl⟩
  | false =>
      exact iff_of_true ((h.erase sub.listener).trans (entitled_set_perm hsub hended).symm)
        fun h => Bool.noConfusion h

theorem serves_step_iff (u : Usage listener) (hu : Serves u) (s : Step listener) :
    Serves (u.step s) <-> Allowed InTurn u s := by
  rw [serves_iff] at hu ⊢
  refine step_related_iff Eq (fun _ _ l h => congrArg (· ++ [l]) h) ?_ u hu s
  intro u number sub hsub h
  unfold InTurn Harmless
  rw [h, rivals_iff]
  cases hended : sub.ended with
  | true =>
      rw [entitled_set_of_ended hsub hended, List.erase_eq_self_iff]
      exact ⟨fun hnot => ⟨fun _ => hnot, fun h => Bool.noConfusion h⟩, fun h => h.1 rfl⟩
  | false =>
      obtain ⟨older, newer, hbefore, htake, hafter⟩ := entitled_set_of_open hsub hended
      rw [hafter, hbefore, if_pos rfl, htake, erase_append_cons_iff]
      exact ⟨fun hlast => ⟨fun h => Bool.noConfusion h, fun _ => hlast⟩, fun h => h.2 rfl⟩

/-- Whatever is called, nobody gets a place that it has no open subscription for. -/
theorem subperm_step (u : Usage listener) (s : Step listener)
    (hu : forall project, (u.bus.listeners project).Subperm (entitled u.made project)) :
    forall project,
      ((u.step s).bus.listeners project).Subperm (entitled (u.step s).made project) := by
  have hallowed : Allowed (fun _ _ _ => True) u s := by
    cases s with
    | unsubscribe number => exact fun _ _ => trivial
    | _ => trivial
  refine (step_related_iff List.Subperm ?_ ?_ u hu s).mpr hallowed
  · intro served due l h
    exact h.append (List.Subperm.refl [l])
  · intro u number sub hsub h
    refine iff_of_true ?_ trivial
    cases hended : sub.ended with
    | true =>
        rw [entitled_set_of_ended hsub hended]
        exact List.erase_sublist.subperm.trans h
    | false =>
        exact (h.erase sub.listener).trans (entitled_set_perm hsub hended).symm.subperm

/-!
# After any steps
-/

theorem always_iff {allowed : Usage listener -> Step listener -> Prop}
    {kept : Usage listener -> Prop}
    (hstep : forall u, kept u -> forall s, kept (u.step s) <-> allowed u s)
    (steps : List (Step listener)) (hu : kept u) :
    (forall before, before <+: steps -> kept (before.foldl step u)) <-> Always allowed u steps := by
  induction steps generalizing u with
  | nil =>
      refine iff_of_true ?_ trivial
      intro before hbefore
      rw [List.prefix_nil.mp hbefore]
      exact hu
  | cons s rest ih =>
      constructor
      · intro h
        have hs : kept (u.step s) := h [s] (List.prefix_append [s] rest)
        refine ⟨(hstep u hu s).mp hs, (ih hs).mp ?_⟩
        intro before hbefore
        exact h (s :: before) (List.cons_prefix_cons.mpr ⟨rfl, hbefore⟩)
      · rintro ⟨hs, hrest⟩ before hbefore
        cases before with
        | nil =>
            exact hu
        | cons t before =>
            obtain ⟨rfl, hprefix⟩ := List.cons_prefix_cons.mp hbefore
            exact (ih ((hstep u hu t).mpr hs)).mpr hrest before hprefix

theorem listeners_subperm (steps : List (Step listener)) (project : String) :
    ((after steps).bus.listeners project).Subperm (entitled (after steps).made project) := by
  have hstart : forall project,
      (({} : Usage listener).bus.listeners project).Subperm
        (entitled ({} : Usage listener).made project) := fun _ => List.Subperm.refl _
  unfold after
  generalize ({} : Usage listener) = u at hstart ⊢
  induction steps generalizing u with
  | nil =>
      exact hstart project
  | cons s rest ih =>
      exact ih _ (subperm_step u s hstart)

/-- As nobody has a place too many, the places are right if there are enough of them. -/
theorem balances_after_iff (steps : List (Step listener)) :
    Balances (after steps) <->
      forall project,
        (after steps).bus.count project = (openTo (after steps).made project).length := by
  constructor
  · intro h project
    exact h.count_eq project
  · intro h project
    refine (listeners_subperm steps project).perm_of_length_le ?_
    rw [entitled, List.length_map, <- h project]
    exact Nat.le_refl _

theorem listeners_end_again (steps : List (Step listener)) {number : Nat}
    {sub : Subscription listener} (hsub : (after steps).made[number]? = some sub)
    (hrivals : ¬sub.Rivals (after steps).made) (project : String) :
    ((after steps).step (.unsubscribe number)).bus.listeners project =
      (after steps).bus.listeners project := by
  rw [step_unsubscribe hsub]
  dsimp only
  rw [listeners_unsubscribe]
  by_cases hproject : project = sub.project
  · subst hproject
    rw [if_pos rfl]
    refine List.erase_of_not_mem ?_
    intro hmem
    exact hrivals (rivals_iff.mpr ((listeners_subperm steps sub.project).subset hmem))
  · rw [if_neg hproject]

/--
In every history the publications serve exactly the open subscriptions, in their order, up to the
first call that is out of turn, and the listeners are counted right up to the first repeated call
that is not harmless.  Nobody is ever served more often than it has open subscriptions, and a
repeated call without rivals changes nothing.
-/
theorem publish_serves_open_iff (steps : List (Step listener)) :
    ((forall before, before <+: steps -> Serves (after before)) <->
      Always (Allowed InTurn) {} steps) ∧
    ((forall before, before <+: steps -> forall project,
        (after before).bus.count project = (openTo (after before).made project).length) <->
      Always (Allowed Harmless) {} steps) ∧
    (forall fails project event,
      (((after steps).bus.publish fails project event).map (·.receiver)).Subperm
        (entitled (after steps).made project)) ∧
    (forall number sub, (after steps).made[number]? = some sub -> sub.ended = true ->
      ¬sub.Rivals (after steps).made -> forall project,
        ((after steps).step (.unsubscribe number)).bus.listeners project =
          (after steps).bus.listeners project) := by
  refine ⟨always_iff serves_step_iff steps ?_, ?_, ?_, ?_⟩
  · exact serves_iff.mpr fun _ => rfl
  · rw [<- always_iff balances_step_iff steps fun _ => List.Perm.refl _]
    exact forall_congr' fun before => imp_congr_right fun _ => (balances_after_iff before).symm
  · intro fails project event
    unfold publish
    rw [List.map_map]
    exact (congrArg (List.Subperm · _) (List.map_id _)).mpr (listeners_subperm steps project)
  · intro number sub hsub _ hrivals project
    exact listeners_end_again steps hsub hrivals project

/-- Repeated subscriptions that end in turn, two of them next to each other, one of them twice. -/
def repeatedSteps : List (Step String) :=
  [.subscribe "a" "r1", .subscribe "a" "r2", .subscribe "a" "r2", .subscribe "b" "r1",
    .unsubscribe 2, .unsubscribe 0, .publish "a" (.error "late"), .unsubscribe 0,
    .subscribe "a" "r1", .subscribe "a" "r2"]

theorem publish_serves_open_repeated :
    Always (Allowed InTurn) {} repeatedSteps ∧ Serves (after repeatedSteps) ∧
      (after repeatedSteps).bus.listeners "a" = ["r2", "r1", "r2"] := by
  have hturn : Always (Allowed InTurn) {} repeatedSteps := by decide
  refine ⟨hturn, ?_, by decide⟩
  exact (publish_serves_open_iff repeatedSteps).1.mpr hturn repeatedSteps (List.prefix_refl _)

/-- A listener that subscribed twice loses both places to a function that is called twice. -/
def endsTwice : List (Step String) :=
  [.subscribe "a" "r1", .subscribe "a" "r1", .unsubscribe 0, .unsubscribe 0]

def endsYounger : List (Step String) :=
  [.subscribe "a" "r1", .subscribe "a" "r2", .subscribe "a" "r1", .unsubscribe 2]

theorem ends_taken_for_others :
    entitled (after endsTwice).made "a" = ["r1"] ∧ (after endsTwice).bus.count "a" = 0 ∧
      (after endsTwice).bus.count "a" ≠ (after (endsTwice.take 3)).bus.count "a" ∧
      ¬Serves (after endsTwice) ∧
      entitled (after endsYounger).made "a" = ["r1", "r2"] ∧
      (after endsYounger).bus.listeners "a" = ["r2", "r1"] ∧ ¬Serves (after endsYounger) := by
  refine ⟨by decide, by decide, by decide, ?_, by decide, by decide, ?_⟩
  · intro h
    exact absurd (serves_iff.mp h "a") (by decide)
  · intro h
    exact absurd (serves_iff.mp h "a") (by decide)

end Usage
end EventBus
end Joinery
