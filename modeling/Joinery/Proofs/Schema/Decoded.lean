import Joinery.Proofs.Schema.Records

/-!
# What was decoded without faults

## From a whole to its parts

The fields of a model are decoded one by one.  The model has a value only if all of its fields
have one, and its faults are those of its fields in their order.
-/

namespace Joinery
namespace Decoded

variable {α β γ : Type}

theorem exists_of_map {f : α -> β} {a : Decoded α} {b : β} (h : f <$> a = .value b) :
    exists x, a = .value x ∧ f x = b := by
  cases a with
  | value x =>
      cases h
      exact ⟨x, rfl, rfl⟩
  | faults list =>
      cases h

theorem exists_of_seq {f : Decoded (α -> β)} {a : Decoded α} {b : β} (h : f <*> a = .value b) :
    exists g x, f = .value g ∧ a = .value x ∧ g x = b := by
  cases f with
  | value g =>
      cases a with
      | value x =>
          cases h
          exact ⟨g, x, rfl, rfl, rfl⟩
      | faults list =>
          cases h
  | faults list =>
      cases a <;> cases h

theorem exists_of_check {a : Decoded α} {next : α -> Decoded β} {b : β}
    (h : a.check next = .value b) : exists x, a = .value x ∧ next x = .value b := by
  cases a with
  | value x =>
      exact ⟨x, rfl, h⟩
  | faults list =>
      cases h

theorem eq_value_of_within {step : Step} {a : Decoded α} {x : α} (h : within step a = .value x) :
    a = .value x := by
  cases a with
  | value y =>
      exact h
  | faults list =>
      cases h

def barring (faults : List Fault) (a : α) : Decoded α :=
  if faults = [] then .value a else .faults faults

theorem map_barring (f : α -> β) (faults : List Fault) (a : α) :
    f <$> barring faults a = barring faults (f a) := by
  unfold barring
  split <;> rfl

theorem seq_barring (f : α -> β) (faults more : List Fault) (a : α) :
    barring faults f <*> barring more a = barring (faults ++ more) (f a) := by
  unfold barring
  by_cases h : faults = []
  · subst h
    rw [if_pos rfl, List.nil_append]
    split <;> rfl
  · have hboth : ¬faults ++ more = [] := by simp [h]
    rw [if_neg h, if_neg hboth]
    by_cases hmore : more = []
    · subst hmore
      rw [if_pos rfl, List.append_nil]
      rfl
    · rw [if_neg hmore]
      rfl

end Decoded

namespace Decode

open Decoded
open Json (sortKeys sortKeys_list)

variable {α : Type} {decode : Decoder α} {a : α}

theorem exists_of_model {name : String} {fields : Fields -> Decoded α} {v : Value}
    (h : model name fields v = .value a) :
    exists entries, v = .mapping entries ∧ fields entries = .value a := by
  cases v with
  | mapping entries =>
      exact ⟨entries, rfl, h⟩
  | _ =>
      cases h

theorem of_defaulted {P : α -> Prop} {fields : Fields} {name : String} {default : α}
    (h : defaulted fields name default decode = .value a) (hdefault : P default)
    (hread : forall v b, decode v = .value b -> P b) : P a := by
  unfold defaulted at h
  split at h
  · exact hread _ a (eq_value_of_within h)
  · cases h
    exact hdefault

section Bounds

variable {bound i : Int} {decode : Decoder Int} {v : Value}

theorem le_of_atLeast (h : atLeast bound decode v = .value i) : bound ≤ i := by
  rcases exists_of_check h with ⟨given, _, hgiven⟩
  split at hgiven
  · next hle =>
      cases hgiven
      exact hle
  · cases hgiven

theorem le_of_atMost (h : atMost bound decode v = .value i) :
    i ≤ bound ∧ decode v = .value i := by
  rcases exists_of_check h with ⟨given, hread, hgiven⟩
  split at hgiven
  · next hle =>
      cases hgiven
      exact ⟨hle, hread⟩
  · cases hgiven

end Bounds

theorem list_texts (texts : List String) :
    Decode.list string (.list (texts.map .text)) = .value texts := by
  have hread : Decode.list string (sortKeys (.list (texts.map .text))) = .value texts :=
    list_map fun _ _ => rfl
  rwa [sortKeys_list, List.map_map] at hread

end Decode

namespace Table

open Decode

theorem mappingOf_tableValue (t : Table String) :
    mappingOf string (Config.tableValue t) = .value t.entries := by
  unfold Config.tableValue Config.mapping
  rw [List.map_map]
  exact collect_entries t.entries

end Table
end Joinery
