import Joinery.Proofs.Sorting
import Joinery.Proofs.SourceModule.Forms

/-!
# Identifiers

## Names that imports ask for

Every name that an import asks for was read as an identifier, and so it can be written
into an export list and read back from it.
-/

namespace Joinery
namespace SourceModule

open Text Matcher

def IsIdentifier (name : String) : Prop :=
  exists first rest, name.toList = first :: rest ∧ isIdentifierStart first = true ∧
    forall ch, ch ∈ rest -> isIdentifierChar ch = true

theorem IsIdentifier.char {name : String} (h : IsIdentifier name) {ch : Char}
    (hch : ch ∈ name.toList) : isIdentifierChar ch = true := by
  obtain ⟨first, rest, htext, hfirst, hrest⟩ := h
  rw [htext] at hch
  rcases List.mem_cons.mp hch with rfl | hch
  · exact isIdentifierChar_of_isIdentifierStart hfirst
  · exact hrest ch hch

theorem IsIdentifier.not_blank {name : String} (h : IsIdentifier name) {ch : Char}
    (hch : ch ∈ name.toList) : isBlank ch = false := by
  cases hblank : isBlank ch with
  | false =>
      rfl
  | true =>
      have hchar := h.char hch
      rw [isIdentifierChar_of_isBlank hblank] at hchar
      cases hchar

theorem IsIdentifier.ne_nil {name : String} (h : IsIdentifier name) : name.toList ≠ [] := by
  obtain ⟨first, rest, htext, _⟩ := h
  rw [htext]
  exact List.cons_ne_nil _ _

theorem isIdentifier_of_mem {c : Cursor} {found : String × Cursor} (h : found ∈ identifier c) :
    IsIdentifier found.1 := by
  obtain ⟨first, hfirst, h⟩ := mem_bind_iff.mp h
  obtain ⟨word, hword, h⟩ := mem_bind_iff.mp h
  refine ⟨first.1, word.1, ?_, (mem_one_iff.mp hfirst).1, ?_⟩
  · rw [show found.1 = String.ofList (first.1 :: word.1) from
      (Prod.ext_iff.mp (mem_give_iff.mp h)).1, String.toList_ofList]
  · intro ch hch
    rw [List.mem_singleton.mp hword] at hch
    exact List.mem_takeWhile_imp hch

theorem isIdentifier_defaultExport : IsIdentifier defaultExport :=
  ⟨'d', "efault".toList, by decide, by decide,
    List.all_eq_true.mp (by decide)⟩

theorem exists_mem_of_first? {α : Type} {m : Matcher α} {text : List Char} {value : α}
    (h : m.first? text = some value) : exists stop, (value, stop) ∈ m (Cursor.start text) := by
  obtain ⟨found, hfound, rfl⟩ := Option.map_eq_some_iff.mp h
  exact ⟨found.2, List.mem_of_mem_head? hfound⟩

theorem exists_mem_of_mem_findFrom {α : Type} {m : Matcher α} {found : Found α}
    {behind text : List Char} {skip : Nat} (h : found ∈ findFrom m behind skip text) :
    exists stop, (found.value, stop) ∈ m found.place := by
  induction text generalizing behind skip with
  | nil =>
      cases h
  | cons c rest ih =>
      cases skip with
      | succ skip =>
          rw [findFrom_skip] at h
          exact ih h
      | zero =>
          cases hhead : (m ⟨behind, c :: rest⟩).head? with
          | none =>
              rw [findFrom_none hhead] at h
              exact ih h
          | some answer =>
              rw [findFrom_some hhead] at h
              rcases List.mem_cons.mp h with rfl | h
              · exact ⟨answer.2, List.mem_of_mem_head? hhead⟩
              · exact ih h

/-!
# Names in braces
-/

theorem isIdentifier_of_aliased {item : List Char} {names : String × String}
    (h : aliased.first? item = some names) : IsIdentifier names.1 := by
  obtain ⟨stop, h⟩ := exists_mem_of_first? h
  obtain ⟨name, hname, h⟩ := mem_bind_iff.mp h
  obtain ⟨other, _, h⟩ := mem_bind_iff.mp h
  obtain ⟨_, _, h⟩ := mem_bind_iff.mp h
  cases mem_give_iff.mp h
  exact isIdentifier_of_mem hname

theorem isIdentifier_of_destructured {item : List Char} {names : String × String}
    (h : destructured.first? item = some names) : IsIdentifier names.1 := by
  obtain ⟨stop, h⟩ := exists_mem_of_first? h
  obtain ⟨name, hname, h⟩ := mem_bind_iff.mp h
  obtain ⟨_, _, h⟩ := mem_bind_iff.mp h
  obtain ⟨other, _, h⟩ := mem_bind_iff.mp h
  obtain ⟨_, _, h⟩ := mem_bind_iff.mp h
  obtain ⟨_, _, h⟩ := mem_bind_iff.mp h
  obtain ⟨_, _, h⟩ := mem_bind_iff.mp h
  cases mem_give_iff.mp h
  exact isIdentifier_of_mem hname

def AskForIdentifiers (bindings : List Binding) : Prop :=
  forall b name, b ∈ bindings -> b.imported = .named name -> IsIdentifier name

theorem importedNames_ask (typeOnly : Bool) (clause : List Char) :
    AskForIdentifiers (importedNames typeOnly clause) := by
  intro b name hb hname
  obtain ⟨item, _, hitem⟩ := List.mem_filterMap.mp hb
  obtain ⟨names, hnames, rfl⟩ := Option.map_eq_some_iff.mp hitem
  cases hname
  exact isIdentifier_of_aliased hnames

theorem requiredNames_ask (clause : List Char) : AskForIdentifiers (requiredNames clause) := by
  intro b name hb hname
  obtain ⟨item, _, hitem⟩ := List.mem_filterMap.mp hb
  obtain ⟨names, hnames, rfl⟩ := Option.map_eq_some_iff.mp hitem
  cases hname
  exact isIdentifier_of_destructured hnames

theorem bindingsOf_ask (typeOnly : Bool) (default : Option String) (selected : Option Selection) :
    AskForIdentifiers (bindingsOf typeOnly default selected) := by
  intro b name hb hname
  rcases List.mem_append.mp hb with hb | hb
  · obtain ⟨_, _, rfl⟩ := List.mem_map.mp hb
    cases hname
    exact isIdentifier_defaultExport
  · cases selected with
    | none =>
        cases hb
    | some selection =>
        cases selection with
        | names clause =>
            exact importedNames_ask typeOnly clause b name hb hname
        | whole localName =>
            cases List.mem_singleton.mp hb
            cases hname

theorem requireTarget_ask {c : Cursor} {found : List Binding × Cursor}
    (h : found ∈ requireTarget c) : AskForIdentifiers found.1 := by
  rcases List.mem_append.mp h with h | h
  · obtain ⟨clause, _, h⟩ := mem_bind_iff.mp h
    rw [(Prod.ext_iff.mp (mem_give_iff.mp h)).1]
    exact requiredNames_ask clause.1
  · obtain ⟨localName, _, h⟩ := mem_bind_iff.mp h
    rw [(Prod.ext_iff.mp (mem_give_iff.mp h)).1]
    intro b name hb hname
    cases List.mem_singleton.mp hb
    cases hname
    exact isIdentifier_defaultExport

/-!
# Imports
-/

def FormAsks (form : Matcher (Nat -> Option Import)) : Prop :=
  forall c found line record, found ∈ form c -> found.1 line = some record ->
    AskForIdentifiers record.bindings

theorem importForm_asks : FormAsks importForm := by
  intro c found line record h hrecord
  obtain ⟨_, _, h⟩ := mem_bind_iff.mp h
  obtain ⟨_, _, h⟩ := mem_bind_iff.mp h
  obtain ⟨marked, _, h⟩ := mem_bind_iff.mp h
  obtain ⟨default, _, h⟩ := mem_bind_iff.mp h
  obtain ⟨selected, _, h⟩ := mem_bind_iff.mp h
  obtain ⟨_, _, h⟩ := mem_bind_iff.mp h
  obtain ⟨source, _, h⟩ := mem_bind_iff.mp h
  rw [(Prod.ext_iff.mp (mem_give_iff.mp h)).1] at hrecord
  dsimp only at hrecord
  split at hrecord
  · cases hrecord
  · cases hrecord
    exact bindingsOf_ask _ _ _

theorem runForm_asks : FormAsks runForm := by
  intro c found line record h hrecord
  obtain ⟨_, _, h⟩ := mem_bind_iff.mp h
  obtain ⟨_, _, h⟩ := mem_bind_iff.mp h
  obtain ⟨_, _, h⟩ := mem_bind_iff.mp h
  obtain ⟨source, _, h⟩ := mem_bind_iff.mp h
  rw [(Prod.ext_iff.mp (mem_give_iff.mp h)).1] at hrecord
  cases hrecord
  intro b name hb
  cases hb

theorem requireForm_asks : FormAsks requireForm := by
  intro c found line record h hrecord
  obtain ⟨_, _, h⟩ := mem_bind_iff.mp h
  obtain ⟨_, _, h⟩ := mem_bind_iff.mp h
  obtain ⟨bindings, hbindings, h⟩ := mem_bind_iff.mp h
  obtain ⟨_, _, h⟩ := mem_bind_iff.mp h
  obtain ⟨_, _, h⟩ := mem_bind_iff.mp h
  obtain ⟨_, _, h⟩ := mem_bind_iff.mp h
  obtain ⟨source, _, h⟩ := mem_bind_iff.mp h
  rw [(Prod.ext_iff.mp (mem_give_iff.mp h)).1] at hrecord
  cases hrecord
  exact requireTarget_ask hbindings

theorem bareRequireForm_asks : FormAsks bareRequireForm := by
  intro c found line record h hrecord
  obtain ⟨_, _, h⟩ := mem_bind_iff.mp h
  obtain ⟨source, _, h⟩ := mem_bind_iff.mp h
  rw [(Prod.ext_iff.mp (mem_give_iff.mp h)).1] at hrecord
  cases hrecord
  intro b name hb
  cases hb

theorem requested_isIdentifier {path text : String} {record : Import} {name : String}
    (hrecord : record ∈ (scan path text).imports) (hname : name ∈ record.requested) :
    IsIdentifier name := by
  obtain ⟨b, hb, hb'⟩ := List.mem_filterMap.mp hname
  have hnamed : b.imported = .named name := by
    cases himported : b.imported with
    | whole =>
        rw [himported] at hb'
        cases hb'
    | named other =>
        rw [himported] at hb'
        cases hb'
        rfl
  obtain ⟨⟨offset, record'⟩, hmem, rfl⟩ := List.mem_map.mp hrecord
  obtain ⟨form, hform, hin⟩ := List.mem_flatMap.mp (mem_sortBy_iff.mp hmem)
  obtain ⟨found, hfound, hvalue⟩ := List.mem_filterMap.mp hin
  obtain ⟨record, hrecord, heq⟩ := Option.map_eq_some_iff.mp hvalue
  obtain ⟨stop, hstop⟩ := exists_mem_of_mem_findFrom hfound
  have hasks : FormAsks form := by
    simp only [List.mem_cons, List.not_mem_nil, or_false] at hform
    rcases hform with rfl | rfl | rfl | rfl
    · exact importForm_asks
    · exact runForm_asks
    · exact requireForm_asks
    · exact bareRequireForm_asks
  cases heq
  exact hasks _ _ _ _ hstop hrecord b name hb hnamed

end SourceModule
end Joinery
