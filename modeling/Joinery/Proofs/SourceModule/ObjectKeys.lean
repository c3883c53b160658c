import Joinery.Proofs.SourceModule.Written

/-!
# Keys of objects

## A key that ends with dollar signs

The key of an object is read up to the edge of a word.  The dollar sign is a character of
identifiers, but not of words: the dollar signs at the end of a key are left out, and a key of
nothing else is passed over.
-/

namespace Joinery
namespace SourceModule

open Text Matcher

variable {β : Type} {rest : List Char}

/-!
# Giving back what was read
-/

theorem exists_beginnings_bind {p : Char -> Bool} {next : List Char -> Matcher β}
    {kept dropped behind : List Char} (hstretch : (kept ++ dropped).all p = true)
    (hrest : Stops p rest)
    (hskip : forall front back, dropped = front ++ back -> front ≠ [] ->
      next (kept ++ front) ⟨(kept ++ front).reverse ++ behind, back ++ rest⟩ = []) :
    exists shorter,
      (Matcher.beginnings p >>= next) ⟨behind, kept ++ dropped ++ rest⟩ =
        next kept ⟨kept.reverse ++ behind, dropped ++ rest⟩ ++ shorter ∧
      (kept = [] -> shorter = []) := by
  let answers (size : Nat) : List (β × Cursor) :=
    next ((kept ++ dropped).take size)
      ⟨((kept ++ dropped).take size).reverse ++ behind, (kept ++ dropped ++ rest).drop size⟩
  have hall : (Matcher.beginnings p >>= next) ⟨behind, kept ++ dropped ++ rest⟩ =
      (List.range ((kept ++ dropped).length + 1)).reverse.flatMap answers := by
    show (Matcher.beginnings p _).flatMap _ = _
    simp only [Matcher.beginnings, takeWhile_stops hstretch hrest, List.flatMap_map]
    rfl
  have hsizes : (List.range ((kept ++ dropped).length + 1)).reverse =
      ((List.range dropped.length).map (kept.length + 1 + ·)).reverse ++
        kept.length :: (List.range kept.length).reverse := by
    rw [List.length_append, Nat.add_right_comm, List.range_add, List.reverse_append,
      List.range_succ, List.reverse_concat]
  have hlonger : ((List.range dropped.length).map (kept.length + 1 + ·)).reverse.flatMap answers =
      [] := by
    refine List.flatMap_eq_nil_iff.mpr fun size hsize => ?_
    obtain ⟨more, hmore, rfl⟩ := List.mem_map.mp (List.mem_reverse.mp hsize)
    have hlt : more < dropped.length := List.mem_range.mp hmore
    have hnone := hskip (dropped.take (more + 1)) (dropped.drop (more + 1))
      (List.take_append_drop _ _).symm (List.ne_nil_of_length_pos (by rw [List.length_take]; omega))
    have hsize : kept.length + 1 + more = kept.length + (more + 1) := by
      omega
    show next _ _ = []
    rw [hsize, List.append_assoc, List.take_length_add_append, List.drop_length_add_append,
      List.drop_append_of_le_length hlt]
    exact hnone
  have hkept : answers kept.length = next kept ⟨kept.reverse ++ behind, dropped ++ rest⟩ := by
    show next _ _ = _
    rw [List.take_left, List.append_assoc, List.drop_left]
  refine ⟨(List.range kept.length).reverse.flatMap answers, ?_, ?_⟩
  · rw [hall, hsizes, List.flatMap_append, hlonger, List.nil_append, List.flatMap_cons, hkept]
  · rintro rfl
    rfl

/-!
# The end of a key
-/

def readKey? (key : String) : Option String :=
  match dropEnd (· == '$') key.toList with
  | [] => none
  | word => some (String.ofList word)

theorem exists_dollars (text : List Char) :
    exists dollars, text = dropEnd (· == '$') text ++ dollars ∧
      (forall ch, ch ∈ dollars -> ch = '$') ∧
        forall front last, dropEnd (· == '$') text = front ++ [last] -> last ≠ '$' := by
  refine ⟨(text.reverse.takeWhile (· == '$')).reverse, ?_, ?_, ?_⟩
  · rw [dropEnd, <- List.reverse_append, List.takeWhile_append_dropWhile, List.reverse_reverse]
  · intro ch hch
    have hdollar := List.mem_takeWhile_imp (List.mem_reverse.mp hch)
    exact beq_iff_eq.mp hdollar
  · intro front last hlast
    have hhead := List.head?_dropWhile_not (· == '$') text.reverse
    rw [dropEnd, List.reverse_eq_iff, List.reverse_concat] at hlast
    rw [hlast] at hhead
    simpa using hhead

theorem readKey?_eq_self_iff (key : Identifier) :
    readKey? key.name = some key.name <-> key.chars.getLast? ≠ some '$' := by
  obtain ⟨front, last, hchars⟩ :=
    (List.eq_nil_or_concat' key.name.toList).resolve_left key.isIdentifier.ne_nil
  have hgetLast : key.chars.getLast? = some last := by
    rw [Identifier.chars, hchars, List.getLast?_concat]
  obtain ⟨_, _, _, hlast⟩ := exists_dollars key.name.toList
  rw [hgetLast, ne_eq, Option.some_inj]
  constructor
  · intro h
    refine hlast front last ?_
    unfold readKey? at h
    split at h
    · cases h
    · have hsame := congrArg String.toList (Option.some.inj h)
      rw [String.toList_ofList] at hsame
      exact hsame.trans hchars
  · intro hne
    have hkept : dropEnd (· == '$') key.name.toList = key.name.toList := by
      rw [dropEnd, hchars, List.reverse_concat, List.dropWhile_cons_of_neg (by simpa using hne),
        List.reverse_cons, List.reverse_reverse]
    unfold readKey?
    rw [hkept]
    split
    · next hnone =>
        exact absurd hnone key.isIdentifier.ne_nil
    · rw [String.ofList_toList]

theorem isWordChar_of_isIdentifierChar {ch : Char} (h : isIdentifierChar ch = true)
    (hdollar : ch ≠ '$') : isWordChar ch = true := by
  simpa [isIdentifierChar, hdollar] using h

theorem wordEdge_dollar {behind back : List Char} (hbehind : behind.head? = some '$')
    (hback : forall ch, ch ∈ back -> ch = '$') (hrest : Stops isWordChar rest) :
    Matcher.wordEdge ⟨behind, back ++ rest⟩ = [] := by
  have hstop : Stops isWordChar (back ++ rest) := by
    refine Stops.append (fun ch hch => ?_) hrest
    rw [hback ch (List.mem_of_mem_head? hch)]
    decide
  have hnone : (back ++ rest).head?.any isWordChar = false := by
    cases htext : back ++ rest with
    | nil =>
        rfl
    | cons ch more =>
        exact hstop ch (by rw [htext]; rfl)
  have hdollar : isWordChar '$' = false := by
    decide
  have hedge : isWordEdge behind.head? (back ++ rest).head? = false := by
    rw [isWordEdge, hbehind, hnone, Option.any_some, hdollar]
    rfl
  exact if_neg (Bool.eq_false_iff.mp hedge)

/-- The last step of reading a key: it has these characters, if a word ends behind them. -/
def endOfKey (chars : List Char) : Matcher String := do
  Matcher.wordEdge
  Matcher.give (String.ofList chars)

theorem objectKey_eq (key : Identifier) {first : Char} {tail : List Char}
    (htext : key.name.toList = first :: tail) (hfirst : isIdentifierStart first = true)
    (hrest : Stops isIdentifierChar rest) (hblank : Stops isBlank rest) :
    objectKey ⟨[], key.chars ++ rest⟩ =
      (Matcher.beginnings isIdentifierChar >>= fun word => endOfKey (first :: word))
        ⟨[first], tail ++ rest⟩ := by
  have hasync : Refuses (keyword "async") (key.chars ++ rest) :=
    Refuses.keyword_identifier key (by decide) hrest (Or.inr hblank)
  have hone : Matcher.one isIdentifierStart ⟨[], key.chars ++ rest⟩ =
      [(first, ⟨[first], tail ++ rest⟩)] := by
    rw [Identifier.chars, htext]
    exact TakesOnly.one hfirst (tail ++ rest) []
  have hkey : objectKey ⟨[], key.chars ++ rest⟩ =
      (anyIdentifier >>= fun name => Matcher.wordEdge >>= fun _ => Matcher.give name)
        ⟨[], key.chars ++ rest⟩ :=
    bind_of_eq (TakesOnly.left_out hasync [])
  rw [hkey, anyIdentifier, bind_assoc, bind_of_eq hone, bind_assoc]
  simp only [give_bind]
  rfl

theorem endOfKey_dollar (chars : List Char) {behind back : List Char}
    (hbehind : behind.head? = some '$') (hback : forall ch, ch ∈ back -> ch = '$')
    (hrest : Stops isWordChar rest) : endOfKey chars ⟨behind, back ++ rest⟩ = [] := by
  show (Matcher.wordEdge _).flatMap _ = []
  rw [wordEdge_dollar hbehind hback hrest]
  rfl

theorem endOfKey_word {front dollars : List Char} {last : Char} (behind : List Char)
    (hlast : isWordChar last = true) (hdollars : forall ch, ch ∈ dollars -> ch = '$')
    (hrest : Stops isWordChar rest) (chars : List Char) :
    endOfKey chars ⟨(front ++ [last]).reverse ++ behind, dollars ++ rest⟩ =
      [(String.ofList chars, ⟨(front ++ [last]).reverse ++ behind, dollars ++ rest⟩)] := by
  have hstop : Stops isWordChar (dollars ++ rest) := by
    refine Stops.append (fun ch hch => ?_) hrest
    rw [hdollars ch (List.mem_of_mem_head? hch)]
    decide
  exact bind_of_eq (wordEdge_eq hlast hstop behind)

theorem exists_objectKey_eq (key : Identifier) {first : Char} {kept dollars : List Char}
    (htext : key.name.toList = first :: (kept ++ dollars))
    (hdollars : forall ch, ch ∈ dollars -> ch = '$') (hrest : Stops isIdentifierChar rest)
    (hblank : Stops isBlank rest) :
    exists shorter,
      objectKey ⟨[], key.chars ++ rest⟩ =
        endOfKey (first :: kept) ⟨(first :: kept).reverse, dollars ++ rest⟩ ++ shorter ∧
      (kept = [] -> shorter = []) := by
  have hword : Stops isWordChar rest :=
    hrest.mono fun ch hch => by rw [isIdentifierChar, hch]; rfl
  obtain ⟨other, tail, hother, hfirst, htail⟩ := key.isIdentifier
  obtain ⟨rfl, rfl⟩ := List.cons.inj (hother.symm.trans htext)
  rw [objectKey_eq key htext hfirst hrest hblank, List.reverse_cons]
  refine exists_beginnings_bind (List.all_eq_true.mpr htail) hrest fun front back hsplit hne => ?_
  refine endOfKey_dollar _ ?_ (fun ch hch => hdollars ch (by simp [hsplit, hch])) hword
  obtain ⟨before, last, rfl⟩ := (List.eq_nil_or_concat' front).resolve_left hne
  rw [hdollars last (by simp [hsplit])]
  simp

theorem first?_objectKey (key : Identifier) (hrest : Stops isIdentifierChar rest)
    (hblank : Stops isBlank rest) : objectKey.first? (key.chars ++ rest) = readKey? key.name := by
  have hword : Stops isWordChar rest :=
    hrest.mono fun ch hch => by rw [isIdentifierChar, hch]; rfl
  obtain ⟨dollars, hsplit, hdollars, hlast⟩ := exists_dollars key.name.toList
  unfold Matcher.first? Cursor.start readKey?
  cases hkept : dropEnd (· == '$') key.name.toList with
  | nil =>
      rw [hkept, List.nil_append] at hsplit
      cases hdollar : dollars with
      | nil =>
          exact absurd (hsplit.trans hdollar) key.isIdentifier.ne_nil
      | cons first tail =>
          rw [hdollar] at hsplit hdollars
          have hfirst : first = '$' := hdollars first (List.mem_cons_self ..)
          have htail : forall ch, ch ∈ tail -> ch = '$' :=
            fun ch hch => hdollars ch (List.mem_cons_of_mem _ hch)
          obtain ⟨shorter, hread, hnone⟩ :=
            @exists_objectKey_eq _ key first [] tail hsplit htail hrest hblank
          have hbehind : [first].reverse.head? = some '$' := congrArg some hfirst
          rw [hread, hnone rfl, endOfKey_dollar _ hbehind htail hword]
          rfl
  | cons first kept =>
      rw [hkept] at hsplit hlast
      obtain ⟨shorter, hread, _⟩ := exists_objectKey_eq key hsplit hdollars hrest hblank
      obtain ⟨front, last, hfront⟩ :=
        (List.eq_nil_or_concat' (first :: kept)).resolve_left (List.cons_ne_nil _ _)
      have hlastWord : isWordChar last = true := by
        refine isWordChar_of_isIdentifierChar (key.isIdentifier.char ?_) (hlast front last hfront)
        rw [hsplit, hfront]
        simp
      have hend := @endOfKey_word _ front dollars last [] hlastWord hdollars hword (first :: kept)
      rw [<- hfront, List.append_nil] at hend
      rw [hread, hend]
      rfl

end SourceModule
end Joinery
