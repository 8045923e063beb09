import Mathlib.Logic.Basic
import NgIndex.Glob.Match

/-!
# What glob patterns stand for

A pattern stands for a set of byte strings, given part by part.  Matching keeps the list of all that
may be left of a path.  After a part these are what stands behind a string that the part stands for,
so that a path is matched just if the whole of it is a string that the pattern stands for.  Leaving
out remainders of equal length loses none, since all of them are ends of the same path.
-/

namespace NgIndex
namespace Glob

/-! ### The strings of a pattern -/

mutual

/-- Whether a part stands for the given bytes. -/
def Token.Spells (token : Token) (text : List UInt8) : Prop :=
  match token with
  | .literal c => String.utf8EncodeChar c = text
  | .any => ∃ b, [b] = text
  | .star => True
  | .leading => [] = text ∨ ∃ front, front ++ [slash] = text
  | .trailing => ∃ rest, slash :: rest = text
  | .between => [slash] = text ∨ ∃ front, slash :: (front ++ [slash]) = text
  | .charClass negated ranges => ∃ b, inClass ranges b ≠ negated ∧ [b] = text
  | .choice alternatives =>
      if allVoid alternatives then [] = text else SpellsAny alternatives text

/-- Whether a pattern stands for the given bytes: they fall into pieces for its parts. -/
def SpellsAll (tokens : List Token) (text : List UInt8) : Prop :=
  match tokens with
  | [] => [] = text
  | token :: tokens =>
      ∃ front rest, token.Spells front ∧ SpellsAll tokens rest ∧ front ++ rest = text

/-- Whether one of several patterns stands for the given bytes.  Void ones stand for none. -/
def SpellsAny (alternatives : List (List Token)) (text : List UInt8) : Prop :=
  match alternatives with
  | [] => False
  | tokens :: alternatives =>
      isVoidList tokens = false ∧ SpellsAll tokens text ∨ SpellsAny alternatives text

end

/-! ### Remainders -/

theorem mem_suffixes_iff {rest text : List UInt8} : rest ∈ suffixes text ↔ rest <:+ text := by
  induction text with
  | nil => rw [suffixes, List.mem_singleton, List.suffix_nil]
  | cons b text ih => rw [suffixes, List.mem_cons, ih, List.suffix_cons_iff]

theorem mem_afterSlashes_iff {rest text : List UInt8} :
    rest ∈ afterSlashes text ↔ ∃ front, front ++ slash :: rest = text := by
  induction text with
  | nil => simp [afterSlashes]
  | cons b text ih =>
      rw [afterSlashes]
      constructor
      · intro h
        split at h
        · next hb =>
            rcases List.mem_cons.mp h with rfl | h
            · exact ⟨[], by rw [beq_iff_eq.mp hb, List.nil_append]⟩
            · obtain ⟨front, rfl⟩ := ih.mp h
              exact ⟨b :: front, rfl⟩
        · obtain ⟨front, rfl⟩ := ih.mp h
          exact ⟨b :: front, rfl⟩
      · rintro ⟨_ | ⟨c, front⟩, hfront⟩
        · obtain ⟨rfl, rfl⟩ := List.cons.inj hfront
          simp
        · obtain ⟨rfl, htext⟩ := List.cons.inj hfront
          have hrest := ih.mpr ⟨front, htext⟩
          split
          · exact List.mem_cons_of_mem _ hrest
          · exact hrest

theorem dropBytes?_eq_some_iff {bs text rest : List UInt8} :
    dropBytes? bs text = some rest ↔ bs ++ rest = text := by
  induction bs generalizing text with
  | nil => rw [dropBytes?, Option.some_inj, List.nil_append, eq_comm]
  | cons b bs ih =>
      cases text with
      | nil => simp [dropBytes?]
      | cons c text =>
          rw [dropBytes?, List.cons_append, List.cons.injEq, ← ih]
          by_cases h : b = c
          · simp [h]
          · simp [h]

/-- Among ends of one text, an end of the same length is the same end, so none is lost. -/
theorem mem_distinct_iff {text : List UInt8} {rests : List (List UInt8)}
    (h : ∀ rest ∈ rests, rest <:+ text) {rest : List UInt8} :
    rest ∈ distinct rests ↔ rest ∈ rests := by
  induction rests generalizing rest with
  | nil => rfl
  | cons first more ih =>
      have hends := fun other hother => h other (List.mem_cons_of_mem first hother)
      rw [distinct, List.mem_cons]
      split
      · next hagain =>
          obtain ⟨other, hother, hsize⟩ := List.any_eq_true.mp hagain
          have hlength : other.length = first.length := beq_iff_eq.mp hsize
          have hsame : other = first :=
            (List.suffix_of_suffix_length_le (hends other ((ih hends).mp hother))
              (h first List.mem_cons_self) (Nat.le_of_eq hlength)).eq_of_length hlength
          constructor
          · intro hrest
            exact .inr ((ih hends).mp hrest)
          · rintro (rfl | hrest)
            · rwa [← hsame]
            · exact (ih hends).mpr hrest
      · rw [List.mem_cons, ih hends]

/-! ### The remainders of a pattern -/

mutual

/-- What may be left after a part is what stands behind bytes that the part stands for. -/
theorem Token.mem_rests_iff (token : Token) {text rest : List UInt8} :
    rest ∈ token.rests text ↔ ∃ front, token.Spells front ∧ front ++ rest = text := by
  -- Only a choice holds patterns of its own.  All other parts are matched at once.
  cases token with
  | literal c => simp [Token.rests, Token.Spells, dropBytes?_eq_some_iff]
  | any => cases text <;> simp [Token.rests, Token.Spells]
  | star => simp [Token.rests, Token.Spells, mem_suffixes_iff, List.IsSuffix]
  | leading => simp [Token.rests, Token.Spells, mem_afterSlashes_iff, or_and_right, exists_or]
  | trailing =>
      cases text with
      | nil => simp [Token.rests, Token.Spells]
      | cons b text =>
          by_cases hb : b = slash
          · simp [Token.rests, Token.Spells, hb, mem_suffixes_iff, List.IsSuffix]
          · simp [Token.rests, Token.Spells, hb, Ne.symm hb]
  | between =>
      cases text with
      | nil => simp [Token.rests, Token.Spells, or_and_right, exists_or]
      | cons b text =>
          by_cases hb : b = slash
          · simp [Token.rests, Token.Spells, hb, mem_afterSlashes_iff, or_and_right, exists_or]
          · simp [Token.rests, Token.Spells, hb, Ne.symm hb, or_and_right, exists_or]
  | charClass negated ranges =>
      cases text with
      | nil => simp [Token.rests, Token.Spells]
      | cons b text => simp [Token.rests, Token.Spells, and_left_comm]
  | choice alternatives =>
      rw [Token.rests]
      split
      · next hvoid => simp [Token.Spells, hvoid]
      · next hvoid =>
          rw [mem_choiceRests_iff alternatives]
          simp [Token.Spells, hvoid]

/-- What may be left after a pattern is what stands behind bytes that the pattern stands for. -/
theorem mem_listRests_iff (tokens : List Token) {text rest : List UInt8} :
    rest ∈ listRests tokens text ↔ ∃ front, SpellsAll tokens front ∧ front ++ rest = text := by
  cases tokens with
  | nil => simp [listRests, SpellsAll]
  | cons token tokens =>
      -- Repeats are left out twice, both times among ends of the text.
      have hfirst {middle : List UInt8} : middle ∈ distinct (token.rests text) ↔
          ∃ front, token.Spells front ∧ front ++ middle = text := by
        have hends : ∀ middle ∈ token.rests text, middle <:+ text := by
          intro middle hmiddle
          obtain ⟨front, -, hfront⟩ := token.mem_rests_iff.mp hmiddle
          exact ⟨front, hfront⟩
        rw [mem_distinct_iff hends, token.mem_rests_iff]
      have hall (rest : List UInt8) :
          rest ∈ (distinct (token.rests text)).flatMap (listRests tokens) ↔
            ∃ front, SpellsAll (token :: tokens) front ∧ front ++ rest = text := by
        rw [List.mem_flatMap]
        simp only [hfirst, mem_listRests_iff tokens, SpellsAll]
        constructor
        · rintro ⟨_, ⟨first, hspells, rfl⟩, back, hback, rfl⟩
          exact ⟨first ++ back, ⟨first, back, hspells, hback, rfl⟩, List.append_assoc _ _ _⟩
        · rintro ⟨_, ⟨first, back, hspells, hback, rfl⟩, rfl⟩
          exact ⟨back ++ rest, ⟨first, hspells, (List.append_assoc _ _ _).symm⟩, back, hback, rfl⟩
      have hends : ∀ rest ∈ (distinct (token.rests text)).flatMap (listRests tokens),
          rest <:+ text := by
        intro rest hrest
        obtain ⟨front, -, hfront⟩ := (hall rest).mp hrest
        exact ⟨front, hfront⟩
      rw [listRests, mem_distinct_iff hends, hall]

/-- What may be left after one of several patterns is what stands behind bytes that one of them
stands for. -/
theorem mem_choiceRests_iff (alternatives : List (List Token)) {text rest : List UInt8} :
    rest ∈ choiceRests alternatives text ↔
      ∃ front, SpellsAny alternatives front ∧ front ++ rest = text := by
  cases alternatives with
  | nil => simp [choiceRests, SpellsAny]
  | cons tokens alternatives =>
      rw [choiceRests, List.mem_append, mem_choiceRests_iff alternatives]
      cases hvoid : isVoidList tokens with
      | true => simp [SpellsAny, hvoid]
      | false =>
          rw [if_neg Bool.false_ne_true, mem_listRests_iff tokens]
          simp [SpellsAny, hvoid, or_and_right, exists_or]

end

theorem any_isEmpty_listRests_iff (tokens : List Token) (text : List UInt8) :
    (listRests tokens text).any List.isEmpty = true ↔ SpellsAll tokens text := by
  simp [mem_listRests_iff]

/-- A pattern matches the paths that it stands for, except that a pattern which selects files by
their name matches no path that ends in a double dot.  Any directories alone match everything. -/
theorem isMatch_iff (glob : Glob) (path : String) :
    glob.isMatch path = true ↔
      glob.tokens = [.leading] ∨ SpellsAll glob.tokens (bytesOf path) ∧
        (endsInParent path = true → selectsByName glob.tokens = false) := by
  unfold isMatch
  split
  · next htokens => simp [htokens]
  · next hother =>
      have hnot : glob.tokens ≠ [.leading] := hother
      rw [Bool.and_eq_true, any_isEmpty_listRests_iff, Bool.not_eq_true', Bool.and_eq_false_imp,
        or_iff_right hnot]

end Glob
end NgIndex
