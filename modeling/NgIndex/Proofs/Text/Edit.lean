import Mathlib.Data.List.DropRight
import Mathlib.Data.List.Infix
import Mathlib.Data.String.Basic
import NgIndex.Proofs.Text.Bytes
import NgIndex.Text.Edit.Places

/-!
# Edits are splices

An edit turns the old text into the new one: what both share at the front and at the end is kept,
and what stands between goes away for what is inserted.  Its places are boundaries of characters in
the texts that they belong to, and they are what the search in bytes finds, which never fails.

The search counts equal bytes, and the edit equal characters.  They come to the same places because
the characters in front of a boundary are determined by their bytes: a boundary that the search
could stop at earlier would be one up to which both texts have the same characters.
-/

namespace NgIndex
namespace Text

/-! ### What two lists share -/

theorem prefix_commonFront_iff {cs a b : List Char} :
    cs <+: commonFront a b ↔ cs <+: a ∧ cs <+: b := by
  induction a, b using commonFront.induct generalizing cs with
  | case1 x as y bs hxy ih =>
      obtain rfl : x = y := by simpa using hxy
      cases cs with
      | nil => simp
      | cons c cs =>
          rw [commonFront, if_pos hxy, List.cons_prefix_cons, List.cons_prefix_cons,
            List.cons_prefix_cons, ih]
          tauto
  | case2 x as y bs hxy =>
      rw [commonFront, if_neg hxy]
      cases cs with
      | nil => simp
      | cons c cs =>
          simp only [List.prefix_nil, reduceCtorEq, List.cons_prefix_cons, false_iff]
          rintro ⟨⟨rfl, -⟩, rfl, -⟩
          exact hxy (beq_self_eq_true c)
  | case3 a b hcons =>
      have hnil : commonFront a b = [] := by
        unfold commonFront
        split
        · next x as y bs => exact absurd rfl (hcons x as y bs rfl)
        · rfl
      rw [hnil, List.prefix_nil]
      constructor
      · rintro rfl
        exact ⟨List.nil_prefix, List.nil_prefix⟩
      · rintro ⟨⟨as, rfl⟩, bs, rfl⟩
        cases cs with
        | nil => rfl
        | cons c cs => exact absurd rfl (hcons c _ c _ rfl)

theorem suffix_commonEnd_iff {cs a b : List Char} :
    cs <:+ commonEnd a b ↔ cs <:+ a ∧ cs <:+ b := by
  rw [commonEnd, ← List.reverse_prefix, List.reverse_reverse, prefix_commonFront_iff,
    List.reverse_prefix, List.reverse_prefix]

theorem le_sharedBytes_zip_iff {a b : List UInt8} {count : Nat} :
    count ≤ sharedBytes (a.zip b) ↔
      count ≤ a.length ∧ count ≤ b.length ∧ a.take count = b.take count := by
  induction count generalizing a b with
  | zero => simp
  | succ count ih =>
      cases a with
      | nil => simp [sharedBytes]
      | cons x as =>
          cases b with
          | nil => simp [sharedBytes]
          | cons y bs =>
              by_cases hxy : x = y
              · subst hxy
                have hnext := ih (a := as) (b := bs)
                simpa [sharedBytes] using hnext
              · simp [sharedBytes, hxy]

/-! ### Bytes of texts -/

@[simp] theorem bytes_append (a b : String) : bytes (a ++ b) = bytes a ++ bytes b := by
  simp [bytes]

@[simp] theorem length_bytes (text : String) : (bytes text).length = text.utf8ByteSize := rfl

theorem bytes_injective {a b : String} (h : bytes a = bytes b) : a = b := by
  apply String.toByteArray_inj.mp
  apply ByteArray.ext
  exact Array.toList_inj.mp h

theorem bytes_singleton (c : Char) : bytes (String.ofList [c]) = String.utf8EncodeChar c := by
  simp [bytes, List.utf8Encode]

@[simp] theorem take_bytes_append (front rest : String) :
    (bytes (front ++ rest)).take front.utf8ByteSize = bytes front := by
  rw [bytes_append, ← length_bytes, List.take_left]

@[simp] theorem drop_bytes_append (front rest : String) :
    (bytes (front ++ rest)).drop front.utf8ByteSize = bytes rest := by
  rw [bytes_append, ← length_bytes, List.drop_left]

theorem isBoundary_iff {text : String} {offset : Nat} :
    isBoundary text offset = true ↔
      ∃ front rest, text = front ++ rest ∧ offset = front.utf8ByteSize := by
  unfold isBoundary
  rw [String.Pos.Raw.isValid_eq_true_iff, String.Pos.Raw.isValid_iff_exists_append]
  simp only [String.Pos.Raw.ext_iff, String.byteIdx_rawEndPos]

theorem isBoundary_append (front rest : String) :
    isBoundary (front ++ rest) front.utf8ByteSize = true :=
  isBoundary_iff.mpr ⟨front, rest, rfl, rfl⟩

/-! ### The search for boundaries -/

theorem minus?_eq_some {a b : Nat} (h : b ≤ a) : minus? a b = some (a - b) :=
  if_pos h

theorem lastBoundary?_eq_some {old new : String} {offset found : Nat} (hle : found ≤ offset)
    (hold : isBoundary old found = true) (hnew : isBoundary new found = true)
    (hlast : ∀ other ≤ offset, isBoundary old other = true → isBoundary new other = true →
      other ≤ found) :
    lastBoundary? old new offset = some found := by
  induction offset with
  | zero =>
      obtain rfl : found = 0 := Nat.le_zero.mp hle
      simp [lastBoundary?, hold, hnew]
  | succ offset ih =>
      unfold lastBoundary?
      by_cases hsame : found = offset + 1
      · subst hsame
        simp [hold, hnew]
      · have hboth : ¬(isBoundary old (offset + 1) && isBoundary new (offset + 1)) = true := by
          intro hboth
          rw [Bool.and_eq_true] at hboth
          have hlater := hlast (offset + 1) (Nat.le_refl _) hboth.1 hboth.2
          omega
        rw [if_neg hboth]
        exact ih (by omega) fun other hother => hlast other (by omega)

theorem firstBoundaries?_eq_some {old new : String} {oldOffset newOffset steps : Nat}
    (hold : isBoundary old (oldOffset + steps) = true)
    (hnew : isBoundary new (newOffset + steps) = true)
    (hfirst : ∀ fewer < steps, isBoundary old (oldOffset + fewer) = true →
      isBoundary new (newOffset + fewer) = false) :
    firstBoundaries? old new oldOffset newOffset =
      some (oldOffset + steps, newOffset + steps) := by
  induction steps generalizing oldOffset newOffset with
  | zero =>
      unfold firstBoundaries?
      rw [Nat.add_zero] at hold hnew
      simp [hold, hnew]
  | succ steps ih =>
      have hhere : ¬(isBoundary old oldOffset && isBoundary new newOffset) = true := by
        intro hhere
        rw [Bool.and_eq_true] at hhere
        have hnot := hfirst 0 (Nat.succ_pos _) hhere.1
        rw [Nat.add_zero, hhere.2] at hnot
        cases hnot
      -- The boundary that is still to come lies in the text.
      have hinside : oldOffset < old.utf8ByteSize := by
        obtain ⟨front, rest, rfl, hsize⟩ := isBoundary_iff.mp hold
        rw [String.utf8ByteSize_append]
        omega
      unfold firstBoundaries?
      rw [if_neg hhere, if_pos hinside, ih]
      · simp only [Nat.add_comm steps, Nat.add_assoc]
      · rwa [Nat.add_assoc, Nat.add_comm 1]
      · rwa [Nat.add_assoc, Nat.add_comm 1]
      · intro fewer hfewer hboundary
        have hnot := hfirst (fewer + 1) (by omega)
        rw [Nat.add_assoc, Nat.add_comm 1] at hboundary ⊢
        exact hnot hboundary

/-! ### Positions -/

theorem lastIndex?_eq_none_iff {byte : UInt8} {text : List UInt8} :
    lastIndex? byte text = none ↔ byte ∉ text := by
  induction text with
  | nil => simp [lastIndex?]
  | cons first rest ih =>
      rw [lastIndex?, List.mem_cons, not_or, ← ih, eq_comm (a := byte)]
      cases lastIndex? byte rest with
      | some index => simp
      | none => simp

theorem exists_of_lastIndex?_eq_some {byte : UInt8} {text : List UInt8} {index : Nat}
    (h : lastIndex? byte text = some index) :
    ∃ front rest, text = front ++ byte :: rest ∧ byte ∉ rest ∧ front.length = index := by
  induction text generalizing index with
  | nil => cases h
  | cons first text ih =>
      rw [lastIndex?] at h
      cases hlater : lastIndex? byte text with
      | some later =>
          rw [hlater] at h
          obtain ⟨front, rest, rfl, hrest, hfront⟩ := ih hlater
          exact ⟨first :: front, rest, rfl, hrest, by
            rw [List.length_cons, hfront, Option.some.inj h]⟩
      | none =>
          rw [hlater] at h
          by_cases hfirst : first = byte
          · subst hfirst
            refine ⟨[], text, rfl, lastIndex?_eq_none_iff.mp hlater, ?_⟩
            simpa using h
          · simp [hfirst] at h

theorem rtakeWhile_append_of_not_mem {byte : UInt8} (front : List UInt8) {rest : List UInt8}
    (h : byte ∉ rest) :
    (front ++ rest).rtakeWhile (· != byte) = front.rtakeWhile (· != byte) ++ rest := by
  have hrest : ∀ other ∈ rest.reverse, (other != byte) = true := by
    intro other hother
    rw [bne_iff_ne]
    rintro rfl
    exact h (List.mem_reverse.mp hother)
  simp [List.rtakeWhile, List.takeWhile_append_of_pos hrest]

theorem rtakeWhile_append_cons {byte : UInt8} (front : List UInt8) {rest : List UInt8}
    (h : byte ∉ rest) : (front ++ byte :: rest).rtakeWhile (· != byte) = rest := by
  rw [List.append_cons, rtakeWhile_append_of_not_mem _ h,
    List.rtakeWhile_concat_neg _ _ _ (by simp), List.nil_append]

/-- A position that tells where an offset lies: in which line, and how far from its start. -/
structure IsPositionOf (text : List UInt8) (position : Position) : Prop where
  /-- As many line feeds stand in front of the offset. -/
  line_eq : position.line = (text.take position.byte).count lineFeed
  /-- As many bytes stand between the last of them and the offset. -/
  column_eq : position.column = ((text.take position.byte).rtakeWhile (· != lineFeed)).length

/-- The position of an offset in a text is found, and it is the only one that tells where the offset
lies. -/
theorem positionAt?_eq_some {text : List UInt8} {position : Position}
    (hle : position.byte ≤ text.length) (h : IsPositionOf text position) :
    positionAt? text position.byte = some position := by
  obtain ⟨hline, hcolumn⟩ := h
  obtain ⟨byte, line, column⟩ := position
  simp only at hle hline hcolumn
  subst hline hcolumn
  have hlength : (text.take byte).length = byte := List.length_take_of_le hle
  simp only [positionAt?, front?, if_pos hle, Option.bind_eq_bind, Option.bind_some]
  cases hindex : lastIndex? lineFeed (text.take byte) with
  | none =>
      have hall := rtakeWhile_append_of_not_mem [] (lastIndex?_eq_none_iff.mp hindex)
      rw [List.nil_append, List.rtakeWhile_nil, List.nil_append] at hall
      simp [hall, hlength]
  | some index =>
      obtain ⟨front, rest, hparts, hrest, rfl⟩ := exists_of_lastIndex?_eq_some hindex
      have hbyte : byte = front.length + 1 + rest.length := by
        rw [hparts, List.length_append, List.length_cons] at hlength
        omega
      have hcolumn : byte - front.length - 1 = rest.length := by omega
      simp [hparts, rtakeWhile_append_cons front hrest, minus?, hcolumn,
        show front.length ≤ byte by omega, show 1 ≤ byte - front.length by omega]

theorem eq_of_lineFeed_mem {c : Char} (h : lineFeed ∈ String.utf8EncodeChar c) : c = '\n' := by
  have hnewline : String.utf8EncodeChar '\n' = [lineFeed] := rfl
  exact utf8EncodeChar_injective ((utf8EncodeChar_of_mem (by decide) h).trans hnewline.symm)

/-- The position after some characters: their bytes, the line feeds among these and the bytes after
the last one are counted. -/
theorem after_eq (cs : List Char) :
    ({} : Position).after cs =
      { byte := (String.ofList cs).utf8ByteSize
        line := (bytes (String.ofList cs)).count lineFeed
        column := ((bytes (String.ofList cs)).rtakeWhile (· != lineFeed)).length } := by
  induction cs using List.reverseRecOn with
  | nil => rfl
  | append_singleton cs c ih =>
      have hstep : ({} : Position).after (cs ++ [c]) = (({} : Position).after cs).advance c := by
        rw [Position.after, List.foldl_append]
        rfl
      rw [hstep, ih, String.ofList_append, bytes_append, bytes_singleton,
        String.utf8ByteSize_append, List.count_append]
      unfold Position.advance
      by_cases hfeed : c = '\n'
      · subst hfeed
        have hchar : String.utf8EncodeChar '\n' = [lineFeed] := rfl
        rw [if_pos (beq_self_eq_true _), hchar, List.rtakeWhile_concat_neg _ _ _ (by decide)]
        rfl
      · have hnone : lineFeed ∉ String.utf8EncodeChar c :=
          fun hmem => hfeed (eq_of_lineFeed_mem hmem)
        rw [if_neg (by simpa using hfeed), List.count_eq_zero_of_not_mem hnone,
          rtakeWhile_append_of_not_mem _ hnone]
        simp

theorem byte_after (front : String) :
    (({} : Position).after front.toList).byte = front.utf8ByteSize := by
  rw [after_eq, String.ofList_toList]

theorem isPositionOf_after (front rest : String) :
    IsPositionOf (bytes (front ++ rest)) (({} : Position).after front.toList) := by
  rw [after_eq, String.ofList_toList]
  exact ⟨by rw [take_bytes_append], by rw [take_bytes_append]⟩

theorem positionAt?_append (front rest : String) :
    positionAt? (bytes (front ++ rest)) front.utf8ByteSize =
      some (({} : Position).after front.toList) := by
  have hle : front.utf8ByteSize ≤ (bytes (front ++ rest)).length := by
    rw [length_bytes, String.utf8ByteSize_append]
    exact Nat.le_add_right _ _
  rw [← byte_after] at hle ⊢
  exact positionAt?_eq_some hle (isPositionOf_after front rest)

/-! ### The parts of two texts -/

/-- How two texts fall into parts: both start with what is kept and have the same end, and neither
the start nor the end could be longer. -/
structure Parts (old new kept removed inserted shared : String) : Prop where
  old_eq : old = kept ++ (removed ++ shared)
  new_eq : new = kept ++ (inserted ++ shared)
  size_front_le : ∀ {front rest rest' : String}, old = front ++ rest → new = front ++ rest' →
    front.utf8ByteSize ≤ kept.utf8ByteSize
  size_end_le : ∀ {front front' last : String}, removed ++ shared = front ++ last →
    inserted ++ shared = front' ++ last → last.utf8ByteSize ≤ shared.utf8ByteSize

theorem utf8ByteSize_le_of_prefix {a b : String} (h : a.toList <+: b.toList) :
    a.utf8ByteSize ≤ b.utf8ByteSize := by
  obtain ⟨rest, hrest⟩ := h
  have hb : b = a ++ String.ofList rest := by
    rw [← String.toList_inj, String.toList_append, String.toList_ofList, hrest]
  rw [hb, String.utf8ByteSize_append]
  exact Nat.le_add_right _ _

theorem utf8ByteSize_le_of_suffix {a b : String} (h : a.toList <:+ b.toList) :
    a.utf8ByteSize ≤ b.utf8ByteSize := by
  obtain ⟨front, hfront⟩ := h
  have hb : b = String.ofList front ++ a := by
    rw [← String.toList_inj, String.toList_append, String.toList_ofList, hfront]
  rw [hb, String.utf8ByteSize_append]
  exact Nat.le_add_left _ _

theorem Edit.between_eq {old new : String} {kept removed inserted shared : List Char}
    (hkept : commonFront old.toList new.toList = kept)
    (hshared : commonEnd (removed ++ shared) (inserted ++ shared) = shared)
    (hold : old.toList = kept ++ (removed ++ shared))
    (hnew : new.toList = kept ++ (inserted ++ shared)) :
    Edit.between old new =
      { start := ({} : Position).after kept
        oldEnd := ({} : Position).after (kept ++ removed)
        newEnd := ({} : Position).after (kept ++ inserted)
        inserted := String.ofList inserted } := by
  have holdRest : old.toList.drop kept.length = removed ++ shared := by rw [hold, List.drop_left]
  have hnewRest : new.toList.drop kept.length = inserted ++ shared := by rw [hnew, List.drop_left]
  unfold between
  simp only [hkept, holdRest, hnewRest, hshared]
  simp [Position.after, List.foldl_append]

/-- The edit between two texts is made of their parts. -/
theorem Edit.exists_parts (old new : String) :
    ∃ kept removed inserted shared : String, Parts old new kept removed inserted shared ∧
      Edit.between old new =
        { start := ({} : Position).after kept.toList
          oldEnd := ({} : Position).after (kept ++ removed).toList
          newEnd := ({} : Position).after (kept ++ inserted).toList
          inserted } := by
  obtain ⟨⟨oldRest, hold⟩, newRest, hnew⟩ :=
    prefix_commonFront_iff.mp (List.prefix_refl (commonFront old.toList new.toList))
  obtain ⟨⟨removed, hremoved⟩, inserted, hinserted⟩ :=
    suffix_commonEnd_iff.mp (List.suffix_refl (commonEnd oldRest newRest))
  have hfront (front : List Char) : front <+: commonFront old.toList new.toList ↔
      front <+: old.toList ∧ front <+: new.toList := prefix_commonFront_iff
  have hend (last : List Char) : last <:+ commonEnd oldRest newRest ↔
      last <:+ oldRest ∧ last <:+ newRest := suffix_commonEnd_iff
  generalize hkept : commonFront old.toList new.toList = kept at *
  generalize hshared : commonEnd oldRest newRest = shared at *
  subst hremoved hinserted
  refine ⟨String.ofList kept, String.ofList removed, String.ofList inserted, String.ofList shared,
    ⟨?_, ?_, ?_, ?_⟩, ?_⟩
  · rw [← String.toList_inj, ← hold]
    simp
  · rw [← String.toList_inj, ← hnew]
    simp
  · rintro front rest rest' rfl rfl
    apply utf8ByteSize_le_of_prefix
    rw [String.toList_ofList, hfront, String.toList_append, String.toList_append]
    exact ⟨List.prefix_append _ _, List.prefix_append _ _⟩
  · intro front front' last hold hnew
    apply utf8ByteSize_le_of_suffix
    rw [← String.toList_inj] at hold hnew
    simp only [String.toList_append, String.toList_ofList] at hold hnew ⊢
    rw [hend, hold, hnew]
    exact ⟨List.suffix_append _ _, List.suffix_append _ _⟩
  · rw [between_eq hkept hshared hold.symm hnew.symm]
    simp only [String.toList_append, String.toList_ofList]

/-! ### The search finds the edit -/

theorem le_sharedBytes_reverse_iff {a b : List UInt8} {most count : Nat} :
    count ≤ sharedBytes ((a.reverse.zip b.reverse).take most) ↔
      count ≤ most ∧ count ≤ a.length ∧ count ≤ b.length ∧
        a.drop (a.length - count) = b.drop (b.length - count) := by
  rw [List.zip_eq_zipWith, List.take_zipWith, ← List.zip_eq_zipWith, le_sharedBytes_zip_iff,
    List.length_take, List.length_take, List.length_reverse, List.length_reverse, List.take_take,
    List.take_take, Nat.le_min, Nat.le_min]
  by_cases hmost : count ≤ most
  · rw [Nat.min_eq_left hmost, List.take_reverse, List.take_reverse, List.reverse_inj]
    simp only [hmost, true_and]
  · simp only [hmost, false_and]

section Search

variable {old new kept removed inserted shared : String}

theorem Parts.lastBoundary? (h : Parts old new kept removed inserted shared) :
    lastBoundary? old new (sharedBytes ((bytes old).zip (bytes new))) =
      some kept.utf8ByteSize := by
  obtain ⟨rfl, rfl, hlongest, -⟩ := h
  apply lastBoundary?_eq_some
  · rw [le_sharedBytes_zip_iff, take_bytes_append, take_bytes_append, length_bytes, length_bytes]
    refine ⟨?_, ?_, rfl⟩
    · rw [String.utf8ByteSize_append]
      exact Nat.le_add_right _ _
    · rw [String.utf8ByteSize_append]
      exact Nat.le_add_right _ _
  · exact isBoundary_append _ _
  · exact isBoundary_append _ _
  · intro other hother holdBoundary hnewBoundary
    obtain ⟨front, rest, hold, rfl⟩ := isBoundary_iff.mp holdBoundary
    obtain ⟨front', rest', hnew, hsize⟩ := isBoundary_iff.mp hnewBoundary
    -- The same bytes stand in front of the boundaries, so the same characters do.
    obtain ⟨-, -, hbytes⟩ := le_sharedBytes_zip_iff.mp hother
    rw [hold, hnew, take_bytes_append, hsize, take_bytes_append] at hbytes
    obtain rfl := bytes_injective hbytes
    exact hlongest hold hnew

/-- What follows a boundary within the last part of a text is an end of this part. -/
theorem exists_front_of_size_le {kept tail front last : String}
    (h : kept ++ tail = front ++ last) (hsize : last.utf8ByteSize ≤ tail.utf8ByteSize) :
    ∃ middle, tail = middle ++ last := by
  rw [← String.toList_inj, String.toList_append, String.toList_append,
    List.append_eq_append_iff] at h
  rcases h with ⟨middle, -, htail⟩ | ⟨middle, -, hlast⟩
  · refine ⟨String.ofList middle, ?_⟩
    rw [← String.toList_inj, String.toList_append, String.toList_ofList, htail]
  · -- The end is no longer than the part, so nothing can stand between.
    have hjoined : last = String.ofList middle ++ tail := by
      rw [← String.toList_inj, String.toList_append, String.toList_ofList, hlast]
    rw [hjoined, String.utf8ByteSize_append] at hsize
    have hnothing : String.ofList middle = "" :=
      String.utf8ByteSize_eq_zero_iff.mp (by omega)
    exact ⟨"", by rw [hjoined, hnothing, String.empty_append, String.empty_append]⟩

/-- Both texts end alike after what is kept no further than in what is shared at the end. -/
theorem Parts.size_last_le (h : Parts old new kept removed inserted shared)
    {front front' last : String} (hold : old = front ++ last) (hnew : new = front' ++ last)
    (holdLe : last.utf8ByteSize ≤ old.utf8ByteSize - kept.utf8ByteSize)
    (hnewLe : last.utf8ByteSize ≤ new.utf8ByteSize - kept.utf8ByteSize) :
    last.utf8ByteSize ≤ shared.utf8ByteSize := by
  rw [h.old_eq, String.utf8ByteSize_append, Nat.add_sub_cancel_left] at holdLe
  rw [h.new_eq, String.utf8ByteSize_append, Nat.add_sub_cancel_left] at hnewLe
  obtain ⟨middle, hmiddle⟩ := exists_front_of_size_le (h.old_eq.symm.trans hold) holdLe
  obtain ⟨middle', hmiddle'⟩ := exists_front_of_size_le (h.new_eq.symm.trans hnew) hnewLe
  exact h.size_end_le hmiddle hmiddle'

theorem Parts.firstBoundaries? (h : Parts old new kept removed inserted shared) {count : Nat}
    (hcount : count = sharedBytes (((bytes old).reverse.zip (bytes new).reverse).take
      (min (old.utf8ByteSize - kept.utf8ByteSize) (new.utf8ByteSize - kept.utf8ByteSize)))) :
    count ≤ old.utf8ByteSize ∧ count ≤ new.utf8ByteSize ∧
      firstBoundaries? old new (old.utf8ByteSize - count) (new.utf8ByteSize - count) =
        some ((kept ++ removed).utf8ByteSize, (kept ++ inserted).utf8ByteSize) := by
  have hold : old = (kept ++ removed) ++ shared := h.old_eq.trans (String.append_assoc ..).symm
  have hnew : new = (kept ++ inserted) ++ shared := h.new_eq.trans (String.append_assoc ..).symm
  have holdSize := congrArg String.utf8ByteSize hold
  have hnewSize := congrArg String.utf8ByteSize hnew
  simp only [String.utf8ByteSize_append (t := shared)] at holdSize hnewSize
  have hkept : kept.utf8ByteSize ≤ (kept ++ removed).utf8ByteSize ∧
      kept.utf8ByteSize ≤ (kept ++ inserted).utf8ByteSize := by
    rw [String.utf8ByteSize_append, String.utf8ByteSize_append]
    omega
  have hcounts (fewer : Nat) : fewer ≤ count ↔
      (fewer ≤ old.utf8ByteSize - kept.utf8ByteSize ∧
        fewer ≤ new.utf8ByteSize - kept.utf8ByteSize) ∧
      fewer ≤ old.utf8ByteSize ∧ fewer ≤ new.utf8ByteSize ∧
      (bytes old).drop (old.utf8ByteSize - fewer) =
        (bytes new).drop (new.utf8ByteSize - fewer) := by
    rw [hcount, le_sharedBytes_reverse_iff, Nat.le_min, length_bytes, length_bytes]
  obtain ⟨-, holdLe, hnewLe, -⟩ := (hcounts count).mp (Nat.le_refl _)
  -- What is shared at the end is among the bytes that are counted.
  have hshared : shared.utf8ByteSize ≤ count := by
    refine (hcounts _).mpr ⟨by omega, by omega, by omega, ?_⟩
    rw [holdSize, hnewSize, Nat.add_sub_cancel, Nat.add_sub_cancel, hold, hnew, drop_bytes_append,
      drop_bytes_append]
  refine ⟨holdLe, hnewLe, ?_⟩
  obtain ⟨steps, rfl⟩ := Nat.exists_eq_add_of_le hshared
  have holdStop : old.utf8ByteSize - (shared.utf8ByteSize + steps) + steps =
      (kept ++ removed).utf8ByteSize := by omega
  have hnewStop : new.utf8ByteSize - (shared.utf8ByteSize + steps) + steps =
      (kept ++ inserted).utf8ByteSize := by omega
  rw [← holdStop, ← hnewStop]
  apply firstBoundaries?_eq_some
  · rw [holdStop, hold]
    exact isBoundary_append _ _
  · rw [hnewStop, hnew]
    exact isBoundary_append _ _
  · intro fewer hfewer holdBoundary
    rw [Bool.eq_false_iff]
    intro hnewBoundary
    obtain ⟨front, last, holdSplit, holdOffset⟩ := isBoundary_iff.mp holdBoundary
    obtain ⟨front', last', hnewSplit, hnewOffset⟩ := isBoundary_iff.mp hnewBoundary
    have holdLast := congrArg String.utf8ByteSize holdSplit
    have hnewLast := congrArg String.utf8ByteSize hnewSplit
    rw [String.utf8ByteSize_append] at holdLast hnewLast
    have holdFront : old.utf8ByteSize - last.utf8ByteSize = front.utf8ByteSize := by omega
    have hnewFront : new.utf8ByteSize - last.utf8ByteSize = front'.utf8ByteSize := by omega
    -- The bytes after both boundaries are counted, so the same characters stand there.
    obtain ⟨⟨holdRest, hnewRest⟩, -, -, hbytes⟩ := (hcounts last.utf8ByteSize).mp (by omega)
    rw [holdFront, hnewFront, holdSplit, hnewSplit, drop_bytes_append, drop_bytes_append] at hbytes
    obtain rfl := bytes_injective hbytes
    have hle := h.size_last_le holdSplit hnewSplit holdRest hnewRest
    omega

theorem Parts.places? (h : Parts old new kept removed inserted shared) :
    Edit.places? old new = some (({} : Position).after kept.toList,
      ({} : Position).after (kept ++ removed).toList,
      ({} : Position).after (kept ++ inserted).toList) := by
  obtain ⟨holdLe, hnewLe, hends⟩ := h.firstBoundaries? rfl
  have hold : old = (kept ++ removed) ++ shared := h.old_eq.trans (String.append_assoc ..).symm
  have hnew : new = (kept ++ inserted) ++ shared := h.new_eq.trans (String.append_assoc ..).symm
  have hkeptOld : kept.utf8ByteSize ≤ old.utf8ByteSize := by
    rw [h.old_eq, String.utf8ByteSize_append]
    exact Nat.le_add_right _ _
  have hkeptNew : kept.utf8ByteSize ≤ new.utf8ByteSize := by
    rw [h.new_eq, String.utf8ByteSize_append]
    exact Nat.le_add_right _ _
  have hstart : positionAt? (bytes old) kept.utf8ByteSize = _ :=
    h.old_eq ▸ positionAt?_append kept _
  have holdEnd : positionAt? (bytes old) (kept ++ removed).utf8ByteSize = _ :=
    hold ▸ positionAt?_append (kept ++ removed) shared
  have hnewEnd : positionAt? (bytes new) (kept ++ inserted).utf8ByteSize = _ :=
    hnew ▸ positionAt?_append (kept ++ inserted) shared
  simp only [Edit.places?, h.lastBoundary?, length_bytes, minus?_eq_some hkeptOld,
    minus?_eq_some hkeptNew, minus?_eq_some holdLe, minus?_eq_some hnewLe, hends, hstart, holdEnd,
    hnewEnd, Option.bind_eq_bind, Option.bind_some, Option.pure_def]

end Search

/-! ### The splice -/

theorem slice_append (front middle rest : String) :
    slice (front ++ middle ++ rest) front.utf8ByteSize (front ++ middle).utf8ByteSize = middle := by
  have hvalid := String.extract_of_valid front.toList middle.toList rest.toList
  rw [← String.utf8ByteSize_ofList, ← String.utf8ByteSize_ofList, String.ofList_append,
    String.ofList_append, String.ofList_toList, String.ofList_toList,
    String.ofList_toList] at hvalid
  rw [slice, String.utf8ByteSize_append]
  exact hvalid

/-- What is cut out of a text starts with the character that stands where the cut starts. -/
theorem head?_slice {text : String} {passed rest : List Char} {c : Char} {start stop : Nat}
    (htext : text.toList = passed ++ c :: rest) (hstart : start = String.utf8Len passed)
    (hfull : start < stop) : (slice text start stop).toList.head? = some c := by
  have hreach : String.Pos.Raw.extract.go₁ text.toList 0 ⟨start⟩ ⟨stop⟩ =
      String.Pos.Raw.extract.go₂ (c :: rest) ⟨start⟩ ⟨stop⟩ := by
    rw [htext]
    exact String.Pos.Raw.extract.go₁_append_right passed (c :: rest) 0 start ⟨stop⟩
      (by rw [hstart, Nat.add_zero])
  have hne : (⟨start⟩ : String.Pos.Raw) ≠ ⟨stop⟩ := by
    intro heq
    have := congrArg String.Pos.Raw.byteIdx heq
    simp only at this
    omega
  rw [slice, String.Pos.Raw.extract, if_neg (Nat.not_le.mpr hfull), hreach,
    String.Pos.Raw.extract.go₂, if_neg hne, String.toList_ofList, List.head?_cons]

/-- The edit between two texts turns the one into the other. -/
theorem Edit.apply_between (old new : String) : (between old new).apply old = new := by
  obtain ⟨kept, removed, inserted, shared, hparts, hedit⟩ := exists_parts old new
  have hfront : slice old 0 kept.utf8ByteSize = kept := by
    have hslice := slice_append "" kept (removed ++ shared)
    rwa [String.empty_append, ← hparts.old_eq] at hslice
  have hend : slice old (kept ++ removed).utf8ByteSize old.utf8ByteSize = shared := by
    have hslice := slice_append (kept ++ removed) shared ""
    rwa [String.append_empty, String.append_assoc, ← hparts.old_eq] at hslice
  rw [apply, hedit, byte_after, byte_after, hfront, hend, String.append_assoc]
  exact hparts.new_eq.symm

/-- An edit that is a splice of bytes from one text to another.  Its places lie in their texts and
in order, a character begins or the text ends at each of them, the texts agree in front of the start
and after the ends, and each place tells the line and the column of its offset. -/
structure Edit.IsSplice (edit : Edit) (old new : String) : Prop where
  start_le_oldEnd : edit.start.byte ≤ edit.oldEnd.byte
  oldEnd_le : edit.oldEnd.byte ≤ old.utf8ByteSize
  start_le_newEnd : edit.start.byte ≤ edit.newEnd.byte
  newEnd_le : edit.newEnd.byte ≤ new.utf8ByteSize
  isBoundary_start_old : isBoundary old edit.start.byte = true
  isBoundary_start_new : isBoundary new edit.start.byte = true
  isBoundary_oldEnd : isBoundary old edit.oldEnd.byte = true
  isBoundary_newEnd : isBoundary new edit.newEnd.byte = true
  take_eq : (bytes old).take edit.start.byte = (bytes new).take edit.start.byte
  drop_eq : (bytes old).drop edit.oldEnd.byte = (bytes new).drop edit.newEnd.byte
  /-- What stands between the places of the new text takes the place of what stands between those of
  the old text. -/
  splice_eq : (bytes old).take edit.start.byte ++
    ((bytes new).take edit.newEnd.byte).drop edit.start.byte ++
    (bytes old).drop edit.oldEnd.byte = bytes new
  isPositionOf_start : IsPositionOf (bytes old) edit.start
  isPositionOf_oldEnd : IsPositionOf (bytes old) edit.oldEnd
  isPositionOf_newEnd : IsPositionOf (bytes new) edit.newEnd

theorem Edit.isSplice_between (old new : String) : (between old new).IsSplice old new := by
  obtain ⟨kept, removed, inserted, shared, ⟨rfl, rfl, -, -⟩, hedit⟩ := exists_parts old new
  rw [hedit]
  constructor
  case start_le_oldEnd =>
    simp only [byte_after, String.utf8ByteSize_append]
    omega
  case oldEnd_le =>
    simp only [byte_after, String.utf8ByteSize_append]
    omega
  case start_le_newEnd =>
    simp only [byte_after, String.utf8ByteSize_append]
    omega
  case newEnd_le =>
    simp only [byte_after, String.utf8ByteSize_append]
    omega
  case isBoundary_start_old =>
    rw [byte_after]
    exact isBoundary_append _ _
  case isBoundary_start_new =>
    rw [byte_after]
    exact isBoundary_append _ _
  case isBoundary_oldEnd =>
    rw [byte_after, ← String.append_assoc]
    exact isBoundary_append _ _
  case isBoundary_newEnd =>
    rw [byte_after, ← String.append_assoc]
    exact isBoundary_append _ _
  case take_eq => rw [byte_after, take_bytes_append, take_bytes_append]
  case drop_eq =>
    rw [byte_after, byte_after, ← String.append_assoc, ← String.append_assoc, drop_bytes_append,
      drop_bytes_append]
  case splice_eq =>
    rw [byte_after, byte_after, byte_after, take_bytes_append, ← String.append_assoc,
      ← String.append_assoc, drop_bytes_append, take_bytes_append, drop_bytes_append,
      ← bytes_append, ← bytes_append]
  case isPositionOf_start => exact isPositionOf_after _ _
  case isPositionOf_oldEnd =>
    rw [← String.append_assoc]
    exact isPositionOf_after _ _
  case isPositionOf_newEnd =>
    rw [← String.append_assoc]
    exact isPositionOf_after _ _

/-- **An edit is a splice.**  The search in bytes never fails, it finds the places of the edit
between two texts, and this edit is a splice that turns the one text into the other. -/
theorem edit_is_splice (old new : String) :
    Edit.places? old new = some ((Edit.between old new).start, (Edit.between old new).oldEnd,
        (Edit.between old new).newEnd) ∧
      (Edit.between old new).IsSplice old new ∧ (Edit.between old new).apply old = new := by
  refine ⟨?_, Edit.isSplice_between old new, Edit.apply_between old new⟩
  obtain ⟨kept, removed, inserted, shared, hparts, hedit⟩ := Edit.exists_parts old new
  rw [hedit]
  exact hparts.places?

end Text
end NgIndex
