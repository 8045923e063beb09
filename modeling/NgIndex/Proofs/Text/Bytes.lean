import Mathlib.Data.String.Basic

/-!
# Characters among bytes

The encoding of a text is that of its characters one after another.  A byte below 0x80 belongs to a
character that is this byte alone.  Where such a byte stands in an encoding, the text can therefore
be cut.
-/

namespace NgIndex
namespace Text

/-- The bytes of characters one after another. -/
def encode (cs : List Char) : List UInt8 :=
  cs.flatMap String.utf8EncodeChar

@[simp] theorem encode_nil : encode [] = [] := rfl

@[simp] theorem encode_cons (c : Char) (cs : List Char) :
    encode (c :: cs) = String.utf8EncodeChar c ++ encode cs := rfl

@[simp] theorem encode_append (cs ds : List Char) : encode (cs ++ ds) = encode cs ++ encode ds :=
  List.flatMap_append

theorem utf8Encode_eq (cs : List Char) : cs.utf8Encode = (encode cs).toByteArray := rfl

/-- What a text begins with can be told from its bytes. -/
theorem encode_prefix_iff {cs ds : List Char} : encode cs <+: encode ds ↔ cs <+: ds := by
  constructor
  · rintro ⟨rest, hrest⟩
    apply List.isPrefix_of_utf8Encode_append_eq_utf8Encode rest.toByteArray
    rw [utf8Encode_eq, utf8Encode_eq, ← List.toByteArray_append, hrest]
  · rintro ⟨rest, rfl⟩
    exact ⟨encode rest, (encode_append cs rest).symm⟩

theorem encode_injective {cs ds : List Char} (h : encode cs = encode ds) : cs = ds := by
  have hfront : cs <+: ds := encode_prefix_iff.mp ⟨[], by rw [List.append_nil, h]⟩
  have hback : ds <+: cs := encode_prefix_iff.mp ⟨[], by rw [List.append_nil, h]⟩
  exact hfront.eq_of_length_le hback.length_le

theorem utf8EncodeChar_injective {c d : Char}
    (h : String.utf8EncodeChar c = String.utf8EncodeChar d) : c = d := by
  have hsame : encode [c] = encode [d] := by
    rw [encode_cons, encode_cons, h]
  exact List.head_eq_of_cons_eq (encode_injective hsame)

theorem utf8EncodeChar_ofNat : ∀ n < 0x80,
    String.utf8EncodeChar (Char.ofNat n) = [UInt8.ofNat n] ∧ (UInt8.ofNat n).IsUTF8FirstByte := by
  decide +kernel

/-- A byte below 0x80 is all of the character it belongs to. -/
theorem utf8EncodeChar_of_mem {b : UInt8} (hb : b < 0x80) {c : Char}
    (h : b ∈ String.utf8EncodeChar c) : String.utf8EncodeChar c = [b] := by
  obtain ⟨hsingle, hfirst⟩ := utf8EncodeChar_ofNat b.toNat hb
  rw [UInt8.ofNat_toNat] at hsingle hfirst
  obtain ⟨index, hindex, hget⟩ := List.mem_iff_getElem.mp h
  -- The byte begins a character, so nothing of this one stands in front of it.
  obtain rfl : index = 0 :=
    UInt8.isUTF8FirstByte_getElem_utf8EncodeChar.mp (by rwa [hget])
  have hfront : encode [Char.ofNat b.toNat] <+: encode [c] := by
    rw [encode_cons, encode_cons, hsingle]
    have hne : String.utf8EncodeChar c ≠ [] := String.utf8EncodeChar_ne_nil
    obtain ⟨first, more, hchar⟩ := List.exists_cons_of_ne_nil hne
    simp only [hchar, List.getElem_cons_zero] at hget
    simp [hchar, hget]
  have hsame := (encode_prefix_iff.mp hfront).eq_of_length rfl
  rw [← List.head_eq_of_cons_eq hsame, hsingle]

/-- A text can be cut at a character that is a single byte. -/
theorem exists_of_encode_eq {b : UInt8} (hb : b < 0x80) {cs : List Char} {front rest : List UInt8}
    (h : encode cs = front ++ b :: rest) :
    ∃ before c after, cs = before ++ c :: after ∧ encode before = front ∧
      String.utf8EncodeChar c = [b] ∧ encode after = rest := by
  induction cs generalizing front with
  | nil => simp at h
  | cons c cs ih =>
      have hlater {more : List UInt8} (hmore : encode cs = more ++ b :: rest) :
          ∃ before d after, c :: cs = before ++ d :: after ∧
            encode before = String.utf8EncodeChar c ++ more ∧
            String.utf8EncodeChar d = [b] ∧ encode after = rest := by
        obtain ⟨before, d, after, rfl, rfl, hd, hafter⟩ := ih hmore
        exact ⟨c :: before, d, after, rfl, rfl, hd, hafter⟩
      rw [encode_cons] at h
      -- The byte stands behind the first character or in it, and then it is all of the character.
      rcases List.append_eq_append_iff.mp h with ⟨more, rfl, hmore⟩ | ⟨more, hchar, hrest⟩
      · exact hlater hmore
      · cases more with
        | nil =>
            rw [List.append_nil] at hchar
            have hempty : encode cs = [] ++ b :: rest := hrest.symm
            have hfound := hlater hempty
            rwa [List.append_nil, hchar] at hfound
        | cons first more =>
            obtain ⟨rfl, hafter⟩ := List.cons.inj hrest
            have hsingle := utf8EncodeChar_of_mem hb (c := c) (by simp [hchar])
            have hlength : front.length + (more.length + 1) = 1 := by
              simpa [hsingle] using (congrArg List.length hchar).symm
            obtain rfl := List.eq_nil_of_length_eq_zero (show front.length = 0 by omega)
            obtain rfl := List.eq_nil_of_length_eq_zero (show more.length = 0 by omega)
            exact ⟨[], c, cs, rfl, rfl, hsingle, hafter.symm⟩

/-- What a text ends in can be told from its bytes, if it starts with a single byte. -/
theorem encode_suffix_iff {c : Char} {b : UInt8} (hb : b < 0x80)
    (hc : String.utf8EncodeChar c = [b]) {cs ds : List Char} :
    encode (c :: cs) <:+ encode ds ↔ c :: cs <:+ ds := by
  constructor
  · rintro ⟨front, hfront⟩
    rw [encode_cons, hc, List.singleton_append] at hfront
    obtain ⟨before, d, after, rfl, -, hd, hafter⟩ := exists_of_encode_eq hb hfront.symm
    rw [utf8EncodeChar_injective (hd.trans hc.symm), encode_injective hafter]
    exact List.suffix_append _ _
  · rintro ⟨front, rfl⟩
    exact ⟨encode front, (encode_append front _).symm⟩

end Text
end NgIndex
