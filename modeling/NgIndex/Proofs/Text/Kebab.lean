import Mathlib.Data.List.Basic
import NgIndex.Text.Kebab

/-!
# Kebab case of ASCII names

In the kebab case of an ASCII name there is no capital left, so that kebab case of it changes nothing
more.  A hyphen is put in for each capital behind the front.  If the name had no hyphen of its own and
no capital at the front, the capitals can be told from the hyphens and the name be made from its kebab
case again.
-/

namespace NgIndex
namespace Text

/-! ### ASCII characters -/

theorem casing_ofNat : ∀ n < 0x80, let c := Char.ofNat n
    isUppercase c = c.isUpper ∧ lowerChar c = [c.toLower] ∧
      c.toLower.toNat < 0x80 ∧ c.toLower.isUpper = false ∧
      (if c.isUpper then c.toLower.toUpper = c else c.toLower = c) := by
  decide +kernel

section Ascii

variable {c : Char} (h : c.toNat < 0x80)

include h

theorem casing_of_ascii : isUppercase c = c.isUpper ∧ lowerChar c = [c.toLower] ∧
    c.toLower.toNat < 0x80 ∧ c.toLower.isUpper = false ∧
    (if c.isUpper then c.toLower.toUpper = c else c.toLower = c) := by
  have hcasing := casing_ofNat c.toNat h
  rwa [Char.ofNat_toNat] at hcasing

theorem kebabTail_cons (rest : List Char) :
    kebabTail (c :: rest) =
      if c.isUpper then '-' :: c.toLower :: kebabTail rest else c :: kebabTail rest := by
  obtain ⟨hupper, hlower, -⟩ := casing_of_ascii h
  rw [kebabTail, hupper, hlower, List.singleton_append]

theorem kebabChars_cons (rest : List Char) : kebabChars (c :: rest) = c.toLower :: kebabTail rest := by
  obtain ⟨hupper, hlower, -, -, hkept⟩ := casing_of_ascii h
  rw [kebabChars, hupper, hlower]
  split at hkept
  · next hc => rw [if_pos hc, List.singleton_append]
  · next hc => rw [if_neg hc, List.singleton_append, hkept]

end Ascii

/-! ### No capital is left -/

/-- An ASCII character other than a capital letter. -/
structure IsSmall (c : Char) : Prop where
  ascii : c.toNat < 0x80
  notUpper : c.isUpper = false

theorem isSmall_toLower {c : Char} (h : c.toNat < 0x80) : IsSmall c.toLower := by
  obtain ⟨-, -, hascii, hupper, -⟩ := casing_of_ascii h
  exact ⟨hascii, hupper⟩

variable {cs : List Char}

theorem forall_isSmall_kebabTail (h : ∀ c ∈ cs, c.toNat < 0x80) :
    ∀ c ∈ kebabTail cs, IsSmall c := by
  induction cs with
  | nil => exact nofun
  | cons c rest ih =>
      obtain ⟨hc, hrest⟩ := List.forall_mem_cons.mp h
      rw [kebabTail_cons hc]
      split
      · refine List.forall_mem_cons.mpr ⟨⟨by decide, by decide⟩, ?_⟩
        exact List.forall_mem_cons.mpr ⟨isSmall_toLower hc, ih hrest⟩
      · next hupper =>
          exact List.forall_mem_cons.mpr ⟨⟨hc, Bool.eq_false_iff.mpr hupper⟩, ih hrest⟩

theorem forall_isSmall_kebabChars (h : ∀ c ∈ cs, c.toNat < 0x80) :
    ∀ c ∈ kebabChars cs, IsSmall c := by
  cases cs with
  | nil => exact nofun
  | cons c rest =>
      obtain ⟨hc, hrest⟩ := List.forall_mem_cons.mp h
      rw [kebabChars_cons hc]
      exact List.forall_mem_cons.mpr ⟨isSmall_toLower hc, forall_isSmall_kebabTail hrest⟩

theorem kebabTail_of_isSmall (h : ∀ c ∈ cs, IsSmall c) : kebabTail cs = cs := by
  induction cs with
  | nil => rfl
  | cons c rest ih =>
      obtain ⟨hc, hrest⟩ := List.forall_mem_cons.mp h
      rw [kebabTail_cons hc.ascii, hc.notUpper, ih hrest]
      rfl

/-- Where there is no capital at the front, the front is not treated in another way. -/
theorem kebabChars_eq_kebabTail (h : ∀ c ∈ cs, c.toNat < 0x80)
    (hfront : cs.head?.any Char.isUpper = false) : kebabChars cs = kebabTail cs := by
  cases cs with
  | nil => rfl
  | cons c rest =>
      have hc : c.toNat < 0x80 := h c List.mem_cons_self
      have hupper : c.isUpper = false := hfront
      obtain ⟨-, -, -, -, hkept⟩ := casing_of_ascii hc
      rw [hupper] at hkept
      rw [kebabChars_cons hc, kebabTail_cons hc, hupper, hkept]
      rfl

theorem kebabChars_of_isSmall (h : ∀ c ∈ cs, IsSmall c) : kebabChars cs = cs := by
  have hfront : cs.head?.any Char.isUpper = false := by
    cases cs with
    | nil => rfl
    | cons c rest => exact (h c List.mem_cons_self).notUpper
  rw [kebabChars_eq_kebabTail (fun c hc => (h c hc).ascii) hfront, kebabTail_of_isSmall h]

/-! ### The way back -/

/-- Kebab case undone: a hyphen makes the character behind it a capital. -/
def camelChars : List Char → List Char
  | [] => []
  | '-' :: c :: rest => c.toUpper :: camelChars rest
  | c :: rest => c :: camelChars rest

theorem camelChars_cons {c : Char} (h : c ≠ '-') (rest : List Char) :
    camelChars (c :: rest) = c :: camelChars rest := by
  cases rest with
  | nil => simp [camelChars]
  | cons d more => simp [camelChars, h]

theorem camelChars_kebabTail (h : ∀ c ∈ cs, c.toNat < 0x80) (hhyphen : '-' ∉ cs) :
    camelChars (kebabTail cs) = cs := by
  induction cs with
  | nil => rfl
  | cons c rest ih =>
      obtain ⟨hc, hrest⟩ := List.forall_mem_cons.mp h
      obtain ⟨hother, hmore⟩ := not_or.mp (mt List.mem_cons.mpr hhyphen)
      rw [kebabTail_cons hc]
      split
      · next hupper =>
          obtain ⟨-, -, -, -, hback⟩ := casing_of_ascii hc
          rw [if_pos hupper] at hback
          rw [camelChars, hback, ih hrest hmore]
      · rw [camelChars_cons (Ne.symm hother), ih hrest hmore]

/-! ### Names -/

/-- A name of ASCII characters. -/
def IsAscii (name : String) : Prop :=
  ∀ c ∈ name.toList, c.toNat < 0x80

instance (name : String) : Decidable (IsAscii name) :=
  List.decidableBAll _ name.toList

/-- A name in ASCII without hyphens that does not start with a capital. -/
structure IsPlain (name : String) : Prop where
  ascii : IsAscii name
  noHyphen : '-' ∉ name.toList
  front : name.toList.head?.any Char.isUpper = false

theorem toList_kebab (name : String) : (kebab name).toList = kebabChars name.toList :=
  String.toList_ofList

theorem isSmall_of_mem_kebab {name : String} (h : IsAscii name) :
    ∀ c ∈ (kebab name).toList, IsSmall c := by
  rw [toList_kebab]
  exact forall_isSmall_kebabChars h

theorem kebab_kebab {name : String} (h : IsAscii name) : kebab (kebab name) = kebab name := by
  rw [kebab, toList_kebab, kebabChars_of_isSmall (forall_isSmall_kebabChars h), kebab]

theorem IsPlain.ofList_camelChars {name : String} (h : IsPlain name) :
    String.ofList (camelChars (kebab name).toList) = name := by
  rw [toList_kebab, kebabChars_eq_kebabTail h.ascii h.front,
    camelChars_kebabTail h.ascii h.noHyphen, String.ofList_toList]

/-- Plain names can be told by their kebab case. -/
theorem IsPlain.eq_of_kebab_eq {name other : String} (h : IsPlain name) (hother : IsPlain other)
    (hsame : kebab name = kebab other) : name = other := by
  rw [← h.ofList_camelChars, hsame, hother.ofList_camelChars]

/-- A hyphen or a capital at the front makes for the same kebab case as another name has. -/
example : kebab "my-card" = kebab "myCard" ∧ kebab "MyCard" = kebab "myCard" := by
  decide +kernel

end Text
end NgIndex
