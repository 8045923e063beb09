import Mathlib.Data.List.Nodup
import Mathlib.Data.String.Basic
import NgIndex.KeyMap

/-!
# Maps in the order of their keys: looking up

What can be looked up in a map after each of its operations.  A map that is built with these
operations is ordered, and an ordered map is determined by what can be looked up in it.  So is a list
that is made of all its values one after another, where values that add nothing do not count.
-/

namespace NgIndex
namespace KeyMap

variable {α : Type}

theorem contains_eq_isSome_get? (map : KeyMap α) (key : String) :
    map.contains key = (map.get? key).isSome := by
  simp [contains, get?, Option.isSome_map, List.isSome_find?]

theorem mem_keys_iff {map : KeyMap α} {key : String} :
    key ∈ map.keys ↔ map.contains key = true := by
  simp [keys, contains]

@[simp] theorem get?_empty (key : String) : ({} : KeyMap α).get? key = none := rfl

/-! ### One entry -/

theorem find?_insertInto (key other : String) (value : α) (entries : List (String × α)) :
    ((insertInto key value entries).find? fun entry => entry.1 == other).map Prod.snd =
      if key = other then some value
      else (entries.find? fun entry => entry.1 == other).map Prod.snd := by
  induction entries with
  | nil =>
      by_cases h : key = other
      · simp [insertInto, h]
      · simp [insertInto, h]
  | cons entry rest ih =>
      obtain ⟨own, old⟩ := entry
      simp only [insertInto]
      by_cases hsame : key = own
      · subst hsame
        by_cases h : key = other
        · simp [h]
        · simp [h]
      · rw [if_neg (by simpa using hsame)]
        by_cases hbefore : key < own
        · rw [if_pos hbefore]
          by_cases h : key = other
          · simp [h]
          · simp [h]
        · rw [if_neg hbefore]
          by_cases hown : own = other
          · have hne : key ≠ other := fun h => hsame (h.trans hown.symm)
            simp [hown, hne]
          · simpa [hown] using ih

theorem get?_insert (map : KeyMap α) (key other : String) (value : α) :
    (map.insert key value).get? other = if key = other then some value else map.get? other :=
  find?_insertInto key other value map.entries

theorem contains_insert (map : KeyMap α) (key other : String) (value : α) :
    (map.insert key value).contains other = (decide (key = other) || map.contains other) := by
  rw [contains_eq_isSome_get?, contains_eq_isSome_get?, get?_insert]
  by_cases h : key = other
  · simp [h]
  · simp [h]

theorem get?_erase (map : KeyMap α) (key other : String) :
    (map.erase key).get? other = if key = other then none else map.get? other := by
  unfold get? erase
  rw [List.find?_filter]
  by_cases h : key = other
  · subst h
    simp
  · have hsame : (fun entry : String × α =>
        decide ((entry.1 != key) = true ∧ (entry.1 == other) = true)) =
        fun entry => entry.1 == other := by
      funext entry
      by_cases hentry : entry.1 = other
      · simp [hentry, Ne.symm h]
      · simp [hentry]
    rw [if_neg h, hsame]

theorem get?_foldl_erase (keys : List String) (map : KeyMap α) (other : String) :
    (keys.foldl erase map).get? other = if other ∈ keys then none else map.get? other := by
  induction keys generalizing map with
  | nil => simp
  | cons key rest ih =>
      rw [List.foldl_cons, ih, get?_erase]
      by_cases hrest : other ∈ rest
      · simp [hrest]
      · by_cases h : key = other
        · simp [h]
        · simp [hrest, h, Ne.symm h]

/-! ### Several entries -/

/-- The value that stands last under a key in a list of entries. -/
def last? (entries : List (String × α)) (key : String) : Option α :=
  (entries.reverse.find? fun entry => entry.1 == key).map Prod.snd

theorem get?_foldl_insert (entries : List (String × α)) (map : KeyMap α) (key : String) :
    (entries.foldl (fun map entry => map.insert entry.1 entry.2) map).get? key =
      (last? entries key).or (map.get? key) := by
  induction entries generalizing map with
  | nil => simp [last?]
  | cons entry rest ih =>
      rw [List.foldl_cons, ih, get?_insert]
      unfold last?
      rw [List.reverse_cons, List.find?_append]
      cases hrest : rest.reverse.find? fun entry => entry.1 == key with
      | some found => simp
      | none =>
          by_cases h : entry.1 = key
          · simp [h]
          · simp [h]

theorem get?_ofList (entries : List (String × α)) (key : String) :
    (ofList entries).get? key = last? entries key := by
  rw [ofList, get?_foldl_insert]
  simp

/-- Which keys there are after the keys of some things were put in. -/
theorem contains_foldl_insert {γ : Type} (keyOf : γ → String) (value : α) (things : List γ)
    (map : KeyMap α) (key : String) :
    (things.foldl (fun map thing => map.insert (keyOf thing) value) map).contains key = true ↔
      map.contains key = true ∨ ∃ thing ∈ things, keyOf thing = key := by
  induction things generalizing map with
  | nil => simp
  | cons first rest ih =>
      rw [List.foldl_cons, ih, contains_insert, List.exists_mem_cons_iff, Bool.or_eq_true_iff,
        decide_eq_true_iff, or_comm (a := keyOf first = key), or_assoc]

theorem last?_eq_none_iff {entries : List (String × α)} {key : String} :
    last? entries key = none ↔ ∀ entry ∈ entries, entry.1 ≠ key := by
  simp [last?]

theorem mem_of_last? {entries : List (String × α)} {key : String} {value : α}
    (h : last? entries key = some value) : (key, value) ∈ entries := by
  obtain ⟨entry, hfind, rfl⟩ := Option.map_eq_some_iff.mp h
  have hkey : entry.1 = key := by simpa using List.find?_some hfind
  have hmem : entry ∈ entries := by simpa using List.mem_of_find?_eq_some hfind
  rw [← hkey]
  exact hmem

/-- Where all entries of a key have the same value, this is the value that is found. -/
theorem last?_eq_some_of_unique {entries : List (String × α)} {key : String} {value : α}
    (hmem : (key, value) ∈ entries)
    (hunique : ∀ other, (key, other) ∈ entries → other = value) :
    last? entries key = some value := by
  cases hlast : last? entries key with
  | none => exact absurd rfl (last?_eq_none_iff.mp hlast _ hmem)
  | some other => rw [hunique other (mem_of_last? hlast)]

/-! ### Order -/

/-- The keys of the map strictly ascend. -/
def Ordered (map : KeyMap α) : Prop :=
  map.entries.Pairwise fun a b => a.1 < b.1

theorem ordered_empty : ({} : KeyMap α).Ordered :=
  List.Pairwise.nil

theorem mem_insertInto {key : String} {value : α} {entry : String × α}
    {entries : List (String × α)} (h : entry ∈ insertInto key value entries) :
    entry = (key, value) ∨ entry ∈ entries := by
  induction entries with
  | nil => simpa [insertInto] using h
  | cons first rest ih =>
      obtain ⟨own, old⟩ := first
      simp only [insertInto] at h
      split at h
      · rcases List.mem_cons.mp h with h | h
        · exact .inl h
        · exact .inr (List.mem_cons_of_mem _ h)
      · split at h
        · exact (List.mem_cons.mp h).imp id id
        · rcases List.mem_cons.mp h with h | h
          · exact .inr (h ▸ List.mem_cons_self)
          · exact (ih h).imp id (List.mem_cons_of_mem _)

theorem Ordered.insert {map : KeyMap α} (h : map.Ordered) (key : String) (value : α) :
    (map.insert key value).Ordered := by
  obtain ⟨entries⟩ := map
  change (insertInto key value entries).Pairwise fun a b => a.1 < b.1
  change entries.Pairwise fun a b => a.1 < b.1 at h
  induction entries with
  | nil => simp [insertInto]
  | cons first rest ih =>
      obtain ⟨own, old⟩ := first
      obtain ⟨hfirst, hrest⟩ := List.pairwise_cons.mp h
      simp only [insertInto]
      by_cases hsame : key = own
      · rw [if_pos (by simpa using hsame)]
        exact List.pairwise_cons.mpr ⟨fun entry hentry => hsame ▸ hfirst entry hentry, hrest⟩
      · rw [if_neg (by simpa using hsame)]
        by_cases hbefore : key < own
        · rw [if_pos hbefore]
          refine List.pairwise_cons.mpr ⟨fun entry hentry => ?_, h⟩
          rcases List.mem_cons.mp hentry with rfl | hentry
          · exact hbefore
          · exact lt_trans hbefore (hfirst entry hentry)
        · rw [if_neg hbefore]
          have hafter : own < key := lt_of_le_of_ne (not_lt.mp hbefore) (Ne.symm hsame)
          refine List.pairwise_cons.mpr ⟨fun entry hentry => ?_, ih hrest⟩
          rcases mem_insertInto hentry with rfl | hentry
          · exact hafter
          · exact hfirst entry hentry

theorem Ordered.foldl_insert {map : KeyMap α} (h : map.Ordered) (entries : List (String × α)) :
    (entries.foldl (fun map entry => map.insert entry.1 entry.2) map).Ordered := by
  induction entries generalizing map with
  | nil => exact h
  | cons entry rest ih => exact ih (h.insert entry.1 entry.2)

theorem ordered_ofList (entries : List (String × α)) : (ofList entries).Ordered :=
  ordered_empty.foldl_insert entries

theorem Ordered.union {map : KeyMap α} (h : map.Ordered) (other : KeyMap α) :
    (map.union other).Ordered :=
  h.foldl_insert other.entries

theorem Ordered.erase {map : KeyMap α} (h : map.Ordered) (key : String) :
    (map.erase key).Ordered :=
  List.Pairwise.filter _ h

theorem Ordered.foldl_erase {map : KeyMap α} (h : map.Ordered) (keys : List String) :
    (keys.foldl KeyMap.erase map).Ordered := by
  induction keys generalizing map with
  | nil => exact h
  | cons key rest ih => exact ih (h.erase key)

theorem Ordered.get?_eq_some_iff {map : KeyMap α} (h : map.Ordered) {key : String} {value : α} :
    map.get? key = some value ↔ (key, value) ∈ map.entries := by
  constructor
  · intro hget
    obtain ⟨entry, hfind, rfl⟩ := Option.map_eq_some_iff.mp hget
    have hkey : entry.1 = key := by simpa using List.find?_some hfind
    rw [← hkey]
    exact List.mem_of_find?_eq_some hfind
  · intro hmem
    cases hfind : map.entries.find? fun entry => entry.1 == key with
    | none =>
        have hne := List.find?_eq_none.mp hfind _ hmem
        simp at hne
    | some entry =>
        have hkey : entry.1 = key := by simpa using List.find?_some hfind
        have hnodup : (map.entries.map Prod.fst).Nodup :=
          List.pairwise_map.mpr (h.imp fun hlt => ne_of_lt hlt)
        have hentry : entry = (key, value) :=
          List.inj_on_of_nodup_map hnodup (List.mem_of_find?_eq_some hfind) hmem hkey
        simp [get?, hfind, hentry]

theorem Ordered.last?_entries {map : KeyMap α} (h : map.Ordered) (key : String) :
    last? map.entries key = map.get? key := by
  cases hget : map.get? key with
  | some value =>
      apply last?_eq_some_of_unique (h.get?_eq_some_iff.mp hget)
      intro other hother
      rw [h.get?_eq_some_iff.mpr hother] at hget
      exact Option.some.inj hget
  | none =>
      rw [last?_eq_none_iff]
      rintro ⟨own, value⟩ hmem rfl
      rw [h.get?_eq_some_iff.mpr hmem] at hget
      cases hget

theorem get?_union (map : KeyMap α) {other : KeyMap α} (h : other.Ordered) (key : String) :
    (map.union other).get? key = (other.get? key).or (map.get? key) := by
  rw [union, get?_foldl_insert, h.last?_entries]

/-- An ordered map is determined by what can be looked up in it. -/
theorem Ordered.ext {a b : KeyMap α} (ha : a.Ordered) (hb : b.Ordered)
    (h : ∀ key, a.get? key = b.get? key) : a = b := by
  have hmem : ∀ entry, entry ∈ a.entries ↔ entry ∈ b.entries := by
    rintro ⟨key, value⟩
    rw [← ha.get?_eq_some_iff, ← hb.get?_eq_some_iff, h key]
  have hperm : a.entries.Perm b.entries :=
    (List.perm_ext_iff_of_nodup (ha.imp fun hlt heq => ne_of_lt hlt (congrArg Prod.fst heq))
      (hb.imp fun hlt heq => ne_of_lt hlt (congrArg Prod.fst heq))).mpr hmem
  have hentries : a.entries = b.entries :=
    hperm.eq_of_pairwise (fun x y _ _ hxy hyx => absurd (lt_trans hxy hyx) (lt_irrefl _)) ha hb
  cases a
  cases b
  exact congrArg KeyMap.mk hentries

/-! ### Entries whose keys are distinct -/

section Distinct

variable {entries : List (String × α)} (hdistinct : (entries.map Prod.fst).Nodup)

include hdistinct

theorem get?_ofList_eq_some_iff {key : String} {value : α} :
    (ofList entries).get? key = some value ↔ (key, value) ∈ entries := by
  rw [get?_ofList]
  constructor
  · exact mem_of_last?
  · intro hmem
    apply last?_eq_some_of_unique hmem
    intro other hother
    have hsame : (key, other) = (key, value) :=
      List.inj_on_of_nodup_map hdistinct hother hmem rfl
    exact (Prod.mk.inj hsame).2

/-- The map of a list holds the entries of the list, each once. -/
theorem entries_ofList_perm : (ofList entries).entries.Perm entries := by
  have hordered := ordered_ofList entries
  have hnodup : (ofList entries).entries.Nodup :=
    hordered.imp fun hlt heq => ne_of_lt hlt (congrArg Prod.fst heq)
  refine (List.perm_ext_iff_of_nodup hnodup hdistinct.of_map).mpr ?_
  rintro ⟨key, value⟩
  rw [← hordered.get?_eq_some_iff, get?_ofList_eq_some_iff hdistinct]

/-- The order of the list does not count. -/
theorem ofList_eq_of_perm {others : List (String × α)} (hperm : others.Perm entries) :
    ofList others = ofList entries := by
  have hothers : (others.map Prod.fst).Nodup := (hperm.map Prod.fst).nodup_iff.mpr hdistinct
  refine (ordered_ofList others).ext (ordered_ofList entries) fun key => Option.ext fun value => ?_
  rw [get?_ofList_eq_some_iff hothers, get?_ofList_eq_some_iff hdistinct, hperm.mem_iff]

end Distinct

/-! ### Lists made of all values -/

section Lists

variable {γ : Type} (part : α → List γ)

/-- What the value under a key adds to a list that is made of all values. -/
def partAt (map : KeyMap α) (key : String) : List γ :=
  ((map.get? key).map part).getD []

/-- The parts that are not empty, under the keys of their values. -/
def nonemptyParts (map : KeyMap α) : KeyMap (List γ) :=
  ⟨(map.entries.map fun entry => (entry.1, part entry.2)).filter fun entry => !entry.2.isEmpty⟩

theorem Ordered.nonemptyParts {map : KeyMap α} (h : map.Ordered) :
    (map.nonemptyParts part).Ordered :=
  List.Pairwise.filter _ (List.pairwise_map.mpr h)

theorem Ordered.get?_nonemptyParts_eq_some_iff {map : KeyMap α} (h : map.Ordered) {key : String}
    {list : List γ} :
    (map.nonemptyParts part).get? key = some list ↔ map.partAt part key = list ∧ list ≠ [] := by
  rw [(h.nonemptyParts part).get?_eq_some_iff]
  unfold KeyMap.nonemptyParts partAt
  simp only [List.mem_filter, List.mem_map, Prod.mk.injEq, Bool.not_eq_true',
    List.isEmpty_eq_false_iff]
  refine and_congr_left fun hne => ?_
  constructor
  · rintro ⟨⟨own, value⟩, hmem, rfl, rfl⟩
    rw [h.get?_eq_some_iff.mpr hmem]
    rfl
  · rintro rfl
    cases hget : map.get? key with
    | none => exact absurd (by rw [hget]; rfl) hne
    | some value => exact ⟨(key, value), h.get?_eq_some_iff.mp hget, rfl, rfl⟩

theorem flatten_values_nonemptyParts (map : KeyMap α) :
    (map.nonemptyParts part).values.flatten = map.values.flatMap part := by
  obtain ⟨entries⟩ := map
  unfold nonemptyParts values
  simp only
  induction entries with
  | nil => rfl
  | cons entry rest ih =>
      cases hpart : part entry.2 with
      | nil => simpa [hpart] using ih
      | cons head tail => simpa [hpart] using ih

/-- Values that add nothing do not count. -/
theorem Ordered.flatMap_values_eq {a b : KeyMap α} (ha : a.Ordered) (hb : b.Ordered)
    (h : ∀ key, a.partAt part key = b.partAt part key) :
    a.values.flatMap part = b.values.flatMap part := by
  have hsame : a.nonemptyParts part = b.nonemptyParts part := by
    refine (ha.nonemptyParts part).ext (hb.nonemptyParts part) fun key => Option.ext fun list => ?_
    rw [ha.get?_nonemptyParts_eq_some_iff, hb.get?_nonemptyParts_eq_some_iff, h]
  rw [← flatten_values_nonemptyParts, hsame, flatten_values_nonemptyParts]

end Lists

end KeyMap
end NgIndex
