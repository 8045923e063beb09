import Mathlib.Data.List.Induction
import Mathlib.Data.List.Nodup

/-!
# Named entries written one after the other

A list of named entries is written entry by entry.  An entry takes the place of an earlier one of its
name, and stands behind all others if there is none.  So in the end each name stands where it came
first and has what was written to it last.
-/

namespace NgIndex

section

variable {α : Type*} {name : α → String} {writes entries next : List α} {entry : α}

/-! ### The last write of a name -/

/-- The last of several writes to the name that it writes to. -/
def IsLastWrite (name : α → String) (writes : List α) (entry : α) : Prop :=
  ∃ before after, writes = before ++ entry :: after ∧ name entry ∉ after.map name

theorem IsLastWrite.mem_names (h : IsLastWrite name writes entry) :
    name entry ∈ writes.map name := by
  obtain ⟨before, after, rfl, -⟩ := h
  simp

theorem IsLastWrite.getLast?_filter (h : IsLastWrite name writes entry) :
    (writes.filter fun other => name other == name entry).getLast? = some entry := by
  obtain ⟨before, after, rfl, hafter⟩ := h
  have hnone : (after.filter fun other => name other == name entry) = [] := by
    rw [List.filter_eq_nil_iff]
    intro other hother hname
    exact hafter (List.mem_map.mpr ⟨other, hother, by simpa using hname⟩)
  simp [hnone]

theorem IsLastWrite.unique {other : α} (h : IsLastWrite name writes entry)
    (hother : IsLastWrite name writes other) (hname : name entry = name other) : entry = other := by
  have hentry := h.getLast?_filter
  rw [hname, hother.getLast?_filter] at hentry
  exact (Option.some.inj hentry).symm

theorem IsLastWrite.concat_self (writes : List α) (entry : α) :
    IsLastWrite name (writes ++ [entry]) entry :=
  ⟨writes, [], rfl, List.not_mem_nil⟩

theorem IsLastWrite.concat {other : α} (h : IsLastWrite name writes other)
    (hname : name other ≠ name entry) : IsLastWrite name (writes ++ [entry]) other := by
  obtain ⟨before, after, rfl, hafter⟩ := h
  refine ⟨before, after ++ [entry], by simp, ?_⟩
  rw [List.map_append, List.mem_append, not_or, List.map_singleton, List.mem_singleton]
  exact ⟨hafter, hname⟩

/-! ### One write -/

/-- Entries before and after one more is written. -/
inductive Written (name : α → String) (entry : α) : List α → List α → Prop
  | inPlace (front : List α) (old : α) (back : List α) :
      name old = name entry → Written name entry (front ++ old :: back) (front ++ entry :: back)
  | atEnd (entries : List α) :
      name entry ∉ entries.map name → Written name entry entries (entries ++ [entry])

theorem Written.cons {other : α} (h : Written name entry entries next)
    (hname : name other ≠ name entry) : Written name entry (other :: entries) (other :: next) := by
  cases h with
  | inPlace front old back hold => exact .inPlace (other :: front) old back hold
  | atEnd entries hnew =>
      refine .atEnd (other :: entries) ?_
      rw [List.map_cons, List.mem_cons, not_or]
      exact ⟨hname.symm, hnew⟩

/-- An entry is written by going through the entries up to the first of its name. -/
theorem written_of_search (put : List α → List α) (hnil : put [] = [entry])
    (hfound : ∀ old rest, name old = name entry → put (old :: rest) = entry :: rest)
    (hpassed : ∀ other rest, name other ≠ name entry → put (other :: rest) = other :: put rest)
    (entries : List α) : Written name entry entries (put entries) := by
  induction entries with
  | nil =>
      rw [hnil]
      exact .atEnd [] List.not_mem_nil
  | cons other rest ih =>
      by_cases h : name other = name entry
      · rw [hfound other rest h]
        exact .inPlace [] other rest h
      · rw [hpassed other rest h]
        exact ih.cons h

/-- What has been written so far: every name once, where it came first, and with what was written to
it last. -/
structure Overwritten (name : α → String) (writes entries : List α) : Prop where
  distinct : (entries.map name).Nodup
  sameNames : ∀ n, n ∈ entries.map name ↔ n ∈ writes.map name
  /-- Of two entries, the name of the front one was written to earlier. -/
  firstSeen : (entries.map name).Pairwise fun n k =>
    (writes.map name).idxOf n < (writes.map name).idxOf k
  last : ∀ entry ∈ entries, IsLastWrite name writes entry

theorem Overwritten.nil : Overwritten name [] [] :=
  ⟨List.nodup_nil, by simp, List.Pairwise.nil, by simp⟩

/-- The names stand where they stood before if none is new. -/
theorem Overwritten.firstSeen_concat (h : Overwritten name writes entries) (entry : α) :
    (entries.map name).Pairwise fun n k =>
      ((writes ++ [entry]).map name).idxOf n < ((writes ++ [entry]).map name).idxOf k := by
  refine h.firstSeen.imp_of_mem fun hn hk hlt => ?_
  rw [List.map_append, List.idxOf_append_of_mem ((h.sameNames _).mp hn),
    List.idxOf_append_of_mem ((h.sameNames _).mp hk)]
  exact hlt

/-- A write in the place of an entry of the same name. -/
theorem Overwritten.step_inPlace {front back : List α} {old : α}
    (h : Overwritten name writes (front ++ old :: back)) (hold : name old = name entry) :
    Overwritten name (writes ++ [entry]) (front ++ entry :: back) := by
  have hnames : (front ++ entry :: back).map name = (front ++ old :: back).map name := by
    simp [hold]
  have hmoved := h.firstSeen_concat entry
  refine ⟨hnames ▸ h.distinct, fun n => ?_, hnames ▸ hmoved, fun other hother => ?_⟩
  · rw [hnames, h.sameNames, List.map_append, List.mem_append, List.map_singleton,
      List.mem_singleton]
    refine ⟨.inl, Or.rec id ?_⟩
    rintro rfl
    exact (h.sameNames _).mp (by simp [hold])
  · -- No other entry has the name that is written to.
    have hdistinct := h.distinct
    rw [List.map_append, List.map_cons, List.nodup_middle, List.nodup_cons, hold,
      ← List.map_append] at hdistinct
    rcases List.mem_append.mp hother with hfront | hback
    · refine (h.last other (List.mem_append_left _ hfront)).concat fun hname => ?_
      exact hdistinct.1 (hname ▸ List.mem_map_of_mem (List.mem_append_left _ hfront))
    · rcases List.mem_cons.mp hback with rfl | hback
      · exact .concat_self writes other
      · refine (h.last other ?_).concat fun hname => ?_
        · exact List.mem_append_right _ (List.mem_cons_of_mem _ hback)
        · exact hdistinct.1 (hname ▸ List.mem_map_of_mem (List.mem_append_right _ hback))

/-- A write under a new name. -/
theorem Overwritten.step_atEnd (h : Overwritten name writes entries)
    (hnew : name entry ∉ entries.map name) :
    Overwritten name (writes ++ [entry]) (entries ++ [entry]) := by
  have hfresh : name entry ∉ writes.map name := (h.sameNames _).not.mp hnew
  have hnames : (entries ++ [entry]).map name = entries.map name ++ [name entry] :=
    List.map_append
  refine ⟨?_, fun n => ?_, ?_, fun other hother => ?_⟩
  · rw [hnames]
    exact List.concat_eq_append ▸ h.distinct.concat hnew
  · rw [hnames, List.mem_append, h.sameNames, List.map_append, List.mem_append,
      List.map_singleton]
  · rw [hnames, List.pairwise_append]
    refine ⟨h.firstSeen_concat entry, List.pairwise_singleton _ _, fun n hn k hk => ?_⟩
    have hn := (h.sameNames n).mp hn
    rw [List.mem_singleton.mp hk, List.map_append, List.idxOf_append_of_mem hn,
      List.idxOf_append_of_notMem hfresh]
    exact Nat.lt_add_right _ (List.idxOf_lt_length_of_mem hn)
  · rcases List.mem_append.mp hother with hold | hentry
    · refine (h.last other hold).concat fun hname => hnew ?_
      exact hname ▸ List.mem_map_of_mem hold
    · rw [List.mem_singleton.mp hentry]
      exact .concat_self writes entry

/-- One write keeps what is known about the writes so far. -/
theorem Overwritten.step (h : Overwritten name writes entries)
    (hwrite : Written name entry entries next) :
    Overwritten name (writes ++ [entry]) next := by
  cases hwrite with
  | inPlace front old back hold => exact h.step_inPlace hold
  | atEnd _ hnew => exact h.step_atEnd hnew

/-! ### A run of writes -/

/-- Writing one entry after the other, from none. -/
theorem overwritten_foldl {put : List α → α → List α}
    (hput : ∀ entries entry, Written name entry entries (put entries entry)) (writes : List α) :
    Overwritten name writes (writes.foldl put []) := by
  induction writes using List.reverseRecOn with
  | nil => exact .nil
  | append_singleton writes entry ih =>
      rw [List.foldl_concat]
      exact ih.step (hput _ entry)

/-- Looking up a name finds its last write. -/
theorem Overwritten.find?_eq_some_iff (h : Overwritten name writes entries) {n : String} :
    (entries.find? fun other => name other == n) = some entry ↔
      name entry = n ∧ IsLastWrite name writes entry := by
  constructor
  · intro hfind
    exact ⟨by simpa using List.find?_some hfind, h.last entry (List.mem_of_find?_eq_some hfind)⟩
  · rintro ⟨rfl, hlast⟩
    obtain ⟨found, hfound, hname⟩ := List.mem_map.mp ((h.sameNames _).mpr hlast.mem_names)
    have hsome : (entries.find? fun other => name other == name entry).isSome = true :=
      List.find?_isSome.mpr ⟨found, hfound, by simpa using hname⟩
    obtain ⟨first, hfirst⟩ := Option.isSome_iff_exists.mp hsome
    have hsame : name first = name entry := by simpa using List.find?_some hfirst
    rw [hfirst, (h.last first (List.mem_of_find?_eq_some hfirst)).unique hlast hsame]

theorem Overwritten.find?_eq_none_iff (h : Overwritten name writes entries) {n : String} :
    (entries.find? fun other => name other == n) = none ↔ n ∉ writes.map name := by
  rw [← h.sameNames, List.find?_eq_none, List.mem_map, not_exists]
  simp

end

end NgIndex
