import Mathlib.Data.Finset.Card
import Mathlib.Data.List.Dedup
import NgIndex.Analysis.Controller

/-!
# What registrations make of declared controllers

A registration gives the first controller of its class that still has the name of the class another
name, and makes a copy where there is none.  Whether a controller is registered already is read from
its name.  So a class that is registered under its own name looks as if it were not, and the next
name takes the place of its own.

Every other name is kept.  The name of the class is kept if the class is declared more often than
it has other names, or if no other name is new behind some registration under its own.
-/

namespace NgIndex

open Script

namespace Controller

/-- The class of an entry and the name it is registered under. -/
def entry (c : Controller) : String × String :=
  (c.className, c.name)

/-- Whether an entry is a controller under a name, its own or another one. -/
def Names (c entry : Controller) : Prop :=
  entry = { c with name := entry.name }

theorem Names.refl (c : Controller) : c.Names c :=
  rfl

theorem Names.rename {c entry : Controller} (h : c.Names entry) (name : String) :
    c.Names { entry with name } := by
  rw [h]
  rfl

theorem Names.className {c entry : Controller} (h : c.Names entry) :
    entry.className = c.className := by
  rw [h]

end Controller

namespace Analysis

open Controller

/-- The classes of controllers and the names they have. -/
abbrev entries (controllers : List Controller) : List (String × String) :=
  controllers.map entry

theorem entries_append (front rest : List Controller) :
    entries (front ++ rest) = entries front ++ entries rest :=
  List.map_append

theorem entries_cons (c : Controller) (rest : List Controller) :
    entries (c :: rest) = c.entry :: entries rest :=
  rfl

theorem entry_rename {c : Controller} {className : String} (hclass : c.className = className)
    (name : String) : ({ c with name } : Controller).entry = (className, name) := by
  simp [entry, hclass]

/-- The names other than that of the class that a class is registered under. -/
def otherNames (className : String) (registrations : List (String × String)) : Finset String :=
  ((registrations.filter fun r => r.1 = className).map Prod.snd).toFinset.erase className

section OtherNames

variable {className name : String} {registrations : List (String × String)}

theorem mem_otherNames_iff :
    name ∈ otherNames className registrations ↔
      name ≠ className ∧ (className, name) ∈ registrations := by
  simp [otherNames]

theorem otherNames_concat_of_mem {r : String × String}
    (h : r.1 = className → r.2 ≠ className → r ∈ registrations) :
    otherNames className (registrations ++ [r]) = otherNames className registrations := by
  ext name
  simp only [mem_otherNames_iff, List.mem_append, List.mem_singleton]
  constructor
  · rintro ⟨hname, hmem | rfl⟩
    · exact ⟨hname, hmem⟩
    · exact ⟨hname, h rfl hname⟩
  · rintro ⟨hname, hmem⟩
    exact ⟨hname, .inl hmem⟩

theorem otherNames_concat_of_notMem (hname : name ≠ className)
    (hnew : (className, name) ∉ registrations) :
    (otherNames className (registrations ++ [(className, name)])).card =
      (otherNames className registrations).card + 1 := by
  have hinsert : otherNames className (registrations ++ [(className, name)]) =
      insert name (otherNames className registrations) := by
    ext other
    simp only [mem_otherNames_iff, List.mem_append, List.mem_singleton, Prod.mk.injEq, true_and,
      Finset.mem_insert]
    constructor
    · rintro ⟨hother, hmem | rfl⟩
      · exact .inr ⟨hother, hmem⟩
      · exact .inl rfl
    · rintro (rfl | ⟨hother, hmem⟩)
      · exact ⟨hname, .inr rfl⟩
      · exact ⟨hother, .inl hmem⟩
  have hfresh : name ∉ otherNames className registrations := by
    rw [mem_otherNames_iff]
    rintro ⟨-, hmem⟩
    exact hnew hmem
  rw [hinsert, Finset.card_insert_of_notMem hfresh]

end OtherNames

/-! ### One registration -/

section Register

variable {controllers : List Controller} {className name : String}

theorem mem_entries_iff :
    (className, name) ∈ entries controllers ↔
      ∃ c ∈ controllers, c.className = className ∧ c.name = name := by
  simp [entry, Prod.ext_iff]

theorem renameFirst?_eq_none_iff :
    renameFirst? className name controllers = none ↔
      (className, className) ∉ entries controllers := by
  induction controllers with
  | nil => simp [renameFirst?]
  | cons c rest ih =>
      rw [renameFirst?]
      split
      next h =>
        have hc : c.className = className ∧ c.name = c.className := by simpa using h
        obtain ⟨rfl, hname⟩ := hc
        simp [entry, hname]
      next h =>
        have hne : c.className = className → c.name ≠ c.className := by simpa using h
        have hentry : (className, className) ≠ c.entry := by
          intro heq
          obtain ⟨hclass, hname⟩ := Prod.ext_iff.mp heq
          exact hne hclass.symm (hname.symm.trans hclass)
        simp [ih, hentry]

/-- The first entry with the name of the class is the one that is renamed. -/
theorem exists_of_renameFirst? {renamed : List Controller}
    (h : renameFirst? className name controllers = some renamed) :
    ∃ front c rest, controllers = front ++ c :: rest ∧ c.entry = (className, className) ∧
      renamed = front ++ { c with name } :: rest := by
  induction controllers generalizing renamed with
  | nil => simp [renameFirst?] at h
  | cons c rest ih =>
      rw [renameFirst?] at h
      split at h
      next hc =>
        have hc : c.className = className ∧ c.name = c.className := by simpa using hc
        obtain ⟨rfl, hname⟩ := hc
        have hentry : c.entry = (c.className, c.className) := by simp [entry, hname]
        exact ⟨[], c, rest, rfl, hentry, (Option.some.inj h).symm⟩
      next =>
        obtain ⟨others, hothers, rfl⟩ := Option.map_eq_some_iff.mp h
        obtain ⟨front, d, behind, rfl, hentry, rfl⟩ := ih hothers
        exact ⟨c :: front, d, behind, rfl, hentry, rfl⟩

/-- What a registration can do.  It is passed over if there is such an entry or no such class;
otherwise it renames an entry that has the name of the class, and makes a copy only if there is
none. -/
theorem register_cases (controllers : List Controller) (className name : String) :
    ((className, name) ∈ entries controllers ∧
      register controllers (className, name) = controllers) ∨
    ((className, name) ∉ entries controllers ∧ name ≠ className ∧ ∃ front c rest,
      controllers = front ++ c :: rest ∧ c.entry = (className, className) ∧
      register controllers (className, name) = front ++ { c with name } :: rest) ∨
    ((className, name) ∉ entries controllers ∧ (className, className) ∉ entries controllers ∧
      ∃ c, controllers.find? (fun c => c.className == className) = some c ∧
        register controllers (className, name) = controllers ++ [{ c with name }]) ∨
    ((∀ c ∈ controllers, c.className ≠ className) ∧
      register controllers (className, name) = controllers) := by
  have hany : (controllers.any fun c => c.className == className && c.name == name) = true ↔
      (className, name) ∈ entries controllers := by
    simp [mem_entries_iff]
  by_cases hpresent : (className, name) ∈ entries controllers
  · left
    refine ⟨hpresent, ?_⟩
    simp [register, hany.mpr hpresent]
  · right
    have hskip : (controllers.any fun c => c.className == className && c.name == name) = false :=
      Bool.eq_false_iff.mpr (mt hany.mp hpresent)
    cases hrename : renameFirst? className name controllers with
    | some renamed =>
        left
        obtain ⟨front, c, rest, hsplit, hentry, rfl⟩ := exists_of_renameFirst? hrename
        refine ⟨hpresent, ?_, front, c, rest, hsplit, hentry, ?_⟩
        · rintro rfl
          apply hpresent
          rw [hsplit, ← hentry]
          simp
        · simp [register, hskip, hrename]
    | none =>
        right
        have hunnamed := renameFirst?_eq_none_iff.mp hrename
        cases hfind : controllers.find? fun c => c.className == className with
        | some c =>
            left
            refine ⟨hpresent, hunnamed, c, rfl, ?_⟩
            simp [register, hskip, hrename, hfind]
        | none =>
            right
            constructor
            · simpa using List.find?_eq_none.mp hfind
            · simp [register, hskip, hrename, hfind]

/-- What a registration does to the entries. -/
theorem entries_register_cases (controllers : List Controller) (className name : String) :
    ((className, name) ∈ entries controllers ∧
      entries (register controllers (className, name)) = entries controllers) ∨
    ((className, name) ∉ entries controllers ∧ name ≠ className ∧ ∃ front rest,
      entries controllers = front ++ (className, className) :: rest ∧
      entries (register controllers (className, name)) =
        front ++ (className, name) :: rest) ∨
    ((className, name) ∉ entries controllers ∧ (className, className) ∉ entries controllers ∧
      (∃ other, (className, other) ∈ entries controllers) ∧
      entries (register controllers (className, name)) =
        entries controllers ++ [(className, name)]) ∨
    ((∀ other, (className, other) ∉ entries controllers) ∧
      entries (register controllers (className, name)) = entries controllers) := by
  rcases register_cases controllers className name with ⟨hpresent, heq⟩ |
    ⟨hnew, hname, front, c, rest, rfl, hentry, heq⟩ | ⟨hnew, hunnamed, c, hfind, heq⟩ |
    ⟨habsent, heq⟩
  · left
    exact ⟨hpresent, congrArg entries heq⟩
  · right; left
    have hclass : c.className = className := congrArg Prod.fst hentry
    refine ⟨hnew, hname, entries front, entries rest, ?_, ?_⟩
    · simp [hentry]
    · rw [heq]
      simp [entry, hclass]
  · right; right; left
    have hclass : c.className = className := by simpa using List.find?_some hfind
    refine ⟨hnew, hunnamed, ⟨c.name, ?_⟩, ?_⟩
    · exact mem_entries_iff.mpr ⟨c, List.mem_of_find?_eq_some hfind, hclass, rfl⟩
    · rw [heq]
      simp [entry, hclass]
  · right; right; right
    refine ⟨fun other hmem => ?_, congrArg entries heq⟩
    obtain ⟨c, hc, hclass, -⟩ := mem_entries_iff.mp hmem
    exact habsent c hc hclass

/-- A name that is not that of the class is never taken back. -/
theorem mem_entries_register_iff {other : String} {registered : String × String}
    (hother : other ≠ className) (hdeclared : ∃ known, (className, known) ∈ entries controllers) :
    (className, other) ∈ entries (register controllers registered) ↔
      (className, other) ∈ entries controllers ∨ (className, other) = registered := by
  obtain ⟨registeredClass, name⟩ := registered
  rcases entries_register_cases controllers registeredClass name with ⟨hpresent, heq⟩ |
    ⟨-, -, front, rest, hsplit, heq⟩ | ⟨-, -, -, heq⟩ | ⟨habsent, heq⟩
  · rw [heq]
    constructor
    · exact .inl
    · rintro (hmem | hsame)
      · exact hmem
      · rwa [hsame]
  · have hne : (className, other) ≠ (registeredClass, registeredClass) := by
      rintro hsame
      obtain ⟨rfl, rfl⟩ := Prod.mk.inj hsame
      exact hother rfl
    rw [heq, hsplit]
    simp only [List.mem_append, List.mem_cons, hne, false_or]
    tauto
  · rw [heq]
    simp
  · rw [heq]
    constructor
    · exact .inl
    · rintro (hmem | hsame)
      · exact hmem
      · obtain ⟨rfl, rfl⟩ := Prod.mk.inj hsame
        obtain ⟨known, hknown⟩ := hdeclared
        exact absurd hknown (habsent known)

theorem exists_entry_register (registered : String × String)
    (hdeclared : ∃ known, (className, known) ∈ entries controllers) :
    ∃ known, (className, known) ∈ entries (register controllers registered) := by
  obtain ⟨registeredClass, name⟩ := registered
  obtain ⟨known, hknown⟩ := hdeclared
  rcases entries_register_cases controllers registeredClass name with ⟨-, heq⟩ |
    ⟨-, -, front, rest, hsplit, heq⟩ | ⟨-, -, -, heq⟩ | ⟨-, heq⟩
  · exact ⟨known, by rwa [heq]⟩
  · rw [hsplit, List.mem_append, List.mem_cons] at hknown
    rcases hknown with hfront | hsame | hrest
    · exact ⟨known, by simp [heq, hfront]⟩
    · obtain ⟨rfl, rfl⟩ := Prod.mk.inj hsame
      exact ⟨name, by simp [heq]⟩
    · exact ⟨known, by simp [heq, hrest]⟩
  · exact ⟨known, by simp [heq, hknown]⟩
  · exact ⟨known, by rwa [heq]⟩

/-! The entries that still have the name of their class are counted.  A registration of another
class does not change their number, a new name takes one of them, and a registration under the name
of the class makes one if there is none. -/

theorem count_register_of_other {registered : String × String}
    (h : registered.1 ≠ className ∨ registered ∈ entries controllers) :
    (entries (register controllers registered)).count (className, className) =
      (entries controllers).count (className, className) := by
  obtain ⟨registeredClass, name⟩ := registered
  rcases entries_register_cases controllers registeredClass name with ⟨-, heq⟩ |
    ⟨hnew, -, front, rest, hsplit, heq⟩ | ⟨hnew, -, -, heq⟩ | ⟨-, heq⟩
  · rw [heq]
  · have hclass := h.resolve_right hnew
    rw [heq, hsplit]
    simp [List.count_append, hclass]
  · have hclass := h.resolve_right hnew
    rw [heq]
    simp [List.count_append, hclass]
  · rw [heq]

theorem count_register_of_new (hname : name ≠ className)
    (hnew : (className, name) ∉ entries controllers) :
    (entries (register controllers (className, name))).count (className, className) =
      (entries controllers).count (className, className) - 1 := by
  rcases entries_register_cases controllers className name with ⟨hpresent, -⟩ |
    ⟨-, -, front, rest, hsplit, heq⟩ | ⟨-, hunnamed, -, heq⟩ | ⟨habsent, heq⟩
  · exact absurd hpresent hnew
  · rw [heq, hsplit]
    simp [List.count_append, hname]
  · rw [heq]
    simp [List.count_append, List.count_eq_zero_of_not_mem hunnamed, hname]
  · rw [heq, List.count_eq_zero_of_not_mem (habsent className)]

theorem count_register_own (hdeclared : ∃ known, (className, known) ∈ entries controllers) :
    (entries (register controllers (className, className))).count (className, className) =
      max ((entries controllers).count (className, className)) 1 := by
  rcases entries_register_cases controllers className className with ⟨hpresent, heq⟩ |
    ⟨-, hname, -⟩ | ⟨-, hunnamed, -, heq⟩ | ⟨habsent, -⟩
  · have hpos := List.count_pos_iff.mpr hpresent
    rw [heq]
    omega
  · exact absurd rfl hname
  · rw [heq]
    simp [List.count_append, List.count_eq_zero_of_not_mem hunnamed]
  · obtain ⟨known, hknown⟩ := hdeclared
    exact absurd hknown (habsent known)

/-- The entries of a class that is not registered are left alone. -/
theorem filter_register {registered : String × String} (h : registered.1 ≠ className) :
    (register controllers registered).filter (fun c => c.className = className) =
      controllers.filter fun c => c.className = className := by
  obtain ⟨registeredClass, name⟩ := registered
  rcases register_cases controllers registeredClass name with ⟨-, heq⟩ |
    ⟨-, -, front, c, rest, rfl, hentry, heq⟩ | ⟨-, -, c, hfind, heq⟩ | ⟨-, heq⟩
  · rw [heq]
  · have hclass : c.className ≠ className := by
      rw [show c.className = registeredClass from congrArg Prod.fst hentry]
      exact h
    rw [heq]
    simp [List.filter_append, hclass]
  · have hclass : c.className ≠ className := by
      rw [show c.className = registeredClass by simpa using List.find?_some hfind]
      exact h
    rw [heq]
    simp [List.filter_append, hclass]
  · rw [heq]

end Register

/-! ### The names of a class after a list of registrations -/

/-- Whether some registration under the name of the class has no new name of the class behind it. -/
def EndsOwn (className : String) (registrations : List (String × String)) : Prop :=
  ∃ before after, registrations = before ++ (className, className) :: after ∧
    otherNames className after ⊆ otherNames className before

section EndsOwn

variable {className name : String} {registrations : List (String × String)}

theorem EndsOwn.concat_own : EndsOwn className (registrations ++ [(className, className)]) := by
  refine ⟨registrations, [], rfl, ?_⟩
  simp [otherNames]

theorem EndsOwn.concat_iff {r : String × String}
    (hr : r.1 ≠ className ∨ (r.2 ≠ className ∧ r ∈ registrations)) :
    EndsOwn className (registrations ++ [r]) ↔ EndsOwn className registrations := by
  have hne : r ≠ (className, className) := by
    rintro rfl
    rcases hr with hclass | ⟨hname, -⟩
    · exact hclass rfl
    · exact hname rfl
  constructor
  · rintro ⟨before, after, hsplit, hafter⟩
    rcases List.eq_nil_or_concat' after with rfl | ⟨front, last, rfl⟩
    · have hlast := (List.append_inj' hsplit rfl).2
      exact absurd (List.cons.inj hlast).1 hne
    · rw [← List.cons_append, ← List.append_assoc] at hsplit
      refine ⟨before, front, (List.append_inj' hsplit rfl).1, ?_⟩
      intro name hname
      obtain ⟨hother, hmem⟩ := mem_otherNames_iff.mp hname
      exact hafter (mem_otherNames_iff.mpr ⟨hother, by simp [hmem]⟩)
  · rintro ⟨before, after, rfl, hafter⟩
    refine ⟨before, after ++ [r], by simp, ?_⟩
    intro name hname
    obtain ⟨hother, hmem⟩ := mem_otherNames_iff.mp hname
    rcases List.mem_append.mp hmem with hmem | hlast
    · exact hafter (mem_otherNames_iff.mpr ⟨hother, hmem⟩)
    · rw [List.mem_singleton] at hlast
      subst hlast
      obtain ⟨-, hknown⟩ := hr.resolve_left fun hclass => hclass rfl
      rcases List.mem_append.mp hknown with hbefore | hbehind
      · exact mem_otherNames_iff.mpr ⟨hother, hbefore⟩
      · rcases List.mem_cons.mp hbehind with heq | hbehind
        · exact absurd heq hne
        · exact hafter (mem_otherNames_iff.mpr ⟨hother, hbehind⟩)

theorem not_endsOwn_concat (hname : name ≠ className)
    (hnew : (className, name) ∉ registrations) :
    ¬ EndsOwn className (registrations ++ [(className, name)]) := by
  rintro ⟨before, after, hsplit, hafter⟩
  rcases List.eq_nil_or_concat' after with rfl | ⟨front, last, rfl⟩
  · have hlast := (List.append_inj' hsplit rfl).2
    obtain ⟨-, rfl⟩ := Prod.mk.inj (List.cons.inj hlast).1
    exact hname rfl
  · rw [← List.cons_append, ← List.append_assoc] at hsplit
    obtain ⟨hfront, hlast⟩ := List.append_inj' hsplit rfl
    have hlast : (className, name) = last := (List.cons.inj hlast).1
    have hmem : name ∈ otherNames className (front ++ [last]) :=
      mem_otherNames_iff.mpr ⟨hname, by simp [hlast]⟩
    obtain ⟨-, hbefore⟩ := mem_otherNames_iff.mp (hafter hmem)
    apply hnew
    rw [hfront]
    exact List.mem_append_left _ hbefore

end EndsOwn

/-- The names of a class that is declared, after some registrations.  Names other than its own are
those it was registered under.  For its own name, `atLeast` and `atMost` count the entries that
have it: each other name takes one, and a registration under its own makes one again if all are
taken. -/
structure Tallied (declared : List Controller) (className : String)
    (registrations : List (String × String)) (controllers : List Controller) : Prop where
  known : ∃ name, (className, name) ∈ entries controllers
  other : ∀ name, name ≠ className →
    ((className, name) ∈ entries controllers ↔ (className, name) ∈ registrations)
  atLeast : (declared.countP fun c => c.className = className) ≤
    (entries controllers).count (className, className) + (otherNames className registrations).card
  atMost : (entries controllers).count (className, className) ≤
    max ((declared.countP fun c => c.className = className) -
      (otherNames className registrations).card) 1
  own : 0 < (entries controllers).count (className, className) ↔
    (otherNames className registrations).card < (declared.countP fun c => c.className = className) ∨
      EndsOwn className registrations

section Tallied

variable {declared controllers : List Controller} {className : String}
  {registrations : List (String × String)}

theorem count_entries_of_unnamed (className : String)
    (hdeclared : ∀ c ∈ declared, c.name = c.className) :
    (entries declared).count (className, className) =
      declared.countP fun c => c.className = className := by
  rw [List.count, List.countP_map]
  apply List.countP_congr
  intro c hc
  simp [entry, hdeclared c hc]

/-- Before the first registration, each entry has the name of its class. -/
theorem Tallied.nil (hdeclared : ∀ c ∈ declared, c.name = c.className)
    (hmem : ∃ c ∈ declared, c.className = className) :
    Tallied declared className [] declared := by
  have hcount := count_entries_of_unnamed className hdeclared
  have hpos : 0 < declared.countP fun c => c.className = className := by
    simpa [List.countP_pos_iff] using hmem
  refine ⟨?_, fun name hname => ?_, ?_, ?_, ?_⟩
  · obtain ⟨c, hc, hclass⟩ := hmem
    exact ⟨c.name, mem_entries_iff.mpr ⟨c, hc, hclass, rfl⟩⟩
  · have hnone : (className, name) ∉ entries declared := by
      intro hentry
      obtain ⟨c, hc, rfl, rfl⟩ := mem_entries_iff.mp hentry
      exact hname (hdeclared c hc)
    simp [hnone]
  · omega
  · simp [otherNames, hcount]
  · simp [otherNames, hcount, hpos]

/-- After one more registration, the other names of the class are still those it was registered
under. -/
theorem Tallied.mem_entries_concat_iff (h : Tallied declared className registrations controllers)
    (r : String × String) {other : String} (hne : other ≠ className) :
    (className, other) ∈ entries (register controllers r) ↔
      (className, other) ∈ registrations ++ [r] := by
  obtain ⟨registeredClass, name⟩ := r
  rw [mem_entries_register_iff hne h.known, h.other other hne]
  simp

/-- A registration under the name of the class makes an entry with this name if there is none. -/
theorem Tallied.step_own (h : Tallied declared className registrations controllers) :
    Tallied declared className (registrations ++ [(className, className)])
      (register controllers (className, className)) := by
  have hleast := h.atLeast
  have hmost := h.atMost
  have hcard : otherNames className (registrations ++ [(className, className)]) =
      otherNames className registrations :=
    otherNames_concat_of_mem fun _ hname => absurd rfl hname
  have hcount := count_register_own h.known
  refine ⟨exists_entry_register _ h.known, fun _ => h.mem_entries_concat_iff _, ?_, ?_, ?_⟩
  · rw [hcard, hcount]
    omega
  · rw [hcard, hcount]
    omega
  · have hpos : 0 < max ((entries controllers).count (className, className)) 1 := by omega
    simp only [hcount, hpos, EndsOwn.concat_own, or_true]

/-- A name that is new for the class takes one of the entries that have its own. -/
theorem Tallied.step_new {name : String}
    (h : Tallied declared className registrations controllers) (hname : name ≠ className)
    (hnew : (className, name) ∉ registrations) :
    Tallied declared className (registrations ++ [(className, name)])
      (register controllers (className, name)) := by
  have hleast := h.atLeast
  have hmost := h.atMost
  have hcard := otherNames_concat_of_notMem hname hnew
  have hcount := count_register_of_new hname (mt (h.other name hname).mp hnew)
  refine ⟨exists_entry_register _ h.known, fun _ => h.mem_entries_concat_iff _, ?_, ?_, ?_⟩
  · rw [hcard, hcount]
    omega
  · rw [hcard, hcount]
    omega
  · have hends := not_endsOwn_concat hname hnew
    simp only [hcard, hcount, hends, or_false]
    omega

/-- A registration of another class, or under a name that the class has already, leaves the names of
the class alone. -/
theorem Tallied.step_of_other (h : Tallied declared className registrations controllers)
    {r : String × String} (hr : r.1 ≠ className ∨ (r.2 ≠ className ∧ r ∈ registrations)) :
    Tallied declared className (registrations ++ [r]) (register controllers r) := by
  obtain ⟨registeredClass, name⟩ := r
  have hcard : otherNames className (registrations ++ [(registeredClass, name)]) =
      otherNames className registrations :=
    otherNames_concat_of_mem fun hclass _ => (hr.resolve_left (not_not_intro hclass)).2
  have hcount : (entries (register controllers (registeredClass, name))).count
      (className, className) = (entries controllers).count (className, className) := by
    apply count_register_of_other
    by_cases hclass : registeredClass = className
    · subst hclass
      obtain ⟨hname, hmem⟩ := hr.resolve_left fun hne => hne rfl
      exact .inr ((h.other name hname).mpr hmem)
    · exact .inl hclass
  refine ⟨exists_entry_register _ h.known, fun _ => h.mem_entries_concat_iff _, ?_, ?_, ?_⟩
  · rw [hcard, hcount]
    exact h.atLeast
  · rw [hcard, hcount]
    exact h.atMost
  · rw [hcard, hcount, EndsOwn.concat_iff hr]
    exact h.own

/-- What one registration does to the names of a class.  It changes them if it gives the class a
name that is new, or its own; any other registration leaves them alone. -/
theorem Tallied.step (h : Tallied declared className registrations controllers)
    (r : String × String) :
    Tallied declared className (registrations ++ [r]) (register controllers r) := by
  obtain ⟨registeredClass, name⟩ := r
  by_cases hclass : registeredClass = className
  · subst hclass
    by_cases hname : name = registeredClass
    · rw [hname]
      exact h.step_own
    · by_cases hknown : (registeredClass, name) ∈ registrations
      · exact h.step_of_other (.inr ⟨hname, hknown⟩)
      · exact h.step_new hname hknown
  · exact h.step_of_other (.inl hclass)

/-- The names of a declared class after any registrations. -/
theorem tallied_foldl (hdeclared : ∀ c ∈ declared, c.name = c.className)
    (hmem : ∃ c ∈ declared, c.className = className) (registrations : List (String × String)) :
    Tallied declared className registrations (registrations.foldl register declared) := by
  induction registrations using List.reverseRecOn with
  | nil => exact Tallied.nil hdeclared hmem
  | append_singleton front r ih =>
      rw [List.foldl_append]
      exact ih.step r

end Tallied

/-! ### Where the entries come from -/

/-- Entries that registrations make of declared controllers.  Each declared controller has an entry
in its place, under its own or another name; the copies come behind them.  A copy is one of the
first declared controller of its class, and no other entry of the class has its name. -/
structure Derived (declared renamed copies : List Controller) : Prop where
  named : List.Forall₂ Names declared renamed
  copied : ∀ copy ∈ copies, ∃ original,
    declared.find? (fun c => c.className == copy.className) = some original ∧ original.Names copy
  distinct : (entries copies).Nodup
  apart : ∀ copy ∈ entries copies, copy ∉ entries renamed

section Derived

variable {declared renamed copies : List Controller} {className name : String}

theorem Derived.refl (declared : List Controller) : Derived declared declared [] :=
  ⟨List.forall₂_same.mpr fun c _ => Names.refl c, by simp, by simp, by simp⟩

/-- The first entry of a class is the one of the first declared controller of the class. -/
theorem find?_of_forall₂_names (className : String) (h : List.Forall₂ Names declared renamed) :
    Option.Rel Names (declared.find? fun c => c.className == className)
      (renamed.find? fun c => c.className == className) := by
  induction h with
  | nil => exact .none
  | @cons original entry _ _ hnames _ ih =>
      have hclass := hnames.className
      by_cases hfound : original.className = className
      · simpa [hclass, hfound] using Option.Rel.some hnames
      · simpa [hclass, hfound] using ih

/-- Another name for an entry in the place of a declared controller. -/
theorem Derived.rename {front rest : List Controller} {c : Controller}
    (h : Derived declared (front ++ c :: rest) copies)
    (hclass : c.className = className)
    (hnew : (className, name) ∉ entries (front ++ c :: rest ++ copies)) :
    Derived declared (front ++ { c with name } :: rest) copies := by
  refine ⟨?_, h.copied, h.distinct, fun copy hcopy hmem => ?_⟩
  · have hbefore := List.forall₂_take_append _ front (c :: rest) h.named
    have hbehind := List.forall₂_drop_append _ front (c :: rest) h.named
    obtain ⟨original, after, hnames, hafter, hdrop⟩ := List.forall₂_cons_right_iff.mp hbehind
    rw [← List.take_append_drop front.length declared, hdrop]
    exact List.rel_append hbefore (.cons (hnames.rename name) hafter)
  · have hkept := h.apart copy hcopy
    rw [entries_append, entries_cons, List.mem_append, List.mem_cons] at hmem hkept
    rw [entry_rename hclass] at hmem
    rcases hmem with hfront | rfl | hrest
    · exact hkept (.inl hfront)
    · apply hnew
      rw [entries_append, List.mem_append]
      exact .inr hcopy
    · exact hkept (.inr (.inr hrest))

/-- Another name for a copy. -/
theorem Derived.renameCopy {front rest : List Controller} {c : Controller}
    (h : Derived declared renamed (front ++ c :: rest))
    (hclass : c.className = className)
    (hnew : (className, name) ∉ entries (renamed ++ (front ++ c :: rest))) :
    Derived declared renamed (front ++ { c with name } :: rest) := by
  have hentry := entry_rename hclass name
  simp only [List.map_append, List.map_cons, List.mem_append, List.mem_cons, not_or] at hnew
  obtain ⟨hrenamed, hfront, -, hrest⟩ := hnew
  refine ⟨h.named, fun copy hcopy => ?_, ?_, fun copy hcopy => ?_⟩
  · rw [List.mem_append, List.mem_cons] at hcopy
    rcases hcopy with hbefore | rfl | hbehind
    · exact h.copied copy (by simp [hbefore])
    · obtain ⟨original, hfind, hnames⟩ := h.copied c (by simp)
      exact ⟨original, hfind, hnames.rename name⟩
    · exact h.copied copy (by simp [hbehind])
  · have hdistinct := h.distinct
    simp only [List.map_append, List.map_cons, List.nodup_middle, List.nodup_cons] at hdistinct ⊢
    rw [hentry, List.mem_append]
    refine ⟨?_, hdistinct.2⟩
    rintro (hmem | hmem)
    · exact hfront hmem
    · exact hrest hmem
  · rw [entries_append, entries_cons, List.mem_append, List.mem_cons, hentry] at hcopy
    rcases hcopy with hbefore | rfl | hbehind
    · exact h.apart copy (by simp [hbefore])
    · exact hrenamed
    · exact h.apart copy (by simp [hbehind])

/-- The first entry of a class goes back to the first declared controller of the class, whether it
stands in the place of that controller or is a copy. -/
theorem Derived.exists_original {c : Controller} (h : Derived declared renamed copies)
    (hfind : (renamed ++ copies).find? (fun c => c.className == className) = some c) :
    ∃ original, declared.find? (fun c => c.className == className) = some original ∧
      original.Names c := by
  have hclass : c.className = className := by simpa using List.find?_some hfind
  have hfirst := find?_of_forall₂_names className h.named
  rw [List.find?_append] at hfind
  cases hfound : renamed.find? fun c => c.className == className with
  | some first =>
      rw [hfound] at hfirst hfind
      obtain rfl := Option.some.inj hfind
      cases hdeclared : declared.find? fun c => c.className == className with
      | none =>
          rw [hdeclared] at hfirst
          cases hfirst
      | some original =>
          rw [hdeclared] at hfirst
          cases hfirst with
          | some hnames => exact ⟨original, rfl, hnames⟩
  | none =>
      rw [hfound] at hfind
      obtain ⟨original, horiginal, hnames⟩ := h.copied c (List.mem_of_find?_eq_some hfind)
      rw [hclass] at horiginal
      exact ⟨original, horiginal, hnames⟩

/-- One more copy. -/
theorem Derived.copy {c : Controller} (h : Derived declared renamed copies)
    (hfind : (renamed ++ copies).find? (fun c => c.className == className) = some c)
    (hnew : (className, name) ∉ entries (renamed ++ copies)) :
    Derived declared renamed (copies ++ [{ c with name }]) := by
  have hclass : c.className = className := by simpa using List.find?_some hfind
  have hlast : entries [{ c with name }] = [(className, name)] := by
    rw [entries_cons, entry_rename hclass]
    rfl
  rw [entries_append, List.mem_append, not_or] at hnew
  obtain ⟨hrenamed, hcopies⟩ := hnew
  obtain ⟨original, horiginal, hnames⟩ := h.exists_original hfind
  refine ⟨h.named, fun copy hcopy => ?_, ?_, fun copy hcopy => ?_⟩
  · rcases List.mem_append.mp hcopy with hcopy | hcopy
    · exact h.copied copy hcopy
    · rw [List.mem_singleton] at hcopy
      subst hcopy
      exact ⟨original, by simpa [hclass] using horiginal, hnames.rename name⟩
  · rw [entries_append, hlast, List.nodup_append]
    refine ⟨h.distinct, by simp, ?_⟩
    rintro copy hcopy last hmem rfl
    rw [List.mem_singleton] at hmem
    exact hcopies (hmem ▸ hcopy)
  · rw [entries_append, hlast, List.mem_append, List.mem_singleton] at hcopy
    rcases hcopy with hcopy | rfl
    · exact h.apart copy hcopy
    · exact hrenamed

/-- One registration renames an entry, or adds a copy. -/
theorem Derived.step (h : Derived declared renamed copies) (r : String × String) :
    ∃ renamed' copies', register (renamed ++ copies) r = renamed' ++ copies' ∧
      Derived declared renamed' copies' := by
  obtain ⟨className, name⟩ := r
  rcases register_cases (renamed ++ copies) className name with ⟨-, heq⟩ |
    ⟨hnew, -, front, c, rest, hsplit, hentry, heq⟩ | ⟨hnew, -, c, hfind, heq⟩ | ⟨-, heq⟩
  · exact ⟨renamed, copies, heq, h⟩
  · have hclass : c.className = className := congrArg Prod.fst hentry
    rcases List.append_eq_append_iff.mp hsplit with ⟨before, rfl, hcopies⟩ |
      ⟨behind, hrenamed, hrest⟩
    · subst hcopies
      refine ⟨renamed, before ++ { c with name } :: rest, ?_, h.renameCopy hclass hnew⟩
      rw [heq, List.append_assoc]
    · cases behind with
      | nil =>
          rw [List.append_nil] at hrenamed
          rw [List.nil_append] at hrest
          subst hrenamed hrest
          have hcopies : Derived declared renamed ([] ++ { c with name } :: rest) :=
            Derived.renameCopy h hclass hnew
          exact ⟨renamed, { c with name } :: rest, heq, hcopies⟩
      | cons first behind =>
          obtain ⟨rfl, rfl⟩ := List.cons.inj hrest
          subst hrenamed
          refine ⟨front ++ { c with name } :: behind, copies, ?_, h.rename hclass hnew⟩
          rw [heq, List.append_assoc]
          rfl
  · refine ⟨renamed, copies ++ [{ c with name }], ?_, h.copy hfind hnew⟩
    rw [heq, List.append_assoc]
  · exact ⟨renamed, copies, heq, h⟩

theorem derived_foldl (declared : List Controller) (registrations : List (String × String)) :
    ∃ renamed copies, registrations.foldl register declared = renamed ++ copies ∧
      Derived declared renamed copies := by
  induction registrations using List.reverseRecOn with
  | nil => exact ⟨declared, [], by simp, Derived.refl declared⟩
  | append_singleton front r ih =>
      obtain ⟨renamed, copies, heq, h⟩ := ih
      rw [List.foldl_append, heq]
      exact h.step r

end Derived

/-- A class that is not registered has the entries it was declared with. -/
theorem filter_foldl_register {className : String} (declared : List Controller)
    (registrations : List (String × String)) (h : ∀ r ∈ registrations, r.1 ≠ className) :
    (registrations.foldl register declared).filter (fun c => c.className = className) =
      declared.filter fun c => c.className = className := by
  induction registrations generalizing declared with
  | nil => rfl
  | cons r rest ih =>
      rw [List.foldl_cons, ih _ fun r hr => h r (List.mem_cons_of_mem _ hr)]
      exact filter_register (h r List.mem_cons_self)

/-- A declared controller has the name of its class. -/
theorem name_of_mem_declaredControllers {m : Module} {c : Controller}
    (h : c ∈ declaredControllers m) : c.name = c.className := by
  obtain ⟨event, -, hevent⟩ := List.mem_filterMap.mp h
  cases event with
  | classDeclaration site =>
      obtain ⟨name, -, hname⟩ := Option.bind_eq_some_iff.mp hevent
      obtain ⟨-, -, hmade⟩ := Option.bind_eq_some_iff.mp hname
      obtain rfl := Option.some.inj hmade
      rfl
  | functionDeclaration site =>
      obtain ⟨name, -, hname⟩ := Option.bind_eq_some_iff.mp hevent
      obtain ⟨-, -, hmade⟩ := Option.bind_eq_some_iff.mp hname
      obtain rfl := Option.some.inj hmade
      rfl
  | _ => simp at hevent

end Analysis

open Analysis

/-- What becomes of the controllers of a script, for any registrations in any order.

Each declared controller has an entry in its place, and the copies behind them have names that no
other entry of their class has.  A declared class has an entry under each name it is registered
under, apart from its own, and under no further one.  It has an entry under its own name if and only
if it is declared more often than it has other names, or some registration under its own name has
no new name of the class behind it.  A class that is not registered keeps its entries. -/
theorem registrations_kept_iff (declared : List Controller)
    (hdeclared : ∀ c ∈ declared, c.name = c.className) (registrations : List (String × String)) :
    (∃ renamed copies, registrations.foldl register declared = renamed ++ copies ∧
      Derived declared renamed copies) ∧
    (∀ className, (∃ c ∈ declared, c.className = className) →
      (∀ name, name ≠ className →
        ((className, name) ∈ entries (registrations.foldl register declared) ↔
          (className, name) ∈ registrations)) ∧
      ((className, className) ∈ entries (registrations.foldl register declared) ↔
        (otherNames className registrations).card <
            (declared.countP fun c => c.className = className) ∨
          EndsOwn className registrations)) ∧
    ∀ className, (∀ r ∈ registrations, r.1 ≠ className) →
      (registrations.foldl register declared).filter (fun c => c.className = className) =
        declared.filter fun c => c.className = className := by
  refine ⟨derived_foldl declared registrations, fun className hmem => ?_, fun className h => ?_⟩
  · have htallied := tallied_foldl hdeclared hmem registrations
    refine ⟨htallied.other, ?_⟩
    rw [← List.count_pos_iff]
    exact htallied.own
  · exact filter_foldl_register declared registrations h

/-! ### A class under its own name and another one -/

namespace Registered

def origin : Path :=
  ⟨"/a.js"⟩

def scene : Scene where
  root := ⟨"/"⟩
  files := {}

/-- A class that is registered under its own name first. -/
def ownFirst : Module :=
  .ofText origin
    "function C() \x7b\x7d angular.module('m').controller('C', C).controller('X', C);"

end Registered

open Registered

/-- Behind the other name, the registration under the own name makes a copy, and both are kept. -/
theorem own_name_registered_last_kept :
    (∀ c ∈ declaredControllers ownFirst, c.name = c.className) ∧
      ("C", "X") ∈ entries ([("C", "X"), ("C", "C")].foldl register
        (declaredControllers ownFirst)) ∧
      ("C", "C") ∈ entries ([("C", "X"), ("C", "C")].foldl register
        (declaredControllers ownFirst)) := by
  have hdeclared : ∀ c ∈ declaredControllers ownFirst, c.name = c.className := fun _ hc =>
    name_of_mem_declaredControllers hc
  have hmem : ∃ c ∈ declaredControllers ownFirst, c.className = "C" := by
    decide +kernel
  obtain ⟨-, hnames, -⟩ := registrations_kept_iff (declaredControllers ownFirst) hdeclared
    [("C", "X"), ("C", "C")]
  obtain ⟨hother, hown⟩ := hnames "C" hmem
  refine ⟨hdeclared, (hother "X" (by decide)).mpr (by simp), hown.mpr (.inr ?_)⟩
  refine ⟨[("C", "X")], [], rfl, ?_⟩
  simp [otherNames]

/-- Ahead of the other name, the registration under the own name is lost. -/
theorem own_name_registered_first_lost :
    (controllerRegistrations ownFirst scene (.start origin)).1 = [("C", "C"), ("C", "X")] ∧
      entries (declaredControllers ownFirst) = [("C", "C")] ∧
      ("C", "C") ∉ entries (controllers ownFirst scene (.start origin)).1 := by
  decide +kernel

end NgIndex
