import Mathlib.Data.List.Basic
import NgIndex.Entity.BindingType

/-!
# How binding declarations are split

The pattern of binding declarations prefers few marks to many.  Since the name must reach the end of
the text, the first way to match it is the one in which all that follows the marks are word
characters for the first time.  So the name is the longest run of word characters at the end.  Marks
do not go beyond a line, and a line break is no word character, so that a text of several lines has
no match.
-/

namespace NgIndex
namespace Pattern

/-! ### Runs of characters -/

/-- Repeating a character of a set: one goes no further, or over one character and on from there. -/
theorem ways_many_chars (greedy : Bool) (set : CharSet) (start : Progress) :
    (many greedy (.chars set)).ways start =
      let further :=
        match start.place.after with
        | c :: rest =>
            if set.mem false c then
              (many greedy (.chars set)).ways { start with place := ⟨some c, rest⟩ }
            else []
        | [] => []
      if greedy then further ++ [start] else start :: further := by
  obtain ⟨⟨before, after⟩, groups⟩ := start
  cases after with
  | nil => cases greedy <;> rfl
  | cons c rest =>
      by_cases hmem : set.mem false c = true
      · simp [ways, repeated, hmem]
      · simp [ways, repeated, hmem]

/-- Whether all of a text has been matched. -/
def Progress.atEnd (progress : Progress) : Bool :=
  progress.place.after.isEmpty

/-- The end of the text, with the groups as they are. -/
def Progress.toEnd (start : Progress) : Progress :=
  { start with place := ⟨start.place.after.getLast?.or start.place.before, []⟩ }

theorem Progress.toEnd_over (before : Option Char) (c : Char) (rest : List Char)
    (groups : List (Nat × String)) :
    (⟨⟨some c, rest⟩, groups⟩ : Progress).toEnd = (⟨⟨before, c :: rest⟩, groups⟩ : Progress).toEnd := by
  cases rest with
  | nil => rfl
  | cons d more => simp [toEnd, List.getLast?_cons]

/-- Of the ways to repeat a character as often as possible, at most one leads to the end. -/
theorem filter_atEnd_ways_many (set : CharSet) (start : Progress) :
    ((many true (.chars set)).ways start).filter Progress.atEnd =
      if start.place.after.all (set.mem false) then [start.toEnd] else [] := by
  obtain ⟨⟨before, after⟩, groups⟩ := start
  induction after generalizing before with
  | nil => rfl
  | cons c rest ih =>
      have hstay : [(⟨⟨before, c :: rest⟩, groups⟩ : Progress)].filter Progress.atEnd = [] := rfl
      rw [ways_many_chars]
      simp only [if_true, List.filter_append, hstay, List.append_nil, List.all_cons]
      by_cases hmem : set.mem false c = true
      · simp only [hmem, if_true, ih, Progress.toEnd_over before, Bool.true_and]
      · simp [hmem]

theorem filter_atEnd_ways_oneOrMore (set : CharSet) (start : Progress) :
    ((oneOrMore (.chars set)).ways start).filter Progress.atEnd =
      if start.place.after ≠ [] ∧ start.place.after.all (set.mem false) then [start.toEnd]
      else [] := by
  obtain ⟨⟨before, after⟩, groups⟩ := start
  cases after with
  | nil => rfl
  | cons c rest =>
      by_cases hmem : set.mem false c = true
      · have hfirst : (oneOrMore (.chars set)).ways ⟨⟨before, c :: rest⟩, groups⟩ =
            (many true (.chars set)).ways ⟨⟨some c, rest⟩, groups⟩ := by
          simp [oneOrMore, ways, hmem]
        rw [hfirst, filter_atEnd_ways_many, Progress.toEnd_over before]
        simp [hmem]
      · simp [oneOrMore, ways, hmem]

theorem ways_seq_textEnd (a : Pattern) (start : Progress) :
    (seq a (.look .textEnd)).ways start = (a.ways start).filter Progress.atEnd := by
  change (a.ways start).flatMap (fun next => if next.atEnd then [next] else []) = _
  induction a.ways start with
  | nil => rfl
  | cons next rest ih =>
      rw [List.flatMap_cons, ih, List.filter_cons]
      cases next.atEnd <;> rfl

/-- What the optional group of a name holds at the end of the text: nothing if there is nothing left,
else all that is left. -/
def nameGroups (number : Nat) (left : List Char) : List (Nat × String) :=
  if left = [] then [] else [(number, String.ofList left)]

/-- The ways to match an optional group of one or more characters up to the end of the text. -/
theorem ways_optional_group_textEnd (number : Nat) (set : CharSet) (start : Progress) :
    (seq (.optional (.group number (.oneOrMore (.chars set)))) (.look .textEnd)).ways start =
      if start.place.after.all (set.mem false) then
        [{ start.toEnd with groups := nameGroups number start.place.after ++ start.groups }]
      else [] := by
  have hgroup : ((group number (.oneOrMore (.chars set))).ways start).filter Progress.atEnd =
      (((oneOrMore (.chars set)).ways start).filter Progress.atEnd).map fun stop =>
        { stop with groups := (number, start.textTo stop) :: stop.groups } :=
    List.filter_map
  rw [ways_seq_textEnd]
  change (_ ++ [start]).filter Progress.atEnd = _
  rw [List.filter_append, hgroup, filter_atEnd_ways_oneOrMore]
  obtain ⟨⟨before, after⟩, groups⟩ := start
  cases after with
  | nil => rfl
  | cons c rest =>
      have hstay : [(⟨⟨before, c :: rest⟩, groups⟩ : Progress)].filter Progress.atEnd = [] := rfl
      rw [hstay, List.append_nil]
      by_cases hall : (c :: rest).all (set.mem false) = true
      · rw [if_pos ⟨List.cons_ne_nil _ _, hall⟩, if_pos hall]
        simp [Progress.toEnd, Progress.textTo, nameGroups]
      · rw [if_neg fun h => hall h.2, if_neg hall]
        rfl

/-! ### The first way -/

theorem ways_seq_group (number : Nat) (a b : Pattern) (start : Progress) :
    (seq (.group number a) b).ways start = (a.ways start).flatMap fun stop =>
      b.ways { stop with groups := (number, start.textTo stop) :: stop.groups } := by
  change ((a.ways start).map _).flatMap b.ways = _
  rw [List.flatMap_map]

/-- Where a character is repeated as seldom as possible, what follows is tried where the repetition
starts, and only then behind the next character. -/
theorem head?_flatMap_ways_many (set : CharSet) (start : Progress)
    (next : Progress → List Progress) :
    (((many false (.chars set)).ways start).flatMap next).head? =
      (next start).head?.or
        (match start.place.after with
        | c :: rest =>
            if set.mem false c then
              (((many false (.chars set)).ways
                { start with place := ⟨some c, rest⟩ }).flatMap next).head?
            else none
        | [] => none) := by
  rw [ways_many_chars]
  simp only [Bool.false_eq_true, if_false, List.flatMap_cons, List.head?_append]
  obtain ⟨⟨before, after⟩, groups⟩ := start
  cases after with
  | nil => rfl
  | cons c rest =>
      by_cases hmem : set.mem false c = true
      · simp [hmem]
      · simp [hmem]

/-- A pattern that stands at the front of the text matches nowhere else. -/
theorem captures?_seq_textStart (a : Pattern) (text : String) :
    (seq (.look .textStart) a).captures? text =
      (a.ways { place := ⟨none, text.toList⟩ }).head?.map Progress.groups := by
  have hlater : ∀ (before : Char) (cs : List Char),
      ((Regex.placesFrom (some before) cs).findSome? fun place =>
        ((seq (.look .textStart) a).ways { place }).head?.map Progress.groups) = none := by
    intro before cs
    induction cs generalizing before with
    | nil => rfl
    | cons c rest ih =>
        rw [Regex.placesFrom, List.findSome?_cons, ih]
        rfl
  have hfirst : (seq (.look .textStart) a).ways { place := ⟨none, text.toList⟩ } =
      a.ways { place := ⟨none, text.toList⟩ } := by
    simp [ways, Regex.Look.holds]
  rw [captures?, ← hfirst]
  cases text.toList with
  | nil => rw [Regex.placesFrom, List.findSome?_singleton]
  | cons c rest =>
      rw [Regex.placesFrom, List.findSome?_cons, hlater]
      cases (((seq (.look .textStart) a).ways { place := ⟨none, c :: rest⟩ }).head?.map
        Progress.groups) <;> rfl

end Pattern

open Pattern

theorem CharSet.mem_single (c d : Char) : (CharSet.single d).mem false c = (c == d) := by
  by_cases h : c = d
  · subst h
    simp [single, mem]
  · have hne : ¬ (d ≤ c ∧ c ≤ d) := fun ⟨hlow, hhigh⟩ => h (Char.le_antisymm hhigh hlow)
    rw [beq_false_of_ne h, single, mem]
    simpa using hne

/-- A text split into marks and a name: all word characters at its end are in the name. -/
structure MarksAndName (text marks name : List Char) : Prop where
  append : marks ++ name = text
  isWord : ∀ c ∈ name, Text.isWord c = true
  last : ∀ c ∈ marks.getLast?, Text.isWord c = false

theorem MarksAndName.of_all {text : List Char} (h : text.all Text.isWord = true) :
    MarksAndName text [] text :=
  ⟨rfl, List.all_eq_true.mp h, by simp⟩

theorem MarksAndName.cons {c : Char} {rest marks name : List Char} (h : MarksAndName rest marks name)
    (hall : ¬ (c :: rest).all Text.isWord = true) : MarksAndName (c :: rest) (c :: marks) name := by
  obtain ⟨rfl, hword, hlast⟩ := h
  refine ⟨rfl, hword, ?_⟩
  cases marks with
  | nil =>
      have hc : Text.isWord c = false := by
        by_contra hc
        apply hall
        rw [List.all_eq_true]
        rintro d (_ | ⟨_, hd⟩)
        · simpa using hc
        · exact hword d hd
      simpa using hc
  | cons d more => rwa [List.getLast?_cons_cons]

/-- The ways to match the name and the end of the text behind some marks. -/
def waysBehindMarks (start stop : Progress) : List Progress :=
  (seq (.optional (.group 2 (.oneOrMore (.chars .word)))) (.look .textEnd)).ways
    { stop with groups := (1, start.textTo stop) :: stop.groups }

theorem head?_waysBehindMarks (origin before : Option Char) (passed left : List Char) :
    (waysBehindMarks { place := ⟨origin, passed ++ left⟩ } { place := ⟨before, left⟩ }).head?.map
        Progress.groups =
      if left.all Text.isWord then some (nameGroups 2 left ++ [(1, String.ofList passed)])
      else none := by
  have hpassed : (⟨⟨origin, passed ++ left⟩, []⟩ : Progress).textTo ⟨⟨before, left⟩, []⟩ =
      String.ofList passed := by
    simp [Progress.textTo]
  rw [waysBehindMarks, hpassed, ways_optional_group_textEnd]
  change (if left.all Text.isWord = true then _ else _ : List Progress).head?.map _ = _
  split <;> rfl

/-- What the groups hold after the first match in which the text that has been passed belongs to the
marks. -/
def groupsFrom (origin before : Option Char) (passed left : List Char) :
    Option (List (Nat × String)) :=
  (((many false (.chars (.compl (.single '\n')))).ways { place := ⟨before, left⟩ }).flatMap
    (waysBehindMarks { place := ⟨origin, passed ++ left⟩ })).head?.map Progress.groups

/-- The name starts here if there are only word characters left, or else farther behind. -/
theorem groupsFrom_eq (origin before : Option Char) (passed left : List Char) :
    groupsFrom origin before passed left =
      if left.all Text.isWord then some (nameGroups 2 left ++ [(1, String.ofList passed)])
      else
        match left with
        | [] => none
        | c :: rest =>
            if c == '\n' then none else groupsFrom origin (some c) (passed ++ [c]) rest := by
  rw [groupsFrom, head?_flatMap_ways_many, Option.map_or, head?_waysBehindMarks]
  split
  · rfl
  · cases left with
    | nil => rfl
    | cons c rest =>
        have hmem : (CharSet.compl (.single '\n')).mem false c = !(c == '\n') :=
          congrArg _ (CharSet.mem_single c '\n')
        simp only [Option.none_or, hmem]
        cases c == '\n' with
        | true => rfl
        | false => simp [groupsFrom]

theorem groupsFrom_of_newline {origin before : Option Char} {passed left : List Char}
    (h : '\n' ∈ left) : groupsFrom origin before passed left = none := by
  induction left generalizing before passed with
  | nil => cases h
  | cons c rest ih =>
      have hall : ¬ (c :: rest).all Text.isWord = true := by
        intro hall
        have hnewline := List.all_eq_true.mp hall '\n' h
        exact absurd hnewline (by decide)
      rw [groupsFrom_eq, if_neg hall]
      by_cases hc : c = '\n'
      · simp [hc]
      · have hrest : '\n' ∈ rest := (List.mem_cons.mp h).resolve_left (Ne.symm hc)
        simp [hc, ih hrest]

theorem exists_groupsFrom (origin before : Option Char) (passed : List Char) {left : List Char}
    (h : '\n' ∉ left) : ∃ marks name, MarksAndName left marks name ∧
      groupsFrom origin before passed left =
        some (nameGroups 2 name ++ [(1, String.ofList (passed ++ marks))]) := by
  induction left generalizing before passed with
  | nil =>
      refine ⟨[], [], .of_all rfl, ?_⟩
      rw [groupsFrom_eq, if_pos List.all_nil, List.append_nil]
  | cons c rest ih =>
      by_cases hall : (c :: rest).all Text.isWord = true
      · refine ⟨[], c :: rest, .of_all hall, ?_⟩
        rw [groupsFrom_eq, if_pos hall, List.append_nil]
      · obtain ⟨hc, hrest⟩ := not_or.mp (mt List.mem_cons.mpr h)
        obtain ⟨marks, name, hsplit, hgroups⟩ := ih (some c) (passed ++ [c]) hrest
        refine ⟨c :: marks, name, hsplit.cons hall, ?_⟩
        rw [groupsFrom_eq, if_neg hall]
        simp [Ne.symm hc, hgroups]

theorem captures?_bindingPattern (raw : String) :
    bindingPattern.captures? raw = groupsFrom none none [] raw.toList := by
  rw [bindingPattern, captures?_seq_textStart, ways_seq_group]
  rfl

theorem splitBindingType_of_newline {raw : String} (h : '\n' ∈ raw.toList) :
    splitBindingType raw = (raw, none) := by
  rw [splitBindingType, captures?_bindingPattern, groupsFrom_of_newline h]

theorem exists_splitBindingType {raw : String} (h : '\n' ∉ raw.toList) :
    ∃ marks name, MarksAndName raw.toList marks name ∧
      splitBindingType raw =
        (String.ofList marks, if name = [] then none else some (String.ofList name)) := by
  obtain ⟨marks, name, hsplit, hgroups⟩ := exists_groupsFrom none none [] h
  refine ⟨marks, name, hsplit, ?_⟩
  rw [splitBindingType, captures?_bindingPattern, hgroups, List.nil_append]
  by_cases hname : name = []
  · simp [nameGroups, hname]
  · simp [nameGroups, hname, List.lookup_cons]

/-- The longest suffix of a text that is made of word characters. -/
structure LongestWordSuffix (text name : List Char) : Prop where
  suffix : name <:+ text
  isWord : ∀ c ∈ name, Text.isWord c = true
  longest : ∀ other, other <:+ text → (∀ c ∈ other, Text.isWord c = true) →
    other.length ≤ name.length

theorem MarksAndName.longestWordSuffix {text marks name : List Char}
    (h : MarksAndName text marks name) : LongestWordSuffix text name := by
  obtain ⟨rfl, hword, hlast⟩ := h
  refine ⟨List.suffix_append marks name, hword, fun other hother hwords => ?_⟩
  by_contra hlonger
  -- A longer suffix would take in the last mark, which is no word character.
  obtain ⟨more, rfl⟩ : name <:+ other :=
    List.suffix_of_suffix_length_le (List.suffix_append marks name) hother (by omega)
  have hmore : more <:+ marks := by
    obtain ⟨front, hfront⟩ := hother
    rw [← List.append_assoc] at hfront
    exact ⟨front, List.append_cancel_right hfront⟩
  cases hend : more.getLast? with
  | none => simp [List.getLast?_eq_none_iff.mp hend] at hlonger
  | some c =>
      have hc : c ∈ marks.getLast? := by
        obtain ⟨front, rfl⟩ := hmore
        simp [List.getLast?_append, hend]
      have hmem : c ∈ more ++ name := List.mem_append_left _ (List.mem_of_getLast? hend)
      exact Bool.false_ne_true ((hlast c hc).symm.trans (hwords c hmem))

/-- **Binding declarations are split without loss.**  The marks followed by the name, if there is one,
are the text.  In one line the name is the longest run of word characters at the end, and there is
none if that run is empty, so that the marks do not end in a word character.  A text of several lines
is all marks. -/
theorem binding_split_before_longest_word (raw : String) :
    (splitBindingType raw).1 ++ (splitBindingType raw).2.getD "" = raw ∧
    ('\n' ∉ raw.toList →
      (∃ name, LongestWordSuffix raw.toList name ∧
        (splitBindingType raw).2 = if name = [] then none else some (String.ofList name)) ∧
      ∀ c ∈ (splitBindingType raw).1.toList.getLast?, Text.isWord c = false) ∧
    ('\n' ∈ raw.toList → splitBindingType raw = (raw, none)) := by
  refine ⟨?_, fun h => ?_, splitBindingType_of_newline⟩
  · by_cases h : '\n' ∈ raw.toList
    · simp [splitBindingType_of_newline h]
    · obtain ⟨marks, name, hsplit, heq⟩ := exists_splitBindingType h
      have hname : (if name = [] then none else some (String.ofList name)).getD "" =
          String.ofList name := by
        by_cases hname : name = []
        · simp [hname]
        · simp [hname]
      rw [heq, hname, ← String.ofList_append, hsplit.append, String.ofList_toList]
  · obtain ⟨marks, name, hsplit, heq⟩ := exists_splitBindingType h
    rw [heq]
    exact ⟨⟨name, hsplit.longestWordSuffix, rfl⟩, by simpa using hsplit.last⟩

/-- A binding with a name, and a word behind a line break that is no name. -/
theorem named_and_two_line_bindings_split :
    splitBindingType "=?otherModel" = ("=?", some "otherModel") ∧
    (∃ name, LongestWordSuffix "=?otherModel".toList name ∧
      (splitBindingType "=?otherModel").2 =
        if name = [] then none else some (String.ofList name)) ∧
    splitBindingType "<\nmodel" = ("<\nmodel", none) :=
  ⟨by decide +kernel,
    ((binding_split_before_longest_word "=?otherModel").2.1 (by decide)).1,
    (binding_split_before_longest_word "<\nmodel").2.2 (by decide)⟩

end NgIndex
