import Mathlib.Algebra.Group.Action.Defs
import Mathlib.Algebra.Order.BigOperators.Group.List
import Mathlib.Logic.Function.Iterate
import Mathlib.Tactic.Ring
import NgIndex.Lookup.Follow
import NgIndex.Proofs.Disk
import NgIndex.Proofs.Files

/-!
# Where modules are found

Modules that are named by relative paths are looked for at paths that go up from the directory of
the file where the search starts, and then down by names.  So the modules that a search can come to
are among the files below finitely many directories.  This bounds how many of them can be looked
into at the same time.
-/

namespace NgIndex

open NgIndex.Path

theorem isEnding_of_mem_moduleSuffixes {suffix : String} (h : suffix ∈ moduleSuffixes) :
    IsEnding suffix := by
  simp only [moduleSuffixes, List.mem_cons, List.not_mem_nil, or_false] at h
  rcases h with rfl | rfl | rfl | rfl
  · exact .inl rfl
  · exact .inr (by decide)
  · exact .inr (by decide)
  · exact .inr (by decide)

theorem isName_of_mem_indexFiles {name : String} (h : name ∈ indexFiles) : IsName name := by
  simp only [indexFiles, List.mem_cons, List.not_mem_nil, or_false] at h
  rcases h with rfl | rfl
  · exact isName_of_two_lt_length (by decide) (by decide)
  · exact isName_of_two_lt_length (by decide) (by decide)

/-! ### Directories above a file -/

/-- The directories that steps up lead to from the directory of a file, and the empty path. -/
def cuts (start : Path) : List Path :=
  ⟨""⟩ :: (List.range (start.parts.length + 1)).map fun steps => pop^[steps] start.directory

theorem pop_eq_self_or_length_components_lt (p : Path) :
    p.pop = p ∨ p.pop.components.length < p.components.length := by
  unfold pop
  cases h : p.parent? with
  | none => exact .inl rfl
  | some q => exact .inr (length_components_lt_of_parent? h)

/-- Each step up takes away a component, until there is nothing above. -/
theorem pop_iterate_eq_self_or_length_components_le (p : Path) (steps : Nat) :
    (pop^[steps] p).pop = pop^[steps] p ∨
      (pop^[steps] p).components.length + steps ≤ p.components.length := by
  induction steps with
  | zero => exact .inr (Nat.le_refl _)
  | succ steps ih =>
      rw [Function.iterate_succ_apply']
      rcases ih with ih | ih
      · exact .inl (by rw [ih, ih])
      · rcases pop_eq_self_or_length_components_lt (pop^[steps] p) with hfixed | hlt
        · exact .inl (by rw [hfixed, hfixed])
        · exact .inr (by omega)

theorem length_components_directory_le (start : Path) :
    start.directory.components.length ≤ start.parts.length := by
  unfold directory
  cases h : start.parent? with
  | none => exact Nat.zero_le _
  | some q =>
      have hlt := length_components_lt_of_parent? h
      have hle := length_components_le start
      rw [Option.getD_some]
      omega

theorem pop_iterate_mem_cuts (start : Path) (steps : Nat) :
    pop^[steps] start.directory ∈ cuts start := by
  apply List.mem_cons_of_mem
  by_cases hsteps : steps < start.parts.length + 1
  · exact List.mem_map.mpr ⟨steps, List.mem_range.mpr hsteps, rfl⟩
  · have hfixed : (pop^[start.parts.length] start.directory).pop =
        pop^[start.parts.length] start.directory := by
      rcases pop_iterate_eq_self_or_length_components_le start.directory start.parts.length with
        hfixed | hle
      · exact hfixed
      · rcases pop_eq_self_or_length_components_lt (pop^[start.parts.length] start.directory) with
          hfixed | hlt
        · exact hfixed
        · have := length_components_directory_le start
          omega
    have hsplit : steps = (steps - start.parts.length) + start.parts.length := by omega
    rw [hsplit, Function.iterate_add_apply, Function.iterate_fixed hfixed]
    exact List.mem_map.mpr ⟨start.parts.length, List.mem_range.mpr (Nat.lt_succ_self _), rfl⟩

theorem tidy_pop_iterate {p : Path} (h : Tidy p) (steps : Nat) : Tidy (pop^[steps] p) := by
  induction steps with
  | zero => exact h
  | succ steps ih =>
      rw [Function.iterate_succ_apply']
      exact ih.pop

theorem tidy_of_mem_cuts {start cut : Path} (h : cut ∈ cuts start) : Tidy cut := by
  rcases List.mem_cons.mp h with rfl | h
  · exact tidy_empty
  · obtain ⟨steps, -, rfl⟩ := List.mem_map.mp h
    exact tidy_pop_iterate (tidy_directory start) steps

theorem pop_mem_cuts {start cut : Path} (h : cut ∈ cuts start) : cut.pop ∈ cuts start := by
  rcases List.mem_cons.mp h with rfl | h
  · exact List.mem_cons_self
  · obtain ⟨steps, -, rfl⟩ := List.mem_map.mp h
    rw [← Function.iterate_succ_apply' pop]
    exact pop_iterate_mem_cuts start (steps + 1)

theorem directory_mem_cuts {start cut : Path} (h : cut ∈ cuts start) :
    cut.directory ∈ cuts start := by
  have hpop := pop_mem_cuts h
  unfold pop at hpop
  unfold directory
  cases hparent : cut.parent? with
  | none => exact List.mem_cons_self
  | some q =>
      rw [hparent] at hpop
      exact hpop

/-! ### Directories near a file -/

/-- A directory is near a file if it lies by names below one of the directories above the file. -/
def Near (start directory : Path) : Prop :=
  ∃ cut ∈ cuts start, ∃ names, (∀ name ∈ names, IsName name) ∧ directory = cut.below names

section Near

variable {start directory : Path}

theorem near_directory (start : Path) : Near start start.directory :=
  ⟨_, pop_iterate_mem_cuts start 0, [], fun _ h => absurd h List.not_mem_nil, rfl⟩

theorem near_of_mem_cuts {cut : Path} (h : cut ∈ cuts start) : Near start cut :=
  ⟨cut, h, [], fun _ h => absurd h List.not_mem_nil, rfl⟩

theorem Near.tidy (h : Near start directory) : Tidy directory := by
  obtain ⟨cut, hcut, names, hnames, rfl⟩ := h
  exact (tidy_of_mem_cuts hcut).below hnames

theorem Near.push (h : Near start directory) {name : String} (hname : IsName name) :
    Near start (directory.push name) := by
  obtain ⟨cut, hcut, names, hnames, rfl⟩ := h
  refine ⟨cut, hcut, names ++ [name], fun other hother => ?_, (below_concat cut names name).symm⟩
  rcases List.mem_append.mp hother with hother | hother
  · exact hnames other hother
  · rwa [List.mem_singleton.mp hother]

/-- A directory near a file is one above it, or a name in another directory near the file. -/
theorem Near.cases (h : Near start directory) :
    directory ∈ cuts start ∨
      ∃ outer name, Near start outer ∧ IsName name ∧ directory = outer.push name := by
  obtain ⟨cut, hcut, names, hnames, rfl⟩ := h
  rcases List.eq_nil_or_concat names with rfl | ⟨front, last, rfl⟩
  · exact .inl hcut
  · rw [List.concat_eq_append] at hnames ⊢
    have hfront : ∀ name ∈ front, IsName name :=
      fun name hname => hnames name (List.mem_append_left _ hname)
    exact .inr ⟨cut.below front, last, ⟨cut, hcut, front, hfront, rfl⟩, hnames last (by simp),
      below_concat cut front last⟩

theorem Near.pop (h : Near start directory) : Near start directory.pop := by
  rcases h.cases with hcut | ⟨outer, name, houter, hname, rfl⟩
  · exact near_of_mem_cuts (pop_mem_cuts hcut)
  · unfold Path.pop
    rwa [houter.tidy.parent?_push hname]

theorem Near.step (h : Near start directory) {component : Component}
    (hroot : component ≠ .root) (hname : ∀ name, component = .normal name → IsName name) :
    Near start (directory.step component) := by
  cases component with
  | root => exact absurd rfl hroot
  | current => exact h
  | parent => exact h.pop
  | normal name => exact h.push (hname name rfl)

theorem not_isAbsolute_of_isRelative {specifier : String} (h : isRelative specifier = true) :
    (Path.mk specifier).isAbsolute = false := by
  unfold isRelative at h
  unfold isAbsolute
  cases hlist : specifier.toList with
  | nil => rfl
  | cons c cs =>
      rw [hlist] at h
      by_cases hc : c = '.'
      · subst hc
        rfl
      · simp [Ne.symm hc] at h

theorem Near.joinRelative (h : Near start directory) {specifier : String}
    (hrelative : isRelative specifier = true) :
    Near start (directory.joinRelative specifier) := by
  have hroot := root_not_mem_components (not_isAbsolute_of_isRelative hrelative)
  have hnames : ∀ name, .normal name ∈ (Path.mk specifier).components → IsName name :=
    fun _ => isName_of_mem_components
  -- No component is a root, so each step goes up, goes down by a name or stays.
  unfold Path.joinRelative
  generalize (Path.mk specifier).components = components at hroot hnames
  induction components generalizing directory with
  | nil => exact h
  | cons component rest ih =>
      rw [List.foldl_cons]
      refine ih (h.step ?_ ?_) (fun hmem => hroot (List.mem_cons_of_mem _ hmem))
        fun name hmem => hnames name (List.mem_cons_of_mem _ hmem)
      · rintro rfl
        exact hroot List.mem_cons_self
      · rintro name rfl
        exact hnames name List.mem_cons_self

end Near

/-! ### The modules near a file -/

/-- A module is near a file if it lies by names below one of the directories above the file, or is
one of these directories with an ending. -/
def IsNearModule (start path : Path) : Prop :=
  (∃ cut ∈ cuts start, ∃ suffix ∈ moduleSuffixes, path = ⟨cut.text ++ suffix⟩) ∨ Near start path

theorem Near.candidate {start directory path : Path} {specifier : String}
    (h : Near start directory) (hrelative : isRelative specifier = true)
    (hpath : path ∈ moduleCandidates directory specifier) :
    IsNearModule start path ∧ Near start path.directory := by
  have hbase := h.joinRelative hrelative
  unfold moduleCandidates at hpath
  generalize directory.joinRelative specifier = base at hbase hpath
  rcases List.mem_append.mp hpath with hpath | hpath
  · obtain ⟨suffix, hsuffix, rfl⟩ := List.mem_map.mp hpath
    have hending := isEnding_of_mem_moduleSuffixes hsuffix
    -- After a name the ending makes a longer name; after a cut it can make a file beside it.
    rcases hbase.cases with hcut | ⟨outer, name, houter, hname, rfl⟩
    · refine ⟨.inl ⟨base, hcut, suffix, hsuffix, rfl⟩, ?_⟩
      rcases (tidy_of_mem_cuts hcut).directory_append hending with heq | heq
      · rw [heq]
        exact near_of_mem_cuts hcut
      · rw [heq]
        exact near_of_mem_cuts (directory_mem_cuts hcut)
    · rw [push_append hname hending, houter.tidy.directory_push (hname.append hending)]
      exact ⟨.inr (houter.push (hname.append hending)), houter⟩
  · obtain ⟨name, hname, rfl⟩ := List.mem_map.mp hpath
    have hindex := isName_of_mem_indexFiles hname
    rw [hbase.tidy.directory_push hindex]
    exact ⟨.inr (hbase.push hindex), hbase⟩

namespace Files

/-- The keys of the modules near a file that a cut leads to. -/
def keysBelow (files : Files) (cut : Path) : List String :=
  (moduleSuffixes.map fun suffix => (Path.mk (cut.text ++ suffix)).key) ++
    (files.disk.filesBelow cut).map fun names => (cut.below names).key

/-- The keys under which modules near a file can be found. -/
def moduleKeys (files : Files) (start : Path) : List String :=
  files.buffers.map Prod.fst ++ (cuts start).flatMap files.keysBelow

theorem key_mem_moduleKeys {files : Files} {start path : Path} (hnear : IsNearModule start path)
    (hpath : files.contains path = true) : path.key ∈ files.moduleKeys start := by
  unfold contains at hpath
  rcases Bool.or_eq_true_iff.mp hpath with hbuffer | hfile
  · exact List.mem_append_left _ (hasBuffer_iff.mp hbuffer)
  · apply List.mem_append_right
    rcases hnear with ⟨cut, hcut, suffix, hsuffix, rfl⟩ | ⟨cut, hcut, names, hnames, rfl⟩
    · refine List.mem_flatMap.mpr ⟨cut, hcut, List.mem_append_left _ ?_⟩
      exact List.mem_map.mpr ⟨suffix, hsuffix, rfl⟩
    · refine List.mem_flatMap.mpr ⟨cut, hcut, List.mem_append_right _ ?_⟩
      exact List.mem_map.mpr
        ⟨names, Disk.mem_filesBelow_of_isFile hnames hfile, rfl⟩

theorem length_keysBelow_le (files : Files) (cut : Path) :
    (files.keysBelow cut).length ≤ moduleSuffixes.length + files.disk.root.fileCount := by
  rw [keysBelow, List.length_append, List.length_map, List.length_map]
  exact Nat.add_le_add_left (Disk.length_filesBelow_le _ _) _

theorem length_moduleKeys_lt (files : Files) (start : Path) :
    (files.moduleKeys start).length < Lookup.importLimit files start := by
  have hcuts : (cuts start).length = start.parts.length + 2 := by
    simp [cuts]
  have hbelow : ((cuts start).flatMap files.keysBelow).length ≤
      (start.parts.length + 2) * (moduleSuffixes.length + files.disk.root.fileCount) := by
    have hmem : ∀ length ∈ (cuts start).map fun cut => (files.keysBelow cut).length,
        length ≤ moduleSuffixes.length + files.disk.root.fileCount := by
      intro length hlength
      obtain ⟨cut, -, rfl⟩ := List.mem_map.mp hlength
      exact length_keysBelow_le files cut
    have hsum := List.sum_le_card_nsmul _ _ hmem
    rw [List.length_map, hcuts, smul_eq_mul] at hsum
    rwa [List.length_flatMap]
  have hbuffers : files.buffers.length ≤ files.buffers.length * (start.parts.length + 2) :=
    Nat.le_mul_of_pos_right _ (Nat.succ_pos _)
  rw [moduleKeys, List.length_append, List.length_map, Lookup.importLimit, count]
  calc files.buffers.length + ((cuts start).flatMap files.keysBelow).length
      ≤ files.buffers.length * (start.parts.length + 2) +
          (start.parts.length + 2) * (moduleSuffixes.length + files.disk.root.fileCount) :=
        Nat.add_le_add hbuffers hbelow
    _ = (files.buffers.length + files.disk.root.fileCount + moduleSuffixes.length) *
          (start.parts.length + 2) := by ring
    _ < _ := Nat.lt_succ_self _

/-- The number of modules near a file that are not on a chain. -/
def modulesLeft (files : Files) (start : Path) (chain : List String) : Nat :=
  ((files.moduleKeys start).filter fun key => !chain.contains key).length

theorem modulesLeft_lt_importLimit (files : Files) (start : Path) (chain : List String) :
    files.modulesLeft start chain < Lookup.importLimit files start :=
  Nat.lt_of_le_of_lt (List.length_filter_le _ _) (length_moduleKeys_lt files start)

/-- Each module that is entered is one less that is left. -/
theorem modulesLeft_cons_lt {files : Files} {start path : Path} {chain : List String}
    (hnear : IsNearModule start path) (hpath : files.contains path = true)
    (hfresh : path.key ∉ chain) :
    files.modulesLeft start (path.key :: chain) < files.modulesLeft start chain := by
  unfold modulesLeft
  have hsplit : ((files.moduleKeys start).filter fun key => !(path.key :: chain).contains key) =
      ((files.moduleKeys start).filter fun key => !chain.contains key).filter
        fun key => key != path.key := by
    rw [List.filter_filter]
    apply List.filter_congr
    intro key _
    rw [List.contains_cons, Bool.not_or, bne]
  rw [hsplit]
  apply List.length_filter_lt_length_iff_exists.mpr
  refine ⟨path.key, List.mem_filter.mpr ⟨key_mem_moduleKeys hnear hpath, by simpa using hfresh⟩, ?_⟩
  simp

end Files
end NgIndex
