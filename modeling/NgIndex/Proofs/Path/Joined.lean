import NgIndex.Proofs.Path.Address

/-!
# Relative paths joined to a folder

A relative path is applied to a folder part by part.  On an absolute folder that is spelled by names
alone this is what a stack of names does: an empty part and a single dot leave it as it is, two dots
take the last name away if there is one, and any other part is put on top.  What comes out is again
spelled by names alone, so however a module is written, it has one spelling and one key.
-/

namespace NgIndex
namespace Path

/-! ### Folders spelled by names alone -/

/-- An absolute path in which no part is empty, a dot or two dots.  The root has no parts. -/
structure IsFolded (p : Path) : Prop where
  absolute : p.isAbsolute = true
  named : p.text = "/" ∨ ∀ part ∈ p.parts, IsName (String.ofList part)

instance (p : Path) : Decidable (IsFolded p) :=
  decidable_of_iff
    (p.isAbsolute = true ∧ (p.text = "/" ∨ ∀ part ∈ p.parts, IsName (String.ofList part)))
    ⟨fun h => ⟨h.1, h.2⟩, fun h => ⟨h.absolute, h.named⟩⟩

/-- The root folder. -/
def rootFolder : Path :=
  ⟨"/"⟩

/-- The names among the components of a path. -/
def names (p : Path) : List String :=
  p.components.filterMap fun component =>
    match component with
    | .normal name => some name
    | _ => none

theorem rootFolder_eq : rootFolder = spelled .root [] :=
  rfl

theorem tidy_rootFolder : Tidy rootFolder :=
  ⟨.root, [], readable_nil .root, rfl, rfl⟩

theorem pop_rootFolder : rootFolder.pop = rootFolder := by
  unfold pop
  rw [rootFolder_eq, (readable_nil .root).parent?_spelled]
  rfl

theorem below_rootFolder {ns : List String} (h : ∀ name ∈ ns, IsName name) :
    Readable .root (ns.map String.toList) ∧
      rootFolder.below ns = spelled .root (ns.map String.toList) :=
  (readable_nil .root).below_spelled rfl h

/-- Folded paths are those that names lead to from the root. -/
theorem isFolded_iff {p : Path} :
    p.IsFolded ↔ ∃ ns, (∀ name ∈ ns, IsName name) ∧ p = rootFolder.below ns := by
  constructor
  · rintro ⟨habsolute, htext | hnamed⟩
    · exact ⟨[], by simp, congrArg Path.mk htext⟩
    · obtain ⟨front, ps, hread, rfl⟩ := exists_spelled p
      rw [hread.isAbsolute_spelled, decide_eq_true_eq] at habsolute
      subst habsolute
      rw [hread.parts_spelled, if_neg (by decide), readParts] at hnamed
      split at hnamed
      · next hps =>
          subst hps
          exact ⟨[], by simp, rfl⟩
      · have hnames : ∀ name ∈ ps.map String.ofList, IsName name := by
          intro name hname
          obtain ⟨part, hpart, rfl⟩ := List.mem_map.mp hname
          exact hnamed part hpart
        have hparts : (ps.map String.ofList).map String.toList = ps := by
          simp
        refine ⟨ps.map String.ofList, hnames, ?_⟩
        rw [(below_rootFolder hnames).2, hparts]
  · rintro ⟨ns, hnames, rfl⟩
    refine ⟨(isAbsolute_below hnames rootFolder).trans rfl, ?_⟩
    by_cases hne : ns = []
    · rw [hne]
      exact .inl rfl
    · obtain ⟨hread, hbelow⟩ := below_rootFolder hnames
      rw [hbelow, hread.parts_spelled, if_neg (by decide), readParts, if_neg (by simpa using hne)]
      refine .inr fun part hpart => ?_
      obtain ⟨name, hname, rfl⟩ := List.mem_map.mp hpart
      rw [String.ofList_toList]
      exact hnames name hname

theorem names_below_rootFolder {ns : List String} (h : ∀ name ∈ ns, IsName name) :
    (rootFolder.below ns).names = ns := by
  have hroot : rootFolder.components = [.root] := by
    rw [rootFolder_eq, (readable_nil .root).components_spelled]
    rfl
  rw [names, components_below h, hroot]
  simp [List.filterMap_map]

/-- A folded path is spelled by its names. -/
theorem IsFolded.eq_below {p : Path} (h : p.IsFolded) :
    (∀ name ∈ p.names, IsName name) ∧ p = rootFolder.below p.names := by
  obtain ⟨ns, hnames, rfl⟩ := isFolded_iff.mp h
  rw [names_below_rootFolder hnames]
  exact ⟨hnames, rfl⟩

/-! ### A stack of names -/

/-- What a part does to the names on a stack, whose top is the last one. -/
def foldPart (ns : List String) (part : List Char) : List String :=
  if isIdle part then ns
  else if part = ['.', '.'] then ns.dropLast
  else ns ++ [String.ofList part]

/-- What the parts of a relative path, from the front, do to the names on a stack. -/
def foldParts (ns : List String) (relative : String) : List String :=
  (relative.toList.splitOn '/').foldl foldPart ns

theorem foldParts_append_slash (ns : List String) (first second : String) :
    foldParts ns (first ++ "/" ++ second) = foldParts (foldParts ns first) second := by
  have hlist : (first ++ "/" ++ second).toList = first.toList ++ '/' :: second.toList := by
    simp
  rw [foldParts, hlist, splitOn_append_slash, List.foldl_append]
  rfl

theorem foldl_foldPart_counting (ns : List String) (parts : List (List Char)) :
    (counting parts).foldl foldPart ns = parts.foldl foldPart ns := by
  induction parts generalizing ns with
  | nil => rfl
  | cons part rest ih =>
      rw [counting] at ih ⊢
      by_cases hidle : isIdle part = true
      · rw [List.filter_cons_of_neg (by simp [hidle]), List.foldl_cons, ih, foldPart,
          if_pos hidle]
      · rw [List.filter_cons_of_pos (by simp [hidle]), List.foldl_cons, List.foldl_cons, ih]

/-! ### Steps from a folded path -/

section Steps

variable {ns : List String} (hnames : ∀ name ∈ ns, IsName name)

include hnames

theorem isName_of_mem_foldPart {part : List Char} (hslash : '/' ∉ part) :
    ∀ name ∈ foldPart ns part, IsName name := by
  intro name hname
  unfold foldPart at hname
  split at hname
  · exact hnames name hname
  · next hcounts =>
      split at hname
      · exact hnames name (List.dropLast_subset ns hname)
      · next hup =>
          rcases List.mem_append.mp hname with hname | hname
          · exact hnames name hname
          · rw [List.mem_singleton.mp hname]
            refine ⟨?_, ?_, ?_⟩
            · rwa [String.toList_ofList]
            · rw [String.toList_ofList]
              simpa using hcounts
            · rwa [String.toList_ofList]

theorem pop_below_rootFolder : (rootFolder.below ns).pop = rootFolder.below ns.dropLast := by
  rcases List.eq_nil_or_concat ns with rfl | ⟨init, last, rfl⟩
  · exact pop_rootFolder
  · rw [List.concat_eq_append] at hnames ⊢
    have hinit : ∀ name ∈ init, IsName name :=
      fun name hname => hnames name (List.mem_append_left _ hname)
    have hlast : IsName last := hnames last (by simp)
    rw [below_concat, pop, (tidy_rootFolder.below hinit).parent?_push hlast, List.dropLast_concat]
    rfl

/-- A part that counts does to a folded path what it does to the names of the path. -/
theorem step_below_rootFolder {part : List Char} (hcounts : isIdle part = false) :
    (rootFolder.below ns).step (componentOfPart part) = rootFolder.below (foldPart ns part) := by
  rw [foldPart, if_neg (by simp [hcounts]), componentOfPart]
  by_cases hup : part = ['.', '.']
  · rw [if_pos (beq_iff_eq.mpr hup), if_pos hup]
    exact pop_below_rootFolder hnames
  · rw [if_neg (by simpa using hup), if_neg hup, below_concat]
    rfl

theorem foldl_step_below_rootFolder {parts : List (List Char)}
    (hslash : ∀ part ∈ parts, '/' ∉ part) (hcounts : ∀ part ∈ parts, isIdle part = false) :
    (∀ name ∈ parts.foldl foldPart ns, IsName name) ∧
      (parts.map componentOfPart).foldl step (rootFolder.below ns) =
        rootFolder.below (parts.foldl foldPart ns) := by
  induction parts generalizing ns with
  | nil => exact ⟨hnames, rfl⟩
  | cons part rest ih =>
      have hpart := step_below_rootFolder hnames (hcounts part List.mem_cons_self)
      have hnext := isName_of_mem_foldPart hnames (hslash part List.mem_cons_self)
      rw [List.map_cons, List.foldl_cons, List.foldl_cons, hpart]
      exact ih hnext (fun other hother => hslash other (List.mem_cons_of_mem _ hother))
        fun other hother => hcounts other (List.mem_cons_of_mem _ hother)

end Steps

/-! ### Joining -/

/-- Dots at the front of a path lead nowhere. -/
theorem foldl_step_moves (folder p : Path) :
    p.moves.foldl step folder = p.components.foldl step folder := by
  unfold moves
  generalize p.components = components
  induction components generalizing folder with
  | nil => rfl
  | cons component rest ih =>
      by_cases hcurrent : component = .current
      · rw [hcurrent, List.filter_cons_of_neg (by simp), ih]
        rfl
      · rw [List.filter_cons_of_pos (by simpa using hcurrent), List.foldl_cons, List.foldl_cons,
          ih]

/-- The names that a path is applied to: those of the folder, and none if the path is absolute. -/
def baseNames (folder : Path) (path : String) : List String :=
  if (Path.mk path).isAbsolute then [] else folder.names

/-- A path applied to a folded one is what its parts make of a stack of names. -/
theorem IsFolded.joinRelative_eq {folder : Path} (h : folder.IsFolded) (path : String) :
    (∀ name ∈ foldParts (baseNames folder path) path, IsName name) ∧
      folder.joinRelative path = rootFolder.below (foldParts (baseNames folder path) path) := by
  obtain ⟨hnames, hfolder⟩ := h.eq_below
  have hbase : ∀ name ∈ baseNames folder path, IsName name := by
    unfold baseNames
    split
    · exact fun _ hname => absurd hname List.not_mem_nil
    · exact hnames
  have hslash : ∀ part ∈ countingParts path.toList, '/' ∉ part :=
    fun part hpart => not_mem_of_mem_splitOn (List.mem_filter.mp hpart).1
  have hcounts : ∀ part ∈ countingParts path.toList, isIdle part = false :=
    fun part hpart => by simpa using (List.mem_filter.mp hpart).2
  have hfold := foldl_step_below_rootFolder hbase hslash hcounts
  rw [countingParts, foldl_foldPart_counting, ← foldParts] at hfold
  refine ⟨hfold.1, ?_⟩
  rw [← hfold.2, joinRelative, ← foldl_step_moves, moves_eq, List.foldl_append]
  -- A path that starts at the root goes there first.
  have hstart : (if (Path.mk path).isAbsolute then [Component.root] else []).foldl step folder =
      rootFolder.below (baseNames folder path) := by
    unfold baseNames
    split
    · rfl
    · exact hfolder
  rw [hstart]
  rfl

theorem IsFolded.joinRelative {folder : Path} (h : folder.IsFolded) (path : String) :
    (folder.joinRelative path).IsFolded ∧
      (folder.joinRelative path).names = foldParts (baseNames folder path) path := by
  obtain ⟨hnames, heq⟩ := h.joinRelative_eq path
  rw [heq, names_below_rootFolder hnames]
  exact ⟨isFolded_iff.mpr ⟨_, hnames, rfl⟩, rfl⟩

theorem isAbsolute_append_slash {first : String} (hfirst : first ≠ "") (second : String) :
    (Path.mk (first ++ "/" ++ second)).isAbsolute = (Path.mk first).isAbsolute := by
  unfold isAbsolute
  cases hlist : first.toList with
  | nil => exact absurd (String.toList_eq_nil_iff.mp hlist) hfirst
  | cons c cs => simp [hlist]

/-- Two folded paths are equal if their names are. -/
theorem IsFolded.eq_iff {p q : Path} (hp : p.IsFolded) (hq : q.IsFolded) :
    p = q ↔ p.names = q.names := by
  refine ⟨congrArg names, fun h => ?_⟩
  rw [hp.eq_below.2, hq.eq_below.2, h]

/-- **Relative paths are folded.**  Joined to an absolute folder that is spelled by names alone, a
relative path gives such a path again: the one whose names are what its parts make of the names of
the folder on a stack.  A path in two pieces is joined piece by piece.  Two relative paths lead to
the same path just if the stacks come out equal, and then the paths have one key and the same
candidates for a module are tried. -/
theorem relative_paths_fold {folder : Path} (h : folder.IsFolded) :
    (∀ relative, (Path.mk relative).isAbsolute = false →
      (folder.joinRelative relative).IsFolded ∧
        (folder.joinRelative relative).names = foldParts folder.names relative ∧
        folder.joinRelative relative = rootFolder.below (foldParts folder.names relative)) ∧
      (∀ first second, first ≠ "" → (Path.mk second).isAbsolute = false →
        folder.joinRelative (first ++ "/" ++ second) =
          (folder.joinRelative first).joinRelative second) ∧
      ∀ other, other.IsFolded → ∀ relative relative', (Path.mk relative).isAbsolute = false →
        (Path.mk relative').isAbsolute = false →
        (folder.joinRelative relative = other.joinRelative relative' ↔
          foldParts folder.names relative = foldParts other.names relative') ∧
        (foldParts folder.names relative = foldParts other.names relative' →
          (folder.joinRelative relative).key = (other.joinRelative relative').key ∧
            moduleCandidates folder relative = moduleCandidates other relative') := by
  have hnames {base : Path} (hbase : base.IsFolded) {relative : String}
      (hrelative : (Path.mk relative).isAbsolute = false) :
      (base.joinRelative relative).names = foldParts base.names relative := by
    rw [(hbase.joinRelative relative).2, baseNames, if_neg (by simp [hrelative])]
  refine ⟨fun relative hrelative => ?_, fun first second hfirst hsecond => ?_,
    fun other hother relative relative' hrelative hrelative' => ?_⟩
  · have hjoined := (h.joinRelative relative).1
    refine ⟨hjoined, hnames h hrelative, ?_⟩
    rw [← hnames h hrelative]
    exact hjoined.eq_below.2
  · have hfolded := (h.joinRelative first).1
    rw [(h.joinRelative _).1.eq_iff (hfolded.joinRelative second).1,
      hnames hfolded hsecond, (h.joinRelative first).2, (h.joinRelative _).2,
      foldParts_append_slash, baseNames, baseNames, isAbsolute_append_slash hfirst]
  · have hiff : folder.joinRelative relative = other.joinRelative relative' ↔
        foldParts folder.names relative = foldParts other.names relative' := by
      rw [(h.joinRelative relative).1.eq_iff (hother.joinRelative relative').1,
        hnames h hrelative, hnames hother hrelative']
    refine ⟨hiff, fun hstack => ?_⟩
    have hpath := hiff.mpr hstack
    refine ⟨congrArg key hpath, ?_⟩
    unfold moduleCandidates
    rw [hpath]

/-- One module is named from two folders: with repeated slashes and a dot, and by way of the root
and beyond it. -/
theorem spellings_of_one_module_fold :
    IsFolded ⟨"/app/src/cards"⟩ ∧ IsFolded ⟨"/app/lib"⟩ ∧
      (Path.mk "../.././/lib/x").isAbsolute = false ∧
      (Path.mk "../../../app/lib/./x/").isAbsolute = false ∧
      joinRelative ⟨"/app/src/cards"⟩ "../.././/lib/x" = ⟨"/app/lib/x"⟩ ∧
      joinRelative ⟨"/app/src/cards"⟩ ("../.." ++ "/" ++ ".//lib/x") =
        (joinRelative ⟨"/app/src/cards"⟩ "../..").joinRelative ".//lib/x" ∧
      (joinRelative ⟨"/app/src/cards"⟩ "../.././/lib/x").key =
        (joinRelative ⟨"/app/lib"⟩ "../../../app/lib/./x/").key := by
  have hcards : IsFolded ⟨"/app/src/cards"⟩ := by decide +kernel
  have hlib : IsFolded ⟨"/app/lib"⟩ := by decide +kernel
  obtain ⟨hfold, hpieces, hsame⟩ := relative_paths_fold hcards
  have hnames : foldParts (names ⟨"/app/src/cards"⟩) "../.././/lib/x" = ["app", "lib", "x"] := by
    decide +kernel
  have hnames' : foldParts (names ⟨"/app/lib"⟩) "../../../app/lib/./x/" = ["app", "lib", "x"] := by
    decide +kernel
  have hjoined := (hfold "../.././/lib/x" (by decide +kernel)).2.2
  rw [hnames] at hjoined
  have hkeys := (hsame ⟨"/app/lib"⟩ hlib "../.././/lib/x" "../../../app/lib/./x/"
    (by decide +kernel) (by decide +kernel)).2 (hnames.trans hnames'.symm)
  exact ⟨hcards, hlib, by decide +kernel, by decide +kernel, hjoined.trans (by decide +kernel),
    hpieces "../.." ".//lib/x" (by decide +kernel) (by decide +kernel), hkeys.1⟩

end Path
end NgIndex
