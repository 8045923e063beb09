import NgIndex.Disk
import NgIndex.Proofs.Path.Below

/-!
# The files below a folder

A path that goes down by names alone can be followed from the folder where the names start.  There
are as many ways down to files as there are files, and no folder that a path leads to holds more
files than the disk.
-/

namespace NgIndex
namespace Entry

mutual

/-- The ways down to the files of an entry, by names. -/
def filePaths : Entry → List (List String)
  | file _ _ => [[]]
  | folder _ entries => filePathsIn entries

/-- The ways down to the files of several entries, each with the name of its entry. -/
def filePathsIn : List Entry → List (List String)
  | [] => []
  | entry :: rest => entry.filePaths.map (entry.name :: ·) ++ filePathsIn rest

end

mutual

theorem length_filePaths (entry : Entry) : entry.filePaths.length = entry.fileCount := by
  cases entry with
  | file name bytes => rfl
  | folder name entries => exact length_filePathsIn entries

theorem length_filePathsIn (entries : List Entry) :
    (filePathsIn entries).length = fileCounts entries := by
  cases entries with
  | nil => rfl
  | cons entry rest =>
      rw [filePathsIn, fileCounts, List.length_append, List.length_map, length_filePaths entry,
        length_filePathsIn rest]

end

theorem find?_cons (name : String) (entry : Entry) (rest : List Entry) :
    find? name (entry :: rest) = if entry.name = name then some entry else find? name rest := by
  by_cases h : entry.name = name
  · rw [if_pos h]
    exact List.find?_cons_of_pos (by simpa using h)
  · rw [if_neg h]
    exact List.find?_cons_of_neg (by simpa using h)

theorem cons_mem_filePathsIn {name : String} {entries : List Entry} {entry : Entry}
    (hfind : find? name entries = some entry) {names : List String}
    (hnames : names ∈ entry.filePaths) : name :: names ∈ filePathsIn entries := by
  induction entries with
  | nil => cases hfind
  | cons other rest ih =>
      rw [find?_cons] at hfind
      rw [filePathsIn, List.mem_append]
      by_cases h : other.name = name
      · rw [if_pos h] at hfind
        cases hfind
        exact .inl (List.mem_map.mpr ⟨names, hnames, by rw [h]⟩)
      · rw [if_neg h] at hfind
        exact .inr (ih hfind)

theorem fileCount_le_of_find? {name : String} {entries : List Entry} {entry : Entry}
    (hfind : find? name entries = some entry) : entry.fileCount ≤ fileCounts entries := by
  induction entries with
  | nil => cases hfind
  | cons other rest ih =>
      rw [find?_cons] at hfind
      rw [fileCounts]
      by_cases h : other.name = name
      · rw [if_pos h] at hfind
        cases hfind
        exact Nat.le_add_right _ _
      · rw [if_neg h] at hfind
        exact Nat.le_trans (ih hfind) (Nat.le_add_left _ _)

/-! ### One component after another -/

/-- The entries passed after one more component. -/
def pass (passed : List Entry) (component : Path.Component) : Except ReadError (List Entry) :=
  match component, passed with
  | .root, passed => .ok (passed.drop (passed.length - 1))
  | .current, passed => .ok passed
  | .parent, folder _ _ :: outer :: more => .ok (outer :: more)
  | .parent, file _ _ :: _ => .error .throughFile
  | .parent, passed => .ok passed
  | .normal name, folder own entries :: more =>
      match find? name entries with
      | some entry => .ok (entry :: folder own entries :: more)
      | none => .error .missing
  | .normal _, file _ _ :: _ => .error .throughFile
  | .normal _, [] => .error .missing

theorem follow_cons (passed : List Entry) (component : Path.Component)
    (rest : List Path.Component) :
    follow passed (component :: rest) =
      match pass passed component with
      | .ok next => follow next rest
      | .error error => .error error := by
  rw [follow.eq_def]
  cases component with
  | root => rfl
  | current => rfl
  | parent =>
      match passed with
      | [] => rfl
      | file own bytes :: more => rfl
      | [folder own entries] => rfl
      | folder own entries :: outer :: more => rfl
  | normal name =>
      match passed with
      | [] => rfl
      | file own bytes :: more => rfl
      | folder own entries :: more =>
          simp only [pass]
          cases find? name entries with
          | none => rfl
          | some inner => rfl

/-- One component leads to no entry that holds more files than those passed before. -/
theorem fileCount_le_of_pass {passed next : List Entry} {component : Path.Component} {n : Nat}
    (hpassed : ∀ entry ∈ passed, entry.fileCount ≤ n) (h : pass passed component = .ok next) :
    ∀ entry ∈ next, entry.fileCount ≤ n := by
  revert h
  fun_cases pass passed component with
  | case1 =>
      -- Only the entry at the bottom of those passed is kept.
      rintro ⟨⟩ entry hentry
      exact hpassed entry (List.mem_of_mem_drop hentry)
  | case2 =>
      rintro ⟨⟩
      exact hpassed
  | case3 =>
      rintro ⟨⟩ entry hentry
      exact hpassed entry (List.mem_cons_of_mem _ hentry)
  | case4 => nofun
  | case5 =>
      rintro ⟨⟩
      exact hpassed
  | case6 name own entries more inner hfind =>
      rintro ⟨⟩ entry hentry
      rcases List.mem_cons.mp hentry with rfl | hentry
      · exact Nat.le_trans (fileCount_le_of_find? hfind) (hpassed _ List.mem_cons_self)
      · exact hpassed entry hentry
  | case7 => nofun
  | case8 => nofun
  | case9 => nofun

/-- No entry that a path leads to holds more files than those passed at the start. -/
theorem fileCount_le_of_follow {passed : List Entry} {components : List Path.Component} {n : Nat}
    (hpassed : ∀ entry ∈ passed, entry.fileCount ≤ n) {entry : Entry}
    (h : follow passed components = .ok entry) : entry.fileCount ≤ n := by
  induction components generalizing passed with
  | nil =>
      cases passed with
      | nil => cases h
      | cons here more =>
          cases h
          exact hpassed _ List.mem_cons_self
  | cons component rest ih =>
      rw [follow_cons] at h
      cases hpass : pass passed component with
      | error error =>
          rw [hpass] at h
          cases h
      | ok next =>
          rw [hpass] at h
          exact ih (fileCount_le_of_pass hpassed hpass) h

/-! ### Going down by names -/

/-- On the way down it does not matter what was passed before. -/
theorem follow_normals (entry : Entry) (passed : List Entry) (names : List String) :
    follow (entry :: passed) (names.map .normal) = follow [entry] (names.map .normal) := by
  induction names generalizing entry passed with
  | nil => rfl
  | cons name rest ih =>
      cases entry with
      | file own bytes => rfl
      | folder own entries =>
          simp only [List.map_cons, follow]
          cases find? name entries with
          | none => rfl
          | some inner =>
              simp only
              rw [ih inner (folder own entries :: passed), ih inner [folder own entries]]

theorem follow_append_normals (passed : List Entry) (components : List Path.Component)
    (names : List String) :
    follow passed (components ++ names.map .normal) =
      match follow passed components with
      | .ok entry => follow [entry] (names.map .normal)
      | .error error => .error error := by
  induction components generalizing passed with
  | nil =>
      cases passed with
      | nil =>
          cases names with
          | nil => rfl
          | cons name rest => rfl
      | cons entry rest => exact follow_normals entry rest names
  | cons component rest ih =>
      rw [List.cons_append, follow_cons, follow_cons]
      cases pass passed component with
      | error error => rfl
      | ok next => exact ih next

/-- The names by which a file is reached are a way down to it. -/
theorem mem_filePaths_of_follow {entry : Entry} {names : List String} {own : String}
    {bytes : ByteArray} (h : follow [entry] (names.map .normal) = .ok (file own bytes)) :
    names ∈ entry.filePaths := by
  induction names generalizing entry with
  | nil =>
      cases h
      exact List.mem_singleton_self _
  | cons name rest ih =>
      cases entry with
      | file name bytes => cases h
      | folder name' entries =>
          simp only [List.map_cons, follow] at h
          cases hfind : find? name entries with
          | none =>
              rw [hfind] at h
              cases h
          | some inner =>
              rw [hfind] at h
              simp only at h
              rw [follow_normals] at h
              exact cons_mem_filePathsIn hfind (ih h)

end Entry

namespace Disk

/-- The ways down to files from the folder at a path. -/
def filesBelow (disk : Disk) (path : Path) : List (List String) :=
  match Entry.follow [disk.root] (disk.absolute path) with
  | .ok entry => entry.filePaths
  | .error _ => []

theorem length_filesBelow_le (disk : Disk) (path : Path) :
    (disk.filesBelow path).length ≤ disk.root.fileCount := by
  unfold filesBelow
  split
  · next entry h =>
      rw [Entry.length_filePaths]
      refine Entry.fileCount_le_of_follow (fun entry hentry => ?_) h
      exact Nat.le_of_eq (congrArg Entry.fileCount (List.mem_singleton.mp hentry))
  · exact Nat.zero_le _

/-- Where there are no files, there is none at any path. -/
theorem isFile_eq_false {disk : Disk} (h : disk.root.fileCount = 0) (path : Path) :
    disk.isFile path = false := by
  unfold isFile find
  split
  · next entry hfind =>
      split at hfind
      · cases hfind
      · have hcount : entry.fileCount ≤ 0 := by
          refine Entry.fileCount_le_of_follow (fun other hother => ?_) hfind
          exact Nat.le_of_eq ((congrArg Entry.fileCount (List.mem_singleton.mp hother)).trans h)
        cases entry with
        | file own bytes => exact absurd hcount (Nat.not_succ_le_zero 0)
        | folder own entries => rfl
  · rfl

theorem absolute_below (disk : Disk) (path : Path) {names : List String}
    (hnames : ∀ name ∈ names, Path.IsName name) :
    disk.absolute (path.below names) = disk.absolute path ++ names.map .normal := by
  unfold absolute
  rw [Path.isAbsolute_below hnames, Path.components_below hnames]
  split
  · rfl
  · rw [List.append_assoc]

/-- A file that is reached from a path by names lies below it. -/
theorem mem_filesBelow_of_isFile {disk : Disk} {path : Path} {names : List String}
    (hnames : ∀ name ∈ names, Path.IsName name)
    (h : disk.isFile (path.below names) = true) : names ∈ disk.filesBelow path := by
  unfold isFile find at h
  split at h
  · next entry hfind =>
      split at hfind
      · cases hfind
      · rw [absolute_below disk path hnames, Entry.follow_append_normals] at hfind
        unfold filesBelow
        cases hstart : Entry.follow [disk.root] (disk.absolute path) with
        | error error =>
            rw [hstart] at hfind
            cases hfind
        | ok start =>
            rw [hstart] at hfind
            cases entry with
            | folder own entries => cases h
            | file own bytes => exact Entry.mem_filePaths_of_follow hfind
  · cases h

end Disk
end NgIndex
