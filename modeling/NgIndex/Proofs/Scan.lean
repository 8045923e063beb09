import Mathlib.Data.List.Nodup
import NgIndex.Proofs.Disk
import NgIndex.Scan

/-!
# What a scan finds

A scan goes down from the root by names.  It enters the folders that are not left out and takes the
files that a filter takes, so it finds the files to which the way is open: every folder on the way
is entered, and the file at its end is taken.  Where the names in each folder are distinct each file
is found once, and the list is in strictly ascending order.
-/

namespace NgIndex
namespace Entry

mutual

/-- Files and folders have proper names, and no two entries of a folder share one. -/
def Sound : Entry → Prop
  | file name _ => Path.IsName name
  | folder name entries => Path.IsName name ∧ AllSound entries

/-- Entries of one folder have proper names, and no two share one. -/
def AllSound : List Entry → Prop
  | [] => True
  | entry :: rest => entry.Sound ∧ (∀ other ∈ rest, other.name ≠ entry.name) ∧ AllSound rest

end

mutual

/-- Whether an entry is sound can be decided. -/
def decideSound : (entry : Entry) → Decidable entry.Sound
  | file name _ => inferInstanceAs (Decidable (Path.IsName name))
  | folder _ entries => @instDecidableAnd _ _ inferInstance (decideAllSound entries)

/-- Whether entries of a folder are sound can be decided. -/
def decideAllSound : (entries : List Entry) → Decidable (AllSound entries)
  | [] => .isTrue trivial
  | entry :: rest =>
      @instDecidableAnd _ _ (decideSound entry)
        (@instDecidableAnd _ _ inferInstance (decideAllSound rest))

end

instance (entries : List Entry) : Decidable (AllSound entries) :=
  decideAllSound entries

theorem Sound.isName_name {entry : Entry} (h : entry.Sound) : Path.IsName entry.name := by
  cases entry with
  | file name bytes => exact h
  | folder name entries => exact h.1

/-! ### Ways down to files -/

theorem ne_nil_of_mem_filePathsIn {entries : List Entry} {names : List String}
    (h : names ∈ filePathsIn entries) : names ≠ [] := by
  induction entries with
  | nil => cases h
  | cons entry rest ih =>
      rcases List.mem_append.mp h with h | h
      · obtain ⟨tail, -, rfl⟩ := List.mem_map.mp h
        exact List.cons_ne_nil _ _
      · exact ih h

/-- A way down starts with the name of one of the entries. -/
theorem exists_entry_of_mem_filePathsIn {entries : List Entry} {name : String}
    {names : List String} (h : name :: names ∈ filePathsIn entries) :
    ∃ entry ∈ entries, entry.name = name ∧ names ∈ entry.filePaths := by
  induction entries with
  | nil => cases h
  | cons entry rest ih =>
      rcases List.mem_append.mp h with h | h
      · obtain ⟨tail, htail, heq⟩ := List.mem_map.mp h
        obtain ⟨rfl, rfl⟩ := List.cons.inj heq
        exact ⟨entry, List.mem_cons_self, rfl, htail⟩
      · obtain ⟨other, hother, hname, hnames⟩ := ih h
        exact ⟨other, List.mem_cons_of_mem _ hother, hname, hnames⟩

mutual

theorem isName_of_mem_filePaths {entry : Entry} (h : entry.Sound) {names : List String}
    (hnames : names ∈ entry.filePaths) : ∀ name ∈ names, Path.IsName name := by
  cases entry with
  | file own bytes =>
      obtain rfl := List.mem_singleton.mp hnames
      exact fun _ hname => nomatch hname
  | folder own entries => exact isName_of_mem_filePathsIn h.2 hnames

theorem isName_of_mem_filePathsIn {entries : List Entry} (h : AllSound entries)
    {names : List String} (hnames : names ∈ filePathsIn entries) :
    ∀ name ∈ names, Path.IsName name := by
  cases entries with
  | nil => cases hnames
  | cons entry rest =>
      obtain ⟨hentry, -, hrest⟩ := h
      rcases List.mem_append.mp hnames with hnames | hnames
      · obtain ⟨tail, htail, rfl⟩ := List.mem_map.mp hnames
        intro name hname
        rcases List.mem_cons.mp hname with rfl | hname
        · exact hentry.isName_name
        · exact isName_of_mem_filePaths hentry htail name hname
      · exact isName_of_mem_filePathsIn hrest hnames

end

mutual

theorem nodup_filePaths {entry : Entry} (h : entry.Sound) : entry.filePaths.Nodup := by
  cases entry with
  | file own bytes => exact List.nodup_singleton _
  | folder own entries => exact nodup_filePathsIn h.2

theorem nodup_filePathsIn {entries : List Entry} (h : AllSound entries) :
    (filePathsIn entries).Nodup := by
  cases entries with
  | nil => exact List.nodup_nil
  | cons entry rest =>
      obtain ⟨hentry, hdistinct, hrest⟩ := h
      refine List.nodup_append.mpr ⟨?_, nodup_filePathsIn hrest, ?_⟩
      · exact (nodup_filePaths hentry).map List.cons_injective
      · rintro names hnames other hother rfl
        obtain ⟨tail, -, rfl⟩ := List.mem_map.mp hnames
        obtain ⟨found, hfound, hname, -⟩ := exists_entry_of_mem_filePathsIn hother
        exact hdistinct found hfound hname

end

theorem find?_of_mem {entries : List Entry} (h : AllSound entries) {entry : Entry}
    (hentry : entry ∈ entries) : find? entry.name entries = some entry := by
  induction entries with
  | nil => cases hentry
  | cons other rest ih =>
      obtain ⟨-, hdistinct, hrest⟩ := h
      rw [find?_cons]
      rcases List.mem_cons.mp hentry with rfl | hentry
      · exact if_pos rfl
      · rw [if_neg (Ne.symm (hdistinct entry hentry)), ih hrest hentry]

theorem AllSound.of_mem {entries : List Entry} (h : AllSound entries) {entry : Entry}
    (hentry : entry ∈ entries) : entry.Sound := by
  induction entries with
  | nil => cases hentry
  | cons other rest ih =>
      rcases List.mem_cons.mp hentry with rfl | hentry
      · exact h.1
      · exact ih h.2.2 hentry

/-- Where names are distinct, a way down to a file leads to it. -/
theorem follow_of_mem_filePathsIn (own : String) {entries : List Entry} (h : AllSound entries)
    {names : List String} (hnames : names ∈ filePathsIn entries) :
    ∃ name bytes, follow [folder own entries] (names.map .normal) = .ok (file name bytes) := by
  induction names generalizing own entries with
  | nil => exact absurd rfl (ne_nil_of_mem_filePathsIn hnames)
  | cons name rest ih =>
      obtain ⟨inner, hinner, rfl, hrest⟩ := exists_entry_of_mem_filePathsIn hnames
      simp only [List.map_cons, follow, find?_of_mem h hinner]
      rw [follow_normals]
      cases inner with
      | file name bytes =>
          obtain rfl := List.mem_singleton.mp hrest
          exact ⟨name, bytes, rfl⟩
      | folder name inside => exact ih name (h.of_mem hinner).2 hrest

/-! ### The way that a scan goes -/

/-- Whether a scan goes down by names from a folder: it enters every folder on the way and takes the
file at its end. -/
def isOpen (takes enters : Path → Bool) (directory : Path) : List String → Bool
  | [] => false
  | [name] => takes (directory.push name)
  | name :: next :: rest =>
      enters (directory.push name) && isOpen takes enters (directory.push name) (next :: rest)

theorem isOpen_cons_of_ne_nil {takes enters : Path → Bool} {directory : Path} {name : String}
    {names : List String} (h : names ≠ []) :
    isOpen takes enters directory (name :: names) =
      (enters (directory.push name) && isOpen takes enters (directory.push name) names) := by
  cases names with
  | nil => exact absurd rfl h
  | cons next rest => rfl

theorem isOpen_iff {takes enters : Path → Bool} {directory : Path} {names : List String} :
    isOpen takes enters directory names = true ↔
      names ≠ [] ∧ takes (directory.below names) = true ∧
        ∀ front, front <+: names → front ≠ [] → front ≠ names →
          enters (directory.below front) = true := by
  induction names generalizing directory with
  | nil => simp [isOpen]
  | cons name rest ih =>
      by_cases hrest : rest = []
      · subst hrest
        refine ⟨fun htakes => ⟨List.cons_ne_nil _ _, htakes, ?_⟩, fun h => h.2.1⟩
        intro front hfront hne hnot
        rcases List.prefix_cons_iff.mp hfront with hnil | ⟨tail, rfl, htail⟩
        · exact absurd hnil hne
        · exact absurd (by rw [List.prefix_nil.mp htail]) hnot
      · rw [isOpen_cons_of_ne_nil hrest, Bool.and_eq_true, ih]
        constructor
        · rintro ⟨hfirst, -, htakes, hothers⟩
          refine ⟨List.cons_ne_nil _ _, htakes, fun front hfront hne hnot => ?_⟩
          rcases List.prefix_cons_iff.mp hfront with hnil | ⟨tail, rfl, htail⟩
          · exact absurd hnil hne
          · by_cases htailNil : tail = []
            · rw [htailNil]
              exact hfirst
            · exact hothers tail htail htailNil fun hsame => hnot (by rw [hsame])
        · rintro ⟨-, htakes, hall⟩
          refine ⟨?_, hrest, htakes, fun front hfront hne hnot => ?_⟩
          · exact hall [name] (List.prefix_cons_iff.mpr (.inr ⟨[], rfl, List.nil_prefix⟩))
              (List.cons_ne_nil _ _) fun hsame => hrest (List.cons.inj hsame).2.symm
          · exact hall (name :: front) (List.cons_prefix_cons.mpr ⟨rfl, hfront⟩)
              (List.cons_ne_nil _ _) fun hsame => hnot (List.cons.inj hsame).2

variable (takes enters : Path → Bool)

mutual

theorem collect_eq (directory : Path) (entry : Entry) :
    entry.collect takes enters directory =
      ((entry.filePaths.map (entry.name :: ·)).filter (isOpen takes enters directory)).map
        directory.below := by
  cases entry with
  | file name bytes =>
      have hopen : isOpen takes enters directory [name] = takes (directory.push name) := rfl
      rw [collect, filePaths, List.map_singleton, List.filter_singleton, Entry.name, hopen]
      cases takes (directory.push name) with
      | true => rfl
      | false => rfl
  | folder name entries =>
      have hopen : ∀ names ∈ filePathsIn entries,
          isOpen takes enters directory (name :: names) =
            (enters (directory.push name) && isOpen takes enters (directory.push name) names) :=
        fun names hnames => isOpen_cons_of_ne_nil (ne_nil_of_mem_filePathsIn hnames)
      rw [collect, filePaths, collectAll_eq (directory.push name), List.filter_map, List.map_map,
        Entry.name]
      simp only [Function.comp_def]
      rw [List.filter_congr hopen]
      cases enters (directory.push name) with
      | true => rfl
      | false => simp

theorem collectAll_eq (directory : Path) (entries : List Entry) :
    collectAll takes enters directory entries =
      ((filePathsIn entries).filter (isOpen takes enters directory)).map directory.below := by
  cases entries with
  | nil => rfl
  | cons entry rest =>
      rw [collectAll, filePathsIn, List.filter_append, List.map_append, collect_eq directory entry,
        collectAll_eq directory rest]

end

end Entry

/-- A filter enters every folder strictly between a root and what lies below it by names. -/
def PathFilter.EntersAll (filter : PathFilter) (names : List String) : Prop :=
  ∀ front, front <+: names → front ≠ [] → front ≠ names →
    filter.entersDirectory (.ofNames front) = true

/-- A filter takes what lies below a root by names exactly if it takes the relative path of these
names. -/
theorem PathFilter.takes_below (filter : PathFilter) (root : Path) {names : List String}
    (hnames : ∀ name ∈ names, Path.IsName name) (hne : names ≠ []) :
    filter.takes root (root.below names) = filter.takesFile (.ofNames names) := by
  rw [takes, Path.relativeTo?_below hnames root hne]

namespace Disk

/-- A scan that succeeds is one of a folder. -/
theorem exists_find_of_collect {disk : Disk} {root : Path} {filter : PathFilter}
    {accepts : Path → Bool} {paths : List Path}
    (h : disk.collect root filter accepts = .ok paths) :
    ∃ own entries, disk.find root = .ok (.folder own entries) := by
  unfold collect at h
  cases hfind : disk.find root with
  | error cause =>
      rw [hfind] at h
      cases h
  | ok entry =>
      cases entry with
      | file name bytes =>
          rw [hfind] at h
          cases h
      | folder own entries => exact ⟨own, entries, rfl⟩

/-- There is a file at a path, and names lead to it from a root. -/
structure FileBelow (disk : Disk) (root : Path) (names : List String) (path : Path) : Prop where
  isName : ∀ name ∈ names, Path.IsName name
  eq_below : path = root.below names
  isFile : disk.isFile path = true

/-- A way down is open to a scan if the file at its end is of the right kind, the filter takes it,
and the filter enters every folder before it. -/
theorem isOpen_collect_iff (root : Path) (filter : PathFilter) (accepts : Path → Bool)
    {names : List String} (hnames : ∀ name ∈ names, Path.IsName name) :
    Entry.isOpen
        (fun path => accepts path && filter.takesFile ((path.relativeTo? root).getD path))
        (fun path => filter.entersDirectory ((path.relativeTo? root).getD path)) root names = true ↔
      names ≠ [] ∧ accepts (root.below names) = true ∧ filter.takes root (root.below names) = true ∧
        filter.EntersAll names := by
  have hrelative {more : List String} (hmore : more <+: names) (hne : more ≠ []) :
      ((root.below more).relativeTo? root).getD (root.below more) = .ofNames more := by
    rw [Path.relativeTo?_below (fun name hname => hnames name (hmore.subset hname)) root hne,
      Option.getD_some]
  rw [Entry.isOpen_iff, Bool.and_eq_true, and_assoc]
  refine and_congr_right fun hne => and_congr_right fun _ => ?_
  rw [hrelative List.prefix_rfl hne, filter.takes_below root hnames hne]
  refine and_congr_right fun _ => forall_congr' fun front => ?_
  refine forall_congr' fun hfront => forall_congr' fun hfrontNe => forall_congr' fun _ => ?_
  rw [hrelative hfront hfrontNe]

/-- The components of a path below a root tell the names that lead to it. -/
theorem eq_of_components_below_eq {root : Path} {names others : List String}
    (hnames : ∀ name ∈ names, Path.IsName name) (hothers : ∀ name ∈ others, Path.IsName name)
    (h : (root.below names).components = (root.below others).components) : names = others := by
  rw [Path.components_below hnames, Path.components_below hothers] at h
  refine List.map_injective_iff.mpr ?_ (List.append_cancel_left h)
  exact fun a b heq => Path.Component.normal.inj heq

theorem FileBelow.names_eq {disk : Disk} {root path : Path} {names others : List String}
    (h : disk.FileBelow root names path) (hother : disk.FileBelow root others path) :
    names = others :=
  eq_of_components_below_eq h.isName hother.isName
    (congrArg Path.components (h.eq_below.symm.trans hother.eq_below))

/-- Paths below a root that different names lead to, put in order, are in strictly ascending
order. -/
theorem pairwise_lt_mergeSort (root : Path) {ways : List (List String)} (hnodup : ways.Nodup)
    (hnames : ∀ names ∈ ways, ∀ name ∈ names, Path.IsName name) :
    ((ways.map root.below).mergeSort Path.le).Pairwise
      fun a b => a.le b = true ∧ b.le a = false := by
  have hsorted : ((ways.map root.below).mergeSort Path.le).Pairwise fun a b => a.le b = true :=
    @List.pairwise_mergeSort _ Path.le (fun _ _ _ => Path.le_trans)
      (fun a b => (Bool.or_eq_true _ _).mpr (Path.le_total a b)) _
  have hdistinct : (ways.map root.below).Pairwise fun a b => a.components ≠ b.components := by
    rw [List.pairwise_map]
    exact hnodup.imp_of_mem fun hway hother hne hsame =>
      hne (eq_of_components_below_eq (hnames _ hway) (hnames _ hother) hsame)
  have hdistinct := ((List.mergeSort_perm _ Path.le).pairwise_iff fun h => h.symm).mpr hdistinct
  refine (hsorted.and hdistinct).imp fun {a b} h => ⟨h.1, Bool.eq_false_iff.mpr fun hle => ?_⟩
  exact h.2 (Path.eq_of_componentsLe h.1 hle)

section Scans

variable {disk : Disk} {root : Path} {own : String} {entries : List Entry}
  (hroot : disk.find root = .ok (.folder own entries))

include hroot

theorem find_below {names : List String} (hnames : ∀ name ∈ names, Path.IsName name) :
    disk.find (root.below names) =
      Entry.follow [.folder own entries] (names.map .normal) := by
  unfold find at hroot
  split at hroot
  · cases hroot
  · next hspelled =>
      rw [String.isEmpty_iff] at hspelled
      have hbelow : ¬ (root.below names).text.isEmpty = true := by
        rw [String.isEmpty_iff]
        exact Path.text_below_ne_empty hspelled names
      unfold find
      rw [if_neg hbelow, absolute_below disk root hnames, Entry.follow_append_normals, hroot]

/-- The files below a folder are those to which there is a way down. -/
theorem isFile_below_iff (hsound : Entry.AllSound entries) {names : List String}
    (hnames : ∀ name ∈ names, Path.IsName name) :
    disk.isFile (root.below names) = true ↔ names ∈ Entry.filePathsIn entries := by
  unfold isFile
  rw [find_below hroot hnames]
  constructor
  · intro h
    split at h
    · next entry hentry =>
        cases entry with
        | file name bytes => exact Entry.mem_filePaths_of_follow hentry
        | folder name inside => cases h
    · cases h
  · intro h
    obtain ⟨name, bytes, hfollow⟩ := Entry.follow_of_mem_filePathsIn own hsound h
    rw [hfollow]
    rfl

/-- The root is no file itself. -/
theorem FileBelow.ne_nil {names : List String} {path : Path} (h : disk.FileBelow root names path) :
    names ≠ [] := by
  rintro rfl
  have hfile := h.isFile
  rw [h.eq_below, Disk.isFile, Path.below_nil, hroot] at hfile
  cases hfile

theorem fileBelow_iff (hsound : Entry.AllSound entries) {names : List String} {path : Path} :
    disk.FileBelow root names path ↔
      names ∈ Entry.filePathsIn entries ∧ path = root.below names := by
  constructor
  · rintro ⟨hnames, rfl, hfile⟩
    exact ⟨(isFile_below_iff hroot hsound hnames).mp hfile, rfl⟩
  · rintro ⟨hmem, rfl⟩
    have hnames := Entry.isName_of_mem_filePathsIn hsound hmem
    exact ⟨hnames, rfl, (isFile_below_iff hroot hsound hnames).mpr hmem⟩

variable (filter : PathFilter) (accepts : Path → Bool)

/-- What a scan lists: the ways down to files that are open to it, as paths put in order. -/
theorem collect_of_find :
    disk.collect root filter accepts = .ok
      (((Entry.filePathsIn entries).filter
          (Entry.isOpen (fun path => accepts path &&
              filter.takesFile ((path.relativeTo? root).getD path))
            (fun path => filter.entersDirectory ((path.relativeTo? root).getD path)) root)).map
          root.below |>.mergeSort Path.le) := by
  unfold collect
  simp only [hroot, Entry.collectAll_eq]

section Listed

variable (hsound : Entry.AllSound entries) {paths : List Path}
  (hpaths : disk.collect root filter accepts = .ok paths)

include hsound hpaths

theorem pairwise_of_collect : paths.Pairwise fun a b => a.le b = true ∧ b.le a = false := by
  rw [collect_of_find hroot] at hpaths
  rw [← Except.ok.inj hpaths]
  exact pairwise_lt_mergeSort root ((Entry.nodup_filePathsIn hsound).filter _)
    fun names hmem => Entry.isName_of_mem_filePathsIn hsound (List.mem_of_mem_filter hmem)

theorem mem_iff_of_collect (path : Path) :
    path ∈ paths ↔ ∃ names, disk.FileBelow root names path ∧ accepts path = true ∧
      filter.takes root path = true ∧ filter.EntersAll names := by
  rw [collect_of_find hroot] at hpaths
  rw [← Except.ok.inj hpaths, List.mem_mergeSort, List.mem_map]
  constructor
  · rintro ⟨names, hmem, rfl⟩
    obtain ⟨hway, hopen⟩ := List.mem_filter.mp hmem
    have hbelow := (fileBelow_iff hroot hsound).mpr ⟨hway, rfl⟩
    exact ⟨names, hbelow, ((isOpen_collect_iff root filter accepts hbelow.isName).mp hopen).2⟩
  · rintro ⟨names, hbelow, h⟩
    obtain ⟨hway, rfl⟩ := (fileBelow_iff hroot hsound).mp hbelow
    refine ⟨names, List.mem_filter.mpr ⟨hway, ?_⟩, rfl⟩
    exact (isOpen_collect_iff root filter accepts hbelow.isName).mpr ⟨hbelow.ne_nil hroot, h⟩

/-- Whether a file is listed is a matter of the names that lead to it. -/
theorem FileBelow.mem_iff_of_collect {names : List String} {path : Path}
    (h : disk.FileBelow root names path) :
    path ∈ paths ↔
      accepts path = true ∧ filter.takes root path = true ∧ filter.EntersAll names := by
  rw [Disk.mem_iff_of_collect hroot filter accepts hsound hpaths]
  constructor
  · rintro ⟨others, hothers, hlisted⟩
    rwa [h.names_eq hothers]
  · exact fun hlisted => ⟨names, h, hlisted⟩

end Listed

/-- **A scan is exact.**  A scan of a folder succeeds.  It lists the files below it that are of the
right kind, that the filter takes, and before which the filter enters every folder; the list is in
strictly ascending order. -/
theorem collect_exact (hsound : Entry.AllSound entries) :
    ∃ paths, disk.collect root filter accepts = .ok paths ∧
      paths.Pairwise (fun a b => a.le b = true ∧ b.le a = false) ∧
      ∀ path, path ∈ paths ↔ ∃ names, disk.FileBelow root names path ∧ accepts path = true ∧
        filter.takes root path = true ∧ filter.EntersAll names := by
  have hpaths := collect_of_find hroot filter accepts
  exact ⟨_, hpaths, pairwise_of_collect hroot filter accepts hsound hpaths,
    mem_iff_of_collect hroot filter accepts hsound hpaths⟩

end Scans

/-! ### A folder that is left out -/

namespace Vendored

/-- A script beside a folder with another one. -/
def entries : List Entry :=
  [.folder "vendor" [.file "lib.js" ⟨#[]⟩], .file "main.js" ⟨#[]⟩]

def disk : Disk where
  root := .folder "" [.folder "app" entries]

/-- Leaves out what has a certain name.  What lies below a folder of this name is not mentioned. -/
def filter : PathFilter where
  included := []
  excluded := [⟨"**/vendor", .leading :: "vendor".toList.map .literal⟩]

theorem ofPatterns_eq : PathFilter.ofPatterns [] ["**/vendor"] = .ok filter := rfl

theorem find_root : disk.find ⟨"/app"⟩ = .ok (.folder "app" entries) := rfl

theorem allSound_entries : Entry.AllSound entries := by
  decide

/-- The script in the folder that is left out is not listed. -/
theorem collect_eq :
    disk.collect ⟨"/app"⟩ filter Path.isScript = .ok [⟨"/app/main.js"⟩] := by
  decide +kernel

end Vendored

/-- A root with a folder that is left out. -/
theorem vendored_collect_exact :
    ∃ paths, Vendored.disk.collect ⟨"/app"⟩ Vendored.filter Path.isScript = .ok paths ∧
      paths.Pairwise (fun a b => a.le b = true ∧ b.le a = false) ∧
      ∀ path, path ∈ paths ↔ ∃ names, Vendored.disk.FileBelow ⟨"/app"⟩ names path ∧
        path.isScript = true ∧ Vendored.filter.takes ⟨"/app"⟩ path = true ∧
        Vendored.filter.EntersAll names :=
  collect_exact Vendored.find_root Vendored.filter Path.isScript Vendored.allSound_entries

end Disk
end NgIndex
