import NgIndex.Index.Sources
import NgIndex.Proofs.Index.Convergence
import NgIndex.Proofs.Scan

/-!
# Which files take part

A scan tests every folder on the way to a file, an event tests the file alone.  So a file that
events take in is found by a scan exactly if every folder before it is entered.  Where a pattern
leaves out a folder but says nothing of what lies below it, an event puts the files below it into a
cache, and the next refresh takes them out again.
-/

namespace NgIndex

variable {α β : Type}

namespace Cache

section Scanned

variable {source : Source α β} {disk : Disk} {cache : Cache α β} {own : String}
  {entries : List Entry} (hroot : disk.find cache.root = .ok (.folder own entries))
  (hsound : Entry.AllSound entries) {paths : List Path}
  (hpaths : disk.collect cache.root cache.filter source.accepts = .ok paths)

include hroot hsound hpaths

/-- A scan lists a file that is tracked if every folder before it is entered, and no other file. -/
theorem mem_iff_tracked_and_entered {names : List String} {path : Path}
    (hpath : disk.FileBelow cache.root names path) :
    path ∈ paths ↔ cache.tracks source path = true ∧ cache.filter.EntersAll names := by
  rw [hpath.mem_iff_of_collect hroot cache.filter source.accepts hsound hpaths, tracks,
    Bool.and_eq_true, and_assoc]

/-- Whatever a scan lists is tracked. -/
theorem tracks_of_mem {path : Path} (hpath : path ∈ paths) :
    cache.tracks source path = true := by
  obtain ⟨names, hbelow, -⟩ :=
    (Disk.mem_iff_of_collect hroot cache.filter source.accepts hsound hpaths path).mp hpath
  exact ((mem_iff_tracked_and_entered hroot hsound hpaths hbelow).mp hpath).1

end Scanned

section Events

variable {source : Source α β} (set : ControllerSet) {files : Files} {cache : Cache α β}

/-- After an event on a file something stands under the same keys as before, but for that of the
file. -/
theorem contains_apply_of_ne {event : FileEvent} {path : Path}
    (hevent : event = .added path ∨ event = .changed path) (hcurrent : cache.Current source set)
    {key : String} (hkey : key ≠ path.key) :
    (Project.apply source set files event cache).2.contributions.contains key =
      cache.contributions.contains key := by
  have hnamed : key ∉ (event.removed ++ event.touched).map Path.key := by
    rcases hevent with rfl | rfl
    · simpa [FileEvent.removed, FileEvent.touched] using hkey
    · simpa [FileEvent.removed, FileEvent.touched] using hkey
  rw [KeyMap.contains_eq_isSome_get?, KeyMap.contains_eq_isSome_get?, Project.apply,
    get?_update_of_not_named source set files hcurrent.populated hcurrent.keyed hnamed,
    Option.isSome_map]

/-- After an event on a file that is tracked something stands under its key; and after one on a file
that is not, nothing does unless something did before. -/
theorem contains_apply_key {event : FileEvent} {path : Path}
    (hevent : event = .added path ∨ event = .changed path) (hcurrent : cache.Current source set)
    (hknown : cache.contributions.contains path.key = true → cache.tracks source path = true) :
    (Project.apply source set files event cache).2.contributions.contains path.key =
      cache.tracks source path := by
  have htouched : event.touched = [path] := by
    rcases hevent with rfl | rfl
    · rfl
    · rfl
  rw [KeyMap.contains_eq_isSome_get?, Project.apply]
  cases htracked : cache.tracks source path with
  | true =>
      rw [get?_update_of_tracked source set files hcurrent.populated hcurrent.keyed
        (by simp [htouched]) htracked (by simp [htouched])]
      rfl
  | false =>
      have hnone : cache.contributions.get? path.key = none := by
        rw [← Option.isNone_iff_eq_none, ← Option.not_isSome, ← KeyMap.contains_eq_isSome_get?]
        simp_all
      rw [get?_update_of_untracked source set files hcurrent.populated hcurrent.keyed
        (by simp [htouched, htracked]) (.inr hnone)]
      rfl

/-- The keys of what a refresh finds are those of the listed files. -/
theorem contains_found_iff (source : Source α β) (root : Path) (files : Files)
    {paths : List Path} {path : Path}
    (hdistinct : ∀ other ∈ paths, other.key = path.key → other = path) :
    (found source root files paths).contains path.key = true ↔ path ∈ paths := by
  rw [KeyMap.contains_eq_isSome_get?]
  constructor
  · intro h
    obtain ⟨contribution, hget⟩ := Option.isSome_iff_exists.mp h
    obtain ⟨other, hother, hkey, -⟩ := mem_of_get?_found hget
    exact hdistinct other hother hkey ▸ hother
  · intro hmem
    rw [get?_found_of_mem source root files hmem hdistinct]
    rfl

/-- An event on a file and a refresh after it agree on which files take part exactly if the file is
listed or not tracked. -/
theorem contains_apply_eq_iff {paths : List Path}
    (hpaths : files.disk.collect cache.root cache.filter source.accepts = .ok paths)
    {path : Path} (hlisted : path ∈ paths → cache.tracks source path = true)
    (hdistinct : ∀ other ∈ paths, other.key = path.key → other = path) {event : FileEvent}
    (hevent : event = .added path ∨ event = .changed path) :
    let refreshed := (cache.refresh source set files).2
    let after := (Project.apply source set files event refreshed).2
    let again := (after.refresh source set files).2
    (∀ key, after.contributions.contains key = again.contributions.contains key) ↔
      (cache.tracks source path = true → path ∈ paths) := by
  intro refreshed after again
  obtain ⟨hfound, hcurrent, hroot, hfilter⟩ := refresh_of_collect set hpaths
  obtain ⟨hrootAfter, hfilterAfter⟩ :=
    update_root_filter source set files event.removed event.touched refreshed
  have htracks : refreshed.tracks source path = cache.tracks source path :=
    congrFun (tracks_congr source hroot hfilter) path
  have hagain : again.contributions = found source cache.root files paths := by
    have hpathsAfter : files.disk.collect after.root after.filter source.accepts = .ok paths := by
      simp only [after, Project.apply, hrootAfter, hfilterAfter, refreshed, hroot, hfilter, hpaths]
    rw [(refresh_of_collect set hpathsAfter).1]
    simp only [after, Project.apply, hrootAfter, refreshed, hroot]
  have hknown : refreshed.contributions.contains path.key = true →
      refreshed.tracks source path = true := by
    rw [htracks, hfound, contains_found_iff source cache.root files hdistinct]
    exact hlisted
  have hkey : after.contributions.contains path.key = cache.tracks source path := by
    rw [← htracks]
    exact contains_apply_key set hevent hcurrent hknown
  rw [hagain]
  -- The event leaves all other keys alone, so only the key of the file counts.
  constructor
  · intro hall htracked
    rw [← contains_found_iff source cache.root files hdistinct, ← hall, hkey, htracked]
  · intro h key
    by_cases hsame : key = path.key
    · subst hsame
      rw [hkey, Bool.eq_iff_iff, contains_found_iff source cache.root files hdistinct]
      exact ⟨h, hlisted⟩
    · rw [contains_apply_of_ne set hevent hcurrent hsame, hfound]

end Events

end Cache

/-- **Scans and events agree where every folder is entered.**  Of the files below the root a scan
lists those that are tracked and before which every folder is entered.  So it agrees with events on
a file, and a refresh after an event on the file changes nothing about which files take part,
exactly if the file is not tracked or every folder before it is entered. -/
theorem scan_agrees_with_events_iff_entered (source : Source α β) (set : ControllerSet)
    (files : Files) (cache : Cache α β) {own : String} {entries : List Entry}
    (hroot : files.disk.find cache.root = .ok (.folder own entries))
    (hsound : Entry.AllSound entries) :
    ∃ paths, files.disk.collect cache.root cache.filter source.accepts = .ok paths ∧
      ∀ names path, files.disk.FileBelow cache.root names path →
        (path ∈ paths ↔ cache.tracks source path = true ∧ cache.filter.EntersAll names) ∧
        ((path ∈ paths ↔ cache.tracks source path = true) ↔
          (cache.tracks source path = true → cache.filter.EntersAll names)) ∧
        ((∀ other ∈ paths, other.key = path.key → other = path) →
          ∀ event, event = .added path ∨ event = .changed path →
            let refreshed := (cache.refresh source set files).2
            let after := (Project.apply source set files event refreshed).2
            let again := (after.refresh source set files).2
            (∀ key, after.contributions.contains key = again.contributions.contains key) ↔
              (cache.tracks source path = true → cache.filter.EntersAll names)) := by
  have hpaths := Disk.collect_of_find hroot cache.filter source.accepts
  refine ⟨_, hpaths, fun names path hpath => ?_⟩
  have hmem := Cache.mem_iff_tracked_and_entered hroot hsound hpaths hpath
  refine ⟨hmem, by rw [hmem]; tauto, fun hdistinct event hevent => ?_⟩
  have hevents := Cache.contains_apply_eq_iff set hpaths (fun hlisted => (hmem.mp hlisted).1)
    hdistinct hevent
  intro refreshed after again
  refine hevents.trans ?_
  rw [hmem]
  tauto

/-! ### A folder that is left out -/

namespace Vendored

def files : Files where
  disk := Disk.Vendored.disk

def cache : Cache Component Component where
  root := ⟨"/app"⟩
  filter := Disk.Vendored.filter

/-- The script beside the folder. -/
def main : Path :=
  ⟨"/app/main.js"⟩

/-- The script in the folder. -/
def lib : Path :=
  ⟨"/app/vendor/lib.js"⟩

theorem collect_eq :
    files.disk.collect cache.root cache.filter Source.components.accepts = .ok [main] :=
  Disk.Vendored.collect_eq

theorem main_fileBelow : files.disk.FileBelow cache.root ["main.js"] main :=
  ⟨by decide, rfl, rfl⟩

theorem lib_fileBelow : files.disk.FileBelow cache.root ["vendor", "lib.js"] lib :=
  ⟨by decide, rfl, rfl⟩

theorem lib_tracked : cache.tracks Source.components lib = true := by
  decide +kernel

end Vendored

/-- No folder stands before the script beside the folder, so an event on it changes nothing. -/
theorem vendored_scan_agrees_with_events :
    ∃ paths, Vendored.files.disk.collect Vendored.cache.root Vendored.cache.filter
        Source.components.accepts = .ok paths ∧ Vendored.main ∈ paths ∧
      ∀ set,
        let refreshed := (Vendored.cache.refresh Source.components set Vendored.files).2
        let after :=
          (Project.apply Source.components set Vendored.files (.changed Vendored.main) refreshed).2
        let again := (after.refresh Source.components set Vendored.files).2
        ∀ key, after.contributions.contains key = again.contributions.contains key := by
  have hentered : Vendored.cache.filter.EntersAll ["main.js"] := by
    intro front hfront hne hnot
    rcases List.prefix_cons_iff.mp hfront with hnil | ⟨tail, rfl, htail⟩
    · exact absurd hnil hne
    · exact absurd (by rw [List.prefix_nil.mp htail]) hnot
  refine ⟨_, Vendored.collect_eq, List.mem_singleton_self _, fun set => ?_⟩
  obtain ⟨paths, hpaths, hall⟩ := scan_agrees_with_events_iff_entered Source.components set
    Vendored.files Vendored.cache Disk.Vendored.find_root Disk.Vendored.allSound_entries
  obtain rfl := Except.ok.inj (hpaths.symm.trans Vendored.collect_eq)
  obtain ⟨-, -, hevents⟩ := hall _ _ Vendored.main_fileBelow
  refine (hevents ?_ _ (.inr rfl)).mpr fun _ => hentered
  exact fun other hother _ => List.mem_singleton.mp hother

/-- The script in the folder is tracked, but a scan does not find it.  An event puts it into the
cache, and the next refresh takes it out again. -/
theorem vendored_scan_disagrees_with_events :
    PathFilter.ofPatterns [] ["**/vendor"] = .ok Vendored.cache.filter ∧
      Vendored.files.disk.FileBelow Vendored.cache.root ["vendor", "lib.js"] Vendored.lib ∧
      Vendored.files.disk.collect Vendored.cache.root Vendored.cache.filter
        Source.components.accepts = .ok [Vendored.main] ∧
      Vendored.lib ∉ [Vendored.main] ∧
      Vendored.cache.tracks Source.components Vendored.lib = true ∧
      ∀ event, event = .added Vendored.lib ∨ event = .changed Vendored.lib →
        let refreshed := (Vendored.cache.refresh Source.components {} Vendored.files).2
        let after := (Project.apply Source.components {} Vendored.files event refreshed).2
        let again := (after.refresh Source.components {} Vendored.files).2
        ¬ ∀ key, after.contributions.contains key = again.contributions.contains key := by
  have hnot : Vendored.lib ∉ [Vendored.main] := by
    decide
  refine ⟨Disk.Vendored.ofPatterns_eq, Vendored.lib_fileBelow, Vendored.collect_eq, hnot,
    Vendored.lib_tracked, fun event hevent => ?_⟩
  intro refreshed after again hall
  have hdistinct : ∀ other ∈ [Vendored.main], other.key = Vendored.lib.key →
      other = Vendored.lib := by
    decide
  exact hnot ((Cache.contains_apply_eq_iff {} Vendored.collect_eq (fun h => absurd h hnot)
    hdistinct hevent).mp hall Vendored.lib_tracked)

end NgIndex
