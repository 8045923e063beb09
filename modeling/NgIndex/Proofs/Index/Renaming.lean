import NgIndex.Proofs.Index.Membership

/-!
# A rename is a removal and then an addition

An event that renames a file asks for the plan of both paths at once.  Handled as the removal of the
old path and then the addition of the new one, the plans are made one after another, and the second
is made from what the first has left.  Both ways lead to the same contributions and the same list.

Nothing but files that are tracked stands in a cache, whatever refreshes and updates have gone
through it and however their steps were mixed.  So where the new path is not tracked nothing stands
under its key.  This is what the two ways could differ in: an update takes away what is not tracked
any more, unless it is read again for what it watches.
-/

namespace NgIndex

variable {α β : Type}

namespace Cache

/-! ### Caches that can come about -/

/-- Each contribution was read from one of the paths, at one time or another. -/
def ReadFrom (source : Source α β) (root : Path) (paths : List Path)
    (contributions : List (Contribution α)) : Prop :=
  ∀ contribution ∈ contributions, ∃ path ∈ paths, ∃ files : Files,
    contribution = source.read { root, files } path

/-- The caches that refreshes, updates and linking lead to from an empty one.  A refresh that
commits has scanned a disk and read files at times of its own.  An update is made in two steps: a
plan is made from the cache as it was, and carried out on what has become of it.  It is not asked in
which order the steps of several of them come, or whether all that was asked for has been read. -/
inductive Reachable (source : Source α β) (root : Path) (filter : PathFilter) :
    Cache α β → Prop where
  | empty : Reachable source root filter { root, filter }
  | begin {cache : Cache α β} (h : Reachable source root filter cache) :
      Reachable source root filter cache.begin.2
  | commit {cache : Cache α β} (h : Reachable source root filter cache) (set : ControllerSet)
      (number : Nat) {disk : Disk} {paths : List Path} {contributions : List (Contribution α)}
      (hsound : ∀ {own entries}, disk.find root = .ok (.folder own entries) →
        Entry.AllSound entries)
      (hpaths : disk.collect root filter source.accepts = .ok paths)
      (hread : ReadFrom source root paths contributions) :
      Reachable source root filter (cache.commit source set number contributions)
  | relink {cache : Cache α β} (h : Reachable source root filter cache) (set : ControllerSet) :
      Reachable source root filter (cache.relink source set)
  | carryOut {earlier cache : Cache α β} (hearlier : Reachable source root filter earlier)
      (h : Reachable source root filter cache) (set : ControllerSet) (removed touched : List Path)
      {contributions : List (Contribution α)}
      (hread : ReadFrom source root (earlier.plan source removed touched).targets.values
        contributions) :
      Reachable source root filter
        (cache.carryOut source set (earlier.plan source removed touched).removed contributions)

/-- What holds of a cache at any time: it is about the same files, and what stands in it was read
from a file that is tracked and stands under the key of this file. -/
structure Tracked (source : Source α β) (root : Path) (filter : PathFilter)
    (cache : Cache α β) : Prop where
  root_eq : cache.root = root
  filter_eq : cache.filter = filter
  keyed : Keyed cache.contributions
  tracks : ∀ {key contribution}, cache.contributions.get? key = some contribution →
    cache.tracks source contribution.path = true

section Tracked

variable {source : Source α β} {root : Path} {filter : PathFilter} {cache earlier : Cache α β}

theorem Tracked.tracks_eq (h : cache.Tracked source root filter)
    (hearlier : earlier.Tracked source root filter) :
    cache.tracks source = earlier.tracks source :=
  tracks_congr source (h.root_eq.trans hearlier.root_eq.symm)
    (h.filter_eq.trans hearlier.filter_eq.symm)

/-- A plan reads nothing but tracked files. -/
theorem Tracked.tracks_of_mem_targets (h : cache.Tracked source root filter)
    (removed touched : List Path) {path : Path}
    (hpath : path ∈ (cache.plan source removed touched).targets.values) :
    cache.tracks source path = true := by
  obtain ⟨⟨key, found⟩, hfound, rfl⟩ := List.mem_map.mp hpath
  have hget := (ordered_plan_targets source cache removed touched).get?_eq_some_iff.mpr hfound
  rcases plan_targets_cases source h.keyed hget with
    ⟨-, htracked, -⟩ | ⟨-, -, contribution, hheld, hown⟩
  · exact htracked
  · rw [← hown]
    exact h.tracks hheld

theorem Tracked.of_contributions (h : cache.Tracked source root filter) {other : Cache α β}
    (hroot : other.root = cache.root) (hfilter : other.filter = cache.filter)
    (hkeyed : Keyed other.contributions)
    (htracks : ∀ {key contribution}, other.contributions.get? key = some contribution →
      cache.tracks source contribution.path = true) : other.Tracked source root filter where
  root_eq := hroot.trans h.root_eq
  filter_eq := hfilter.trans h.filter_eq
  keyed := hkeyed
  tracks hheld := by
    have hsame := htracks hheld
    rwa [Cache.tracks, ← hroot, ← hfilter] at hsame

theorem Tracked.commit (h : cache.Tracked source root filter) (set : ControllerSet) (number : Nat)
    {contributions : List (Contribution α)}
    (htracks : ∀ contribution ∈ contributions, cache.tracks source contribution.path = true) :
    (cache.commit source set number contributions).Tracked source root filter := by
  unfold Cache.commit
  split
  · exact h
  · exact h.of_contributions rfl rfl (keyed_byKey _)
      fun hheld => htracks _ (mem_of_get?_byKey hheld).1

theorem Tracked.carryOut (h : cache.Tracked source root filter) (set : ControllerSet)
    (removed : List String) {contributions : List (Contribution α)}
    (htracks : ∀ contribution ∈ contributions, cache.tracks source contribution.path = true) :
    (cache.carryOut source set removed contributions).Tracked source root filter := by
  refine h.of_contributions rfl rfl (h.keyed.carryOut source set removed contributions) ?_
  intro key contribution hheld
  rw [get?_carryOut, Option.or_eq_some_iff] at hheld
  rcases hheld with hread | ⟨-, hkept⟩
  · exact htracks _ (mem_of_get?_byKey hread).1
  · split at hkept
    · cases hkept
    · exact h.tracks hkept

end Tracked

/-- Every step keeps to tracked files. -/
theorem Reachable.tracked {source : Source α β} {root : Path} {filter : PathFilter}
    {cache : Cache α β} (h : Reachable source root filter cache) :
    cache.Tracked source root filter := by
  induction h with
  | empty =>
      exact ⟨rfl, rfl, ⟨KeyMap.ordered_empty, fun hheld => nomatch hheld⟩,
        fun hheld => nomatch hheld⟩
  | begin _ ih => exact ih.of_contributions rfl rfl ih.keyed ih.tracks
  | commit _ set number hsound hpaths hread ih =>
      refine ih.commit set number fun contribution hmem => ?_
      obtain ⟨path, hpath, files, rfl⟩ := hread contribution hmem
      obtain ⟨own, entries, hroot⟩ := Disk.exists_find_of_collect hpaths
      have hsound := hsound hroot
      rw [← ih.root_eq] at hroot hpaths
      rw [← ih.filter_eq] at hpaths
      rw [Source.read_path]
      exact tracks_of_mem hroot hsound hpaths hpath
  | relink _ set ih =>
      unfold Cache.relink
      split
      · exact ih.of_contributions rfl rfl ih.keyed ih.tracks
      · exact ih
  | carryOut _ _ set removed touched hread ihEarlier ih =>
      refine ih.carryOut set _ fun contribution hmem => ?_
      obtain ⟨path, hpath, files, rfl⟩ := hread contribution hmem
      rw [Source.read_path, ih.tracks_eq ihEarlier]
      exact ihEarlier.tracks_of_mem_targets removed touched hpath

section Whole

variable {source : Source α β} {root : Path} {filter : PathFilter} {cache : Cache α β}

/-- A refresh by itself is made of these steps. -/
theorem Reachable.refresh (h : Reachable source root filter cache) (set : ControllerSet)
    {files : Files} (hsound : ∀ {own entries}, files.disk.find root = .ok (.folder own entries) →
      Entry.AllSound entries) :
    Reachable source root filter (cache.refresh source set files).2 := by
  cases hscan : files.disk.collect cache.root cache.filter source.accepts with
  | error error =>
      rw [refresh_of_collect_error set hscan]
      exact h.begin
  | ok paths =>
      have hcommit : (cache.refresh source set files).2 = cache.begin.2.commit source set
          cache.begin.1 (paths.map (source.read (cache.scene files))) := by
        simp only [Cache.refresh, Cache.begin, readAll, hscan]
        rfl
      rw [h.tracked.root_eq, h.tracked.filter_eq] at hscan
      rw [hcommit]
      refine h.begin.commit set _ hsound hscan fun contribution hmem => ?_
      obtain ⟨path, hpath, rfl⟩ := List.mem_map.mp hmem
      exact ⟨path, hpath, files, by rw [Cache.scene, h.tracked.root_eq]⟩

/-- An update by itself is made of these steps. -/
theorem Reachable.update (h : Reachable source root filter cache) (set : ControllerSet)
    (files : Files) (removed touched : List Path) :
    Reachable source root filter (cache.update source set files removed touched).2 := by
  unfold Cache.update
  split
  · exact h
  · dsimp only
    split
    · exact h
    · refine h.carryOut h set removed touched fun contribution hmem => ?_
      obtain ⟨path, hpath, rfl⟩ := List.mem_map.mp hmem
      exact ⟨path, hpath, files, by rw [Cache.scene, h.tracked.root_eq]⟩

end Whole

/-! ### Paths that are no concern of a cache -/

/-- A cache has nothing to do with a path: nothing stands under its key, and no file watches it. -/
structure Unconcerned (cache : Cache α β) (path : Path) : Prop where
  unknown : cache.contributions.get? path.key = none
  unwatched : ∀ {key contribution}, cache.contributions.get? key = some contribution →
    path.key ∉ contribution.watched

theorem any_contains_keys_eq_false_iff {watched : List String} {paths : List Path} :
    watched.any (paths.map Path.key).contains = false ↔ ∀ path ∈ paths, path.key ∉ watched := by
  rw [List.any_eq_false]
  constructor
  · intro h path hpath hmem
    exact h path.key hmem (List.contains_iff_mem.mpr (List.mem_map.mpr ⟨path, hpath, rfl⟩))
  · intro h key hkey hcontains
    obtain ⟨path, hpath, rfl⟩ := List.mem_map.mp (List.contains_iff_mem.mp hcontains)
    exact h path hpath hkey

/-- A plan that asks for nothing is one in which nothing can be looked up. -/
theorem plan_isEmpty_iff_get? {source : Source α β} {cache : Cache α β}
    {removed touched : List Path} :
    (cache.plan source removed touched).isEmpty = true ↔
      ∀ key, (cache.plan source removed touched).targets.get? key = none ∧
        key ∉ (cache.plan source removed touched).removed := by
  constructor
  · intro h key
    obtain ⟨htargets, hremoved⟩ := Plan.eq_empty_of_isEmpty h
    rw [htargets, hremoved]
    exact ⟨rfl, List.not_mem_nil⟩
  · intro h
    have htargets : (cache.plan source removed touched).targets = {} :=
      (ordered_plan_targets source cache removed touched).ext KeyMap.ordered_empty
        fun key => (h key).1
    have hremoved : (cache.plan source removed touched).removed = [] :=
      List.eq_nil_iff_forall_not_mem.mpr fun key => (h key).2
    rw [Plan.isEmpty, htargets, hremoved]
    rfl

/-- A cache has nothing to do with an event: no changed file is tracked, and none of the paths is of
any concern. -/
def Idle (source : Source α β) (cache : Cache α β) (removed touched : List Path) : Prop :=
  (∀ path ∈ touched, cache.tracks source path = false) ∧
    ∀ path ∈ removed ++ touched, cache.Unconcerned path

/-- A plan asks for nothing exactly if the cache has nothing to do with the event. -/
theorem plan_isEmpty_iff {source : Source α β} {cache : Cache α β}
    (hkeyed : Keyed cache.contributions) {removed touched : List Path} :
    (cache.plan source removed touched).isEmpty = true ↔ cache.Idle source removed touched := by
  simp only [plan_isEmpty_iff_get?, plan_leaves_iff source hkeyed]
  constructor
  · intro h
    refine ⟨fun path hpath => (h path.key).1 path hpath rfl, fun path hpath => ⟨?_, ?_⟩⟩
    · exact (h path.key).2.1 (List.mem_map.mpr ⟨path, hpath, rfl⟩)
    · intro key contribution hheld
      exact any_contains_keys_eq_false_iff.mp ((h key).2.2 contribution hheld) path hpath
  · rintro ⟨huntracked, hpaths⟩ key
    refine ⟨fun path hpath _ => huntracked path hpath, fun hkey => ?_, fun contribution hheld => ?_⟩
    · obtain ⟨path, hpath, rfl⟩ := List.mem_map.mp hkey
      exact (hpaths path hpath).unknown
    · exact any_contains_keys_eq_false_iff.mpr fun path hpath => (hpaths path hpath).unwatched hheld

theorem idle_iff {source : Source α β} {cache : Cache α β} {removed touched : List Path} :
    cache.Idle source removed touched ↔
      cache.Idle source removed [] ∧ cache.Idle source [] touched := by
  unfold Idle
  constructor
  · rintro ⟨huntracked, hpaths⟩
    obtain ⟨hremoved, htouched⟩ := List.forall_mem_append.mp hpaths
    exact ⟨⟨fun _ hpath => (nomatch hpath), by rwa [List.append_nil]⟩, huntracked, htouched⟩
  · rintro ⟨⟨-, hremoved⟩, huntracked, htouched⟩
    rw [List.append_nil] at hremoved
    exact ⟨huntracked, List.forall_mem_append.mpr ⟨hremoved, htouched⟩⟩

/-- An update either has nothing to do, or it lists what the contributions give. -/
theorem update_idle_or_listed (source : Source α β) (set : ControllerSet) (files : Files)
    (removed touched : List Path) {cache : Cache α β} (hpopulated : cache.populated = true)
    (hkeyed : Keyed cache.contributions) :
    (cache.Idle source removed touched ∧
      (cache.update source set files removed touched).2 = cache) ∨
    (¬ cache.Idle source removed touched ∧
      (cache.update source set files removed touched).2.Current source set) := by
  rw [← plan_isEmpty_iff hkeyed, update_eq_of_populated source set files removed touched hpopulated]
  by_cases hempty : (cache.plan source removed touched).isEmpty = true
  · rw [if_pos hempty]
    exact .inl ⟨hempty, rfl⟩
  · rw [if_neg hempty]
    exact .inr ⟨hempty, hpopulated, hkeyed.carryOut _ _ _ _, rfl⟩

/-! ### The two ways of a rename -/

theorem any_contains_append (watched keys others : List String) :
    watched.any (keys ++ others).contains =
      (watched.any keys.contains || watched.any others.contains) := by
  rw [Bool.eq_iff_iff, Bool.or_eq_true, List.any_eq_true, List.any_eq_true, List.any_eq_true]
  simp only [List.contains_append, Bool.or_eq_true, and_or_left, exists_or]

section Renames

variable {source : Source α β} (set : ControllerSet) (files : Files) {root : Path}
  {filter : PathFilter} {cache : Cache α β} (htracked : cache.Tracked source root filter)
  (hpopulated : cache.populated = true) (old : Path) {new : Path}
  (hspelled : ∀ key contribution, cache.contributions.get? key = some contribution →
    contribution.path.key = new.key → contribution.path = new)

include htracked hspelled

/-- Where a path is not tracked nothing stands under its key. -/
theorem Tracked.get?_eq_none (hnot : cache.tracks source new = false) :
    cache.contributions.get? new.key = none := by
  cases hheld : cache.contributions.get? new.key with
  | none => rfl
  | some contribution =>
      have hsame := hspelled _ _ hheld (htracked.keyed.key_eq hheld)
      have htracks := htracked.tracks hheld
      rw [hsame, hnot] at htracks
      cases htracks

include hpopulated

/-- Under the new key stands what is read from the new path if it is tracked, and nothing
otherwise. -/
theorem get?_rename_new :
    (cache.update source set files [old] [new]).2.contributions.get? new.key =
      ((cache.update source set files [old] []).2.update source set files [] [new]
        ).2.contributions.get? new.key := by
  have hkeyed := htracked.keyed
  have hkeyedNext := hkeyed.update source set files [old] []
  have hpopulatedNext : (cache.update source set files [old] []).2.populated = true :=
    (populated_update source set files [old] [] cache).trans hpopulated
  have htracks := congrFun (tracks_update source set files [old] [] cache) new
  cases hnewTracked : cache.tracks source new with
  | true =>
      rw [hnewTracked] at htracks
      rw [get?_update_of_tracked source set files hpopulated hkeyed List.mem_cons_self
          hnewTracked (by simp),
        get?_update_of_tracked source set files hpopulatedNext hkeyedNext List.mem_cons_self
          htracks (by simp), scene_update]
  | false =>
      rw [hnewTracked] at htracks
      have hnone := htracked.get?_eq_none hspelled hnewTracked
      have hnoneNext :
          (cache.update source set files [old] []).2.contributions.get? new.key = none :=
        get?_update_of_untracked source set files hpopulated hkeyed (by simp) (.inr hnone)
      rw [get?_update_of_untracked source set files hpopulated hkeyed
          (by simp [hnewTracked]) (.inr hnone),
        get?_update_of_untracked source set files hpopulatedNext hkeyedNext
          (by simp [htracks]) (.inr hnoneNext)]

omit hspelled in
/-- Under any other key, the old one included, both ways remove or read again the same. -/
theorem get?_rename_of_ne {key : String} (hnew : key ≠ new.key) :
    (cache.update source set files [old] [new]).2.contributions.get? key =
      ((cache.update source set files [old] []).2.update source set files [] [new]
        ).2.contributions.get? key := by
  have hkeyed := htracked.keyed
  have hkeyedNext := hkeyed.update source set files [old] []
  have hpopulatedNext : (cache.update source set files [old] []).2.populated = true :=
    (populated_update source set files [old] [] cache).trans hpopulated
  have hnotNew : key ∉ ([] ++ [new]).map Path.key := by
    simpa using hnew
  rw [get?_update_of_not_named source set files hpopulatedNext hkeyedNext hnotNew, scene_update]
  by_cases hold : key = old.key
  · -- The old path goes in either way, and then no event names it any more.
    have hgone : key ∈ [old].map Path.key := by
      simp [hold]
    rw [get?_update_of_untracked source set files hpopulated hkeyed
        (by simp [Ne.symm hnew]) (.inl hgone),
      get?_update_of_untracked source set files hpopulated hkeyed (by simp) (.inl hgone)]
    rfl
  · rw [get?_update_of_not_named source set files hpopulated hkeyed (by simp [hold, hnew]),
      get?_update_of_not_named source set files hpopulated hkeyed (by simp [hold]),
      Option.map_map]
    congr 1
    funext contribution
    -- A file that watches the old path has been read again under its own path, and reading it
    -- once more gives the same.
    rw [List.append_nil, List.nil_append, Function.comp_apply, List.map_append,
      any_contains_append]
    by_cases hwatch : contribution.watched.any ([old].map Path.key).contains = true
    · rw [hwatch, Bool.true_or, if_pos rfl, Source.read_path, ite_self]
    · rw [Bool.eq_false_of_not_eq_true hwatch, Bool.false_or, if_neg Bool.false_ne_true]

/-- Under each key stands the same in the end. -/
theorem get?_rename (key : String) :
    (cache.update source set files [old] [new]).2.contributions.get? key =
      ((cache.update source set files [old] []).2.update source set files [] [new]
        ).2.contributions.get? key := by
  by_cases hnew : key = new.key
  · rw [hnew]
    exact get?_rename_new set files htracked hpopulated old hspelled
  · exact get?_rename_of_ne set files htracked hpopulated old hnew

theorem contributions_rename :
    (cache.update source set files [old] [new]).2.contributions =
      ((cache.update source set files [old] []).2.update source set files [] [new]
        ).2.contributions := by
  have hkeyed := htracked.keyed
  refine (hkeyed.update source set files [old] [new]).ordered.ext ?_ ?_
  · exact ((hkeyed.update source set files [old] []).update source set files [] [new]).ordered
  · exact get?_rename set files htracked hpopulated old hspelled

/-- The list is the same in the end, also where it was out of date before. -/
theorem snapshot_rename :
    (cache.update source set files [old] [new]).2.snapshot =
      ((cache.update source set files [old] []).2.update source set files [] [new]
        ).2.snapshot := by
  have hkeyed := htracked.keyed
  have hsame := contributions_rename set files htracked hpopulated old hspelled
  have hpopulatedNext : (cache.update source set files [old] []).2.populated = true :=
    (populated_update source set files [old] [] cache).trans hpopulated
  have hkeyedNext := hkeyed.update source set files [old] []
  rcases update_idle_or_listed source set files [old] [new] hpopulated hkeyed with
    ⟨hidle, hrenamed⟩ | ⟨hbusy, hrenamed⟩
  · obtain ⟨hidleOld, hidleNew⟩ := idle_iff.mp hidle
    have hdeleted : (cache.update source set files [old] []).2 = cache := by
      rcases update_idle_or_listed source set files [old] [] hpopulated hkeyed with
        ⟨-, h⟩ | ⟨hbusyOld, -⟩
      · exact h
      · exact absurd hidleOld hbusyOld
    have hadded : (cache.update source set files [] [new]).2 = cache := by
      rcases update_idle_or_listed source set files [] [new] hpopulated hkeyed with
        ⟨-, h⟩ | ⟨hbusyNew, -⟩
      · exact h
      · exact absurd hidleNew hbusyNew
    rw [hrenamed, hdeleted, hadded]
  · rcases update_idle_or_listed source set files [] [new] hpopulatedNext hkeyedNext with
      ⟨hidleNew, hadded⟩ | ⟨-, hadded⟩
    · rcases update_idle_or_listed source set files [old] [] hpopulated hkeyed with
        ⟨hidleOld, hdeleted⟩ | ⟨-, hdeleted⟩
      · rw [hdeleted] at hidleNew
        exact absurd (idle_iff.mpr ⟨hidleOld, hidleNew⟩) hbusy
      · rw [hrenamed.snapshot_eq, hsame, hadded, hdeleted.snapshot_eq]
    · rw [hrenamed.snapshot_eq, hsame, hadded.snapshot_eq]

end Renames

end Cache

/-- **A rename is a removal and then an addition.**  In a filled cache, however it came about, the
event that renames a file leaves the same contributions and the same list as the removal of the old
path followed by the addition of the new one, if what stands under the key of the new path was read
from the path as it is spelled there. -/
theorem rename_is_delete_then_add (source : Source α β) {root : Path} {filter : PathFilter}
    {cache : Cache α β} (hreachable : Cache.Reachable source root filter cache)
    (hpopulated : cache.populated = true) (set : ControllerSet) (files : Files) (old new : Path)
    (hspelled : ∀ key contribution, cache.contributions.get? key = some contribution →
      contribution.path.key = new.key → contribution.path = new) :
    let renamed := (Project.apply source set files (.renamed old new) cache).2
    let deleted := (Project.apply source set files (.deleted old) cache).2
    let added := (Project.apply source set files (.added new) deleted).2
    renamed.contributions = added.contributions ∧ renamed.snapshot = added.snapshot := by
  have htracked := hreachable.tracked
  exact ⟨Cache.contributions_rename set files htracked hpopulated old hspelled,
    Cache.snapshot_rename set files htracked hpopulated old hspelled⟩

namespace Quoting

/-- The two files after the first refresh. -/
def scanned : Cache String String :=
  (cache.refresh source {} (files "/app/b.txt")).2

theorem reachable_scanned : Cache.Reachable source cache.root cache.filter scanned := by
  refine Cache.Reachable.empty.refresh {} fun {own entries} hroot => ?_
  have hentries : (Except.ok (Entry.folder "app" [.file "a.txt" "/app/b.txt".toUTF8,
      .file "b.txt" "/app/b.txt".toUTF8]) : Except ReadError Entry) = .ok (.folder own entries) :=
    hroot
  obtain ⟨-, rfl⟩ := Entry.folder.inj (Except.ok.inj hentries)
  decide

end Quoting

/-- The file that is quoted takes the place of the one that quotes it. -/
theorem quoting_rename_is_delete_then_add :
    let renamed := (Project.apply Quoting.source {} (Quoting.files "/app/b.txt")
      (.renamed ⟨"/app/b.txt"⟩ ⟨"/app/a.txt"⟩) Quoting.scanned).2
    let deleted := (Project.apply Quoting.source {} (Quoting.files "/app/b.txt")
      (.deleted ⟨"/app/b.txt"⟩) Quoting.scanned).2
    let added := (Project.apply Quoting.source {} (Quoting.files "/app/b.txt")
      (.added ⟨"/app/a.txt"⟩) deleted).2
    renamed.contributions = added.contributions ∧ renamed.snapshot = added.snapshot := by
  obtain ⟨hfound, hcurrent, -, -⟩ := Cache.refresh_of_collect {} (Quoting.collect_files _)
  refine rename_is_delete_then_add Quoting.source Quoting.reachable_scanned hcurrent.populated {} _
    _ _ fun key contribution hheld hkey => ?_
  rw [Quoting.scanned, hfound] at hheld
  obtain ⟨path, hpath, -, rfl⟩ := Cache.mem_of_get?_found hheld
  rw [Source.read_path] at hkey ⊢
  have hspelled : ∀ path ∈ Quoting.paths, path.key = (Path.mk "/app/a.txt").key →
      path = ⟨"/app/a.txt"⟩ := by
    decide
  exact hspelled path hpath hkey

end NgIndex
