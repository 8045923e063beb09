import NgIndex.Index.Project
import NgIndex.Proofs.Files
import NgIndex.Proofs.Index.Update

/-!
# Events lead where a refresh leads

A cache that was filled from one state of the files is told, event by event, what has changed since.
If the events name every change, then in the end the cache holds what a refresh would put into it,
whatever the order of the events and however often each of them comes.

This rests on a source that watches what it reads: the contribution of a file is the same as long as
nothing changes at the file itself and at the paths that it watches.  While only some of the events
have been handled, each key holds what the first refresh put there or what a second one would; it
still holds the former only if none of the events so far names a path that its file watches.
-/

namespace NgIndex

variable {α β : Type}

/-- What a source reads from a file depends on nothing but what stands at the file and at the paths
that it says it watches. -/
def Source.IsLocal (source : Source α β) : Prop :=
  ∀ (root path : Path) (files other : Files) (text : String),
    files.read path = .ok text →
    other.content? path = files.content? path →
    (∀ watched : Path, watched.key ∈ (source.parse { root, files } path text).watched →
      other.content? watched = files.content? watched) →
    source.parse { root, files := other } path text = source.parse { root, files } path text

theorem Source.IsLocal.read_eq {source : Source α β} (hlocal : source.IsLocal) {root path : Path}
    {files other : Files} (hpath : other.content? path = files.content? path)
    (hwatched : ∀ watched : Path, watched.key ∈ (source.read { root, files } path).watched →
      other.content? watched = files.content? watched) :
    source.read { root, files := other } path = source.read { root, files } path := by
  unfold Source.read at hwatched ⊢
  rcases Files.read_eq_or_error hpath with ⟨text, hread, hother⟩ | ⟨e, e', hread, hother⟩
  · simp only [hread, hother] at hwatched ⊢
    rw [hlocal root path files other text hread hpath hwatched]
  · simp only [hread, hother]

/-- The keys of the paths that an event names. -/
def FileEvent.keys (event : FileEvent) : List String :=
  (event.removed ++ event.touched).map Path.key

namespace Cache

/-- The files that were there at two scans, and the paths that events name. -/
def involved (before after : List Path) (events : List FileEvent) : List Path :=
  before ++ after ++ events.flatMap fun event => event.removed ++ event.touched

/-- Events that report how the files have changed.  `before` and `after` are the files that the two
scans find, and `watched` gives the keys that a file of the first scan watches. -/
structure Reports (tracks : Path → Bool) (watched : Path → List String) (old new : Files)
    (before after : List Path) (events : List FileEvent) : Prop where
  /-- A change at a file of either scan, or at a path that is watched, is named. -/
  named : ∀ path : Path,
    (path ∈ before ∨ path ∈ after ∨ ∃ reader ∈ before, path.key ∈ watched reader) →
    new.content? path ≠ old.content? path → ∃ event ∈ events, path.key ∈ event.keys
  /-- What is said to be new or changed is there. -/
  present : ∀ event ∈ events, ∀ path ∈ event.touched, new.contains path = true
  /-- What is said to be gone is not there. -/
  absent : ∀ event ∈ events, ∀ path ∈ event.removed, new.contains path = false
  /-- Distinct paths have distinct keys. -/
  distinct : ∀ path ∈ involved before after events, ∀ other ∈ involved before after events,
    path.key = other.key → path = other
  /-- The first scan finds the files that are tracked. -/
  scanned_before : ∀ path ∈ involved before after events,
    path ∈ before ↔ tracks path = true ∧ old.contains path = true
  /-- The second scan finds the files that are tracked. -/
  scanned_after : ∀ path ∈ involved before after events,
    path ∈ after ↔ tracks path = true ∧ new.contains path = true

theorem mem_involved_iff {before after : List Path} {events : List FileEvent} {path : Path} :
    path ∈ involved before after events ↔
      path ∈ before ∨ path ∈ after ∨
        ∃ event ∈ events, path ∈ event.removed ∨ path ∈ event.touched := by
  simp [involved]

/-- Where a cache stands after some of the events.  A key that an event has named holds what the
second refresh gives.  Any other key holds what the first one gave as long as no event has named a
path that its file watches, or else the file has been read again. -/
def Halfway (reread : Path → Contribution α) (first second : KeyMap (Contribution α))
    (done : List FileEvent) (now : KeyMap (Contribution α)) : Prop :=
  ∀ key : String,
    ((∃ event ∈ done, key ∈ event.keys) → now.get? key = second.get? key) ∧
    ((∀ event ∈ done, key ∉ event.keys) →
      (now.get? key = first.get? key ∧
        ∀ contribution, first.get? key = some contribution →
          ∀ event ∈ done, ∀ watched ∈ contribution.watched, watched ∉ event.keys) ∨
      (∃ contribution, first.get? key = some contribution ∧
        now.get? key = some (reread contribution.path)))

section

variable {source : Source α β} {set : ControllerSet} {root : Path} {filter : PathFilter}
  {old new : Files} {before after : List Path} {events : List FileEvent}

/-- The contributions that a refresh finds. -/
def found (source : Source α β) (root : Path) (files : Files) (paths : List Path) :
    KeyMap (Contribution α) :=
  byKey (paths.map (source.read { root, files }))

theorem get?_found_of_mem (source : Source α β) (root : Path) (files : Files)
    {paths : List Path} {path : Path} (hmem : path ∈ paths)
    (hdistinct : ∀ other ∈ paths, other.key = path.key → other = path) :
    (found source root files paths).get? path.key = some (source.read { root, files } path) := by
  have hread := List.mem_map.mpr ⟨path, hmem, (rfl : source.read { root, files } path = _)⟩
  have hunique : ∀ other ∈ paths.map (source.read { root, files }),
      other.path.key = (source.read { root, files } path).path.key →
        other = source.read { root, files } path := by
    intro other hother hkey
    obtain ⟨found, hfound, rfl⟩ := List.mem_map.mp hother
    rw [Source.read_path, Source.read_path] at hkey
    rw [hdistinct found hfound hkey]
  have hget := get?_byKey_of_mem hread hunique
  rw [Source.read_path] at hget
  exact hget

theorem mem_of_get?_found {files : Files} {paths : List Path} {key : String}
    {contribution : Contribution α}
    (h : (found source root files paths).get? key = some contribution) :
    ∃ path ∈ paths, path.key = key ∧ contribution = source.read { root, files } path := by
  obtain ⟨hmem, hkey⟩ := mem_of_get?_byKey h
  obtain ⟨path, hpath, rfl⟩ := List.mem_map.mp hmem
  rw [Source.read_path] at hkey
  exact ⟨path, hpath, hkey, rfl⟩

theorem get?_found_eq_none {files : Files} {paths : List Path} {key : String}
    (h : ∀ path ∈ paths, path.key ≠ key) : (found source root files paths).get? key = none := by
  cases hget : (found source root files paths).get? key with
  | none => rfl
  | some contribution =>
      obtain ⟨path, hpath, hkey, -⟩ := mem_of_get?_found hget
      exact absurd hkey (h path hpath)

section Scans

variable {tracks : Path → Bool} {watched : Path → List String}

theorem Reports.get?_found_before (h : Reports tracks watched old new before after events)
    {path : Path} (hpath : path ∈ before) :
    (found source root old before).get? path.key =
      some (source.read { root, files := old } path) :=
  get?_found_of_mem source root old hpath fun other hother hkey => h.distinct other
    (mem_involved_iff.mpr (.inl hother)) path (mem_involved_iff.mpr (.inl hpath)) hkey

theorem Reports.get?_found_after (h : Reports tracks watched old new before after events)
    {path : Path} (hpath : path ∈ after) :
    (found source root new after).get? path.key =
      some (source.read { root, files := new } path) :=
  get?_found_of_mem source root new hpath fun other hother hkey => h.distinct other
    (mem_involved_iff.mpr (.inr (.inl hother))) path (mem_involved_iff.mpr (.inr (.inl hpath))) hkey

/-- A file of either scan whose key no event names has not changed, and both scans find it. -/
theorem Reports.stays (h : Reports tracks watched old new before after events) {path : Path}
    (hpath : path ∈ before ∨ path ∈ after) (hnamed : ∀ event ∈ events, path.key ∉ event.keys) :
    new.content? path = old.content? path ∧ path ∈ before ∧ path ∈ after := by
  have hsame : new.content? path = old.content? path := by
    by_contra hchanged
    obtain ⟨event, hevent, hmem⟩ := h.named path (hpath.imp id .inl) hchanged
    exact hnamed event hevent hmem
  have hinvolved : path ∈ involved before after events :=
    mem_involved_iff.mpr (hpath.imp id .inl)
  have hboth : path ∈ before ↔ path ∈ after := by
    rw [h.scanned_before path hinvolved, h.scanned_after path hinvolved,
      Files.contains_eq_isSome_content?, Files.contains_eq_isSome_content?, hsame]
  rcases hpath with hbefore | hafter
  · exact ⟨hsame, hbefore, hboth.mp hbefore⟩
  · exact ⟨hsame, hboth.mpr hafter, hafter⟩

end Scans

/-- Whatever a cache holds on the way belongs to a file of one of the scans. -/
theorem Halfway.mem_scan {done : List FileEvent} {now : KeyMap (Contribution α)}
    (h : Halfway (source.read { root, files := new }) (found source root old before)
      (found source root new after) done now)
    {key : String} {contribution : Contribution α} (hget : now.get? key = some contribution) :
    ∃ path, (path ∈ before ∨ path ∈ after) ∧ path.key = key := by
  by_cases hnamed : ∃ event ∈ done, key ∈ event.keys
  · rw [(h key).1 hnamed] at hget
    obtain ⟨path, hpath, hkey, -⟩ := mem_of_get?_found hget
    exact ⟨path, .inr hpath, hkey⟩
  · push Not at hnamed
    have hfirst : ∃ contribution, (found source root old before).get? key = some contribution := by
      rcases (h key).2 hnamed with ⟨hsame, -⟩ | ⟨contribution, hfirst, -⟩
      · exact ⟨_, hsame ▸ hget⟩
      · exact ⟨contribution, hfirst⟩
    obtain ⟨first, hfirst⟩ := hfirst
    obtain ⟨path, hpath, hkey, -⟩ := mem_of_get?_found hfirst
    exact ⟨path, .inl hpath, hkey⟩

section Step

variable {tracks : Path → Bool} {watched : Path → List String} {done : List FileEvent}
  {cache : Cache α β} {event : FileEvent}

/-- A path that an event says has changed holds what the second refresh gives. -/
theorem get?_apply_touched (hreports : Reports tracks watched old new before after events)
    (hcurrent : cache.Current source set) (hroot : cache.root = root)
    (htracks : cache.tracks source = tracks) (hevent : event ∈ events)
    (hhalfway : Halfway (source.read { root, files := new }) (found source root old before)
      (found source root new after) done cache.contributions)
    {path : Path} (hpath : path ∈ event.touched) :
    (Project.apply source set new event cache).2.contributions.get? path.key =
      (found source root new after).get? path.key := by
  have hinvolved : path ∈ involved before after events :=
    mem_involved_iff.mpr (.inr (.inr ⟨event, hevent, .inr hpath⟩))
  have hunique : ∀ other ∈ event.touched, other.key = path.key → other = path :=
    fun other hother hkey => hreports.distinct other
      (mem_involved_iff.mpr (.inr (.inr ⟨event, hevent, .inr hother⟩))) path hinvolved hkey
  by_cases htracked : tracks path = true
  · have hafter : path ∈ after := (hreports.scanned_after path hinvolved).mpr
      ⟨htracked, hreports.present event hevent path hpath⟩
    rw [hreports.get?_found_after hafter]
    subst hroot
    exact get?_update_of_tracked source set new hcurrent.populated hcurrent.keyed hpath
      (by rw [htracks]; exact htracked) hunique
  · -- No scan finds a path that is not tracked, so nothing stands under its key.
    have hscan : ∀ other, other ∈ before ∨ other ∈ after → other.key ≠ path.key := by
      intro other hother hkey
      have hsame : other = path := hreports.distinct other
        (mem_involved_iff.mpr (hother.imp id .inl)) path hinvolved hkey
      subst hsame
      rcases hother with hbefore | hafter
      · exact htracked ((hreports.scanned_before other hinvolved).mp hbefore).1
      · exact htracked ((hreports.scanned_after other hinvolved).mp hafter).1
    rw [get?_found_eq_none fun other hother => hscan other (.inr hother)]
    refine get?_update_of_untracked source set new hcurrent.populated hcurrent.keyed ?_ (.inr ?_)
    · intro other hother hkey
      rw [hunique other hother hkey, htracks]
      exact Bool.eq_false_iff.mpr htracked
    · cases hget : cache.contributions.get? path.key with
      | none => rfl
      | some contribution =>
          obtain ⟨other, hother, hkey⟩ := hhalfway.mem_scan hget
          exact absurd hkey (hscan other hother)

/-- A path that an event says is gone holds nothing, and the second refresh does not find it. -/
theorem get?_apply_removed (hreports : Reports tracks watched old new before after events)
    (hcurrent : cache.Current source set) (hevent : event ∈ events)
    {path : Path} (hpath : path ∈ event.removed) :
    (Project.apply source set new event cache).2.contributions.get? path.key =
      (found source root new after).get? path.key := by
  have hinvolved : path ∈ involved before after events :=
    mem_involved_iff.mpr (.inr (.inr ⟨event, hevent, .inl hpath⟩))
  have habsent : new.contains path = false := hreports.absent event hevent path hpath
  have hscan : ∀ other ∈ after, other.key ≠ path.key := by
    intro other hother hkey
    have hsame : other = path := hreports.distinct other
      (mem_involved_iff.mpr (.inr (.inl hother))) path hinvolved hkey
    subst hsame
    rw [((hreports.scanned_after other hinvolved).mp hother).2] at habsent
    cases habsent
  rw [get?_found_eq_none hscan]
  refine get?_update_of_untracked source set new hcurrent.populated hcurrent.keyed ?_
    (.inl (List.mem_map.mpr ⟨path, hpath, rfl⟩))
  intro other hother hkey
  have hsame : other = path := hreports.distinct other
    (mem_involved_iff.mpr (.inr (.inr ⟨event, hevent, .inr hother⟩))) path hinvolved hkey
  rw [hsame] at hother
  rw [hreports.present event hevent path hother] at habsent
  cases habsent

/-- Under a key that the event does not name, what stands there is read again if it watches one of
the paths that the event names. -/
theorem get?_apply_of_not_named (hcurrent : cache.Current source set) (hroot : cache.root = root)
    (event : FileEvent) {key : String} (hkey : key ∉ event.keys) :
    (Project.apply source set new event cache).2.contributions.get? key =
      (cache.contributions.get? key).map fun contribution =>
        if contribution.watched.any event.keys.contains then
          source.read { root, files := new } contribution.path
        else contribution := by
  have hget : (Project.apply source set new event cache).2.contributions.get? key = _ :=
    get?_update_of_not_named source set new hcurrent.populated hcurrent.keyed hkey
  rw [hget, scene, hroot]
  rfl

/-- Where a file stands as it is read now, reading it once more gives the same. -/
theorem get?_apply_of_reread (hcurrent : cache.Current source set) (hroot : cache.root = root)
    (event : FileEvent) {key : String} (hkey : key ∉ event.keys) {path : Path}
    (hget : cache.contributions.get? key = some (source.read { root, files := new } path)) :
    (Project.apply source set new event cache).2.contributions.get? key =
      some (source.read { root, files := new } path) := by
  rw [get?_apply_of_not_named hcurrent hroot event hkey, hget]
  simp

/-- One event leads from halfway to halfway. -/
theorem Halfway.apply (hreports : Reports tracks watched old new before after events)
    (hcurrent : cache.Current source set) (hroot : cache.root = root)
    (htracks : cache.tracks source = tracks) (hevent : event ∈ events)
    (hhalfway : Halfway (source.read { root, files := new }) (found source root old before)
      (found source root new after) done cache.contributions) :
    Halfway (source.read { root, files := new }) (found source root old before)
      (found source root new after) (event :: done)
      (Project.apply source set new event cache).2.contributions := by
  intro key
  by_cases hkey : key ∈ event.keys
  · refine ⟨fun _ => ?_, fun hnot => absurd hkey (hnot event List.mem_cons_self)⟩
    obtain ⟨path, hpath, rfl⟩ := List.mem_map.mp hkey
    rcases List.mem_append.mp hpath with hremoved | htouched
    · exact get?_apply_removed hreports hcurrent hevent hremoved
    · exact get?_apply_touched hreports hcurrent hroot htracks hevent hhalfway htouched
  · constructor
    · -- An earlier event has named the key, so its file has been read as it is now.
      rintro ⟨other, hother, hnamed⟩
      rcases List.mem_cons.mp hother with rfl | hother
      · exact absurd hnamed hkey
      · have hsecond := (hhalfway key).1 ⟨other, hother, hnamed⟩
        cases hfound : (found source root new after).get? key with
        | none =>
            rw [get?_apply_of_not_named hcurrent hroot event hkey, hsecond, hfound]
            rfl
        | some contribution =>
            obtain ⟨path, -, -, rfl⟩ := mem_of_get?_found hfound
            exact get?_apply_of_reread hcurrent hroot event hkey (hsecond.trans hfound)
    · intro hnot
      have hrest : ∀ other ∈ done, key ∉ other.keys :=
        fun other hother => hnot other (List.mem_cons_of_mem _ hother)
      rcases (hhalfway key).2 hrest with ⟨hsame, hwatched⟩ | ⟨contribution, hfirst, hnow⟩
      · have hget : (Project.apply source set new event cache).2.contributions.get? key = _ :=
          get?_apply_of_not_named hcurrent hroot event hkey
        cases hfirst : (found source root old before).get? key with
        | none =>
            refine .inl ⟨?_, fun contribution hcontribution => by cases hcontribution⟩
            rw [hget, hsame, hfirst]
            rfl
        | some contribution =>
            -- The file is read again if it watches one of the paths of the event.
            rw [hsame, hfirst, Option.map_some] at hget
            by_cases hhit : contribution.watched.any event.keys.contains = true
            · refine .inr ⟨contribution, rfl, ?_⟩
              rw [hget]
              exact congrArg some (if_pos hhit)
            · refine .inl ⟨hget.trans (congrArg some (if_neg hhit)), ?_⟩
              rintro other hother watching hwatching watch hwatch
              cases hother
              rcases List.mem_cons.mp hwatching with rfl | hwatching
              · intro hmem
                exact hhit (List.any_eq_true.mpr ⟨watch, hwatch, List.contains_iff_mem.mpr hmem⟩)
              · exact hwatched contribution hfirst watching hwatching watch hwatch
      · exact .inr ⟨contribution, hfirst,
          get?_apply_of_reread hcurrent hroot event hkey hnow⟩

/-- Events one after another lead from halfway to halfway, and keep the cache current. -/
theorem Halfway.applyAll (hreports : Reports tracks watched old new before after events)
    {run : List FileEvent} (hrun : ∀ event ∈ run, event ∈ events)
    (hcurrent : cache.Current source set) (hroot : cache.root = root)
    (htracks : cache.tracks source = tracks)
    (hhalfway : Halfway (source.read { root, files := new }) (found source root old before)
      (found source root new after) done cache.contributions) :
    let final := run.foldl (fun cache event => (Project.apply source set new event cache).2) cache
    final.Current source set ∧
      Halfway (source.read { root, files := new }) (found source root old before)
        (found source root new after) (run.reverse ++ done) final.contributions := by
  induction run generalizing cache done with
  | nil => exact ⟨hcurrent, hhalfway⟩
  | cons event rest ih =>
      have hfirst : event ∈ events := hrun event List.mem_cons_self
      have hnext := hhalfway.apply hreports hcurrent hroot htracks hfirst
      have hnextRoot := (update_root_filter source set new event.removed event.touched cache).1
      have hnextTracks := tracks_update source set new event.removed event.touched cache
      rw [List.foldl_cons, List.reverse_cons, List.append_assoc]
      exact ih (fun other hother => hrun other (List.mem_cons_of_mem _ hother))
        (hcurrent.update new event.removed event.touched) (hnextRoot.trans hroot)
        (hnextTracks.trans htracks) hnext

end Step

/-- Once every event has been handled, the contributions are those of the second refresh. -/
theorem Halfway.eq_found {tracks : Path → Bool} {done : List FileEvent}
    {now : KeyMap (Contribution α)} (hlocal : source.IsLocal)
    (hreports : Reports tracks (fun path => (source.read { root, files := old } path).watched)
      old new before after events)
    (hdone : ∀ event ∈ events, event ∈ done) (hordered : now.Ordered)
    (h : Halfway (source.read { root, files := new }) (found source root old before)
      (found source root new after) done now) :
    now = found source root new after := by
  refine hordered.ext (keyed_byKey _).ordered fun key => ?_
  by_cases hnamed : ∃ event ∈ done, key ∈ event.keys
  · exact (h key).1 hnamed
  push Not at hnamed
  have hstays : ∀ path, path ∈ before ∨ path ∈ after → path.key = key →
      new.content? path = old.content? path ∧ path ∈ before ∧ path ∈ after := by
    rintro path hpath rfl
    exact hreports.stays hpath fun event hevent => hnamed event (hdone event hevent)
  rcases (h key).2 hnamed with ⟨hsame, hwatched⟩ | ⟨contribution, hfirst, hnow⟩
  · rw [hsame]
    cases hfirst : (found source root old before).get? key with
    | none =>
        refine (get?_found_eq_none fun path hpath hkey => ?_).symm
        obtain ⟨-, hbefore, -⟩ := hstays path (.inr hpath) hkey
        rw [← hkey, hreports.get?_found_before hbefore] at hfirst
        cases hfirst
    | some contribution =>
        -- No path that the file watches has changed, so reading it again gives the same.
        obtain ⟨path, hpath, rfl, rfl⟩ := mem_of_get?_found hfirst
        obtain ⟨hcontent, -, hafter⟩ := hstays path (.inl hpath) rfl
        rw [hreports.get?_found_after hafter]
        refine congrArg some (hlocal.read_eq hcontent fun watch hwatch => ?_).symm
        by_contra hchanged
        obtain ⟨event, hevent, hmem⟩ :=
          hreports.named watch (.inr (.inr ⟨path, hpath, hwatch⟩)) hchanged
        exact hwatched _ hfirst event (hdone event hevent) watch.key hwatch hmem
  · obtain ⟨path, hpath, rfl, rfl⟩ := mem_of_get?_found hfirst
    obtain ⟨-, -, hafter⟩ := hstays path (.inl hpath) rfl
    rw [hnow, hreports.get?_found_after hafter, Source.read_path]

/-- A refresh of files that can be scanned fills the cache with what it finds. -/
theorem refresh_of_collect (set : ControllerSet) {cache : Cache α β} {files : Files}
    {paths : List Path}
    (h : files.disk.collect cache.root cache.filter source.accepts = .ok paths) :
    (cache.refresh source set files).2.contributions = found source cache.root files paths ∧
      (cache.refresh source set files).2.Current source set ∧
      (cache.refresh source set files).2.root = cache.root ∧
      (cache.refresh source set files).2.filter = cache.filter := by
  rw [refresh_of_collect_ok set h]
  exact ⟨rfl, ⟨rfl, keyed_byKey _, rfl⟩, rfl, rfl⟩

end

end Cache

/-- **Events lead where a refresh leads.**  A cache is filled from one state of the files, and
events report how they have changed since.  Handling the events, in any order and any number of
times each, leaves the contributions and the list that a refresh gives for the new state. -/
theorem events_converge_to_refresh (source : Source α β) (hlocal : source.IsLocal)
    (set : ControllerSet) (cache : Cache α β) (old new : Files) (before after : List Path)
    (hbefore : old.disk.collect cache.root cache.filter source.accepts = .ok before)
    (hafter : new.disk.collect cache.root cache.filter source.accepts = .ok after)
    (events : List FileEvent)
    (hreports : Cache.Reports (cache.tracks source)
      (fun path => (source.read (cache.scene old) path).watched) old new before after events)
    (run : List FileEvent) (hrun : ∀ event, event ∈ run ↔ event ∈ events) :
    let updated := run.foldl (fun cache event => (Project.apply source set new event cache).2)
      (cache.refresh source set old).2
    let refreshed := (cache.refresh source set new).2
    updated.contributions = refreshed.contributions ∧ updated.snapshot = refreshed.snapshot := by
  intro updated refreshed
  obtain ⟨hfirst, hcurrent, hroot, hfilter⟩ := Cache.refresh_of_collect set hbefore
  obtain ⟨hsecond, hfresh, -, -⟩ := Cache.refresh_of_collect set hafter
  have htracks : (cache.refresh source set old).2.tracks source = cache.tracks source :=
    Cache.tracks_congr source hroot hfilter
  have hstart : Cache.Halfway (source.read { root := cache.root, files := new })
      (Cache.found source cache.root old before) (Cache.found source cache.root new after) []
      (cache.refresh source set old).2.contributions := by
    intro key
    rw [hfirst]
    constructor
    · rintro ⟨_, hmem, -⟩
      exact absurd hmem List.not_mem_nil
    · exact fun _ => .inl ⟨rfl, fun _ _ _ hmem => absurd hmem List.not_mem_nil⟩
  obtain ⟨hupdated, hhalfway⟩ :=
    hstart.applyAll hreports (fun event hevent => (hrun event).mp hevent) hcurrent hroot htracks
  have hcontributions : updated.contributions = refreshed.contributions := by
    rw [hsecond]
    refine hhalfway.eq_found hlocal hreports (fun event hevent => ?_) hupdated.keyed.ordered
    simpa using (hrun event).mpr hevent
  exact ⟨hcontributions, by
    rw [hupdated.snapshot_eq, hfresh.snapshot_eq, hcontributions]⟩

/-! ### A source that quotes -/

namespace Quoting

/-- A source that watches: a file contributes the text at the path that it holds. -/
def source : Source String String where
  kind := "quotation"
  accepts _ := true
  parse scene _ text :=
    { entities := ((scene.files.read ⟨text⟩).toOption).toList, watched := [(Path.mk text).key] }
  link _ entities := entities

theorem source_isLocal : source.IsLocal := by
  intro root path files other text _ _ hwatched
  have hquoted : (other.read ⟨text⟩).toOption = (files.read ⟨text⟩).toOption := by
    rw [Files.toOption_read, Files.toOption_read, hwatched ⟨text⟩ List.mem_cons_self]
  simp only [source, hquoted]

/-- Two files, the first of which quotes the second. -/
def files (text : String) : Files where
  disk := { root := .folder "" [.folder "app"
    [.file "a.txt" "/app/b.txt".toUTF8, .file "b.txt" text.toUTF8]] }

def cache : Cache String String where
  root := ⟨"/app"⟩
  filter := ⟨[], []⟩

def paths : List Path :=
  [⟨"/app/a.txt"⟩, ⟨"/app/b.txt"⟩]

theorem collect_files (text : String) :
    (files text).disk.collect cache.root cache.filter source.accepts = .ok paths := by
  have hpaths : (files text).disk.collect cache.root cache.filter source.accepts =
      .ok (paths.mergeSort Path.le) := rfl
  rw [hpaths, List.mergeSort_of_pairwise (by decide)]

theorem reports_changed :
    Cache.Reports (cache.tracks source)
      (fun path => (source.read (cache.scene (files "/app/b.txt")) path).watched)
      (files "/app/b.txt") (files "/app/a.txt") paths paths [.changed ⟨"/app/b.txt"⟩] where
  named := by
    intro path hpath hchanged
    refine ⟨_, List.mem_singleton_self _, ?_⟩
    have hpaths : ∀ path ∈ paths, path = ⟨"/app/a.txt"⟩ ∨ path = ⟨"/app/b.txt"⟩ := by
      simp [paths]
    have hmem : path ∈ paths ∨ path.key = "/app/b.txt" := by
      rcases hpath with hpath | hpath | ⟨reader, hreader, hwatched⟩
      · exact .inl hpath
      · exact .inl hpath
      · rcases hpaths reader hreader with rfl | rfl
        · exact .inr (List.mem_singleton.mp hwatched)
        · exact .inr (List.mem_singleton.mp hwatched)
    rcases hmem with hmem | hkey
    · rcases hpaths path hmem with rfl | rfl
      · exact absurd rfl hchanged
      · exact List.mem_singleton_self _
    · rw [hkey]
      exact List.mem_singleton_self _
  present := by decide
  absent := by decide
  distinct := by decide
  scanned_before := by decide
  scanned_after := by decide

end Quoting

/-- The file that quotes another is read again, although no event names it. -/
theorem quoting_events_converge_to_refresh :
    let run : List FileEvent := [.changed ⟨"/app/b.txt"⟩, .changed ⟨"/app/b.txt"⟩]
    let updated := run.foldl
      (fun cache event => (Project.apply Quoting.source {} (Quoting.files "/app/a.txt") event cache).2)
      (Quoting.cache.refresh Quoting.source {} (Quoting.files "/app/b.txt")).2
    let refreshed := (Quoting.cache.refresh Quoting.source {} (Quoting.files "/app/a.txt")).2
    updated.contributions = refreshed.contributions ∧ updated.snapshot = refreshed.snapshot :=
  events_converge_to_refresh Quoting.source Quoting.source_isLocal {} Quoting.cache _ _ _ _
    (Quoting.collect_files _) (Quoting.collect_files _) _ Quoting.reports_changed _ (by simp)

end NgIndex
