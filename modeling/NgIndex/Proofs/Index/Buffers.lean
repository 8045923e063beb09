import NgIndex.Proofs.Index.Convergence
import NgIndex.Proofs.Index.Notifications
import NgIndex.Proofs.Index.Watched

/-!
# Unsaved buffers that are closed again

A buffer hides what the disk holds, or shows a file where the disk has none.  Files that import it
are read against it, and others may find it in the place of what they found before.  When it is
closed, all of this has to be taken back.  It is shown that it is: an index that was filled from the
disk lists the same entities after a buffer has been opened and closed.

A file that has been read against the buffer is read again when the buffer is closed, unless it does
not watch the path.  In that case the buffer did not count for it, since it was there and was not
watched.  So reading the file without the buffer would give the same.
-/

namespace NgIndex

variable {α β : Type}

/-! ### Sources that watch what is there -/

/-- Files that are there and are not watched do not count for a source: whatever is put in their
place, or if they are taken away, the same is read. -/
def Source.IsWatchful (source : Source α β) : Prop :=
  ∀ (root origin : Path) (files altered : Files) (text : String),
    (∀ path : Path, altered.content? path ≠ files.content? path →
      files.contains path = true ∧
        path.key ∉ (source.parse { root, files } origin text).watched ∧ path.key ≠ origin.key) →
    source.parse { root, files := altered } origin text = source.parse { root, files } origin text

theorem Source.IsWatchful.read_eq {source : Source α β} (hwatchful : source.IsWatchful)
    {root origin : Path} {files altered : Files}
    (hedits : ∀ path : Path, altered.content? path ≠ files.content? path →
      files.contains path = true ∧
        path.key ∉ (source.read { root, files } origin).watched ∧ path.key ≠ origin.key) :
    source.read { root, files := altered } origin = source.read { root, files } origin := by
  have horigin : altered.content? origin = files.content? origin := by
    by_contra hne
    exact (hedits origin hne).2.2 rfl
  unfold Source.read at hedits ⊢
  rcases Files.read_eq_or_error horigin with ⟨text, hread, hother⟩ | ⟨e, e', hread, hother⟩
  · simp only [hread, hother] at hedits ⊢
    rw [hwatchful root origin files altered text hedits]
  · simp only [hread, hother]

/-- A source of scripts is watchful if its entities are made of what an analysis gives. -/
theorem Source.isWatchful_of_parseScript {source : Source α β}
    {step : Script.Module → Lookup (List α)} (hparse : source.parse = parseScript step)
    (analysis : ScriptAnalysis) (entities : analysis.Result → List α)
    (hstep : ∀ m scene session, step m scene session =
      (entities (analysis.analyse m scene session).1, (analysis.analyse m scene session).2)) :
    source.IsWatchful := by
  intro root origin files altered text hedits
  have houtcome (scene : Scene) : source.parse scene origin text =
      { entities := entities (analysis.outcome scene origin text).result
        watched := (analysis.outcome scene origin text).watched } := by
    rw [hparse]
    unfold parseScript
    simp only [StateT.run, hstep]
    rfl
  have hsame : analysis.outcome { root, files := altered } origin text =
      analysis.outcome { root, files } origin text := by
    refine @ScriptAnalysis.outcome_eq_of_overlooked analysis { root, files } origin text altered
      fun path hpath => ?_
    rw [houtcome] at hedits
    obtain ⟨hexists, hwatched, horigin⟩ := hedits path hpath
    exact ⟨not_or.mpr ⟨hwatched, horigin⟩, .inl hexists⟩
  rw [houtcome, houtcome, hsame]

theorem Source.supportedComponents_run (m : Script.Module) (scene : Scene) (session : Session) :
    supportedComponents m scene session =
      ((Analysis.components m scene session).1.toOption.getD [],
        (Analysis.components m scene session).2) := by
  unfold supportedComponents
  rw [Lookup.bind_run]
  cases (Analysis.components m scene session).1 with
  | error error => rfl
  | ok components => rfl

theorem EntityKind.isWatchful_source (kind : EntityKind) : kind.source.IsWatchful := by
  cases kind with
  | controllers =>
      exact Source.isWatchful_of_parseScript rfl .controllers id fun _ _ _ => rfl
  | components =>
      exact Source.isWatchful_of_parseScript rfl .components
        (fun result => result.toOption.getD []) Source.supportedComponents_run
  | directives =>
      exact Source.isWatchful_of_parseScript rfl .directives id fun _ _ _ => rfl
  | routes =>
      exact Source.isWatchful_of_parseScript rfl .routes id fun _ _ _ => rfl
  | html =>
      intro root origin files altered text _
      rfl

/-! ### Events that a cache has gone through -/

namespace Cache

variable {source : Source α β} {set : ControllerSet} {files : Files} {event : FileEvent}
  {before after : Cache α β}

/-- What an update does to the contributions does not depend on the controllers. -/
theorem update_contributions_eq (source : Source α β) (set other : ControllerSet) (files : Files)
    (removed touched : List Path) (cache : Cache α β) :
    (cache.update source set files removed touched).2.contributions =
      (cache.update source other files removed touched).2.contributions := by
  unfold update
  split
  · rfl
  · simp only
    split
    · rfl
    · rfl

theorem Handled.contributions_eq (h : Handled source files event before after)
    (set : ControllerSet) :
    after.contributions =
      (before.update source set files event.removed event.touched).2.contributions := by
  cases h with
  | updated other heq => rw [heq, update_contributions_eq source other set]
  | relinked other hnone heq =>
      rw [update_contributions_eq source set other, update_eq_of_false hnone, heq]
      unfold relink
      split
      · rfl
      · rfl

/-- An event leaves alone where a cache looks for files, which ones it takes, and that it has been
filled. -/
theorem Handled.settings_eq (h : Handled source files event before after) :
    after.root = before.root ∧ after.filter = before.filter ∧
      after.populated = before.populated := by
  cases h with
  | updated set heq =>
      rw [heq]
      rcases update_cases source set files event.removed event.touched before with
        hnone | ⟨-, _, hsome⟩
      · rw [hnone]
        exact ⟨rfl, rfl, rfl⟩
      · rw [hsome]
        exact ⟨rfl, rfl, rfl⟩
  | relinked set _ heq =>
      rw [heq]
      unfold relink
      split
      · exact ⟨rfl, rfl, rfl⟩
      · exact ⟨rfl, rfl, rfl⟩

theorem Current.linked {cache : Cache α β} (h : cache.Current source set) :
    cache.Linked source set := by
  unfold Linked
  rw [h.snapshot_eq, if_pos h.populated]

theorem Linked.of_link_eq {old new : ControllerSet} {cache : Cache α β}
    (hlink : source.link old = source.link new) (h : cache.Linked source old) :
    cache.Linked source new := by
  unfold Linked at h ⊢
  rw [h, hlink]

theorem Linked.snapshot_eq_of_entities {a b : Cache α β} (ha : a.Linked source set)
    (hb : b.Linked source set) (hpopulatedA : a.populated = true) (hpopulatedB : b.populated = true)
    (hentities : (a.contributions.values.flatMap fun c => c.entities) =
      b.contributions.values.flatMap fun c => c.entities) : a.snapshot = b.snapshot := by
  unfold Linked at ha hb
  rw [if_pos hpopulatedA] at ha
  rw [if_pos hpopulatedB] at hb
  rw [ha, hb, hentities]

/-- An event leaves a cache linked for which the controllers do not count. -/
theorem Handled.linked {old new : ControllerSet} (h : Handled source files event before after)
    (hlink : ∀ set other, source.link set = source.link other)
    (hlinked : before.Linked source old) : after.Linked source new := by
  cases h with
  | updated set heq =>
      rw [heq]
      rcases update_cases source set files event.removed event.touched before with
        hnone | ⟨hpopulated, _, hsome⟩
      · rw [hnone]
        exact hlinked.of_link_eq (hlink old new)
      · rw [hsome]
        refine Linked.of_link_eq (hlink set new) ?_
        exact linked_rebuild hpopulated
  | relinked set _ heq =>
      rw [heq]
      exact (Linked.relink hlinked).of_link_eq (hlink set new)

/-- A cache that has been filled, whatever it lists. -/
structure Filled (cache : Cache α β) : Prop where
  populated : cache.populated = true
  keyed : Keyed cache.contributions

theorem Current.filled {cache : Cache α β} (h : cache.Current source set) : cache.Filled :=
  ⟨h.populated, h.keyed⟩

theorem Handled.filled (h : Handled source files event before after) (hfilled : before.Filled) :
    after.Filled := by
  refine ⟨h.settings_eq.2.2.trans hfilled.populated, ?_⟩
  rw [h.contributions_eq {}, update_eq_of_populated source {} files _ _ hfilled.populated]
  split
  · exact hfilled.keyed
  · have hcurrent : (before.rebuild source {}).Current source {} :=
      ⟨hfilled.populated, hfilled.keyed, rfl⟩
    exact (hcurrent.carryOut _ _).keyed

section Changed

variable {path : Path} (h : Handled source files (.changed path) before after)
  (hfilled : before.Filled)

include h hfilled

/-- Another file is read again if it watches the path that has changed. -/
theorem Handled.get?_of_ne {key : String} (hkey : key ≠ path.key) :
    after.contributions.get? key = (before.contributions.get? key).map fun contribution =>
      if path.key ∈ contribution.watched then
        source.read (before.scene files) contribution.path
      else contribution := by
  have hnamed : key ∉ (([] : List Path) ++ [path]).map Path.key := by
    simpa using hkey
  have hget := get?_update_of_not_named source {} files hfilled.populated hfilled.keyed hnamed
  rw [h.contributions_eq {}]
  simpa [FileEvent.removed, FileEvent.touched] using hget

theorem Handled.get?_of_tracked (htracked : before.tracks source path = true) :
    after.contributions.get? path.key = some (source.read (before.scene files) path) := by
  rw [h.contributions_eq {}]
  exact get?_update_of_tracked source {} files hfilled.populated hfilled.keyed
    (List.mem_singleton_self path) htracked fun other hother _ => List.mem_singleton.mp hother

theorem Handled.get?_of_untracked (huntracked : before.tracks source path = false)
    (hnone : before.contributions.get? path.key = none) :
    after.contributions.get? path.key = none := by
  rw [h.contributions_eq {}]
  refine get?_update_of_untracked source {} files hfilled.populated hfilled.keyed ?_ (.inr hnone)
  intro other hother _
  rw [List.mem_singleton.mp hother, huntracked]

end Changed

/-! ### One cache -/

/-- The scan for files and the choice of tracked files agree about a path: the scan finds it if and
only if it is tracked and on disk, and it finds no other path with the same key. -/
structure ScansAlike (cache : Cache α β) (source : Source α β) (disk : Disk) (path : Path)
    (paths : List Path) : Prop where
  mem_iff : path ∈ paths ↔ cache.tracks source path = true ∧ disk.isFile path = true
  alone : ∀ other ∈ paths, other.key = path.key → other = path

section Reopened

variable {disk : Disk} {cache opened closed : Cache α β} {root origin path : Path} {text : String}
  {paths : List Path}

/-- A file that does not watch the path of a buffer is read without the buffer as with it. -/
theorem read_closed_eq (hwatchful : source.IsWatchful) (hkey : path.key ≠ origin.key)
    (hwatched : path.key ∉ (source.read ⟨root, files.openBuffer path text⟩ origin).watched) :
    source.read ⟨root, files⟩ origin = source.read ⟨root, files.openBuffer path text⟩ origin := by
  refine hwatchful.read_eq fun other hother => ?_
  have hsame : other.key = path.key := Files.key_eq_of_content?_openBuffer_ne hother.symm
  rw [hsame, Files.contains_eq_isSome_content?, Files.content?_openBuffer, if_pos hsame]
  exact ⟨rfl, hwatched, hkey⟩

/-- Where nothing stands, nothing is read. -/
theorem read_eq_of_not_contains (h : files.contains path = false) :
    source.read ⟨root, files⟩ path = { path } := by
  unfold Source.read
  cases hread : files.read path with
  | error error => rfl
  | ok text =>
      rw [Files.contains_of_read hread] at h
      cases h

variable (hfilled : cache.Filled)
  (hfound : cache.contributions = found source cache.root { disk } paths)
  (hopen : Handled source (Files.openBuffer { disk } path text) (.changed path) cache opened)
  (hclose : Handled source { disk } (.changed path) opened closed)

include hfilled hfound hopen hclose

/-- Files at other keys contribute what they did before. -/
theorem get?_reopened_of_ne (hwatchful : source.IsWatchful) {key : String}
    (hkey : key ≠ path.key) :
    closed.contributions.get? key = cache.contributions.get? key := by
  have hscene : opened.scene { disk } = ⟨cache.root, { disk }⟩ := by
    rw [scene, hopen.settings_eq.1]
  rw [hclose.get?_of_ne (hopen.filled hfilled) hkey, hopen.get?_of_ne hfilled hkey, hscene]
  cases hget : cache.contributions.get? key with
  | none => rfl
  | some contribution =>
      rw [hfound] at hget
      obtain ⟨origin, -, rfl, rfl⟩ := mem_of_get?_found hget
      simp only [Option.map_some, Option.some.injEq, Source.read_path]
      by_cases hbefore : path.key ∈ (source.read ⟨cache.root, { disk }⟩ origin).watched
      · rw [if_pos hbefore]
        -- The file has been read against the buffer.
        split
        · rw [Source.read_path]
        · next hafter => exact (read_closed_eq hwatchful hkey.symm hafter).symm
      · rw [if_neg hbefore, if_neg hbefore]

/-- The file at the path itself has the entities that it had before.  A tracked path where there is
no file is known afterwards, but has no entities. -/
theorem partAt_reopened_self (hscans : cache.ScansAlike source disk path paths) :
    closed.contributions.partAt Contribution.entities path.key =
      cache.contributions.partAt Contribution.entities path.key := by
  have htracks : opened.tracks source = cache.tracks source :=
    tracks_congr source hopen.settings_eq.1 hopen.settings_eq.2.1
  have hscene : opened.scene { disk } = ⟨cache.root, { disk }⟩ := by
    rw [scene, hopen.settings_eq.1]
  have hnone (hmem : path ∉ paths) : cache.contributions.get? path.key = none := by
    rw [hfound]
    exact get?_found_eq_none fun other hother hkey => hmem (hscans.alone other hother hkey ▸ hother)
  unfold KeyMap.partAt
  cases htracked : cache.tracks source path with
  | true =>
      rw [hclose.get?_of_tracked (hopen.filled hfilled) (by rw [htracks, htracked]), hscene]
      cases hfile : disk.isFile path with
      | true =>
          have hmem : path ∈ paths := hscans.mem_iff.mpr ⟨htracked, hfile⟩
          rw [hfound, get?_found_of_mem source cache.root { disk } hmem hscans.alone]
      | false =>
          have hmem : path ∉ paths := by
            rw [hscans.mem_iff, hfile]
            simp
          have habsent : Files.contains { disk } path = false := hfile
          rw [hnone hmem, read_eq_of_not_contains habsent]
          rfl
  | false =>
      have hmem : path ∉ paths := by
        rw [hscans.mem_iff, htracked]
        simp
      rw [hclose.get?_of_untracked (hopen.filled hfilled) (by rw [htracks, htracked])
        (hopen.get?_of_untracked hfilled htracked (hnone hmem)), hnone hmem]

/-- The entities of all files together are those that were there before. -/
theorem entities_reopened (hwatchful : source.IsWatchful)
    (hscans : cache.ScansAlike source disk path paths) :
    (closed.contributions.values.flatMap fun c => c.entities) =
      cache.contributions.values.flatMap fun c => c.entities := by
  refine (hclose.filled (hopen.filled hfilled)).keyed.ordered.flatMap_values_eq _
    hfilled.keyed.ordered fun key => ?_
  by_cases hkey : key = path.key
  · rw [hkey]
    exact partAt_reopened_self hfilled hfound hopen hclose hscans
  · unfold KeyMap.partAt
    rw [get?_reopened_of_ne hfilled hfound hopen hclose hwatchful hkey]

end Reopened
end Cache

/-! ### All caches -/

namespace Project

variable {prior project : Project} {disk : Disk}

theorem refresh_cache_of_ok (h : prior.refresh disk = (.ok (), project)) (kind : EntityKind) :
    ∃ set, (prior.cache kind).refresh kind.source set (prior.files disk) =
      (.ok (), project.cache kind) := by
  rcases refresh_cache_cases prior disk kind with ⟨hfailed, -⟩ | ⟨set, hok, hrefreshed⟩
  · exact absurd (congrArg Prod.fst h) hfailed
  · rw [h] at hok hrefreshed
    exact ⟨set, Prod.ext (hok rfl) hrefreshed.symm⟩

theorem refresh_buffers (project : Project) (disk : Disk) :
    (project.refresh disk).2.buffers = project.buffers := by
  unfold refresh
  cases hcontrollers : project.controllers.refresh Source.controllers project.published
      (project.files disk) with
  | mk outcome controllers =>
      cases outcome with
      | error error => rw [refreshSeeing_of_error (fun _ => disk) hcontrollers]
      | ok => rw [refreshSeeing_of_ok (fun _ => disk) hcontrollers]

/-- A cache holds what a scan of the disk finds, read without any buffer. -/
def FilledFrom (project : Project) (disk : Disk) (kind : EntityKind) (paths : List Path) : Prop :=
  (project.cache kind).Filled ∧ (project.cache kind).contributions =
    Cache.found kind.source (project.cache kind).root { disk } paths

/-- A refresh fills the caches of all kinds. -/
theorem filledFrom_of_refresh (hbuffers : prior.buffers = [])
    (h : prior.refresh disk = (.ok (), project)) (kind : EntityKind) :
    ∃ paths set, disk.collect (project.cache kind).root (project.cache kind).filter
        kind.source.accepts = .ok paths ∧
      project.FilledFrom disk kind paths ∧ (project.cache kind).Linked kind.source set := by
  obtain ⟨set, hrefresh⟩ := refresh_cache_of_ok h kind
  have hfiles : prior.files disk = { disk } := by
    rw [files, hbuffers]
  rw [hfiles] at hrefresh
  cases hscan : disk.collect (prior.cache kind).root (prior.cache kind).filter
      kind.source.accepts with
  | error error =>
      rw [Cache.refresh_of_collect_error set hscan] at hrefresh
      cases hrefresh
  | ok paths =>
      obtain ⟨hfound, hcurrent, hroot, hfilter⟩ :=
        @Cache.refresh_of_collect _ _ kind.source set (prior.cache kind) { disk } paths hscan
      rw [hrefresh] at hfound hcurrent hroot hfilter
      refine ⟨paths, set, ?_, ⟨hcurrent.filled, ?_⟩, hcurrent.linked⟩
      · rw [hroot, hfilter, hscan]
      · rw [hroot, hfound]

/-! ### Lists of all kinds -/

/-- The caches of all kinds are linked to the published controllers. -/
def AllLinked (project : Project) : Prop :=
  ∀ kind, (project.cache kind).Linked kind.source project.published

theorem allLinked_of_refresh (hcoherent : project.Coherent) (hbuffers : prior.buffers = [])
    (h : prior.refresh disk = (.ok (), project)) : project.AllLinked := by
  intro kind
  obtain ⟨-, set, -, -, hlinked⟩ := filledFrom_of_refresh hbuffers h kind
  cases kind with
  | controllers => exact hlinked.of_link_eq rfl
  | components => exact hcoherent.components_linked
  | directives => exact hlinked.of_link_eq rfl
  | routes => exact hcoherent.routes_linked
  | html => exact hlinked.of_link_eq rfl

theorem AllLinked.withBuffers (h : project.AllLinked) (buffers : List (String × String)) :
    AllLinked { project with buffers } := by
  intro kind
  rw [cache_withBuffers]
  exact h kind

/-- Components and routes are linked again when controllers change; for the others these do not
count. -/
theorem AllLinked.handle (h : project.AllLinked) (hcoherent : project.Coherent) (disk : Disk)
    (event : FileEvent) : (project.handle disk event).AllLinked := by
  intro kind
  have hhandled := handled_handle project disk event kind
  cases kind with
  | controllers => exact hhandled.linked (fun _ _ => rfl) (h .controllers)
  | components => exact (hcoherent.handle disk event).components_linked
  | directives => exact hhandled.linked (fun _ _ => rfl) (h .directives)
  | routes => exact (hcoherent.handle disk event).routes_linked
  | html => exact hhandled.linked (fun _ _ => rfl) (h .html)

/-! ### Opening and closing -/

section Opening

variable {path : Path} {text : String}

theorem openDocument_eq (hbuffers : project.buffers = []) (disk : Disk) (path : Path)
    (text : String) :
    project.openDocument disk path text =
      { project with buffers := [(path.key, text)] }.handle disk (.changed path) := by
  unfold openDocument Files.openBuffer files
  rw [hbuffers]
  rfl

theorem buffers_openDocument (hbuffers : project.buffers = []) (disk : Disk) (path : Path)
    (text : String) :
    (project.openDocument disk path text).buffers = [(path.key, text)] := by
  rw [openDocument_eq hbuffers, handle_eq]

theorem closeDocument_eq (hbuffers : project.buffers = [(path.key, text)]) (disk : Disk) :
    project.closeDocument disk path =
      { project with buffers := [] }.handle disk (.changed path) := by
  unfold closeDocument Files.closeBuffer Files.hasBuffer Files.buffer? files
  simp [hbuffers]

theorem handled_openDocument (hbuffers : project.buffers = []) (disk : Disk) (path : Path)
    (text : String) (kind : EntityKind) :
    Cache.Handled kind.source (Files.openBuffer { disk } path text) (.changed path)
      (project.cache kind) ((project.openDocument disk path text).cache kind) := by
  have hhandled := handled_handle { project with buffers := [(path.key, text)] } disk
    (.changed path) kind
  rw [cache_withBuffers, ← openDocument_eq hbuffers] at hhandled
  exact hhandled

theorem handled_closeDocument (hbuffers : project.buffers = [(path.key, text)]) (disk : Disk)
    (kind : EntityKind) :
    Cache.Handled kind.source { disk } (.changed path) (project.cache kind)
      ((project.closeDocument disk path).cache kind) := by
  have hhandled := handled_handle { project with buffers := [] } disk (.changed path) kind
  rw [cache_withBuffers, ← closeDocument_eq hbuffers] at hhandled
  exact hhandled

theorem AllLinked.reopened (h : project.AllLinked) (hcoherent : project.Coherent)
    (hbuffers : project.buffers = []) :
    ((project.openDocument disk path text).closeDocument disk path).AllLinked := by
  have hopened : (project.openDocument disk path text).AllLinked := by
    rw [openDocument_eq hbuffers]
    exact (h.withBuffers _).handle (hcoherent.withBuffers _) disk _
  have hopenedCoherent := hcoherent.perform (.openDocument disk path text)
  rw [closeDocument_eq (buffers_openDocument hbuffers disk path text)]
  exact (hopened.withBuffers _).handle (hopenedCoherent.withBuffers _) disk _

/-- A cache lists what it listed before if it is linked to the same controllers, or if controllers
do not count for it. -/
theorem snapshot_reopened {kind : EntityKind} {paths : List Path} (hbuffers : project.buffers = [])
    (hcoherent : project.Coherent) (hlinked : project.AllLinked)
    (hfilled : project.FilledFrom disk kind paths)
    (hscans : (project.cache kind).ScansAlike kind.source disk path paths)
    (hlink : kind.source.link
        ((project.openDocument disk path text).closeDocument disk path).published =
      kind.source.link project.published) :
    (((project.openDocument disk path text).closeDocument disk path).cache kind).snapshot =
      (project.cache kind).snapshot := by
  obtain ⟨hfilled, hfound⟩ := hfilled
  have hopen := handled_openDocument hbuffers disk path text kind
  have hclose := handled_closeDocument (buffers_openDocument hbuffers disk path text) disk kind
  have hentities := Cache.entities_reopened hfilled hfound hopen hclose kind.isWatchful_source
    hscans
  have hclosed := (hlinked.reopened hcoherent hbuffers kind).of_link_eq hlink
  exact hclosed.snapshot_eq_of_entities (hlinked kind)
    (hclose.filled (hopen.filled hfilled)).populated hfilled.populated hentities

end Opening
end Project

/-- **A buffer that is closed again leaves no trace.**  An index has been filled from the disk while
no buffer was open.  A buffer is opened at any path, with any text, and closed again.  Then the
caches of all kinds list what they listed before, and the same controllers are published.  Of the
path it is assumed that the scan of each kind finds it if and only if it is tracked and on disk, and
finds no other path with its key. -/
theorem closed_buffer_leaves_no_trace {root : Path} {config : Config} {start project : Project}
    (hstart : Project.ofConfig root config = .ok start) (operations : List Operation) {disk : Disk}
    (hbuffers : (start.run operations).buffers = [])
    (hrefresh : (start.run operations).refresh disk = (.ok (), project)) (path : Path)
    (text : String)
    (hscans : ∀ kind paths, disk.collect (project.cache kind).root (project.cache kind).filter
        kind.source.accepts = .ok paths →
      (project.cache kind).ScansAlike kind.source disk path paths) :
    let closed := (project.openDocument disk path text).closeDocument disk path
    closed.published = project.published ∧
      ∀ kind, (closed.cache kind).snapshot = (project.cache kind).snapshot := by
  intro closed
  have hcoherent : project.Coherent := by
    have hrefreshed := ((Project.coherent_ofConfig hstart).run operations).refresh disk
    rwa [hrefresh] at hrefreshed
  have hnone : project.buffers = [] := by
    have hkept := Project.refresh_buffers (start.run operations) disk
    rw [hrefresh] at hkept
    exact hkept.trans hbuffers
  have hlinked : project.AllLinked := Project.allLinked_of_refresh hcoherent hbuffers hrefresh
  have hlists (kind : EntityKind)
      (hlink : kind.source.link closed.published = kind.source.link project.published) :
      (closed.cache kind).snapshot = (project.cache kind).snapshot := by
    obtain ⟨paths, -, hscan, hfilled, -⟩ :=
      Project.filledFrom_of_refresh hbuffers hrefresh kind
    exact Project.snapshot_reopened hnone hcoherent hlinked hfilled (hscans kind paths hscan) hlink
  -- Controllers come first, since the others are linked to them.
  have hpublished : closed.published = project.published := by
    have hcontrollers : closed.controllers.snapshot = project.controllers.snapshot :=
      hlists .controllers rfl
    have hopened := hcoherent.perform (.openDocument disk path text)
    have hclosed : closed.Coherent := hopened.perform (.closeDocument disk path)
    rw [hclosed.published_eq, hcoherent.published_eq, hcontrollers]
  exact ⟨hpublished, fun kind => hlists kind (by rw [hpublished])⟩

/-! ### A controller that goes again -/

namespace Linking

/-- A path where there is no file. -/
def path : Path :=
  ⟨"/app/b.js"⟩

/-- A script that registers the controller of the component. -/
def text : String :=
  "class K {} x.controller('C', K)"

/-- The files that are read for a kind. -/
def scanned : EntityKind → List Path
  | .html => []
  | _ => [⟨"/app/a.js"⟩]

theorem collect_disk (kind : EntityKind) :
    disk.collect root ⟨[], []⟩ kind.source.accepts = .ok (scanned kind) := by
  cases kind with
  | controllers => exact congrArg Except.ok (List.mergeSort_singleton _)
  | components => exact congrArg Except.ok (List.mergeSort_singleton _)
  | directives => exact congrArg Except.ok (List.mergeSort_singleton _)
  | routes => exact congrArg Except.ok (List.mergeSort_singleton _)
  | html => exact congrArg Except.ok List.mergeSort_nil

theorem scansAlike (kind : EntityKind) (cache : Cache kind.Read kind.Listed) :
    cache.ScansAlike kind.source disk path (scanned kind) where
  mem_iff := by
    have hfile : disk.isFile path = false := by decide +kernel
    have hmem : path ∉ scanned kind := by
      cases kind <;> decide
    simp [hfile, hmem]
  alone := by
    cases kind <;> decide

end Linking

/-- While the buffer is open, the component is linked to the controller in it. -/
theorem linking_closed_buffer_leaves_no_trace :
    let project := (Linking.start.refresh Linking.disk).2
    let opened := project.openDocument Linking.disk Linking.path Linking.text
    let closed := opened.closeDocument Linking.disk Linking.path
    (opened.components.snapshot.map fun component => component.link.controller.isSome) = [true] ∧
      (project.components.snapshot.map fun component => component.link.controller.isSome) =
        [false] ∧
      closed.published = project.published ∧
      ∀ kind, (closed.cache kind).snapshot = (project.cache kind).snapshot := by
  intro project opened closed
  refine ⟨by decide +kernel, by decide +kernel, ?_⟩
  have hstart : Project.ofConfig Linking.root Linking.config = .ok Linking.start := rfl
  have hrefresh : Linking.start.refresh Linking.disk = (.ok (), project) := rfl
  refine closed_buffer_leaves_no_trace hstart [] rfl hrefresh Linking.path Linking.text ?_
  intro kind paths hscan
  have hroot : (project.cache kind).root = Linking.root := by cases kind <;> rfl
  have hfilter : (project.cache kind).filter = ⟨[], []⟩ := by cases kind <;> rfl
  rw [hroot, hfilter, Linking.collect_disk, Except.ok.injEq] at hscan
  rw [← hscan]
  exact Linking.scansAlike kind (project.cache kind)

end NgIndex
