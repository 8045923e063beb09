import NgIndex.Proofs.Index.Coherence

/-!
# Notifications

Whoever follows a cache is sent its list when it changes.  A cache can be listed anew by its own
update, by a refresh, or because controllers have changed, and one operation may be a reason for
more than one of these.  It is shown that an operation makes each cache send at most one list, that
this list is the one that the cache then has, and that none is missing: a cache whose list has
changed has sent it.  So whoever has followed a cache from the start knows its list.

An operation does the same kind of thing to each of the five caches, so this is said once for every
kind of entity.
-/

namespace NgIndex

/-! ### The caches by kind -/

namespace EntityKind

/-- What is read from files for a kind. -/
def Read : EntityKind → Type
  | .controllers => Controller
  | .components => Component
  | .directives => Directive
  | .routes => Route
  | .html => HtmlReference

/-- What is listed for a kind. -/
def Listed : EntityKind → Type
  | .controllers => LinkedController
  | .components => Component
  | .directives => Directive
  | .routes => Route
  | .html => HtmlReference

/-- How the entities of a kind are read and linked. -/
def source : (kind : EntityKind) → Source kind.Read kind.Listed
  | .controllers => Source.controllers
  | .components => Source.components
  | .directives => Source.directives
  | .routes => Source.routes
  | .html => Source.html

end EntityKind

/-- The cache for a kind. -/
def Project.cache (project : Project) : (kind : EntityKind) → Cache kind.Read kind.Listed
  | .controllers => project.controllers
  | .components => project.components
  | .directives => project.directives
  | .routes => project.routes
  | .html => project.html

namespace Cache

variable {α β : Type} {source : Source α β} {set : ControllerSet} {files : Files}
  {before after : Cache α β}

/-! ### What an event does to a cache -/

/-- An update that says that there was nothing to do has done nothing. -/
theorem update_eq_of_false {removed touched : List Path}
    (h : (before.update source set files removed touched).1 = false) :
    (before.update source set files removed touched).2 = before := by
  rcases update_cases source set files removed touched before with hnone | ⟨-, _, hsome⟩
  · rw [hnone]
  · rw [hsome] at h
    cases h

/-- A cache that an event has gone through.  It has been updated; or there was nothing to update,
and its entities have been linked again. -/
inductive Handled (source : Source α β) (files : Files) (event : FileEvent)
    (before after : Cache α β) : Prop where
  | updated (set : ControllerSet)
      (heq : after = (before.update source set files event.removed event.touched).2)
  | relinked (set : ControllerSet)
      (hnone : (before.update source set files event.removed event.touched).1 = false)
      (heq : after = before.relink source set)

theorem handled_applyLinked (source : Source α β) (set : ControllerSet) (files : Files)
    (event : FileEvent) (changed : Bool) (cache : Cache α β) :
    Handled source files event cache
      (Project.applyLinked source set files event changed cache) := by
  unfold Project.applyLinked Project.apply
  cases hupdate : (cache.update source set files event.removed event.touched).1 with
  | true => exact .updated set (by simp [hupdate])
  | false =>
      cases changed with
      | true => exact .relinked set hupdate (by simp [hupdate, update_eq_of_false hupdate])
      | false => exact .updated set (by simp)

/-! ### What a cache sends -/

/-- What a cache has told meanwhile: nothing, and its list is as it was; or its list as it is now,
and nothing else. -/
inductive Told (before after : Cache α β) : Prop where
  | nothing (hsnapshot : after.snapshot = before.snapshot) (hsent : after.sent = before.sent)
  | news (hsent : after.sent = after.snapshot :: before.sent)

theorem told_refresh (source : Source α β) (set : ControllerSet) (files : Files)
    (cache : Cache α β) : cache.Told (cache.refresh source set files).2 := by
  cases hscan : files.disk.collect cache.root cache.filter source.accepts with
  | error error =>
      rw [refresh_of_collect_error set hscan]
      exact .nothing rfl rfl
  | ok paths =>
      rw [refresh_of_collect_ok set hscan]
      exact .news rfl

theorem told_update (source : Source α β) (set : ControllerSet) (files : Files)
    (removed touched : List Path) (cache : Cache α β) :
    cache.Told (cache.update source set files removed touched).2 := by
  rcases update_cases source set files removed touched cache with hnone | ⟨-, _, hsome⟩
  · rw [hnone]
    exact .nothing rfl rfl
  · rw [hsome]
    exact .news rfl

theorem told_relink (source : Source α β) (set : ControllerSet) (cache : Cache α β) :
    cache.Told (cache.relink source set) := by
  unfold relink
  split
  · exact .news rfl
  · exact .nothing rfl rfl

theorem Handled.told {event : FileEvent} (h : Handled source files event before after) :
    before.Told after := by
  cases h with
  | updated set heq =>
      rw [heq]
      exact told_update _ _ _ _ _ _
  | relinked set _ heq =>
      rw [heq]
      exact told_relink _ _ _

/-- Whoever has followed the cache knows its list: it was sent last, or nothing was sent and there
is nothing to list. -/
def IsKnown (cache : Cache α β) : Prop :=
  cache.sent.head? = some cache.snapshot ∨ cache.sent = [] ∧ cache.snapshot = []

theorem Told.isKnown (h : before.Told after) (hknown : before.IsKnown) : after.IsKnown := by
  cases h with
  | nothing hsnapshot hsent =>
      unfold IsKnown
      rw [hsnapshot, hsent]
      exact hknown
  | news hsent =>
      left
      rw [hsent]
      rfl

end Cache

namespace Project

variable {project : Project}

/-! ### What an operation does to the caches -/

/-- An event goes through all caches.  Those after the controllers are linked to the controllers
that are published then. -/
theorem handle_eq (project : Project) (disk : Disk) (event : FileEvent) :
    let files := project.files disk
    let updated := project.controllers.update Source.controllers project.published files
      event.removed event.touched
    let set : ControllerSet := if updated.1 then ⟨updated.2.snapshot⟩ else project.published
    project.handle disk event = { project with
      published := set
      controllers := updated.2
      components := applyLinked Source.components set files event updated.1 project.components
      directives := (apply Source.directives set files event project.directives).2
      routes := applyLinked Source.routes set files event updated.1 project.routes
      html := (apply Source.html set files event project.html).2 } := by
  unfold handle apply
  cases hupdate : project.controllers.update Source.controllers project.published
      (project.files disk) event.removed event.touched with
  | mk changed controllers =>
      cases changed with
      | true =>
          simp only [hupdate]
          rfl
      | false =>
          simp only [hupdate]
          rfl

theorem handled_handle (project : Project) (disk : Disk) (event : FileEvent) (kind : EntityKind) :
    Cache.Handled kind.source (project.files disk) event (project.cache kind)
      ((project.handle disk event).cache kind) := by
  rw [handle_eq]
  cases kind with
  | controllers => exact .updated _ rfl
  | components => exact Cache.handled_applyLinked _ _ _ _ _ _
  | directives => exact .updated _ rfl
  | routes => exact Cache.handled_applyLinked _ _ _ _ _ _
  | html => exact .updated _ rfl

theorem all_ok {ε : Type} {first second third fourth : Except ε Unit}
    (h : (do first; second; third; fourth) = .ok ()) :
    first = .ok () ∧ second = .ok () ∧ third = .ok () ∧ fourth = .ok () := by
  cases first with
  | error error => cases h
  | ok =>
      cases second with
      | error error => cases h
      | ok =>
          cases third with
          | error error => cases h
          | ok => exact ⟨rfl, rfl, rfl, h⟩

/-- What a refresh does to the cache of each kind: nothing if it fails for controllers, and else the
cache is refreshed.  If the whole succeeds, it has succeeded for each kind. -/
theorem refresh_cache_cases (project : Project) (disk : Disk) (kind : EntityKind) :
    ((project.refresh disk).1 ≠ .ok () ∧
      (project.refresh disk).2.cache kind = project.cache kind) ∨
    ∃ set, let refreshed := (project.cache kind).refresh kind.source set (project.files disk)
      ((project.refresh disk).1 = .ok () → refreshed.1 = .ok ()) ∧
        (project.refresh disk).2.cache kind = refreshed.2 := by
  unfold refresh
  cases hrefresh : project.controllers.refresh Source.controllers project.published
      (project.files disk) with
  | mk outcome controllers =>
      cases outcome with
      | error error =>
          -- The scan for controllers has failed, and nothing else is read.
          rw [refreshSeeing_of_error (fun _ => disk) hrefresh]
          have hfailed : Except.error error ≠ Except.ok () := by
            intro hsame
            cases hsame
          cases kind with
          | controllers =>
              right
              refine ⟨project.published, fun hok => absurd hok hfailed, ?_⟩
              exact (congrArg Prod.snd hrefresh).symm
          | components => exact .inl ⟨hfailed, rfl⟩
          | directives => exact .inl ⟨hfailed, rfl⟩
          | routes => exact .inl ⟨hfailed, rfl⟩
          | html => exact .inl ⟨hfailed, rfl⟩
      | ok =>
          right
          rw [refreshSeeing_of_ok (fun _ => disk) hrefresh]
          have hall (hok : (project.refreshSeeing fun _ => disk).1 = .ok ()) := by
            simp only [refreshSeeing, hrefresh] at hok
            exact all_ok hok
          cases kind with
          | controllers =>
              refine ⟨project.published, fun _ => ?_, ?_⟩
              · exact congrArg Prod.fst hrefresh
              · exact (congrArg Prod.snd hrefresh).symm
          | components => exact ⟨_, fun hok => (hall hok).1, rfl⟩
          | directives => exact ⟨_, fun hok => (hall hok).2.1, rfl⟩
          | routes => exact ⟨_, fun hok => (hall hok).2.2.1, rfl⟩
          | html => exact ⟨_, fun hok => (hall hok).2.2.2, rfl⟩

/-- Opening or closing a buffer by itself does not touch the caches. -/
theorem cache_withBuffers (project : Project) (buffers : List (String × String))
    (kind : EntityKind) : ({ project with buffers } : Project).cache kind = project.cache kind := by
  cases kind with
  | controllers => rfl
  | components => rfl
  | directives => rfl
  | routes => rfl
  | html => rfl

/-- What an operation does to the cache of each kind: nothing, or the cache is refreshed, or an event
goes through it. -/
theorem perform_cache_cases (project : Project) (operation : Operation) (kind : EntityKind) :
    (project.perform operation).cache kind = project.cache kind ∨
      (∃ set files, (project.perform operation).cache kind =
        ((project.cache kind).refresh kind.source set files).2) ∨
      ∃ files event, Cache.Handled kind.source files event (project.cache kind)
        ((project.perform operation).cache kind) := by
  have hhandled (buffers : List (String × String)) (disk : Disk) (path : Path) :
      ∃ files event, Cache.Handled kind.source files event (project.cache kind)
        (({ project with buffers }.handle disk (.changed path)).cache kind) := by
    rw [← cache_withBuffers project buffers kind]
    exact ⟨_, _, handled_handle { project with buffers } disk (.changed path) kind⟩
  cases operation with
  | refresh disk =>
      rcases refresh_cache_cases project disk kind with ⟨-, hsame⟩ | ⟨set, -, hrefreshed⟩
      · exact .inl hsame
      · exact .inr (.inl ⟨set, _, hrefreshed⟩)
  | handle disk event => exact .inr (.inr ⟨_, event, handled_handle project disk event kind⟩)
  | openDocument disk path text => exact .inr (.inr (hhandled _ disk path))
  | closeDocument disk path =>
      by_cases hopen : (project.files disk).hasBuffer path = true
      · refine .inr (.inr ?_)
        rw [perform, closeDocument, if_pos hopen]
        exact hhandled _ disk path
      · left
        rw [perform, closeDocument, if_neg hopen]

/-- During one operation each cache tells nothing, or its list as it is afterwards. -/
theorem told_perform (project : Project) (operation : Operation) (kind : EntityKind) :
    (project.cache kind).Told ((project.perform operation).cache kind) := by
  rcases perform_cache_cases project operation kind with
    hsame | ⟨set, files, hrefreshed⟩ | ⟨files, event, hhandled⟩
  · rw [hsame]
    exact .nothing rfl rfl
  · rw [hrefreshed]
    exact Cache.told_refresh _ _ _ _
  · exact hhandled.told

end Project

/-- **One notification for a change.**  Whatever is done to an index, each cache sends at most one
list meanwhile, and this is its list as it is afterwards.  If that is another list than before, the
cache has sent it.  An update that says that there was nothing to do has left the cache as it was,
and has sent nothing. -/
theorem one_notification_per_change (project : Project) (operation : Operation)
    (kind : EntityKind) :
    let before := project.cache kind
    let after := (project.perform operation).cache kind
    (∃ news, after.sent = news ++ before.sent ∧ news.length ≤ 1 ∧
      (∀ list ∈ news, list = after.snapshot) ∧
      (after.snapshot ≠ before.snapshot → news.length = 1)) ∧
    ∀ set files removed touched,
      (before.update kind.source set files removed touched).1 = false →
      (before.update kind.source set files removed touched).2 = before := by
  intro before after
  constructor
  · cases Project.told_perform project operation kind with
    | nothing hsnapshot hsent =>
        exact ⟨[], hsent, Nat.zero_le _, fun _ hlist => absurd hlist List.not_mem_nil,
          fun hne => absurd hsnapshot hne⟩
    | news hsent =>
        exact ⟨[after.snapshot], hsent, Nat.le_refl _, fun _ => List.mem_singleton.mp, fun _ => rfl⟩
  · intro set files removed touched
    exact Cache.update_eq_of_false

/-- Nothing is sent before anything is done, and nothing is listed. -/
theorem Project.isKnown_ofConfig {root : Path} {config : Config} {start : Project}
    (h : ofConfig root config = .ok start) (kind : EntityKind) : (start.cache kind).IsKnown := by
  obtain ⟨_, _, _, _, _, rfl⟩ := exists_filters_of_ofConfig h
  cases kind with
  | controllers => exact .inr ⟨rfl, rfl⟩
  | components => exact .inr ⟨rfl, rfl⟩
  | directives => exact .inr ⟨rfl, rfl⟩
  | routes => exact .inr ⟨rfl, rfl⟩
  | html => exact .inr ⟨rfl, rfl⟩

theorem Project.isKnown_run {project : Project} {kind : EntityKind}
    (h : (project.cache kind).IsKnown) (operations : List Operation) :
    ((project.run operations).cache kind).IsKnown := by
  induction operations generalizing project with
  | nil => exact h
  | cons operation rest ih => exact ih ((told_perform project operation kind).isKnown h)

/-- Whoever has followed a cache since the index was made knows its list. -/
theorem lists_known_after_run {root : Path} {config : Config} {start : Project}
    (hstart : Project.ofConfig root config = .ok start) (operations : List Operation)
    (kind : EntityKind) : ((start.run operations).cache kind).IsKnown :=
  Project.isKnown_run (Project.isKnown_ofConfig hstart kind) operations

end NgIndex
