import NgIndex.Index.Project
import NgIndex.Proofs.Entity.Route
import NgIndex.Proofs.Index.Update

/-!
# Links to controllers

Components and routes hold the controllers that they refer to, as they were when they were linked.
Controllers change when their own files do, and the files of components and routes need not be
touched by that.  It is shown that the links are never behind: after every operation the published
controllers are those of the cache, and every link holds what its own reference means among them.

An operation sees one disk from its start to its end.  All caches look below the same root, so the
scans of a refresh succeed or fail together.
-/

namespace NgIndex

/-! ### Links -/

/-- A link holds what its reference means in a set of controllers.  The registered name counts, the
class name only if there is no registered one. -/
structure ControllerLink.Fresh (set : ControllerSet) (link : ControllerLink) : Prop where
  of_name : ∀ name, link.controllerName = some name → link.controller = set.byName? name
  of_class : link.controllerName = none → ∀ className, link.controllerClassName = some className →
    link.controller = set.byClassName? className
  absent : link.controllerName = none → link.controllerClassName = none → link.controller = none

theorem ControllerLink.fresh_resolve (link : ControllerLink) (set : ControllerSet) :
    (link.resolve set).Fresh set where
  of_name name hname := by
    change link.controllerName = some name at hname
    change link.target? set = set.byName? name
    simp only [target?, hname]
  of_class hname className hclass := by
    change link.controllerName = none at hname
    change link.controllerClassName = some className at hclass
    change link.target? set = set.byClassName? className
    simp only [target?, hname, hclass]
  absent hname hclass := by
    change link.controllerName = none at hname
    change link.controllerClassName = none at hclass
    change link.target? set = none
    simp only [target?, hname, hclass]

/-- A route itself, or a view at any depth below it. -/
inductive Route.Within : Route → Route → Prop where
  | self (route : Route) : Within route route
  | view {inner view route : Route} : view ∈ route.views → Within inner view → Within inner route

namespace Route

/-- All links of a resolved route are fresh, those of its views included. -/
theorem fresh_of_within_resolve {set : ControllerSet} {inner route : Route}
    (h : Within inner (route.resolve set)) : inner.link.Fresh set := by
  generalize hresolved : route.resolve set = resolved at h
  induction h generalizing route with
  | self =>
      rw [← hresolved, resolve_link]
      exact ControllerLink.fresh_resolve route.link set
  | view hview _ ih =>
      -- a view of a resolved route is itself the resolution of a view
      rw [← hresolved, resolve_views] at hview
      obtain ⟨view, -, hview⟩ := List.mem_map.mp hview
      exact ih hview

end Route

/-! ### Caches -/

namespace Cache

variable {α β : Type} {source : Source α β} {set old : ControllerSet} {files : Files}
  {cache : Cache α β}

/-- A cache lists its entities linked to a set of controllers.  If it was never filled, it lists
nothing. -/
def Linked (source : Source α β) (set : ControllerSet) (cache : Cache α β) : Prop :=
  cache.snapshot =
    if cache.populated then
      source.link set (cache.contributions.values.flatMap fun c => c.entities)
    else []

theorem linked_rebuild (hpopulated : cache.populated = true) :
    (cache.rebuild source set).notify.Linked source set := by
  exact (if_pos hpopulated).symm

theorem Linked.mem_link {entity : β} (h : cache.Linked source set)
    (hentity : entity ∈ cache.snapshot) : ∃ entities, entity ∈ source.link set entities := by
  rw [h] at hentity
  split at hentity
  · exact ⟨_, hentity⟩
  · exact absurd hentity List.not_mem_nil

/-- A refresh that can scan the root links everything to the given controllers. -/
theorem linked_refresh {paths : List Path}
    (h : files.disk.collect cache.root cache.filter source.accepts = .ok paths) :
    (cache.refresh source set files).2.Linked source set := by
  rw [refresh_of_collect_ok set h]
  exact linked_rebuild rfl

theorem refresh_root (source : Source α β) (set : ControllerSet) (files : Files)
    (cache : Cache α β) : (cache.refresh source set files).2.root = cache.root := by
  cases hscan : files.disk.collect cache.root cache.filter source.accepts with
  | error error => rw [refresh_of_collect_error set hscan]
  | ok paths =>
      rw [refresh_of_collect_ok set hscan]
      rfl

theorem Linked.relink (h : cache.Linked source old) :
    (cache.relink source set).Linked source set := by
  unfold Cache.relink
  cases hpopulated : cache.populated with
  | true => exact linked_rebuild hpopulated
  | false =>
      -- nothing is listed, whatever it would be linked to
      unfold Linked at h ⊢
      rw [hpopulated] at h
      simp only [hpopulated, h, Bool.false_eq_true, if_false]

theorem relink_root (source : Source α β) (set : ControllerSet) (cache : Cache α β) :
    (cache.relink source set).root = cache.root := by
  unfold Cache.relink
  split
  · rfl
  · rfl

/-- A cache that an event goes through is linked to the controllers after the event, if it was
linked to those before it and is told when they differ. -/
theorem Linked.applyLinked {changed : Bool} (h : cache.Linked source old)
    (hset : changed = false → old = set) (files : Files) (event : FileEvent) :
    (Project.applyLinked source set files event changed cache).Linked source set := by
  unfold Project.applyLinked Project.apply
  rcases update_cases source set files event.removed event.touched cache with
    hnone | ⟨hpopulated, contributions, hsome⟩
  · rw [hnone]
    cases changed with
    | true => exact h.relink
    | false =>
        rw [← hset rfl]
        exact h
  · rw [hsome]
    exact linked_rebuild hpopulated

theorem applyLinked_root (source : Source α β) (set : ControllerSet) (files : Files)
    (event : FileEvent) (changed : Bool) (cache : Cache α β) :
    (Project.applyLinked source set files event changed cache).root = cache.root := by
  have hupdate := (update_root_filter source set files event.removed event.touched cache).1
  unfold Project.applyLinked Project.apply
  split
  next updated next hpair =>
    rw [hpair] at hupdate
    split
    · rw [relink_root, hupdate]
    · exact hupdate

end Cache

/-- Whether a root can be scanned does not depend on which files are looked for. -/
theorem Disk.collect_ok {disk : Disk} {root : Path} {filter : PathFilter} {accepts : Path → Bool}
    {paths : List Path} (h : disk.collect root filter accepts = .ok paths) (other : PathFilter)
    (accepts' : Path → Bool) : ∃ paths', disk.collect root other accepts' = .ok paths' := by
  unfold Disk.collect at h ⊢
  cases hfind : disk.find root with
  | error cause =>
      rw [hfind] at h
      cases h
  | ok entry =>
      rw [hfind] at h
      cases entry with
      | file name bytes => cases h
      | folder name entries => exact ⟨_, rfl⟩

/-! ### Operations -/

/-- What can be done to an index, with the disk that is there while it is done. -/
inductive Operation where
  | refresh (disk : Disk)
  | handle (disk : Disk) (event : FileEvent)
  | openDocument (disk : Disk) (path : Path) (text : String)
  | closeDocument (disk : Disk) (path : Path)

namespace Project

/-- The index after an operation.  A refresh that fails also leaves an index. -/
def perform (project : Project) : Operation → Project
  | .refresh disk => (project.refresh disk).2
  | .handle disk event => project.handle disk event
  | .openDocument disk path text => project.openDocument disk path text
  | .closeDocument disk path => project.closeDocument disk path

/-- The index after operations one after another. -/
def run (project : Project) (operations : List Operation) : Project :=
  operations.foldl perform project

/-- Components and routes are linked to the published controllers, and these are the ones of the
cache. -/
structure Coherent (project : Project) : Prop where
  published_eq : project.published = ⟨project.controllers.snapshot⟩
  components_linked : project.components.Linked Source.components project.published
  routes_linked : project.routes.Linked Source.routes project.published
  components_root : project.components.root = project.controllers.root
  routes_root : project.routes.root = project.controllers.root

theorem exists_of_bind_eq_ok {ε α β : Type} {first : Except ε α} {rest : α → Except ε β}
    {result : β} (h : first >>= rest = .ok result) : ∃ value, rest value = .ok result := by
  cases first with
  | error error => cases h
  | ok value => exact ⟨value, h⟩

/-- An index that was just made has empty caches. -/
theorem exists_filters_of_ofConfig {root : Path} {config : Config} {project : Project}
    (h : ofConfig root config = .ok project) :
    ∃ controllers components directives routes html : PathFilter, project = {
      root
      config
      controllers := { root, filter := controllers }
      components := { root, filter := components }
      directives := { root, filter := directives }
      routes := { root, filter := routes }
      html := { root, filter := html } } := by
  obtain ⟨controllers, h⟩ := exists_of_bind_eq_ok h
  obtain ⟨components, h⟩ := exists_of_bind_eq_ok h
  obtain ⟨directives, h⟩ := exists_of_bind_eq_ok h
  obtain ⟨routes, h⟩ := exists_of_bind_eq_ok h
  obtain ⟨html, h⟩ := exists_of_bind_eq_ok h
  exact ⟨controllers, components, directives, routes, html, (Except.ok.inj h).symm⟩

theorem coherent_ofConfig {root : Path} {config : Config} {project : Project}
    (h : ofConfig root config = .ok project) : project.Coherent := by
  obtain ⟨_, _, _, _, _, rfl⟩ := exists_filters_of_ofConfig h
  exact ⟨rfl, rfl, rfl, rfl, rfl⟩

variable {project : Project}

/-- The buffers count only when files are read. -/
theorem Coherent.withBuffers (h : project.Coherent) (buffers : List (String × String)) :
    Coherent { project with buffers } :=
  ⟨h.published_eq, h.components_linked, h.routes_linked, h.components_root, h.routes_root⟩

/-! ### Refreshes of all caches -/

section Refreshes

variable {controllers : Cache Controller LinkedController}

theorem refreshSeeing_of_error (see : EntityKind → Disk) {error : ScanError}
    (h : project.controllers.refresh Source.controllers project.published
      (project.files (see .controllers)) = (.error error, controllers)) :
    project.refreshSeeing see = (.error error, { project with controllers }) := by
  simp only [refreshSeeing, h]

/-- If the controllers could be read, the others are linked to what was found. -/
theorem refreshSeeing_of_ok (see : EntityKind → Disk)
    (h : project.controllers.refresh Source.controllers project.published
      (project.files (see .controllers)) = (.ok (), controllers)) :
    let set : ControllerSet := ⟨controllers.snapshot⟩
    (project.refreshSeeing see).2 = { project with
      published := set
      controllers
      components := (project.components.refresh Source.components set
        (project.files (see .components))).2
      directives := (project.directives.refresh Source.directives set
        (project.files (see .directives))).2
      routes := (project.routes.refresh Source.routes set (project.files (see .routes))).2
      html := (project.html.refresh Source.html set (project.files (see .html))).2 } := by
  simp only [refreshSeeing, h]
  rfl

end Refreshes

theorem Coherent.refresh (h : project.Coherent) (disk : Disk) :
    (project.refresh disk).2.Coherent := by
  unfold Project.refresh
  cases hscan : (project.files disk).disk.collect project.controllers.root
      project.controllers.filter Source.controllers.accepts with
  | error error =>
      -- nothing is published, and nothing else is read
      have hrefresh := Cache.refresh_of_collect_error project.published hscan
      rw [refreshSeeing_of_error (fun _ => disk) hrefresh]
      exact ⟨h.published_eq, h.components_linked, h.routes_linked, h.components_root, h.routes_root⟩
  | ok paths =>
      -- the root could be scanned once, so it can be scanned for components and routes
      obtain ⟨components, hcomponents⟩ :=
        Disk.collect_ok hscan project.components.filter Source.components.accepts
      obtain ⟨routes, hroutes⟩ :=
        Disk.collect_ok hscan project.routes.filter Source.routes.accepts
      rw [← h.components_root] at hcomponents
      rw [← h.routes_root] at hroutes
      have hrefresh := Cache.refresh_of_collect_ok project.published hscan
      rw [refreshSeeing_of_ok (fun _ => disk) hrefresh]
      constructor
      · rfl
      · exact Cache.linked_refresh hcomponents
      · exact Cache.linked_refresh hroutes
      · exact (Cache.refresh_root _ _ _ _).trans h.components_root
      · exact (Cache.refresh_root _ _ _ _).trans h.routes_root

/-! ### File events -/

theorem Coherent.handle (h : project.Coherent) (disk : Disk) (event : FileEvent) :
    (project.handle disk event).Coherent := by
  unfold Project.handle
  rcases Cache.update_cases Source.controllers project.published (project.files disk)
    event.removed event.touched project.controllers with hnone | ⟨-, contributions, hsome⟩
  · -- the controllers stay, so the others may stay linked as they are
    simp only [apply, hnone, Bool.false_eq_true, if_false]
    constructor
    · exact h.published_eq
    · exact h.components_linked.applyLinked (fun _ => rfl) _ _
    · exact h.routes_linked.applyLinked (fun _ => rfl) _ _
    · exact (Cache.applyLinked_root _ _ _ _ _ _).trans h.components_root
    · exact (Cache.applyLinked_root _ _ _ _ _ _).trans h.routes_root
  · simp only [apply, hsome, if_true]
    constructor
    · rfl
    · exact h.components_linked.applyLinked (fun hchanged => absurd hchanged (by decide)) _ _
    · exact h.routes_linked.applyLinked (fun hchanged => absurd hchanged (by decide)) _ _
    · exact (Cache.applyLinked_root _ _ _ _ _ _).trans h.components_root
    · exact (Cache.applyLinked_root _ _ _ _ _ _).trans h.routes_root

/-- One operation keeps the links fresh. -/
theorem Coherent.perform (h : project.Coherent) (operation : Operation) :
    (project.perform operation).Coherent := by
  cases operation with
  | refresh disk => exact h.refresh disk
  | handle disk event => exact h.handle disk event
  | openDocument disk path text =>
      exact (h.withBuffers ((project.files disk).openBuffer path text).buffers).handle disk
        (.changed path)
  | closeDocument disk path =>
      change (project.closeDocument disk path).Coherent
      unfold Project.closeDocument
      simp only
      split
      · exact (h.withBuffers ((project.files disk).closeBuffer path).buffers).handle disk
          (.changed path)
      · exact h

theorem Coherent.run (h : project.Coherent) (operations : List Operation) :
    (project.run operations).Coherent := by
  induction operations generalizing project with
  | nil => exact h
  | cons operation rest ih => exact ih (h.perform operation)

end Project

/-- **Links are never behind.**  However an index has been worked on since it was made, its
published controllers are those of the cache, and every component, every route and every view holds
the controller that its own reference means among them. -/
theorem links_fresh_after_run {root : Path} {config : Config} {start : Project}
    (hstart : Project.ofConfig root config = .ok start) (operations : List Operation) :
    let project := start.run operations
    project.published.controllers = project.controllers.snapshot ∧
      (∀ component ∈ project.components.snapshot, component.link.Fresh project.published) ∧
      ∀ route ∈ project.routes.snapshot, ∀ inner, Route.Within inner route →
        inner.link.Fresh project.published := by
  intro project
  have hcoherent : project.Coherent := (Project.coherent_ofConfig hstart).run operations
  refine ⟨congrArg ControllerSet.controllers hcoherent.published_eq, ?_, ?_⟩
  · intro component hcomponent
    obtain ⟨entities, hmem⟩ := hcoherent.components_linked.mem_link hcomponent
    obtain ⟨source, -, rfl⟩ := List.mem_map.mp hmem
    exact ControllerLink.fresh_resolve source.link project.published
  · intro route hroute inner hinner
    obtain ⟨entities, hmem⟩ := hcoherent.routes_linked.mem_link hroute
    obtain ⟨source, -, rfl⟩ := List.mem_map.mp hmem
    exact Route.fresh_of_within_resolve hinner

/-! ### A controller that appears later -/

namespace Linking

/-- Settings that leave nothing out. -/
def config : Config where
  componentGlobs := []
  controllerGlobs := []
  directiveGlobs := []
  routeGlobs := []
  htmlGlobs := []
  exclude := []
  publicMembersOnly := false
  excludedMembers := none
  definitions := {}

def root : Path :=
  ⟨"/app"⟩

/-- A script that registers a component with a controller. -/
def disk : Disk where
  root := .folder "" [.folder "app"
    [.file "a.js" "x.component('c', \x7bcontroller: 'C'\x7d)".toUTF8]]

def start : Project where
  root
  config
  controllers := { root, filter := ⟨[], []⟩ }
  components := { root, filter := ⟨[], []⟩ }
  directives := { root, filter := ⟨[], []⟩ }
  routes := { root, filter := ⟨[], []⟩ }
  html := { root, filter := ⟨[], []⟩ }

/-- The controller is registered in a buffer only, after the component was read. -/
def operations : List Operation :=
  [.refresh disk, .openDocument disk ⟨"/app/b.js"⟩ "class K {} x.controller('C', K)"]

end Linking

/-- The component is linked to the controller, although its own file is not read again. -/
theorem linking_links_fresh_after_run :
    let project := Linking.start.run Linking.operations
    (project.components.snapshot.map fun component => component.link.controller.isSome) = [true] ∧
      ∀ component ∈ project.components.snapshot, component.link.Fresh project.published := by
  intro project
  refine ⟨by decide +kernel, ?_⟩
  have hstart : Project.ofConfig Linking.root Linking.config = .ok Linking.start := rfl
  exact (links_fresh_after_run hstart Linking.operations).2.1

end NgIndex
