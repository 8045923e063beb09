import NgIndex.Proofs.Index.Coherence

/-!
# Refreshes that fail in part

A refresh scans the root five times, once for each kind of entity.  The root may vanish or come
back in between, so each scan may succeed or fail on its own.  Controllers are scanned first and
published at once; the others are read and linked after that, and one that cannot be scanned keeps
what it had.

What it had is linked to the controllers of before.  So a refresh that fails leaves links behind if
controllers were found that give another meaning to a reference of a component or a route, and the
components or the routes could not be scanned after that.  It is shown that this is the only way in
which links come to be behind.  The published controllers are those of the cache in any case.
-/

namespace NgIndex

/-! ### Scans -/

/-- There is a folder at a path, so that it can be scanned. -/
def Disk.Scannable (disk : Disk) (root : Path) : Prop :=
  ∃ name entries, disk.find root = .ok (.folder name entries)

theorem Disk.scannable_iff_collect {disk : Disk} {root : Path} {filter : PathFilter}
    {accepts : Path → Bool} :
    disk.Scannable root ↔ ∃ paths, disk.collect root filter accepts = .ok paths := by
  unfold Disk.Scannable Disk.collect
  cases disk.find root with
  | error cause => simp
  | ok entry =>
      cases entry with
      | file name bytes => simp
      | folder name entries => simp

namespace Cache

variable {α β : Type} (source : Source α β) (set : ControllerSet) (files : Files)
  {cache : Cache α β}

theorem refresh_of_scannable (h : files.disk.Scannable cache.root) :
    ∃ after, cache.refresh source set files = (.ok (), after) := by
  obtain ⟨paths, hpaths⟩ := Disk.scannable_iff_collect.mp h
  exact ⟨_, refresh_of_collect_ok set hpaths⟩

/-- A scan that fails leaves all as it was, except that a refresh has started. -/
theorem refresh_of_not_scannable (h : ¬ files.disk.Scannable cache.root) :
    ∃ error, cache.refresh source set files =
      (.error error, { cache with generation := cache.generation + 1 }) := by
  cases hscan : files.disk.collect cache.root cache.filter source.accepts with
  | error error => exact ⟨error, refresh_of_collect_error set hscan⟩
  | ok paths => exact absurd (Disk.scannable_iff_collect.mpr ⟨paths, hscan⟩) h

/-- What holds of everything that is linked to a set of controllers holds of the list after a
refresh, unless the scan fails and it does not hold of the list before. -/
theorem forall_mem_snapshot_refresh_iff (cache : Cache α β) {P : β → Prop}
    (hlink : ∀ entities, ∀ entity ∈ source.link set entities, P entity) :
    (∀ entity ∈ (cache.refresh source set files).2.snapshot, P entity) ↔
      files.disk.Scannable cache.root ∨ ∀ entity ∈ cache.snapshot, P entity := by
  by_cases hscan : files.disk.Scannable cache.root
  · obtain ⟨paths, hpaths⟩ := Disk.scannable_iff_collect.mp hscan
    rw [refresh_of_collect_ok set hpaths]
    exact ⟨fun _ => .inl hscan, fun _ => hlink _⟩
  · obtain ⟨error, hrefresh⟩ := refresh_of_not_scannable source set files hscan
    rw [hrefresh]
    exact ⟨.inr, fun h => h.resolve_left hscan⟩

end Cache

/-! ### Links and sets of controllers -/

theorem ControllerLink.fresh_iff {set : ControllerSet} {link : ControllerLink} :
    link.Fresh set ↔ link.controller = link.target? set := by
  constructor
  · intro h
    cases hname : link.controllerName with
    | some name => simpa only [target?, hname] using h.of_name name hname
    | none =>
        cases hclass : link.controllerClassName with
        | some className =>
            simpa only [target?, hname, hclass] using h.of_class hname className hclass
        | none => simpa only [target?, hname, hclass] using h.absent hname hclass
  · intro h
    have hresolved : link.resolve set = link := by
      unfold resolve
      rw [← h]
    rw [← hresolved]
    exact fresh_resolve link set

/-- A link that is fresh in one set is fresh in another where its reference means the same. -/
theorem ControllerLink.Fresh.iff_target?_eq {old set : ControllerSet} {link : ControllerLink}
    (h : link.Fresh old) : link.Fresh set ↔ link.target? set = link.target? old := by
  rw [fresh_iff] at h ⊢
  rw [h]
  exact eq_comm

theorem fresh_of_mem_link_components {set : ControllerSet} {entities : List Component}
    {component : Component} (h : component ∈ Source.components.link set entities) :
    component.link.Fresh set := by
  obtain ⟨source, -, rfl⟩ := List.mem_map.mp h
  exact ControllerLink.fresh_resolve source.link set

theorem fresh_of_mem_link_routes {set : ControllerSet} {entities : List Route} {route : Route}
    (h : route ∈ Source.routes.link set entities) (inner : Route)
    (hinner : Route.Within inner route) : inner.link.Fresh set := by
  obtain ⟨source, -, rfl⟩ := List.mem_map.mp h
  exact Route.fresh_of_within_resolve hinner

namespace Project

/-- The published controllers are those of the cache, and every component, every route and every
view holds the controller that its reference means among them. -/
structure LinksFresh (project : Project) : Prop where
  published : project.published.controllers = project.controllers.snapshot
  components : ∀ component ∈ project.components.snapshot, component.link.Fresh project.published
  routes : ∀ route ∈ project.routes.snapshot, ∀ inner, Route.Within inner route →
    inner.link.Fresh project.published

variable {project : Project} {see : EntityKind → Disk}

/-- If there is no root to look for controllers in, all stays as it was. -/
theorem LinksFresh.refreshSeeing_of_not_scannable (h : project.LinksFresh)
    (hscan : ¬ (see .controllers).Scannable project.controllers.root) :
    (project.refreshSeeing see).2.LinksFresh := by
  obtain ⟨error, hrefresh⟩ :=
    Cache.refresh_of_not_scannable Source.controllers project.published
      (project.files (see .controllers)) hscan
  rw [refreshSeeing_of_error see hrefresh]
  exact ⟨h.published, h.components, h.routes⟩

/-- If controllers were found they are published, and links are behind only where a scan fails after
that and an old link is not fresh among them. -/
theorem linksFresh_refreshSeeing_iff
    (hscan : (see .controllers).Scannable project.controllers.root) :
    let after := (project.refreshSeeing see).2
    after.published.controllers = after.controllers.snapshot ∧
      (after.LinksFresh ↔
        ((see .components).Scannable project.components.root ∨
          ∀ component ∈ project.components.snapshot, component.link.Fresh after.published) ∧
        ((see .routes).Scannable project.routes.root ∨
          ∀ route ∈ project.routes.snapshot, ∀ inner, Route.Within inner route →
            inner.link.Fresh after.published)) := by
  obtain ⟨controllers, hrefresh⟩ :=
    Cache.refresh_of_scannable Source.controllers project.published
      (project.files (see .controllers)) hscan
  rw [refreshSeeing_of_ok see hrefresh]
  intro after
  refine ⟨rfl, ?_⟩
  have hcomponents := Cache.forall_mem_snapshot_refresh_iff Source.components after.published
    (project.files (see .components)) project.components fun _ _ => fresh_of_mem_link_components
  have hroutes := Cache.forall_mem_snapshot_refresh_iff Source.routes after.published
    (project.files (see .routes)) project.routes fun _ _ => fresh_of_mem_link_routes
  constructor
  · intro h
    exact ⟨hcomponents.mp h.components, hroutes.mp h.routes⟩
  · intro h
    exact ⟨rfl, hcomponents.mpr h.1, hroutes.mpr h.2⟩

end Project

/-- **How a refresh leaves links behind.**  Whichever of its scans fail, a refresh of an index with
fresh links leaves the controllers of the cache published.  It leaves all links fresh if and only if
the scan for controllers failed, or else components and routes were each scanned after it or have no
reference that means something else among the new controllers than among the old. -/
theorem links_fresh_after_refreshSeeing_iff {project : Project} (h : project.LinksFresh)
    (see : EntityKind → Disk) :
    let after := (project.refreshSeeing see).2
    after.published.controllers = after.controllers.snapshot ∧
      (after.LinksFresh ↔
        ¬ (see .controllers).Scannable project.controllers.root ∨
          ((see .components).Scannable project.components.root ∨
            ∀ component ∈ project.components.snapshot,
              component.link.target? after.published =
                component.link.target? project.published) ∧
          ((see .routes).Scannable project.routes.root ∨
            ∀ route ∈ project.routes.snapshot, ∀ inner, Route.Within inner route →
              inner.link.target? after.published = inner.link.target? project.published)) := by
  intro after
  by_cases hscan : (see .controllers).Scannable project.controllers.root
  · obtain ⟨hpublished, hiff⟩ := Project.linksFresh_refreshSeeing_iff hscan
    refine ⟨hpublished, hiff.trans ?_⟩
    rw [or_iff_right (not_not.mpr hscan)]
    refine and_congr (or_congr_right ?_) (or_congr_right ?_)
    · exact forall₂_congr fun component hcomponent =>
        (h.components component hcomponent).iff_target?_eq
    · exact forall₂_congr fun route hroute => forall₂_congr fun inner hinner =>
        (h.routes route hroute inner hinner).iff_target?_eq
  · have hfresh := h.refreshSeeing_of_not_scannable hscan
    exact ⟨hfresh.published, fun _ => .inl hscan, fun _ => hfresh⟩

/-! ### A root that vanishes -/

namespace Vanishing

/-- An index that knows of a component, but not of its controller. -/
def project : Project :=
  (Linking.start.refresh Linking.disk).2

/-- The controller has been registered in the file of the component. -/
def disk : Disk where
  root := .folder "" [.folder "app" [.file "a.js"
    "class K \x7b\x7d x.controller('C', K); x.component('c', \x7bcontroller: 'C'\x7d)".toUTF8]]

/-- The root is there while controllers are looked for, and gone after that. -/
def see : EntityKind → Disk
  | .controllers => disk
  | _ => {}

/-- The root is gone only while directives are looked for. -/
def seeShortly : EntityKind → Disk
  | .directives => {}
  | _ => disk

theorem linksFresh : project.LinksFresh := by
  have hroot : Linking.disk.Scannable Linking.root := ⟨_, _, rfl⟩
  exact (Project.linksFresh_refreshSeeing_iff hroot).2.mpr ⟨.inl hroot, .inl hroot⟩

/-- Whether each cache of an index has been filled. -/
def populated (project : Project) : Bool :=
  project.controllers.populated && project.components.populated && project.directives.populated &&
    project.routes.populated && project.html.populated

end Vanishing

/-- The component is linked to the controller, although the refresh fails. -/
theorem shortly_vanishing_root_links_fresh :
    Vanishing.project.LinksFresh ∧
      (Vanishing.project.refreshSeeing Vanishing.seeShortly).1 =
        .error ⟨Linking.root, .missing⟩ ∧
      (Vanishing.project.refreshSeeing Vanishing.seeShortly).2.LinksFresh := by
  have hroot : Vanishing.disk.Scannable Linking.root := ⟨_, _, rfl⟩
  have hiff := (links_fresh_after_refreshSeeing_iff Vanishing.linksFresh Vanishing.seeShortly).2
  exact ⟨Vanishing.linksFresh, by decide +kernel, hiff.mpr (.inr ⟨.inl hroot, .inl hroot⟩)⟩

/-- The controller is found and published, and the refresh fails before the component is linked to
it. -/
theorem vanishing_root_leaves_links_behind :
    Vanishing.populated Vanishing.project = true ∧ Vanishing.project.LinksFresh ∧
      (Vanishing.project.refreshSeeing Vanishing.see).1 = .error ⟨Linking.root, .missing⟩ ∧
      ¬ (Vanishing.project.refreshSeeing Vanishing.see).2.LinksFresh := by
  obtain ⟨hpopulated, herror, component, hcomponent, hne⟩ :
      Vanishing.populated Vanishing.project = true ∧
      (Vanishing.project.refreshSeeing Vanishing.see).1 = .error ⟨Linking.root, .missing⟩ ∧
      ∃ component ∈ (Vanishing.project.refreshSeeing Vanishing.see).2.components.snapshot,
        component.link.controller ≠ component.link.target?
          (Vanishing.project.refreshSeeing Vanishing.see).2.published := by
    decide +kernel
  refine ⟨hpopulated, Vanishing.linksFresh, herror, fun h => ?_⟩
  exact hne (ControllerLink.fresh_iff.mp (h.components component hcomponent))

end NgIndex
