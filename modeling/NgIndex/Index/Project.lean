import NgIndex.Config
import NgIndex.Index.Sources

/-!
# The index of a project

Five caches, one for each kind of entity, over the files of a project.  Controllers come first:
when they change, they are published, and components and routes are linked again, either as part of
their own update or without one.
-/

namespace NgIndex

/-- The kinds of entities. -/
inductive EntityKind where
  | controllers
  | components
  | directives
  | routes
  | html
  deriving DecidableEq, Repr

/-- A change of a file that is reported from outside. -/
inductive FileEvent where
  | added (path : Path)
  | changed (path : Path)
  | deleted (path : Path)
  | renamed (source target : Path)
  deriving DecidableEq, Repr

namespace FileEvent

/-- The paths that are no longer there. -/
def removed : FileEvent → List Path
  | .added _ => []
  | .changed _ => []
  | .deleted path => [path]
  | .renamed source _ => [source]

/-- The paths that are new or have changed. -/
def touched : FileEvent → List Path
  | .added path => [path]
  | .changed path => [path]
  | .deleted _ => []
  | .renamed _ target => [target]

end FileEvent

/-- The index of a project. -/
structure Project where
  root : Path
  config : Config
  /-- The unsaved buffers by path key. -/
  buffers : List (String × String) := []
  /-- The controllers that components and routes are linked to. -/
  published : ControllerSet := {}
  controllers : Cache Controller LinkedController
  components : Cache Component Component
  directives : Cache Directive Directive
  routes : Cache Route Route
  html : Cache HtmlReference HtmlReference

namespace Project

/-- The index of a project with given settings, before anything is read. -/
def ofConfig (root : Path) (config : Config) : Except PatternError Project := do
  let controllers ← config.filterOf config.controllerGlobs
  let components ← config.filterOf config.componentGlobs
  let directives ← config.filterOf config.directiveGlobs
  let routes ← config.filterOf config.routeGlobs
  let html ← config.filterOf config.htmlGlobs
  return {
    root
    config
    controllers := { root, filter := controllers }
    components := { root, filter := components }
    directives := { root, filter := directives }
    routes := { root, filter := routes }
    html := { root, filter := html } }

/-- The settings in the file for them directly below the root. -/
def configAt (disk : Disk) (root : Path) : Config :=
  match disk.bytes (root.push Config.fileName) with
  | .ok bytes => .ofBytes bytes
  | .error _ => .default

/-- The index of the project at a root, before anything is read. -/
def openAt (disk : Disk) (root : Path) : Except PatternError Project :=
  ofConfig root (configAt disk root)

/-- The files as the index sees them: a disk under the unsaved buffers. -/
def files (project : Project) (disk : Disk) : Files :=
  { buffers := project.buffers, disk }

/-- Publishes the controllers of the cache. -/
def publish (project : Project) : Project :=
  { project with published := ⟨project.controllers.snapshot⟩ }

/-! ### Changes -/

/-- Reads all files anew, where each kind of entity sees a disk of its own.  Controllers go first;
if they fail nothing else is read.  The others do not wait for each other, and the first error in
their order counts. -/
def refreshSeeing (see : EntityKind → Disk) (project : Project) :
    Except ScanError Unit × Project :=
  let files (kind : EntityKind) : Files := project.files (see kind)
  let (outcome, controllers) :=
    project.controllers.refresh Source.controllers project.published (files .controllers)
  let project := { project with controllers }
  match outcome with
  | .error error => (.error error, project)
  | .ok () =>
      let project := project.publish
      let set := project.published
      let (first, components) := project.components.refresh Source.components set (files .components)
      let (second, directives) :=
        project.directives.refresh Source.directives set (files .directives)
      let (third, routes) := project.routes.refresh Source.routes set (files .routes)
      let (fourth, html) := project.html.refresh Source.html set (files .html)
      (do first; second; third; fourth, { project with components, directives, routes, html })

/-- Reads all files anew. -/
def refresh (disk : Disk) (project : Project) : Except ScanError Unit × Project :=
  project.refreshSeeing fun _ => disk

/-- Applies a file event to one cache. -/
def apply {α β : Type} (source : Source α β) (set : ControllerSet) (files : Files)
    (event : FileEvent) (cache : Cache α β) : Bool × Cache α β :=
  cache.update source set files event.removed event.touched

/-- Applies a file event to a cache whose entities are linked to controllers.  If the event does not
concern it but the controllers have changed, the entities are linked again. -/
def applyLinked {α β : Type} (source : Source α β) (set : ControllerSet) (files : Files)
    (event : FileEvent) (controllersChanged : Bool) (cache : Cache α β) : Cache α β :=
  let (changed, cache) := apply source set files event cache
  if !changed && controllersChanged then cache.relink source set else cache

/-- Handles a file event. -/
def handle (disk : Disk) (event : FileEvent) (project : Project) : Project :=
  let files := project.files disk
  let (changed, controllers) :=
    apply Source.controllers project.published files event project.controllers
  let project := { project with controllers }
  let project := if changed then project.publish else project
  let set := project.published
  let components := applyLinked Source.components set files event changed project.components
  let routes := applyLinked Source.routes set files event changed project.routes
  let (_, directives) := apply Source.directives set files event project.directives
  let (_, html) := apply Source.html set files event project.html
  { project with components, routes, directives, html }

/-- Handles file events one after another. -/
def handleAll (disk : Disk) (events : List FileEvent) (project : Project) : Project :=
  events.foldl (fun project event => project.handle disk event) project

/-- Opens an unsaved buffer; the file counts as changed. -/
def openDocument (disk : Disk) (path : Path) (text : String) (project : Project) : Project :=
  let files := (project.files disk).openBuffer path text
  { project with buffers := files.buffers }.handle disk (.changed path)

/-- Closes an unsaved buffer; if there was one, the file counts as changed. -/
def closeDocument (disk : Disk) (path : Path) (project : Project) : Project :=
  let files := project.files disk
  if files.hasBuffer path then
    { project with buffers := (files.closeBuffer path).buffers }.handle disk (.changed path)
  else project

/-- Links components, routes and controllers again. -/
def relink (project : Project) : Project :=
  { project with
    components := project.components.relink Source.components project.published
    routes := project.routes.relink Source.routes project.published
    controllers := project.controllers.relink Source.controllers project.published }

/-- Starts two refreshes of the components that overlap. -/
def refreshComponentsTwice (disk : Disk) (project : Project) : List Bool × Project :=
  let (outcome, components) :=
    project.components.refreshTwice Source.components project.published (project.files disk)
  (outcome, { project with components })

/-! ### Questions -/

/-- The component with a name in markup. -/
def component? (project : Project) (htmlName : String) : Option Component :=
  project.components.snapshot.find? fun component => component.htmlName == htmlName

/-- The directive with a name in markup. -/
def directive? (project : Project) (htmlName : String) : Option Directive :=
  project.directives.snapshot.find? fun directive => directive.htmlName == htmlName

/-- The route of a name; views are not looked at. -/
def route? (project : Project) (name : String) : Option Route :=
  project.routes.snapshot.find? fun route => route.name == name

/-- The uses of a name in markup. -/
def references (project : Project) (name : String) : List HtmlReference :=
  project.html.snapshot.filter fun reference => reference.name == name

/-- Where a jump to the definition of a component leads. -/
def definitionTargets (project : Project) (component : Component) : List (Path × Span) :=
  component.definitionTargets project.config.definitions

/-- The members of a controller that are shown. -/
def visibleMembers (project : Project) (controller : LinkedController) : List Member :=
  project.config.memberFilter.visibleMembers controller

end Project
end NgIndex
