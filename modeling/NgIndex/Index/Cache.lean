import NgIndex.Entity.Controller
import NgIndex.Lookup.Session
import NgIndex.Scan

/-!
# Caches of entities

A cache holds what each tracked file contributes, by path key, and the list of all entities linked
together.  A refresh reads all files anew.  A file event reads the file it names and every file that
watches it, and replaces their contributions.  Before the first refresh events are passed over.

A refresh takes its number when it starts.  If another refresh has started by the time it commits,
its result is thrown away.
-/

namespace NgIndex

/-- What the reading of a file gives: its entities, and the keys of the paths whose change may
change them. -/
structure Parsed (α : Type) where
  entities : List α
  watched : List String := []
  deriving Repr

/-- How one kind of entity is read from files and linked. -/
structure Source (α β : Type) where
  /-- The name of the kind. -/
  kind : String
  /-- Whether a file may hold entities of the kind, going by its name. -/
  accepts : Path → Bool
  /-- The entities in the text of a file. -/
  parse : Scene → Path → String → Parsed α
  /-- The entities of all files linked together. -/
  link : ControllerSet → List α → List β

/-- What a file contributes to a cache. -/
structure Contribution (α : Type) where
  path : Path
  entities : List α := []
  watched : List String := []
  deriving Repr

/-- Reads a file.  A file that cannot be read contributes nothing. -/
def Source.read {α β : Type} (source : Source α β) (scene : Scene) (path : Path) :
    Contribution α :=
  match scene.files.read path with
  | .error _ => { path }
  | .ok text =>
      let parsed := source.parse scene path text
      { path, entities := parsed.entities, watched := parsed.watched }

/-- The contributions of files by key, and the list made from them. -/
structure Cache (α β : Type) where
  root : Path
  filter : PathFilter
  populated : Bool := false
  contributions : KeyMap (Contribution α) := {}
  snapshot : List β := []
  /-- The number of refreshes that have started. -/
  generation : Nat := 0
  /-- The lists sent to those who want to know of changes, newest first. -/
  sent : List (List β) := []

namespace Cache

variable {α β : Type}

/-- Whether a cache holds what a file contributes, if there is such a file. -/
def tracks (source : Source α β) (cache : Cache α β) (path : Path) : Bool :=
  source.accepts path && cache.filter.takes cache.root path

/-- The scene in which files of the cache are read. -/
def scene (cache : Cache α β) (files : Files) : Scene :=
  { root := cache.root, files }

/-- Links the entities of all contributions. -/
def rebuild (source : Source α β) (set : ControllerSet) (cache : Cache α β) : Cache α β :=
  { cache with
    snapshot := source.link set (cache.contributions.values.flatMap fun c => c.entities) }

/-- Sends the list to those who want to know of changes. -/
def notify (cache : Cache α β) : Cache α β :=
  { cache with sent := cache.snapshot :: cache.sent }

/-! ### Refreshes -/

/-- Starts a refresh and takes its number. -/
def begin (cache : Cache α β) : Nat × Cache α β :=
  (cache.generation + 1, { cache with generation := cache.generation + 1 })

/-- Reads all files of the cache. -/
def readAll (source : Source α β) (files : Files) (cache : Cache α β) :
    Except ScanError (List (Contribution α)) :=
  match files.disk.collect cache.root cache.filter source.accepts with
  | .error error => .error error
  | .ok paths => .ok (paths.map (source.read (cache.scene files)))

/-- The contributions by the keys of their paths. -/
def byKey (contributions : List (Contribution α)) : KeyMap (Contribution α) :=
  .ofList (contributions.map fun c => (c.path.key, c))

/-- Ends a refresh.  It counts only if no other refresh has started. -/
def commit (source : Source α β) (set : ControllerSet) (number : Nat)
    (contributions : List (Contribution α)) (cache : Cache α β) : Cache α β :=
  if cache.generation != number then cache
  else
    ({ cache with contributions := byKey contributions, populated := true }.rebuild source
      set).notify

/-- Reads all files anew. -/
def refresh (source : Source α β) (set : ControllerSet) (files : Files) (cache : Cache α β) :
    Except ScanError Unit × Cache α β :=
  let (number, cache) := cache.begin
  match cache.readAll source files with
  | .error error => (.error error, cache)
  | .ok contributions => (.ok (), cache.commit source set number contributions)

/-- Two refreshes that overlap: both start before either ends. -/
def refreshTwice (source : Source α β) (set : ControllerSet) (files : Files)
    (cache : Cache α β) : List Bool × Cache α β :=
  let (first, cache) := cache.begin
  let (second, cache) := cache.begin
  match cache.readAll source files with
  | .error _ => ([false, false], cache)
  | .ok contributions =>
      ([true, true], (cache.commit source set first contributions).commit source set second
        contributions)

/-- Links all entities again. -/
def relink (source : Source α β) (set : ControllerSet) (cache : Cache α β) : Cache α β :=
  if cache.populated then (cache.rebuild source set).notify else cache

/-! ### File events -/

/-- What an event asks for: files to read, by key, and keys whose contributions go. -/
structure Plan where
  targets : KeyMap Path
  removed : List String

/-- Whether nothing is asked for. -/
def Plan.isEmpty (plan : Plan) : Bool :=
  plan.targets.entries.isEmpty && plan.removed.isEmpty

/-- The files to read with those added that watch one of the given keys. -/
def addDependents (removed eventKeys : List String) :
    List (String × Contribution α) → KeyMap Path → KeyMap Path
  | [], targets => targets
  | (key, contribution) :: rest, targets =>
      let isTarget := !removed.contains key && !targets.contains key &&
        contribution.watched.any eventKeys.contains
      addDependents removed eventKeys rest
        (if isTarget then targets.insert key contribution.path else targets)

/-- What the removal of some paths and the change of others ask for.  A changed file that is not
tracked, and that watches none of the paths, goes. -/
def plan (source : Source α β) (removed touched : List Path) (cache : Cache α β) : Plan :=
  let isKnown (key : String) : Bool := cache.contributions.contains key
  let gone := (removed.map Path.key).filter isKnown
  let eventKeys := (removed ++ touched).map Path.key
  let tracked := (touched.filter (cache.tracks source)).map fun path => (path.key, path)
  let targets := addDependents gone eventKeys cache.contributions.entries (.ofList tracked)
  let left := (touched.map Path.key).filter fun key => !targets.contains key && isKnown key
  { targets, removed := gone ++ left }

/-- Carries out a plan with the files that were read for it. -/
def carryOut (source : Source α β) (set : ControllerSet) (removed : List String)
    (contributions : List (Contribution α)) (cache : Cache α β) : Cache α β :=
  let kept := removed.foldl KeyMap.erase cache.contributions
  ({ cache with contributions := kept.union (byKey contributions) }.rebuild source set).notify

/-- Handles the removal of some paths and the change of others.  Says whether there was anything to
do. -/
def update (source : Source α β) (set : ControllerSet) (files : Files)
    (removed touched : List Path) (cache : Cache α β) : Bool × Cache α β :=
  if !cache.populated then (false, cache)
  else
    let plan := cache.plan source removed touched
    if plan.isEmpty then (false, cache)
    else
      let contributions := plan.targets.values.map (source.read (cache.scene files))
      (true, cache.carryOut source set plan.removed contributions)

end Cache
end NgIndex
