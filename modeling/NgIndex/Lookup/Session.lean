import NgIndex.Files
import NgIndex.KeyMap
import NgIndex.Script.Module

/-!
# What the reading of one file leaves behind

While a file is analysed, values are followed into the modules it imports.  A session records which
files are being looked into, so that a circle of imports ends, which files have been loaded, and
which paths were looked for in vain.  A change to any path of the last two kinds may change the
analysis, so these paths are to be watched.

Searches have bounds that a search which ends does not come to.  A session also records whether one
of them was met all the same, so that it can be told from an answer.
-/

namespace NgIndex

/-- The project that a file is analysed in. -/
structure Scene where
  /-- The folder that addresses of templates start from. -/
  root : Path
  files : Files

/-- The state of the analysis of one file. -/
structure Session where
  /-- The keys of the files being looked into, newest first. -/
  chain : List String
  /-- The files that were loaded, by key. -/
  loaded : KeyMap Path := {}
  /-- The keys of paths that were looked for while a module was not found. -/
  missed : KeyMap Unit := {}
  /-- Whether a search was given up at a bound, since it did not seem to end. -/
  gaveUp : Bool := false

/-- A step of the analysis of one file. -/
abbrev Lookup (α : Type) := ReaderT Scene (StateM Session) α

namespace Session

/-- The session at the start of the analysis of a file. -/
def start (origin : Path) : Session :=
  { chain := [origin.key] }

/-- The files that were loaded, in the order of their keys. -/
def dependencies (session : Session) : List Path :=
  session.loaded.values

/-- The keys of paths whose change may change the analysis, in ascending order. -/
def watched (session : Session) : List String :=
  (session.loaded.keys.foldl (fun keys key => keys.insert key ()) session.missed).keys

end Session

/-- What may stand after the path of a module, in order of preference. -/
def moduleSuffixes : List String :=
  ["", ".ts", ".tsx", ".js"]

/-- The files that stand for a folder, in order of preference. -/
def indexFiles : List String :=
  ["index.ts", "index.js"]

/-- The paths that a module may be found at, in order of preference. -/
def moduleCandidates (directory : Path) (specifier : String) : List Path :=
  let base := directory.joinRelative specifier
  (moduleSuffixes.map fun suffix => ⟨base.text ++ suffix⟩) ++ indexFiles.map base.push

/-- Whether a module is named by a path relative to the file that names it. -/
def isRelative (specifier : String) : Bool :=
  ['.', '/'].isPrefixOf specifier.toList || ['.', '.', '/'].isPrefixOf specifier.toList

namespace Lookup

/-- Gives up a search that has come to its bound. -/
def giveUp : Lookup Unit :=
  modify fun session => { session with gaveUp := true }

/-- The path of a module.  Modules that are not named by a relative path are not looked for; if one
is not found, all paths it might have are recorded. -/
def locate (directory : Path) (specifier : String) : Lookup (Option Path) := do
  if !isRelative specifier then return none
  let candidates := moduleCandidates directory specifier
  let files := (← read).files
  match candidates.find? files.contains with
  | some path => return some path
  | none =>
      modify fun session => { session with
        missed := candidates.foldl (fun missed path => missed.insert path.key ()) session.missed }
      return none

/-- Starts to look into a file, unless it is being looked into already. -/
def enter (path : Path) : Lookup Bool := do
  if (← get).chain.contains path.key then return false
  modify fun session => { session with chain := path.key :: session.chain }
  return true

/-- Ends looking into the file entered last.  The file that the analysis started with stays. -/
def leave : Lookup Bool := do
  match (← get).chain with
  | _ :: first :: rest => do
      modify fun session => { session with chain := first :: rest }
      return true
  | _ => return false

/-- Loads a file as a module and records that it was loaded, also where it cannot be read. -/
def load (path : Path) : Lookup (Option Script.Module) := do
  modify fun session => { session with loaded := session.loaded.insert path.key path }
  match (← read).files.read path with
  | .ok text => return some (Script.Module.ofText path text)
  | .error _ => return none

/-- Does something with the module that a specifier names.  A module that is not found, cannot be
read or is being looked into already has no answer. -/
def withModule {α : Type} (directory : Path) (specifier : String)
    (action : Script.Module → Lookup (Option α)) : Lookup (Option α) := do
  match ← locate directory specifier with
  | none => return none
  | some path => do
      if !(← enter path) then return none
      let answer ← match ← load path with
        | none => pure none
        | some m => action m
      let _ ← leave
      return answer

end Lookup
end NgIndex
