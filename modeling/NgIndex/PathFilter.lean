import NgIndex.Path
import NgIndex.Glob.Match

/-!
# Which files take part

A filter has patterns for the files to take and patterns for the files and directories to leave
out.  Patterns are applied to the path relative to the project root.  The patterns to leave out
win, and without any pattern to take every other file is taken.
-/

namespace NgIndex

/-- The role of a pattern in a filter. -/
inductive PatternRole where
  | include
  | exclude
  deriving DecidableEq, Repr

/-- The name of a role. -/
def PatternRole.label : PatternRole → String
  | .include => "include"
  | .exclude => "exclude"

/-- A pattern that could not be read. -/
structure PatternError where
  role : PatternRole
  pattern : String
  cause : Glob.Error
  deriving DecidableEq, Repr

/-- The wording of a pattern error. -/
def PatternError.message (error : PatternError) : String :=
  "invalid glob pattern: invalid " ++ error.role.label ++ " pattern '" ++ error.pattern ++ "': " ++
    error.cause.message error.pattern

/-- The patterns to take and to leave out. -/
structure PathFilter where
  included : List Glob
  excluded : List Glob
  deriving Repr, Inhabited

namespace PathFilter

/-- Reads patterns in order; the first one that cannot be read counts. -/
def readPatterns (role : PatternRole) : List String → Except PatternError (List Glob)
  | [] => .ok []
  | pattern :: rest =>
      match Glob.parse pattern with
      | .error cause => .error ⟨role, pattern, cause⟩
      | .ok glob => (readPatterns role rest).map (glob :: ·)

/-- The filter with the given patterns. -/
def ofPatterns (included excluded : List String) : Except PatternError PathFilter := do
  let included ← readPatterns .include included
  let excluded ← readPatterns .exclude excluded
  return ⟨included, excluded⟩

/-- Whether a relative path is left out. -/
def excludes (filter : PathFilter) (relative : Path) : Bool :=
  filter.excluded.any fun glob => glob.isMatch relative.text

/-- Whether a file takes part. -/
def takesFile (filter : PathFilter) (relative : Path) : Bool :=
  !filter.excludes relative &&
    (filter.included.isEmpty || filter.included.any fun glob => glob.isMatch relative.text)

/-- Whether files are looked for below a directory. -/
def entersDirectory (filter : PathFilter) (relative : Path) : Bool :=
  !filter.excludes relative

/-- Whether a file takes part, for a path that still has the root in front.  A file outside the
root does not. -/
def takes (filter : PathFilter) (root path : Path) : Bool :=
  match path.relativeTo? root with
  | some relative => filter.takesFile relative
  | none => false

end PathFilter
end NgIndex
