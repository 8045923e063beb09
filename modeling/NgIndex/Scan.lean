import NgIndex.Disk
import NgIndex.PathFilter

/-!
# Collecting files

The files below a folder that are to be read, in the order of their paths.  Folders that are left
out are not entered, whatever they hold.  Only the root itself has to be there.
-/

namespace NgIndex

/-- A root that cannot be read. -/
structure ScanError where
  path : Path
  cause : ReadError
  deriving DecidableEq, Repr

/-- The wording of a scan error. -/
def ScanError.message (error : ScanError) : String :=
  "failed to scan " ++ error.path.text ++ ": " ++ error.cause.message

mutual

/-- The paths of the files in an entry of a directory. -/
def Entry.collect (takes enters : Path → Bool) (directory : Path) : Entry → List Path
  | .file name _ =>
      let path := directory.push name
      if takes path then [path] else []
  | .folder name entries =>
      let path := directory.push name
      if enters path then Entry.collectAll takes enters path entries else []

/-- The paths of the files in the entries of a directory. -/
def Entry.collectAll (takes enters : Path → Bool) (directory : Path) : List Entry → List Path
  | [] => []
  | entry :: rest =>
      entry.collect takes enters directory ++ Entry.collectAll takes enters directory rest

end

/-- The files below a root that a filter takes and that are of the right kind, in the order of their
paths. -/
def Disk.collect (disk : Disk) (root : Path) (filter : PathFilter) (accepts : Path → Bool) :
    Except ScanError (List Path) :=
  let relative (path : Path) : Path := (path.relativeTo? root).getD path
  let takes (path : Path) : Bool := accepts path && filter.takesFile (relative path)
  let enters (path : Path) : Bool := filter.entersDirectory (relative path)
  match disk.find root with
  | .ok (.folder _ entries) => .ok ((Entry.collectAll takes enters root entries).mergeSort Path.le)
  | .ok (.file _ _) => .error ⟨root, .throughFile⟩
  | .error cause => .error ⟨root, cause⟩

end NgIndex
