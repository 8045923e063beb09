import NgIndex.Path

/-!
# Files on disk

A disk is a tree of folders and files below the root, with a folder that relative paths start from.
Files hold bytes; to read one as text its bytes have to be UTF-8.  A path is followed step by step,
so a step up from a folder that does not exist fails like any other path that does not exist.
-/

namespace NgIndex

/-- A file or a folder. -/
inductive Entry where
  | file (name : String) (bytes : ByteArray)
  | folder (name : String) (entries : List Entry)
  deriving Inhabited

/-- Why a file cannot be read. -/
inductive ReadError where
  | missing
  | throughFile
  | isFolder
  | notText
  deriving DecidableEq, Repr

/-- The wording of a read error. -/
def ReadError.message : ReadError → String
  | .missing => "No such file or directory (os error 2)"
  | .throughFile => "Not a directory (os error 20)"
  | .isFolder => "Is a directory (os error 21)"
  | .notText => "stream did not contain valid UTF-8"

namespace Entry

/-- The name of a file or folder. -/
def name : Entry → String
  | file name _ => name
  | folder name _ => name

/-- Whether this is a file. -/
def isFile : Entry → Bool
  | file _ _ => true
  | folder _ _ => false

/-- The entry of a name. -/
def find? (name : String) (entries : List Entry) : Option Entry :=
  entries.find? fun entry => entry.name == name

/-- Puts an entry in the place of the one of its name, or at the end. -/
def put (entry : Entry) : List Entry → List Entry
  | [] => [entry]
  | other :: rest => if other.name == entry.name then entry :: rest else other :: put entry rest

/-- Follows the components of a path.  The entries passed are given innermost first, the root
last. -/
def follow (passed : List Entry) : List Path.Component → Except ReadError Entry
  | [] =>
      match passed with
      | [] => .error .missing
      | here :: _ => .ok here
  | component :: rest =>
      match component, passed with
      | .root, passed => follow (passed.drop (passed.length - 1)) rest
      | .current, passed => follow passed rest
      | .parent, folder _ _ :: outer :: more => follow (outer :: more) rest
      | .parent, file _ _ :: _ => .error .throughFile
      | .parent, passed => follow passed rest
      | .normal name, folder own entries :: more =>
          match find? name entries with
          | some entry => follow (entry :: folder own entries :: more) rest
          | none => .error .missing
      | .normal _, file _ _ :: _ => .error .throughFile
      | .normal _, [] => .error .missing

/-- The entry with a file written below it; folders on the way are made. -/
def write (bytes : ByteArray) : List String → Entry → Entry
  | name :: rest, folder own entries =>
      let below := if rest.isEmpty then file name bytes
        else (find? name entries).getD (folder name [])
      folder own (put (write bytes rest below) entries)
  | _, entry => entry

/-- The entry without what stands below it at the given names. -/
def remove : List String → Entry → Entry
  | [name], folder own entries => folder own (entries.filter fun entry => entry.name != name)
  | name :: rest, folder own entries =>
      match find? name entries with
      | some entry => folder own (put (remove rest entry) entries)
      | none => folder own entries
  | _, entry => entry

mutual

/-- The number of files in an entry. -/
def fileCount : Entry → Nat
  | file _ _ => 1
  | folder _ entries => fileCounts entries

/-- The number of files in several entries. -/
def fileCounts : List Entry → Nat
  | [] => 0
  | entry :: rest => entry.fileCount + fileCounts rest

end

end Entry

/-- A tree of folders and files, and the folder that relative paths start from. -/
structure Disk where
  root : Entry := .folder "" []
  /-- The names of the folders down to the one that relative paths start from. -/
  here : List String := []
  deriving Inhabited

namespace Disk

/-- The components of a path from the root. -/
def absolute (disk : Disk) (path : Path) : List Path.Component :=
  if path.isAbsolute then path.components
  else .root :: disk.here.map Path.Component.normal ++ path.components

/-- The entry at a path. -/
def find (disk : Disk) (path : Path) : Except ReadError Entry :=
  if path.text.isEmpty then .error .missing else Entry.follow [disk.root] (disk.absolute path)

/-- Whether there is a file at a path. -/
def isFile (disk : Disk) (path : Path) : Bool :=
  match disk.find path with
  | .ok entry => entry.isFile
  | .error _ => false

/-- The bytes of the file at a path. -/
def bytes (disk : Disk) (path : Path) : Except ReadError ByteArray :=
  match disk.find path with
  | .ok (.file _ bytes) => .ok bytes
  | .ok (.folder _ _) => .error .isFolder
  | .error error => .error error

/-- The text of the file at a path. -/
def read (disk : Disk) (path : Path) : Except ReadError String :=
  match disk.bytes path with
  | .error error => .error error
  | .ok bytes =>
      match String.fromUTF8? bytes with
      | some text => .ok text
      | none => .error .notText

/-- The names on the way from the root to a path, with steps up folded away. -/
def names (disk : Disk) (path : Path) : List String :=
  ((disk.absolute path).foldl (fun (passed : List String) component =>
    match component with
    | .root => []
    | .current => passed
    | .parent => passed.drop 1
    | .normal name => name :: passed) []).reverse

/-- Writes a file; folders on the way are made. -/
def write (disk : Disk) (path : Path) (bytes : ByteArray) : Disk :=
  { disk with root := disk.root.write bytes (disk.names path) }

/-- Removes a file or folder. -/
def remove (disk : Disk) (path : Path) : Disk :=
  { disk with root := disk.root.remove (disk.names path) }

/-- Moves a file; where there is none, nothing happens. -/
def move (disk : Disk) (source target : Path) : Disk :=
  match disk.bytes source with
  | .ok bytes => (disk.remove source).write target bytes
  | .error _ => disk

end Disk
end NgIndex
