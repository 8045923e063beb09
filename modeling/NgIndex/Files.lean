import NgIndex.Disk

/-!
# Files and unsaved buffers

Texts that are open but not saved hide what the disk holds.  A buffer belongs to a path key, so it
is found whatever the case in which its path is spelled; the disk itself tells cases apart.
-/

namespace NgIndex

/-- Unsaved buffers by path key, over a disk. -/
structure Files where
  buffers : List (String × String) := []
  disk : Disk := {}
  deriving Inhabited

namespace Files

/-- Opens a buffer, or changes the text of an open one. -/
def openBuffer (files : Files) (path : Path) (text : String) : Files :=
  { files with
    buffers := (path.key, text) :: files.buffers.filter fun buffer => buffer.1 != path.key }

/-- Closes a buffer. -/
def closeBuffer (files : Files) (path : Path) : Files :=
  { files with buffers := files.buffers.filter fun buffer => buffer.1 != path.key }

/-- The text of the buffer at a path. -/
def buffer? (files : Files) (path : Path) : Option String :=
  (files.buffers.find? fun buffer => buffer.1 == path.key).map Prod.snd

/-- Whether a buffer is open at a path. -/
def hasBuffer (files : Files) (path : Path) : Bool :=
  (files.buffer? path).isSome

/-- Whether there is a buffer or a file at a path. -/
def contains (files : Files) (path : Path) : Bool :=
  files.hasBuffer path || files.disk.isFile path

/-- The text at a path: that of the buffer if there is one, that on disk otherwise. -/
def read (files : Files) (path : Path) : Except ReadError String :=
  match files.buffer? path with
  | some text => .ok text
  | none => files.disk.read path

/-- The number of buffers and files. -/
def count (files : Files) : Nat :=
  files.buffers.length + files.disk.root.fileCount

end Files
end NgIndex
