import NgIndex.CommandLine

/-!
# The program

Reads the folder that the command line names into memory and runs the command line on it.  Imports
that lead out of that folder are not found.
-/

namespace NgIndex
namespace CommandLine

/-- The root that the arguments name. -/
def rootOf (arguments : List String) : String :=
  match readArguments {} arguments with
  | .print request => request.root.text
  | _ => "."

/-- An entry inside folders of the given names, the outermost first. -/
def nest : List String → Entry → Entry
  | [], entry => entry
  | name :: rest, entry => .folder name [nest rest entry]

/-- Reads what stands at a place on disk, if there is anything. -/
partial def readEntry (name : String) (place : IO.FS.DirEntry) : IO (Option Entry) := do
  if ← place.path.isDir then
    let mut entries : List Entry := []
    for inner in (← place.path.readDir) do
      if let some entry ← readEntry inner.fileName inner then
        entries := entry :: entries
    return some (.folder name entries)
  else if ← place.path.pathExists then
    return some (.file name (← IO.FS.readBinFile place.path))
  else return none

/-- Reads the disk as far as the command line needs it. -/
def readDisk (arguments : List String) : IO Disk := do
  let here ← IO.currentDir
  let empty : Disk := { here := Disk.names {} ⟨here.toString⟩ }
  let root := rootOf arguments
  let names := empty.names ⟨root⟩
  match ← readEntry (names.getLastD "") ⟨here, root⟩ with
  | some entry =>
      let top := if names.isEmpty then entry else .folder "" [nest names.dropLast entry]
      return { empty with root := top }
  | none => return empty

end CommandLine
end NgIndex

/-- Runs the command line on the disk of this machine. -/
def main (arguments : List String) : IO UInt32 := do
  let disk ← NgIndex.CommandLine.readDisk arguments
  let outcome := NgIndex.CommandLine.run disk arguments
  (← IO.getStdout).putStr outcome.output
  return outcome.code.toUInt32
