import NgIndex.Span

/-!
# Edits

The smallest single replacement that turns one text into another: what the two texts share at the
front and what they then share at the end is kept, and the part between is replaced.  Places are
byte offsets together with lines and columns.
-/

namespace NgIndex
namespace Text

/-- The characters that two lists share at the front. -/
def commonFront : List Char → List Char → List Char
  | a :: as, b :: bs => if a == b then a :: commonFront as bs else []
  | _, _ => []

/-- The characters that two lists share at the end. -/
def commonEnd (a b : List Char) : List Char :=
  (commonFront a.reverse b.reverse).reverse

/-- The part of a text between two byte offsets. -/
def slice (text : String) (start stop : Nat) : String :=
  String.Pos.Raw.extract text ⟨start⟩ ⟨stop⟩

/-- A replacement: the text from `start` to `oldEnd` gives way to `inserted`, which then runs from
`start` to `newEnd`. -/
structure Edit where
  start : Position
  oldEnd : Position
  newEnd : Position
  inserted : String
  deriving DecidableEq, Repr

namespace Edit

/-- The smallest replacement that turns one text into another. -/
def between (old new : String) : Edit :=
  let kept := commonFront old.toList new.toList
  let oldRest := old.toList.drop kept.length
  let newRest := new.toList.drop kept.length
  let shared := (commonEnd oldRest newRest).length
  let removed := oldRest.take (oldRest.length - shared)
  let inserted := newRest.take (newRest.length - shared)
  let start := Position.after {} kept
  { start
    oldEnd := start.after removed
    newEnd := start.after inserted
    inserted := String.ofList inserted }

/-- The text after a replacement. -/
def apply (edit : Edit) (old : String) : String :=
  slice old 0 edit.start.byte ++ edit.inserted ++ slice old edit.oldEnd.byte old.utf8ByteSize

end Edit
end Text
end NgIndex
