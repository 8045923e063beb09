import NgIndex.Text.Edit

/-!
# Where an edit lies, reckoned in bytes

The places of an edit can be found without reading characters.  The bytes that two texts share at
the front are counted, and from there one goes back to where a character begins in both texts.  Then
the bytes that are left and shared at the end are counted, and one goes forward to where a character
begins in both.

Nothing is assumed about how the counts come out.  A difference below zero, an offset that lies
outside a text and a search that would never end have no result.
-/

namespace NgIndex
namespace Text

/-- The bytes of a text. -/
def bytes (text : String) : List UInt8 :=
  text.toByteArray.data.toList

/-- The byte that ends a line. -/
def lineFeed : UInt8 := 0x0a

/-- A difference of counts. -/
def minus? (a b : Nat) : Option Nat :=
  if b ≤ a then some (a - b) else none

/-- The number of pairs of equal bytes in front of the first other pair. -/
def sharedBytes (pairs : List (UInt8 × UInt8)) : Nat :=
  (pairs.takeWhile fun pair => pair.1 == pair.2).length

/-- Whether a character of a text begins at an offset, or the text ends there. -/
def isBoundary (text : String) (offset : Nat) : Bool :=
  String.Pos.Raw.isValid text ⟨offset⟩

/-- The last offset, up to a given one, that is a boundary in both texts. -/
def lastBoundary? (old new : String) : Nat → Option Nat
  | 0 => if isBoundary old 0 && isBoundary new 0 then some 0 else none
  | offset + 1 =>
      if isBoundary old (offset + 1) && isBoundary new (offset + 1) then some (offset + 1)
      else lastBoundary? old new offset

/-- The first offsets from two given ones on, as far from the one as from the other, that are
boundaries in their texts.  Beyond the end of a text there is none. -/
def firstBoundaries? (old new : String) (oldOffset newOffset : Nat) : Option (Nat × Nat) :=
  if isBoundary old oldOffset && isBoundary new newOffset then some (oldOffset, newOffset)
  else if oldOffset < old.utf8ByteSize then
    firstBoundaries? old new (oldOffset + 1) (newOffset + 1)
  else none
termination_by old.utf8ByteSize - oldOffset

/-- The index of the last byte of a kind. -/
def lastIndex? (byte : UInt8) : List UInt8 → Option Nat
  | [] => none
  | first :: rest =>
      match lastIndex? byte rest with
      | some index => some (index + 1)
      | none => if first == byte then some 0 else none

/-- The bytes in front of an offset. -/
def front? (text : List UInt8) (offset : Nat) : Option (List UInt8) :=
  if offset ≤ text.length then some (text.take offset) else none

/-- The position of an offset: line feeds in front of it are counted, and the bytes since the last
one. -/
def positionAt? (text : List UInt8) (offset : Nat) : Option Position := do
  let before ← front? text offset
  let column ← match lastIndex? lineFeed before with
    | some feed => do minus? (← minus? offset feed) 1
    | none => some offset
  return { byte := offset, line := before.count lineFeed, column }

namespace Edit

/-- The start of the replacement that turns one text into another, and its ends in the old text and
in the new one. -/
def places? (old new : String) : Option (Position × Position × Position) := do
  let oldBytes := bytes old
  let newBytes := bytes new
  let start ← lastBoundary? old new (sharedBytes (oldBytes.zip newBytes))
  let most := min (← minus? oldBytes.length start) (← minus? newBytes.length start)
  let shared := sharedBytes ((oldBytes.reverse.zip newBytes.reverse).take most)
  let (oldEnd, newEnd) ← firstBoundaries? old new (← minus? oldBytes.length shared)
    (← minus? newBytes.length shared)
  return (← positionAt? oldBytes start, ← positionAt? oldBytes oldEnd,
    ← positionAt? newBytes newEnd)

end Edit
end Text
end NgIndex
