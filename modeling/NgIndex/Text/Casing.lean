import NgIndex.Text.CodeTable
import NgIndex.Text.CaseTable

/-!
# Lower case

Lower case of single characters and of whole texts.  The two differ in one letter only: in a text,
a capital sigma at the end of a word becomes the final sigma.  The end of a word is found by
looking through characters that case mapping ignores.
-/

namespace NgIndex
namespace Text

/-- Whether a character has the property `Uppercase`. -/
def isUppercase (c : Char) : Bool :=
  inStrides uppercaseTable c.toNat

/-- Whether a character is cased. -/
def isCased (c : Char) : Bool :=
  inRanges casedTable c.toNat

/-- Whether case mapping looks through a character. -/
def isCaseIgnorable (c : Char) : Bool :=
  inRanges caseIgnorableTable c.toNat

/-- The lower case of a character: one character, except for the dotted capital I. -/
def lowerChar (c : Char) : List Char :=
  if c.toNat == 0x130 then ['i', Char.ofNat 0x307]
  else [Char.ofNat (shifted lowercaseTable c.toNat)]

/-- Whether the first character that is not ignorable is cased. -/
def facesCased : List Char → Bool
  | [] => false
  | c :: rest => if isCaseIgnorable c then facesCased rest else isCased c

/-- The lower case of a text, given the characters before it in reverse. -/
def lowerAfter (before : List Char) : List Char → List Char
  | [] => []
  | c :: rest =>
      if c.toNat == 0x3a3 then
        let final := facesCased before && !facesCased rest
        (if final then Char.ofNat 0x3c2 else Char.ofNat 0x3c3) :: lowerAfter (c :: before) rest
      else lowerChar c ++ lowerAfter (c :: before) rest

/-- The lower case of a text. -/
def lower (s : String) : String :=
  String.ofList (lowerAfter [] s.toList)

/-- The lower case of the ASCII letters of a text; other characters are kept. -/
def lowerAscii (s : String) : String :=
  String.ofList (s.toList.map Char.toLower)

end Text
end NgIndex
