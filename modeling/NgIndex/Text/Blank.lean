import NgIndex.Text.CodeTable

/-!
# Blank characters

White space as Unicode defines it, and the removal of white space around a text.
-/

namespace NgIndex
namespace Text

/-- The property `White_Space`. -/
def blankTable : List (Nat × Nat) :=
  [(0x9, 0xd), (0x20, 0x20), (0x85, 0x85), (0xa0, 0xa0), (0x1680, 0x1680), (0x2000, 0x200a),
    (0x2028, 0x2029), (0x202f, 0x202f), (0x205f, 0x205f), (0x3000, 0x3000)]

/-- Whether a character is white space. -/
def isBlank (c : Char) : Bool :=
  inRanges blankTable c.toNat

/-- A list without the elements at its end that satisfy the test. -/
def dropTrailing {α : Type} (test : α → Bool) (xs : List α) : List α :=
  (xs.reverse.dropWhile test).reverse

/-- A text without the white space around it. -/
def trim (s : String) : String :=
  String.ofList (dropTrailing isBlank (s.toList.dropWhile isBlank))

end Text
end NgIndex
