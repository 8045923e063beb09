import NgIndex.Text.Casing

/-!
# Kebab case

The name under which a registration is written in markup: every capital letter becomes a hyphen
and its lower case, except that no hyphen is put at the very front.
-/

namespace NgIndex
namespace Text

/-- Kebab case of the characters after the first one. -/
def kebabTail : List Char → List Char
  | [] => []
  | c :: rest =>
      if isUppercase c then '-' :: (lowerChar c ++ kebabTail rest) else c :: kebabTail rest

/-- Kebab case of a list of characters. -/
def kebabChars : List Char → List Char
  | [] => []
  | c :: rest => (if isUppercase c then lowerChar c else [c]) ++ kebabTail rest

/-- The kebab case of a name, as in `my-directive` for `myDirective`. -/
def kebab (name : String) : String :=
  String.ofList (kebabChars name.toList)

end Text
end NgIndex
