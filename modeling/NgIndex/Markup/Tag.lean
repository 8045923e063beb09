import NgIndex.Span
import NgIndex.Text.Casing

/-!
# Tags of markup

Markup as a sequence of tags.  Text, comments and the declaration of the document type are passed
over.  What stands between the tags of a script or of a style is raw: nothing in it is a tag but the
end of the element itself.
-/

namespace NgIndex
namespace Markup

/-- A name and the place where it stands. -/
structure Word where
  text : String
  start : Position
  stop : Position
  deriving DecidableEq, Repr, Inhabited

/-- The span of a name. -/
def Word.span (word : Word) : Span :=
  .between word.start word.stop

/-- A tag that opens an element, with the names of its attributes. -/
structure Tag where
  name : Word
  attributes : List Word := []
  /-- Whether the tag also closes the element. -/
  closed : Bool := false
  deriving DecidableEq, Repr, Inhabited

/-- A tag that opens or closes an element. -/
inductive Token where
  | opening (tag : Tag)
  | closing (name : String)
  deriving Repr

/-- What is left of a text, and the place where it starts. -/
structure Rest where
  chars : List Char
  position : Position := {}

namespace Rest

/-- The text after a number of characters. -/
def drop (rest : Rest) (count : Nat) : Rest :=
  { chars := rest.chars.drop count
    position := rest.position.after (rest.chars.take count) }

/-- Splits off the characters at the front that pass a test, as a name. -/
def word (rest : Rest) (test : Char → Bool) : Word × Rest :=
  let front := rest.chars.takeWhile test
  let after := rest.drop front.length
  ({ text := String.ofList front, start := rest.position, stop := after.position }, after)

end Rest

/-- White space inside tags. -/
def isSpace (c : Char) : Bool :=
  [' ', '\t', '\n', '\r', '\x0b', '\x0c'].contains c

/-- Whether a character belongs to the name of a tag. -/
def isTagChar (c : Char) : Bool :=
  c.isAlphanum || c == '-' || c == ':'

/-- Whether a character belongs to the name of an attribute. -/
def isAttributeChar (c : Char) : Bool :=
  !isSpace c && !(['<', '>', '"', '\'', '/', '='].contains c)

/-- Whether a character belongs to a value without quotes. -/
def isValueChar (c : Char) : Bool :=
  !isSpace c && !(['<', '>', '"', '\'', '='].contains c)

/-- The number of characters up to and with the end of a comment, after its opening. -/
def commentLength : List Char → Nat
  | [] => 0
  | '-' :: '-' :: '>' :: _ => 3
  | _ :: rest => commentLength rest + 1

/-- The text after white space and comments; `fuel` bounds the number of comments. -/
def skipBlankWith : Nat → Rest → Rest
  | 0, rest => rest
  | fuel + 1, rest =>
      let next := rest.drop (rest.chars.takeWhile isSpace).length
      match next.chars with
      | '<' :: '!' :: '-' :: '-' :: more => skipBlankWith fuel (next.drop (4 + commentLength more))
      | _ => next

/-- The text after white space and comments, which may stand between any two parts of a tag. -/
def skipBlank (rest : Rest) : Rest :=
  skipBlankWith (rest.chars.length + 1) rest

/-- The text after the value of an attribute: in quotes, or up to the next character that cannot be
part of a value. -/
def skipValue (rest : Rest) : Rest :=
  match rest.chars with
  | '"' :: more => rest.drop ((more.takeWhile (· != '"')).length + 2)
  | '\'' :: more => rest.drop ((more.takeWhile (· != '\'')).length + 2)
  | chars => rest.drop (chars.takeWhile isValueChar).length

/-- The text after an equals sign and a value, if they come next. -/
def skipAssignment (rest : Rest) : Rest :=
  let next := skipBlank rest
  match next.chars with
  | '=' :: _ => skipValue (skipBlank (next.drop 1))
  | _ => rest

/-- The names of the attributes at the front; `fuel` bounds their number. -/
def attributes : Nat → Rest → List Word × Rest
  | 0, rest => ([], rest)
  | fuel + 1, rest =>
      let (word, next) := (skipBlank rest).word isAttributeChar
      if word.text.isEmpty then ([], rest)
      else
        let (words, last) := attributes fuel (skipAssignment next)
        (word :: words, last)

/-- The opening tag at the front, after its angle bracket. -/
def openingTag (rest : Rest) : Tag × Rest :=
  let (name, next) := rest.word isTagChar
  let (attributes, next) := attributes next.chars.length next
  let next := skipBlank next
  match next.chars with
  | '/' :: '>' :: _ => ({ name, attributes, closed := true }, next.drop 2)
  | '>' :: _ => ({ name, attributes }, next.drop 1)
  | _ => ({ name, attributes }, next)

/-- The number of characters before the first place where a mark stands, whatever its case.  The
mark is compared character by character: `left` is what is still to come of it and `held` how much
has been seen.  A character that does not fit starts no new comparison. -/
def lengthBefore (mark : List Char) : (left : List Char) → (held : Nat) → List Char → Nat
  | [], _, _ => 0
  | _ :: _, held, [] => held
  | expected :: left, held, c :: rest =>
      if c.toLower == expected then lengthBefore mark left (held + 1) rest
      else held + 1 + lengthBefore mark mark 0 rest

/-- The number of characters before the closing tag of a raw element. -/
def rawLength (name : String) (chars : List Char) : Nat :=
  let mark := '<' :: '/' :: name.toList
  lengthBefore mark mark 0 chars

/-- Whether the contents of an element are raw. -/
def isRaw (name : String) : Bool :=
  name == "script" || name == "style"

/-- The tags of a text; `fuel` bounds the number of steps. -/
def tokensWith : Nat → Rest → List Token
  | 0, _ => []
  | fuel + 1, rest =>
      match rest.chars with
      | [] => []
      | '<' :: '!' :: '-' :: '-' :: more => tokensWith fuel (rest.drop (4 + commentLength more))
      | '<' :: '!' :: more =>
          tokensWith fuel (rest.drop (3 + (more.takeWhile (· != '>')).length))
      | '<' :: '/' :: _ =>
          let (name, next) := (skipBlank (rest.drop 2)).word isTagChar
          .closing (Text.lowerAscii name.text) :: tokensWith fuel next
      | '<' :: _ =>
          let inside := skipBlank (rest.drop 1)
          if inside.chars.head?.any isTagChar then
            let (tag, next) := openingTag inside
            let name := Text.lowerAscii tag.name.text
            let next := if isRaw name && !tag.closed then next.drop (rawLength name next.chars)
              else next
            .opening tag :: tokensWith fuel next
          else tokensWith fuel (rest.drop 1)
      | _ => tokensWith fuel (rest.drop 1)

/-- The tags of a text. -/
def tokens (text : String) : List Token :=
  let chars := text.toList
  tokensWith (chars.length + 1) { chars }

end Markup
end NgIndex
