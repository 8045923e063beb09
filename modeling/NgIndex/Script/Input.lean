import NgIndex.Script.Dialect
import NgIndex.Script.Node
import NgIndex.Text.Blank

/-!
# The text of a script as it is read

What is left to read of a script, where it starts, and the comments passed so far.  White space and
comments may stand before any token.  This module also holds the rule for line ends: where a
statement may end without a semicolon.
-/

namespace NgIndex
namespace Script

/-- What is left of a script, the place where it starts, and the comments passed, newest first. -/
structure Input where
  rest : List Char
  position : Position := {}
  comments : List Node := []
  deriving Inhabited

/-- White space between tokens. -/
def isSpace (c : Char) : Bool :=
  Text.isBlank c || c.toNat == 0xfeff || c.toNat == 0x2060 || c.toNat == 0x200b

/-- The end of a line, for comments that run up to it. -/
def isLineEnd (c : Char) : Bool :=
  c == '\n' || c == '\r' || c.toNat == 0x2028 || c.toNat == 0x2029

/-- The characters that separate names. -/
def isPunctuation (c : Char) : Bool :=
  ":;\"'@#.,|^&<=>+-*/\\%?!~()[]\x7b\x7d".toList.contains c || c.toNat == 96

/-- Whether a character may continue a name. -/
def isNamePart (c : Char) : Bool :=
  31 < c.toNat && !isSpace c && !isPunctuation c

/-- Whether a character may start a name. -/
def isNameStart (c : Char) : Bool :=
  isNamePart c && !('0' ≤ c && c ≤ '9')

/-- What follows a block comment after its opening, with the comment's characters in reverse. -/
def closeComment (passed : List Char) : List Char → Option (List Char × List Char)
  | [] => none
  | '*' :: '/' :: rest => some ('/' :: '*' :: passed, rest)
  | c :: rest => closeComment (c :: passed) rest

/-- A comment at the front: its characters and what follows. -/
def splitComment? : List Char → Option (List Char × List Char)
  | '/' :: '/' :: rest =>
      let (body, rest) := rest.span fun c => !isLineEnd c
      some ('/' :: '/' :: body, rest)
  | '/' :: '*' :: rest =>
      (closeComment ['*', '/'] rest).map fun (passed, rest) => (passed.reverse, rest)
  | _ => none

namespace Input

/-- Moves over the given number of characters. -/
def drop (input : Input) : Nat → Input
  | 0 => input
  | n + 1 =>
      match input.rest with
      | [] => input
      | c :: rest =>
          drop { input with rest, position := input.position.advance c } n

/-- Moves over white space. -/
def skipSpace (input : Input) : Input :=
  input.drop (input.rest.takeWhile isSpace).length

/-- Moves over white space and comments; `fuel` bounds the number of comments. -/
def skipTriviaWith (fuel : Nat) (input : Input) : Input :=
  match fuel with
  | 0 => input
  | fuel + 1 =>
      let input := input.skipSpace
      match splitComment? input.rest with
      | none => input
      | some (body, _) =>
          let after := input.drop body.length
          let comment : Node :=
            { kind := .comment, start := input.position, stop := after.position }
          skipTriviaWith fuel { after with comments := comment :: after.comments }

/-- Moves to the next token. -/
def skipTrivia (input : Input) : Input :=
  input.skipTriviaWith (input.rest.length + 1)

end Input

/-- What stands between two tokens: line ends outside comments, whether there is a comment, and
whether there is one that ends or holds a line. -/
structure Gap where
  hasNewline : Bool := false
  hasComment : Bool := false
  hasLineComment : Bool := false
  deriving Repr

/-- Whether a comment runs to the end of its line or over several lines. -/
def endsLine (body : List Char) : Bool :=
  body.take 2 == ['/', '/'] || body.any isLineEnd

/-- The gap before the next token, and the characters from it on. -/
def gapWith (fuel : Nat) (gap : Gap) (cs : List Char) : Gap × List Char :=
  match fuel with
  | 0 => (gap, cs)
  | fuel + 1 =>
      let (spaces, cs) := cs.span isSpace
      let gap := { gap with
        hasNewline := gap.hasNewline ||
          spaces.any fun c => c == '\n' || c.toNat == 0x2028 || c.toNat == 0x2029 }
      match splitComment? cs with
      | none => (gap, cs)
      | some (body, rest) =>
          gapWith fuel { gap with
            hasComment := true
            hasLineComment := gap.hasLineComment || endsLine body } rest

/-- The gap before the next token, and the characters from it on. -/
def gapBefore (cs : List Char) : Gap × List Char :=
  gapWith (cs.length + 1) {} cs

/-- Whether a letter starts or continues a word of letters. -/
def startsLetter (cs : List Char) : Bool :=
  match cs with
  | c :: _ => c.isAlpha
  | [] => false

/-- Whether the word `in` or `instanceof` stands at the front. -/
def startsRelation (cs : List Char) : Bool :=
  match cs with
  | 'i' :: 'n' :: rest =>
      !startsLetter rest ||
        (rest.take 8 == "stanceof".toList && !startsLetter (rest.drop 8))
  | _ => false

/-- Whether the characters after a line end go on with the statement before it.  `operand` says
that the statement so far ends in a complete expression. -/
def continuesStatement (dialect : Dialect) (operand : Bool) (cs : List Char) : Bool :=
  match cs with
  | [] => false
  | '+' :: rest => rest.head? != some '+'
  | '-' :: rest => rest.head? != some '-'
  | '!' :: rest => rest.head? == some '='
  | '.' :: rest =>
      dialect.hasTypes || !(rest.head?.any fun c => '0' ≤ c && c ≤ '9')
  | '(' :: _ => !dialect.hasTypes || operand
  | '[' :: _ => !dialect.hasTypes || operand
  | c :: _ => ",:;*%><=?^|&/".toList.contains c || c.toNat == 96 || startsRelation cs

/-- Whether a statement may end here without a semicolon: before a closing brace, at the end of the
text, at a line end that does not go on with the statement, and in some cases before a comment. -/
def endsStatement (dialect : Dialect) (operand : Bool) (cs : List Char) : Bool :=
  match gapBefore cs with
  | (_, []) => true
  | (gap, c :: rest) =>
      let divider := c == ',' || c == '='
      c == '}' ||
        (gap.hasComment && dialect.hasTypes && !divider) ||
        (gap.hasLineComment && !operand && !divider) ||
        ((gap.hasNewline || gap.hasLineComment) && !continuesStatement dialect operand (c :: rest))

end Script
end NgIndex
