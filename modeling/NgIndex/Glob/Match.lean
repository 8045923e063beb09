import NgIndex.Glob

/-!
# Matching glob patterns

A pattern is matched against the bytes of a path.  Matching a part gives every way to go on: the
list of what may be left of the path after it.  A pattern matches if nothing may be left.  Stars
and question marks match slashes as they match other bytes.

A path whose last part is a double dot has no file name.  A pattern that selects files by their
name or by their extension does not match such a path.
-/

namespace NgIndex
namespace Glob

/-- The bytes of a text. -/
def bytesOf (text : String) : List UInt8 :=
  text.toList.flatMap String.utf8EncodeChar

/-- The byte of the slash. -/
def slash : UInt8 := 0x2f

/-- A list and all that is left of it after removing elements from the front. -/
def suffixes : List UInt8 → List (List UInt8)
  | [] => [[]]
  | b :: rest => (b :: rest) :: suffixes rest

/-- What follows each slash. -/
def afterSlashes : List UInt8 → List (List UInt8)
  | [] => []
  | b :: rest => if b == slash then rest :: afterSlashes rest else afterSlashes rest

/-- Removes the given bytes from the front. -/
def dropBytes? : List UInt8 → List UInt8 → Option (List UInt8)
  | [], text => some text
  | _ :: _, [] => none
  | b :: bs, c :: cs => if b == c then dropBytes? bs cs else none

/-- The single bytes and byte ranges that a range of characters contributes to a class.  The bytes
of a character beyond ASCII are members one by one. -/
def byteRanges (range : Char × Char) : List (UInt8 × UInt8) :=
  let single (bs : List UInt8) := bs.map fun b => (b, b)
  let first := String.utf8EncodeChar range.1
  let last := String.utf8EncodeChar range.2
  if range.1 == range.2 then single first
  else
    match first.getLast?, last with
    | some low, high :: more => single first.dropLast ++ [(low, high)] ++ single more
    | _, _ => []

/-- Whether a byte is a member of a class. -/
def inClass (ranges : List (Char × Char)) (b : UInt8) : Bool :=
  ranges.any fun range => (byteRanges range).any fun (low, high) => low ≤ b && b ≤ high

/-- Remainders without those that repeat a length.  All of them are ends of one text, so equal
length means equal. -/
def distinct : List (List UInt8) → List (List UInt8)
  | [] => []
  | rest :: more =>
      let more := distinct more
      if more.any fun other => other.length == rest.length then more else rest :: more

mutual

/-- Whether a part matches nothing because it is a choice between nothing. -/
def Token.isVoid : Token → Bool
  | .choice alternatives => allVoid alternatives
  | _ => false

/-- Whether a pattern has no part that matches anything. -/
def isVoidList : List Token → Bool
  | [] => true
  | token :: rest => token.isVoid && isVoidList rest

/-- Whether all alternatives are void. -/
def allVoid : List (List Token) → Bool
  | [] => true
  | tokens :: rest => isVoidList tokens && allVoid rest

end

mutual

/-- What may be left of a text after a part.  Void alternatives of a choice are passed over. -/
def Token.rests (token : Token) (text : List UInt8) : List (List UInt8) :=
  match token with
  | .literal c => (dropBytes? (String.utf8EncodeChar c) text).toList
  | .any => text.tail?.toList
  | .star => suffixes text
  | .leading =>
      text :: afterSlashes text
  | .trailing =>
      match text with
      | b :: rest => if b == slash then suffixes rest else []
      | [] => []
  | .between =>
      match text with
      | b :: rest => if b == slash then rest :: afterSlashes rest else []
      | [] => []
  | .charClass negated ranges =>
      match text with
      | b :: rest => if inClass ranges b != negated then [rest] else []
      | [] => []
  | .choice alternatives => if allVoid alternatives then [text] else choiceRests alternatives text

/-- What may be left of a text after a pattern. -/
def listRests (tokens : List Token) (text : List UInt8) : List (List UInt8) :=
  match tokens with
  | [] => [text]
  | token :: rest => distinct ((distinct (token.rests text)).flatMap (listRests rest))

/-- What may be left of a text after one of several patterns. -/
def choiceRests (alternatives : List (List Token)) (text : List UInt8) : List (List UInt8) :=
  match alternatives with
  | [] => []
  | tokens :: rest =>
      (if isVoidList tokens then [] else listRests tokens text) ++ choiceRests rest text

end

/-- The characters of a pattern of literal characters only. -/
def literals? : List Token → Option (List Char)
  | [] => some []
  | .literal c :: rest => (literals? rest).map (c :: ·)
  | _ :: _ => none

/-- Whether the pattern is any directories followed by one fixed file name. -/
def isBaseName : List Token → Bool
  | .leading :: name =>
      match literals? name with
      | some cs => !cs.isEmpty && !cs.contains '/'
      | none => false
  | _ => false

/-- Whether the pattern is a star followed by one fixed extension. -/
def isExtension (tokens : List Token) : Bool :=
  let body :=
    match tokens with
    | .leading :: rest => rest
    | _ => tokens
  match body with
  | .star :: .literal '.' :: extension =>
      match literals? extension with
      | some cs => !cs.contains '.' && !cs.contains '/'
      | none => false
  | _ => false

/-- Whether the pattern is a fixed beginning of a path. -/
def isFixedFront (tokens : List Token) : Bool :=
  match tokens.getLast? with
  | some .star => !tokens.dropLast.isEmpty && (literals? tokens.dropLast).isSome
  | some .trailing => (literals? tokens.dropLast).isSome
  | some _ => (literals? tokens).isSome
  | none => false

/-- Whether the pattern is a fixed end of a path. -/
def isFixedEnd (tokens : List Token) : Bool :=
  let dropStar : List Token → List Token
    | .star :: rest => rest
    | body => body
  match tokens with
  | .leading :: body =>
      match literals? (dropStar body) with
      | some cs => !cs.isEmpty
      | none => false
  | _ =>
      match literals? (dropStar tokens) with
      | some cs => !cs.isEmpty && cs != ['/']
      | none => false

/-- Whether the pattern ends in a dot and fixed characters that are no slash. -/
def hasFixedExtension (tokens : List Token) : Bool :=
  let rec go : List Token → Bool
    | .literal c :: rest => if c == '.' then true else if c == '/' then false else go rest
    | _ => false
  go tokens.reverse

/-- Whether the pattern selects files by their name or extension. -/
def selectsByName (tokens : List Token) : Bool :=
  isBaseName tokens ||
    ((literals? tokens).isNone &&
      (isExtension tokens ||
        (!isFixedFront tokens && !isFixedEnd tokens && hasFixedExtension tokens)))

/-- Whether the last part of a path is a double dot. -/
def endsInParent (path : String) : Bool :=
  (path.toList.splitOn '/').getLast? == some ['.', '.']

/-- Whether a pattern matches a whole path.  A pattern of nothing but any directories matches
every path. -/
def isMatch (glob : Glob) (path : String) : Bool :=
  match glob.tokens with
  | [.leading] => true
  | tokens =>
      (listRests tokens (bytesOf path)).any List.isEmpty &&
        !(endsInParent path && selectsByName tokens)

end Glob
end NgIndex
