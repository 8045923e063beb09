import NgIndex.Json

/-!
# Reading JSON

A strict reader: one value with white space around it, no trailing comma, no comment, no byte
order mark, no leading zero, no raw control character inside a string.  Reading is by recursion on
a bound for the nesting, and the length of the text is always enough.
-/

namespace NgIndex
namespace Json

/-- What a string literal is made of before surrogate pairs are put together. -/
inductive Piece where
  | char (c : Char)
  | surrogate (code : Nat)

/-- The value of a hexadecimal digit. -/
def hexValue? (c : Char) : Option Nat :=
  if '0' ≤ c && c ≤ '9' then some (c.toNat - '0'.toNat)
  else if 'a' ≤ c && c ≤ 'f' then some (c.toNat - 'a'.toNat + 10)
  else if 'A' ≤ c && c ≤ 'F' then some (c.toNat - 'A'.toNat + 10)
  else none

/-- The piece named by four hexadecimal digits. -/
def pieceOfHex? (a b c d : Char) : Option Piece := do
  let code := (← hexValue? a) * 4096 + (← hexValue? b) * 256 + (← hexValue? c) * 16 +
    (← hexValue? d)
  if 0xd800 ≤ code && code ≤ 0xdfff then return .surrogate code
  return .char (Char.ofNat code)

/-- The character that an escape of one letter stands for. -/
def shortEscape? (c : Char) : Option Char :=
  match c with
  | '"' => some '"'
  | '\\' => some '\\'
  | '/' => some '/'
  | 'b' => some (Char.ofNat 8)
  | 'f' => some (Char.ofNat 12)
  | 'n' => some '\n'
  | 'r' => some '\r'
  | 't' => some '\t'
  | _ => none

/-- The pieces of a string literal after its opening quote, and what follows its closing quote. -/
def readPieces : List Char → Option (List Piece × List Char)
  | [] => none
  | '"' :: rest => some ([], rest)
  | '\\' :: 'u' :: a :: b :: c :: d :: rest => do
      let piece ← pieceOfHex? a b c d
      let (pieces, rest) ← readPieces rest
      return (piece :: pieces, rest)
  | '\\' :: c :: rest => do
      let c ← shortEscape? c
      let (pieces, rest) ← readPieces rest
      return (.char c :: pieces, rest)
  | c :: rest =>
      if c.toNat < 32 || c == '\\' then none
      else do
        let (pieces, rest) ← readPieces rest
        return (.char c :: pieces, rest)

/-- The characters of a string, or `none` if half of a surrogate pair stands alone. -/
def joinPieces? : List Piece → Option (List Char)
  | [] => some []
  | .char c :: rest => (joinPieces? rest).map (c :: ·)
  | .surrogate high :: .surrogate low :: rest =>
      if high < 0xdc00 && 0xdc00 ≤ low then
        let code := 0x10000 + (high - 0xd800) * 0x400 + (low - 0xdc00)
        (joinPieces? rest).map (Char.ofNat code :: ·)
      else none
  | .surrogate _ :: _ => none

/-- White space between tokens. -/
def skipBlanks (cs : List Char) : List Char :=
  cs.dropWhile fun c => c == ' ' || c == '\n' || c == '\t' || c == '\r'

/-- Decimal digits at the front, and the rest. -/
def spanDigits (cs : List Char) : List Char × List Char :=
  cs.span fun c => '0' ≤ c && c ≤ '9'

/-- The fraction of a number, if one follows. -/
def readFraction (cs : List Char) : Option (List Char × List Char) :=
  match cs with
  | '.' :: rest =>
      let (digits, rest) := spanDigits rest
      if digits.isEmpty then none else some ('.' :: digits, rest)
  | _ => some ([], cs)

/-- The digits of an exponent after its mark and sign. -/
def readPower (front cs : List Char) : Option (List Char × List Char) :=
  let (digits, rest) := spanDigits cs
  if digits.isEmpty then none else some (front ++ digits, rest)

/-- The exponent of a number, if one follows. -/
def readExponent (cs : List Char) : Option (List Char × List Char) :=
  match cs with
  | mark :: rest =>
      if mark == 'e' || mark == 'E' then
        match rest with
        | '+' :: rest => readPower [mark, '+'] rest
        | '-' :: rest => readPower [mark, '-'] rest
        | _ => readPower [mark] rest
      else some ([], cs)
  | [] => some ([], cs)

/-- The spelling of a number without its sign. -/
def readUnsigned (cs : List Char) : Option (List Char × List Char) := do
  let (digits, rest) := spanDigits cs
  if digits.isEmpty || (digits.head? == some '0' && digits.length > 1) then none
  let (fraction, rest) ← readFraction rest
  let (exponent, rest) ← readExponent rest
  return (digits ++ fraction ++ exponent, rest)

/-- A value that is neither a string nor a container. -/
def readScalar (cs : List Char) : Option (Json × List Char) :=
  match cs with
  | 'n' :: 'u' :: 'l' :: 'l' :: rest => some (.null, rest)
  | 't' :: 'r' :: 'u' :: 'e' :: rest => some (.bool true, rest)
  | 'f' :: 'a' :: 'l' :: 's' :: 'e' :: rest => some (.bool false, rest)
  | '-' :: rest => do
      let (spelling, rest) ← readUnsigned rest
      return (.number (String.ofList ('-' :: spelling)), rest)
  | _ => do
      let (spelling, rest) ← readUnsigned cs
      return (.number (String.ofList spelling), rest)

mutual

/-- A value, with `fuel` bounding the nesting and the number of items. -/
def readValue (fuel : Nat) (cs : List Char) : Option (Json × List Char) :=
  match fuel with
  | 0 => none
  | fuel + 1 =>
      match skipBlanks cs with
      | '"' :: rest => do
          let (pieces, rest) ← readPieces rest
          match joinPieces? pieces with
          | some text => return (.string (String.ofList text), rest)
          | none => return (.illFormed, rest)
      | '[' :: rest =>
          match skipBlanks rest with
          | ']' :: rest => some (.array [], rest)
          | rest => do
              let (items, rest) ← readItems fuel rest
              return (.array items, rest)
      | '{' :: rest =>
          match skipBlanks rest with
          | '}' :: rest => some (.object [], rest)
          | rest => do
              let (members, rest) ← readMembers fuel rest
              return (.object members, rest)
      | rest => readScalar rest

/-- The items of an array, up to and with its closing bracket. -/
def readItems (fuel : Nat) (cs : List Char) : Option (List Json × List Char) :=
  match fuel with
  | 0 => none
  | fuel + 1 => do
      let (item, rest) ← readValue fuel cs
      match skipBlanks rest with
      | ',' :: rest => do
          let (items, rest) ← readItems fuel rest
          return (item :: items, rest)
      | ']' :: rest => return ([item], rest)
      | _ => none

/-- The members of an object, up to and with its closing brace.  A name has to be well formed. -/
def readMembers (fuel : Nat) (cs : List Char) : Option (List (String × Json) × List Char) :=
  match fuel with
  | 0 => none
  | fuel + 1 =>
      match skipBlanks cs with
      | '"' :: rest => do
          let (pieces, rest) ← readPieces rest
          let name ← joinPieces? pieces
          match skipBlanks rest with
          | ':' :: rest => do
              let (value, rest) ← readValue fuel rest
              let member := (String.ofList name, value)
              match skipBlanks rest with
              | ',' :: rest => do
                  let (members, rest) ← readMembers fuel rest
                  return (member :: members, rest)
              | '}' :: rest => return ([member], rest)
              | _ => none
          | _ => none
      | _ => none

end

/-- Reads a text that holds exactly one value. -/
def read? (text : String) : Option Json := do
  let cs := text.toList
  let (json, rest) ← readValue (2 * cs.length + 1) cs
  if (skipBlanks rest).isEmpty then return json else none

end Json
end NgIndex
