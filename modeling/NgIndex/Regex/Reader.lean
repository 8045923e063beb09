import NgIndex.Json.Reader
import NgIndex.Regex

/-!
# Reading regular expressions

The usual notation: alternatives, groups, repetition, character classes with set operations,
anchors and flags.  Look-around and back references are not part of it, and an escape of a letter
that has no meaning is an error.  Reading says only whether the text is an expression; it does not
say what is wrong with one that is not.
-/

namespace NgIndex
namespace Regex

/-- The flags in force. -/
structure Flags where
  fold : Bool := false
  lines : Bool := false
  dotAll : Bool := false
  verbose : Bool := false

/-- The flag that a letter names, set to a value.  Laziness and the two modes that change nothing
in a question about any match at all are accepted. -/
def Flags.set? (flags : Flags) (letter : Char) (value : Bool) : Option Flags :=
  match letter with
  | 'i' => some { flags with fold := value }
  | 'm' => some { flags with lines := value }
  | 's' => some { flags with dotAll := value }
  | 'x' => some { flags with verbose := value }
  | 'U' => some flags
  | 'u' => some flags
  | 'R' => some flags
  | _ => none

/-- The characters that stand for themselves after a backslash. -/
def isEscapable (c : Char) : Bool :=
  c.toNat < 128 && !c.isAlphanum && c != '<' && c != '>'

/-- A set named by an escape of one letter. -/
def namedSet? (c : Char) : Option CharSet :=
  match c with
  | 'd' => some .digit
  | 'D' => some (.compl .digit)
  | 'w' => some .word
  | 'W' => some (.compl .word)
  | 's' => some .blank
  | 'S' => some (.compl .blank)
  | _ => none

/-- A control character named by an escape of one letter. -/
def controlChar? (c : Char) : Option Char :=
  match c with
  | 'n' => some '\n'
  | 't' => some '\t'
  | 'r' => some '\r'
  | 'a' => some (Char.ofNat 7)
  | 'f' => some (Char.ofNat 12)
  | 'v' => some (Char.ofNat 11)
  | _ => none

/-- The number that hexadecimal digits stand for. -/
def hexNumber? (cs : List Char) : Option Nat :=
  if cs.isEmpty then none
  else cs.foldlM (fun value c => (Json.hexValue? c).map (value * 16 + ·)) 0

/-- The character with a code point. -/
def charOfCode? (code : Nat) : Option Char :=
  if code.isValidChar then some (Char.ofNat code) else none

/-- A code point of a fixed number of digits, or of any number of digits in braces. -/
def readCode (digits : Nat) (cs : List Char) : Option (Char × List Char) := do
  match cs with
  | '{' :: rest =>
      let (inside, after) := rest.span (· != '}')
      if after.isEmpty then none
      return (← charOfCode? (← hexNumber? inside), after.tail)
  | _ =>
      if cs.length < digits then none
      return (← charOfCode? (← hexNumber? (cs.take digits)), cs.drop digits)

/-- A general category or other property with a name that this library knows. -/
def propertyOf? (name : String) : Option CharSet :=
  if ["Nd", "Decimal_Number", "nd"].contains name then some .digit
  else if ["Lu", "lu", "Uppercase_Letter", "Uppercase", "Upper", "upper"].contains name then
    some .upper
  else if ["Ll", "ll", "Lowercase_Letter", "Lowercase", "Lower", "lower"].contains name then
    some .lower
  else if ["L", "l", "Letter", "Alphabetic", "Alpha", "alpha"].contains name then
    some (CharSet.minus (.minus .word .digit) (.single '_'))
  else if ["White_Space", "space"].contains name then some .blank
  else if ["Any", "any"].contains name then some .all
  else if ["ASCII", "ascii"].contains name then some (.range (Char.ofNat 0) (Char.ofNat 127))
  else none

/-- A property after `\p` or `\P`. -/
def readProperty (negated : Bool) (cs : List Char) : Option (CharSet × List Char) := do
  let (name, rest) ← match cs with
    | '{' :: rest =>
        let (inside, after) := rest.span (· != '}')
        if after.isEmpty then none else some (inside, after.tail)
    | c :: rest => some ([c], rest)
    | [] => none
  let (negated, name) := match name with
    | '^' :: name => (!negated, name)
    | _ => (negated, name)
  let set ← propertyOf? (String.ofList name)
  return (if negated then .compl set else set, rest)

/-- An escape that stands for one character or a set, after its backslash. -/
def readEscape (cs : List Char) : Option (CharSet × List Char) :=
  match cs with
  | [] => none
  | 'x' :: rest => (readCode 2 rest).map fun (c, rest) => (.single c, rest)
  | 'u' :: rest => (readCode 4 rest).map fun (c, rest) => (.single c, rest)
  | 'U' :: rest => (readCode 8 rest).map fun (c, rest) => (.single c, rest)
  | 'p' :: rest => readProperty false rest
  | 'P' :: rest => readProperty true rest
  | c :: rest =>
      match namedSet? c, controlChar? c with
      | some set, _ => some (set, rest)
      | none, some control => some (.single control, rest)
      | none, none => if isEscapable c then some (.single c, rest) else none

/-- A class named between colons. -/
def posixSet? (name : String) : Option CharSet :=
  let alpha := CharSet.union (.range 'a' 'z') (.range 'A' 'Z')
  let numeral := CharSet.range '0' '9'
  match name with
  | "alnum" => some (.union alpha numeral)
  | "alpha" => some alpha
  | "ascii" => some (.range (Char.ofNat 0) (Char.ofNat 127))
  | "blank" => some (.union (.single ' ') (.single '\t'))
  | "cntrl" => some (.union (.range (Char.ofNat 0) (Char.ofNat 31)) (.single (Char.ofNat 127)))
  | "digit" => some numeral
  | "graph" => some (.range '!' '~')
  | "lower" => some (.range 'a' 'z')
  | "print" => some (.range ' ' '~')
  | "punct" => some (CharSet.minus (.range '!' '~') (.union alpha numeral))
  | "space" => some (.union (.range '\t' '\r') (.single ' '))
  | "upper" => some (.range 'A' 'Z')
  | "word" => some (.union (.union alpha numeral) (.single '_'))
  | "xdigit" => some (.union numeral (.union (.range 'a' 'f') (.range 'A' 'F')))
  | _ => none

/-- A class named between colons, after its opening bracket and colon. -/
def readPosix (cs : List Char) : Option (CharSet × List Char) := do
  let (negated, cs) := match cs with
    | '^' :: rest => (true, rest)
    | _ => (false, cs)
  let (name, rest) := cs.span (· != ':')
  match rest with
  | ':' :: ']' :: rest =>
      let set ← posixSet? (String.ofList name)
      return (if negated then .compl set else set, rest)
  | _ => none

/-- The single character of a set of one character. -/
def singleOf? : CharSet → Option Char
  | .range first last => if first == last then some first else none
  | _ => none

/-- White space and comments between the parts of a verbose expression. -/
def skipVerbose (fuel : Nat) (flags : Flags) (cs : List Char) : List Char :=
  match fuel with
  | 0 => cs
  | fuel + 1 =>
      if !flags.verbose then cs
      else
        match cs.dropWhile Text.isBlank with
        | '#' :: rest => skipVerbose fuel flags (rest.dropWhile (· != '\n'))
        | cs => cs

/-- One character or one escape inside a class. -/
def readClassAtom (cs : List Char) : Option (CharSet × List Char) :=
  match cs with
  | '\\' :: rest => readEscape rest
  | c :: rest => some (.single c, rest)
  | [] => none

/-- A range of characters, or one character or escape. -/
def readClassItem (cs : List Char) : Option (CharSet × List Char) := do
  let (first, rest) ← readClassAtom cs
  match rest with
  | '-' :: ']' :: _ => return (first, rest)
  | '-' :: '-' :: _ => return (first, rest)
  | '-' :: after => do
      let (last, rest) ← readClassAtom after
      let low ← singleOf? first
      let high ← singleOf? last
      if high < low then none
      return (.range low high, rest)
  | _ => return (first, rest)

mutual

/-- A class after its opening bracket. -/
def readClass (fuel : Nat) (flags : Flags) (cs : List Char) : Option (CharSet × List Char) :=
  match fuel with
  | 0 => none
  | fuel + 1 => do
      let (negated, cs) := match cs with
        | '^' :: rest => (true, rest)
        | _ => (false, cs)
      let hyphens := cs.takeWhile (· == '-')
      let front : CharSet := if hyphens.isEmpty then .none else .single '-'
      let cs := cs.drop hyphens.length
      let (set, rest) ← match cs with
        | ']' :: rest =>
            if hyphens.isEmpty then readClassItems fuel flags id (.single ']') rest
            else readClassItems fuel flags id front cs
        | _ => readClassItems fuel flags id front cs
      return (if negated then .compl set else set, rest)

/-- The members of a class up to its closing bracket, joined to those that were read before.  What
comes before the last operator between sets is combined with the result by `before`. -/
def readClassItems (fuel : Nat) (flags : Flags) (before : CharSet → CharSet) (set : CharSet)
    (cs : List Char) : Option (CharSet × List Char) :=
  match fuel with
  | 0 => none
  | fuel + 1 =>
      let cs := if flags.verbose then cs.dropWhile Text.isBlank else cs
      match cs with
      | [] => none
      | ']' :: rest => some (before set, rest)
      | '&' :: '&' :: rest => readClassItems fuel flags (CharSet.inter (before set)) .none rest
      | '-' :: '-' :: rest => readClassItems fuel flags (CharSet.minus (before set)) .none rest
      | '~' :: '~' :: rest => readClassItems fuel flags (CharSet.exclusive (before set)) .none rest
      | '[' :: rest =>
          let named := match rest with
            | ':' :: name => readPosix name
            | _ => none
          match named with
          | some (inner, rest) => readClassItems fuel flags before (.union set inner) rest
          | none => do
              let (inner, rest) ← readClass fuel flags rest
              readClassItems fuel flags before (.union set inner) rest
      | _ => do
          let (item, rest) ← readClassItem cs
          readClassItems fuel flags before (.union set item) rest

end

/-- The bounds of a counted repetition after its opening brace. -/
def readBounds (cs : List Char) : Option (Nat × Option Nat × List Char) := do
  let digits (cs : List Char) := cs.span fun c => '0' ≤ c && c ≤ '9'
  let number? (ds : List Char) : Option Nat :=
    if ds.isEmpty || ds.length > 6 then none else (String.ofList ds).toNat?
  let (low, rest) := digits (cs.dropWhile (· == ' '))
  let low ← number? low
  match rest with
  | '}' :: rest => return (low, some low, rest)
  | ',' :: '}' :: rest => return (low, none, rest)
  | ',' :: rest =>
      let (high, rest) := digits rest
      let high ← number? high
      if high < low then none
      match rest with
      | '}' :: rest => return (low, some high, rest)
      | _ => none
  | _ => none

/-- An expression repeated within bounds. -/
def repeated (a : Regex) (low : Nat) : Option Nat → Regex
  | none => .seq (a.times low) (.many a)
  | some high => .seq (a.times low) (a.upTo (high - low))

/-- The repetition marks after an expression.  `operand` is `none` where nothing can be
repeated. -/
def readRepeats (fuel : Nat) (flags : Flags) (operand : Option Regex) (cs : List Char) :
    Option (Option Regex × List Char) :=
  match fuel with
  | 0 => none
  | fuel + 1 =>
      let lazily (cs : List Char) : List Char :=
        match cs with
        | '?' :: rest => rest
        | _ => cs
      let cs := skipVerbose cs.length flags cs
      match cs with
      | '*' :: rest => do
          let a ← operand
          readRepeats fuel flags (some (.many a)) (lazily rest)
      | '+' :: rest => do
          let a ← operand
          readRepeats fuel flags (some (.seq a (.many a))) (lazily rest)
      | '?' :: rest => do
          let a ← operand
          readRepeats fuel flags (some (.alt .empty a)) (lazily rest)
      | '{' :: rest => do
          let a ← operand
          let (low, high, rest) ← readBounds rest
          readRepeats fuel flags (some (repeated a low high)) (lazily rest)
      | _ => some (operand, cs)

/-- A run of flag letters, with a hyphen before those to be cleared.  `seen` holds what was read
before, newest first.  No letter and no hyphen may be repeated, and a hyphen may not come last. -/
def readFlags (flags : Flags) (seen : List Char) : List Char → Option (Flags × List Char)
  | [] => none
  | c :: rest =>
      if c == ':' || c == ')' then if seen.head? == some '-' then none else some (flags, c :: rest)
      else if seen.contains c then none
      else if c == '-' then readFlags flags (c :: seen) rest
      else
        match flags.set? c (!seen.contains '-') with
        | some flags => readFlags flags (c :: seen) rest
        | none => none

/-- The name of a group up to its closing angle bracket. -/
def readGroupName (cs : List Char) : Option (List Char) :=
  let (name, rest) := cs.span (· != '>')
  let starts (c : Char) : Bool := c == '_' || (Text.isWord c && !Text.isDigit c)
  let continues (c : Char) : Bool := Text.isWord c || c == '.' || c == '[' || c == ']'
  match name, rest with
  | c :: more, '>' :: rest => if starts c && more.all continues then some rest else none
  | _, _ => none

/-- An anchor or boundary after a backslash. -/
def readLook (cs : List Char) : Option (Look × List Char) :=
  match cs with
  | 'A' :: rest => some (.textStart, rest)
  | 'z' :: rest => some (.textEnd, rest)
  | 'B' :: rest => some (.wordInside, rest)
  | '<' :: rest => some (.wordStart, rest)
  | '>' :: rest => some (.wordEnd, rest)
  | 'b' :: rest =>
      let (name, after) := (rest.drop 1).span (· != '}')
      if rest.head? == some '{' && name == "start".toList && !after.isEmpty then
        some (.wordStart, after.tail)
      else if rest.head? == some '{' && name == "end".toList && !after.isEmpty then
        some (.wordEnd, after.tail)
      else some (.wordBoundary, rest)
  | _ => none

/-- What a dot matches. -/
def dot (flags : Flags) : Regex :=
  .chars false (if flags.dotAll then .all else .compl (.single '\n'))

mutual

/-- Alternatives up to the end of the text or the end of a group. -/
def readAlternatives (fuel : Nat) (flags : Flags) (cs : List Char) :
    Option (Regex × Flags × List Char) :=
  match fuel with
  | 0 => none
  | fuel + 1 => do
      let (first, flags, rest) ← readSequence fuel flags .empty cs
      match rest with
      | '|' :: rest => do
          let (more, flags, rest) ← readAlternatives fuel flags rest
          return (.alt first more, flags, rest)
      | _ => return (first, flags, rest)

/-- A sequence, joined to what was read before. -/
def readSequence (fuel : Nat) (flags : Flags) (before : Regex) (cs : List Char) :
    Option (Regex × Flags × List Char) :=
  match fuel with
  | 0 => none
  | fuel + 1 =>
      let cs := skipVerbose cs.length flags cs
      match cs with
      | [] => some (before, flags, [])
      | '|' :: _ => some (before, flags, cs)
      | ')' :: _ => some (before, flags, cs)
      | _ => do
          let (operand, flags, rest) ← readAtom fuel flags cs
          let (repeated, rest) ← readRepeats fuel flags operand rest
          readSequence fuel flags (.seq before (repeated.getD .empty)) rest

/-- One expression without repetition marks; `none` as its value where only flags were set. -/
def readAtom (fuel : Nat) (flags : Flags) (cs : List Char) :
    Option (Option Regex × Flags × List Char) :=
  match fuel with
  | 0 => none
  | fuel + 1 =>
      match cs with
      | [] => none
      | '(' :: rest => readGroup fuel flags rest
      | '[' :: rest => do
          let (set, rest) ← readClass fuel flags rest
          return (some (.chars flags.fold set), flags, rest)
      | '.' :: rest => some (some (dot flags), flags, rest)
      | '^' :: rest =>
          some (some (.look (if flags.lines then .lineStart else .textStart)), flags, rest)
      | '$' :: rest =>
          some (some (.look (if flags.lines then .lineEnd else .textEnd)), flags, rest)
      | '\\' :: rest =>
          match readLook rest with
          | some (condition, rest) => some (some (.look condition), flags, rest)
          | none => do
              let (set, rest) ← readEscape rest
              return (some (.chars flags.fold set), flags, rest)
      | '*' :: _ => none
      | '+' :: _ => none
      | '?' :: _ => none
      | '{' :: _ => none
      | c :: rest => some (some (.chars flags.fold (.single c)), flags, rest)

/-- A group after its opening parenthesis.  Flags that a group sets end with it, except that a
group of flags alone sets them for what follows. -/
def readGroup (fuel : Nat) (flags : Flags) (cs : List Char) :
    Option (Option Regex × Flags × List Char) :=
  match fuel with
  | 0 => none
  | fuel + 1 =>
      let body (inner : Flags) (cs : List Char) : Option (Option Regex × Flags × List Char) := do
        let (regex, _, rest) ← readAlternatives fuel inner cs
        match rest with
        | ')' :: rest => return (some regex, flags, rest)
        | _ => none
      match cs with
      | '?' :: 'P' :: '<' :: rest => do body flags (← readGroupName rest)
      | '?' :: '<' :: rest => do body flags (← readGroupName rest)
      | '?' :: ':' :: rest => body flags rest
      | '?' :: rest =>
          match readFlags flags [] rest with
          | some (inner, ':' :: rest) => body inner rest
          | some (inner, ')' :: after) =>
              if rest.head? == some ')' then none else some (none, inner, after)
          | _ => none
      | _ => body flags cs

end

/-- Reads an expression. -/
def parse? (text : String) : Option Regex := do
  let cs := text.toList
  let (regex, _, rest) ← readAlternatives (4 * cs.length + 8) {} cs
  if rest.isEmpty then return regex else none

end Regex
end NgIndex
