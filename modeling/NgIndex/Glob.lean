/-!
# Glob patterns

The parts of a glob pattern and the reading of a pattern from text.  Outside a character class a
backslash takes the special meaning from the character after it.  Two stars make a recursive part
only where they fill the space between two slashes or between a slash and an end of the pattern;
anywhere else they count as two single stars.
-/

namespace NgIndex

/-- One part of a glob pattern. -/
inductive Glob.Token where
  /-- The character itself. -/
  | literal (c : Char)
  /-- One byte. -/
  | any
  /-- Any bytes. -/
  | star
  /-- Any directories at the front. -/
  | leading
  /-- A slash and everything below it. -/
  | trailing
  /-- A slash, or any directories between two slashes. -/
  | between
  /-- One byte of a class, or one that is not of it. -/
  | charClass (negated : Bool) (ranges : List (Char × Char))
  /-- One of several patterns. -/
  | choice (alternatives : List (List Glob.Token))
  deriving Repr, Inhabited

/-- A pattern that has been read, with the text it was read from. -/
structure Glob where
  pattern : String
  tokens : List Glob.Token
  deriving Repr, Inhabited

namespace Glob

/-- Why a text is not a glob pattern. -/
inductive Error where
  | unclosedClass
  | invalidRange (first last : Char)
  | unclosedChoice
  | unopenedChoice
  | danglingEscape
  deriving DecidableEq, Repr

/-- The wording of an error. -/
def Error.reason : Error → String
  | .unclosedClass => "unclosed character class; missing ']'"
  | .invalidRange first last => "invalid range; '" ++ toString first ++ "' > '" ++ toString last ++ "'"
  | .unclosedChoice =>
      "unclosed alternate group; missing '\x7d' (maybe escape '\x7b' with '[\x7b]'?)"
  | .unopenedChoice =>
      "unopened alternate group; missing '\x7b' (maybe escape '\x7d' with '[\x7d]'?)"
  | .danglingEscape => "dangling '\\'"

/-- The wording of an error together with the pattern. -/
def Error.message (pattern : String) (error : Error) : String :=
  "error parsing glob '" ++ pattern ++ "': " ++ error.reason

/-- A group that is being read: the alternatives that are complete and the current one, whose
parts stand in reverse. -/
structure Group where
  complete : List (List Token) := []
  current : List Token := []

/-- A group with one more part in its current alternative. -/
def Group.push (group : Group) (token : Token) : Group :=
  { group with current := token :: group.current }

/-- A group whose last part is replaced by a recursive one.  A recursive part absorbs the slash
before it, and two recursive parts in a row are one. -/
def Group.fuse (group : Group) (token : Token) : Group :=
  match group.current with
  | .leading :: _ => group
  | .trailing :: _ => group
  | _ :: before => { group with current := token :: before }
  | [] => group

/-- The alternatives of a group. -/
def Group.alternatives (group : Group) : List (List Token) :=
  group.complete ++ [group.current.reverse]

/-- The state of reading a pattern: the innermost group, the groups around it, and the character
read last. -/
structure Reading where
  group : Group := {}
  outer : List Group := []
  previous : Option Char := none

namespace Reading

/-- One more part, and the character it came from. -/
def push (reading : Reading) (token : Token) (last : Char) : Reading :=
  { reading with group := reading.group.push token, previous := some last }

/-- Two single stars. -/
def pushStars (reading : Reading) : Reading :=
  (reading.push .star '*').push .star '*'

/-- Whether the reading stands inside a group. -/
def isNested (reading : Reading) : Bool :=
  !reading.outer.isEmpty

/-- Starts a group. -/
def openGroup (reading : Reading) : Reading :=
  { group := {}, outer := reading.group :: reading.outer, previous := some '{' }

/-- Ends a group, if there is one. -/
def closeGroup? (reading : Reading) : Option Reading :=
  match reading.outer with
  | [] => none
  | around :: outer =>
      some {
        group := around.push (.choice reading.group.alternatives)
        outer
        previous := some '}' }

/-- A comma separates alternatives inside a group and is an ordinary character elsewhere. -/
def comma (reading : Reading) : Reading :=
  if reading.isNested then
    { reading with group := { complete := reading.group.alternatives }, previous := some ',' }
  else reading.push (.literal ',') ','

/-- Whether two stars after the given character may be recursive although parts stand before
them. -/
def mayRecurse (reading : Reading) : Bool :=
  match reading.previous with
  | some '/' => true
  | some ',' => reading.isNested
  | some '{' => reading.isNested
  | _ => false

/-- Two stars, given what follows them.  The flag says whether a slash after them was used up. -/
def stars (reading : Reading) (next : Option Char) : Reading × Bool :=
  let ends (slash : Bool) (reading : Reading) : Reading :=
    { reading with previous := some (if slash then '/' else '*') }
  if reading.group.current.isEmpty then
    match next with
    | none => (reading.push .leading '*', false)
    | some '/' => (reading.push .leading '/', true)
    | some _ => (reading.pushStars, false)
  else if !reading.mayRecurse then (reading.pushStars, false)
  else
    match next with
    | none => (ends false { reading with group := reading.group.fuse .trailing }, false)
    | some '/' => (ends true { reading with group := reading.group.fuse .between }, true)
    | some c =>
        if (c == ',' || c == '}') && reading.isNested then
          (ends false { reading with group := reading.group.fuse .trailing }, false)
        else (reading.pushStars, false)

end Reading

/-- The state of reading a character class: the ranges in reverse, whether a hyphen waits for the
end of a range, and whether a member has been read. -/
structure ClassReading where
  ranges : List (Char × Char) := []
  open_ : Bool := false
  started : Bool := false

/-- Ends the range that the last member started. -/
def ClassReading.extend (reading : ClassReading) (c : Char) : Except Error ClassReading :=
  match reading.ranges with
  | (first, _) :: before =>
      if c < first then .error (.invalidRange first c)
      else .ok { ranges := (first, c) :: before, open_ := false, started := true }
  | [] => .ok { ranges := [(c, c)], open_ := false, started := true }

/-- One more member of a class. -/
def ClassReading.member (reading : ClassReading) (c : Char) : Except Error ClassReading :=
  if reading.open_ then reading.extend c
  else if c == '-' && reading.started then .ok { reading with open_ := true }
  else .ok { ranges := (c, c) :: reading.ranges, open_ := false, started := true }

/-- The ranges of a class; a hyphen left at the end is a member. -/
def ClassReading.finish (reading : ClassReading) : List (Char × Char) :=
  (if reading.open_ then ('-', '-') :: reading.ranges else reading.ranges).reverse

/-- The members of a class up to its closing bracket, and what follows.  A closing bracket that
comes first is a member. -/
def readClass (reading : ClassReading) :
    List Char → Except Error (List (Char × Char) × List Char)
  | [] => .error .unclosedClass
  | c :: rest =>
      if c == ']' && reading.started then .ok (reading.finish, rest)
      else
        match reading.member c with
        | .error error => .error error
        | .ok reading => readClass reading rest

/-- A class after its opening bracket. -/
def readNegatableClass (cs : List Char) : Except Error (Token × List Char) :=
  let body (negated : Bool) (cs : List Char) : Except Error (Token × List Char) :=
    (readClass {} cs).map fun (ranges, rest) => (.charClass negated ranges, rest)
  match cs with
  | '!' :: rest => body true rest
  | '^' :: rest => body true rest
  | _ => body false cs

/-- Reads the rest of a pattern; `fuel` bounds the number of parts. -/
def readTokens (fuel : Nat) (reading : Reading) (cs : List Char) : Except Error (List Token) :=
  match fuel with
  | 0 => .ok reading.group.current.reverse
  | fuel + 1 =>
      match cs with
      | [] =>
          if reading.isNested then .error .unclosedChoice
          else .ok reading.group.current.reverse
      | '?' :: rest => readTokens fuel (reading.push .any '?') rest
      | '*' :: '*' :: rest =>
          match reading.stars rest.head? with
          | (reading, true) => readTokens fuel reading rest.tail
          | (reading, false) => readTokens fuel reading rest
      | '*' :: rest => readTokens fuel (reading.push .star '*') rest
      | '[' :: rest => do
          let (token, rest) ← readNegatableClass rest
          readTokens fuel (reading.push token ']') rest
      | '{' :: rest => readTokens fuel reading.openGroup rest
      | '}' :: rest =>
          match reading.closeGroup? with
          | none => .error .unopenedChoice
          | some reading => readTokens fuel reading rest
      | ',' :: rest => readTokens fuel reading.comma rest
      | '\\' :: rest =>
          match rest with
          | [] => .error .danglingEscape
          | c :: rest => readTokens fuel (reading.push (.literal c) c) rest
      | c :: rest => readTokens fuel (reading.push (.literal c) c) rest

/-- Reads a pattern. -/
def parse (pattern : String) : Except Error Glob :=
  let cs := pattern.toList
  (readTokens (cs.length + 1) {} cs).map fun tokens => ⟨pattern, tokens⟩

end Glob
end NgIndex
