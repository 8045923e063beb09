import NgIndex.Script.Input

/-!
# Rules of the grammar

A rule reads a part of a script from the front of the text, or fails and leaves the text as it was.
Rules are plain functions and may not call each other in circles.  Where the grammar is circular a
rule asks for a goal instead, and what answers the goal is handed to it from outside.  The grammar
as a whole then ties goals to rules with a bound on the nesting.

Tokens are read without a table of all tokens: which token stands at the front depends on the rule
that asks, as with a slash that starts a regular expression or divides.
-/

namespace NgIndex
namespace Script

/-- The parts of the grammar that other parts contain in circles. -/
inductive Goal where
  | statement
  | block
  | classBody
  /-- Expressions separated by commas. -/
  | expression
  /-- One expression. -/
  | single
  /-- One expression between a question mark and a colon. -/
  | consequent
  /-- Operators that bind at least as strongly as the level. -/
  | binary (level : Nat)
  | unary
  | pattern
  | type
  /-- A markup expression. -/
  | markup
  deriving Repr

/-- What a rule may look at: the dialect, and what answers goals. -/
structure Env where
  dialect : Dialect
  solve : Goal → StateT Input Option Node

/-- A rule of the grammar. -/
abbrev Rule (α : Type) := ReaderT Env (StateT Input Option) α

namespace Rule

/-- What answers a goal. -/
def goal (g : Goal) : Rule Node := do
  (← read).solve g

/-- The dialect of the script. -/
def dialect : Rule Dialect := do
  return (← read).dialect

/-- Whether the dialect has type annotations. -/
def typed : Rule Bool := do
  return (← read).dialect.hasTypes

/-- Succeeds if a condition holds. -/
def check (condition : Bool) : Rule Unit :=
  if condition then pure () else failure

/-- The value of a rule, or `none` where it fails. -/
def opt {α : Type} (rule : Rule α) : Rule (Option α) :=
  some <$> rule <|> pure none

/-- The nodes of a rule, or none where it fails. -/
def optList (rule : Rule Node) : Rule (List Node) := do
  return (← opt rule).toList

/-- Whether a rule would succeed; nothing is read. -/
def looksAt {α : Type} (rule : Rule α) : Rule Bool := fun env input =>
  match rule env input with
  | some _ => some (true, input)
  | none => some (false, input)

/-- Succeeds where a rule fails; nothing is read. -/
def absent {α : Type} (rule : Rule α) : Rule Unit := do
  check !(← looksAt rule)

/-- Repeats a rule as long as it reads something; `fuel` bounds the number of times. -/
def manyWith {α : Type} (rule : Rule α) : Nat → Rule (List α)
  | 0 => pure []
  | fuel + 1 => fun env input =>
      match rule env input with
      | none => some ([], input)
      | some (value, next) =>
          if next.rest.length < input.rest.length then
            (manyWith rule fuel env next).map fun (values, last) => (value :: values, last)
          else some ([value], next)

/-- Repeats a rule as long as it reads something. -/
def many {α : Type} (rule : Rule α) : Rule (List α) := do
  manyWith rule ((← get).rest.length + 1)

/-- Applies a step to a value again and again, as long as it reads something; `fuel` bounds the
number of times. -/
def iterateWith {α : Type} (step : α → Rule α) : Nat → α → Rule α
  | 0, value => pure value
  | fuel + 1, value => fun env input =>
      match step value env input with
      | none => some (value, input)
      | some (value, next) =>
          if next.rest.length < input.rest.length then iterateWith step fuel value env next
          else some (value, next)

/-- Applies a step to a value again and again, as long as it reads something. -/
def iterate {α : Type} (step : α → Rule α) (value : α) : Rule α := do
  iterateWith step ((← get).rest.length + 1) value

/-- Moves to the next token. -/
def skip : Rule Unit :=
  modify Input.skipTrivia

/-- The characters from the next token on. -/
def ahead : Rule (List Char) := do
  return (← get).skipTrivia.rest

/-- Whether a line ends before the next token. -/
def newlineAhead : Rule Bool := do
  let gap := (gapBefore (← get).rest).1
  return gap.hasNewline || gap.hasLineComment

/-- Reads a number of characters as a leaf. -/
def leaf (kind : Kind) (count : Nat) : Rule Node := do
  let input ← get
  let next := input.drop count
  set next
  return { kind, start := input.position, stop := next.position }

end Rule

/-- The operators and brackets, the longer ones before those that they start with. -/
def operators : List (List Char) :=
  [">>>=", "...", "===", "!==", "**=", "<<=", ">>=", ">>>", "&&=", "||=", "??=", "=>", "==", "!=",
    "<=", ">=", "&&", "||", "??", "?.", "++", "--", "+=", "-=", "*=", "/=", "%=", "&=", "|=", "^=",
    "<<", ">>", "**", "\x7b", "\x7d", "(", ")", "[", "]", ";", ",", "<", ">", "+", "-", "*", "/",
    "%", "&", "|", "^", "!", "~", "?", ":", "=", ".", "@", "#"].map String.toList

/-- The longest operator at the front.  A question mark, a point and a digit are no optional
chain. -/
def operatorAt (cs : List Char) : List Char :=
  match operators.find? fun operator => operator.isPrefixOf cs with
  | none => []
  | some operator =>
      if operator == ['?', '.'] && ((cs.drop 2).head?.any fun c => '0' ≤ c && c ≤ '9') then ['?']
      else operator

/-- The name at the front, empty if there is none. -/
def wordAt (cs : List Char) : List Char :=
  match cs with
  | c :: rest => if isNameStart c then c :: rest.takeWhile isNamePart else []
  | [] => []

/-- The words that are no names of variables. -/
def reservedWords : List (List Char) :=
  ["break", "case", "catch", "class", "const", "continue", "debugger", "default", "delete", "do",
    "else", "export", "extends", "finally", "for", "function", "if", "import", "in", "instanceof",
    "new", "return", "super", "switch", "this", "throw", "try", "typeof", "var", "void", "while",
    "with", "null", "true", "false", "enum"].map String.toList

namespace Rule

/-- A given operator or bracket. -/
def punct (text : String) : Rule Node := do
  let cs ← ahead
  check (operatorAt cs == text.toList)
  skip
  leaf .token text.length

/-- The front part of an operator, as with an angle bracket that ends a list of types. -/
def glyph (c : Char) : Rule Node := do
  let cs ← ahead
  check (cs.head? == some c)
  skip
  leaf .token 1

/-- Whether a given operator or bracket comes next. -/
def nextIs (text : String) : Rule Bool := do
  return operatorAt (← ahead) == text.toList

/-- The operator that comes next. -/
def nextOperator : Rule String := do
  return String.ofList (operatorAt (← ahead))

/-- The word that comes next, empty if there is none. -/
def nextWord : Rule String := do
  return String.ofList (wordAt (← ahead))

/-- A given word, as a leaf of a kind. -/
def wordAs (kind : Kind) (text : String) : Rule Node := do
  let cs ← ahead
  check (wordAt cs == text.toList)
  skip
  leaf kind text.length

/-- A given keyword. -/
def keyword (text : String) : Rule Node :=
  wordAs .token text

/-- Any word, as a leaf of a kind. -/
def anyWord (kind : Kind) : Rule Node := do
  let word := wordAt (← ahead)
  check !word.isEmpty
  skip
  leaf kind word.length

/-- A name that is not reserved, as a leaf of a kind. -/
def nameAs (kind : Kind) : Rule Node := do
  let word := wordAt (← ahead)
  check (!word.isEmpty && !reservedWords.contains word)
  skip
  leaf kind word.length

/-- The name of a variable. -/
def identifier : Rule Node :=
  nameAs .identifier

/-- The name of a variable where `undefined` is a value of its own. -/
def variableName : Rule Node := do
  if (← nextWord) == "undefined" then wordAs .undefined "undefined" else identifier

/-- One of several keywords. -/
def oneOf (texts : List String) : Rule Node := do
  let word ← nextWord
  check (texts.contains word)
  keyword word

/-- The end of a statement: a semicolon, or a place that needs none.  `operand` says that the
statement so far ends in a complete expression. -/
def semicolon (operand : Bool) : Rule (List Node) := do
  if ← nextIs ";" then return [← punct ";"]
  check (endsStatement (← dialect) operand (← get).rest)
  return []

/-- Items separated by commas, where items may be missing; the commas are among the result. -/
def commaSeparated (item : Rule Node) : Rule (List Node) := do
  let first ← optList item
  let more ← many do
    let comma ← punct ","
    return comma :: (← optList item)
  return first ++ more.flatten

/-- One or more items separated by commas. -/
def commaSeparated1 (item : Rule Node) : Rule (List Node) := do
  let first ← item
  let more ← many do return [← punct ",", ← item]
  return first :: more.flatten

end Rule

/-- What follows the given quote, with the number of characters up to and with it.  A backslash
takes the meaning from the character after it. -/
def quotedLength (quote : Char) : List Char → Option Nat
  | [] => none
  | '\\' :: _ :: rest => (quotedLength quote rest).map (· + 2)
  | c :: rest => if c == quote then some 1 else (quotedLength quote rest).map (· + 1)

/-- The length of a regular expression after its opening slash, up to and with its closing one.
Slashes inside a class do not count. -/
def regexLength (inClass : Bool) : List Char → Option Nat
  | [] => none
  | '\\' :: _ :: rest => (regexLength inClass rest).map (· + 2)
  | c :: rest =>
      if isLineEnd c then none
      else if c == '/' && !inClass then some 1
      else
        let inClass := if c == '[' then true else if c == ']' then false else inClass
        (regexLength inClass rest).map (· + 1)

/-- The length of a number at the front.  Letters, digits and underscores belong to it, one point
unless `point` says that there was one or may be none, and a sign after the mark of a decimal
exponent. -/
def numberLength (decimal : Bool) (point : Bool) : List Char → Nat
  | [] => 0
  | 'e' :: '+' :: rest => if decimal then numberLength decimal true rest + 2 else 1
  | 'e' :: '-' :: rest => if decimal then numberLength decimal true rest + 2 else 1
  | 'E' :: '+' :: rest => if decimal then numberLength decimal true rest + 2 else 1
  | 'E' :: '-' :: rest => if decimal then numberLength decimal true rest + 2 else 1
  | c :: rest =>
      if c == '.' then if point then 0 else numberLength decimal true rest + 1
      else if c.isAlphanum || c == '_' then numberLength decimal point rest + 1
      else 0

/-- The length of the characters of a template before a backquote, a backslash or a
substitution. -/
def templateLength : List Char → Nat
  | [] => 0
  | '$' :: '{' :: _ => 0
  | c :: rest => if c == '\\' || c.toNat == 96 then 0 else templateLength rest + 1

/-- The length of an escape, its backslash included. -/
def escapeLength (cs : List Char) : Nat :=
  let digits (limit : Nat) (isDigit : Char → Bool) (cs : List Char) : Nat :=
    ((cs.take limit).takeWhile isDigit).length
  let isHex (c : Char) : Bool := c.isDigit || ('a' ≤ c && c ≤ 'f') || ('A' ≤ c && c ≤ 'F')
  match cs.drop 1 with
  | 'x' :: rest => 2 + digits 2 isHex rest
  | 'u' :: '{' :: rest => 4 + digits rest.length isHex rest
  | 'u' :: rest => 2 + digits 4 isHex rest
  | '\r' :: '\n' :: _ => 3
  | c :: rest =>
      if '0' ≤ c && c ≤ '7' then 1 + digits 3 (fun c => '0' ≤ c && c ≤ '7') (c :: rest) else 2
  | [] => 1

namespace Rule

/-- A string in either kind of quotes. -/
def string : Rule Node := do
  match ← ahead with
  | '"' :: rest =>
      match quotedLength '"' rest with
      | some length => do skip; leaf .string (length + 1)
      | none => failure
  | '\'' :: rest =>
      match quotedLength '\'' rest with
      | some length => do skip; leaf .string (length + 1)
      | none => failure
  | _ => failure

/-- A number. -/
def number : Rule Node := do
  let cs ← ahead
  let digit (c : Char) : Bool := '0' ≤ c && c ≤ '9'
  check (match cs with
    | '.' :: c :: _ => digit c
    | c :: _ => digit c
    | [] => false)
  let decimal := !(match cs with
    | '0' :: c :: _ => c.isAlpha && c != 'e' && c != 'E'
    | _ => false)
  skip
  leaf .number (numberLength decimal (!decimal) cs)

/-- A regular expression with its flags. -/
def regex : Rule Node := do
  match ← ahead with
  | '/' :: rest =>
      match regexLength false rest with
      | some length => do
          skip
          leaf .regex (length + 1 + ((rest.drop length).takeWhile isNamePart).length)
      | none => failure
  | _ => failure

/-- A private name. -/
def privateName : Rule Node := do
  match ← ahead with
  | '#' :: rest =>
      let word := wordAt rest
      check !word.isEmpty
      skip
      leaf .privateName (word.length + 1)
  | _ => failure

/-- A piece of a template between its backquotes; `inside` reads what a substitution holds. -/
def templatePiece (inside : Rule Node) : Rule Node := do
  let cs := (← get).rest
  match cs with
  | '$' :: '{' :: _ => do
      let opening ← leaf .token 2
      let value ← inside
      let closing ← glyph '}'
      return .branch .substitution [opening, value, closing]
  | '\\' :: _ => leaf .escape (escapeLength cs)
  | _ => do
      let length := templateLength cs
      check (length != 0)
      leaf .fragment length

/-- A template; `inside` reads what a substitution holds. -/
def templateOf (inside : Rule Node) : Rule Node := do
  let opening ← glyph (Char.ofNat 96)
  let pieces ← many (templatePiece inside)
  check ((← get).rest.head? == some (Char.ofNat 96))
  let closing ← leaf .token 1
  return .branch .template (opening :: pieces ++ [closing])

end Rule
end Script
end NgIndex
