import NgIndex.Script.ParameterRules

/-!
# Expressions

The rules for expressions, from literals up to lists separated by commas.  An expression in
parentheses may turn out to be the parameters of an arrow function; it is read as an expression
first and read again as parameters if an arrow follows.
-/

namespace NgIndex
namespace Script
namespace Rule

/-- A block of statements as the body of a function. -/
def functionBody : Rule Node := do
  return (← goal .block).as .body

/-- An expression in parentheses. -/
def parenthesized : Rule Node := do
  let opening ← punct "("
  let inside ← goal .expression
  let type ← optList typeClause
  return .branch .parenthesized (opening :: inside :: type ++ [← punct ")"])

/-- A list in brackets. -/
def arrayLiteral : Rule Node := do
  let opening ← punct "["
  let values ← commaSeparated (spread <|> goal .single)
  return .branch .array (opening :: values ++ [← punct "]"])

/-- Whether the name of a property may start with a character. -/
def startsPropertyName (cs : List Char) : Bool :=
  match cs with
  | c :: _ => isNameStart c || ['[', '"', '#'].contains c || c.toNat == 39 || c.isDigit
  | [] => false

/-- A word that says what kind of method follows, if a name or a star follows on the same line. -/
def methodWord : Rule Node := do
  let word ← oneOf ["async", "get", "set"]
  check !(← newlineAhead)
  let cs ← ahead
  check (startsPropertyName cs || cs.head? == some '*')
  return word

/-- The words and the star before the name of a method. -/
def methodWords : Rule (List Node) := do
  let words ← many methodWord
  return words ++ (← optList (punct "*"))

/-- A method of an object. -/
def objectMethod : Rule Node := do
  let words ← methodWords
  let name ← propertyName
  let signature ← callSignature
  let body ← functionBody
  return .branch .method (words ++ name.as .name :: signature ++ [body])

/-- A part of an object. -/
def objectProperty : Rule Node := do
  let pair : Rule Node := do
    let key ← propertyName
    let colon ← punct ":"
    return .branch .pair [key.as .key, colon, (← goal .single).as .value]
  let shorthand : Rule Node := do
    let name ← anyWord .shorthand
    patternWithDefault (name.withKind .shorthandPattern) <|> pure name
  if ← nextIs "..." then spread else pair <|> objectMethod <|> shorthand

/-- An object. -/
def objectLiteral : Rule Node := do
  let opening ← punct "\x7b"
  let parts ← commaSeparated objectProperty
  return .branch .object (opening :: parts ++ [← punct "\x7d"])

/-- A template. -/
def template : Rule Node :=
  templateOf (goal .expression)

/-- A function as an expression. -/
def functionExpression : Rule Node := do
  let async ← optList do
    let word ← keyword "async"
    check !(← newlineAhead)
    return word
  let word ← keyword "function"
  let star ← optList (punct "*")
  let name ← optList identifier
  let signature ← callSignature
  let body ← functionBody
  let kind := if star.isEmpty then Kind.functionExpression else .generatorExpression
  return .branch kind (async ++ word :: star ++ name.map (·.as .name) ++ signature ++ [body])

/-- What a class is based on.  In a typed dialect the clauses are nodes of their own. -/
def heritage : Rule Node := do
  if !(← typed) then
    return .branch .heritage [← keyword "extends", ← goal .unary]
  let base : Rule (List Node) := do
    let value ← goal .unary
    match value.kind, value.children with
    | .instantiation, [value, types] => return [value.as .value, types]
    | _, _ => return value.as .value :: (← optList typeArguments)
  let extending : Rule Node := do
    let word ← keyword "extends"
    let first ← base
    let more ← many do return (← punct ",") :: (← base)
    return .branch .extendsClause (word :: first ++ more.flatten)
  let implementing : Rule Node := do
    let word ← keyword "implements"
    return .branch .implementsClause (word :: (← commaSeparated1 (goal .type)))
  let clauses ← (do return (← extending) :: (← optList implementing)) <|>
    (do return [← implementing])
  return .branch .heritage clauses

/-- The parts of a class after its name. -/
def classTail : Rule (List Node) := do
  let types ← optList typeParameters
  let heritage ← optList heritage
  return types ++ heritage ++ [(← goal .classBody).as .body]

/-- A class as an expression. -/
def classExpression : Rule Node := do
  let decorators ← many decorator
  let word ← keyword "class"
  let name ← optList do
    check ((← nextWord) != "implements")
    identifier
  return .branch .classExpression (decorators ++ word :: name.map (·.as .name) ++ (← classTail))

/-- What a constructor call names. -/
def constructed (nested : Rule Node) (primary : Rule Node) : Rule Node := do
  let indexed (object : Node) : Rule Node := do
    let opening ← punct "["
    return .branch .subscript [object.as .object, opening, ← goal .expression, ← punct "]"]
  let asserted (object : Node) : Rule Node := do
    check (← typed)
    return .branch .nonNull [object, ← punct "!"]
  let base ← nested <|> primary
  iterate (fun object => plainMember object <|> indexed object <|> asserted object) base

/-- A constructor call with the given rule for what it may name; `fuel` bounds how often `new` is
repeated. -/
def newExpression (primary : Rule Node) : Nat → Rule Node
  | 0 => failure
  | fuel + 1 => do
      let word ← keyword "new"
      let property : Rule Node := do
        return .branch .metaProperty [word, ← punct ".", ← keyword "target"]
      let call : Rule Node := do
        let target ← constructed (newExpression primary fuel) primary
        let types ← optList do
          let types ← typeArguments
          check (← nextIs "(")
          return types
        let arguments ← optList arguments
        return .branch .construct (word :: target.as .constructor :: types ++
          arguments.map (·.as .arguments))
      property <|> call

/-- The word for the import of a module as a value. -/
def importExpression : Rule Node := do
  let word ← wordAs .importWord "import"
  let property : Rule Node := do
    return .branch .metaProperty [word, ← punct ".", ← keyword "meta"]
  let call : Rule Node := do
    check (← nextIs "(")
    return word
  property <|> call

/-- An expression that stands for itself. -/
def plainPrimary : Rule Node := do
  match ← ahead with
  | '(' :: _ => parenthesized
  | '[' :: _ => arrayLiteral
  | '{' :: _ => objectLiteral
  | '"' :: _ => string
  | '\'' :: _ => string
  | '/' :: _ => regex
  | '#' :: _ => privateName
  | '@' :: _ => classExpression
  | '<' :: _ => do
      check (← dialect).hasMarkup
      goal .markup
  | c :: _ =>
      if c.toNat == 96 then template
      else if c.isDigit || c == '.' then number
      else
        match ← nextWord with
        | "function" => functionExpression
        | "class" => classExpression
        | "import" => importExpression
        | "this" => wordAs .this "this"
        | "super" => wordAs .super "super"
        | "null" => wordAs .literal "null"
        | "true" => wordAs .literal "true"
        | "false" => wordAs .literal "false"
        | "async" => functionExpression <|> identifier
        | _ => variableName
  | [] => failure

/-- An expression that stands for itself, or a constructor call. -/
def primary : Rule Node := do
  if (← nextWord) == "new" then newExpression plainPrimary ((← get).rest.length + 1)
  else plainPrimary

/-- Whether the characters may follow types in angle brackets that are not applied to arguments. -/
def endsInstantiation (cs : List Char) : Bool :=
  match cs with
  | [] => true
  | c :: _ => [';', ',', ')', ']', '}', ':'].contains c

/-- A call or a template with types in angle brackets, or the types alone. -/
def typedApplication (callee : Node) : Rule Node := do
  let types ← typeArguments
  let call : Rule Node := do
    return .branch .call [callee.as .function, types, (← arguments).as .arguments]
  let tagged : Rule Node := do
    return .branch .call [callee.as .function, types, (← template).as .arguments]
  let bare : Rule Node := do
    check (endsInstantiation (← ahead) || (← newlineAhead))
    return .branch .instantiation [callee, types]
  call <|> tagged <|> bare

/-- An access or call after the mark of an optional chain. -/
def chained (object : Node) : Rule Node := do
  let mark ← punct "?."
  let mark := mark.withKind .optionalChain
  let call : Rule Node := do
    let types ← optList typeArguments
    return .branch .call (object.as .function :: mark :: types ++ [(← arguments).as .arguments])
  let index : Rule Node := do
    let opening ← punct "["
    return .branch .subscript [object.as .object, mark, opening, ← goal .expression, ← punct "]"]
  let access : Rule Node := do
    let name ← privateName <|> anyWord .propertyName
    return .branch .member [object.as .object, mark, name.as .property]
  call <|> index <|> access

/-- What may follow an expression that can be accessed or called. -/
def suffix (object : Node) : Rule Node := do
  match ← nextOperator with
  | "." => plainMember object
  | "?." => chained object
  | "[" => do
      let opening ← punct "["
      return .branch .subscript [object.as .object, opening, ← goal .expression, ← punct "]"]
  | "(" => return .branch .call [object.as .function, (← arguments).as .arguments]
  | "!" => do
      check (← typed)
      check !(← newlineAhead)
      return .branch .nonNull [object, ← punct "!"]
  | "<" => typedApplication object
  | "<<" => typedApplication object
  | _ => do
      check ((← ahead).head? == some (Char.ofNat 96))
      return .branch .call [object.as .function, (← template).as .arguments]

/-- An expression with all accesses and calls that follow it. -/
def access : Rule Node := do
  iterate suffix (← primary)

/-- An expression with a step up or down after it. -/
def postfixed : Rule Node := do
  let operand ← access
  let stepped : Rule Node := do
    check !(← newlineAhead)
    return .branch .operation [operand, ← punct "++" <|> punct "--"]
  stepped <|> pure operand

/-- An operator before an operand. -/
def prefixed (operator : Rule Node) : Rule Node := do
  return .branch .operation [← operator, ← goal .unary]

/-- A type in angle brackets before an expression. -/
def typeAssertion : Rule Node := do
  check !(← dialect).hasMarkup
  return .branch .typeAssertion [← typeArguments, ← goal .unary]

/-- An expression with operators before it. -/
def unary : Rule Node := do
  let operator ← nextOperator
  if ["!", "~", "+", "-", "++", "--"].contains operator then prefixed (punct operator)
  else if operator == "<" then typeAssertion <|> postfixed
  else
    let word ← nextWord
    if ["typeof", "void", "delete"].contains word then prefixed (keyword word)
    else if word == "await" then prefixed (keyword word) <|> postfixed
    else postfixed

/-- The level of an operator between two operands; higher levels bind more strongly. -/
def operatorLevel (operator : String) : Option Nat :=
  match operator with
  | "??" => some 1
  | "||" => some 2
  | "&&" => some 3
  | "|" => some 4
  | "^" => some 5
  | "&" => some 6
  | "==" => some 7
  | "!=" => some 7
  | "===" => some 7
  | "!==" => some 7
  | "<" => some 8
  | ">" => some 8
  | "<=" => some 8
  | ">=" => some 8
  | "in" => some 8
  | "instanceof" => some 8
  | "<<" => some 9
  | ">>" => some 9
  | ">>>" => some 9
  | "+" => some 10
  | "-" => some 10
  | "*" => some 11
  | "/" => some 11
  | "%" => some 11
  | "**" => some 12
  | _ => none

/-- The type after `as` or `satisfies`. -/
def conversion (operand : Node) : Rule Node := do
  check (← typed)
  match ← nextWord with
  | "as" => do
      let word ← keyword "as"
      return .branch .asExpression [operand, word, ← keyword "const" <|> goal .type]
  | "satisfies" => do
      return .branch .satisfiesExpression [operand, ← keyword "satisfies", ← goal .type]
  | _ => failure

/-- One more operator and operand that bind at least as strongly as a level. -/
def binaryStep (level : Nat) (left : Node) : Rule Node := do
  let converted : Rule Node := do
    check (level ≤ 8)
    conversion left
  let combined : Rule Node := do
    let operator ← nextOperator
    let word ← nextWord
    let name := if operator.isEmpty then word else operator
    match operatorLevel name with
    | none => failure
    | some own => do
        check (level ≤ own)
        let sign ← if operator.isEmpty then keyword name else punct name
        let right ← goal (.binary (if name == "**" then own else own + 1))
        return .branch .operation [left, sign, right]
  converted <|> combined

/-- Operands and operators that bind at least as strongly as a level. -/
def binary (level : Nat) : Rule Node := do
  iterate (binaryStep level) (← goal .unary)

/-- A condition with its two results, or an expression without one. -/
def conditional : Rule Node := do
  let test ← goal (.binary 0)
  let choice : Rule Node := do
    let mark ← punct "?"
    let branches (positive : Rule Node) : Rule Node := do
      let positive ← positive
      let colon ← punct ":"
      return .branch .ternary [test, mark, positive, colon, ← goal .single]
    branches (goal .single) <|> branches (goal .consequent)
  choice <|> pure test

/-- A yield expression. -/
def yielded : Rule Node := do
  let word ← keyword "yield"
  let value ← opt do
    check !(← newlineAhead)
    let star ← optList (punct "*")
    return star ++ [← goal .single]
  return .branch .operation (word :: value.getD [])

/-- The body of an arrow function. -/
def arrowBody : Rule (List Node) := do
  let arrow ← punct "=>"
  let body ← if ← nextIs "\x7b" then goal .block else goal .single
  return [arrow, body.as .body]

/-- The word before an arrow function that waits. -/
def asyncWord : Rule Node := do
  let word ← keyword "async"
  check !(← newlineAhead)
  return word

/-- An arrow function with one name as its parameter. -/
def simpleArrow : Rule Node := do
  let named (async : List Node) : Rule Node := do
    let name ← identifier
    check (← nextIs "=>")
    return .branch .arrowFunction (async ++ name.as .parameter :: (← arrowBody))
  named [] <|> (do named [← asyncWord])

/-- An arrow function with parameters in parentheses. -/
def fullArrow : Rule Node := do
  let async ← optList asyncWord
  let signature ← callSignature
  return .branch .arrowFunction (async ++ signature ++ (← arrowBody))

/-- The operators that assign. -/
def compoundOperators : List String :=
  ["+=", "-=", "*=", "/=", "%=", "**=", "<<=", ">>=", ">>>=", "&=", "|=", "^=", "&&=", "||=", "??="]

/-- The left side of an assignment, as a pattern if it is an object or a list. -/
def assignable (node : Node) : Node :=
  match node.kind with
  | .object => node.withKind .objectPattern
  | .array => node.withKind .arrayPattern
  | _ => node

/-- An assignment, or an expression without one. -/
def assignmentOrValue : Rule Node := do
  let left ← conditional
  let operator ← nextOperator
  if operator == "=" then
    let sign ← punct "="
    return .branch .assignment [(assignable left).as .left, sign, (← goal .single).as .right]
  else if compoundOperators.contains operator then
    let sign ← punct operator
    return .branch .compoundAssignment [left.as .left, sign, (← goal .single).as .right]
  else return left

/-- A value that is not the front of an arrow function. -/
def valueBeforeNoArrow (alsoColon : Bool) : Rule Node := do
  let value ← assignmentOrValue
  let next ← nextOperator
  check (next != "=>")
  check !(alsoColon && next == ":")
  return value

/-- One expression.  `results` says whether arrow functions may have an annotated result. -/
def singleWith (results : Bool) : Rule Node := do
  let cs ← ahead
  let word ← nextWord
  if word == "yield" then yielded
  else if word == "async" then
    let early : Rule Node := do
      check results
      fullArrow
    simpleArrow <|> early <|> valueBeforeNoArrow false <|> fullArrow
  else if cs.head? == some '(' || cs.head? == some '<' then
    let typed ← typed
    valueBeforeNoArrow (typed && results) <|> fullArrow <|> valueBeforeNoArrow false
  else simpleArrow <|> assignmentOrValue

/-- One expression. -/
def single : Rule Node :=
  singleWith true

/-- One expression between a question mark and a colon. -/
def consequent : Rule Node :=
  singleWith false

/-- Expressions separated by commas. -/
def expression : Rule Node := do
  let first ← goal .single
  let more ← many do return [← punct ",", ← goal .single]
  return if more.isEmpty then first else .branch .sequence (first :: more.flatten)

end Rule
end Script
end NgIndex
