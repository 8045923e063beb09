import NgIndex.Script.Rule

/-!
# Names, patterns and parameters

The rules for what is bound: names of properties, destructuring patterns, parameters of functions
and their decorators.  In a typed dialect each parameter is a node that holds its pattern; in the
untyped one the pattern itself is the parameter.
-/

namespace NgIndex
namespace Script
namespace Rule

/-- The name of a property: a word, a string, a number, a private name, or an expression in
brackets. -/
def propertyName : Rule Node := do
  match ← ahead with
  | '[' :: _ => do
      return .branch .computedName [← punct "[", ← goal .single, ← punct "]"]
  | '#' :: _ => privateName
  | '"' :: _ => string
  | '\'' :: _ => string
  | c :: _ =>
      if isNameStart c then anyWord .propertyName else number
  | [] => failure

/-- A type after a colon. -/
def typeClause : Rule Node := do
  check (← typed)
  return .branch .typeClause [← punct ":", ← goal .type]

/-- The name of a parameter inside a predicate. -/
def predicateSubject : Rule Node := do
  if (← nextWord) == "this" then wordAs .this "this" else identifier

/-- The part of a predicate after its subject. -/
def predicateTarget : Rule (List Node) := do
  check !(← newlineAhead)
  return [← keyword "is", ← goal .type]

/-- What a predicate says: that a parameter has a type, or that it holds. -/
def predicate : Rule Node := do
  let asserted : Rule Node := do
    let word ← keyword "asserts"
    check !(← newlineAhead)
    let subject ← predicateSubject
    let target ← opt predicateTarget
    return .branch .type (word :: subject :: target.getD [])
  let tested : Rule Node := do
    let subject ← predicateSubject
    return .branch .type (subject :: (← predicateTarget))
  asserted <|> tested

/-- The type of a result after a colon. -/
def returnClause : Rule Node := do
  check (← typed)
  let colon ← punct ":"
  let type ← predicate <|> goal .type
  return (Node.branch .typeClause [colon, type]).as .returnType

/-- Types in angle brackets. -/
def typeArguments : Rule Node := do
  check (← typed)
  let opening ← glyph '<'
  let types ← commaSeparated1 (goal .type)
  let comma ← optList (punct ",")
  return .branch .typeArguments (opening :: types ++ comma ++ [← glyph '>'])

/-- A parameter of a generic declaration. -/
def typeParameter : Rule Node := do
  let modifiers ← many do
    let word ← oneOf ["const", "in", "out"]
    check (isNameStart ((← ahead).headD ' '))
    return word
  let name ← anyWord .identifier
  let bound ← opt do return [← keyword "extends", ← goal .type]
  let fallback ← opt do return [← punct "=", ← goal .type]
  return .branch .type (modifiers ++ name :: bound.getD [] ++ fallback.getD [])

/-- The parameters of a generic declaration. -/
def typeParameters : Rule Node := do
  check (← typed)
  let opening ← glyph '<'
  let parameters ← commaSeparated1 typeParameter
  let comma ← optList (punct ",")
  return .branch .typeParameters (opening :: parameters ++ comma ++ [← glyph '>'])

/-- A value after an equals sign. -/
def initializer : Rule (List Node) := do
  return [← punct "=", (← goal .single).as .value]

/-- Three points and an expression. -/
def spread : Rule Node := do
  return .branch .spread [← punct "...", ← goal .single]

/-- The arguments of a call. -/
def arguments : Rule Node := do
  let opening ← punct "("
  let values ← commaSeparated (spread <|> goal .single)
  return .branch .arguments (opening :: values ++ [← punct ")"])

/-- An access to a property with a point. -/
def plainMember (object : Node) : Rule Node := do
  let point ← punct "."
  let name ← privateName <|> anyWord .propertyName
  return .branch .member [object.as .object, point, name.as .property]

/-- A decorator: a name or a call after an at sign. -/
def decorator : Rule Node := do
  let sign ← punct "@"
  let parenthesized : Rule Node := do
    return .branch .parenthesized [← punct "(", ← goal .expression, ← punct ")"]
  let named : Rule Node := do
    let callee ← iterate plainMember (← identifier)
    let call : Rule Node := do
      let types ← optList typeArguments
      let arguments ← arguments
      return .branch .call (callee.as .function :: types ++ [arguments.as .arguments])
    call <|> pure callee
  return .branch .decorator [sign, ← parenthesized <|> named]

/-- A pattern with a default. -/
def patternWithDefault (pattern : Node) : Rule Node := do
  let sign ← punct "="
  let value ← goal .single
  return .branch .defaultPattern [pattern.as .left, sign, value.as .right]

/-- A pattern, with a default if there is one. -/
def defaultablePattern : Rule Node := do
  let pattern ← goal .pattern
  patternWithDefault pattern <|> pure pattern

/-- A part of an object pattern. -/
def patternProperty : Rule Node := do
  let pair : Rule Node := do
    let key ← propertyName
    let colon ← punct ":"
    let value ← defaultablePattern
    return .branch .pairPattern [key.as .key, colon, value.as .value]
  let shorthand : Rule Node := do
    let name ← anyWord .shorthandPattern
    patternWithDefault name <|> pure name
  if ← nextIs "..." then goal .pattern else pair <|> shorthand

/-- A name, a destructuring pattern, or the rest after three points. -/
def pattern : Rule Node := do
  match ← nextOperator with
  | "\x7b" => do
      let opening ← punct "\x7b"
      let parts ← commaSeparated patternProperty
      return .branch .objectPattern (opening :: parts ++ [← punct "\x7d"])
  | "[" => do
      let opening ← punct "["
      let parts ← commaSeparated defaultablePattern
      return .branch .arrayPattern (opening :: parts ++ [← punct "]"])
  | "..." => return .branch .restPattern [← punct "...", ← goal .pattern]
  | _ => variableName

/-- A modifier of a parameter, if what it modifies follows. -/
def parameterModifier : Rule Node := do
  let word ← nextWord
  let modifier ←
    match word with
    | "public" => wordAs .accessibility word
    | "private" => wordAs .accessibility word
    | "protected" => wordAs .accessibility word
    | "override" => wordAs .override word
    | "readonly" => keyword word
    | _ => failure
  check (match (← ahead) with
    | c :: _ => isNameStart c || c == '{' || c == '[' || c == '.'
    | [] => false)
  return modifier

/-- A parameter in a typed dialect. -/
def typedParameter : Rule Node := do
  let decorators ← many decorator
  let modifiers ← many parameterModifier
  let pattern ← if (← nextWord) == "this" then wordAs .this "this" else goal .pattern
  let mark ← optList (punct "?")
  let type ← optList typeClause
  let value ← opt initializer
  let kind := if mark.isEmpty then Kind.requiredParameter else .optionalParameter
  return .branch kind (decorators ++ modifiers ++ pattern.as .pattern :: mark ++
    type.map (·.as .type) ++ value.getD [])

/-- The parameters of a function. -/
def formalParameters : Rule Node := do
  let opening ← punct "("
  let parameter := if ← typed then typedParameter else defaultablePattern
  let parameters ← commaSeparated parameter
  return (Node.branch .parameters (opening :: parameters ++ [← punct ")"])).as .parameters

/-- The parameters of a function with what is said about types. -/
def callSignature : Rule (List Node) := do
  let types ← optList typeParameters
  let parameters ← formalParameters
  let result ← optList returnClause
  return types ++ parameters :: result

end Rule
end Script
end NgIndex
