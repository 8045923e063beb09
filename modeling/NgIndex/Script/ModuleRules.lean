import NgIndex.Script.ExpressionRules

/-!
# Imports and lists of exports

The rules for what a module takes from others and for lists of what it gives away.  Exported
declarations are among the statements.
-/

namespace NgIndex
namespace Script
namespace Rule

/-- The text that names another module. -/
def source : Rule Node := do
  return (← string).as .source

/-- The module that something comes from. -/
def fromClause : Rule (List Node) := do
  return [← keyword "from", ← source]

/-- What is said about how a module is loaded. -/
def importAttributes : Rule Node := do
  let word ← oneOf ["with", "assert"]
  return .branch .attributes [word, ← objectLiteral]

/-- A name that a module gives away: any word, or a string. -/
def exportedName : Rule Node := do
  string <|> anyWord .identifier

/-- The word that marks a type, if a name follows it. -/
def typeMark : Rule Node := do
  check (← typed)
  let word ← oneOf ["type", "typeof"]
  let next ← nextWord
  check (next != "as" && next != "from")
  check (!next.isEmpty || (← looksAt string) || (← nextIs "\x7b") || (← nextIs "*"))
  return word

/-- A name in a list, with the name it goes by on the other side. -/
def specifier (kind : Kind) : Rule Node := do
  let mark ← optList typeMark
  let name ← exportedName
  let other ← opt do return [← keyword "as", (← exportedName).as .newName]
  return .branch kind (mark ++ name.as .name :: other.getD [])

/-- Names taken from a module. -/
def namedImports : Rule Node := do
  let opening ← punct "\x7b"
  let specifiers ← commaSeparated (specifier .importSpecifier)
  return .branch .namedImports (opening :: specifiers ++ [← punct "\x7d"])

/-- A module as a whole under a name. -/
def namespaceImport : Rule Node := do
  return .branch .namespaceImport [← punct "*", ← keyword "as", ← identifier]

/-- What is taken from a module. -/
def importClause : Rule Node := do
  let several := namespaceImport <|> namedImports
  let named : Rule (List Node) := do
    let name ← identifier
    let more ← opt do return [← punct ",", ← several]
    return name :: more.getD []
  return .branch .importClause (← (do return [← several]) <|> named)

/-- A module that is loaded by a call under a name. -/
def importRequire : Rule Node := do
  check (← typed)
  let name ← identifier
  let front := [← punct "=", ← keyword "require", ← punct "("]
  return .branch .importRequire (name :: front ++ [← source, ← punct ")"])

/-- Names with points between them. -/
def qualifiedName : Rule Node := do
  iterate plainMember (← identifier)

/-- Another name for something inside a namespace. -/
def importAlias : Rule Node := do
  check (← typed)
  let front := [← keyword "import", ← identifier, ← punct "="]
  let name ← qualifiedName
  return .branch .importAlias (front ++ name :: (← semicolon false))

/-- An import. -/
def importStatement : Rule Node := do
  let word ← keyword "import"
  let taken : Rule (List Node) := do
    return (← importClause) :: (← fromClause)
  let loaded : Rule (List Node) := do
    return [← importRequire]
  let bare : Rule (List Node) := do
    return [← source]
  let content := taken <|> loaded <|> bare
  let marked : Rule (List Node) := do
    return (← typeMark) :: (← content)
  let content ← marked <|> content
  let attributes ← optList importAttributes
  return .branch .importStatement (word :: content ++ attributes ++ (← semicolon false))

/-- Names that a module gives away. -/
def exportClause : Rule Node := do
  let opening ← punct "\x7b"
  let specifiers ← commaSeparated (specifier .exportSpecifier)
  return .branch .exportClause (opening :: specifiers ++ [← punct "\x7d"])

/-- The part of an export that passes on names, up to its end. -/
def exportList : Rule (List Node) := do
  let mark ← optList typeMark
  let everything : Rule (List Node) := do
    return (← punct "*") :: (← fromClause)
  let whole : Rule (List Node) := do
    let name := Node.branch .namespaceExport [← punct "*", ← keyword "as", ← exportedName]
    return name :: (← fromClause)
  let listed : Rule (List Node) := do
    let clause ← exportClause
    return clause :: (← opt fromClause).getD []
  let content ← everything <|> whole <|> listed
  let attributes ← optList importAttributes
  return mark ++ content ++ attributes ++ (← semicolon false)

end Rule
end Script
end NgIndex
