import NgIndex.Entity.Component
import NgIndex.Json.Reader
import NgIndex.PathFilter
import NgIndex.Regex.Reader

/-!
# Project configuration

The settings of a project and their file form, a JSON record.  A record is written as an object or
as an array of its fields in order; fields that are left out take their defaults.  Members with
other names are passed over, but a known name may occur only once.  A file that cannot be read in
this way stands for the default settings.
-/

namespace NgIndex

/-- The settings of a project. -/
structure Config where
  componentGlobs : List String
  controllerGlobs : List String
  directiveGlobs : List String
  routeGlobs : List String
  htmlGlobs : List String
  exclude : List String
  publicMembersOnly : Bool
  excludedMembers : Option String
  definitions : DefinitionParts
  deriving DecidableEq, Repr

namespace Config

/-- The name of the file that holds the settings, at the project root. -/
def fileName : String := "ajsconfig.json"

/-- The script files looked at by default. -/
def scriptGlobs : List String := ["**/*.ts", "**/*.js"]

/-- The markup files looked at by default. -/
def markupGlobs : List String := ["**/*.html"]

/-- What is left out by default: installed and built files and hidden ones. -/
def defaultExclude : List String :=
  ["**/node_modules", "**/node_modules/**", "**/dist", "**/dist/**", "**/build", "**/build/**",
    "**/.*", "**/.*/**"]

/-- The default settings. -/
def default : Config where
  componentGlobs := scriptGlobs
  controllerGlobs := scriptGlobs
  directiveGlobs := scriptGlobs
  routeGlobs := scriptGlobs
  htmlGlobs := markupGlobs
  exclude := defaultExclude
  publicMembersOnly := false
  excludedMembers := none
  definitions := {}

/-- The values of the named fields of a record, in order, where `none` means left out. -/
def recordFields? (names : List String) : Json → Option (List (Option Json))
  | .object members =>
      let counts := names.map fun name => (members.filter fun member => member.1 == name).length
      if counts.any (· > 1) then none
      else
        some (names.map fun name =>
          (members.find? fun member => member.1 == name).map fun member => member.2)
  | .array items =>
      if items.length > names.length then none
      else some (items.map some ++ List.replicate (names.length - items.length) none)
  | _ => none

/-- The value of a field, or its default where it is left out. -/
def fieldOr {α : Type} (decode : Json → Option α) (fallback : α) (fields : List (Option Json))
    (index : Nat) : Option α :=
  match fields[index]? with
  | some (some json) => decode json
  | _ => some fallback

/-- A list of strings. -/
def strings? (json : Json) : Option (List String) := do
  let items ← json.items?
  items.mapM Json.string?

/-- A string or nothing. -/
def optionalString? : Json → Option (Option String)
  | .null => some none
  | .string text => some (some text)
  | _ => none

/-- The definition parts written in a record. -/
def definitionParts? (json : Json) : Option DefinitionParts := do
  let fields ← recordFields? ["component", "template", "controller"] json
  return {
    component := ← fieldOr Json.bool? true fields 0
    template := ← fieldOr Json.bool? true fields 1
    controller := ← fieldOr Json.bool? true fields 2 }

/-- The names of the settings in their file form, in order. -/
def fieldNames : List String :=
  ["componentGlobs", "controllerGlobs", "directiveGlobs", "routeGlobs", "htmlGlobs", "exclude",
    "publicMembersOnly", "excludedMembers", "definitions"]

/-- The settings written in a record. -/
def ofJson? (json : Json) : Option Config := do
  let fields ← recordFields? fieldNames json
  return {
    componentGlobs := ← fieldOr strings? scriptGlobs fields 0
    controllerGlobs := ← fieldOr strings? scriptGlobs fields 1
    directiveGlobs := ← fieldOr strings? scriptGlobs fields 2
    routeGlobs := ← fieldOr strings? scriptGlobs fields 3
    htmlGlobs := ← fieldOr strings? markupGlobs fields 4
    exclude := ← fieldOr strings? defaultExclude fields 5
    publicMembersOnly := ← fieldOr Json.bool? false fields 6
    excludedMembers := ← fieldOr optionalString? none fields 7
    definitions := ← fieldOr definitionParts? {} fields 8 }

/-- The settings written in a file, or the default ones if it cannot be read. -/
def ofText (text : String) : Config :=
  ((Json.read? text).bind ofJson?).getD default

/-- The settings in a file given by its bytes.  Bytes that are no text stand for the default. -/
def ofBytes (bytes : ByteArray) : Config :=
  match String.fromUTF8? bytes with
  | some text => ofText text
  | none => default

/-- The filter for one kind of file. -/
def filterOf (config : Config) (globs : List String) : Except PatternError PathFilter :=
  PathFilter.ofPatterns globs config.exclude

/-- The members that are shown.  An expression that cannot be read hides nothing. -/
def memberFilter (config : Config) : MemberFilter :=
  ⟨config.publicMembersOnly, config.excludedMembers.bind Regex.parse?⟩

end Config
end NgIndex
