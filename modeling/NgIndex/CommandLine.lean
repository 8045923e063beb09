import NgIndex.Index.Report

/-!
# The command line

The command line names the root of a project, the kind of entities to print and whether to indent.
Arguments are read from left to right.  The first one that is not understood, or that asks for help
or for the version, decides.
-/

namespace NgIndex
namespace CommandLine

/-- What to print. -/
structure Request where
  root : Path := ⟨"."⟩
  kinds : List EntityKind := EntityKind.all
  pretty : Bool := false

/-- What the arguments ask for. -/
inductive Command where
  | print (request : Request)
  | help
  | version
  | invalid

/-- The arguments read so far. -/
structure Arguments where
  root : Option String := none
  kinds : Option (List EntityKind) := none
  pretty : Bool := false

/-- The request that all arguments together make. -/
def Arguments.request (arguments : Arguments) : Request :=
  { root := ⟨arguments.root.getD "."⟩
    kinds := arguments.kinds.getD EntityKind.all
    pretty := arguments.pretty }

/-- The kinds that a word selects. -/
def kindsOfName? (name : String) : Option (List EntityKind) :=
  if name == "all" then some EntityKind.all else (EntityKind.ofName? name).map fun kind => [kind]

/-- Sets the root, once. -/
def Arguments.setRoot? (arguments : Arguments) (text : String) : Option Arguments :=
  if arguments.root.isSome || text.isEmpty then none
  else some { arguments with root := some text }

/-- Sets the kinds, once. -/
def Arguments.setKinds? (arguments : Arguments) (name : String) : Option Arguments :=
  if arguments.kinds.isSome then none
  else (kindsOfName? name).map fun kinds => { arguments with kinds := some kinds }

/-- Asks for indentation, once. -/
def Arguments.setPretty? (arguments : Arguments) : Option Arguments :=
  if arguments.pretty then none else some { arguments with pretty := true }

/-- What a single argument is. -/
inductive Form where
  /-- A plain word. -/
  | word
  /-- The mark after which all arguments are plain words. -/
  | separator
  | help
  | version
  | pretty
  /-- The option for kinds, with its value unless the next argument is the value. -/
  | kinds (value : Option String)
  | unknown

/-- Reads an argument of one dash and letters. -/
def shortForm : List Char → Form
  | 'h' :: _ => .help
  | 'V' :: _ => .version
  | ['k'] => .kinds none
  | 'k' :: '=' :: value => .kinds (some (String.ofList value))
  | 'k' :: value => .kinds (some (String.ofList value))
  | _ => .unknown

/-- Reads an argument of two dashes and a name. -/
def longForm (text : List Char) : Form :=
  match String.ofList (text.takeWhile (· != '=')), text.dropWhile (· != '=') with
  | "kind", '=' :: value => .kinds (some (String.ofList value))
  | "kind", [] => .kinds none
  | "pretty", [] => .pretty
  | "help", [] => .help
  | "version", [] => .version
  | _, _ => .unknown

/-- Reads an argument. -/
def form (argument : String) : Form :=
  match argument.toList with
  | ['-', '-'] => .separator
  | '-' :: '-' :: rest => longForm rest
  | '-' :: c :: rest => shortForm (c :: rest)
  | _ => .word

/-- Whether an argument may be the value of the option before it. -/
def isValue (argument : String) : Bool :=
  argument.toList.head? != some '-'

/-- Reads plain words. -/
def readWords (arguments : Arguments) : List String → Command
  | [] => .print arguments.request
  | word :: rest =>
      match arguments.setRoot? word with
      | some arguments => readWords arguments rest
      | none => .invalid

/-- Reads arguments. -/
def readArguments (arguments : Arguments) : List String → Command
  | [] => .print arguments.request
  | argument :: rest =>
      match form argument with
      | .unknown => .invalid
      | .help => .help
      | .version => .version
      | .separator => readWords arguments rest
      | .word =>
          match arguments.setRoot? argument with
          | some arguments => readArguments arguments rest
          | none => .invalid
      | .pretty =>
          match arguments.setPretty? with
          | some arguments => readArguments arguments rest
          | none => .invalid
      | .kinds (some value) =>
          match arguments.setKinds? value with
          | some arguments => readArguments arguments rest
          | none => .invalid
      | .kinds none =>
          match rest with
          | [] => .invalid
          | value :: rest =>
              if !isValue value then .invalid
              else
                match arguments.setKinds? value with
                | some arguments => readArguments arguments rest
                | none => .invalid

/-- How a run ends: its exit code and what it prints. -/
structure Outcome where
  code : Nat
  output : String := ""
  deriving DecidableEq, Repr

/-- The name and version of the program. -/
def versionText : String :=
  "angularjs-index 0.1.0"

/-- How to call the program. -/
def helpText : String :=
  "Index AngularJS components, controllers, directives and routes\n\n" ++
  "Usage: angularjs-index [OPTIONS] [ROOT]\n\n" ++
  "Arguments:\n" ++
  "  [ROOT]  プロジェクトルート（ajsconfig.json を置く場所） [default: .]\n\n" ++
  "Options:\n" ++
  "  -k, --kind <KIND>  出力する種別 [default: all] " ++
  "[possible values: all, components, controllers, directives, routes, html]\n" ++
  "      --pretty       JSONを整形して出力する\n" ++
  "  -h, --help         Print help\n" ++
  "  -V, --version      Print version\n"

/-- Reads a project and prints what is asked for. -/
def print (disk : Disk) (request : Request) : Outcome :=
  match Project.openAt disk request.root with
  | .error _ => { code := 1 }
  | .ok project =>
      match project.refresh disk with
      | (.error _, _) => { code := 1 }
      | (.ok (), project) =>
          let report := project.report request.kinds
          let text := if request.pretty then report.pretty else report.compact
          { code := 0, output := text ++ "\n" }

/-- Runs the program on a disk. -/
def run (disk : Disk) (arguments : List String) : Outcome :=
  match readArguments {} arguments with
  | .print request => print disk request
  | .version => { code := 0, output := versionText ++ "\n" }
  | .help => { code := 0, output := helpText }
  | .invalid => { code := 2 }

end CommandLine
end NgIndex
