import NgIndex.Entity.Controller
import NgIndex.Lookup.Follow
import NgIndex.Script.Event

/-!
# Controllers of a script

Every class and every function that is not inside another may be a controller.  A class that
implements one of the interfaces for settings is none.  A call that registers a class or function
under a name gives the controller that name; a second name makes a second controller.
-/

namespace NgIndex
namespace Analysis

open Script Lookup

/-! ### Types and parameters -/

/-- The type that a colon and a type give; any type if there is none. -/
def typeText (m : Module) (clause : Option Cursor) : String :=
  match clause with
  | none => anyType
  | some clause =>
      let text := (m.textAt clause).toList.dropWhile (· == ':')
      let text := Text.trim (String.ofList text)
      if text.isEmpty then anyType else text

/-- A parameter as a method shows it. -/
def parameter? (m : Module) (parameter : Cursor) : Option Parameter :=
  match parameter.kind with
  | .requiredParameter => typed
  | .optionalParameter => typed
  | .identifier => some ⟨m.textAt parameter, anyType⟩
  | .objectPattern => some ⟨m.textAt parameter, anyType⟩
  | .arrayPattern => some ⟨m.textAt parameter, anyType⟩
  | .defaultPattern => do return ⟨m.textAt (← parameter.child? .left), anyType⟩
  | .restPattern => do return ⟨m.textAt (← parameter.named.head?), anyType⟩
  | _ => none
where
  typed : Option Parameter := do
    return ⟨m.textAt (← parameter.child? .pattern), typeText m (parameter.child? .type)⟩

/-- The parameters in a pair of parentheses. -/
def parameters (m : Module) (list : Option Cursor) : List Parameter :=
  (list.toList.flatMap Cursor.named).filterMap (parameter? m)

/-- The parameters of a function; an arrow function may have one without parentheses. -/
def functionParameters (m : Module) (function : Cursor) : List Parameter :=
  match function.child? .parameter with
  | some single => [⟨m.textAt single, anyType⟩]
  | none => parameters m (function.child? .parameters)

/-! ### Members of classes -/

/-- Whether a keyword stands before the parameters of a method. -/
def hasKeyword (m : Module) (method : Cursor) (keyword : String) : Bool :=
  (method.children.takeWhile fun child => child.kind != .parameters).any fun child =>
    child.kind == .token && m.textAt child == keyword

/-- Whether a member is public: it is not marked as private and its name is no private name. -/
def isPublic (m : Module) (member name : Cursor) : Bool :=
  name.kind != .privateName && !(member.children.any fun child =>
    child.kind == .accessibility && m.textAt child == "private")

/-- The member that a method makes.  What reads or sets a value is a property. -/
def methodMember? (m : Module) (method : Cursor) : Option Member := do
  let site ← method.child? .name
  let name ← m.propertyName? site
  let form := if hasKeyword m method "get" || hasKeyword m method "set" then MemberForm.property
    else .method (parameters m (method.child? .parameters))
  return {
    name
    returnType := typeText m (method.child? .returnType)
    isPublic := isPublic m method site
    span := site.span
    form }

/-- The member that a field makes.  A field that holds a function is a method. -/
def fieldMember? (m : Module) (field : Cursor) : Option Member := do
  let site ← (field.child? .name).or (field.child? .property)
  let name ← m.propertyName? site
  let declared := field.child? .type
  let function := ((field.child? .value).map Cursor.unwrap).filter fun value =>
    value.node.isFunction
  let (type, form) :=
    match function with
    | some function =>
        ((function.child? .returnType).or declared, MemberForm.method (functionParameters m function))
    | none => (declared, .property)
  return {
    name
    returnType := typeText m type
    isPublic := isPublic m field site
    span := site.span
    form }

/-- The member that a parameter of a constructor makes, if it is marked as public, private or
protected. -/
def parameterMember? (m : Module) (parameter : Cursor) : Option Member := do
  let mark ← parameter.children.find? fun child => child.kind == .accessibility
  let pattern ← parameter.child? .pattern
  return {
    name := m.textAt pattern
    returnType := typeText m (parameter.child? .type)
    isPublic := m.textAt mark != "private"
    span := pattern.span
    form := .property }

/-- Whether a method is a constructor. -/
def isConstructor (m : Module) (method : Cursor) : Bool :=
  (method.child? .name).any fun name => m.textAt name == "constructor"

/-- The members so far and what a part of the body of a class adds to them.  Of several members of
one name the first is kept; what a constructor adds is not compared. -/
def addClassMember (m : Module) (members : List Member) (part : Cursor) : List Member :=
  let add (member : Option Member) : List Member :=
    member.toList.foldl LinkedController.addMember members
  match part.kind with
  | .method =>
      if isConstructor m part then
        let parameters := (part.child? .parameters).toList.flatMap Cursor.named
        members ++ parameters.filterMap (parameterMember? m)
      else add (methodMember? m part)
  | .methodSignature => add (methodMember? m part)
  | .field => add (fieldMember? m part)
  | _ => members

/-- The members of a class. -/
def classMembers (m : Module) (body : Cursor) : List Member :=
  body.named.foldl (addClassMember m) []

/-! ### Members of functions -/

/-- The members with one of the same name replaced, or with one more. -/
def setMember (member : Member) : List Member → List Member
  | [] => [member]
  | other :: rest =>
      if other.name == member.name then member :: rest else other :: setMember member rest

/-- The member that a statement of a function makes by assigning to `this`. -/
def assignedMember? (m : Module) (statement : Cursor) : Option Member := do
  let (name, value) ← Table.thisWrite? m statement
  let assignment ← statement.named.head?
  let property := (assignment.child? .left).bind fun left => left.child? .property
  let value := value.unwrap
  let (returnType, form) :=
    if value.node.isFunction then
      (typeText m (value.child? .returnType), MemberForm.method (functionParameters m value))
    else (anyType, .property)
  return { name, returnType, isPublic := true, span := (property.getD statement).span, form }

/-- The members of a function; a later assignment takes the place of an earlier one. -/
def functionMembers (m : Module) (body : Cursor) : List Member :=
  (body.named.filterMap (assignedMember? m)).foldl (fun members member =>
    setMember member members) []

/-! ### Declarations -/

/-- The first child of a kind. -/
def childOfKind? (c : Cursor) (kind : Kind) : Option Cursor :=
  c.children.find? fun child => child.kind == kind

/-- The interfaces for settings. -/
def settingsInterfaces : List String :=
  ["IComponentOptions", "IDirective"]

/-- The last segment of the name of a type, without its arguments. -/
def simpleName (text : String) : String :=
  let name := text.toList.takeWhile (· != '<')
  Text.trim (String.ofList (name.reverse.takeWhile (· != '.')).reverse)

/-- Whether a class holds settings and is no controller. -/
def holdsSettings (m : Module) (owner : Cursor) : Bool :=
  let clause := (childOfKind? owner .heritage).bind fun heritage =>
    childOfKind? heritage .implementsClause
  (clause.toList.flatMap Cursor.named).any fun type =>
    settingsInterfaces.contains (simpleName (m.textAt type))

/-- The name of the base of a class.  A class with several bases has none. -/
def baseName? (m : Module) (owner : Cursor) : Option String := do
  let heritage ← childOfKind? owner .heritage
  let base ←
    match childOfKind? heritage .extendsClause with
    | some clause =>
        match clause.children.filter fun child => child.node.role == some .value with
        | [single] => some single
        | _ => none
    | none => heritage.named.head?.filter fun child => child.kind != .implementsClause
  return m.textAt base

/-- Whether a function is declared inside a function or a class. -/
def isInner (c : Cursor) : Bool :=
  c.above.any fun node =>
    node.kind == .functionDeclaration || node.kind == .method || node.kind == .classBody

/-- The controller that a class declaration makes. -/
def classController? (m : Module) (owner : Cursor) : Option Controller := do
  let name ← owner.child? .name
  guard !(holdsSettings m owner)
  return {
    name := m.textAt name
    className := m.textAt name
    path := m.path
    span := name.span
    baseClassName := baseName? m owner
    members := (owner.child? .body).elim [] (classMembers m) }

/-- The controller that a function declaration makes. -/
def functionController? (m : Module) (function : Cursor) : Option Controller := do
  let name ← function.child? .name
  guard !(isInner function)
  return {
    name := m.textAt name
    className := m.textAt name
    path := m.path
    span := name.span
    members := (function.child? .body).elim [] (functionMembers m) }

/-- The controllers that a script declares, each under the name of its class. -/
def declaredControllers (m : Module) : List Controller :=
  m.events.filterMap fun event =>
    match event with
    | .classDeclaration site => classController? m site
    | .functionDeclaration site => functionController? m site
    | _ => none

/-! ### Registrations -/

mutual

/-- The name that a registration refers to: a name, or the last part of a list. -/
def referredName? (node : Node) : Option Node :=
  match node with
  | ⟨kind, role, start, stop, children⟩ =>
      if kind == .identifier then some ⟨kind, role, start, stop, children⟩
      else if kind == .array then (referredLast? children).join
      else
        match Cursor.wrapped? kind with
        | some index => referredAt? index children
        | none => none

/-- What the last of several nodes refers to, if there is one apart from comments. -/
def referredLast? (nodes : List Node) : Option (Option Node) :=
  match nodes with
  | [] => none
  | node :: rest =>
      match referredLast? rest with
      | some name => some name
      | none =>
          if node.kind == .token || node.kind == .comment then none else some (referredName? node)

/-- What the named node of the given number refers to. -/
def referredAt? (index : Nat) (nodes : List Node) : Option Node :=
  match nodes with
  | [] => none
  | node :: rest =>
      if node.kind == .token then referredAt? index rest
      else
        match index with
        | 0 => referredName? node
        | index + 1 => referredAt? index rest

end

/-- The class and the name of a registration of a controller. -/
def controllerRegistration? (m : Module) (call : Call) : Lookup (Option (String × String)) := do
  match call.isMethod "controller", call.arguments with
  | true, [name, reference] => do
      match ← string? m name with
      | none => return none
      | some name =>
          return (referredName? reference.node).map fun className =>
            (Text.slice m.text className.start.byte className.stop.byte, name)
  | _, _ => return none

/-- The classes and names of the registrations of a script. -/
def controllerRegistrations (m : Module) : Lookup (List (String × String)) := do
  let found ← m.events.mapM fun event =>
    match event with
    | .call call => controllerRegistration? m call
    | _ => pure none
  return found.filterMap id

/-- Renames the first controller of a class that still has the name of its class. -/
def renameFirst? (className name : String) : List Controller → Option (List Controller)
  | [] => none
  | controller :: rest =>
      if controller.className == className && controller.name == controller.className then
        some ({ controller with name } :: rest)
      else (renameFirst? className name rest).map (controller :: ·)

/-- Gives a controller the name of a registration.  A controller that has another registered name
already is copied. -/
def register (controllers : List Controller) (registration : String × String) :
    List Controller :=
  let (className, name) := registration
  if controllers.any fun c => c.className == className && c.name == name then controllers
  else
    match renameFirst? className name controllers with
    | some renamed => renamed
    | none =>
        match controllers.find? fun c => c.className == className with
        | some controller => controllers ++ [{ controller with name }]
        | none => controllers

/-- The controllers of a script. -/
def controllers (m : Module) : Lookup (List Controller) := do
  return (← controllerRegistrations m).foldl register (declaredControllers m)

end Analysis
end NgIndex
