import NgIndex.Analysis.Template
import NgIndex.Entity.Route
import NgIndex.Script.Event

/-!
# Routes of a script

Routes are registered by calls with a name and a configuration, or with a configuration that holds
the name.  Such calls form chains; a chain is handled as a whole at its last call, in the order in
which the calls are written.
-/

namespace NgIndex
namespace Analysis

open Script Lookup

/-- How deeply views may stand inside each other. -/
def viewLevels : Nat :=
  8

/-- The name of the method that registers routes. -/
def stateMethod : String :=
  "state"

/-- The template that consists of the tag of the component that a table of settings names. -/
def componentTemplate? (m : Module) (table : Table) : Lookup (Option Template) := do
  match table.get? "component" with
  | none => return none
  | some site => do
      let name ← string? m site
      return name.map fun name => tagTemplate m name site

/-- The template of a route: its own, or the tag of its component. -/
def routeTemplate? (m : Module) (table : Table) : Lookup (Option Template) := do
  match ← template? m table with
  | some template => return some template
  | none => componentTemplate? m table

/-- The views of a table of settings, with their names. -/
def viewEntries (m : Module) (table : Table) : List (String × Cursor) :=
  match (table.get? "views").bind (object? m) with
  | some views => (Table.ofObject m views).entries
  | none => []

/-- The route that a table of settings describes.  A view that is a text is a component; any other
view is read like a route.  `levels` bounds the nesting of views. -/
def routeOf (m : Module) : Nat → Table → String → Path → Span → Lookup Route
  | levels, table, name, path, span => do
      let template ← routeTemplate? m table
      let link ← link m table
      let views ←
        match levels with
        | 0 => pure []
        | levels + 1 => (viewEntries m table).mapM fun (name, value) => do
            match ← string? m value with
            | some component =>
                let template := tagTemplate m component value
                return some ⟨name, m.path, value.span, some template, {}, []⟩
            | none =>
                match object? m value with
                | none => return none
                | some object => do
                    let table := Table.ofObject m object
                    return some (← routeOf m levels table name m.path value.span)
      return { name, path, span, template, link, views := views.filterMap id }

/-- The route with a name and a configuration. -/
def namedRoute? (m : Module) (name configuration : Cursor) : Lookup (Option Route) := do
  match ← string? m name with
  | none => return none
  | some text =>
      follow m configuration fun target site =>
        match Table.ofNode? target site with
        | none => pure none
        | some table => do return some (← routeOf target viewLevels table text m.path name.span)

/-- The route with a configuration that holds the name. -/
def selfNamedRoute? (m : Module) (configuration : Cursor) : Lookup (Option Route) :=
  follow m configuration fun m target => do
    match Table.ofNode? m target with
    | none => return none
    | some table =>
        match table.get? "name" with
        | none => return none
        | some site => do
            match ← string? m site with
            | none => return none
            | some name => return some (← routeOf m viewLevels table name m.path site.span)

/-- The route that a call registers. -/
def registeredRoute? (m : Module) (call : Call) : Lookup (Option Route) :=
  match call.arguments with
  | [name, configuration] => namedRoute? m name configuration
  | [configuration] => selfNamedRoute? m configuration
  | _ => pure none

/-- Whether the result of a call is what the next call of a chain is made on. -/
def isChained (m : Module) (c : Cursor) : Bool :=
  match c.parent? with
  | none => false
  | some callee =>
      c.node.role == some .object && callee.kind == .member &&
        callee.node.role == some .function &&
        (callee.parent?.any fun outer => outer.kind == .call) &&
        (callee.child? .property).any fun property => m.textAt property == stateMethod

/-- The call that a call of a chain is made on.  Wrappers around it do not count. -/
def innerCall? (m : Module) (call : Call) : Option Call := do
  let inner ← Call.at? m (← call.object).unwrap
  guard (inner.isMethod stateMethod)
  return inner

/-- How much of the script the object of a call takes up. -/
noncomputable def objectSize (call : Call) : Nat :=
  (call.object.map fun object => sizeOf object.node).getD 0

/-- The object of a call is a part of it. -/
theorem objectSize_lt_of_at? {m : Module} {c : Cursor} {call : Call}
    (h : Call.at? m c = some call) : objectSize call < sizeOf c.node := by
  obtain ⟨-, -, h⟩ := Option.bind_eq_some_iff.mp h
  obtain ⟨callee, hcallee, h⟩ := Option.bind_eq_some_iff.mp h
  obtain rfl := Option.some.inj h
  have hlt := Cursor.sizeOf_child_lt hcallee
  unfold objectSize
  simp only
  split
  · cases hobject : callee.child? .object with
    | none =>
        simp only [Option.map_none, Option.getD_none]
        omega
    | some object =>
        have hinner := Cursor.sizeOf_child_lt hobject
        simp only [Option.map_some, Option.getD_some]
        omega
  · simp only [Option.map_none, Option.getD_none]
    omega

/-- Along a chain the objects of the calls get smaller. -/
theorem objectSize_lt_of_innerCall? {m : Module} {call inner : Call}
    (h : innerCall? m call = some inner) : objectSize inner < objectSize call := by
  obtain ⟨object, hobject, h⟩ := Option.bind_eq_some_iff.mp h
  obtain ⟨found, hfound, h⟩ := Option.bind_eq_some_iff.mp h
  obtain ⟨-, -, h⟩ := Option.bind_eq_some_iff.mp h
  obtain rfl := Option.some.inj h
  have hlt := objectSize_lt_of_at? hfound
  have hle := Cursor.sizeOf_unwrap_le object
  have hsize : objectSize call = sizeOf object.node := by
    rw [objectSize, hobject, Option.map_some, Option.getD_some]
  omega

/-- The calls of a chain from the last to the first. -/
def callChain (m : Module) (call : Call) : List Call :=
  match _ : innerCall? m call with
  | some inner => call :: callChain m inner
  | none => [call]
termination_by objectSize call
decreasing_by exact objectSize_lt_of_innerCall? ‹_›

/-- The calls of the chain that ends at a call, in the order in which they are written; none if the
call is not the end of a chain. -/
def chainAt (m : Module) (call : Call) : List Call :=
  if !call.isMethod stateMethod || isChained m call.site then []
  else (callChain m call).reverse

/-- The calls that register routes, chain by chain. -/
def stateCalls (m : Module) : List Call :=
  m.events.flatMap fun event =>
    match event with
    | .call call => chainAt m call
    | _ => []

/-- The routes of a script. -/
def routes (m : Module) : Lookup (List Route) := do
  return (← (stateCalls m).mapM (registeredRoute? m)).filterMap id

end Analysis
end NgIndex
