import NgIndex.Entity.Component

/-!
# Routes

A route is a registered state of the application.  Its named views have the same parts as a route
and are kept as routes below it.
-/

namespace NgIndex

/-- A registered state, with its named views. -/
structure Route where
  name : String
  path : Path
  span : Span
  template : Option Template := none
  link : ControllerLink := {}
  views : List Route := []
  deriving Repr, Inhabited

namespace Route

mutual

/-- The route with the controller references of it and of all its views resolved. -/
def resolve (set : ControllerSet) : Route → Route
  | ⟨name, path, span, template, link, views⟩ =>
      ⟨name, path, span, template, link.resolve set, resolveAll set views⟩

/-- A list of routes with their controller references resolved. -/
def resolveAll (set : ControllerSet) : List Route → List Route
  | [] => []
  | route :: rest => route.resolve set :: resolveAll set rest

end

mutual

/-- The route and all views below it, each before the views below it. -/
def walk (route : Route) : List Route :=
  match route with
  | ⟨name, path, span, template, link, views⟩ =>
      ⟨name, path, span, template, link, views⟩ :: walkAll views

/-- A list of routes and all views below them. -/
def walkAll : List Route → List Route
  | [] => []
  | route :: rest => route.walk ++ walkAll rest

end

end Route
end NgIndex
