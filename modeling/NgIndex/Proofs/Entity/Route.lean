import Mathlib.Data.List.Basic
import NgIndex.Entity.Route
import NgIndex.Proofs.Tree

/-!
# Routes that are linked again

A route is linked together with all its views, however deep they stand.  Linking looks at the names
that a reference consists of and at nothing that was linked before, so linking once more forgets the
controllers found earlier.  Nothing but these controllers is changed, and the list of a route and
its views is the same as before with each of its routes linked.
-/

namespace NgIndex
namespace Route

/-! ### Linking and listing, route by route -/

theorem resolveAll_eq_map (set : ControllerSet) (routes : List Route) :
    resolveAll set routes = routes.map (resolve set) := by
  induction routes with
  | nil => rfl
  | cons route rest ih => simp only [resolveAll, List.map_cons, ih]

theorem resolve_link (set : ControllerSet) (route : Route) :
    (route.resolve set).link = route.link.resolve set := by
  cases route
  rfl

theorem resolve_views (set : ControllerSet) (route : Route) :
    (route.resolve set).views = route.views.map (resolve set) := by
  cases route with
  | mk name path span template link views => exact resolveAll_eq_map set views

theorem resolve_eq (set : ControllerSet) (route : Route) :
    route.resolve set =
      { route with link := route.link.resolve set, views := route.views.map (resolve set) } := by
  cases route with
  | mk name path span template link views => rw [resolve, resolveAll_eq_map]

theorem walkAll_eq_flatMap (routes : List Route) : walkAll routes = routes.flatMap walk := by
  induction routes with
  | nil => rw [walkAll, List.flatMap_nil]
  | cons route rest ih => rw [walkAll, ih, List.flatMap_cons]

theorem walk_eq (route : Route) : route.walk = route :: route.views.flatMap walk := by
  cases route with
  | mk name path span template link views => rw [walk, walkAll_eq_flatMap]

theorem sizeOf_lt_of_mem_views (route : Route) :
    ∀ view ∈ route.views, sizeOf view < sizeOf route := by
  obtain ⟨name, path, span, template, link, views⟩ := route
  intro view hview
  have hlt : sizeOf view < sizeOf views := List.sizeOf_lt_of_mem hview
  simp only [mk.sizeOf_spec]
  omega

/-! ### Routes without their controllers -/

mutual

/-- The route as it is before it was ever linked, with all its views. -/
def unlinked : Route → Route
  | ⟨name, path, span, template, link, views⟩ =>
      ⟨name, path, span, template, { link with controller := none }, unlinkedAll views⟩

/-- Several routes as they are before they were ever linked. -/
def unlinkedAll : List Route → List Route
  | [] => []
  | route :: rest => route.unlinked :: unlinkedAll rest

end

theorem unlinkedAll_eq_map (routes : List Route) : unlinkedAll routes = routes.map unlinked := by
  induction routes with
  | nil => rw [unlinkedAll, List.map_nil]
  | cons route rest ih => rw [unlinkedAll, ih, List.map_cons]

theorem unlinked_eq (route : Route) :
    route.unlinked =
      { route with
        link := { route.link with controller := none }
        views := route.views.map unlinked } := by
  cases route with
  | mk name path span template link views => rw [unlinked, unlinkedAll_eq_map]

/-- Linking does not look at controllers found earlier. -/
theorem resolve_unlinked (set : ControllerSet) (route : Route) :
    route.unlinked.resolve set = route.resolve set := by
  induction route using Tree.induction_on_children sizeOf_lt_of_mem_views with
  | step route ih =>
      rw [unlinked_eq, resolve_eq, resolve_eq]
      simp only [mk.injEq, true_and, List.map_map]
      exact ⟨rfl, List.map_congr_left ih⟩

/-- Linking changes nothing but the controllers. -/
theorem unlinked_resolve (set : ControllerSet) (route : Route) :
    (route.resolve set).unlinked = route.unlinked := by
  induction route using Tree.induction_on_children sizeOf_lt_of_mem_views with
  | step route ih =>
      rw [resolve_eq, unlinked_eq, unlinked_eq]
      simp only [mk.injEq, true_and, List.map_map]
      exact ⟨rfl, List.map_congr_left ih⟩

theorem resolve_resolve (first second : ControllerSet) (route : Route) :
    (route.resolve first).resolve second = route.resolve second := by
  rw [← resolve_unlinked, unlinked_resolve, resolve_unlinked]

theorem walk_resolve (set : ControllerSet) (route : Route) :
    (route.resolve set).walk = route.walk.map (resolve set) := by
  induction route using Tree.induction_on_children sizeOf_lt_of_mem_views with
  | step route ih =>
      rw [walk_eq, walk_eq route, resolve_views, List.map_cons, List.flatMap_map, List.map_flatMap]
      exact congrArg _ (List.flatMap_congr ih)

end Route

open Route in
/-- **Linking a route again forgets the past.**  A route that was linked to other controllers before
comes out as if it had not been.  Whatever is listed in the result has the controller that its own
reference means, and apart from the controllers of it and its views nothing is changed.  The list of
the result is that of the route with each of its routes linked; both go through the route and all
views below it, each before the views below it, and find every one of them once. -/
theorem relinked_route_forgets_past (first second : ControllerSet) (route : Route) :
    (route.resolve first).resolve second = route.resolve second ∧
      (route.resolve second).unlinked = route.unlinked ∧
      (route.resolve second).walk = route.walk.map (resolve second) ∧
      (∀ inner ∈ (route.resolve second).walk,
        inner.link.controller = inner.link.target? second) ∧
      ∃ addresses,
        Tree.Lists (· < ·) (Tree.nodeAt? views route) addresses route.walk ∧
        Tree.Lists (· < ·) (Tree.nodeAt? views (route.resolve second)) addresses
          (route.resolve second).walk := by
  refine ⟨resolve_resolve first second route, unlinked_resolve second route,
    walk_resolve second route, ?_, ?_⟩
  · intro inner hinner
    rw [walk_resolve] at hinner
    obtain ⟨old, -, rfl⟩ := List.mem_map.mp hinner
    rw [resolve_link]
    rfl
  · obtain ⟨addresses, hlists⟩ :=
      Tree.exists_lists_of_above sizeOf_lt_of_mem_views walk_eq route
    refine ⟨addresses, hlists, ?_⟩
    have hat : Tree.nodeAt? views (route.resolve second) =
        fun address => (Tree.nodeAt? views route address).map (resolve second) :=
      funext (Tree.nodeAt?_map views (resolve_views second) route)
    rw [walk_resolve, hat]
    exact hlists.map (resolve second)

end NgIndex
