import NgIndex.Proofs.Analysis.Composed
import NgIndex.Proofs.Lookup.Terminals

/-!
# Candidates for a value

The actions of the analyses search in turn, and a session is changed by that; but what they answer
at the end of a search depends on the chain of files alone.  So whatever is read off an expression,
a text, a template, bindings, the configuration of a component or of a route, the same candidates
are tried for it in the same order.
-/

namespace NgIndex

open Script Lookup

namespace Lookup

variable {α : Type}

/-- The answer of a step when a chain of files is being looked into. -/
def answerAt (scene : Scene) (chain : List String) (step : Lookup α) : α :=
  (step scene { chain }).1

/-- A step with one answer has it also where nothing else has been recorded. -/
theorem Gives.answerAt {scene : Scene} {chain : List String} {step : Lookup α} {a : α}
    (h : Gives scene chain step a) : Gives scene chain step (answerAt scene chain step) := by
  have hanswer : Lookup.answerAt scene chain step = a := (h { chain } rfl).1
  rwa [hanswer]

/-- What is put together from searches has one answer for each chain. -/
theorem Composed.gives {m : Module} {step : Lookup α} (h : Composed m step) (scene : Scene)
    {chain : List String} (hchain : chain ≠ []) :
    Gives scene chain step (answerAt scene chain step) := by
  induction h generalizing chain with
  | pure a => exact .pure scene chain a
  | bind _ _ hstep hnext => exact ((hstep hchain).bind (hnext _ hchain)).answerAt
  | root _ hnext =>
      intro session hsession
      exact hnext scene.root hchain session hsession
  | @follow α m c visit _ hvisit =>
      -- The action has one answer at each terminal, so the search has the first of them.
      have hvisits : VisitGives scene visit fun t =>
          Lookup.answerAt scene t.place.chain (visit t.place.script t.site) :=
        fun t ht => hvisit t.place.script t.site ht
      have hchain' : (⟨chain, m⟩ : Place).chain ≠ [] := hchain
      exact (follow_gives hvisits hchain' c).answerAt

end Lookup

namespace Analysis

variable (scene : Scene)

/-- The bindings that the end of a search declares. -/
def bindingsAt? (t : Terminal) : Option (List Binding) :=
  if t.site.kind == .object then
    some (answerAt scene t.place.chain (bindingsOf t.place.script t.site))
  else none

/-- The component with the end of a search as its configuration. -/
def componentAtEnd (registration : Registration) (t : Terminal) :
    Except Unsupported (Option Component) :=
  answerAt scene t.place.chain (componentFrom registration t.place.script t.site)

/-- The route with the end of a search as its configuration. -/
def routeAt? (name : String) (path : Path) (span : Span) (t : Terminal) : Option Route :=
  (Table.ofNode? t.place.script t.site).map fun table =>
    answerAt scene t.place.chain (routeOf t.place.script viewLevels table name path span)

/-- The route with the end of a search as its configuration, which also holds the name. -/
def selfNamedRouteAt? (t : Terminal) : Option Route :=
  (Table.ofNode? t.place.script t.site).bind fun table =>
    (table.get? "name").bind fun site =>
      (answerAt scene t.place.chain (string? t.place.script site)).bind fun name =>
        routeAt? scene name t.place.script.path site.span t

variable {scene} {place : Place} (hchain : place.chain ≠ [])

include hchain

theorem string?_gives (c : Cursor) :
    Gives scene place.chain (string? place.script c)
      ((terminals scene place c).findSome? fun t => t.place.script.literalAt? t.site) :=
  follow_gives (fun _ _ => .pure _ _ _) hchain c

theorem bindings_gives {table : Table} {c : Cursor} (hc : table.get? "bindings" = some c) :
    Gives scene place.chain (bindings place.script table)
      (((terminals scene place c).findSome? (bindingsAt? scene)).getD []) := by
  unfold bindings
  rw [hc]
  refine (follow_gives (fun t ht => ?_) hchain c).bind (.pure _ _ _)
  unfold bindingsAt?
  split
  · exact ((composed_bindingsOf t.place.script t.site).gives scene ht).bind (.pure _ _ _)
  · exact .pure _ _ none

theorem registered_gives {name : Cursor} {text : String}
    (hname : Gives scene place.chain (string? place.script name) (some text)) (c : Cursor) :
    Gives scene place.chain (registered place.script name c)
      (((terminals scene place c).findSome? fun t =>
        some (componentAtEnd scene ⟨place.script.path, text, name.span⟩ t)).getD (.ok none)) := by
  refine hname.bind ((follow_gives (fun t ht => ?_) hchain c).bind (.pure _ _ _))
  exact ((composed_componentFrom _ t.place.script t.site).gives scene ht).bind (.pure _ _ _)

theorem namedRoute?_gives {name : Cursor} {text : String}
    (hname : Gives scene place.chain (string? place.script name) (some text)) (c : Cursor) :
    Gives scene place.chain (namedRoute? place.script name c)
      ((terminals scene place c).findSome? (routeAt? scene text place.script.path name.span)) := by
  refine hname.bind (follow_gives (fun t ht => ?_) hchain c)
  unfold routeAt?
  cases Table.ofNode? t.place.script t.site with
  | none => exact .pure _ _ none
  | some table =>
      exact ((composed_routeOf t.place.script _ table _ _ _).gives scene ht).bind (.pure _ _ _)

theorem selfNamedRoute?_gives (c : Cursor) :
    Gives scene place.chain (selfNamedRoute? place.script c)
      ((terminals scene place c).findSome? (selfNamedRouteAt? scene)) := by
  refine follow_gives (fun t ht => ?_) hchain c
  unfold selfNamedRouteAt? routeAt?
  cases Table.ofNode? t.place.script t.site with
  | none => exact .pure _ _ none
  | some table =>
      simp only [Option.bind_some, Option.map_some]
      cases table.get? "name" with
      | none => exact .pure _ _ none
      | some site =>
          rw [Option.bind_some]
          refine ((Composed.string? site).gives scene ht).bind ?_
          cases answerAt scene t.place.chain (string? t.place.script site) with
          | none => exact .pure _ _ none
          | some name =>
              have hroute := composed_routeOf t.place.script viewLevels table name
                t.place.script.path site.span
              exact (hroute.gives scene ht).bind (.pure _ _ _)

theorem template?_gives {table : Table} {c : Cursor}
    (haddress : Gives scene place.chain (addressedTemplate? place.script table) none)
    (hc : (table.get? "template").map Cursor.unwrap = some c)
    (himport : importedTemplate? place.script c = none) :
    Gives scene place.chain (template? place.script table)
      ((terminals scene place c).findSome? fun t => templateAt? t.place.script t.site) := by
  refine haddress.bind ?_
  simp only [hc, himport]
  exact follow_gives (fun _ _ => .pure _ _ _) hchain c

end Analysis

/-- **A search tries a fixed list of candidates.**  The terminals of a value depend on the files,
on the value and on the chain of files being looked into.  Whatever the action of a search is, as
long as it has one answer at each terminal, the search has the first of these answers along the
list, and none if there is none.  So texts, templates, bindings and the configurations of components
and routes are all read off the first terminal along the same list that will do. -/
theorem search_has_first_answer (scene : Scene) (place : Place) (hchain : place.chain ≠ [])
    (c : Cursor) :
    (∀ {α : Type} (visit : Visit α) (answer : Terminal → Option α),
      VisitGives scene visit answer →
        Gives scene place.chain (follow place.script c visit)
          ((terminals scene place c).findSome? answer)) ∧
    Gives scene place.chain (string? place.script c)
      ((terminals scene place c).findSome? fun t => t.place.script.literalAt? t.site) ∧
    (∀ table : Table,
      Gives scene place.chain (Analysis.addressedTemplate? place.script table) none →
      (table.get? "template").map Cursor.unwrap = some c →
      Analysis.importedTemplate? place.script c = none →
        Gives scene place.chain (Analysis.template? place.script table)
          ((terminals scene place c).findSome? fun t =>
            Analysis.templateAt? t.place.script t.site)) ∧
    (∀ table : Table, table.get? "bindings" = some c →
      Gives scene place.chain (Analysis.bindings place.script table)
        (((terminals scene place c).findSome? (Analysis.bindingsAt? scene)).getD [])) ∧
    (∀ (name : Cursor) (text : String),
      Gives scene place.chain (string? place.script name) (some text) →
        Gives scene place.chain (Analysis.registered place.script name c)
          (((terminals scene place c).findSome? fun t =>
            some (Analysis.componentAtEnd scene ⟨place.script.path, text, name.span⟩ t)).getD
              (.ok none)) ∧
        Gives scene place.chain (Analysis.namedRoute? place.script name c)
          ((terminals scene place c).findSome?
            (Analysis.routeAt? scene text place.script.path name.span))) ∧
    Gives scene place.chain (Analysis.selfNamedRoute? place.script c)
      ((terminals scene place c).findSome? (Analysis.selfNamedRouteAt? scene)) := by
  refine ⟨fun visit answer hvisit => follow_gives hvisit hchain c,
    Analysis.string?_gives hchain c, ?_, ?_, ?_, Analysis.selfNamedRoute?_gives hchain c⟩
  · exact fun table haddress hc himport => Analysis.template?_gives hchain haddress hc himport
  · exact fun table hc => Analysis.bindings_gives hchain hc
  · exact fun name text hname =>
      ⟨Analysis.registered_gives hchain hname c, Analysis.namedRoute?_gives hchain hname c⟩

/-! ### A name that leads to two places -/

namespace Fallback

def origin : Path :=
  ⟨"/main.ts"⟩

def home : Module :=
  .ofText origin "import { n } from './a'; n"

/-- The imported name. -/
def value : Cursor :=
  home.root.preOrder.getLast?.getD home.root

/-- One script passes on what another exports, and gives away a text of its own besides. -/
def scene : Scene where
  root := ⟨"/"⟩
  files := { buffers := [("/a.ts", "export * from './b'; export default 'd'"),
    ("/b.ts", "export const n = \x7b name: 'e' \x7d")] }

def place : Place :=
  ⟨[origin.key], home⟩

end Fallback

/-- The name leads to an object and, after that, to a text.  Read as a text it is the second one,
read as the configuration of a route the first. -/
theorem fallback_search_has_first_answer :
    ((terminals Fallback.scene Fallback.place Fallback.value).map fun t =>
        (t.place.chain, t.place.script.textAt t.site)) =
      [(["/b.ts", "/a.ts", "/main.ts"], "\x7b name: 'e' \x7d"), (["/a.ts", "/main.ts"], "'d'")] ∧
    Fallback.place.chain ≠ [] ∧
    (string? Fallback.home Fallback.value Fallback.scene (.start Fallback.origin)).1 = some "d" ∧
    ((Analysis.selfNamedRoute? Fallback.home Fallback.value Fallback.scene
      (.start Fallback.origin)).1.map fun route => route.name) = some "e" := by
  have hchain : Fallback.place.chain ≠ [] := by decide
  let ends := terminals Fallback.scene Fallback.place Fallback.value
  have hends :
      (ends.map fun t => (t.place.chain, t.place.script.textAt t.site)) =
        [(["/b.ts", "/a.ts", "/main.ts"], "\x7b name: 'e' \x7d"), (["/a.ts", "/main.ts"], "'d'")] ∧
      (ends.findSome? fun t => t.place.script.literalAt? t.site) = some "d" ∧
      ((ends.findSome? (Analysis.selfNamedRouteAt? Fallback.scene)).map fun route =>
        route.name) = some "e" := by
    decide +kernel
  obtain ⟨-, hstring, -, -, -, hroute⟩ :=
    search_has_first_answer Fallback.scene Fallback.place hchain Fallback.value
  refine ⟨hends.1, hchain, (hstring (.start Fallback.origin) rfl).1.trans hends.2.1, ?_⟩
  exact (congrArg _ (hroute (.start Fallback.origin) rfl).1).trans hends.2.2

end NgIndex
