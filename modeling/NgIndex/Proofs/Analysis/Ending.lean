import NgIndex.Proofs.Analysis.Composed
import NgIndex.Proofs.Lookup.Ending

/-!
# Analyses end

What is put together from searches ends, since searches do.  The analyses of components, controllers
and routes are put together in this way; their own loops go through finitely many events, and the
views of a route nest only so deep.
-/

namespace NgIndex

open Script Lookup

theorem Lookup.Composed.ends {α : Type} {m : Module} {step : Lookup α} (h : Composed m step)
    (scene : Scene) : Ends scene step := by
  induction h with
  | pure a => exact .pure scene a
  | bind _ _ hstep hnext => exact hstep.bind hnext
  | root _ hnext =>
      intro session hchain
      exact hnext scene.root session hchain
  | follow _ hvisit => exact .follow hvisit

/-- An analysis that ends is not given up on any file. -/
theorem Lookup.Ends.not_gaveUp {α : Type} {scene : Scene} {step : Lookup α} (h : Ends scene step)
    (origin : Path) : (step scene (.start origin)).2.gaveUp = false :=
  (h (.start origin) (List.cons_ne_nil _ _)).2

/-- **Searches end, and so do analyses.**  Whatever the scripts import from each other, a search
whose action ends comes to its end.  It is never given up at its bound, and under any larger bound
it does the same.  So the analyses of components, controllers and routes end on every file. -/
theorem searches_and_analyses_end (scene : Scene) :
    (∀ {α : Type} (visit : Visit α), (∀ m c, Ends scene (visit m c)) →
      ∀ (m : Module) (c : Cursor), Ends scene (follow m c visit) ∧
        ∀ limit, importLimit scene.files m.path ≤ limit →
          ∀ session : Session, session.chain ≠ [] →
            followSteps (reachWithin limit) stepLimit m c visit scene session =
              follow m c visit scene session) ∧
    ∀ (origin : Path) (text : String),
      (Analysis.components (.ofText origin text) scene (.start origin)).2.gaveUp = false ∧
      (Analysis.controllers (.ofText origin text) scene (.start origin)).2.gaveUp = false ∧
      (Analysis.routes (.ofText origin text) scene (.start origin)).2.gaveUp = false := by
  constructor
  · intro α visit hvisit m c
    refine ⟨.follow hvisit, fun limit hlimit session hchain => ?_⟩
    exact (follow_endAlike hvisit m c hchain hlimit session rfl).1
  · intro origin text
    have hcomponents := (Analysis.composed_components (.ofText origin text)).ends scene
    have hcontrollers := (Analysis.composed_controllers (.ofText origin text)).ends scene
    have hroutes := (Analysis.composed_routes (.ofText origin text)).ends scene
    exact ⟨hcomponents.not_gaveUp origin, hcontrollers.not_gaveUp origin,
      hroutes.not_gaveUp origin⟩

/-! ### Scripts that import from each other -/

namespace Circular

/-- A script that registers a component under a name which two others pass to and fro. -/
def text : String :=
  "import { n } from './a'; x.component(n, {})"

def origin : Path :=
  ⟨"/main.ts"⟩

def scene : Scene where
  root := ⟨"/"⟩
  files := { buffers := [("/a.ts", "export { n } from './b'"),
    ("/b.ts", "export { n } from './a'")] }

end Circular

/-- Both scripts are looked into, and the search ends at the first of them. -/
theorem circular_searches_and_analyses_end :
    let run := Analysis.components (.ofText Circular.origin Circular.text) Circular.scene
      (.start Circular.origin)
    run.2.dependencies = [⟨"/a.ts"⟩, ⟨"/b.ts"⟩] ∧ run.2.gaveUp = false ∧
      ∀ (m : Module) (c : Cursor), Ends Circular.scene (string? m c) := by
  have hends := searches_and_analyses_end Circular.scene
  refine ⟨by decide +kernel, (hends.2 Circular.origin Circular.text).1, fun m c => ?_⟩
  exact (hends.1 (fun m target => pure (m.literalAt? target)) (fun m target => .pure _ _) m c).1

end NgIndex
