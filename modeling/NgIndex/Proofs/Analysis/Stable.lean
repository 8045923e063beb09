import NgIndex.Proofs.Analysis.Composed
import NgIndex.Proofs.Lookup.Follow

/-!
# Analyses that do not see a change

An analysis is stable if it tracks every change of the files, whatever is being looked into when it
starts.  Analyses are put together from searches, so they are stable piece by piece.  The search for
the factory of a directive has limits of its own: one starts anew in each module that is entered,
and the other is never met.
-/

namespace NgIndex
namespace Lookup

open Script

variable {α β : Type}

/-- A step that tracks every change of the files wherever a module is being looked into. -/
def Stable (m : Module) (step : Lookup α) : Prop :=
  ∀ (change : Change) (place : Place), place.script = m → place.chain ≠ [] →
    Tracks change place step step

section Stable

variable {m : Module}

theorem Stable.pure (a : α) : Stable m (Pure.pure a) :=
  fun _ _ _ _ => .pure a

theorem Stable.bind {step : Lookup α} {next : α → Lookup β} (h : Stable m step)
    (hnext : ∀ a, Stable m (next a)) : Stable m (step >>= next) :=
  fun change place hscript hchain =>
    (h change place hscript hchain).bind fun a => hnext a change place hscript hchain

theorem Stable.mapM {xs : List α} {step : α → Lookup β} (h : ∀ x, Stable m (step x)) :
    Stable m (xs.mapM step) := by
  induction xs with
  | nil => exact .pure []
  | cons x xs ih =>
      rw [List.mapM_cons]
      exact (h x).bind fun y => ih.bind fun ys => .pure (y :: ys)

/-- The root of the project does not change with the files. -/
theorem Stable.root {next : Path → Lookup α} (h : ∀ root, Stable m (next root)) :
    Stable m (do next (← read).root) :=
  fun change place hscript hchain =>
    (h change.scene.root change place hscript hchain).congr rfl rfl

theorem Stable.follow {c : Cursor} {visit : Visit α} (h : ∀ m c, Stable m (visit m c)) :
    Stable m (Lookup.follow m c visit) := by
  rintro change place rfl hchain
  exact follow_tracks (places_ne_nil change) c hchain
    fun place c hchain => h place.script c change place rfl hchain

theorem Composed.stable {step : Lookup α} (h : Composed m step) : Stable m step := by
  induction h with
  | pure a => exact .pure a
  | bind _ _ hstep hnext => exact hstep.bind hnext
  | root _ hnext => exact .root hnext
  | follow _ hvisit => exact .follow hvisit

end Stable

end Lookup

namespace Analysis

open Script Lookup

section Factory

variable {change : Change} {At : Place → Prop}

/-- The search for a factory inside one module tracks a change if what it does in other modules
does. -/
theorem factoryAt_tracks (hplaces : Places change At) (origin home : Path)
    {deeper deeper' : Visit (Except Endless Factory)}
    (hdeeper : ∀ place c, At place → place.script.path ≠ home →
      Tracks change place (deeper place.script c) (deeper' place.script c)) (lists : Nat)
    {place : Place} (c : Cursor) (hplace : At place) (hhome : place.script.path = home) :
    Tracks change place (factoryAt origin deeper lists place.script c)
      (factoryAt origin deeper' lists place.script c) := by
  induction lists generalizing place c with
  | zero => exact .pure _
  | succ lists ih =>
      have hchain := hplaces.chain_ne_nil place hplace
      simp only [factoryAt]
      split
      · cases c.items.getLast? with
        | none => exact .pure none
        | some last =>
            refine follow_tracks hplaces last hplace fun inner site hinner => ?_
            by_cases hsame : (inner.script.path == place.script.path) = true
            · rw [if_pos hsame, if_pos hsame]
              exact ih site hinner (by rw [← hhome]; simpa using hsame)
            · rw [if_neg hsame, if_neg hsame]
              exact hdeeper inner site hinner (by rw [← hhome]; simpa using hsame)
      · split
        · exact ((composed_callFactory origin _ c).stable change place rfl hchain).bind
            fun _ => .pure _
        · split
          · exact ((composed_functionFactory origin _ c).stable change place rfl hchain).bind
              fun _ => .pure _
          · exact .pure none

theorem factoryWithin_tracks (hplaces : Places change At) (origin : Path) (modules : Nat) :
    VisitsTrack change At (factoryWithin origin modules) (factoryWithin origin modules) := by
  induction modules with
  | zero => exact fun _ _ _ => .pure _
  | succ modules ih =>
      intro place c hplace
      exact factoryAt_tracks hplaces origin place.script.path
        (fun inner c hinner _ => ih inner c hinner) (listLimit place.script) c hplace rfl

variable {scene : Scene} {home : Module}

/-- The number of modules that the search for a factory may lead through does not count where it is
large enough: from one module to the next the chain gets longer. -/
theorem factoryWithin_tracks_of_modulesLeft_lt (hplaces : Places (.still scene home) At)
    (origin start : Path) (limit limit' : Nat) :
    VisitsTrack (.still scene home)
      (fun place => PlacesWithin scene.files start At limit place ∧
        PlacesWithin scene.files start At limit' place)
      (factoryWithin origin limit) (factoryWithin origin limit') := by
  induction limit generalizing limit' with
  | zero =>
      rintro place c ⟨hplace, -⟩
      exact absurd hplace.left (Nat.not_lt_zero _)
  | succ limit ih =>
      rintro place c ⟨hplace, hplace'⟩
      cases limit' with
      | zero => exact absurd hplace'.left (Nat.not_lt_zero _)
      | succ limit' =>
          -- Either the search is still where it started, or it has entered a module.
          have hinner := (hplaces.within start limit).and (hplaces.within start limit')
          have hhere : Places (.still scene home) fun here => here = place ∨
              (PlacesWithin scene.files start At limit here ∧
                PlacesWithin scene.files start At limit' here) := by
            constructor
            · rintro here (rfl | hhere)
              · exact hplaces.chain_ne_nil _ hplace.allowed
              · exact hinner.chain_ne_nil _ hhere
            · rintro here specifier path text (rfl | hhere) hrelative hmem hpath hfresh
              · have hcontains := hpath.elim id id
                exact .inr ⟨hplace.enter hplaces hrelative hmem hcontains hfresh text,
                  hplace'.enter hplaces hrelative hmem hcontains hfresh text⟩
              · exact .inr (hinner.enter _ _ _ text hhere hrelative hmem hpath hfresh)
          refine factoryAt_tracks hhere origin place.script.path (fun here c hhere hpath => ?_)
            (listLimit place.script) c (.inl rfl) rfl
          rcases hhere with rfl | hhere
          · exact absurd rfl hpath
          · exact ih limit' here c hhere

/-- A search for a factory with a limit that is large enough goes the same way with any larger
one. -/
theorem follow_factoryWithin_tracks_of_le (scene : Scene) (home : Module) {place : Place}
    (hchain : place.chain ≠ []) (origin : Path) (c : Cursor) {limit limit' : Nat}
    (hlimit : importLimit scene.files place.script.path ≤ limit)
    (hlimit' : importLimit scene.files place.script.path ≤ limit') :
    Tracks (.still scene home) place (follow place.script c (factoryWithin origin limit))
      (follow place.script c (factoryWithin origin limit')) := by
  have hplaces := places_ne_nil (.still scene home)
  have hnear : Near place.script.path place.script.directory := near_directory place.script.path
  have hleft := Files.modulesLeft_lt_importLimit scene.files place.script.path place.chain
  exact follow_tracks
    ((hplaces.within place.script.path limit).and (hplaces.within place.script.path limit')) c
    ⟨⟨hchain, hnear, by omega⟩, ⟨hchain, hnear, by omega⟩⟩
    (factoryWithin_tracks_of_modulesLeft_lt hplaces origin place.script.path limit limit')

theorem concluded_tracks {place : Place} (found : Option (Except Endless Factory)) :
    Tracks change place (concluded found) (concluded found) := by
  match found with
  | some (.ok factory) => exact .pure (some factory)
  | some (.error _) => exact Tracks.giveUp.bind fun _ => .pure none
  | none => exact .pure none

theorem stable_factory? (m : Module) (c : Cursor) : Stable m (factory? m c) := by
  rintro change place rfl hchain
  let limit := max (importLimit change.scene.files place.script.path)
    (importLimit change.altered place.script.path)
  have hbefore := follow_factoryWithin_tracks_of_le change.scene change.home hchain
    place.script.path c (le_refl _) (le_max_left _ _ : _ ≤ limit)
  have hmiddle : Tracks change place (follow place.script c (factoryWithin place.script.path limit))
      (follow place.script c (factoryWithin place.script.path limit)) :=
    follow_tracks (places_ne_nil change) c hchain
      (factoryWithin_tracks (places_ne_nil change) place.script.path limit)
  have hafter := follow_factoryWithin_tracks_of_le change.after change.home hchain
    place.script.path c (le_max_right _ _ : _ ≤ limit) (le_refl _)
  exact ((hbefore.trans hmiddle hafter).bind fun found => concluded_tracks found).congr rfl rfl

end Factory

theorem stable_registeredDirective? (m : Module) (classes : List Directive) (call : Call) :
    Stable m (registeredDirective? m classes call) := by
  unfold registeredDirective?
  split
  · refine (Composed.string? _).stable.bind fun name => ?_
    cases name with
    | none => exact .pure none
    | some name => exact (stable_factory? m _).bind fun _ => .pure _
  · exact .pure none

theorem stable_directives (m : Module) : Stable m (directives m) := by
  unfold directives
  refine (composed_classDirectives m).stable.bind fun classes => ?_
  refine Stable.bind (.mapM fun event => ?_) fun _ => .pure _
  split
  · exact stable_registeredDirective? m classes _
  · exact .pure none

end Analysis
end NgIndex
