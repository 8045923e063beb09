import NgIndex.Proofs.Lookup.Follow

/-!
# Searches end

A search is given up if more modules are being looked into at the same time than the bound allows.
Nothing else stands between the search and one without a bound, so a search that is not given up has
come to its end by itself, and it goes the same way under any larger bound.

The number of steps left in a module is no measure for this.  It starts anew in each module that is
entered, and where a property of an object is looked for, the search goes on with the steps that
were left at the object, from wherever the object was found.  What gets smaller is the number of
modules near the start that are not on the chain: each module that is entered is one of them, and it
stays on the chain until the search inside it has ended.
-/

namespace NgIndex
namespace Lookup

open Script

variable {α β : Type}

/-- A step that comes to its end: none of its searches is given up, and it goes back to the chain
that it started with. -/
def Ends (scene : Scene) (step : Lookup α) : Prop :=
  ∀ session : Session, session.chain ≠ [] →
    (step scene session).2.chain = session.chain ∧
      (step scene session).2.gaveUp = session.gaveUp

/-- Two steps that do the same from a given chain and come to their end. -/
def EndAlike (scene : Scene) (chain : List String) (step step' : Lookup α) : Prop :=
  ∀ session : Session, session.chain = chain →
    step' scene session = step scene session ∧
      (step scene session).2.chain = chain ∧ (step scene session).2.gaveUp = session.gaveUp

theorem ends_iff_endAlike {scene : Scene} {step : Lookup α} :
    Ends scene step ↔ ∀ chain : List String, chain ≠ [] → EndAlike scene chain step step := by
  constructor
  · rintro h _ hchain session rfl
    exact ⟨rfl, h session hchain⟩
  · intro h session hchain
    exact (h session.chain hchain session rfl).2

theorem EndAlike.pure (scene : Scene) (chain : List String) (a : α) :
    EndAlike scene chain (Pure.pure a) (Pure.pure a) :=
  fun _ hchain => ⟨rfl, hchain, rfl⟩

theorem EndAlike.bind {scene : Scene} {chain : List String} {step step' : Lookup α}
    {next next' : α → Lookup β} (h : EndAlike scene chain step step')
    (hnext : ∀ a, EndAlike scene chain (next a) (next' a)) :
    EndAlike scene chain (step >>= next) (step' >>= next') := by
  intro session hchain
  obtain ⟨hsame, hmiddle, hgaveUp⟩ := h session hchain
  obtain ⟨hsame', hend, hgaveUp'⟩ := hnext (step scene session).1 (step scene session).2 hmiddle
  refine ⟨?_, hend, hgaveUp'.trans hgaveUp⟩
  rw [bind_run, bind_run, hsame]
  exact hsame'

theorem endAlike_composes (scene : Scene) :
    StepRelation.Composes fun _ place => EndAlike scene place.chain where
  pure place a := .pure scene place.chain a
  bind h hnext := h.bind hnext

/-- Looking into a module ends if what is done there does. -/
theorem EndAlike.withModule {scene : Scene} {chain : List String} {directory : Path}
    {specifier : String} {action action' : Module → Lookup (Option α)} (hchain : chain ≠ [])
    (haction : ∀ (path : Path) (text : String), isRelative specifier = true →
      path ∈ moduleCandidates directory specifier → scene.files.contains path = true →
      path.key ∉ chain →
      EndAlike scene (path.key :: chain) (action (.ofText path text))
        (action' (.ofText path text))) :
    EndAlike scene chain (withModule directory specifier action)
      (withModule directory specifier action') := by
  intro session hsession
  by_cases hentered : ∃ path text, Enters scene chain directory specifier path text
  · obtain ⟨path, text, h⟩ := hentered
    have hinside : (session.entering path).chain = path.key :: chain := by
      rw [Session.chain_entering, hsession]
    obtain ⟨hsame, hend, hgaveUp⟩ := haction path text h.relative h.candidate h.contains h.fresh
      (session.entering path) hinside
    rw [h.withModule_run action hsession, h.withModule_run action' hsession, hsame]
    exact ⟨rfl, Session.chain_leaving hend hchain, by simpa using hgaveUp⟩
  · obtain ⟨after, hend, hgaveUp, -, hrun⟩ := withModule_run_of_not_enters hchain hentered hsession
    rw [hrun, hrun]
    exact ⟨rfl, hend, hgaveUp⟩

/-- Where fewer modules than the bound are left to enter, reaching for a module ends, and a larger
bound makes no difference. -/
theorem reachWithin_endAlike (scene : Scene) (start : Path) {limit limit' : Nat}
    (hle : limit ≤ limit') :
    ReachesRelate (fun _ place => EndAlike scene place.chain)
      (PlacesWithin scene.files start (fun place => place.chain ≠ []) limit)
      (reachWithin (α := α) limit) (reachWithin limit') := by
  -- By induction on the bound: entering a module lowers both the bound and the modules left.
  induction limit generalizing limit' with
  | zero =>
      intro place specifier name exactly visit visit' hplace
      exact absurd hplace.left (Nat.not_lt_zero _)
  | succ limit ih =>
      intro place specifier name exactly visit visit' hplace _ hvisit
      cases limit' with
      | zero => omega
      | succ limit' =>
          refine EndAlike.withModule hplace.allowed fun path text hrelative hmem hpath hfresh => ?_
          have hentered := hplace.enter (places_ne_nil (.still scene place.script)) hrelative hmem
            hpath hfresh text
          have hinner := followExport_relate (endAlike_composes scene)
            (ih (Nat.le_of_succ_le_succ hle)) name exactly
            (fun inner c hinner => hvisit inner c hinner.succ) hentered
          exact hinner

/-- A search whose action ends does the same under any larger bound, and ends. -/
theorem follow_endAlike {scene : Scene} {visit : Visit α} (hvisit : ∀ m c, Ends scene (visit m c))
    (m : Module) (c : Cursor) {chain : List String} (hchain : chain ≠ []) {limit : Nat}
    (hlimit : importLimit scene.files m.path ≤ limit) :
    EndAlike scene chain (follow m c visit)
      (followSteps (reachWithin limit) stepLimit m c visit) := by
  let At := PlacesWithin scene.files m.path (fun place => place.chain ≠ [])
    (importLimit scene.files m.path)
  have hstart : At ⟨chain, m⟩ :=
    ⟨hchain, near_directory m.path, Files.modulesLeft_lt_importLimit _ _ _⟩
  have hvisits : VisitsRelate (fun _ place => EndAlike scene place.chain) At visit visit :=
    fun inner c hinner => ends_iff_endAlike.mp (hvisit inner.script c) _ hinner.allowed
  have hsearch := followSteps_relate (endAlike_composes scene)
    (reachWithin_endAlike scene m.path hlimit) stepLimit c hvisits hstart
  intro session hsession
  rw [follow_run]
  exact hsearch session hsession

theorem Ends.pure (scene : Scene) (a : α) : Ends scene (Pure.pure a) :=
  fun _ _ => ⟨rfl, rfl⟩

theorem Ends.bind {scene : Scene} {step : Lookup α} {next : α → Lookup β} (h : Ends scene step)
    (hnext : ∀ a, Ends scene (next a)) : Ends scene (step >>= next) := by
  rw [ends_iff_endAlike] at h ⊢
  intro chain hchain
  exact (h chain hchain).bind fun a => ends_iff_endAlike.mp (hnext a) chain hchain

/-- A search ends if its action does, wherever the action is taken. -/
theorem Ends.follow {scene : Scene} {m : Module} {c : Cursor} {visit : Visit α}
    (hvisit : ∀ m c, Ends scene (visit m c)) : Ends scene (Lookup.follow m c visit) := by
  intro session hchain
  exact (follow_endAlike hvisit m c hchain (Nat.le_refl _) session rfl).2

end Lookup
end NgIndex
