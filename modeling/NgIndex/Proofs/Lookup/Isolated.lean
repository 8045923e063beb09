import NgIndex.Proofs.Lookup.Follow

/-!
# Steps that leave nothing behind

A session is changed by a few primitive steps only: a module is looked for, entered, loaded and
left, and a search is given up.  What each of them keeps is kept by every step that is put together
from them: no file is on the chain twice, and whatever was loaded or missed stays so.

A step is isolated if it takes back all that it puts on the chain, and if what it answers depends on
nothing but the chain that it starts with.  Isolated steps one after another are isolated together,
and so is looking into a module, since a file that is entered is left again, whatever becomes of it.
-/

namespace NgIndex

/-! ### What a session keeps -/

/-- A session that still holds what an earlier one has recorded.  A file that was loaded again may
be recorded by another spelling of its path. -/
structure Session.Keeps (before after : Session) : Prop where
  loaded : ∀ key path, before.loaded.get? key = some path →
    ∃ later, after.loaded.get? key = some later ∧ (later = path ∨ later.key = key)
  missed : ∀ key, before.missed.contains key = true → after.missed.contains key = true

namespace Session

variable {before middle after : Session}

theorem Keeps.refl (session : Session) : session.Keeps session where
  loaded _ path h := ⟨path, h, .inl rfl⟩
  missed _ h := h

theorem Keeps.trans (h : before.Keeps middle) (h' : middle.Keeps after) : before.Keeps after where
  loaded key path hpath := by
    obtain ⟨later, hlater, hsame⟩ := h.loaded key path hpath
    obtain ⟨last, hlast, hsame'⟩ := h'.loaded key later hlater
    refine ⟨last, hlast, ?_⟩
    rcases hsame' with rfl | hkey
    · exact hsame
    · exact .inr hkey
  missed key hkey := h'.missed key (h.missed key hkey)

theorem keeps_missing (session : Session) (paths : List Path) :
    session.Keeps (session.missing paths) where
  loaded _ path h := ⟨path, h, .inl rfl⟩
  missed key h := by
    rw [missing, KeyMap.contains_foldl_insert Path.key]
    exact .inl h

theorem keeps_load (session : Session) (path : Path) :
    session.Keeps { session with loaded := session.loaded.insert path.key path } where
  loaded key old h := by
    rw [KeyMap.get?_insert]
    by_cases hkey : path.key = key
    · exact ⟨path, if_pos hkey, .inr hkey⟩
    · exact ⟨old, by rw [if_neg hkey, h], .inl rfl⟩
  missed _ h := h

/-- The files of a chain are being looked into, and perhaps others from there. -/
def Above (chain : List String) (session : Session) : Prop :=
  chain <:+ session.chain

theorem above_of_eq {session : Session} {chain : List String} (h : session.chain = chain) :
    Above chain session := by
  subst h
  exact List.suffix_refl session.chain

theorem above_of_eq_cons {session : Session} {key : String} {chain : List String}
    (h : session.chain = key :: chain) : Above chain session := by
  rw [Above, h]
  exact List.suffix_cons _ _

end Session

namespace Lookup

open Script

variable {α β : Type} {scene : Scene}

/-! ### Primitive steps -/

/-- The steps by which the scene is read and the session is changed. -/
inductive Primitive : {α : Type} → Lookup α → Prop
  | read : Primitive (read : Lookup Scene)
  | giveUp : Primitive giveUp
  | locate (directory : Path) (specifier : String) : Primitive (locate directory specifier)
  | enter (path : Path) : Primitive (enter path)
  | load (path : Path) : Primitive (load path)
  | leave : Primitive leave

/-- No primitive step puts a file on the chain that is there already. -/
theorem Primitive.nodup_chain {step : Lookup α} (h : Primitive step) {session : Session}
    (hchain : session.chain.Nodup) : (step scene session).2.chain.Nodup := by
  cases h with
  | read => exact hchain
  | giveUp => exact hchain
  | locate directory specifier =>
      rw [locate_run]
      split
      · split
        · exact hchain
        · exact hchain
      · exact hchain
  | enter path =>
      rw [enter_run]
      split
      · exact hchain
      · next hfresh => exact List.nodup_cons.mpr ⟨hfresh, hchain⟩
  | load path =>
      rw [load_run]
      exact hchain
  | leave =>
      rw [leave_run]
      unfold Session.leaving
      split
      · next hfiles =>
          rw [hfiles] at hchain
          exact (List.nodup_cons.mp hchain).2
      · exact hchain

/-- No primitive step forgets what was loaded or missed. -/
theorem Primitive.keeps {step : Lookup α} (h : Primitive step) (session : Session) :
    session.Keeps (step scene session).2 := by
  have hsame := Session.Keeps.refl session
  cases h with
  | read => exact hsame
  | giveUp => exact ⟨hsame.loaded, hsame.missed⟩
  | locate directory specifier =>
      rw [locate_run]
      split
      · split
        · exact session.keeps_missing _
        · exact hsame
      · exact hsame
  | enter path =>
      rw [enter_run]
      split
      · exact hsame
      · exact ⟨hsame.loaded, hsame.missed⟩
  | load path =>
      rw [load_run]
      exact session.keeps_load path
  | leave =>
      rw [leave_run]
      unfold Session.leaving
      split
      · exact ⟨hsame.loaded, hsame.missed⟩
      · exact hsame

/-! ### Runs of primitive steps -/

/-- A step is put together from primitive ones, and all sessions that it goes through when it starts
in a given one have a property. -/
inductive Throughout (scene : Scene) (P : Session → Prop) :
    {α : Type} → Lookup α → Session → Prop
  | pure {α : Type} (a : α) {session : Session} : P session →
      Throughout scene P (Pure.pure a) session
  | primitive {α : Type} {step : Lookup α} {session : Session} : Primitive step → P session →
      P (step scene session).2 → Throughout scene P step session
  | bind {α β : Type} {step : Lookup α} {next : α → Lookup β} {session : Session} :
      Throughout scene P step session →
      Throughout scene P (next (step scene session).1) (step scene session).2 →
      Throughout scene P (step >>= next) session

section Throughout

variable {P Q : Session → Prop} {step : Lookup α} {session : Session}

theorem Throughout.mono (h : Throughout scene P step session)
    (hmono : ∀ later, P later → Q later) : Throughout scene Q step session := by
  induction h with
  | pure a hsession => exact .pure a (hmono _ hsession)
  | primitive hstep hsession hafter => exact .primitive hstep (hmono _ hsession) (hmono _ hafter)
  | bind _ _ hstep hnext => exact .bind hstep hnext

theorem Throughout.last (h : Throughout scene P step session) : P (step scene session).2 := by
  induction h with
  | pure a hsession => exact hsession
  | primitive _ _ hafter => exact hafter
  | bind _ _ _ hnext => exact hnext

/-- What all primitive steps keep holds throughout if it holds at the start. -/
theorem Throughout.and (h : Throughout scene P step session)
    (hkept : ∀ {β : Type} {step : Lookup β}, Primitive step → ∀ session, Q session →
      Q (step scene session).2) (hstart : Q session) :
    Throughout scene (fun later => Q later ∧ P later) step session := by
  induction h with
  | pure a hsession => exact .pure a ⟨hstart, hsession⟩
  | primitive hstep hsession hafter =>
      exact .primitive hstep ⟨hstart, hsession⟩ ⟨hkept hstep _ hstart, hafter⟩
  | bind _ _ hstep hnext =>
      have hfirst := hstep hstart
      exact .bind hfirst (hnext hfirst.last.1)

/-- Nothing that was recorded before is forgotten. -/
theorem Throughout.keeps (h : Throughout scene P step session) :
    Throughout scene (fun later => session.Keeps later ∧ P later) step session :=
  h.and (fun hstep later hkept => hkept.trans (hstep.keeps later)) (.refl session)

/-- No file is on the chain twice. -/
theorem Throughout.nodup (h : Throughout scene P step session) (hchain : session.chain.Nodup) :
    Throughout scene (fun later => later.chain.Nodup ∧ P later) step session :=
  h.and (fun hstep _ => hstep.nodup_chain) hchain

end Throughout

/-! ### Looking into a module -/

section WithModule

variable {chain : List String} {session : Session}

/-- The file that was entered last is left again. -/
theorem Throughout.leave (hchain : chain ≠ []) {key : String} (h : session.chain = key :: chain)
    (answer : Option α) :
    Throughout scene (Session.Above chain) (do let _ ← leave; return answer) session := by
  have hleft : Session.Above chain (Lookup.leave scene session).2 := by
    rw [leave_run]
    exact Session.above_of_eq (Session.chain_leaving h hchain)
  exact .bind (.primitive .leave (Session.above_of_eq_cons h) hleft) (.pure answer hleft)

/-- Looking into a module only puts files on top of the chain, if what is done there does. -/
theorem Throughout.withModule (hchain : chain ≠ []) (hsession : session.chain = chain)
    {directory : Path} {specifier : String} {action : Module → Lookup (Option α)}
    (haction : ∀ (path : Path) (text : String),
      Throughout scene (Session.Above (path.key :: chain)) (action (.ofText path text))
          (session.entering path) ∧
        (action (.ofText path text) scene (session.entering path)).2.chain = path.key :: chain) :
    Throughout scene (Session.Above chain) (withModule directory specifier action) session := by
  have hhere := Session.above_of_eq hsession
  have hlocated : Session.Above chain (locate directory specifier scene session).2 := by
    rw [locate_run]
    split
    · split
      · exact hhere
      · exact hhere
    · exact hhere
  refine .bind (.primitive (.locate directory specifier) hhere hlocated) ?_
  rw [locate_run]
  by_cases hrelative : isRelative specifier = true
  · rw [if_pos hrelative]
    cases (moduleCandidates directory specifier).find? scene.files.contains with
    | none => exact .pure none hhere
    | some path =>
        simp only
        by_cases hmem : path.key ∈ session.chain
        · -- A file that is being looked into is not entered.
          have hkept : enter path scene session = (false, session) := by
            rw [enter_run, if_pos hmem]
          refine .bind (.primitive (.enter path) hhere (by rwa [hkept])) ?_
          rw [hkept]
          exact .pure none hhere
        · have hchain' : (session.entering path).chain = path.key :: chain := by
            rw [Session.chain_entering, hsession]
          have hentered := Session.above_of_eq_cons hchain'
          have hentering : enter path scene session =
              (true, { session with chain := path.key :: session.chain }) := by
            rw [enter_run, if_neg hmem]
          refine .bind (.primitive (.enter path) hhere (by rwa [hentering])) ?_
          rw [hentering]
          refine .bind (.primitive (.load path) hentered (by rwa [load_run])) ?_
          rw [load_run]
          cases scene.files.read path with
          | error e => exact .bind (.pure none hentered) (.leave hchain hchain' none)
          | ok text =>
              obtain ⟨hinside, hafter⟩ := haction path text
              have hon := hinside.mono fun _ => (List.suffix_cons _ _).trans
              exact .bind hon (.leave hchain hafter _)
  · rw [if_neg hrelative]
    exact .pure none hhere

end WithModule

/-! ### Isolated steps -/

/-- A step that depends on nothing but the chain it starts with and goes back to it.  What it
answers, and whether a search is given up, are the same in all sessions with this chain.  On the way
files are only put on top of the chain. -/
def Isolated (scene : Scene) (chain : List String) (step : Lookup α) : Prop :=
  ∃ answer gaveUp, ∀ session : Session, session.chain = chain →
    (step scene session).1 = answer ∧
    (step scene session).2.gaveUp = (session.gaveUp || gaveUp) ∧
    (step scene session).2.chain = chain ∧
    Throughout scene (Session.Above chain) step session

/-- An action that is isolated wherever it is taken. -/
def IsolatedVisit (scene : Scene) (visit : Visit α) : Prop :=
  ∀ (m : Module) (c : Cursor) (chain : List String), chain ≠ [] → Isolated scene chain (visit m c)

section Isolated

variable {chain : List String}

theorem Isolated.pure (scene : Scene) (chain : List String) (a : α) :
    Isolated scene chain (Pure.pure a) :=
  ⟨a, false, fun _ hchain =>
    ⟨rfl, (Bool.or_false _).symm, hchain, .pure a (Session.above_of_eq hchain)⟩⟩

theorem Isolated.bind {step : Lookup α} {next : α → Lookup β} (h : Isolated scene chain step)
    (hnext : ∀ a, Isolated scene chain (next a)) : Isolated scene chain (step >>= next) := by
  obtain ⟨a, gaveUp, hstep⟩ := h
  obtain ⟨b, gaveUp', hnext⟩ := hnext a
  refine ⟨b, gaveUp || gaveUp', fun session hchain => ?_⟩
  -- The first step gives the chain back, so what comes next starts with it as well.
  obtain ⟨hanswer, hgaveUp, hmiddle, hon⟩ := hstep session hchain
  obtain ⟨hanswer', hgaveUp', hend, hon'⟩ := hnext _ hmiddle
  rw [← hanswer] at hanswer' hgaveUp' hend hon'
  refine ⟨hanswer', ?_, hend, .bind hon hon'⟩
  rw [← Bool.or_assoc, ← hgaveUp]
  exact hgaveUp'

/-- The scene is the same in all sessions. -/
theorem Isolated.read {next : Scene → Lookup α} (h : Isolated scene chain (next scene)) :
    Isolated scene chain (read >>= next) := by
  obtain ⟨answer, gaveUp, hnext⟩ := h
  refine ⟨answer, gaveUp, fun session hchain => ?_⟩
  obtain ⟨hanswer, hgaveUp, hend, hon⟩ := hnext session hchain
  have hhere := Session.above_of_eq hchain
  exact ⟨hanswer, hgaveUp, hend, .bind (.primitive .read hhere hhere) hon⟩

theorem Isolated.giveUp (scene : Scene) (chain : List String) :
    Isolated scene chain Lookup.giveUp := by
  refine ⟨(), true, fun session hchain => ⟨rfl, (Bool.or_true _).symm, hchain, ?_⟩⟩
  have hhere := Session.above_of_eq hchain
  exact .primitive .giveUp hhere hhere

/-- Looking into a module is isolated if what is done there is.  Whether the module is found, can be
read and is not being looked into already depends on the scene and the chain alone. -/
theorem Isolated.withModule (hchain : chain ≠ []) {directory : Path} {specifier : String}
    {action : Module → Lookup (Option α)}
    (haction : ∀ (path : Path) (text : String),
      Isolated scene (path.key :: chain) (action (.ofText path text))) :
    Isolated scene chain (withModule directory specifier action) := by
  have hentered {session : Session} (path : Path) (hsession : session.chain = chain) :
      (session.entering path).chain = path.key :: chain := by
    rw [Session.chain_entering, hsession]
  have hon (session : Session) (hsession : session.chain = chain) :
      Throughout scene (Session.Above chain)
        (Lookup.withModule directory specifier action) session := by
    refine .withModule hchain hsession fun path text => ?_
    obtain ⟨_, _, hinside⟩ := haction path text
    obtain ⟨-, -, hend, hon⟩ := hinside _ (hentered path hsession)
    exact ⟨hon, hend⟩
  by_cases hsome : ∃ path text, Enters scene chain directory specifier path text
  · obtain ⟨path, text, h⟩ := hsome
    obtain ⟨answer, gaveUp, hinside⟩ := haction path text
    refine ⟨answer, gaveUp, fun session hsession => ?_⟩
    obtain ⟨hanswer, hgaveUp, hend, -⟩ := hinside _ (hentered path hsession)
    have hthroughout := hon session hsession
    rw [h.withModule_run action hsession]
    exact ⟨hanswer, by simpa using hgaveUp, Session.chain_leaving hend hchain, hthroughout⟩
  · refine ⟨none, false, fun session hsession => ?_⟩
    obtain ⟨after, hend, hgaveUp, -, hrun⟩ :=
      withModule_run_of_not_enters hchain hsome hsession
    have hthroughout := hon session hsession
    rw [hrun, Bool.or_false]
    exact ⟨rfl, hgaveUp, hend, hthroughout⟩

/-! ### Searches -/

theorem isolated_composes (scene : Scene) :
    StepRelation.Composes fun _ place step _ => Isolated scene place.chain step where
  pure place a := .pure scene place.chain a
  bind h hnext := h.bind hnext

/-- Reaching for a module is isolated if the action is, under any bound. -/
theorem reachWithin_isolated (scene : Scene) (limit : Nat) :
    ReachesRelate (fun _ place step _ => Isolated scene place.chain step)
      (fun place => place.chain ≠ []) (reachWithin (α := α) limit) (reachWithin limit) := by
  induction limit with
  | zero =>
      intro place specifier name exactly visit visit' _ _ _
      exact (Isolated.giveUp scene place.chain).bind fun _ => .pure _ _ none
  | succ limit ih =>
      intro place specifier name exactly visit visit' hchain _ hvisit
      refine .withModule hchain fun path text => ?_
      have hentered : (place.enter path text).chain ≠ [] := List.cons_ne_nil _ _
      exact followExport_relate (isolated_composes scene) ih name exactly hvisit hentered

/-- A search is isolated if its action is. -/
theorem Isolated.follow (hchain : chain ≠ []) {m : Module} {c : Cursor} {visit : Visit α}
    (hvisit : IsolatedVisit scene visit) : Isolated scene chain (Lookup.follow m c visit) := by
  refine .read ?_
  have hvisits : VisitsRelate (fun _ place step _ => Isolated scene place.chain step)
      (fun place => place.chain ≠ []) visit visit :=
    fun place c hplace => hvisit place.script c place.chain hplace
  have hplace : (⟨chain, m⟩ : Place).chain ≠ [] := hchain
  exact followSteps_relate (isolated_composes scene) (reachWithin_isolated scene _) stepLimit c
    hvisits hplace

end Isolated

end Lookup
end NgIndex
