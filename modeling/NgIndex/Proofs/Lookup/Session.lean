import NgIndex.Lookup.Session
import NgIndex.Proofs.KeyMap

/-!
# What steps do to a session

The steps by which a module is looked for, entered, loaded and left, each as a change of the
session, and which keys the session watches after them.
-/

namespace NgIndex

namespace Session

theorem mem_watched_iff {session : Session} {key : String} :
    key ∈ session.watched ↔
      session.missed.contains key = true ∨ session.loaded.contains key = true := by
  rw [watched, KeyMap.mem_keys_iff, KeyMap.contains_foldl_insert fun key => key,
    exists_eq_right, KeyMap.mem_keys_iff]

/-- A key that the session watches, or that is on its chain. -/
def Knows (session : Session) (key : String) : Prop :=
  key ∈ session.watched ∨ key ∈ session.chain

/-- The session after some paths were looked for in vain. -/
def missing (session : Session) (paths : List Path) : Session :=
  { session with
    missed := paths.foldl (fun missed path => missed.insert path.key ()) session.missed }

/-- The session in which a file was entered and loaded. -/
def entering (session : Session) (path : Path) : Session :=
  { session with
    chain := path.key :: session.chain
    loaded := session.loaded.insert path.key path }

/-- The session in which the file entered last was left. -/
def leaving (session : Session) : Session :=
  match session.chain with
  | _ :: first :: rest => { session with chain := first :: rest }
  | _ => session

@[simp] theorem chain_entering (session : Session) (path : Path) :
    (session.entering path).chain = path.key :: session.chain := rfl

@[simp] theorem gaveUp_missing (session : Session) (paths : List Path) :
    (session.missing paths).gaveUp = session.gaveUp := rfl

@[simp] theorem gaveUp_entering (session : Session) (path : Path) :
    (session.entering path).gaveUp = session.gaveUp := rfl

@[simp] theorem gaveUp_leaving (session : Session) :
    session.leaving.gaveUp = session.gaveUp := by
  unfold leaving
  split
  · rfl
  · rfl

@[simp] theorem watched_leaving (session : Session) :
    session.leaving.watched = session.watched := by
  unfold leaving
  split
  · rfl
  · rfl

theorem chain_leaving {session : Session} {key : String} {chain : List String}
    (h : session.chain = key :: chain) (hchain : chain ≠ []) : session.leaving.chain = chain := by
  unfold leaving
  cases chain with
  | nil => exact absurd rfl hchain
  | cons first rest => simp [h]

theorem mem_watched_missing {session : Session} {paths : List Path} {key : String} :
    key ∈ (session.missing paths).watched ↔
      key ∈ session.watched ∨ ∃ path ∈ paths, path.key = key := by
  rw [mem_watched_iff, mem_watched_iff, missing, KeyMap.contains_foldl_insert Path.key]
  exact or_right_comm

theorem mem_watched_entering {session : Session} {path : Path} {key : String} :
    key ∈ (session.entering path).watched ↔ key ∈ session.watched ∨ path.key = key := by
  rw [mem_watched_iff, mem_watched_iff, entering, KeyMap.contains_insert, Bool.or_eq_true_iff,
    decide_eq_true_iff, or_assoc, or_comm (a := path.key = key)]

end Session

namespace Lookup

variable {α β : Type}

theorem bind_run (step : Lookup α) (next : α → Lookup β) (scene : Scene) (session : Session) :
    (step >>= next) scene session =
      next (step scene session).1 scene (step scene session).2 := rfl

theorem read_run (scene : Scene) (session : Session) :
    (read : Lookup Scene) scene session = (scene, session) := rfl

theorem modify_run (f : Session → Session) (scene : Scene) (session : Session) :
    (modify f : Lookup PUnit) scene session = ((), f session) := rfl

theorem locate_run (directory : Path) (specifier : String) (scene : Scene) (session : Session) :
    locate directory specifier scene session =
      if isRelative specifier = true then
        match (moduleCandidates directory specifier).find? scene.files.contains with
        | none => (none, session.missing (moduleCandidates directory specifier))
        | some path => (some path, session)
      else (none, session) := by
  unfold locate
  cases isRelative specifier with
  | false => rfl
  | true =>
      rw [if_neg (by simp), if_pos rfl, bind_run, read_run]
      cases (moduleCandidates directory specifier).find? scene.files.contains with
      | none => rfl
      | some path => rfl

theorem enter_run (path : Path) (scene : Scene) (session : Session) :
    enter path scene session =
      if path.key ∈ session.chain then (false, session)
      else (true, { session with chain := path.key :: session.chain }) := by
  unfold enter
  rw [bind_run]
  change (if session.chain.contains path.key = true then (Pure.pure false : Lookup Bool) else _)
    scene session = _
  by_cases h : path.key ∈ session.chain
  · rw [if_pos h, if_pos (by simpa using h)]
    rfl
  · rw [if_neg h, if_neg (by simpa using h)]
    rfl

theorem leave_run (scene : Scene) (session : Session) :
    (leave scene session).2 = session.leaving := by
  obtain ⟨chain, loaded, missed⟩ := session
  match chain with
  | [] => rfl
  | [_] => rfl
  | _ :: _ :: _ => rfl

theorem load_run (path : Path) (scene : Scene) (session : Session) :
    load path scene session =
      ((scene.files.read path).toOption.map (Script.Module.ofText path),
        { session with loaded := session.loaded.insert path.key path }) := by
  unfold load
  rw [bind_run, bind_run, modify_run, read_run]
  cases scene.files.read path with
  | error error => rfl
  | ok text => rfl

/-- What looking into a module does to a session: it records a failed search, stops at a file that
is on the chain, or enters, loads and leaves the file that is found. -/
theorem withModule_run (directory : Path) (specifier : String)
    (action : Script.Module → Lookup (Option α)) (scene : Scene) (session : Session) :
    withModule directory specifier action scene session =
      if isRelative specifier = true then
        match (moduleCandidates directory specifier).find? scene.files.contains with
        | none => (none, session.missing (moduleCandidates directory specifier))
        | some path =>
            if path.key ∈ session.chain then (none, session)
            else
              match scene.files.read path with
              | .error _ => (none, (session.entering path).leaving)
              | .ok text =>
                  let result := action (.ofText path text) scene (session.entering path)
                  (result.1, result.2.leaving)
      else (none, session) := by
  unfold withModule
  rw [bind_run, locate_run]
  by_cases hrelative : isRelative specifier = true
  · rw [if_pos hrelative, if_pos hrelative]
    cases (moduleCandidates directory specifier).find? scene.files.contains with
    | none => rfl
    | some path =>
        simp only
        rw [bind_run, enter_run]
        by_cases hchain : path.key ∈ session.chain
        · rw [if_pos hchain, if_pos hchain]
          rfl
        · rw [if_neg hchain, if_neg hchain]
          simp only [Bool.not_true, Bool.false_eq_true, if_false]
          rw [bind_run, load_run]
          cases scene.files.read path with
          | error e =>
              change (none, (leave scene (session.entering path)).2) = _
              rw [leave_run]
          | ok text =>
              change ((action _ scene (session.entering path)).1,
                (leave scene (action _ scene (session.entering path)).2).2) = _
              rw [leave_run]
  · rw [if_neg hrelative, if_neg hrelative]
    rfl

/-! ### Whether a module is entered -/

/-- A file is entered for a specifier: it is the first one found, it is not among the files that are
being looked into, and it can be read. -/
structure Enters (scene : Scene) (chain : List String) (directory : Path) (specifier : String)
    (path : Path) (text : String) : Prop where
  relative : isRelative specifier = true
  found : (moduleCandidates directory specifier).find? scene.files.contains = some path
  fresh : path.key ∉ chain
  read : scene.files.read path = .ok text

section Enters

variable {scene : Scene} {chain : List String} {directory path : Path} {specifier text : String}
  {session : Session}

theorem Enters.candidate (h : Enters scene chain directory specifier path text) :
    path ∈ moduleCandidates directory specifier :=
  List.mem_of_find?_eq_some h.found

theorem Enters.contains (h : Enters scene chain directory specifier path text) :
    scene.files.contains path = true :=
  List.find?_some h.found

/-- What is done in a file that is entered is done with the file on the chain, and then the file is
left. -/
theorem Enters.withModule_run (h : Enters scene chain directory specifier path text)
    (action : Script.Module → Lookup (Option α)) (hsession : session.chain = chain) :
    withModule directory specifier action scene session =
      ((action (.ofText path text) scene (session.entering path)).1,
        (action (.ofText path text) scene (session.entering path)).2.leaving) := by
  rw [Lookup.withModule_run, if_pos h.relative, h.found]
  simp only [hsession, if_neg h.fresh, h.read]

/-- Where no file is entered there is no answer, whatever would be done in one, and the session
afterwards differs from the one before in what it has recorded alone. -/
theorem withModule_run_of_not_enters (hchain : chain ≠ [])
    (h : ¬ ∃ path text, Enters scene chain directory specifier path text)
    (hsession : session.chain = chain) :
    ∃ after : Session, after.chain = chain ∧ after.gaveUp = session.gaveUp ∧
      (∀ key ∈ session.watched, key ∈ after.watched) ∧
      ∀ action : Script.Module → Lookup (Option α),
        withModule directory specifier action scene session = (none, after) := by
  by_cases hrelative : isRelative specifier = true
  · cases hfind : (moduleCandidates directory specifier).find? scene.files.contains with
    | none =>
        refine ⟨session.missing (moduleCandidates directory specifier), hsession, rfl,
          fun key hkey => Session.mem_watched_missing.mpr (.inl hkey), fun action => ?_⟩
        rw [withModule_run, if_pos hrelative, hfind]
    | some path =>
        by_cases hmem : path.key ∈ session.chain
        · refine ⟨session, hsession, rfl, fun _ hkey => hkey, fun action => ?_⟩
          rw [withModule_run, if_pos hrelative, hfind]
          exact if_pos hmem
        · cases hread : scene.files.read path with
          | ok text => exact absurd ⟨path, text, hrelative, hfind, hsession ▸ hmem, hread⟩ h
          | error e =>
              have hentered : (session.entering path).chain = path.key :: chain := by
                rw [Session.chain_entering, hsession]
              refine ⟨(session.entering path).leaving, Session.chain_leaving hentered hchain,
                by simp, fun key hkey => ?_, fun action => ?_⟩
              · rw [Session.watched_leaving]
                exact Session.mem_watched_entering.mpr (.inl hkey)
              · rw [withModule_run, if_pos hrelative, hfind]
                simp only [if_neg hmem, hread]
  · refine ⟨session, hsession, rfl, fun _ hkey => hkey, fun action => ?_⟩
    rw [withModule_run, if_neg hrelative]

end Enters

end Lookup
end NgIndex
