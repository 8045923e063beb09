import Mathlib.Data.List.TakeWhile
import NgIndex.Lookup.Export
import NgIndex.Proofs.Files
import NgIndex.Proofs.Lookup.Session

/-!
# Changes that a session overlooks

A session knows the keys that it watches and the keys on its chain.  A change of the files is
overlooked if it happens at no key that the session knows, and if no file that is new is tried
before one that an import has been followed to.  A step of the analysis that ends in a session which
overlooks a change goes the same way after the change.

This is a statement about two runs of a step, one before the change and one after it.  It is kept
by putting steps one after another, since later sessions know more, and by looking into a module,
since a module that is found is known from then on.
-/

namespace NgIndex

/-- The modules that a script imports from or passes names on from, as it names them. -/
def Script.Module.specifiers (m : Script.Module) : List String :=
  m.imports.map (fun binding => binding.2.source) ++
    m.exports.filterMap fun statement => (statement.child? .source).bind m.literalAt?

/-! ### Overlooked changes -/

/-- The modules that were read: the one at the start, and those at known keys. -/
def HasRead (files : Files) (known : String → Prop) (home m : Script.Module) : Prop :=
  m = home ∨ ∃ path text, known path.key ∧ files.read path = .ok text ∧ m = .ofText path text

/-- The paths at which a module is looked for in vain before it is found. -/
def triedInVain (files : Files) (directory : Path) (specifier : String) : List Path :=
  (moduleCandidates directory specifier).takeWhile fun path => !files.contains path

/-- A path that is tried, where a module that was read names another one, before the known file that
is found. -/
def Overtakes (files : Files) (known : String → Prop) (home : Script.Module) (new : Path) : Prop :=
  ∃ m, HasRead files known home m ∧ ∃ specifier ∈ m.specifiers, isRelative specifier = true ∧
    new ∈ triedInVain files m.directory specifier ∧
    ∃ old : Path, known old.key ∧
      (moduleCandidates m.directory specifier).find? files.contains = some old

section Known

variable {files : Files} {known known' : String → Prop} {home m : Script.Module}

theorem HasRead.mono (h : HasRead files known home m) (hknown : ∀ key, known key → known' key) :
    HasRead files known' home m := by
  rcases h with rfl | ⟨path, text, hpath, hread, rfl⟩
  · exact .inl rfl
  · exact .inr ⟨path, text, hknown _ hpath, hread, rfl⟩

theorem Overtakes.mono {new : Path} (h : Overtakes files known home new)
    (hknown : ∀ key, known key → known' key) : Overtakes files known' home new := by
  obtain ⟨m, hm, specifier, hspecifier, hrelative, hnew, old, hold, hfind⟩ := h
  exact ⟨m, hm.mono hknown, specifier, hspecifier, hrelative, hnew, old, hknown _ hold, hfind⟩

/-- A file that appears where a module was looked for in vain is found in the place of the one that
was found. -/
theorem find?_ne_of_mem_triedInVain {altered : Files} {directory new old : Path}
    {specifier : String}
    (hnew : new ∈ triedInVain files directory specifier) (hcreated : altered.contains new = true)
    (hfind : (moduleCandidates directory specifier).find? files.contains = some old) :
    (moduleCandidates directory specifier).find? altered.contains ≠ some old := by
  have hfirst : ∃ path,
      (triedInVain files directory specifier).find? altered.contains = some path :=
    Option.isSome_iff_exists.mp (List.find?_isSome.mpr ⟨new, hnew, hcreated⟩)
  obtain ⟨path, hpath⟩ := hfirst
  have hsplit : moduleCandidates directory specifier = triedInVain files directory specifier ++
      (moduleCandidates directory specifier).dropWhile fun path => !files.contains path :=
    List.takeWhile_append_dropWhile.symm
  have hfound : (moduleCandidates directory specifier).find? altered.contains = some path := by
    rw [hsplit, List.find?_append, hpath, Option.some_or]
  have hmissing : files.contains path = false := by
    simpa using List.mem_takeWhile_imp (List.mem_of_find?_eq_some hpath)
  rw [hfound]
  intro hsame
  rw [Option.some.inj hsame, List.find?_some hfind] at hmissing
  cases hmissing

end Known

/-- A project, the files after a change, and the module that an analysis starts with. -/
structure Change where
  scene : Scene
  altered : Files
  home : Script.Module

namespace Change

/-- The project after the change. -/
def after (change : Change) : Scene :=
  { change.scene with files := change.altered }

@[simp] theorem files_after (change : Change) : change.after.files = change.altered := rfl

/-- Where nothing changes. -/
def still (scene : Scene) (home : Script.Module) : Change :=
  ⟨scene, scene.files, home⟩

/-- The session gives no sign of the change: nothing differs at a key that it knows, and where a
file is new, no import leads to it. -/
def Overlooked (change : Change) (session : Session) : Prop :=
  ∀ path : Path, change.altered.content? path ≠ change.scene.files.content? path →
    ¬session.Knows path.key ∧
      (change.scene.files.contains path = true ∨
        ¬Overtakes change.scene.files session.Knows change.home path)

theorem overlooked_still (scene : Scene) (home : Script.Module) (session : Session) :
    (still scene home).Overlooked session :=
  fun _ h => absurd rfl h

namespace Overlooked

variable {change : Change} {session : Session}

theorem mono (h : change.Overlooked session) (earlier : Session)
    (hknows : ∀ key, earlier.Knows key → session.Knows key) : change.Overlooked earlier := by
  intro path hpath
  obtain ⟨hunknown, hnew⟩ := h path hpath
  exact ⟨fun hknown => hunknown (hknows _ hknown),
    hnew.imp id fun hnew hovertakes => hnew (hovertakes.mono hknows)⟩

/-- Leaving a file that was loaded forgets nothing. -/
theorem of_leaving {key : String} {chain : List String} (h : change.Overlooked session.leaving)
    (hsession : session.chain = key :: chain) (hloaded : key ∈ session.watched)
    (hchain : chain ≠ []) : change.Overlooked session := by
  refine h.mono session fun other hother => ?_
  rcases hother with hother | hother
  · exact .inl (by rwa [Session.watched_leaving])
  · rw [hsession] at hother
    rcases List.mem_cons.mp hother with rfl | hother
    · exact .inl (by rwa [Session.watched_leaving])
    · exact .inr (by rwa [Session.chain_leaving hsession hchain])

theorem content?_eq (h : change.Overlooked session) {path : Path}
    (hknown : session.Knows path.key) :
    change.altered.content? path = change.scene.files.content? path := by
  by_contra hpath
  exact (h path hpath).1 hknown

theorem contains_eq (h : change.Overlooked session) {path : Path}
    (hknown : session.Knows path.key) :
    change.altered.contains path = change.scene.files.contains path := by
  rw [Files.contains_eq_isSome_content?, Files.contains_eq_isSome_content?, h.content?_eq hknown]

/-- Where a text was read at a known key, it is read after the change. -/
theorem read_eq_ok (h : change.Overlooked session) {path : Path}
    (hknown : session.Knows path.key) {text : String}
    (hread : change.scene.files.read path = .ok text) : change.altered.read path = .ok text := by
  rcases Files.read_eq_or_error (h.content?_eq hknown) with
    ⟨text', hmine, hother⟩ | ⟨e, -, hmine, -⟩
  · rw [hread] at hmine
    rw [hother, ← hmine]
  · rw [hread] at hmine
    cases hmine

theorem read_eq_error (h : change.Overlooked session) {path : Path}
    (hknown : session.Knows path.key) {error : ReadError}
    (hread : change.scene.files.read path = .error error) :
    ∃ error', change.altered.read path = .error error' := by
  rcases Files.read_eq_or_error (h.content?_eq hknown) with
    ⟨text, hmine, -⟩ | ⟨-, error', -, hother⟩
  · rw [hread] at hmine
    cases hmine
  · exact ⟨error', hother⟩

/-- The known file that an import leads to is what it leads to after the change. -/
theorem find?_eq_some (h : change.Overlooked session) {m : Script.Module}
    (hm : HasRead change.scene.files session.Knows change.home m) {specifier : String}
    (hspecifier : specifier ∈ m.specifiers) (hrelative : isRelative specifier = true) {path : Path}
    (hfind : (moduleCandidates m.directory specifier).find? change.scene.files.contains = some path)
    (hknown : session.Knows path.key) :
    (moduleCandidates m.directory specifier).find? change.altered.contains = some path := by
  have hfound := hfind
  rw [List.find?_eq_some_iff_append] at hfind ⊢
  obtain ⟨hpath, before, after, hsplit, hbefore⟩ := hfind
  refine ⟨by rwa [h.contains_eq hknown], before, after, hsplit, fun new hnew => ?_⟩
  have hmissing : change.scene.files.contains new = false := by simpa using hbefore new hnew
  rw [Bool.not_eq_true']
  by_contra hnewly
  have hcontent : change.altered.content? new ≠ change.scene.files.content? new := by
    intro heq
    rw [Files.contains_eq_isSome_content?, heq, ← Files.contains_eq_isSome_content?] at hnewly
    exact hnewly hmissing
  rcases (h new hcontent).2 with hold | hovertakes
  · rw [hmissing] at hold
    cases hold
  · have htried : new ∈ triedInVain change.scene.files m.directory specifier := by
      rw [triedInVain, hsplit, List.takeWhile_append_of_pos hbefore]
      exact List.mem_append_left _ hnew
    exact hovertakes ⟨m, hm, specifier, hspecifier, hrelative, htried, path, hknown, hfound⟩

/-- Where nothing is found and this is known, nothing is found after the change. -/
theorem find?_eq_none (h : change.Overlooked session) {paths : List Path}
    (hfind : paths.find? change.scene.files.contains = none)
    (hknown : ∀ path ∈ paths, session.Knows path.key) :
    paths.find? change.altered.contains = none := by
  rw [List.find?_eq_none] at hfind ⊢
  intro path hpath
  rw [h.contains_eq (hknown path hpath)]
  exact hfind path hpath

end Overlooked
end Change

/-! ### Steps -/

/-- Where an analysis is: the keys of the files that are being looked into, and the module that was
entered last. -/
structure Place where
  chain : List String
  script : Script.Module

/-- The place at which the analysis of a script starts. -/
def Place.first (origin : Path) (text : String) : Place :=
  ⟨[origin.key], .ofText origin text⟩

/-- The place after a file was entered. -/
def Place.enter (place : Place) (path : Path) (text : String) : Place :=
  ⟨path.key :: place.chain, .ofText path text⟩

/-- The module of the place is the one at the start, or was read from a file on the chain. -/
def Place.IsRead (place : Place) (files : Files) (home : Script.Module) : Prop :=
  HasRead files (· ∈ place.chain) home place.script

namespace Lookup

variable {α β : Type}

/-- A step that goes back to the chain it started with and forgets no key that was watched. -/
def Keeps (scene : Scene) (chain : List String) (step : Lookup α) : Prop :=
  ∀ session : Session, session.chain = chain →
    (step scene session).2.chain = chain ∧
      ∀ key ∈ session.watched, key ∈ (step scene session).2.watched

/-- Two steps, one before a change of the files and one after it, that do the same at a place if the
change is overlooked in the end. -/
structure Tracks (change : Change) (place : Place) (before after : Lookup α) : Prop where
  keeps : Keeps change.scene place.chain before
  keeps_after : Keeps change.after place.chain after
  agrees : place.IsRead change.scene.files change.home →
    ∀ session : Session, session.chain = place.chain →
      change.Overlooked (before change.scene session).2 →
        after change.after session = before change.scene session

theorem Keeps.knows {scene : Scene} {chain : List String} {step : Lookup α}
    (h : Keeps scene chain step) {session : Session} (hchain : session.chain = chain) {key : String}
    (hkey : session.Knows key) : (step scene session).2.Knows key := by
  obtain ⟨hafter, hwatched⟩ := h session hchain
  rcases hkey with hkey | hkey
  · exact .inl (hwatched key hkey)
  · rw [hchain] at hkey
    exact .inr (by rwa [hafter])

theorem Keeps.pure (scene : Scene) (chain : List String) (a : α) :
    Keeps scene chain (Pure.pure a) :=
  fun _ hchain => ⟨hchain, fun _ hkey => hkey⟩

theorem Keeps.bind {scene : Scene} {chain : List String} {step : Lookup α} {next : α → Lookup β}
    (h : Keeps scene chain step) (hnext : ∀ a, Keeps scene chain (next a)) :
    Keeps scene chain (step >>= next) := by
  intro session hchain
  obtain ⟨hmiddle, hwatched⟩ := h session hchain
  obtain ⟨hend, hwatched'⟩ := hnext (step scene session).1 (step scene session).2 hmiddle
  exact ⟨hend, fun key hkey => hwatched' key (hwatched key hkey)⟩

section Tracks

variable {change : Change} {place : Place}

theorem Tracks.pure (a : α) : Tracks change place (Pure.pure a) (Pure.pure a) where
  keeps := Keeps.pure _ _ a
  keeps_after := Keeps.pure _ _ a
  agrees _ _ _ _ := rfl

theorem Tracks.bind {before after : Lookup α} {next next' : α → Lookup β}
    (h : Tracks change place before after) (hnext : ∀ a, Tracks change place (next a) (next' a)) :
    Tracks change place (before >>= next) (after >>= next') where
  keeps := h.keeps.bind fun a => (hnext a).keeps
  keeps_after := h.keeps_after.bind fun a => (hnext a).keeps_after
  agrees hread session hchain hoverlooked := by
    have hmiddle := (h.keeps session hchain).1
    have hrest := hnext (before change.scene session).1
    -- What the second step knows at its end contains what the first one knew at its own.
    have hfirst : change.Overlooked (before change.scene session).2 :=
      hoverlooked.mono _ fun key hkey => hrest.keeps.knows hmiddle hkey
    have hsame := h.agrees hread session hchain hfirst
    change next' (after _ session).1 _ (after _ session).2 = next (before _ session).1 _ _
    rw [hsame]
    exact hrest.agrees hread _ hmiddle hoverlooked

theorem Tracks.giveUp : Tracks change place Lookup.giveUp Lookup.giveUp where
  keeps _ hchain := ⟨hchain, fun _ hkey => hkey⟩
  keeps_after _ hchain := ⟨hchain, fun _ hkey => hkey⟩
  agrees _ _ _ _ := rfl

/-- A step that keeps its chain does the same as itself where nothing changes. -/
theorem Keeps.tracks {scene : Scene} {step : Lookup α} (h : Keeps scene place.chain step)
    (home : Script.Module) : Tracks (.still scene home) place step step where
  keeps := h
  keeps_after := h
  agrees _ _ _ _ := rfl

theorem Tracks.congr {before before' after after' : Lookup α}
    (h : Tracks change place before after) (hbefore : before' change.scene = before change.scene)
    (hafter : after' change.after = after change.after) : Tracks change place before' after' where
  keeps session hchain := by
    rw [hbefore]
    exact h.keeps session hchain
  keeps_after session hchain := by
    rw [hafter]
    exact h.keeps_after session hchain
  agrees hread session hchain hoverlooked := by
    rw [hbefore] at hoverlooked ⊢
    rw [hafter]
    exact h.agrees hread session hchain hoverlooked

/-- Steps that do the same before a change, over the change, and after it. -/
theorem Tracks.trans {before middle middle' after : Lookup α}
    (hbefore : Tracks (.still change.scene change.home) place before middle)
    (hmiddle : Tracks change place middle middle')
    (hafter : Tracks (.still change.after change.home) place middle' after) :
    Tracks change place before after where
  keeps := hbefore.keeps
  keeps_after := hafter.keeps_after
  agrees hread session hchain hoverlooked := by
    have hfirst : middle change.scene session = before change.scene session :=
      hbefore.agrees hread session hchain (Change.overlooked_still _ _ _)
    have hsecond : middle' change.after session = middle change.scene session :=
      hmiddle.agrees hread session hchain (by rwa [hfirst])
    -- The module of the place was read from a file that is known, so it is read again.
    have hreread : place.IsRead change.altered change.home := by
      rcases hread with hhome | ⟨path, text, hpath, hread, hscript⟩
      · exact .inl hhome
      · have hend : (before change.scene session).2.chain = place.chain :=
          (hbefore.keeps session hchain).1
        exact .inr ⟨path, text, hpath, hoverlooked.read_eq_ok (.inr (hend ▸ hpath)) hread, hscript⟩
    have hthird : after change.after session = middle' change.after session :=
      hafter.agrees hreread session hchain (Change.overlooked_still _ _ _)
    rw [hthird, hsecond, hfirst]

end Tracks

/-! ### Looking into a module -/

section WithModule

variable {change : Change} {place : Place} {specifier : String}
  {action action' : Script.Module → Lookup (Option α)}

theorem Keeps.withModule {scene : Scene} {chain : List String} {directory : Path}
    (hchain : chain ≠ [])
    (haction : ∀ (path : Path) (text : String), isRelative specifier = true →
      path ∈ moduleCandidates directory specifier → scene.files.contains path = true →
      path.key ∉ chain → Keeps scene (path.key :: chain) (action (.ofText path text))) :
    Keeps scene chain (withModule directory specifier action) := by
  intro session hsession
  by_cases hentered : ∃ path text, Enters scene chain directory specifier path text
  · obtain ⟨path, text, h⟩ := hentered
    have hinside : (session.entering path).chain = path.key :: chain := by
      rw [Session.chain_entering, hsession]
    obtain ⟨hend, hgrown⟩ :=
      haction path text h.relative h.candidate h.contains h.fresh _ hinside
    rw [h.withModule_run action hsession]
    refine ⟨Session.chain_leaving hend hchain, fun key hkey => ?_⟩
    rw [Session.watched_leaving]
    exact hgrown key (Session.mem_watched_entering.mpr (.inl hkey))
  · obtain ⟨after, hend, -, hgrown, hrun⟩ :=
      withModule_run_of_not_enters (α := α) hchain hentered hsession
    rw [hrun]
    exact ⟨hend, hgrown⟩

/-- Looking into a module that the script of the place names tracks a change if what is done there
does. -/
theorem Tracks.withModule (hchain : place.chain ≠ [])
    (hspecifier : specifier ∈ place.script.specifiers)
    (haction : ∀ (path : Path) (text : String), isRelative specifier = true →
      path ∈ moduleCandidates place.script.directory specifier →
      change.scene.files.contains path = true ∨ change.altered.contains path = true →
      path.key ∉ place.chain →
      Tracks change (place.enter path text) (action (.ofText path text))
        (action' (.ofText path text))) :
    Tracks change place (withModule place.script.directory specifier action)
      (withModule place.script.directory specifier action') where
  keeps := Keeps.withModule hchain fun path text hrelative hmem hpath hfresh =>
    (haction path text hrelative hmem (.inl hpath) hfresh).keeps
  keeps_after := Keeps.withModule hchain fun path text hrelative hmem hpath hfresh =>
    (haction path text hrelative hmem (.inr hpath) hfresh).keeps_after
  agrees hread session hsession hoverlooked := by
    rw [withModule_run] at hoverlooked
    rw [withModule_run, withModule_run]
    have hscript {later : Session} (hlater : ∀ key ∈ session.chain, later.Knows key) :
        HasRead change.scene.files later.Knows change.home place.script :=
      hread.mono fun key hkey => hlater key (hsession ▸ hkey)
    by_cases hrelative : isRelative specifier = true
    · rw [if_pos hrelative] at hoverlooked
      rw [if_pos hrelative, if_pos hrelative]
      cases hfind : (moduleCandidates place.script.directory specifier).find?
          change.scene.files.contains with
      | none =>
          -- Every path that was tried is watched, so none of them has appeared.
          rw [hfind] at hoverlooked
          have hnone := hoverlooked.find?_eq_none hfind fun path hpath =>
            .inl (Session.mem_watched_missing.mpr (.inr ⟨path, hpath, rfl⟩))
          simp only [Change.files_after, hnone]
      | some path =>
          rw [hfind] at hoverlooked
          simp only at hoverlooked
          by_cases hmem : path.key ∈ session.chain
          · -- A file on the chain is known without being watched; it is not entered again.
            rw [if_pos hmem] at hoverlooked
            have hsome := hoverlooked.find?_eq_some (hscript fun _ hkey => .inr hkey) hspecifier
              hrelative hfind (.inr hmem)
            simp only [Change.files_after, hsome, if_pos hmem]
          · rw [if_neg hmem] at hoverlooked
            have hentered : (session.entering path).chain = path.key :: place.chain := by
              rw [Session.chain_entering, hsession]
            have hloaded : path.key ∈ (session.entering path).watched :=
              Session.mem_watched_entering.mpr (.inr rfl)
            cases hpath : change.scene.files.read path with
            | error e =>
                rw [hpath] at hoverlooked
                simp only at hoverlooked
                have hleft := Session.chain_leaving hentered hchain
                have hknown : (session.entering path).leaving.Knows path.key :=
                  .inl (by simpa using hloaded)
                have hsome := hoverlooked.find?_eq_some
                  (hscript fun key hkey => .inr (by rwa [hleft, ← hsession])) hspecifier hrelative
                  hfind hknown
                obtain ⟨e', hpath'⟩ := hoverlooked.read_eq_error hknown hpath
                simp only [Change.files_after, hsome, if_neg hmem, hpath', hpath]
            | ok text =>
                -- What is overlooked at the end is overlooked inside the module as well, since
                -- the session there watches no more than the one at the end.
                rw [hpath] at hoverlooked
                simp only at hoverlooked
                have htracks := haction path text hrelative (List.mem_of_find?_eq_some hfind)
                  (.inl (List.find?_some hfind)) (hsession ▸ hmem)
                obtain ⟨hend, hgrown⟩ := htracks.keeps _ hentered
                have hleft := Session.chain_leaving hend hchain
                have hknown : (action (.ofText path text) change.scene
                    (session.entering path)).2.leaving.Knows path.key :=
                  .inl (by simpa using hgrown _ hloaded)
                have hsome := hoverlooked.find?_eq_some
                  (hscript fun key hkey => .inr (by rwa [hleft, ← hsession])) hspecifier hrelative
                  hfind hknown
                have hpath' := hoverlooked.read_eq_ok hknown hpath
                have hinner := hoverlooked.of_leaving hend (hgrown _ hloaded) hchain
                have hentry : (place.enter path text).IsRead change.scene.files change.home :=
                  .inr ⟨path, text, List.mem_cons_self, hpath, rfl⟩
                have hsame := htracks.agrees hentry _ hentered hinner
                simp only [Change.files_after, hsome, if_neg hmem, hpath', hpath, hsame]
    · rw [if_neg hrelative, if_neg hrelative]

end WithModule

end Lookup
end NgIndex
