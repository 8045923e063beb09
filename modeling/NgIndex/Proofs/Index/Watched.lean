import NgIndex.Proofs.Analysis.Stable

/-!
# What the analysis of a script watches

The analysis of a script says which keys it watches.  Files at other keys can change or go, and
neither the result nor what is watched changes.  So every file that counted is watched.

Files that are not there are watched only where a module was not found at all.  A module that is
found may be looked for at other paths before, and these are not watched: a file that appears there
takes the place of the one that was found.  Files that appear anywhere else change nothing.
-/

namespace NgIndex

open Lookup

/-- The analyses of scripts. -/
inductive ScriptAnalysis where
  | components
  | controllers
  | directives
  | routes
  deriving DecidableEq, Repr

/-- What the analysis of a file leaves: what was asked for, the files that were loaded, and the keys
that are watched. -/
structure Outcome (α : Type) where
  result : α
  dependencies : List Path
  watched : List String

namespace ScriptAnalysis

/-- What an analysis gives. -/
def Result : ScriptAnalysis → Type
  | .components => Except Analysis.Unsupported (List Component)
  | .controllers => List Controller
  | .directives => List Directive
  | .routes => List Route

/-- The steps of an analysis. -/
def analyse : (analysis : ScriptAnalysis) → Script.Module → Lookup analysis.Result
  | .components => Analysis.components
  | .controllers => Analysis.controllers
  | .directives => Analysis.directives
  | .routes => Analysis.routes

/-- The analysis of the text of a file. -/
def outcome (analysis : ScriptAnalysis) (scene : Scene) (origin : Path) (text : String) :
    Outcome analysis.Result :=
  let (result, session) := (analysis.analyse (.ofText origin text) scene).run (.start origin)
  { result, dependencies := session.dependencies, watched := session.watched }

theorem stable_analyse (analysis : ScriptAnalysis) (m : Script.Module) :
    Stable m (analysis.analyse m) := by
  cases analysis with
  | components => exact (Analysis.composed_components m).stable
  | controllers => exact (Analysis.composed_controllers m).stable
  | directives => exact Analysis.stable_directives m
  | routes => exact (Analysis.composed_routes m).stable

/-- The keys that are watched after an analysis, and that of the file itself. -/
def Knows (analysis : ScriptAnalysis) (scene : Scene) (origin : Path) (text : String)
    (key : String) : Prop :=
  key ∈ (analysis.outcome scene origin text).watched ∨ key = origin.key

section Outcome

variable {analysis : ScriptAnalysis} {scene : Scene} {origin : Path} {text : String}

theorem session_knows_iff {key : String} :
    (analysis.analyse (.ofText origin text) scene (.start origin)).2.Knows key ↔
      analysis.Knows scene origin text key := by
  have htracks := stable_analyse analysis (.ofText origin text) (.still scene (.ofText origin text))
    ⟨[origin.key], .ofText origin text⟩ rfl (List.cons_ne_nil _ _)
  have hchain : (analysis.analyse (.ofText origin text) scene (.start origin)).2.chain =
      [origin.key] :=
    (htracks.keeps (.start origin) rfl).1
  unfold Session.Knows Knows
  rw [hchain, List.mem_singleton]
  rfl

/-- An analysis has the same outcome after a change that it overlooks. -/
theorem outcome_eq_of_overlooked {altered : Files}
    (h : ∀ path : Path, altered.content? path ≠ scene.files.content? path →
      ¬analysis.Knows scene origin text path.key ∧
        (scene.files.contains path = true ∨
          ¬Overtakes scene.files (analysis.Knows scene origin text) (.ofText origin text) path)) :
    analysis.outcome { scene with files := altered } origin text =
      analysis.outcome scene origin text := by
  let change : Change := ⟨scene, altered, .ofText origin text⟩
  have htracks := stable_analyse analysis (.ofText origin text) change
    ⟨[origin.key], .ofText origin text⟩ rfl (List.cons_ne_nil _ _)
  -- What the search came to know is what is watched, up to the file itself.
  have hoverlooked : change.Overlooked
      (analysis.analyse (.ofText origin text) scene (.start origin)).2 := by
    intro path hpath
    obtain ⟨hunknown, hnew⟩ := h path hpath
    exact ⟨fun hknown => hunknown (session_knows_iff.mp hknown),
      hnew.imp id fun hnew hovertakes => hnew (hovertakes.mono fun _ => session_knows_iff.mp)⟩
  have hsame := htracks.agrees (.inl rfl) (.start origin) rfl hoverlooked
  unfold outcome
  change analysis.analyse (.ofText origin text) { scene with files := altered } (.start origin) =
    analysis.analyse (.ofText origin text) scene (.start origin) at hsame
  simp only [StateT.run, hsame]

end Outcome
end ScriptAnalysis

/-- Files that are not watched count for nothing: whatever is put in their place, or if they are
taken away, the analysis has the same result, loads the same files and watches the same keys. -/
theorem outcome_eq_of_unwatched_edits (analysis : ScriptAnalysis) (scene : Scene) (origin : Path)
    (text : String) (altered : Files)
    (hedits : ∀ path : Path, altered.content? path ≠ scene.files.content? path →
      scene.files.contains path = true ∧
        path.key ∉ (analysis.outcome scene origin text).watched ∧ path.key ≠ origin.key) :
    analysis.outcome { scene with files := altered } origin text =
      analysis.outcome scene origin text := by
  refine ScriptAnalysis.outcome_eq_of_overlooked fun path hpath => ?_
  obtain ⟨hexists, hwatched, horigin⟩ := hedits path hpath
  exact ⟨not_or.mpr ⟨hwatched, horigin⟩, .inl hexists⟩

/-- Files that appear at keys that are not watched change nothing as long as none of them is tried
where a script that was read names a module and another file is found.  Where one of them is tried
there, the name leads to another file than before; what the analysis comes to may still be the
same. -/
theorem outcome_eq_of_creations_not_overtaking (analysis : ScriptAnalysis) (scene : Scene)
    (origin : Path) (text : String) (altered : Files)
    (hcreations : ∀ path : Path, altered.content? path ≠ scene.files.content? path →
      scene.files.contains path = false ∧
        path.key ∉ (analysis.outcome scene origin text).watched ∧ path.key ≠ origin.key) :
    let known := analysis.Knows scene origin text
    let home := Script.Module.ofText origin text
    ((∀ path : Path, altered.content? path ≠ scene.files.content? path →
        ¬Overtakes scene.files known home path) →
      analysis.outcome { scene with files := altered } origin text =
        analysis.outcome scene origin text) ∧
    ∀ path : Path, altered.content? path ≠ scene.files.content? path →
      Overtakes scene.files known home path →
        ∃ m, HasRead scene.files known home m ∧ ∃ specifier ∈ m.specifiers, ∀ session : Session,
          (locate m.directory specifier { scene with files := altered } session).1 ≠
            (locate m.directory specifier scene session).1 := by
  intro known home
  constructor
  · intro hovertakes
    refine ScriptAnalysis.outcome_eq_of_overlooked fun path hpath => ?_
    obtain ⟨-, hwatched, horigin⟩ := hcreations path hpath
    exact ⟨not_or.mpr ⟨hwatched, horigin⟩, .inr (hovertakes path hpath)⟩
  · -- The path was tried before the file that was found, and now it is there.
    rintro path hpath ⟨m, hm, specifier, hspecifier, hrelative, htried, old, -, hfind⟩
    refine ⟨m, hm, specifier, hspecifier, fun session => ?_⟩
    have hcreated : altered.contains path = true := by
      have hmissing := (hcreations path hpath).1
      rw [Files.contains_eq_isSome_content?, Option.isSome_eq_false_iff, Option.isNone_iff_eq_none]
        at hmissing
      rw [Files.contains_eq_isSome_content?, Option.isSome_iff_ne_none]
      rwa [hmissing] at hpath
    have hne := find?_ne_of_mem_triedInVain htried hcreated hfind
    rw [locate_run, locate_run, if_pos hrelative, if_pos hrelative, hfind]
    intro hsame
    cases hafter : (moduleCandidates m.directory specifier).find? altered.contains with
    | none =>
        rw [hafter] at hsame
        cases hsame
    | some path' =>
        rw [hafter] at hsame hne
        exact hne hsame

/-! ### A script that imports a name -/

namespace Importing

/-- A script that registers a component under a name from another one. -/
def text : String :=
  "import n from './a'; x.component(n, {})"

def origin : Path :=
  ⟨"/main.ts"⟩

/-- The script that holds the name, and one that has nothing to do with it. -/
def scene : Scene where
  root := ⟨"/"⟩
  files := { buffers := [("/a.js", "export default 'foo'"), ("/b.ts", "export default 'bar'")] }

theorem watched_eq : (ScriptAnalysis.components.outcome scene origin text).watched = ["/a.js"] := by
  decide +kernel

theorem specifiers_home : (Script.Module.ofText origin text).specifiers = ["./a"] := by
  decide +kernel

theorem specifiers_name (path : Path) :
    (Script.Module.ofText path "export default 'foo'").specifiers = [] := by
  unfold Script.Module.specifiers Script.Module.exports Script.Module.literalAt?
    Script.Module.ofText
  simp only
  generalize Dialect.ofPath path = dialect
  cases dialect with
  | typeScript => decide +kernel
  | tsx => decide +kernel
  | javaScript => decide +kernel

theorem contains_iff {path : Path} :
    scene.files.contains path = true ↔ path.key = "/a.js" ∨ path.key = "/b.ts" := by
  rw [Files.contains, Disk.isFile_eq_false rfl, Bool.or_false, Files.hasBuffer_iff]
  simp [scene]

theorem read_name {path : Path} (hkey : path.key = "/a.js") :
    scene.files.read path = .ok "export default 'foo'" := by
  unfold Files.read Files.buffer?
  rw [hkey]
  rfl

/-- Besides the script itself, the one with the name is the only one that was read. -/
theorem specifiers_of_hasRead {m : Script.Module}
    (h : HasRead scene.files (ScriptAnalysis.components.Knows scene origin text)
      (.ofText origin text) m) : m = .ofText origin text ∨ m.specifiers = [] := by
  rcases h with rfl | ⟨path, read, hknown, hread, rfl⟩
  · exact .inl rfl
  · right
    have hkey : path.key = "/a.js" := by
      rcases contains_iff.mp (Files.contains_of_read hread) with hkey | hkey
      · exact hkey
      · rw [ScriptAnalysis.Knows, watched_eq, hkey] at hknown
        exact absurd hknown (by decide)
    rw [read_name hkey] at hread
    rw [← Except.ok.inj hread]
    exact specifiers_name path

theorem key_of_triedInVain {path : Path}
    (h : path ∈ triedInVain scene.files origin.directory "./a") :
    path.key ∈ ["/a", "/a.ts", "/a.tsx"] := by
  have hkeys : (triedInVain scene.files origin.directory "./a").map Path.key =
      ["/a", "/a.ts", "/a.tsx"] := by
    decide +kernel
  rw [← hkeys]
  exact List.mem_map.mpr ⟨path, h, rfl⟩

end Importing

/-- The other script can change. -/
theorem importing_outcome_eq_of_unwatched_edits :
    let altered := Importing.scene.files.openBuffer ⟨"/b.ts"⟩ "export default 'new'"
    altered.content? ⟨"/b.ts"⟩ ≠ Importing.scene.files.content? ⟨"/b.ts"⟩ ∧
      ScriptAnalysis.components.outcome { Importing.scene with files := altered } Importing.origin
          Importing.text =
        ScriptAnalysis.components.outcome Importing.scene Importing.origin Importing.text := by
  refine ⟨by decide +kernel, ?_⟩
  refine outcome_eq_of_unwatched_edits _ _ _ _ _ fun path hpath => ?_
  have hkey : path.key = "/b.ts" := by
    rw [Files.key_eq_of_content?_openBuffer_ne hpath]
    decide
  rw [Importing.contains_iff, Importing.watched_eq, hkey]
  decide

/-- A script can appear next to the others. -/
theorem importing_outcome_eq_of_creations_not_overtaking :
    let altered := Importing.scene.files.openBuffer ⟨"/c.ts"⟩ "export default 'new'"
    altered.content? ⟨"/c.ts"⟩ ≠ Importing.scene.files.content? ⟨"/c.ts"⟩ ∧
      ScriptAnalysis.components.outcome { Importing.scene with files := altered } Importing.origin
          Importing.text =
        ScriptAnalysis.components.outcome Importing.scene Importing.origin Importing.text := by
  intro altered
  refine ⟨by decide +kernel, ?_⟩
  have hkey {path : Path}
      (hpath : altered.content? path ≠ Importing.scene.files.content? path) :
      path.key = "/c.ts" := by
    rw [Files.key_eq_of_content?_openBuffer_ne hpath]
    decide
  refine (outcome_eq_of_creations_not_overtaking .components Importing.scene Importing.origin
    Importing.text altered fun path hpath => ⟨?_, ?_, ?_⟩).1 fun path hpath hovertakes => ?_
  · rw [← Bool.not_eq_true, Importing.contains_iff, hkey hpath]
    decide
  · rw [Importing.watched_eq, hkey hpath]
    decide
  · rw [hkey hpath]
    decide
  · obtain ⟨m, hm, specifier, hspecifier, -, htried, -⟩ := hovertakes
    rcases Importing.specifiers_of_hasRead hm with rfl | hnone
    · rw [Importing.specifiers_home, List.mem_singleton] at hspecifier
      subst hspecifier
      have hmem := Importing.key_of_triedInVain htried
      rw [hkey hpath] at hmem
      exact absurd hmem (by decide)
    · rw [hnone] at hspecifier
      exact List.not_mem_nil hspecifier

/-- A file that is tried in vain before the script with the name is not watched, and takes its
place when it appears. -/
theorem importing_outcome_ne_of_overtaking :
    let altered := Importing.scene.files.openBuffer ⟨"/a.ts"⟩ "export default 'new'"
    let before := ScriptAnalysis.components.outcome Importing.scene Importing.origin Importing.text
    let after := ScriptAnalysis.components.outcome { Importing.scene with files := altered }
      Importing.origin Importing.text
    Importing.scene.files.contains ⟨"/a.ts"⟩ = false ∧ (Path.mk "/a.ts").key ∉ before.watched ∧
      (Path.mk "/a.ts").key ≠ Importing.origin.key ∧ after.watched ≠ before.watched := by
  refine ⟨by decide +kernel, ?_, by decide, ?_⟩
  · rw [Importing.watched_eq]
    decide
  · rw [Importing.watched_eq]
    decide +kernel

end NgIndex
