import NgIndex.Index.Project
import NgIndex.Proofs.Glob.Names
import NgIndex.Proofs.Scan

/-!
# What the default settings select

The default patterns come to a rule on the names that lead from the root to a file.  A script is
selected unless a name on its way is hidden or one of its folders holds installed or built files,
and a folder is entered unless this is so on the way to it or for the folder itself.
-/

namespace NgIndex

/-! ### The name of a file -/

namespace Path

theorem fileName?_below {names : List String} (hnames : ∀ name ∈ names, IsName name)
    (root : Path) {last : String} (hlast : names.getLast? = some last) :
    (root.below names).fileName? = some last := by
  obtain ⟨init, rfl⟩ := List.getLast?_eq_some_iff.mp hlast
  simp [fileName?, components_below hnames]

/-- The extension is what follows a dot that has something in front of it and no other dot
behind it. -/
theorem extension?_of_fileName? {p : Path} {name : String} (hname : p.fileName? = some name)
    {front ext : List Char} (hparts : name.toList = front ++ '.' :: ext) (hfront : front ≠ [])
    (hext : '.' ∉ ext) : p.extension? = some (String.ofList ext) := by
  have hafter : ∀ c ∈ ext.reverse, (c != '.') = true := by
    intro c hc
    simp only [bne_iff_ne]
    rintro rfl
    exact hext (List.mem_reverse.mp hc)
  have hreverse : name.toList.reverse = ext.reverse ++ '.' :: front.reverse := by
    simp [hparts]
  have hdrop : name.toList.reverse.dropWhile (· != '.') = '.' :: front.reverse := by
    rw [hreverse, List.dropWhile_append_of_pos hafter, List.dropWhile_cons_of_neg (by decide)]
  have htake : name.toList.reverse.takeWhile (· != '.') = ext.reverse := by
    rw [hreverse, List.takeWhile_append_of_pos hafter, List.takeWhile_cons_of_neg (by decide),
      List.append_nil]
  obtain ⟨c, more, hmore⟩ := List.exists_cons_of_ne_nil (List.reverse_ne_nil_iff.mpr hfront)
  unfold extension?
  simp only [hname, hdrop, htake, hmore, List.reverse_reverse]

end Path

/-! ### The default patterns -/

namespace Config

/-- The folders with installed and built files. -/
def foreignFolders : List String := ["node_modules", "dist", "build"]

/-- Whether a file or folder of a name is hidden. -/
def IsHidden (name : String) : Prop :=
  ['.'] <+: name.toList

/-- Whether a file is a script with one of the default endings. -/
def HasScriptEnding (name : String) : Prop :=
  ['.', 't', 's'] <:+ name.toList ∨ ['.', 'j', 's'] <:+ name.toList

instance (name : String) : Decidable (IsHidden name) :=
  inferInstanceAs (Decidable (['.'] <+: name.toList))

instance (name : String) : Decidable (HasScriptEnding name) :=
  inferInstanceAs (Decidable (['.', 't', 's'] <:+ name.toList ∨ ['.', 'j', 's'] <:+ name.toList))

/-- The pattern for whatever is called by a name. -/
def namePattern (name : String) : Glob :=
  ⟨"**/" ++ name, .leading :: name.toList.map .literal⟩

/-- The pattern for all below a folder of a name. -/
def belowPattern (name : String) : Glob :=
  ⟨"**/" ++ name ++ "/**", .leading :: (name.toList.map .literal ++ [.trailing])⟩

/-- The default patterns for what is left out. -/
def defaultExcluded : List Glob :=
  (foreignFolders.flatMap fun name => [namePattern name, belowPattern name]) ++
    [⟨"**/.*", .leading :: (['.'].map .literal ++ [.star])⟩,
      ⟨"**/.*/**", .leading :: (['.'].map .literal ++ [.star, .trailing])⟩]

/-- The default patterns for scripts. -/
def scriptPatterns : List Glob :=
  [⟨"**/*.ts", .leading :: .star :: ['.', 't', 's'].map .literal⟩,
    ⟨"**/*.js", .leading :: .star :: ['.', 'j', 's'].map .literal⟩]

/-- The default pattern for markup. -/
def markupPatterns : List Glob :=
  [⟨"**/*.html", .leading :: .star :: ['.', 'h', 't', 'm', 'l'].map .literal⟩]

/-- The default filter for files that are matched by given patterns. -/
def filterTaking (included : List Glob) : PathFilter :=
  ⟨included, defaultExcluded⟩

/-- The index of a project with the default settings, before anything is read. -/
def defaultProject (root : Path) : Project where
  root
  config := default
  controllers := { root, filter := filterTaking scriptPatterns }
  components := { root, filter := filterTaking scriptPatterns }
  directives := { root, filter := filterTaking scriptPatterns }
  routes := { root, filter := filterTaking scriptPatterns }
  html := { root, filter := filterTaking markupPatterns }

theorem ofConfig_default (root : Path) :
    Project.ofConfig root default = .ok (defaultProject root) :=
  rfl

/-- The way to a script that is selected. -/
structure Selected (names : List String) : Prop where
  script : ∃ last, names.getLast? = some last ∧ HasScriptEnding last
  visible : ∀ name ∈ names, ¬ IsHidden name
  own : ∀ name ∈ names.dropLast, name ∉ foreignFolders

theorem isName_of_mem_foreignFolders : ∀ name ∈ foreignFolders, Path.IsName name := by
  decide

/-- What is called like a folder of installed or built files has no script ending. -/
theorem not_hasScriptEnding_of_mem : ∀ name ∈ foreignFolders, ¬ HasScriptEnding name := by
  decide

theorem mem_dropLast_or_getLast?_eq {name : String} {names : List String} (h : name ∈ names) :
    name ∈ names.dropLast ∨ names.getLast? = some name := by
  have hne := List.ne_nil_of_mem h
  rw [← List.dropLast_append_getLast hne, List.mem_append, List.mem_singleton] at h
  rw [List.getLast?_eq_some_getLast hne, Option.some_inj, eq_comm (b := name)]
  exact h

section Names

variable {names : List String} (hnames : ∀ name ∈ names, Path.IsName name) (hne : names ≠ [])

include hnames hne

/-- What is left out is hidden or installed or built, or stands below what is. -/
theorem excludes_ofNames_iff (included : List Glob) :
    (filterTaking included).excludes (Path.ofNames names) = true ↔
      ∃ name ∈ names, IsHidden name ∨ name ∈ foreignFolders := by
  have hdot : '/' ∉ ['.'] := by decide
  rw [PathFilter.excludes, List.any_eq_true]
  constructor
  · rintro ⟨glob, hglob, hmatch⟩
    rcases List.mem_append.mp hglob with hglob | hglob
    · obtain ⟨name, hforeign, hglob⟩ := List.mem_flatMap.mp hglob
      have hname := isName_of_mem_foreignFolders name hforeign
      rcases List.mem_pair.mp hglob with rfl | rfl
      · have hlast := (Glob.isMatch_name_iff hnames hne _ hname).mp hmatch
        exact ⟨name, List.mem_of_getLast? hlast, .inr hforeign⟩
      · have hbefore := (Glob.isMatch_below_iff hnames hne _ hname).mp hmatch
        exact ⟨name, List.dropLast_subset _ hbefore, .inr hforeign⟩
    · rcases List.mem_pair.mp hglob with rfl | rfl
      · obtain ⟨name, hname, hhidden⟩ := (Glob.isMatch_beginnings_iff hnames hne _ hdot).mp hmatch
        exact ⟨name, hname, .inl hhidden⟩
      · obtain ⟨name, hname, hhidden⟩ := Glob.exists_beginning_of_isMatch hnames hne _ hdot hmatch
        exact ⟨name, hname, .inl hhidden⟩
  · rintro ⟨name, hname, hhidden | hforeign⟩
    -- A star goes past slashes, so the pattern for hidden names covers all below them too.
    · refine ⟨_, List.mem_append_right _ List.mem_cons_self, ?_⟩
      exact (Glob.isMatch_beginnings_iff hnames hne _ hdot).mpr ⟨name, hname, hhidden⟩
    · have hpattern {glob : Glob} (h : glob ∈ [namePattern name, belowPattern name]) :
          glob ∈ defaultExcluded :=
        List.mem_append_left _ (List.mem_flatMap.mpr ⟨name, hforeign, h⟩)
      have hfolder := isName_of_mem_foreignFolders name hforeign
      rcases mem_dropLast_or_getLast?_eq hname with hbefore | hlast
      · exact ⟨belowPattern name, hpattern (by simp),
          (Glob.isMatch_below_iff hnames hne _ hfolder).mpr hbefore⟩
      · exact ⟨namePattern name, hpattern (by simp),
          (Glob.isMatch_name_iff hnames hne _ hfolder).mpr hlast⟩

theorem entersDirectory_ofNames_iff (included : List Glob) :
    (filterTaking included).entersDirectory (Path.ofNames names) = true ↔
      ∀ name ∈ names, ¬ IsHidden name ∧ name ∉ foreignFolders := by
  rw [PathFilter.entersDirectory, Bool.not_eq_true', ← Bool.not_eq_true,
    excludes_ofNames_iff hnames hne]
  simp

theorem any_scriptPatterns_iff :
    (scriptPatterns.any fun glob => glob.isMatch (Path.ofNames names).text) = true ↔
      ∃ last, names.getLast? = some last ∧ HasScriptEnding last := by
  have hslash : '/' ∉ ['t', 's'] ∧ '/' ∉ ['j', 's'] := by decide
  have hts := Glob.isMatch_endings_iff hnames hne "**/*.ts" hslash.1
  have hjs := Glob.isMatch_endings_iff hnames hne "**/*.js" hslash.2
  rw [scriptPatterns, List.any_cons, List.any_cons, List.any_nil, Bool.or_false, Bool.or_eq_true,
    hts, hjs]
  simp only [HasScriptEnding, and_or_left, exists_or]

theorem takesFile_ofNames_iff :
    (filterTaking scriptPatterns).takesFile (Path.ofNames names) = true ↔
      Selected names := by
  rw [PathFilter.takesFile, Bool.and_eq_true, Bool.not_eq_true', ← Bool.not_eq_true,
    excludes_ofNames_iff hnames hne]
  have hincluded : (filterTaking scriptPatterns).included = scriptPatterns := rfl
  have hempty : scriptPatterns.isEmpty = false := rfl
  rw [hincluded, hempty, Bool.false_or, any_scriptPatterns_iff hnames hne]
  constructor
  · rintro ⟨hclean, hscript⟩
    refine ⟨hscript, fun name hname hhidden => hclean ⟨name, hname, .inl hhidden⟩, ?_⟩
    exact fun name hname hforeign =>
      hclean ⟨name, List.dropLast_subset _ hname, .inr hforeign⟩
  · rintro ⟨⟨last, hlast, hending⟩, hvisible, hown⟩
    refine ⟨?_, last, hlast, hending⟩
    rintro ⟨name, hname, hhidden | hforeign⟩
    · exact hvisible name hname hhidden
    · rcases mem_dropLast_or_getLast?_eq hname with hbefore | hsame
      · exact hown name hbefore hforeign
      · -- The last name has a script ending, which no such folder has.
        obtain rfl := Option.some.inj (hlast.symm.trans hsame)
        exact not_hasScriptEnding_of_mem last hforeign hending

end Names

/-! ### Scripts -/

/-- A file with a script ending that is not hidden is a script. -/
theorem isScript_of_hasScriptEnding {p : Path} {name : String} (hname : p.fileName? = some name)
    (hending : HasScriptEnding name) (hvisible : ¬ IsHidden name) : p.isScript = true := by
  have hextension {ext : List Char} (hext : '.' ∉ ext) (h : '.' :: ext <:+ name.toList) :
      p.extension? = some (String.ofList ext) := by
    obtain ⟨front, hfront⟩ := h
    apply Path.extension?_of_fileName? hname hfront.symm _ hext
    rintro rfl
    exact hvisible ⟨ext, hfront⟩
  unfold Path.isScript Path.lowerExtension?
  rcases hending with hts | hjs
  · rw [hextension (by decide) hts]
    decide
  · rw [hextension (by decide) hjs]
    decide

/-- A cache of scripts with the default patterns tracks what is selected. -/
theorem tracks_below_iff {α β : Type} {source : Source α β}
    (hsource : source.accepts = Path.isScript) {cache : Cache α β}
    (hfilter : cache.filter = filterTaking scriptPatterns)
    {names : List String} (hnames : ∀ name ∈ names, Path.IsName name) (hne : names ≠ []) :
    cache.tracks source (cache.root.below names) = true ↔ Selected names := by
  rw [Cache.tracks, hsource, Bool.and_eq_true, PathFilter.takes_below _ _ hnames hne, hfilter,
    takesFile_ofNames_iff hnames hne, and_iff_right_iff_imp]
  rintro ⟨⟨last, hlast, hending⟩, hvisible, -⟩
  exact isScript_of_hasScriptEnding (Path.fileName?_below hnames cache.root hlast) hending
    (hvisible last (List.mem_of_getLast? hlast))

end Config

/-- **Under the default settings a script is tracked unless it is hidden, installed or built.**  The
index of a project at any root comes about.  Its four caches of scripts track what lies below the
root by some names just if the last name ends in `.ts` or `.js`, no name is hidden and no folder is
one of installed or built files.  All five caches enter a folder just if no name on the way to it
is hidden or that of such a folder. -/
theorem default_settings_select (root : Path) :
    ∃ project, Project.ofConfig root .default = .ok project ∧
      ∀ names : List String, names ≠ [] → (∀ name ∈ names, Path.IsName name) →
        (project.components.tracks Source.components (root.below names) = true ↔
          Config.Selected names) ∧
        (project.controllers.tracks Source.controllers (root.below names) = true ↔
          Config.Selected names) ∧
        (project.directives.tracks Source.directives (root.below names) = true ↔
          Config.Selected names) ∧
        (project.routes.tracks Source.routes (root.below names) = true ↔
          Config.Selected names) ∧
        ∃ relative, (root.below names).relativeTo? root = some relative ∧
          ∀ filter ∈ [project.components.filter, project.controllers.filter,
              project.directives.filter, project.routes.filter, project.html.filter],
            (filter.entersDirectory relative = true ↔
              ∀ name ∈ names, ¬ Config.IsHidden name ∧ name ∉ Config.foreignFolders) := by
  refine ⟨Config.defaultProject root, Config.ofConfig_default root, fun names hne hnames => ?_⟩
  have htracks {α β : Type} {source : Source α β} (hsource : source.accepts = Path.isScript) :
      Cache.tracks source { root, filter := Config.filterTaking Config.scriptPatterns }
        (root.below names) = true ↔ Config.Selected names :=
    Config.tracks_below_iff hsource rfl hnames hne
  refine ⟨htracks rfl, htracks rfl, htracks rfl, htracks rfl, _,
    Path.relativeTo?_below hnames root hne, ?_⟩
  intro filter hfilter
  obtain ⟨included, rfl⟩ : ∃ included, filter = Config.filterTaking included := by
    simp only [Config.defaultProject, List.mem_cons, List.not_mem_nil, or_false] at hfilter
    rcases hfilter with rfl | rfl | rfl | rfl | rfl <;> exact ⟨_, rfl⟩
  exact Config.entersDirectory_ofNames_iff hnames hne included

/-- A script in a folder of its own is tracked, and the same script among built files is not.  A
folder of built files is not entered. -/
theorem built_script_not_selected :
    ∃ project, Project.ofConfig ⟨"/app"⟩ .default = .ok project ∧
      project.components.tracks Source.components ⟨"/app/src/card.ts"⟩ = true ∧
      project.routes.tracks Source.routes ⟨"/app/dist/card.ts"⟩ = false ∧
      project.html.filter.entersDirectory ⟨"src/dist"⟩ = false := by
  obtain ⟨project, hproject, hselect⟩ := default_settings_select ⟨"/app"⟩
  have hown := (hselect ["src", "card.ts"] (by decide) (by decide)).1
  have hbuilt := (hselect ["dist", "card.ts"] (by decide) (by decide)).2.2.2.1
  obtain ⟨relative, hrelative, henters⟩ :=
    (hselect ["src", "dist"] (by decide) (by decide)).2.2.2.2
  obtain rfl : relative = ⟨"src/dist"⟩ :=
    Option.some.inj (hrelative.symm.trans (Path.relativeTo?_below (by decide) _ (by decide)))
  refine ⟨project, hproject, hown.mpr ⟨⟨"card.ts", rfl, by decide⟩, by decide, by decide⟩, ?_, ?_⟩
  · exact Bool.eq_false_iff.mpr fun h => (hbuilt.mp h).own "dist" (by decide) (by decide)
  · have hnot := (henters project.html.filter (by simp)).not
    exact Bool.eq_false_iff.mpr (hnot.mpr (by decide))

end NgIndex
