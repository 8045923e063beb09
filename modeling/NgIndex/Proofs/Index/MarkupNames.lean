import NgIndex.Proofs.Analysis.MarkupNames
import NgIndex.Proofs.Index.Notifications
import NgIndex.Proofs.Text.Kebab

/-!
# Looking up names in markup

Whatever is done to an index, its caches hold nothing but what has been read from files, and list
nothing but what is linked from it.  So all components and directives that are listed have the kebab
case of their names as their names in markup.  Since plain names can be told by their kebab case, a
look-up never takes one of them for another.
-/

namespace NgIndex

variable {α β : Type}

/-- An entity that is read from the text of some file. -/
def Source.Makes (source : Source α β) (entity : α) : Prop :=
  ∃ scene path text, entity ∈ (source.parse scene path text).entities

/-! ### What a cache holds and lists -/

namespace Cache

variable {source : Source α β} {set : ControllerSet} {files : Files} {cache : Cache α β}

theorem makes_of_mem_read {scene : Scene} {path : Path} {entity : α}
    (h : entity ∈ (source.read scene path).entities) : source.Makes entity := by
  unfold Source.read at h
  split at h
  · cases h
  · next text _ => exact ⟨scene, path, text, h⟩

/-- Contributions of files, all of which have been read from them. -/
structure Held (source : Source α β) (contributions : KeyMap (Contribution α)) : Prop where
  keyed : Keyed contributions
  makes : ∀ key contribution, contributions.get? key = some contribution →
    ∀ entity ∈ contribution.entities, source.Makes entity

/-- A cache that holds what has been read from files, and lists what is linked from it. -/
structure Made (source : Source α β) (cache : Cache α β) : Prop where
  held : Held source cache.contributions
  listed : ∀ entity ∈ cache.snapshot, ∃ set entities,
    (∀ part ∈ entities, source.Makes part) ∧ entity ∈ source.link set entities

theorem Held.made_rebuild (h : Held source cache.contributions) (set : ControllerSet) :
    (cache.rebuild source set).notify.Made source := by
  refine ⟨h, fun entity hentity => ⟨set, _, fun part hpart => ?_, hentity⟩⟩
  obtain ⟨contribution, hvalue, hpart⟩ := List.mem_flatMap.mp hpart
  obtain ⟨⟨key, _⟩, hentry, rfl⟩ := List.mem_map.mp hvalue
  exact h.makes key _ (h.keyed.ordered.get?_eq_some_iff.mpr hentry) part hpart

theorem held_byKey_read (scene : Scene) (paths : List Path) :
    Held source (byKey (paths.map (source.read scene))) := by
  refine ⟨keyed_byKey _, fun key contribution hget entity hentity => ?_⟩
  obtain ⟨path, -, rfl⟩ := List.mem_map.mp (mem_of_get?_byKey hget).1
  exact makes_of_mem_read hentity

theorem Held.made_carryOut (h : Held source cache.contributions) (set : ControllerSet)
    (scene : Scene) (removed : List String) (paths : List Path) :
    (cache.carryOut source set removed (paths.map (source.read scene))).Made source := by
  let read := paths.map (source.read scene)
  let merged : Cache α β :=
    { cache with contributions := (removed.foldl KeyMap.erase cache.contributions).union (byKey read) }
  have hheld : Held source merged.contributions := by
    refine ⟨h.keyed.carryOut source set removed read, fun key contribution hget => ?_⟩
    have hcarried := get?_carryOut source set removed read cache key
    rw [show merged.contributions.get? key = _ from hcarried, Option.or_eq_some_iff] at hget
    rcases hget with hread | ⟨-, hkept⟩
    · exact (held_byKey_read scene paths).makes key contribution hread
    · split at hkept
      · cases hkept
      · exact h.makes key contribution hkept
  exact hheld.made_rebuild set

theorem Made.update (h : cache.Made source) (set : ControllerSet) (files : Files)
    (removed touched : List Path) :
    (cache.update source set files removed touched).2.Made source := by
  by_cases hpopulated : cache.populated = true
  · rw [update_eq_of_populated source set files removed touched hpopulated]
    split
    · exact h
    · exact h.held.made_carryOut set _ _ _
  · unfold Cache.update
    rw [if_pos (by simp [hpopulated])]
    exact h

theorem Made.relink (h : cache.Made source) (set : ControllerSet) :
    (cache.relink source set).Made source := by
  unfold Cache.relink
  split
  · exact h.held.made_rebuild set
  · exact h

theorem Made.refresh (h : cache.Made source) (set : ControllerSet) (files : Files) :
    (cache.refresh source set files).2.Made source := by
  cases hscan : files.disk.collect cache.root cache.filter source.accepts with
  | error error =>
      rw [refresh_of_collect_error set hscan]
      exact ⟨h.held, h.listed⟩
  | ok paths =>
      rw [refresh_of_collect_ok set hscan]
      exact Held.made_rebuild (held_byKey_read _ paths) set

theorem Made.handled {event : FileEvent} {after : Cache α β} (h : cache.Made source)
    (hhandled : Handled source files event cache after) : after.Made source := by
  cases hhandled with
  | updated set heq => exact heq ▸ h.update set files _ _
  | relinked set _ heq => exact heq ▸ h.relink set

theorem made_empty {root : Path} {filter : PathFilter} :
    ({ root, filter } : Cache α β).Made source :=
  ⟨⟨⟨KeyMap.ordered_empty, nofun⟩, nofun⟩, nofun⟩

end Cache

namespace Project

theorem made_ofConfig {root : Path} {config : Config} {start : Project}
    (h : ofConfig root config = .ok start) (kind : EntityKind) :
    (start.cache kind).Made kind.source := by
  obtain ⟨_, _, _, _, _, rfl⟩ := exists_filters_of_ofConfig h
  cases kind <;> exact Cache.made_empty

variable {project : Project} {kind : EntityKind}

theorem made_perform (h : (project.cache kind).Made kind.source) (operation : Operation) :
    ((project.perform operation).cache kind).Made kind.source := by
  rcases perform_cache_cases project operation kind with
    hsame | ⟨set, files, hrefreshed⟩ | ⟨files, event, hhandled⟩
  · exact hsame ▸ h
  · exact hrefreshed ▸ h.refresh set files
  · exact h.handled hhandled

theorem made_run (h : (project.cache kind).Made kind.source) (operations : List Operation) :
    ((project.run operations).cache kind).Made kind.source := by
  induction operations generalizing project with
  | nil => exact h
  | cons operation rest ih => exact ih (made_perform h operation)

/-- However an index has been worked on, it lists components and directives under the kebab case of
their names only. -/
theorem named_after_run {root : Path} {config : Config} {start : Project}
    (hstart : ofConfig root config = .ok start) (operations : List Operation) :
    (∀ component ∈ (start.run operations).components.snapshot, component.IsNamed) ∧
      ∀ directive ∈ (start.run operations).directives.snapshot, directive.IsNamed := by
  constructor
  · intro component hcomponent
    have hmade := made_run (made_ofConfig hstart .components) operations
    obtain ⟨set, entities, hentities, hlinked⟩ := hmade.listed component hcomponent
    obtain ⟨part, hpart, rfl⟩ := List.mem_map.mp hlinked
    obtain ⟨scene, path, text, hparsed⟩ := hentities part hpart
    have hnamed : part.IsNamed := Analysis.isNamed_of_mem_components hparsed
    exact hnamed
  · intro directive hdirective
    have hmade := made_run (made_ofConfig hstart .directives) operations
    obtain ⟨set, entities, hentities, hlinked⟩ := hmade.listed directive hdirective
    obtain ⟨scene, path, text, hparsed⟩ := hentities directive hlinked
    exact Analysis.isNamed_of_mem_directives hparsed

end Project

/-- A way of finding listed entities by their names in markup that tells plain names apart. -/
structure ToldApart (name htmlName : α → String) (listed : List α) (find? : String → Option α) :
    Prop where
  named : ∀ entity ∈ listed, htmlName entity = Text.kebab (name entity)
  found : ∀ entity ∈ listed, ∃ other ∈ listed, find? (htmlName entity) = some other
  /-- Where a plain name is looked up, what is found does not have another plain name. -/
  same : ∀ text other, Text.IsPlain text → find? (Text.kebab text) = some other →
    Text.IsPlain (name other) → name other = text

theorem toldApart_of_named {name htmlName : α → String} {listed : List α}
    (h : ∀ entity ∈ listed, htmlName entity = Text.kebab (name entity)) :
    ToldApart name htmlName listed fun text =>
      listed.find? fun entity => htmlName entity == text := by
  refine ⟨h, fun entity hentity => ?_, fun text other htext hother hplain => ?_⟩
  · cases hfind : listed.find? fun other => htmlName other == htmlName entity with
    | none => exact absurd (beq_self_eq_true _) (List.find?_eq_none.mp hfind entity hentity)
    | some other => exact ⟨other, List.mem_of_find?_eq_some hfind, rfl⟩
  · have hsame : htmlName other = Text.kebab text := by simpa using List.find?_some hother
    rw [h other (List.mem_of_find?_eq_some hother)] at hsame
    exact hplain.eq_of_kebab_eq htext hsame

/-- **Names in markup identify components and directives.**  Kebab case of an ASCII name has no
capital left and is its own kebab case.  No two names in ASCII that have no hyphen and do not start
with a capital have the same kebab case.  So, however an index has been worked on since it was made,
a component or directive that is looked up under the name in markup of such a name is not another one
of such a name. -/
theorem markup_names_identify {root : Path} {config : Config} {start : Project}
    (hstart : Project.ofConfig root config = .ok start) (operations : List Operation) :
    (∀ name, Text.IsAscii name → Text.kebab (Text.kebab name) = Text.kebab name ∧
      ∀ c ∈ (Text.kebab name).toList, Text.IsSmall c) ∧
    (∀ name other, Text.IsPlain name → Text.IsPlain other →
      Text.kebab name = Text.kebab other → name = other) ∧
    let project := start.run operations
    ToldApart Component.name Component.htmlName project.components.snapshot project.component? ∧
      ToldApart Directive.name Directive.htmlName project.directives.snapshot
        project.directive? := by
  obtain ⟨hcomponents, hdirectives⟩ := Project.named_after_run hstart operations
  exact ⟨fun _ hascii => ⟨Text.kebab_kebab hascii, Text.isSmall_of_mem_kebab hascii⟩,
    fun _ _ hname hother => hname.eq_of_kebab_eq hother,
    toldApart_of_named hcomponents, toldApart_of_named hdirectives⟩

/-! ### A component and a directive -/

namespace Cards

/-- A script that registers a component and a directive. -/
def disk : Disk where
  root := .folder "" [.folder "app"
    [.file "a.js"
      "x.component('userCard', \x7b\x7d); x.directive('myFocus', () => (\x7b\x7d))".toUTF8]]

def project : Project :=
  Linking.start.run [.refresh disk]

end Cards

theorem card_markup_names_identify :
    (Cards.project.component? "user-card").map Component.name = some "userCard" ∧
    (Cards.project.directive? "my-focus").map Directive.name = some "myFocus" ∧
    Text.kebab (Text.kebab "userCard") = Text.kebab "userCard" ∧
    (∀ other, Text.IsPlain other → Text.kebab "userCard" = Text.kebab other → "userCard" = other) ∧
    ToldApart Component.name Component.htmlName Cards.project.components.snapshot
      Cards.project.component? := by
  have hstart : Project.ofConfig Linking.root Linking.config = .ok Linking.start := rfl
  have hfound : (Cards.project.component? "user-card").map Component.name = some "userCard" ∧
      (Cards.project.directive? "my-focus").map Directive.name = some "myFocus" := by
    decide +kernel
  have hplain : Text.IsPlain "userCard" := ⟨by decide, by decide, rfl⟩
  obtain ⟨hascii, hinjective, hcomponents, -⟩ := markup_names_identify hstart [.refresh Cards.disk]
  exact ⟨hfound.1, hfound.2, (hascii _ hplain.ascii).1, fun other => hinjective _ other hplain,
    hcomponents⟩

end NgIndex
