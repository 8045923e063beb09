import NgIndex.Index.Cache
import NgIndex.Proofs.KeyMap

/-!
# What a refresh and an update do to a cache

A refresh either fails and leaves a cache as it was, but for the count of refreshes, or puts what it
finds in the place of all that was there.

An update asks for a plan, reads the files of the plan and puts what they contribute in the place of
what was there.  The plan is described by what can be looked up in it: a tracked file that has
changed is read, a file that watches one of the paths of the event is read again under the path it
was read from, and all other keys are left alone or go.  From this follows what stands under each
key after the update.
-/

namespace NgIndex

variable {α β : Type}

@[simp] theorem Source.read_path (source : Source α β) (scene : Scene) (path : Path) :
    (source.read scene path).path = path := by
  unfold Source.read
  cases scene.files.read path with
  | error error => rfl
  | ok text => rfl

namespace Cache

/-- Every contribution stands under the key of its path, and keys ascend. -/
structure Keyed (contributions : KeyMap (Contribution α)) : Prop where
  ordered : contributions.Ordered
  key_eq : ∀ {key contribution}, contributions.get? key = some contribution →
    contribution.path.key = key

/-! ### Contributions by key -/

theorem get?_byKey_of_mem {contributions : List (Contribution α)} {contribution : Contribution α}
    (hmem : contribution ∈ contributions)
    (hunique : ∀ other ∈ contributions, other.path.key = contribution.path.key →
      other = contribution) :
    (byKey contributions).get? contribution.path.key = some contribution := by
  rw [byKey, KeyMap.get?_ofList]
  apply KeyMap.last?_eq_some_of_unique
  · exact List.mem_map.mpr ⟨contribution, hmem, rfl⟩
  · intro other hother
    obtain ⟨found, hfound, heq⟩ := List.mem_map.mp hother
    obtain ⟨hkey, rfl⟩ := Prod.mk.inj heq
    exact hunique found hfound hkey

theorem mem_of_get?_byKey {contributions : List (Contribution α)} {key : String}
    {contribution : Contribution α}
    (h : (byKey contributions).get? key = some contribution) :
    contribution ∈ contributions ∧ contribution.path.key = key := by
  rw [byKey, KeyMap.get?_ofList] at h
  obtain ⟨found, hfound, heq⟩ := List.mem_map.mp (KeyMap.mem_of_last? h)
  obtain ⟨hkey, rfl⟩ := Prod.mk.inj heq
  exact ⟨hfound, hkey⟩

theorem keyed_byKey (contributions : List (Contribution α)) : Keyed (byKey contributions) where
  ordered := KeyMap.ordered_ofList _
  key_eq h := (mem_of_get?_byKey h).2

/-- Reading the files of a map whose paths stand under their own keys keeps them there. -/
theorem get?_byKey_read (source : Source α β) (scene : Scene) {targets : KeyMap Path}
    (hordered : targets.Ordered)
    (hkey : ∀ {key path}, targets.get? key = some path → path.key = key) (key : String) :
    (byKey (targets.values.map (source.read scene))).get? key =
      (targets.get? key).map (source.read scene) := by
  have hmem : ∀ {path}, path ∈ targets.values ↔ targets.get? path.key = some path := by
    intro path
    constructor
    · intro h
      obtain ⟨⟨own, found⟩, hfound, rfl⟩ := List.mem_map.mp h
      have hget := hordered.get?_eq_some_iff.mpr hfound
      rw [hkey hget]
      exact hget
    · intro h
      exact List.mem_map.mpr ⟨_, hordered.get?_eq_some_iff.mp h, rfl⟩
  cases htarget : targets.get? key with
  | some path =>
      have hpath : path.key = key := hkey htarget
      subst hpath
      -- Of the files that are read only this one has the key, so it does not matter which is last.
      have hread : source.read scene path ∈ targets.values.map (source.read scene) :=
        List.mem_map.mpr ⟨path, hmem.mpr htarget, rfl⟩
      have hunique : ∀ other ∈ targets.values.map (source.read scene),
          other.path.key = (source.read scene path).path.key →
            other = source.read scene path := by
        intro other hother hsame
        obtain ⟨found, hfound, rfl⟩ := List.mem_map.mp hother
        rw [Source.read_path, Source.read_path] at hsame
        have hfound := hmem.mp hfound
        rw [hsame, htarget] at hfound
        rw [Option.some.inj hfound]
      simpa using get?_byKey_of_mem hread hunique
  | none =>
      cases hread : (byKey (targets.values.map (source.read scene))).get? key with
      | none => rfl
      | some contribution =>
          obtain ⟨hmemRead, hpath⟩ := mem_of_get?_byKey hread
          obtain ⟨path, hvalue, rfl⟩ := List.mem_map.mp hmemRead
          rw [Source.read_path] at hpath
          rw [← hpath, hmem.mp hvalue] at htarget
          cases htarget

/-! ### Refreshes -/

section Refreshes

variable {source : Source α β} {files : Files} {cache : Cache α β}

theorem refresh_of_collect_error (set : ControllerSet) {error : ScanError}
    (h : files.disk.collect cache.root cache.filter source.accepts = .error error) :
    cache.refresh source set files =
      (.error error, { cache with generation := cache.generation + 1 }) := by
  simp only [refresh, begin, readAll, h]

theorem refresh_of_collect_ok (set : ControllerSet) {paths : List Path}
    (h : files.disk.collect cache.root cache.filter source.accepts = .ok paths) :
    cache.refresh source set files =
      (.ok (), ({ cache with
          generation := cache.generation + 1
          contributions := byKey (paths.map (source.read (cache.scene files)))
          populated := true } : Cache α β).rebuild source set |>.notify) := by
  -- no other refresh has started in between, so the result counts
  simp only [refresh, begin, readAll, h, commit, bne_self_eq_false, Bool.false_eq_true, if_false]
  rfl

end Refreshes

/-! ### Plans -/

/-- The path under which a file is read again that watches one of the given keys. -/
def dependent? (removed eventKeys : List String) (key : String) (contribution : Contribution α) :
    Option Path :=
  if !removed.contains key && contribution.watched.any eventKeys.contains then
    some contribution.path
  else none

theorem get?_addDependents (removed eventKeys : List String)
    {entries : List (String × Contribution α)}
    (hentries : entries.Pairwise fun a b => a.1 ≠ b.1) (targets : KeyMap Path) (key : String) :
    (addDependents removed eventKeys entries targets).get? key =
      (targets.get? key).or
        ((entries.find? fun entry => entry.1 == key).bind fun entry =>
          dependent? removed eventKeys key entry.2) := by
  induction entries generalizing targets with
  | nil => simp [addDependents]
  | cons entry rest ih =>
      obtain ⟨own, contribution⟩ := entry
      obtain ⟨hfirst, hrest⟩ := List.pairwise_cons.mp hentries
      rw [addDependents, ih hrest]
      by_cases hkey : own = key
      · -- No later entry has this key, and a path that is there already stays.
        subst hkey
        have hnone : (rest.find? fun entry => entry.1 == own) = none := by
          rw [List.find?_eq_none]
          intro other hother
          simpa using Ne.symm (hfirst other hother)
        rw [hnone, List.find?_cons_of_pos (by simp)]
        simp only [Option.bind_none, Option.or_none, Option.bind_some]
        cases htarget : targets.get? own with
        | some path => simp [KeyMap.contains_eq_isSome_get?, htarget]
        | none =>
            unfold dependent?
            simp only [KeyMap.contains_eq_isSome_get?, htarget, Option.isSome_none,
              Bool.not_false, Bool.and_true, Option.none_or]
            by_cases hwatch :
                (!removed.contains own && contribution.watched.any eventKeys.contains) = true
            · rw [if_pos hwatch, if_pos hwatch, KeyMap.get?_insert, if_pos rfl]
            · rw [if_neg hwatch, if_neg hwatch, htarget]
      · rw [List.find?_cons_of_neg (by simpa using hkey)]
        congr 1
        split
        · rw [KeyMap.get?_insert, if_neg hkey]
        · rfl

theorem ordered_addDependents (removed eventKeys : List String)
    (entries : List (String × Contribution α)) {targets : KeyMap Path}
    (h : targets.Ordered) : (addDependents removed eventKeys entries targets).Ordered := by
  induction entries generalizing targets with
  | nil => exact h
  | cons entry rest ih =>
      rw [addDependents]
      split
      · exact ih (h.insert _ _)
      · exact ih h

/-- The keys of paths that are known to a cache. -/
def knownKeys (cache : Cache α β) (paths : List Path) : List String :=
  (paths.map Path.key).filter cache.contributions.contains

/-- The tracked ones among some paths, under their keys. -/
def trackedEntries (source : Source α β) (cache : Cache α β) (paths : List Path) :
    List (String × Path) :=
  (paths.filter (cache.tracks source)).map fun path => (path.key, path)

theorem get?_plan_targets (source : Source α β) {cache : Cache α β}
    (hkeyed : Keyed cache.contributions) (removed touched : List Path) (key : String) :
    (cache.plan source removed touched).targets.get? key =
      (KeyMap.last? (cache.trackedEntries source touched) key).or
        ((cache.contributions.get? key).bind
          (dependent? (cache.knownKeys removed) ((removed ++ touched).map Path.key) key)) := by
  have hentries : cache.contributions.entries.Pairwise fun a b => a.1 ≠ b.1 :=
    hkeyed.ordered.imp fun hlt => ne_of_lt hlt
  have hget : ∀ f : Contribution α → Option Path,
      (cache.contributions.get? key).bind f =
        (cache.contributions.entries.find? fun entry => entry.1 == key).bind fun entry =>
          f entry.2 := by
    intro f
    unfold KeyMap.get?
    rw [Option.bind_map]
    rfl
  rw [hget, ← KeyMap.get?_ofList]
  exact get?_addDependents _ _ hentries _ key

theorem ordered_plan_targets (source : Source α β) (cache : Cache α β)
    (removed touched : List Path) : (cache.plan source removed touched).targets.Ordered :=
  ordered_addDependents _ _ _ (KeyMap.ordered_ofList _)

theorem mem_plan_removed_iff (source : Source α β) (cache : Cache α β) (removed touched : List Path)
    (key : String) :
    key ∈ (cache.plan source removed touched).removed ↔
      cache.contributions.contains key = true ∧
        (key ∈ removed.map Path.key ∨
          key ∈ touched.map Path.key ∧
            (cache.plan source removed touched).targets.get? key = none) := by
  have hremoved : (cache.plan source removed touched).removed =
      cache.knownKeys removed ++ (touched.map Path.key).filter fun key =>
        !(cache.plan source removed touched).targets.contains key &&
          cache.contributions.contains key := rfl
  rw [hremoved, List.mem_append, knownKeys, List.mem_filter, List.mem_filter,
    KeyMap.contains_eq_isSome_get?, KeyMap.contains_eq_isSome_get?]
  simp only [Bool.and_eq_true, Bool.not_eq_true', Option.isSome_eq_false_iff,
    Option.isNone_iff_eq_none]
  tauto

theorem last?_trackedEntries_eq_none_iff (source : Source α β) (cache : Cache α β)
    {touched : List Path} {key : String} :
    KeyMap.last? (cache.trackedEntries source touched) key = none ↔
      ∀ path ∈ touched, path.key = key → cache.tracks source path = false := by
  rw [KeyMap.last?_eq_none_iff]
  constructor
  · intro h path hpath hkey
    by_contra htracked
    refine h (path.key, path) (List.mem_map.mpr ⟨path, List.mem_filter.mpr ⟨hpath, ?_⟩, rfl⟩) hkey
    exact Bool.eq_true_of_not_eq_false htracked
  · intro h entry hentry hkey
    obtain ⟨path, hpath, rfl⟩ := List.mem_map.mp hentry
    obtain ⟨htouched, htracked⟩ := List.mem_filter.mp hpath
    rw [h path htouched hkey] at htracked
    cases htracked

section Plans

variable (source : Source α β) {cache : Cache α β} (hkeyed : Keyed cache.contributions)
  {removed touched : List Path} {key : String}

include hkeyed

/-- A file is read for an event because it has changed and is tracked, or else because it is known,
stays, and watches a path of the event. -/
theorem plan_targets_cases {path : Path}
    (h : (cache.plan source removed touched).targets.get? key = some path) :
    (path ∈ touched ∧ cache.tracks source path = true ∧ path.key = key) ∨
      (KeyMap.last? (cache.trackedEntries source touched) key = none ∧
        key ∉ cache.knownKeys removed ∧
        ∃ contribution, cache.contributions.get? key = some contribution ∧
          contribution.path = path) := by
  rw [get?_plan_targets source hkeyed, Option.or_eq_some_iff] at h
  rcases h with htracked | ⟨hnone, hdependent⟩
  · obtain ⟨found, hfound, heq⟩ := List.mem_map.mp (KeyMap.mem_of_last? htracked)
    obtain ⟨hkey, rfl⟩ := Prod.mk.inj heq
    obtain ⟨htouched, htracks⟩ := List.mem_filter.mp hfound
    exact .inl ⟨htouched, htracks, hkey⟩
  · obtain ⟨contribution, hget, hpath⟩ := Option.bind_eq_some_iff.mp hdependent
    unfold dependent? at hpath
    split at hpath
    · next hhit =>
        have hkept : key ∉ cache.knownKeys removed := by
          intro hgone
          simp [hgone] at hhit
        exact .inr ⟨hnone, hkept, contribution, hget, Option.some.inj hpath⟩
    · cases hpath

/-- A file is read under its own key. -/
theorem plan_targets_key {path : Path}
    (h : (cache.plan source removed touched).targets.get? key = some path) : path.key = key := by
  rcases plan_targets_cases source hkeyed h with ⟨-, -, hkey⟩ | ⟨-, -, contribution, hget, rfl⟩
  · exact hkey
  · exact hkeyed.key_eq hget

/-- A plan leaves a key alone if no file that has changed under it is tracked, if nothing stands
under it in case the event names it, and if what stands there watches no path of the event. -/
theorem plan_leaves_iff :
    ((cache.plan source removed touched).targets.get? key = none ∧
        key ∉ (cache.plan source removed touched).removed) ↔
      (∀ path ∈ touched, path.key = key → cache.tracks source path = false) ∧
        (key ∈ (removed ++ touched).map Path.key → cache.contributions.get? key = none) ∧
        ∀ contribution, cache.contributions.get? key = some contribution →
          contribution.watched.any ((removed ++ touched).map Path.key).contains = false := by
  rw [List.map_append, List.mem_append]
  constructor
  · rintro ⟨htarget, hremoved⟩
    -- What is known and named by the event is removed if it is not read.
    have hunknown (hkey : key ∈ removed.map Path.key ∨ key ∈ touched.map Path.key) :
        cache.contributions.get? key = none := by
      by_contra hknown
      refine hremoved ((mem_plan_removed_iff source cache removed touched key).mpr ⟨?_, ?_⟩)
      · rwa [KeyMap.contains_eq_isSome_get?, Option.isSome_iff_ne_none]
      · exact hkey.imp_right fun htouched => ⟨htouched, htarget⟩
    rw [get?_plan_targets source hkeyed, Option.or_eq_none_iff] at htarget
    refine ⟨(last?_trackedEntries_eq_none_iff source cache).mp htarget.1, hunknown, ?_⟩
    intro contribution hget
    have hkept : (cache.knownKeys removed).contains key = false := by
      rw [Bool.eq_false_iff, Ne, List.contains_iff_mem]
      intro hgone
      rw [hunknown (.inl (List.mem_filter.mp hgone).1)] at hget
      cases hget
    have hdependent := htarget.2
    rw [hget, Option.bind_some, dependent?, hkept, Bool.not_false, Bool.true_and,
      ite_eq_right_iff, List.map_append] at hdependent
    exact Bool.eq_false_iff.mpr fun hany => Option.some_ne_none _ (hdependent hany)
  · rintro ⟨huntracked, hunknown, hunwatched⟩
    constructor
    · rw [get?_plan_targets source hkeyed,
        (last?_trackedEntries_eq_none_iff source cache).mpr huntracked, Option.none_or]
      cases hget : cache.contributions.get? key with
      | none => rfl
      | some contribution =>
          rw [Option.bind_some, dependent?, List.map_append, hunwatched contribution hget,
            Bool.and_false, if_neg Bool.false_ne_true]
    · rw [mem_plan_removed_iff]
      rintro ⟨hknown, hnamed⟩
      rw [KeyMap.contains_eq_isSome_get?, hunknown (hnamed.imp_right And.left)] at hknown
      cases hknown

end Plans

/-! ### Updates -/

/-- A cache that has been filled and whose list is the one that its contributions give. -/
structure Current (source : Source α β) (set : ControllerSet) (cache : Cache α β) : Prop where
  populated : cache.populated = true
  keyed : Keyed cache.contributions
  snapshot_eq : cache.snapshot =
    source.link set (cache.contributions.values.flatMap fun c => c.entities)

theorem update_eq_of_populated (source : Source α β) (set : ControllerSet) (files : Files)
    (removed touched : List Path) {cache : Cache α β} (hpopulated : cache.populated = true) :
    cache.update source set files removed touched =
      if (cache.plan source removed touched).isEmpty then (false, cache)
      else (true, cache.carryOut source set (cache.plan source removed touched).removed
        ((cache.plan source removed touched).targets.values.map
          (source.read (cache.scene files)))) := by
  unfold update
  rw [if_neg (by simp [hpopulated])]

theorem Plan.eq_empty_of_isEmpty {plan : Plan} (h : plan.isEmpty = true) :
    plan.targets = {} ∧ plan.removed = [] := by
  obtain ⟨⟨entries⟩, removed⟩ := plan
  simp only [Plan.isEmpty, Bool.and_eq_true, List.isEmpty_iff] at h
  exact ⟨congrArg KeyMap.mk h.1, h.2⟩

/-- What stands under a key after a plan was carried out: what a file that was read contributes,
nothing if the key was to go, and else what stood there before. -/
theorem get?_carryOut (source : Source α β) (set : ControllerSet) (removed : List String)
    (contributions : List (Contribution α)) (cache : Cache α β) (key : String) :
    (cache.carryOut source set removed contributions).contributions.get? key =
      ((byKey contributions).get? key).or
        (if key ∈ removed then none else cache.contributions.get? key) := by
  change (KeyMap.union (removed.foldl KeyMap.erase cache.contributions) (byKey _)).get? key = _
  rw [KeyMap.get?_union _ (keyed_byKey _).ordered, KeyMap.get?_foldl_erase]

theorem Keyed.carryOut {cache : Cache α β} (h : Keyed cache.contributions) (source : Source α β)
    (set : ControllerSet) (removed : List String) (contributions : List (Contribution α)) :
    Keyed (cache.carryOut source set removed contributions).contributions := by
  refine ⟨(h.ordered.foldl_erase _).union _, ?_⟩
  intro key contribution hget
  rw [get?_carryOut, Option.or_eq_some_iff] at hget
  rcases hget with hread | ⟨-, hkept⟩
  · exact (mem_of_get?_byKey hread).2
  · split at hkept
    · cases hkept
    · exact h.key_eq hkept

/-- A plan that is carried out keeps a cache current. -/
theorem Current.carryOut {source : Source α β} {set : ControllerSet} {cache : Cache α β}
    (h : cache.Current source set) (removed : List String)
    (contributions : List (Contribution α)) :
    (cache.carryOut source set removed contributions).Current source set :=
  ⟨h.populated, h.keyed.carryOut source set removed contributions, rfl⟩

/-- What stands under a key after an update: what a file of the plan contributes, nothing if the
plan says so, and else what stood there before. -/
theorem get?_update (source : Source α β) (set : ControllerSet) (files : Files)
    (removed touched : List Path) {cache : Cache α β} (hpopulated : cache.populated = true)
    (hkeyed : Keyed cache.contributions) (key : String) :
    (cache.update source set files removed touched).2.contributions.get? key =
      match (cache.plan source removed touched).targets.get? key with
      | some path => some (source.read (cache.scene files) path)
      | none =>
          if key ∈ (cache.plan source removed touched).removed then none
          else cache.contributions.get? key := by
  rw [update_eq_of_populated source set files removed touched hpopulated]
  by_cases hempty : (cache.plan source removed touched).isEmpty = true
  · obtain ⟨htargets, hremoved⟩ := Plan.eq_empty_of_isEmpty hempty
    rw [if_pos hempty, htargets, hremoved]
    simp
  · rw [if_neg hempty, get?_carryOut,
      get?_byKey_read source _ (ordered_plan_targets source cache removed touched)
        (plan_targets_key source hkeyed)]
    cases (cache.plan source removed touched).targets.get? key with
    | some path => rfl
    | none => rfl

section Keys

variable (source : Source α β) (set : ControllerSet) (files : Files) {removed touched : List Path}
  {cache : Cache α β} (hpopulated : cache.populated = true) (hkeyed : Keyed cache.contributions)

include hpopulated hkeyed

/-- A key that the event does not name: a file that watches one of the named keys is read again, and
all else stays. -/
theorem get?_update_of_not_named {key : String}
    (hkey : key ∉ (removed ++ touched).map Path.key) :
    (cache.update source set files removed touched).2.contributions.get? key =
      (cache.contributions.get? key).map fun contribution =>
        if contribution.watched.any ((removed ++ touched).map Path.key).contains then
          source.read (cache.scene files) contribution.path
        else contribution := by
  rw [List.map_append, List.mem_append, not_or] at hkey
  have htracked : KeyMap.last? (cache.trackedEntries source touched) key = none :=
    (last?_trackedEntries_eq_none_iff source cache).mpr fun path hpath hsame =>
      absurd (List.mem_map.mpr ⟨path, hpath, hsame⟩) hkey.2
  have hknown : (cache.knownKeys removed).contains key = false := by
    rw [Bool.eq_false_iff, Ne, List.contains_iff_mem]
    exact fun hmem => hkey.1 (List.mem_filter.mp hmem).1
  rw [get?_update source set files removed touched hpopulated hkeyed,
    get?_plan_targets source hkeyed, htracked, Option.none_or]
  have hstays : key ∉ (cache.plan source removed touched).removed := by
    rw [mem_plan_removed_iff]
    rintro ⟨-, hmem | ⟨hmem, -⟩⟩
    · exact hkey.1 hmem
    · exact hkey.2 hmem
  rw [if_neg hstays]
  cases cache.contributions.get? key with
  | none => rfl
  | some contribution =>
      simp only [Option.bind_some, dependent?, hknown, Bool.not_false, Bool.true_and,
        Option.map_some]
      by_cases hwatch :
          contribution.watched.any ((removed ++ touched).map Path.key).contains = true
      · rw [if_pos hwatch, if_pos hwatch]
      · rw [if_neg hwatch, if_neg hwatch]

/-- The key of a file that has changed and is tracked: the file is read. -/
theorem get?_update_of_tracked {path : Path} (hpath : path ∈ touched)
    (htracked : cache.tracks source path = true)
    (hunique : ∀ other ∈ touched, other.key = path.key → other = path) :
    (cache.update source set files removed touched).2.contributions.get? path.key =
      some (source.read (cache.scene files) path) := by
  have hlast : KeyMap.last? (cache.trackedEntries source touched) path.key = some path := by
    apply KeyMap.last?_eq_some_of_unique
    · exact List.mem_map.mpr ⟨path, List.mem_filter.mpr ⟨hpath, htracked⟩, rfl⟩
    · intro other hother
      obtain ⟨found, hfound, heq⟩ := List.mem_map.mp hother
      obtain ⟨hkey, rfl⟩ := Prod.mk.inj heq
      exact hunique found (List.mem_filter.mp hfound).1 hkey
  rw [get?_update source set files removed touched hpopulated hkeyed,
    get?_plan_targets source hkeyed, hlast]
  rfl

/-- The key of a path that is gone, or of one that has changed but is not tracked and was not known:
nothing stands under it. -/
theorem get?_update_of_untracked {key : String}
    (huntracked : ∀ path ∈ touched, path.key = key → cache.tracks source path = false)
    (hkey : key ∈ removed.map Path.key ∨ cache.contributions.get? key = none) :
    (cache.update source set files removed touched).2.contributions.get? key = none := by
  have htargets : (cache.plan source removed touched).targets.get? key = none := by
    rw [get?_plan_targets source hkeyed,
      (last?_trackedEntries_eq_none_iff source cache).mpr huntracked, Option.none_or]
    rcases hkey with hremoved | hunknown
    · cases hget : cache.contributions.get? key with
      | none => rfl
      | some contribution =>
          -- What is removed is not read again, whatever it watches.
          have hknown : (cache.knownKeys removed).contains key = true := by
            rw [List.contains_iff_mem]
            refine List.mem_filter.mpr ⟨hremoved, ?_⟩
            rw [KeyMap.contains_eq_isSome_get?, hget]
            rfl
          simp only [Option.bind_some, dependent?, hknown, Bool.not_true, Bool.false_and,
            Bool.false_eq_true, if_false]
    · rw [hunknown]
      rfl
  rw [get?_update source set files removed touched hpopulated hkeyed, htargets]
  rcases hkey with hremoved | hunknown
  · by_cases hcontains : cache.contributions.contains key = true
    · exact if_pos ((mem_plan_removed_iff source cache removed touched key).mpr
        ⟨hcontains, .inl hremoved⟩)
    · rw [KeyMap.contains_eq_isSome_get?, Bool.not_eq_true, Option.isSome_eq_false_iff,
        Option.isNone_iff_eq_none] at hcontains
      simp [hcontains]
  · simp [hunknown]

end Keys

theorem populated_update (source : Source α β) (set : ControllerSet) (files : Files)
    (removed touched : List Path) (cache : Cache α β) :
    (cache.update source set files removed touched).2.populated = cache.populated := by
  unfold update
  split
  · rfl
  · dsimp only
    split
    · rfl
    · rfl

theorem Keyed.update {cache : Cache α β} (h : Keyed cache.contributions) (source : Source α β)
    (set : ControllerSet) (files : Files) (removed touched : List Path) :
    Keyed (cache.update source set files removed touched).2.contributions := by
  unfold Cache.update
  split
  · exact h
  · dsimp only
    split
    · exact h
    · exact h.carryOut _ _ _ _

/-- An update keeps a cache current. -/
theorem Current.update {source : Source α β} {set : ControllerSet} {cache : Cache α β}
    (h : cache.Current source set) (files : Files) (removed touched : List Path) :
    (cache.update source set files removed touched).2.Current source set := by
  rw [update_eq_of_populated source set files removed touched h.populated]
  by_cases hempty : (cache.plan source removed touched).isEmpty = true
  · rw [if_pos hempty]
    exact h
  · rw [if_neg hempty]
    exact h.carryOut _ _

/-- An update does nothing, or it gives a filled cache other contributions and lists them. -/
theorem update_cases (source : Source α β) (set : ControllerSet) (files : Files)
    (removed touched : List Path) (cache : Cache α β) :
    cache.update source set files removed touched = (false, cache) ∨
      cache.populated = true ∧ ∃ contributions : KeyMap (Contribution α),
        cache.update source set files removed touched =
          (true, ({ cache with contributions } : Cache α β).rebuild source set |>.notify) := by
  by_cases hpopulated : cache.populated = true
  · rw [update_eq_of_populated source set files removed touched hpopulated]
    by_cases hempty : (cache.plan source removed touched).isEmpty = true
    · left
      rw [if_pos hempty]
    · right
      rw [if_neg hempty]
      exact ⟨hpopulated, _, rfl⟩
  · left
    unfold update
    rw [if_pos (by simp [hpopulated])]

/-- An update changes neither which files a cache is about nor where it looks for them. -/
theorem update_root_filter (source : Source α β) (set : ControllerSet) (files : Files)
    (removed touched : List Path) (cache : Cache α β) :
    (cache.update source set files removed touched).2.root = cache.root ∧
      (cache.update source set files removed touched).2.filter = cache.filter := by
  rcases update_cases source set files removed touched cache with hnone | ⟨-, _, hsome⟩
  · rw [hnone]
    exact ⟨rfl, rfl⟩
  · rw [hsome]
    exact ⟨rfl, rfl⟩

/-- Which files a cache is about depends on its root and its filter alone. -/
theorem tracks_congr (source : Source α β) {cache other : Cache α β}
    (hroot : cache.root = other.root) (hfilter : cache.filter = other.filter) :
    cache.tracks source = other.tracks source := by
  funext path
  rw [tracks, tracks, hroot, hfilter]

theorem scene_update (source : Source α β) (set : ControllerSet) (files : Files)
    (removed touched : List Path) (cache : Cache α β) (later : Files) :
    (cache.update source set files removed touched).2.scene later = cache.scene later := by
  rw [scene, scene, (update_root_filter source set files removed touched cache).1]

theorem tracks_update (source : Source α β) (set : ControllerSet) (files : Files)
    (removed touched : List Path) (cache : Cache α β) :
    (cache.update source set files removed touched).2.tracks source = cache.tracks source := by
  obtain ⟨hroot, hfilter⟩ := update_root_filter source set files removed touched cache
  exact tracks_congr source hroot hfilter

end Cache
end NgIndex
