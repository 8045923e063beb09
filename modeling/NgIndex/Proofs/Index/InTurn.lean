import NgIndex.Proofs.Index.Overlap

/-!
# Updates that are made in turn

If events are taken up in the order in which they were issued, each after the update for the one
before it is over, and if none that was issued after a refresh has read the files is taken up before
the refresh commits, then no update is lost, however the files change meanwhile: when all calls are
over the cache holds what a refresh would put into it.

What carries this through is that every value the cache holds, or is about to hold, is settled: it
is what reading the files now would give, or an event that will have it read again still waits.  A
refresh that commits what was read before a change, after the event for the change was taken up,
breaks it; so does an event that is taken up before an older one.
-/

namespace NgIndex
namespace Cache

variable {α β : Type}

/-! ### Values that are settled -/

/-- Some event names a key. -/
def Named (events : List FileEvent) (key : String) : Prop :=
  ∃ event ∈ events, key ∈ event.keys

theorem Named.mono {events others : List FileEvent} {key : String} (h : Named events key)
    (hsub : events ⊆ others) : Named others key := by
  obtain ⟨event, hevent, hkey⟩ := h
  exact ⟨event, hsub hevent, hkey⟩

theorem Named.cases {event : FileEvent} {events : List FileEvent} {key : String}
    (h : Named (event :: events) key) : key ∈ event.keys ∨ Named events key := by
  obtain ⟨other, hother, hkey⟩ := h
  rcases List.mem_cons.mp hother with rfl | hother
  · exact .inl hkey
  · exact .inr ⟨other, hother, hkey⟩

/-- What a cache is about: the source, the files known to it, and where and how it looks for
them. -/
structure Subject (α β : Type) where
  source : Source α β
  /-- The paths by which files are called, in scans and by events. -/
  known : Path → Prop
  root : Path
  filter : PathFilter

namespace Subject

variable (subject : Subject α β)

/-- Whether a path is tracked. -/
def tracks (path : Path) : Bool :=
  subject.source.accepts path && subject.filter.takes subject.root path

/-- What a file contributes. -/
def read (files : Files) (path : Path) : Contribution α :=
  subject.source.read { root := subject.root, files } path

/-- A path whose contribution stands under a key. -/
structure Own (key : String) (path : Path) : Prop where
  known : subject.known path
  tracked : subject.tracks path = true
  key_eq : path.key = key

/-- What a scan of the files would put under a key. -/
def IsFresh (files : Files) (key : String) : Option (Contribution α) → Prop
  | none => ∀ path, subject.Own key path → files.contains path = false
  | some contribution => ∃ path, subject.Own key path ∧ files.contains path = true ∧
      contribution = subject.read files path

/-- A value under a key that is right, or that will be read again for an event that still waits:
one that names the key, or one that names a path which the file of the value watches. -/
structure Settled (files : Files) (waiting : List FileEvent) (key : String)
    (value : Option (Contribution α)) : Prop where
  own : ∀ contribution, value = some contribution → subject.Own key contribution.path
  right : Named waiting key ∨ subject.IsFresh files key value ∨
    ∃ contribution, value = some contribution ∧ files.contains contribution.path = true ∧
      ∃ watched ∈ contribution.watched, Named waiting watched

/-- A change of the files and the events that report it. -/
structure Honest (old new : Files) (events : List FileEvent) : Prop where
  /-- A change at a known path, or at one that a file watches, is named. -/
  named : ∀ path : Path,
    (subject.known path ∨ ∃ key reader, subject.Own key reader ∧ old.contains reader = true ∧
      path.key ∈ (subject.read old reader).watched) →
    new.content? path ≠ old.content? path → Named events path.key
  known : ∀ event ∈ events, ∀ path ∈ event.removed ++ event.touched, subject.known path
  /-- What is said to be new or changed is there. -/
  present : ∀ event ∈ events, ∀ path ∈ event.touched, new.contains path = true
  /-- What is said to be gone is not there. -/
  absent : ∀ event ∈ events, ∀ path ∈ event.removed, new.contains path = false

/-- The scan of the files finds those that are known and tracked. -/
def Scans (files : Files) : Prop :=
  ∃ paths, files.disk.collect subject.root subject.filter subject.source.accepts = .ok paths ∧
    ∀ path, path ∈ paths ↔
      subject.known path ∧ subject.tracks path = true ∧ files.contains path = true

/-- Distinct files have distinct keys. -/
def Distinct : Prop :=
  ∀ path other, subject.known path → subject.known other → path.key = other.key → path = other

variable {subject} {files old new : Files} {waiting events : List FileEvent} {key : String}
  {value : Option (Contribution α)}

@[simp]
theorem read_path (subject : Subject α β) (files : Files) (path : Path) :
    (subject.read files path).path = path :=
  Source.read_path _ _ _

theorem Own.eq (hdistinct : subject.Distinct) {path other : Path} (h : subject.Own key path)
    (hother : subject.known other) (hkey : other.key = key) : other = path :=
  hdistinct other path hother h.known (hkey.trans h.key_eq.symm)

theorem Settled.mono (h : subject.Settled files waiting key value) {others : List FileEvent}
    (hsub : waiting ⊆ others) : subject.Settled files others key value := by
  refine ⟨h.own, ?_⟩
  rcases h.right with hnamed | hfresh | ⟨contribution, hvalue, hcontains, watched, hwatched, hnamed⟩
  · exact .inl (hnamed.mono hsub)
  · exact .inr (.inl hfresh)
  · exact .inr (.inr ⟨contribution, hvalue, hcontains, watched, hwatched, hnamed.mono hsub⟩)

/-- At a known path that no event names nothing has changed. -/
theorem Honest.contains_eq (h : subject.Honest old new events) {path : Path}
    (hpath : subject.known path) (hnot : ¬ Named events path.key) :
    new.contains path = old.contains path := by
  have hsame : new.content? path = old.content? path := by
    by_contra hchanged
    exact hnot (h.named path (.inl hpath) hchanged)
  rw [Files.contains_eq_isSome_content?, Files.contains_eq_isSome_content?, hsame]

/-- What was so at a known path is still so, or else an event of the change names the path. -/
theorem Honest.contains_or_named (h : subject.Honest old new events) {path : Path} {there : Bool}
    (hpath : subject.known path) (hold : old.contains path = there ∨ Named waiting path.key) :
    new.contains path = there ∨ Named (waiting ++ events) path.key := by
  by_cases hnamed : Named events path.key
  · exact .inr (hnamed.mono (List.subset_append_right _ _))
  · rw [h.contains_eq hpath hnamed]
    exact hold.imp_right fun hwaiting => hwaiting.mono (List.subset_append_left _ _)

/-- A change keeps values settled, once its events wait. -/
theorem Settled.change (hlocal : subject.source.IsLocal)
    (hhonest : subject.Honest old new events) (h : subject.Settled old waiting key value) :
    subject.Settled new (waiting ++ events) key value := by
  have hwaiting : waiting ⊆ waiting ++ events := List.subset_append_left _ _
  have hevents : events ⊆ waiting ++ events := List.subset_append_right _ _
  refine ⟨h.own, ?_⟩
  by_cases hkey : Named events key
  · exact .inl (hkey.mono hevents)
  have hcontains {path : Path} (hpath : subject.Own key path) :
      new.contains path = old.contains path :=
    hhonest.contains_eq hpath.known (by rwa [hpath.key_eq])
  rcases h.right with hnamed | hfresh | ⟨contribution, hvalue, hold, watched, hwatched, hnamed⟩
  · exact .inl (hnamed.mono hwaiting)
  · cases value with
    | none =>
        refine .inr (.inl fun path hpath => ?_)
        rw [hcontains hpath]
        exact hfresh path hpath
    | some contribution =>
        obtain ⟨path, hpath, hold, rfl⟩ := hfresh
        have hnew : new.contains path = true := (hcontains hpath).trans hold
        by_cases hwatched : ∃ watched ∈ (subject.read old path).watched, Named events watched
        · obtain ⟨watched, hmem, hnamed⟩ := hwatched
          refine .inr (.inr ⟨_, rfl, ?_, watched, hmem, hnamed.mono hevents⟩)
          rwa [read_path]
        · -- Nothing has changed at the file or at what it watches, so it reads as before.
          push Not at hwatched
          refine .inr (.inl ⟨path, hpath, hnew, (hlocal.read_eq ?_ fun watch hwatch => ?_).symm⟩)
          · by_contra hchanged
            refine hkey ?_
            rw [← hpath.key_eq]
            exact hhonest.named path (.inl hpath.known) hchanged
          · by_contra hchanged
            exact hwatched watch.key hwatch
              (hhonest.named watch (.inr ⟨key, path, hpath, hold, hwatch⟩) hchanged)
  · refine .inr (.inr ⟨contribution, hvalue, ?_, watched, hwatched, hnamed.mono hwaiting⟩)
    rw [hcontains (h.own contribution hvalue)]
    exact hold

/-- What is read from a file that is there, or of which an event is yet to come, is settled. -/
theorem settled_read {path : Path} (hpath : subject.Own key path)
    (h : files.contains path = true ∨ Named waiting key) :
    subject.Settled files waiting key (some (subject.read files path)) := by
  constructor
  · rintro contribution hvalue
    obtain rfl := Option.some.inj hvalue
    rwa [read_path]
  · rcases h with hcontains | hnamed
    · exact .inr (.inl ⟨path, hpath, hcontains, rfl⟩)
    · exact .inl hnamed

/-- What a scan finds under a key is what is right. -/
theorem isFresh_found (hdistinct : subject.Distinct) {paths : List Path}
    (hpaths : ∀ path, path ∈ paths ↔
      subject.known path ∧ subject.tracks path = true ∧ files.contains path = true)
    (key : String) :
    subject.IsFresh files key ((found subject.source subject.root files paths).get? key) := by
  cases hget : (found subject.source subject.root files paths).get? key with
  | none =>
      intro path hpath
      by_contra hcontains
      have hmem : path ∈ paths :=
        (hpaths path).mpr ⟨hpath.known, hpath.tracked, by simpa using hcontains⟩
      have hunique : ∀ other ∈ paths, other.key = path.key → other = path :=
        fun other hother => hdistinct other path ((hpaths other).mp hother).1 hpath.known
      rw [← hpath.key_eq, get?_found_of_mem subject.source subject.root files hmem hunique] at hget
      cases hget
  | some contribution =>
      obtain ⟨path, hpath, hkey, rfl⟩ := mem_of_get?_found hget
      obtain ⟨hknown, htracked, hcontains⟩ := (hpaths path).mp hpath
      exact ⟨path, ⟨hknown, htracked, hkey⟩, hcontains, rfl⟩

theorem settled_of_isFresh (h : subject.IsFresh files key value) :
    subject.Settled files waiting key value := by
  refine ⟨fun contribution hvalue => ?_, .inr (.inl h)⟩
  rw [hvalue] at h
  obtain ⟨path, hpath, -, rfl⟩ := h
  rwa [read_path]

/-- Only one value is right for a key. -/
theorem IsFresh.eq (hdistinct : subject.Distinct) {other : Option (Contribution α)}
    (h : subject.IsFresh files key value)
    (hother : subject.IsFresh files key other) : value = other := by
  cases value with
  | none =>
      cases other with
      | none => rfl
      | some contribution =>
          obtain ⟨path, hpath, hcontains, -⟩ := hother
          rw [h path hpath] at hcontains
          cases hcontains
  | some contribution =>
      obtain ⟨path, hpath, hcontains, rfl⟩ := h
      cases other with
      | none =>
          rw [hother path hpath] at hcontains
          cases hcontains
      | some contribution =>
          obtain ⟨path', hpath', -, rfl⟩ := hother
          rw [hpath.eq hdistinct hpath'.known hpath'.key_eq]

/-! ### Events that wait -/

/-- What the waiting events say is so, unless one behind them will say more about the path. -/
def Truthful (subject : Subject α β) (files : Files) : List FileEvent → Prop
  | [] => True
  | event :: later =>
      (∀ path ∈ event.touched, subject.known path ∧
        (files.contains path = true ∨ Named later path.key)) ∧
      (∀ path ∈ event.removed, subject.known path ∧
        (files.contains path = false ∨ Named later path.key)) ∧
      Truthful subject files later

theorem truthful_of_forall
    (hknown : ∀ event ∈ events, ∀ path ∈ event.removed ++ event.touched, subject.known path)
    (hpresent : ∀ event ∈ events, ∀ path ∈ event.touched, files.contains path = true)
    (habsent : ∀ event ∈ events, ∀ path ∈ event.removed, files.contains path = false) :
    subject.Truthful files events := by
  induction events with
  | nil => trivial
  | cons event later ih =>
      rw [List.forall_mem_cons] at hknown hpresent habsent
      refine ⟨fun path hpath => ?_, fun path hpath => ?_, ih hknown.2 hpresent.2 habsent.2⟩
      · exact ⟨hknown.1 path (List.mem_append_right _ hpath), .inl (hpresent.1 path hpath)⟩
      · exact ⟨hknown.1 path (List.mem_append_left _ hpath), .inl (habsent.1 path hpath)⟩

theorem Truthful.change (hhonest : subject.Honest old new events)
    (h : subject.Truthful old waiting) : subject.Truthful new (waiting ++ events) := by
  induction waiting with
  | nil => exact truthful_of_forall hhonest.known hhonest.present hhonest.absent
  | cons event later ih =>
      obtain ⟨htouched, hremoved, hlater⟩ := h
      refine ⟨fun path hpath => ?_, fun path hpath => ?_, ih hlater⟩
      · obtain ⟨hknown, hold⟩ := htouched path hpath
        exact ⟨hknown, hhonest.contains_or_named hknown hold⟩
      · obtain ⟨hknown, hold⟩ := hremoved path hpath
        exact ⟨hknown, hhonest.contains_or_named hknown hold⟩

/-! ### Plans -/

/-- A cache is about a subject. -/
structure Of (subject : Subject α β) (cache : Cache α β) : Prop where
  root_eq : cache.root = subject.root
  filter_eq : cache.filter = subject.filter

theorem Of.tracks_eq {cache : Cache α β} (h : subject.Of cache) :
    cache.tracks subject.source = subject.tracks := by
  funext path
  rw [Cache.tracks, Subject.tracks, h.root_eq, h.filter_eq]

/-- What a refresh leaves is about the same, and every value in it is right. -/
theorem Of.refresh {set : ControllerSet} {cache refreshed : Cache α β} (h : subject.Of cache)
    (hdistinct : subject.Distinct) (hscans : subject.Scans files)
    (hrefreshed : (cache.refresh subject.source set files).2 = refreshed) :
    subject.Of refreshed ∧ refreshed.Current subject.source set ∧
      ∀ key, subject.IsFresh files key (refreshed.contributions.get? key) := by
  obtain ⟨paths, hcollect, hpaths⟩ := hscans
  rw [← h.root_eq, ← h.filter_eq] at hcollect
  obtain ⟨hfound, hcurrent, hroot, hfilter⟩ := refresh_of_collect set hcollect
  rw [hrefreshed] at hfound hcurrent hroot hfilter
  refine ⟨⟨hroot.trans h.root_eq, hfilter.trans h.filter_eq⟩, hcurrent, fun key => ?_⟩
  rw [hfound, h.root_eq]
  exact isFresh_found hdistinct hpaths key

theorem Of.scene_eq {cache : Cache α β} (h : subject.Of cache) (files : Files) :
    cache.scene files = { root := subject.root, files } := by
  rw [Cache.scene, h.root_eq]

section Plan

variable {set : ControllerSet} {cache : Cache α β} {event : FileEvent} {later : List FileEvent}

theorem last?_trackedEntries_ne_none (hof : subject.Of cache) {path : Path}
    (hpath : path ∈ event.touched) (htracked : subject.tracks path = true) :
    KeyMap.last? (cache.trackedEntries subject.source event.touched) path.key ≠ none := by
  intro hnone
  have huntracked := (last?_trackedEntries_eq_none_iff _ _).mp hnone path hpath rfl
  rw [hof.tracks_eq, htracked] at huntracked
  cases huntracked

/-- A tracked path that an event says has changed is read for it. -/
theorem isSome_targets_of_touched (hof : subject.Of cache) (hkeyed : Keyed cache.contributions)
    {path : Path} (hpath : path ∈ event.touched) (htracked : subject.tracks path = true) :
    ((cache.plan subject.source event.removed event.touched).targets.get? path.key).isSome =
      true := by
  rw [get?_plan_targets subject.source hkeyed, Option.isSome_or, Bool.or_eq_true_iff]
  exact .inl (Option.isSome_iff_ne_none.mpr (last?_trackedEntries_ne_none hof hpath htracked))

/-- An event does not name the key of a file that is read for what it watches. -/
theorem not_mem_keys_of_dependent (hdistinct : subject.Distinct) (hof : subject.Of cache)
    (htruthful : subject.Truthful files (event :: later)) {contribution : Contribution α}
    (hown : subject.Own key contribution.path)
    (hget : cache.contributions.get? key = some contribution)
    (hnone : KeyMap.last? (cache.trackedEntries subject.source event.touched) key = none)
    (hkept : key ∉ cache.knownKeys event.removed) : key ∉ event.keys := by
  intro hkey
  obtain ⟨path, hpath, rfl⟩ := List.mem_map.mp hkey
  rcases List.mem_append.mp hpath with hremoved | htouched
  · refine hkept (List.mem_filter.mpr ⟨List.mem_map_of_mem hremoved, ?_⟩)
    rw [KeyMap.contains_eq_isSome_get?, hget]
    rfl
  · obtain ⟨hknown, -⟩ := htruthful.1 path htouched
    have hsame := hown.eq hdistinct hknown rfl
    have htracked : subject.tracks path = true := by
      rw [hsame]
      exact hown.tracked
    exact last?_trackedEntries_ne_none hof htouched htracked hnone

variable (hdistinct : subject.Distinct) (hof : subject.Of cache)
  (hkeyed : Keyed cache.contributions) (htruthful : subject.Truthful files (event :: later))

include hdistinct hof hkeyed htruthful

/-- Where an event names a key and nothing is to be read for it, nothing is to stand there. -/
theorem settled_none_of_named (hkey : key ∈ event.keys)
    (htarget : (cache.plan subject.source event.removed event.touched).targets.get? key = none) :
    subject.Settled files later key none := by
  refine ⟨fun _ hvalue => (nomatch hvalue), ?_⟩
  obtain ⟨path, hpath, hpathKey⟩ := List.mem_map.mp hkey
  rcases List.mem_append.mp hpath with hremoved | htouched
  · obtain ⟨hknown, habsent | hnamed⟩ := htruthful.2.1 path hremoved
    · refine .inr (.inl fun other hother => ?_)
      rwa [← hother.eq hdistinct hknown hpathKey]
    · exact .inl (hpathKey ▸ hnamed)
  · -- The path is not tracked, or else it would be read.
    obtain ⟨hknown, -⟩ := htruthful.1 path htouched
    refine .inr (.inl fun other hother => ?_)
    have hsame := hother.eq hdistinct hknown hpathKey
    have htracked : subject.tracks path = true := by
      rw [hsame]
      exact hother.tracked
    have hsome := isSome_targets_of_touched hof hkeyed htouched htracked
    rw [hpathKey, htarget] at hsome
    cases hsome

variable (hsettled : ∀ key, subject.Settled files (event :: later) key
  (cache.contributions.get? key))

include hsettled

/-- What is read for an event is a file that is there, or of which an event is yet to come. -/
theorem own_of_target {path : Path}
    (h : (cache.plan subject.source event.removed event.touched).targets.get? key = some path) :
    subject.Own key path ∧ (files.contains path = true ∨ Named later key) := by
  rcases plan_targets_cases subject.source hkeyed h with
    ⟨htouched, htracks, hkey⟩ | ⟨hnone, hkept, contribution, hcontribution, rfl⟩
  · rw [hof.tracks_eq] at htracks
    subst hkey
    obtain ⟨hknown, hcontains⟩ := htruthful.1 path htouched
    exact ⟨⟨hknown, htracks, rfl⟩, hcontains⟩
  · have hvalue := hsettled key
    rw [hcontribution] at hvalue
    have hown := hvalue.own contribution rfl
    refine ⟨hown, ?_⟩
    have hkey := not_mem_keys_of_dependent hdistinct hof htruthful hown hcontribution hnone hkept
    rcases hvalue.right with hnamed | ⟨path, hpath, hcontains, rfl⟩ | ⟨_, heq, hcontains, -⟩
    · exact .inr (hnamed.cases.resolve_left hkey)
    · rw [read_path]
      exact .inl hcontains
    · obtain rfl := Option.some.inj heq
      exact .inl hcontains

/-- What the plan for an event does not touch is settled without the event. -/
theorem settled_of_not_planned
    (htarget : (cache.plan subject.source event.removed event.touched).targets.get? key = none)
    (hremoved : key ∉ (cache.plan subject.source event.removed event.touched).removed) :
    subject.Settled files later key (cache.contributions.get? key) := by
  obtain ⟨-, hunknown, hunwatched⟩ :=
    (plan_leaves_iff subject.source hkeyed).mp ⟨htarget, hremoved⟩
  by_cases hkey : key ∈ event.keys
  · rw [hunknown hkey]
    exact settled_none_of_named hdistinct hof hkeyed htruthful hkey htarget
  · have hvalue := hsettled key
    refine ⟨hvalue.own, ?_⟩
    rcases hvalue.right with hnamed | hfresh | ⟨contribution, heq, hcontains, watched, hmem, hnamed⟩
    · exact .inl (hnamed.cases.resolve_left hkey)
    · exact .inr (.inl hfresh)
    · refine .inr (.inr ⟨contribution, heq, hcontains, watched, hmem, ?_⟩)
      refine hnamed.cases.resolve_left fun hhit => ?_
      -- A file that watches a path of the event would be read.
      have hany : contribution.watched.any
          ((event.removed ++ event.touched).map Path.key).contains = true :=
        List.any_eq_true.mpr ⟨watched, hmem, List.contains_iff_mem.mpr hhit⟩
      rw [hunwatched contribution heq] at hany
      cases hany

end Plan

end Subject

/-! ### Calls under way -/

namespace Update

/-- An update that leaves a key alone. -/
def Leaves (key : String) : Update α → Prop
  | .planned plan => plan.targets.get? key = none ∧ key ∉ plan.removed
  | .read removed contributions => (byKey contributions).get? key = none ∧ key ∉ removed

/-- An update whose values are settled, or will be once they are read. -/
def Sound (subject : Subject α β) (files : Files) (waiting : List FileEvent) : Update α → Prop
  | .planned plan =>
      plan.targets.Ordered ∧
      (∀ key path, plan.targets.get? key = some path →
        subject.Own key path ∧ (files.contains path = true ∨ Named waiting key)) ∧
      ∀ key ∈ plan.removed, plan.targets.get? key = none →
        subject.Settled files waiting key none
  | .read removed contributions =>
      (∀ key contribution, (byKey contributions).get? key = some contribution →
        subject.Settled files waiting key (some contribution)) ∧
      ∀ key ∈ removed, (byKey contributions).get? key = none →
        subject.Settled files waiting key none

theorem Sound.change {subject : Subject α β} {old new : Files} {waiting events : List FileEvent}
    (hlocal : subject.source.IsLocal) (hhonest : subject.Honest old new events)
    {update : Update α} (h : update.Sound subject old waiting) :
    update.Sound subject new (waiting ++ events) := by
  cases update with
  | planned plan =>
      obtain ⟨hordered, htargets, hremoved⟩ := h
      refine ⟨hordered, fun key path hpath => ?_, fun key hkey htarget => ?_⟩
      · obtain ⟨hown, hold⟩ := htargets key path hpath
        rw [← hown.key_eq] at hold ⊢
        exact ⟨⟨hown.known, hown.tracked, rfl⟩, hhonest.contains_or_named hown.known hold⟩
      · exact (hremoved key hkey htarget).change hlocal hhonest
  | read removed contributions =>
      obtain ⟨hread, hremoved⟩ := h
      exact ⟨fun key contribution hget => (hread key contribution hget).change hlocal hhonest,
        fun key hkey hget => (hremoved key hkey hget).change hlocal hhonest⟩

end Update

/-- A refresh whose values are settled, going by the events issued since the files were read. -/
def Refreshing.Sound (subject : Subject α β) (files : Files) (waiting : List FileEvent)
    (generation : Nat) : Refreshing α → Prop
  | .idle => True
  | .begun number => number = generation
  | .scanned number contributions news =>
      number = generation ∧ ∃ earlier since, waiting = earlier ++ since ∧ since.length = news ∧
        ∀ key, subject.Settled files since key ((byKey contributions).get? key)

theorem Refreshing.Sound.change {subject : Subject α β} {old new : Files}
    {waiting events : List FileEvent} {generation : Nat} (hlocal : subject.source.IsLocal)
    (hhonest : subject.Honest old new events) {refreshing : Refreshing α}
    (h : refreshing.Sound subject old waiting generation) :
    (refreshing.hear events.length).Sound subject new (waiting ++ events) generation := by
  cases refreshing with
  | idle => trivial
  | begun number => exact h
  | scanned number contributions news =>
      obtain ⟨hnumber, earlier, since, rfl, rfl, hsettled⟩ := h
      refine ⟨hnumber, earlier, since ++ events, List.append_assoc _ _ _, List.length_append, ?_⟩
      exact fun key => (hsettled key).change hlocal hhonest

/-- An event that was issued before the files were read is not among those issued since. -/
theorem Refreshing.Sound.take {subject : Subject α β} {files : Files} {event : FileEvent}
    {later : List FileEvent} {generation : Nat} {refreshing : Refreshing α}
    (h : refreshing.Sound subject files (event :: later) generation)
    (hnews : refreshing.news < (event :: later).length) :
    refreshing.Sound subject files later generation := by
  cases refreshing with
  | idle => trivial
  | begun number => exact h
  | scanned number contributions news =>
      obtain ⟨hnumber, earlier, since, heq, rfl, hvalues⟩ := h
      cases earlier with
      | nil =>
          -- All events that wait were issued since, which the turn rules out.
          rw [heq] at hnews
          exact absurd hnews (Nat.lt_irrefl _)
      | cons first earlier =>
          obtain ⟨-, rfl⟩ := List.cons.inj heq
          exact ⟨hnumber, earlier, since, rfl, rfl, hvalues⟩

namespace Ongoing

variable {subject : Subject α β} {set : ControllerSet} {state : Ongoing α β}

/-- What holds while updates are made in turn. -/
structure Sound (subject : Subject α β) (set : ControllerSet) (state : Ongoing α β) : Prop where
  of_subject : subject.Of state.cache
  current : state.cache.Current subject.source set
  scans : subject.Scans state.files
  truthful : subject.Truthful state.files state.waiting
  /-- What no update is about to replace is settled. -/
  entries : ∀ key, (∀ update ∈ state.updates, update.Leaves key) →
    subject.Settled state.files state.waiting key (state.cache.contributions.get? key)
  one_update : state.updates.length ≤ 1
  updates : ∀ update ∈ state.updates, update.Sound subject state.files state.waiting
  refreshing : state.refreshing.Sound subject state.files state.waiting state.cache.generation

theorem Sound.settled (h : state.Sound subject set) (hupdates : state.updates = []) (key : String) :
    subject.Settled state.files state.waiting key (state.cache.contributions.get? key) := by
  refine h.entries key fun _ hupdate => ?_
  rw [hupdates] at hupdate
  cases hupdate

theorem Sound.change (hlocal : subject.source.IsLocal) {files : Files} {events : List FileEvent}
    (hscans : subject.Scans files) (hhonest : subject.Honest state.files files events)
    (h : state.Sound subject set) :
    Sound subject set { state with
      files
      waiting := state.waiting ++ events
      refreshing := state.refreshing.hear events.length } where
  of_subject := h.of_subject
  current := h.current
  scans := hscans
  truthful := h.truthful.change hhonest
  entries key hleaves := (h.entries key hleaves).change hlocal hhonest
  one_update := h.one_update
  updates update hupdate := (h.updates update hupdate).change hlocal hhonest
  refreshing := h.refreshing.change hlocal hhonest

theorem Sound.take (hdistinct : subject.Distinct) {event : FileEvent} {later : List FileEvent}
    (hwaiting : state.waiting = event :: later) (hupdates : state.updates = [])
    (hnews : state.refreshing.news < state.waiting.length) (h : state.Sound subject set) :
    Sound subject set (state.take subject.source 0 event) := by
  have htruthful := h.truthful
  have hsettled := h.settled hupdates
  have hrefreshing := h.refreshing
  rw [hwaiting] at htruthful hsettled hrefreshing hnews
  rw [Ongoing.take_first hwaiting hupdates h.current.populated]
  let plan := state.cache.plan subject.source event.removed event.touched
  have hkeyed := h.current.keyed
  constructor
  · exact h.of_subject
  · exact h.current
  · exact h.scans
  · exact htruthful.2.2
  · intro key hleaves
    -- An empty plan is dropped at once, and leaves every key alone.
    have hplan : plan.targets.get? key = none ∧ key ∉ plan.removed := by
      by_cases hempty : plan.isEmpty = true
      · obtain ⟨htargets, hremoved⟩ := Plan.eq_empty_of_isEmpty hempty
        rw [htargets, hremoved]
        exact ⟨KeyMap.get?_empty key, List.not_mem_nil⟩
      · exact hleaves (.planned plan) (by simp [plan, hempty])
    exact Subject.settled_of_not_planned hdistinct h.of_subject hkeyed htruthful hsettled hplan.1
      hplan.2
  · change (if plan.isEmpty = true then _ else _ : List (Update α)).length ≤ 1
    split
    · exact Nat.zero_le _
    · exact Nat.le_refl _
  · intro update hupdate
    have hplanned : update = .planned plan := by
      by_cases hempty : plan.isEmpty = true
      · simp [plan, hempty] at hupdate
      · simpa [plan, hempty] using hupdate
    rw [hplanned]
    refine ⟨ordered_plan_targets _ _ _ _, fun key path hpath => ?_, fun key hkey htarget => ?_⟩
    · exact Subject.own_of_target hdistinct h.of_subject hkeyed htruthful hsettled hpath
    · rw [mem_plan_removed_iff] at hkey
      refine Subject.settled_none_of_named hdistinct h.of_subject hkeyed htruthful ?_ htarget
      rw [FileEvent.keys, List.map_append, List.mem_append]
      exact hkey.2.imp_right And.left
  · exact hrefreshing.take hnews

/-- With one update at most, the update that is made is the first and the only one. -/
theorem Sound.updates_eq (h : state.Sound subject set) {index : Nat} {update : Update α}
    (hupdate : state.updates[index]? = some update) : index = 0 ∧ state.updates = [update] := by
  have hone := h.one_update
  match hupdates : state.updates with
  | [] =>
      rw [hupdates] at hupdate
      cases hupdate
  | [only] =>
      rw [hupdates] at hupdate
      cases index with
      | zero => exact ⟨rfl, by rw [Option.some.inj hupdate]⟩
      | succ index => cases hupdate
  | _ :: _ :: _ =>
      rw [hupdates] at hone
      simp at hone

theorem Sound.read {plan : Plan} (hupdates : state.updates = [.planned plan])
    (h : state.Sound subject set) :
    Sound subject set { state with updates := [.read plan.removed
      (plan.targets.values.map (subject.source.read (state.cache.scene state.files)))] } := by
  obtain ⟨hordered, htargets, hremoved⟩ := h.updates (.planned plan) (by rw [hupdates]; simp)
  rw [h.of_subject.scene_eq]
  have hget (key : String) : (byKey (plan.targets.values.map (subject.read state.files))).get? key =
      (plan.targets.get? key).map (subject.read state.files) :=
    get?_byKey_read subject.source _ hordered (fun htarget => (htargets _ _ htarget).1.key_eq) key
  refine ⟨h.of_subject, h.current, h.scans, h.truthful, fun key hleaves => ?_, Nat.le_refl _, ?_,
    h.refreshing⟩
  · refine h.entries key fun update hupdate => ?_
    rw [hupdates] at hupdate
    obtain rfl := List.mem_singleton.mp hupdate
    obtain ⟨hnone, hkept⟩ := hleaves _ List.mem_cons_self
    exact ⟨Option.map_eq_none_iff.mp ((hget key).symm.trans hnone), hkept⟩
  · intro update hupdate
    obtain rfl := List.mem_singleton.mp hupdate
    refine ⟨fun key contribution hcontribution => ?_, fun key hkey hnone => ?_⟩
    · obtain ⟨path, hpath, rfl⟩ := Option.map_eq_some_iff.mp ((hget key).symm.trans hcontribution)
      obtain ⟨hown, hcontains⟩ := htargets key path hpath
      exact Subject.settled_read hown hcontains
    · exact hremoved key hkey (Option.map_eq_none_iff.mp ((hget key).symm.trans hnone))

theorem Sound.commit {removed : List String} {contributions : List (Contribution α)}
    (hupdates : state.updates = [.read removed contributions]) (h : state.Sound subject set) :
    Sound subject set { state with
      cache := state.cache.carryOut subject.source set removed contributions
      updates := [] } := by
  obtain ⟨hread, hremoved⟩ := h.updates (.read removed contributions) (by rw [hupdates]; simp)
  refine ⟨⟨h.of_subject.root_eq, h.of_subject.filter_eq⟩, h.current.carryOut _ _, h.scans,
    h.truthful, fun key _ => ?_, Nat.zero_le _, fun _ hupdate => (nomatch hupdate), h.refreshing⟩
  -- What was read replaces what stood there; the rest is removed, or was not touched by the plan.
  rw [get?_carryOut]
  cases hget : (byKey contributions).get? key with
  | some contribution => exact hread key contribution hget
  | none =>
      rw [Option.none_or]
      by_cases hkey : key ∈ removed
      · rw [if_pos hkey]
        exact hremoved key hkey hget
      · rw [if_neg hkey]
        refine h.entries key fun update hupdate => ?_
        rw [hupdates] at hupdate
        obtain rfl := List.mem_singleton.mp hupdate
        exact ⟨hget, hkey⟩

theorem Sound.begin (h : state.Sound subject set) :
    Sound subject set { state with
      cache := state.cache.begin.2
      refreshing := .begun state.cache.begin.1 } :=
  ⟨⟨h.of_subject.root_eq, h.of_subject.filter_eq⟩,
    ⟨h.current.populated, h.current.keyed, h.current.snapshot_eq⟩, h.scans, h.truthful, h.entries,
    h.one_update, h.updates, rfl⟩

theorem Sound.scan (hdistinct : subject.Distinct) {number : Nat}
    (hrefreshing : state.refreshing = .begun number) (h : state.Sound subject set) :
    ∃ contributions, state.cache.readAll subject.source state.files = .ok contributions ∧
      Sound subject set { state with refreshing := .scanned number contributions 0 } := by
  obtain ⟨paths, hcollect, hpaths⟩ := h.scans
  have hread : state.cache.readAll subject.source state.files =
      .ok (paths.map (subject.read state.files)) := by
    rw [readAll, h.of_subject.root_eq, h.of_subject.filter_eq, hcollect, h.of_subject.scene_eq]
    rfl
  have hnumber : number = state.cache.generation := by
    have hbegun := h.refreshing
    rwa [hrefreshing] at hbegun
  refine ⟨_, hread, h.of_subject, h.current, h.scans, h.truthful, h.entries, h.one_update,
    h.updates, hnumber, state.waiting, [], (List.append_nil _).symm, rfl, fun key => ?_⟩
  exact Subject.settled_of_isFresh (Subject.isFresh_found hdistinct hpaths key)

theorem Sound.finish {number news : Nat} {contributions : List (Contribution α)}
    (hrefreshing : state.refreshing = .scanned number contributions news)
    (h : state.Sound subject set) :
    Sound subject set { state with
      cache := state.cache.commit subject.source set number contributions
      refreshing := .idle } := by
  have hscanned := h.refreshing
  rw [hrefreshing] at hscanned
  obtain ⟨hnumber, earlier, since, hwaiting, -, hsettled⟩ := hscanned
  -- No other refresh has taken a number since, so this one commits.
  rw [Cache.commit, if_neg (by simp [hnumber])]
  refine ⟨⟨h.of_subject.root_eq, h.of_subject.filter_eq⟩, ⟨rfl, keyed_byKey _, rfl⟩, h.scans,
    h.truthful, fun key _ => ?_, h.one_update, h.updates, trivial⟩
  refine (hsettled key).mono ?_
  rw [hwaiting]
  exact List.subset_append_right _ _

/-! ### Runs in turn -/

/-- An action that keeps the turn.  Changes are reported by the events issued with them.  The oldest
event is taken up first, while no update is being made; and while a refresh is about to commit, only
one issued before the refresh has read the files. -/
def InTurn (subject : Subject α β) (state : Ongoing α β) : Action → Prop
  | .change files events => subject.Scans files ∧ subject.Honest state.files files events
  | .take index =>
      index = 0 ∧ state.updates = [] ∧ state.refreshing.news < state.waiting.length
  | _ => True

/-- Actions that keep the turn, one after another. -/
def AllInTurn (subject : Subject α β) (set : ControllerSet) (state : Ongoing α β) :
    List Action → Prop
  | [] => True
  | action :: rest => state.InTurn subject action ∧
      ∀ next, act subject.source set state action = some next → AllInTurn subject set next rest

theorem Sound.act (hlocal : subject.source.IsLocal) (hdistinct : subject.Distinct)
    {action : Action} {next : Ongoing α β} (hturn : state.InTurn subject action)
    (hnext : Cache.act subject.source set state action = some next)
    (h : state.Sound subject set) : next.Sound subject set := by
  cases action with
  | change files events =>
      obtain rfl := Option.some.inj hnext
      exact h.change hlocal hturn.1 hturn.2
  | take index =>
      obtain ⟨rfl, hupdates, hnews⟩ := hturn
      obtain ⟨event, hevent, rfl⟩ := Option.map_eq_some_iff.mp hnext
      match hwaiting : state.waiting with
      | [] =>
          rw [hwaiting] at hevent
          cases hevent
      | first :: later =>
          rw [hwaiting] at hevent
          obtain rfl := Option.some.inj hevent
          exact h.take hdistinct hwaiting hupdates hnews
  | read index =>
      simp only [Cache.act] at hnext
      split at hnext
      · next plan hplan =>
          obtain ⟨rfl, hupdates⟩ := h.updates_eq hplan
          obtain rfl := Option.some.inj hnext
          rw [hupdates]
          exact h.read hupdates
      · cases hnext
  | commit index =>
      simp only [Cache.act] at hnext
      split at hnext
      · next removed contributions hread =>
          obtain ⟨rfl, hupdates⟩ := h.updates_eq hread
          obtain rfl := Option.some.inj hnext
          rw [hupdates]
          exact h.commit hupdates
      · cases hnext
  | begin =>
      simp only [Cache.act] at hnext
      split at hnext
      · obtain rfl := Option.some.inj hnext
        exact h.begin
      · cases hnext
  | scan =>
      simp only [Cache.act] at hnext
      split at hnext
      · next number hbegun =>
          obtain ⟨contributions, hread, hscanned⟩ := h.scan hdistinct hbegun
          rw [hread] at hnext
          obtain rfl := Option.some.inj hnext
          exact hscanned
      · cases hnext
  | finish =>
      simp only [Cache.act] at hnext
      split at hnext
      · next number contributions news hscanned =>
          obtain rfl := Option.some.inj hnext
          exact h.finish hscanned
      · cases hnext

theorem Sound.run (hlocal : subject.source.IsLocal) (hdistinct : subject.Distinct)
    {actions : List Action} {final : Ongoing α β} (hturn : state.AllInTurn subject set actions)
    (hfinal : Cache.run subject.source set state actions = some final)
    (h : state.Sound subject set) : final.Sound subject set := by
  induction actions generalizing state with
  | nil =>
      obtain rfl := Option.some.inj hfinal
      exact h
  | cons action rest ih =>
      obtain ⟨next, hnext, hrest⟩ := Option.bind_eq_some_iff.mp hfinal
      exact ih (hturn.2 next hnext) hrest (h.act hlocal hdistinct hturn.1 hnext)

/-- A cache that a refresh has filled, with no calls under way. -/
theorem sound_refreshed (hdistinct : subject.Distinct) {cache : Cache α β}
    (hof : subject.Of cache) {files : Files} (hscans : subject.Scans files) :
    Sound subject set { files, cache := (cache.refresh subject.source set files).2 } := by
  obtain ⟨hrefreshed, hcurrent, hfresh⟩ := hof.refresh hdistinct hscans rfl
  exact ⟨hrefreshed, hcurrent, hscans, trivial,
    fun key _ => Subject.settled_of_isFresh (hfresh key), Nat.zero_le _,
    fun _ hupdate => (nomatch hupdate), trivial⟩

/-- When nothing is left to be done, the cache holds what a refresh finds. -/
theorem Sound.isFresh (hdone : state.isDone = true) (h : state.Sound subject set) (key : String) :
    subject.IsFresh state.files key (state.cache.contributions.get? key) := by
  simp only [isDone, Bool.and_eq_true, List.isEmpty_iff] at hdone
  obtain ⟨⟨hwaiting, hupdates⟩, -⟩ := hdone
  -- No event waits any more, so what is settled is right.
  have hnone (name : String) : ¬ Named state.waiting name := by
    rw [hwaiting]
    rintro ⟨event, hevent, -⟩
    cases hevent
  rcases (h.settled hupdates key).right with hnamed | hfresh | ⟨-, -, -, watched, -, hnamed⟩
  · exact absurd hnamed (hnone key)
  · exact hfresh
  · exact absurd hnamed (hnone watched)

end Ongoing

end Cache

open Cache

/-- **Updates in turn are not lost.**  A cache is filled by a refresh.  Then files change, events
that report the changes are issued and taken up, and refreshes are made, one at a time, with their
steps in any order that keeps the turn.  When nothing is left to be done, the contributions and the
list are those that a refresh gives for the files as they are then. -/
theorem updates_in_turn_are_not_lost (subject : Subject α β) (hlocal : subject.source.IsLocal)
    (hdistinct : subject.Distinct) (set : ControllerSet) (cache : Cache α β)
    (hof : subject.Of cache) (files : Files) (hscans : subject.Scans files)
    (actions : List Action) (final : Ongoing α β)
    (hturn : Ongoing.AllInTurn subject set
      { files, cache := (cache.refresh subject.source set files).2 } actions)
    (hrun : run subject.source set
      { files, cache := (cache.refresh subject.source set files).2 } actions = some final)
    (hdone : final.isDone = true) :
    let refreshed := (final.cache.refresh subject.source set final.files).2
    final.cache.contributions = refreshed.contributions ∧
      final.cache.snapshot = refreshed.snapshot := by
  intro refreshed
  have hsound : final.Sound subject set :=
    (Ongoing.sound_refreshed hdistinct hof hscans).run hlocal hdistinct hturn hrun
  obtain ⟨-, hcurrent, hfresh⟩ : subject.Of refreshed ∧ _ :=
    hsound.of_subject.refresh hdistinct hsound.scans rfl
  have hcontributions : final.cache.contributions = refreshed.contributions :=
    hsound.current.keyed.ordered.ext hcurrent.keyed.ordered fun key =>
      (hsound.isFresh hdone key).eq hdistinct (hfresh key)
  refine ⟨hcontributions, ?_⟩
  rw [hsound.current.snapshot_eq, hcurrent.snapshot_eq, hcontributions]

/-! ### A file that quotes another while a refresh is made -/

namespace Quoting

/-- The two files are known by their paths. -/
def subject : Subject String String where
  source := source
  known path := path ∈ paths
  root := cache.root
  filter := cache.filter

/-- The files with the second one gone. -/
def gone : Files where
  disk := { root := .folder "" [.folder "app" [.file "a.txt" "/app/b.txt".toUTF8]] }

theorem mem_paths_iff {path : Path} :
    path ∈ paths ↔ path = ⟨"/app/a.txt"⟩ ∨ path = ⟨"/app/b.txt"⟩ := by
  simp [paths]

theorem distinct : subject.Distinct := by
  have hpaths : ∀ path ∈ paths, ∀ other ∈ paths, path.key = other.key → path = other := by decide
  exact fun path other hpath hother => hpaths path hpath other hother

theorem scans_files (text : String) : subject.Scans (files text) := by
  refine ⟨paths, collect_files text, fun path => ⟨fun hpath => ⟨hpath, ?_⟩, And.left⟩⟩
  rcases mem_paths_iff.mp hpath with rfl | rfl
  · exact ⟨rfl, rfl⟩
  · exact ⟨rfl, rfl⟩

/-- Changes of the second file are reported by events that name it, as long as it is the only one
that is watched. -/
theorem honest_of_named {old new : Files} {events : List FileEvent}
    (hsame : new.content? ⟨"/app/a.txt"⟩ = old.content? ⟨"/app/a.txt"⟩)
    (hwatched : ∀ reader ∈ paths, old.contains reader = true →
      (subject.read old reader).watched = ["/app/b.txt"])
    (hnamed : Named events "/app/b.txt")
    (hknown : ∀ event ∈ events, ∀ path ∈ event.removed ++ event.touched, path ∈ paths)
    (hpresent : ∀ event ∈ events, ∀ path ∈ event.touched, new.contains path = true)
    (habsent : ∀ event ∈ events, ∀ path ∈ event.removed, new.contains path = false) :
    subject.Honest old new events where
  named := by
    rintro path (hpath | ⟨key, reader, hown, hcontains, hmem⟩) hchanged
    · rcases mem_paths_iff.mp hpath with rfl | rfl
      · exact absurd hsame hchanged
      · exact hnamed
    · rw [hwatched reader hown.known hcontains, List.mem_singleton] at hmem
      rwa [hmem]
  known := hknown
  present := hpresent
  absent := habsent

theorem honest_changed : subject.Honest (files "/app/b.txt") (files "/app/a.txt")
    [.changed ⟨"/app/b.txt"⟩] :=
  honest_of_named rfl (by decide +kernel) ⟨_, List.mem_cons_self, List.mem_cons_self⟩
    (by decide) (by decide) (by decide)

/-- The cache after the first refresh. -/
def filled (text : String) : Cache String String :=
  (rebuild source {} { cache with
    generation := 1
    contributions := found source cache.root (files text) paths
    populated := true }).notify

theorem refresh_cache (text : String) : (cache.refresh source {} (files text)).2 = filled text := by
  rw [refresh_of_collect_ok {} (collect_files text)]
  rfl

/-- The cache after the first refresh, and nothing to do. -/
def start : Ongoing String String where
  files := files "/app/b.txt"
  cache := (cache.refresh source {} (files "/app/b.txt")).2

theorem start_eq : start = { files := files "/app/b.txt", cache := filled "/app/b.txt" } := by
  rw [start, refresh_cache]

theorem readAll_filled (text other : String) :
    (filled text).readAll source (files other) =
      .ok (paths.map (source.read ((filled text).scene (files other)))) := by
  have hcollect : (files other).disk.collect (filled text).root (filled text).filter
      source.accepts = .ok paths := collect_files other
  rw [readAll, hcollect]

/-- The second file changes.  A refresh reads the files; before it commits, the event is taken up,
and what was read for it comes last. -/
def overlapping : List Action :=
  [.change (files "/app/a.txt") [.changed ⟨"/app/b.txt"⟩], .begin, .scan, .take 0, .read 0, .finish,
    .commit 0]

theorem allInTurn_overlapping : start.AllInTurn subject {} overlapping := by
  rw [start_eq]
  refine ⟨⟨scans_files _, honest_changed⟩, fun changed hchanged => ?_⟩
  obtain rfl := Option.some.inj hchanged
  refine ⟨trivial, fun begun hbegun => ⟨trivial, fun scanned hscanned => ?_⟩⟩
  obtain rfl := Option.some.inj hbegun
  obtain rfl := Option.some.inj hscanned
  exact ⟨⟨rfl, rfl, Nat.zero_lt_one⟩, fun _ _ => ⟨trivial, fun _ _ => ⟨trivial, fun _ _ =>
    ⟨trivial, fun _ _ => trivial⟩⟩⟩⟩

theorem isDone_overlapping :
    ((run source {} start overlapping).map fun final => final.isDone) = some true := by
  rw [start_eq, overlapping, run_change,
    run_begin_scan rfl (readAll_filled "/app/b.txt" "/app/a.txt")]
  decide +kernel

/-- A refresh reads the files before the second one changes, and commits after the update for the
change. -/
def stale : List Action :=
  [.begin, .scan, .change (files "/app/a.txt") [.changed ⟨"/app/b.txt"⟩], .take 0, .read 0,
    .commit 0, .finish]

/-- The second file is deleted and comes back, and the event for its return is taken up first. -/
def late : List Action :=
  [.change gone [.deleted ⟨"/app/b.txt"⟩], .change (files "/app/b.txt") [.added ⟨"/app/b.txt"⟩],
    .take 1, .read 0, .commit 0, .take 0, .read 0, .commit 0]

end Quoting

/-- A refresh overlaps with an update, and both see the change. -/
theorem quoting_updates_in_turn_are_not_lost :
    ∃ final, run Quoting.source {} Quoting.start Quoting.overlapping = some final ∧
      final.isDone = true ∧
      final.cache.contributions =
        (final.cache.refresh Quoting.source {} final.files).2.contributions ∧
      final.cache.snapshot = (final.cache.refresh Quoting.source {} final.files).2.snapshot := by
  obtain ⟨final, hrun, hdone⟩ := Option.map_eq_some_iff.mp Quoting.isDone_overlapping
  refine ⟨final, hrun, hdone, ?_⟩
  exact updates_in_turn_are_not_lost Quoting.subject Quoting.source_isLocal Quoting.distinct {}
    Quoting.cache ⟨rfl, rfl⟩ _ (Quoting.scans_files _) _ final Quoting.allInTurn_overlapping hrun
    hdone

/-- Out of turn updates are lost.  If a refresh commits what it read before a change, after the
event for the change was handled, the list keeps what the file said before.  If an older event is
taken up after a newer one, a file that is there is missing. -/
theorem updates_out_of_turn_are_lost :
    (Quoting.subject.Honest (Quoting.files "/app/b.txt") (Quoting.files "/app/a.txt")
        [.changed ⟨"/app/b.txt"⟩] ∧
      ((run Quoting.source {} Quoting.start Quoting.stale).map fun final =>
        (final.isDone, final.cache.snapshot)) = some (true, ["/app/b.txt", "/app/b.txt"]) ∧
      (Quoting.cache.refresh Quoting.source {} (Quoting.files "/app/a.txt")).2.snapshot =
        ["/app/a.txt", "/app/b.txt"]) ∧
    Quoting.subject.Honest (Quoting.files "/app/b.txt") Quoting.gone [.deleted ⟨"/app/b.txt"⟩] ∧
      Quoting.subject.Honest Quoting.gone (Quoting.files "/app/b.txt") [.added ⟨"/app/b.txt"⟩] ∧
      ((run Quoting.source {} Quoting.start Quoting.late).map fun final =>
        (final.isDone, final.cache.snapshot)) = some (true, ["/app/b.txt"]) ∧
      (Quoting.cache.refresh Quoting.source {} (Quoting.files "/app/b.txt")).2.snapshot =
        ["/app/b.txt", "/app/b.txt"] := by
  refine ⟨⟨Quoting.honest_changed, ?_, ?_⟩, ?_, ?_, ?_, ?_⟩
  · rw [Quoting.start_eq, Quoting.stale,
      run_begin_scan rfl (Quoting.readAll_filled "/app/b.txt" "/app/b.txt")]
    decide +kernel
  · rw [Quoting.refresh_cache]
    decide +kernel
  · exact Quoting.honest_of_named rfl (by decide +kernel)
      ⟨_, List.mem_cons_self, List.mem_cons_self⟩ (by decide) (by decide) (by decide)
  · exact Quoting.honest_of_named rfl (by decide +kernel)
      ⟨_, List.mem_cons_self, List.mem_cons_self⟩ (by decide) (by decide) (by decide)
  · rw [Quoting.start_eq]
    decide +kernel
  · rw [Quoting.refresh_cache]
    decide +kernel

end NgIndex
