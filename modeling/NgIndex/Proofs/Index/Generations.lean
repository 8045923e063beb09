import NgIndex.Proofs.Index.Tasks

/-!
# Refreshes that overlap

Any number of refreshes of one cache are under way at once.  Each takes its number when it starts
and compares it when it ends, and only the newest of those that have started may commit.  So the
numbers that commit ascend, and a refresh that is overtaken, or whose root cannot be scanned, leaves
the cache as it was.  A newer refresh that fails has started all the same: those before it are
overtaken.

The invariant is that no refresh has a number above the count of the cache, that the newest one has
exactly this number, and that what is over stays over.
-/

namespace NgIndex
namespace Cache

variable {α β : Type}

/-- The number of the refresh that takes a step. -/
def RefreshStep.number (state : Refreshes α β) : RefreshStep → Nat
  | .start => state.cache.begin.1
  | .scan number _ => number
  | .read number _ _ => number
  | .finish number => number

/-- Whether a refresh has ended. -/
def Stage.isOver : Stage α → Bool
  | .over _ => true
  | _ => false

namespace Refreshes

variable {source : Source α β} {set : ControllerSet} {state next final : Refreshes α β}
  {step : RefreshStep} {number : Nat}

/-- Whether the refresh of a number has started. -/
def HasStarted (state : Refreshes α β) (number : Nat) : Prop :=
  ∃ stage, state.stage? number = some stage

/-- How the refresh of a number has ended, if it has. -/
def ending? (state : Refreshes α β) (number : Nat) : Option Ending :=
  match state.stage? number with
  | some (.over ending) => some ending
  | _ => none

/-- What can be seen of the cache is as it was: what the files contribute, the list made from it and
whether the cache is filled.  Nothing was sent, and no refresh has committed. -/
structure Untouched (before after : Refreshes α β) : Prop where
  contributions_eq : after.cache.contributions = before.cache.contributions
  snapshot_eq : after.cache.snapshot = before.cache.snapshot
  populated_eq : after.cache.populated = before.cache.populated
  sent_eq : after.cache.sent = before.cache.sent
  commits_eq : after.commits = before.commits

/-- A step lets a refresh start, brings one that is under way to another stage, or ends one that has
read its files. -/
theorem act_cases (h : state.act source set step = some next) :
    (step = .start ∧
      next = move { state with cache := state.cache.begin.2 } state.cache.begin.1 .begun) ∨
    (∃ old stage : Stage α, (∀ number, step ≠ .finish number) ∧
      state.stage? (step.number state) = some old ∧ old.isOver = false ∧
      next = state.move (step.number state) stage) ∨
    ∃ number done, step = .finish number ∧ state.stage? number = some (.reading [] done) ∧
      next = state.finish source set number done := by
  cases step with
  | start => exact .inl ⟨rfl, (Option.some.inj h).symm⟩
  | scan number disk =>
      simp only [act] at h
      split at h
      · next hstage =>
          have hnot (other : Nat) : RefreshStep.scan number disk ≠ .finish other := by
            intro hsame
            cases hsame
          refine .inr (.inl ?_)
          split at h
          · exact ⟨.begun, _, hnot, hstage, rfl, (Option.some.inj h).symm⟩
          · exact ⟨.begun, _, hnot, hstage, rfl, (Option.some.inj h).symm⟩
      · cases h
  | read number path files =>
      simp only [act] at h
      split at h
      · next left done hstage =>
          have hnot (other : Nat) : RefreshStep.read number path files ≠ .finish other := by
            intro hsame
            cases hsame
          refine .inr (.inl ?_)
          split at h
          · exact ⟨.reading left done, _, hnot, hstage, rfl, (Option.some.inj h).symm⟩
          · cases h
      · cases h
  | finish number =>
      simp only [act] at h
      split at h
      · next done hstage => exact .inr (.inr ⟨number, done, rfl, hstage, (Option.some.inj h).symm⟩)
      · cases h

/-! ### The end of a refresh -/

theorem finish_of_newest (source : Source α β) (set : ControllerSet) (state : Refreshes α β)
    (done : List (Contribution α)) :
    state.finish source set state.cache.generation done =
      { state.move state.cache.generation (.over .committed) with
        cache := (({ state.cache with contributions := byKey done, populated := true } :
          Cache α β).rebuild source set).notify
        commits := state.commits ++ [state.cache.generation] } := by
  simp only [finish, commit, bne_self_eq_false, Bool.false_eq_true, if_false, if_true]

theorem finish_of_overtaken (done : List (Contribution α)) (h : state.cache.generation ≠ number) :
    state.finish source set number done = state.move number (.over .discarded) := by
  have hcommit : state.cache.commit source set number done = state.cache := by
    rw [commit, if_pos (by simpa using h)]
  simp only [finish, if_neg h, hcommit]
  rfl

/-! ### What holds of every run -/

/-- What holds of the refreshes of a cache at any time. -/
structure Sound (state : Refreshes α β) : Prop where
  /-- No number is above the count. -/
  started_le : ∀ {number}, state.HasStarted number → number ≤ state.cache.generation
  /-- The newest refresh has the number of the count. -/
  newest : ∀ {number}, state.HasStarted number → state.HasStarted state.cache.generation
  /-- A refresh that has committed is over. -/
  committed : ∀ number ∈ state.commits, state.stage? number = some (.over .committed)
  /-- The numbers that commit ascend. -/
  ascending : state.commits.Pairwise (· < ·)

theorem sound_idle (cache : Cache α β) : Sound { cache } where
  started_le := fun ⟨_, hstage⟩ => nomatch hstage
  newest := fun ⟨_, hstage⟩ => nomatch hstage
  committed := fun _ hnumber => nomatch hnumber
  ascending := .nil

theorem hasStarted_move_iff {other : Nat} {stage : Stage α} :
    (state.move number stage).HasStarted other ↔ other = number ∨ state.HasStarted other := by
  unfold HasStarted
  rw [move_stage?]
  by_cases h : other = number
  · simp [h]
  · simp [h]

/-- What is over stays over while another refresh goes on. -/
theorem stage?_move_of_over {other : Nat} {old stage : Stage α} {ending : Ending}
    (hold : state.stage? number = some old) (hnot : old.isOver = false)
    (hover : state.stage? other = some (.over ending)) :
    (state.move number stage).stage? other = some (.over ending) := by
  have hne : other ≠ number := by
    rintro rfl
    rw [hover] at hold
    rw [← Option.some.inj hold] at hnot
    cases hnot
  rw [move_stage?, if_neg hne, hover]

/-- The next number is above all that have started. -/
theorem Sound.ne_begin (h : state.Sound) (hstarted : state.HasStarted number) :
    number ≠ state.cache.begin.1 := by
  have hle := h.started_le hstarted
  change number ≠ state.cache.generation + 1
  omega

theorem Sound.start (h : state.Sound) :
    Sound (move { state with cache := state.cache.begin.2 } state.cache.begin.1 .begun) where
  started_le := by
    intro number hnumber
    change number ≤ state.cache.generation + 1
    rcases hasStarted_move_iff.mp hnumber with rfl | hstarted
    · exact le_refl _
    · exact le_trans (h.started_le hstarted) (Nat.le_succ _)
  newest := fun _ => hasStarted_move_iff.mpr (.inl rfl)
  committed := by
    intro number hnumber
    have hstage := h.committed number hnumber
    rw [move_stage?, if_neg (h.ne_begin ⟨_, hstage⟩)]
    exact hstage
  ascending := h.ascending

/-- A refresh that is under way comes to another stage. -/
theorem Sound.move {old : Stage α} (h : state.Sound) (hold : state.stage? number = some old)
    (hnot : old.isOver = false) (stage : Stage α) : (state.move number stage).Sound where
  started_le := by
    intro other hother
    rcases hasStarted_move_iff.mp hother with rfl | hstarted
    · exact h.started_le ⟨old, hold⟩
    · exact h.started_le hstarted
  newest := fun _ => hasStarted_move_iff.mpr (.inr (h.newest ⟨old, hold⟩))
  committed := fun other hother => stage?_move_of_over hold hnot (h.committed other hother)
  ascending := h.ascending

theorem Sound.finish {done : List (Contribution α)} (h : state.Sound)
    (hstage : state.stage? number = some (.reading [] done)) :
    (state.finish source set number done).Sound := by
  by_cases hnewest : state.cache.generation = number
  · subst hnewest
    have hmoved := h.move hstage rfl (.over .committed)
    rw [finish_of_newest]
    refine ⟨hmoved.started_le, hmoved.newest, ?_, ?_⟩
    · intro other hother
      rcases List.mem_append.mp hother with hother | hother
      · exact hmoved.committed other hother
      · rw [List.mem_singleton.mp hother]
        exact move_stage?_self _ _ _
    · -- What has committed has started, and it is over while this one is not.
      refine List.pairwise_append.mpr ⟨h.ascending, List.pairwise_singleton _ _, ?_⟩
      intro other hother new hnew
      obtain rfl := List.mem_singleton.mp hnew
      have hover := h.committed other hother
      refine lt_of_le_of_ne (h.started_le ⟨_, hover⟩) fun hsame => ?_
      rw [hsame, hstage] at hover
      cases hover
  · rw [finish_of_overtaken done hnewest]
    exact h.move hstage rfl _

theorem Sound.act (h : state.Sound) (hact : state.act source set step = some next) :
    next.Sound := by
  rcases act_cases hact with
    ⟨-, rfl⟩ | ⟨old, stage, -, hold, hnot, rfl⟩ | ⟨number, done, -, hstage, rfl⟩
  · exact h.start
  · exact h.move hold hnot stage
  · exact h.finish hstage

theorem Sound.run {steps : List RefreshStep} (h : state.Sound)
    (hrun : state.run source set steps = some final) : final.Sound := by
  induction steps generalizing state with
  | nil =>
      obtain rfl := Option.some.inj hrun
      exact h
  | cons step rest ih =>
      obtain ⟨next, hact, hrest⟩ := Option.bind_eq_some_iff.mp hrun
      exact ih (h.act hact) hrest

/-- What is over stays over. -/
theorem Sound.stage?_act {ending : Ending} (h : state.Sound)
    (hover : state.stage? number = some (.over ending))
    (hact : state.act source set step = some next) :
    next.stage? number = some (.over ending) := by
  rcases act_cases hact with
    ⟨-, rfl⟩ | ⟨old, stage, -, hold, hnot, rfl⟩ | ⟨other, done, -, hstage, rfl⟩
  · rw [move_stage?, if_neg (h.ne_begin ⟨_, hover⟩)]
    exact hover
  · exact stage?_move_of_over hold hnot hover
  · by_cases hnewest : state.cache.generation = other
    · subst hnewest
      rw [finish_of_newest]
      exact stage?_move_of_over hstage rfl hover
    · rw [finish_of_overtaken done hnewest]
      exact stage?_move_of_over hstage rfl hover

theorem Sound.stage?_run {ending : Ending} {steps : List RefreshStep} (h : state.Sound)
    (hover : state.stage? number = some (.over ending))
    (hrun : state.run source set steps = some final) :
    final.stage? number = some (.over ending) := by
  induction steps generalizing state with
  | nil =>
      obtain rfl := Option.some.inj hrun
      exact hover
  | cons step rest ih =>
      obtain ⟨next, hact, hrest⟩ := Option.bind_eq_some_iff.mp hrun
      exact ih (h.act hact) (h.stage?_act hover hact) hrest

/-- Only the end of the newest refresh changes the cache. -/
theorem untouched_of_act (hact : state.act source set step = some next)
    (hnot : step ≠ .finish state.cache.generation) : state.Untouched next := by
  rcases act_cases hact with ⟨-, rfl⟩ | ⟨old, stage, -, -, -, rfl⟩ | ⟨number, done, rfl, -, rfl⟩
  · exact ⟨rfl, rfl, rfl, rfl, rfl⟩
  · exact ⟨rfl, rfl, rfl, rfl, rfl⟩
  · rw [finish_of_overtaken done fun hnewest => hnot (congrArg _ hnewest.symm)]
    exact ⟨rfl, rfl, rfl, rfl, rfl⟩

/-- The end of the newest refresh. -/
theorem act_finish_newest
    (hact : state.act source set (.finish state.cache.generation) = some next) :
    next.stage? state.cache.generation = some (.over .committed) ∧
      next.commits = state.commits ++ [state.cache.generation] ∧
      ∀ done, state.stage? state.cache.generation = some (.reading [] done) →
        next.cache = (({ state.cache with contributions := byKey done, populated := true } :
          Cache α β).rebuild source set).notify := by
  rcases act_cases hact with ⟨hstart, -⟩ | ⟨old, stage, hnot, -⟩ | ⟨number, done, heq, hstage, rfl⟩
  · cases hstart
  · exact absurd rfl (hnot _)
  · obtain rfl := RefreshStep.finish.inj heq
    rw [finish_of_newest]
    refine ⟨move_stage?_self _ _ _, rfl, fun other hother => ?_⟩
    rw [hstage] at hother
    rw [(Stage.reading.inj (Option.some.inj hother)).2]

/-- A refresh that no newer one has overtaken has the number of the count. -/
theorem Sound.eq_generation (h : state.Sound) (hstarted : state.HasStarted number)
    (hnewest : ∀ newer, state.HasStarted newer → newer ≤ number) :
    number = state.cache.generation :=
  le_antisymm (h.started_le hstarted) (hnewest _ (h.newest hstarted))

end Refreshes
end Cache

open Cache

/-- **A refresh that is overtaken changes nothing.**  However the steps of any number of refreshes
follow each other, the numbers that commit ascend.  A refresh does nothing to the cache once one
with a greater number has started, and neither does one that does not commit in the end, be it
because it fails or because it is overtaken.  One that ends before a newer one has started commits
what it has read, and sends the new list once. -/
theorem stale_refreshes_change_nothing (source : Source α β) (set : ControllerSet)
    (cache : Cache α β) (steps : List RefreshStep) (final : Refreshes α β)
    (hrun : Refreshes.run source set { cache } steps = some final) :
    final.commits.Pairwise (· < ·) ∧
    ∀ (earlier later : List RefreshStep) (step : RefreshStep) (state next : Refreshes α β),
      steps = earlier ++ step :: later →
      Refreshes.run source set { cache } earlier = some state →
      state.act source set step = some next →
      ((∃ newer, state.HasStarted newer ∧ step.number state < newer) → state.Untouched next) ∧
      (final.ending? (step.number state) ≠ some .committed → state.Untouched next) ∧
      ∀ number done, step = .finish number → state.stage? number = some (.reading [] done) →
        (∀ newer, state.HasStarted newer → newer ≤ number) →
        next.commits = state.commits ++ [number] ∧
          next.cache = (({ state.cache with contributions := byKey done, populated := true } :
            Cache α β).rebuild source set).notify := by
  refine ⟨((Refreshes.sound_idle cache).run hrun).ascending, ?_⟩
  intro earlier later step state next hsteps hearlier hact
  have hsound : state.Sound := (Refreshes.sound_idle cache).run hearlier
  have hlater : next.run source set later = some final := by
    rw [hsteps, Refreshes.run_append, hearlier, Option.bind_some, Refreshes.run, hact] at hrun
    exact hrun
  refine ⟨?_, ?_, ?_⟩
  · rintro ⟨newer, hnewer, hlt⟩
    refine Refreshes.untouched_of_act hact ?_
    rintro rfl
    exact absurd (hsound.started_le hnewer) (not_le.mpr hlt)
  · intro hending
    refine Refreshes.untouched_of_act hact ?_
    rintro rfl
    -- A refresh that has committed has done so for good.
    have hover := (Refreshes.act_finish_newest hact).1
    have hfinal := (hsound.act hact).stage?_run hover hlater
    exact hending (by simp only [RefreshStep.number, Refreshes.ending?, hfinal])
  · rintro number done rfl hstage hnewest
    obtain rfl := hsound.eq_generation ⟨_, hstage⟩ hnewest
    obtain ⟨-, hcommits, hcache⟩ := Refreshes.act_finish_newest hact
    exact ⟨hcommits, hcache done hstage⟩

/-! ### A refresh that is overtaken by one that fails -/

namespace Overtaking

def files : Files where
  disk := { root := .folder "" [.folder "app" [.file "a.txt" "/app/a.txt".toUTF8]] }

/-- The second refresh starts before the first one ends, and finds no root.  Then there is a third
one. -/
def steps : List RefreshStep :=
  [.start, .scan 1 files.disk, .start, .read 1 ⟨"/app/a.txt"⟩ files, .scan 2 {}, .finish 1,
    .start, .scan 3 files.disk, .read 3 ⟨"/app/a.txt"⟩ files, .finish 3]

end Overtaking

/-- The first two refreshes leave the cache as it was, and the third one commits. -/
theorem overtaking_stale_refreshes_change_nothing :
    ∃ final, Refreshes.run Quoting.source {} { cache := Quoting.cache } Overtaking.steps =
        some final ∧
      [1, 2, 3].map final.ending? =
        [some .discarded, some (.failed ⟨⟨"/app"⟩, .missing⟩), some .committed] ∧
      final.commits = [3] ∧ final.cache.snapshot = ["/app/a.txt"] ∧
      ∀ earlier later step state next, Overtaking.steps = earlier ++ step :: later →
        Refreshes.run Quoting.source {} { cache := Quoting.cache } earlier = some state →
        state.act Quoting.source {} step = some next →
        step.number state = 1 ∨ step.number state = 2 → state.Untouched next := by
  have hends : ((Refreshes.run Quoting.source {} { cache := Quoting.cache } Overtaking.steps).map
      fun final => ([1, 2, 3].map final.ending?, final.commits, final.cache.snapshot)) =
      some ([some .discarded, some (.failed ⟨⟨"/app"⟩, .missing⟩), some .committed], [3],
        ["/app/a.txt"]) := by
    decide +kernel
  obtain ⟨final, hrun, hfinal⟩ := Option.map_eq_some_iff.mp hends
  obtain ⟨hendings, hcommits, hsnapshot⟩ : _ ∧ _ ∧ _ := by simpa only [Prod.mk.injEq] using hfinal
  refine ⟨final, hrun, hendings, hcommits, hsnapshot, ?_⟩
  intro earlier later step state next hsteps hearlier hact hnumber
  have hmoment := (stale_refreshes_change_nothing Quoting.source {} Quoting.cache
    Overtaking.steps final hrun).2 earlier later step state next hsteps hearlier hact
  refine hmoment.2.1 ?_
  simp only [List.map_cons, List.map_nil, List.cons.injEq] at hendings
  rcases hnumber with hnumber | hnumber
  · rw [hnumber, hendings.1]
    decide
  · rw [hnumber, hendings.2.1]
    decide

end NgIndex
