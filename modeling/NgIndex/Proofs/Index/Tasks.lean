import Mathlib.Data.List.Perm.Basic
import NgIndex.Proofs.Index.Convergence

/-!
# Refreshes made of tasks

A refresh takes its number, looks for its files, reads each of them in a task of its own and ends
when all tasks are done.  Any number of refreshes of one cache may be under way, with their steps in
any order, and what a step sees of the files may differ from one step to the next.  A refresh that
ends compares its number and puts what it has read into the cache in one step.

The contributions are put together in the order in which the tasks are done.  Where the files have
distinct keys this order does not count: a refresh leaves the same cache in any order, and each file
contributes once.  Files that share a key count as one; the task that is done last contributes, so
the order counts there and the others are left out.
-/

namespace NgIndex
namespace Cache

variable {α β : Type}

/-- How a refresh ended: what it has read was put into the cache, or it was thrown away since
another refresh had started, or the root could not be scanned. -/
inductive Ending where
  | committed
  | discarded
  | failed (error : ScanError)
  deriving DecidableEq

/-- How far a refresh has come.  A refresh that reads has files left, and what was read from the
others in the order in which their tasks were done. -/
inductive Stage (α : Type) where
  | begun
  | reading (left : List Path) (done : List (Contribution α))
  | over (ending : Ending)

/-- A cache and the refreshes of it. -/
structure Refreshes (α β : Type) where
  cache : Cache α β
  /-- How far the refresh of a number has come, if it has started. -/
  stage? : Nat → Option (Stage α) := fun _ => none
  /-- The numbers of the refreshes that have committed, in the order in which they did. -/
  commits : List Nat := []

/-- A step of a refresh, with what it sees of the files. -/
inductive RefreshStep where
  /-- A refresh starts and takes its number. -/
  | start
  /-- A refresh looks for its files. -/
  | scan (number : Nat) (disk : Disk)
  /-- The task for one of the files is done. -/
  | read (number : Nat) (path : Path) (files : Files)
  /-- A refresh ends, since no file is left. -/
  | finish (number : Nat)

namespace Refreshes

/-- The refresh of a number comes to a stage. -/
def move (state : Refreshes α β) (number : Nat) (stage : Stage α) : Refreshes α β :=
  { state with
    stage? := fun other => if other = number then some stage else state.stage? other }

@[simp] theorem move_cache (state : Refreshes α β) (number : Nat) (stage : Stage α) :
    (state.move number stage).cache = state.cache := rfl

@[simp] theorem move_commits (state : Refreshes α β) (number : Nat) (stage : Stage α) :
    (state.move number stage).commits = state.commits := rfl

theorem move_stage? (state : Refreshes α β) (number other : Nat) (stage : Stage α) :
    (state.move number stage).stage? other =
      if other = number then some stage else state.stage? other := rfl

@[simp] theorem move_stage?_self (state : Refreshes α β) (number : Nat) (stage : Stage α) :
    (state.move number stage).stage? number = some stage :=
  if_pos rfl

@[simp] theorem move_move (state : Refreshes α β) (number : Nat) (first second : Stage α) :
    (state.move number first).move number second = state.move number second := by
  unfold move
  congr 1
  funext other
  by_cases h : other = number
  · simp only [if_pos h]
  · simp only [if_neg h]

/-- A refresh that comes to the stage where it is stays there. -/
theorem move_eq_self {state : Refreshes α β} {number : Nat} {stage : Stage α}
    (h : state.stage? number = some stage) : state.move number stage = state := by
  obtain ⟨cache, stage?, commits⟩ := state
  unfold move
  congr 1
  funext other
  by_cases hother : other = number
  · rw [if_pos hother, hother]
    exact h.symm
  · rw [if_neg hother]

section Act

variable (source : Source α β) (set : ControllerSet)

/-- The end of a refresh that has read its files.  Whether it commits is for the cache to say. -/
def finish (state : Refreshes α β) (number : Nat) (done : List (Contribution α)) :
    Refreshes α β :=
  let cache := state.cache.commit source set number done
  if state.cache.generation = number then
    { state.move number (.over .committed) with cache, commits := state.commits ++ [number] }
  else { state.move number (.over .discarded) with cache }

theorem finish_move (state : Refreshes α β) (number : Nat) (stage : Stage α)
    (done : List (Contribution α)) :
    (state.move number stage).finish source set number done =
      state.finish source set number done := by
  simp only [finish, move_cache, move_move, move_commits]

/-- What a step leads to, if it is possible. -/
def act (state : Refreshes α β) : RefreshStep → Option (Refreshes α β)
  | .start =>
      let (number, cache) := state.cache.begin
      some ({ state with cache }.move number .begun)
  | .scan number disk =>
      match state.stage? number with
      | some .begun =>
          match disk.collect state.cache.root state.cache.filter source.accepts with
          | .error error => some (state.move number (.over (.failed error)))
          | .ok paths => some (state.move number (.reading paths []))
      | _ => none
  | .read number path files =>
      match state.stage? number with
      | some (.reading left done) =>
          if path ∈ left then
            let contribution := source.read (state.cache.scene files) path
            some (state.move number (.reading (left.erase path) (done ++ [contribution])))
          else none
      | _ => none
  | .finish number =>
      match state.stage? number with
      | some (.reading [] done) => some (state.finish source set number done)
      | _ => none

/-- What steps lead to one after another, if they are possible. -/
def run (state : Refreshes α β) : List RefreshStep → Option (Refreshes α β)
  | [] => some state
  | step :: rest => (state.act source set step).bind fun next => next.run rest

end Act

variable {source : Source α β} {set : ControllerSet} {state : Refreshes α β}

theorem run_append (first second : List RefreshStep) :
    state.run source set (first ++ second) =
      (state.run source set first).bind fun next => next.run source set second := by
  induction first generalizing state with
  | nil => rfl
  | cons step rest ih =>
      rw [List.cons_append, run, run]
      cases state.act source set step with
      | none => rfl
      | some next => exact ih

end Refreshes

/-! ### One refresh, its tasks in any order -/

/-- The cache after a refresh that has committed. -/
def refilled (source : Source α β) (set : ControllerSet)
    (contributions : KeyMap (Contribution α)) (cache : Cache α β) : Cache α β :=
  (({ cache with
    generation := cache.generation + 1
    contributions
    populated := true } : Cache α β).rebuild source set).notify

/-- The steps of a refresh whose tasks are done in a given order, while no file changes. -/
def refreshSteps (number : Nat) (files : Files) (order : List Path) : List RefreshStep :=
  .start :: .scan number files.disk ::
    (order.map fun path => .read number path files) ++ [.finish number]

namespace Refreshes

variable {source : Source α β} {set : ControllerSet} {state : Refreshes α β}

/-- The tasks are done, in any order of the files that are left. -/
theorem run_reads {number : Nat} {order left : List Path} {done : List (Contribution α)}
    (files : Files) (hstage : state.stage? number = some (.reading left done))
    (horder : order.Perm left) (rest : List RefreshStep) :
    state.run source set ((order.map fun path => .read number path files) ++ rest) =
      (state.move number (.reading []
        (done ++ order.map (source.read (state.cache.scene files))))).run source set rest := by
  induction order generalizing state left done with
  | nil =>
      rw [List.nil_perm] at horder
      rw [horder] at hstage
      rw [List.map_nil, List.map_nil, List.nil_append, List.append_nil, move_eq_self hstage]
  | cons path order ih =>
      obtain ⟨hpath, horder⟩ := List.cons_perm_iff_perm_erase.mp horder
      rw [List.map_cons, List.cons_append, run, act, hstage]
      simp only [if_pos hpath, Option.bind_some]
      rw [ih (move_stage?_self _ _ _) horder, move_move, move_cache, List.map_cons,
        List.append_assoc, List.singleton_append]

/-- A refresh by itself commits what its tasks have read. -/
theorem run_refreshSteps {cache : Cache α β} {files : Files} {paths order : List Path}
    (hcollect : files.disk.collect cache.root cache.filter source.accepts = .ok paths)
    (horder : order.Perm paths) :
    run source set { cache } (refreshSteps cache.begin.1 files order) =
      some { move { cache } cache.begin.1 (.over .committed) with
        cache := cache.refilled source set (found source cache.root files order)
        commits := [cache.begin.1] } := by
  have hsame : files.disk.collect cache.begin.2.root cache.begin.2.filter source.accepts =
      .ok paths := hcollect
  rw [refreshSteps, List.cons_append, List.cons_append, run, act, Option.bind_some, run, act,
    move_stage?_self]
  simp only [move_cache, hsame, Option.bind_some, move_move]
  rw [run_reads files (move_stage?_self _ _ _) horder, List.nil_append, move_move, run, act,
    move_stage?_self]
  simp only [Option.bind_some, run, finish_move]
  -- No other refresh has started, so this one commits.
  simp only [finish, commit, begin, move_cache, bne_self_eq_false, Bool.false_eq_true, if_false,
    if_true]
  rfl

end Refreshes

section Found

variable {source : Source α β} {root : Path} {files : Files} {paths order : List Path}

/-- Something stands under the key of each file. -/
theorem exists_get?_found {path : Path} (hpath : path ∈ paths) :
    ∃ contribution, (found source root files paths).get? path.key = some contribution := by
  apply Option.ne_none_iff_exists'.mp
  rw [found, byKey, KeyMap.get?_ofList, Ne, KeyMap.last?_eq_none_iff]
  intro hnone
  refine hnone (path.key, source.read { root, files } path) ?_ rfl
  rw [List.map_map]
  exact List.mem_map.mpr ⟨path, hpath, by simp⟩

theorem nodup_keys_read (source : Source α β) (root : Path) (files : Files)
    (hdistinct : (paths.map Path.key).Nodup) :
    (((paths.map (source.read { root, files })).map fun c => (c.path.key, c)).map
      Prod.fst).Nodup := by
  simpa [Function.comp_def] using hdistinct

/-- The order in which files of distinct keys are read does not count. -/
theorem found_eq_of_perm (hdistinct : (paths.map Path.key).Nodup) (horder : order.Perm paths) :
    found source root files order = found source root files paths :=
  KeyMap.ofList_eq_of_perm (nodup_keys_read source root files hdistinct)
    ((horder.map (source.read { root, files })).map fun c => (c.path.key, c))

/-- Each of the files of distinct keys contributes once. -/
theorem values_found_perm (hdistinct : (paths.map Path.key).Nodup) :
    (found source root files paths).values.Perm (paths.map (source.read { root, files })) := by
  have hperm := KeyMap.entries_ofList_perm (nodup_keys_read source root files hdistinct)
  have hvalues : ((paths.map (source.read { root, files })).map fun c => (c.path.key, c)).map
      Prod.snd = paths.map (source.read { root, files }) := by
    simp [Function.comp_def]
  rw [← hvalues]
  exact hperm.map Prod.snd

end Found

end Cache

open Cache

/-- **The order of the tasks does not count.**  A refresh whose tasks are done in any order commits,
and under each key stands what one of the files of this key contributes; a file with a key of its
own contributes whatever the order is.  If all files have distinct keys, the cache is the one that a
refresh in the order of the files leaves, and each file contributes once. -/
theorem refresh_in_any_order (source : Source α β) (set : ControllerSet) (cache : Cache α β)
    (files : Files) (paths : List Path)
    (hcollect : files.disk.collect cache.root cache.filter source.accepts = .ok paths)
    (order : List Path) (horder : order.Perm paths) :
    ∃ final : Refreshes α β,
      Refreshes.run source set { cache } (refreshSteps cache.begin.1 files order) = some final ∧
      final.commits = [cache.begin.1] ∧ final.cache.Current source set ∧
      (∀ key contribution, final.cache.contributions.get? key = some contribution →
        ∃ path ∈ paths, path.key = key ∧
          contribution = source.read (cache.scene files) path) ∧
      (∀ path ∈ paths, ∃ contribution,
        final.cache.contributions.get? path.key = some contribution) ∧
      ((paths.map Path.key).Nodup →
        final.cache = (cache.refresh source set files).2 ∧
          final.cache.contributions.values.Perm
            (paths.map (source.read (cache.scene files)))) := by
  refine ⟨_, Refreshes.run_refreshSteps hcollect horder, rfl, ⟨rfl, keyed_byKey _, rfl⟩, ?_, ?_, ?_⟩
  · intro key contribution hget
    obtain ⟨path, hpath, hkey, heq⟩ := mem_of_get?_found hget
    exact ⟨path, horder.mem_iff.mp hpath, hkey, heq⟩
  · intro path hpath
    exact exists_get?_found (horder.mem_iff.mpr hpath)
  · intro hdistinct
    rw [found_eq_of_perm hdistinct horder, refresh_of_collect_ok set hcollect]
    exact ⟨rfl, values_found_perm hdistinct⟩

/-- The task for the second of two files is done first. -/
theorem quoting_refresh_in_any_order :
    ∃ final : Refreshes String String,
      Refreshes.run Quoting.source {} { cache := Quoting.cache }
          (refreshSteps 1 (Quoting.files "/app/b.txt") [⟨"/app/b.txt"⟩, ⟨"/app/a.txt"⟩]) =
        some final ∧
      final.cache =
        (Quoting.cache.refresh Quoting.source {} (Quoting.files "/app/b.txt")).2 ∧
      final.cache.contributions.values.Perm (Quoting.paths.map
        (Quoting.source.read (Quoting.cache.scene (Quoting.files "/app/b.txt")))) := by
  obtain ⟨final, hrun, -, -, -, -, hdistinct⟩ :=
    refresh_in_any_order Quoting.source {} Quoting.cache _ _ (Quoting.collect_files "/app/b.txt")
      [⟨"/app/b.txt"⟩, ⟨"/app/a.txt"⟩] (by decide)
  exact ⟨final, hrun, hdistinct (by decide)⟩

/-! ### Two files with one key -/

namespace Meeting

/-- A script that registers a component with a configuration from another one. -/
def text : String :=
  "import c from './c'; x.component('n', c)"

/-- Two such scripts whose paths differ in case, and the one with the configuration. -/
def files : Files where
  disk := { root := .folder "" [.folder "app"
    [.file "A.ts" text.toUTF8, .file "a.ts" text.toUTF8,
      .file "c.ts" "export default \x7b\x7d".toUTF8]] }

def cache : Cache Component Component where
  root := ⟨"/app"⟩
  filter := ⟨[], []⟩

def paths : List Path :=
  [⟨"/app/A.ts"⟩, ⟨"/app/a.ts"⟩, ⟨"/app/c.ts"⟩]

/-- The task for the first of the two is done after the one for the second. -/
def order : List Path :=
  [⟨"/app/a.ts"⟩, ⟨"/app/A.ts"⟩, ⟨"/app/c.ts"⟩]

theorem collect_files :
    files.disk.collect cache.root cache.filter Source.components.accepts = .ok paths := by
  have hpaths : files.disk.collect cache.root cache.filter Source.components.accepts =
      .ok (paths.mergeSort Path.le) := rfl
  rw [hpaths, List.mergeSort_of_pairwise (by decide)]

end Meeting

/-- Two files that share a key have a component each, but only one of the two contributes.  Which of
them it is depends on the order of their tasks. -/
theorem meeting_files_contribute_once :
    Meeting.files.disk.collect Meeting.cache.root Meeting.cache.filter Source.components.accepts =
        .ok Meeting.paths ∧
      Meeting.order.Perm Meeting.paths ∧
      (Meeting.paths.map fun path =>
        (Source.components.read (Meeting.cache.scene Meeting.files) path).entities.length) =
        [1, 1, 0] ∧
      ((Refreshes.run Source.components {} { cache := Meeting.cache }
          (refreshSteps 1 Meeting.files Meeting.paths)).map fun final =>
        (final.cache.contributions.values.map fun c => c.path.text, final.cache.snapshot.length)) =
        some (["/app/a.ts", "/app/c.ts"], 1) ∧
      ((Refreshes.run Source.components {} { cache := Meeting.cache }
          (refreshSteps 1 Meeting.files Meeting.order)).map fun final =>
        final.cache.contributions.values.map fun c => c.path.text) =
        some ["/app/A.ts", "/app/c.ts"] := by
  have horder : Meeting.order.Perm Meeting.paths := by decide
  have hnumber : 1 = Meeting.cache.begin.1 := rfl
  refine ⟨Meeting.collect_files, horder, ?_⟩
  rw [hnumber, Refreshes.run_refreshSteps Meeting.collect_files (.refl _),
    Refreshes.run_refreshSteps Meeting.collect_files horder]
  decide +kernel

end NgIndex
