import NgIndex.Proofs.Index.Convergence

/-!
# Refreshes and updates that overlap

Between its steps a refresh, or the update for an event, does not keep others from the cache.  A
refresh takes its number, reads all files and commits.  An update asks for a plan, reads the files
of the plan and commits.  Files change in between, and the events that report a change are issued
with it but taken up later.

The steps are the ones that refreshes and updates are made of; without anything in between they come
to the same.
-/

namespace NgIndex
namespace Cache

variable {α β : Type}

/-- An update that is being made: its plan, or what has been read for it. -/
inductive Update (α : Type) where
  | planned (plan : Plan)
  | read (removed : List String) (contributions : List (Contribution α))

/-- A refresh that is being made.  With what has been read goes the number of events issued
since. -/
inductive Refreshing (α : Type) where
  | idle
  | begun (number : Nat)
  | scanned (number : Nat) (contributions : List (Contribution α)) (news : Nat)

namespace Refreshing

/-- Whether no refresh is being made. -/
def isIdle : Refreshing α → Bool
  | .idle => true
  | _ => false

/-- The number of events issued since the files were read. -/
def news : Refreshing α → Nat
  | .scanned _ _ news => news
  | _ => 0

/-- Some more events are issued. -/
def hear (count : Nat) : Refreshing α → Refreshing α
  | .scanned number contributions news => .scanned number contributions (news + count)
  | other => other

end Refreshing

/-- A cache with the files, the events that wait to be taken up, the oldest first, and the calls
that are being made. -/
structure Ongoing (α β : Type) where
  files : Files
  cache : Cache α β
  waiting : List FileEvent := []
  updates : List (Update α) := []
  refreshing : Refreshing α := .idle

/-- Whether nothing is left to be done. -/
def Ongoing.isDone (state : Ongoing α β) : Bool :=
  state.waiting.isEmpty && state.updates.isEmpty && state.refreshing.isIdle

/-- What may happen next.  Updates and waiting events are given by their number. -/
inductive Action where
  /-- The files change, and events are issued. -/
  | change (files : Files) (events : List FileEvent)
  /-- A waiting event is taken up, and a plan is made for it. -/
  | take (index : Nat)
  /-- The files of a plan are read. -/
  | read (index : Nat)
  /-- An update commits. -/
  | commit (index : Nat)
  /-- A refresh starts and takes its number. -/
  | begin
  /-- The refresh reads all files. -/
  | scan
  /-- The refresh commits. -/
  | finish

section Act

variable (source : Source α β) (set : ControllerSet)

/-- Takes up an event.  If nothing is asked for, that was all. -/
def Ongoing.take (state : Ongoing α β) (index : Nat) (event : FileEvent) : Ongoing α β :=
  let plan := state.cache.plan source event.removed event.touched
  { state with
    waiting := state.waiting.eraseIdx index
    updates :=
      if !state.cache.populated || plan.isEmpty then state.updates
      else state.updates ++ [.planned plan] }

/-- What an action leads to, if it is possible. -/
def act (state : Ongoing α β) : Action → Option (Ongoing α β)
  | .change files events =>
      some { state with
        files
        waiting := state.waiting ++ events
        refreshing := state.refreshing.hear events.length }
  | .take index => (state.waiting[index]?).map (state.take source index)
  | .read index =>
      match state.updates[index]? with
      | some (.planned plan) =>
          let contributions := plan.targets.values.map (source.read (state.cache.scene state.files))
          some { state with updates := state.updates.set index (.read plan.removed contributions) }
      | _ => none
  | .commit index =>
      match state.updates[index]? with
      | some (.read removed contributions) =>
          some { state with
            cache := state.cache.carryOut source set removed contributions
            updates := state.updates.eraseIdx index }
      | _ => none
  | .begin =>
      match state.refreshing with
      | .idle =>
          let (number, cache) := state.cache.begin
          some { state with cache, refreshing := .begun number }
      | _ => none
  | .scan =>
      match state.refreshing with
      | .begun number =>
          match state.cache.readAll source state.files with
          | .error _ => some { state with refreshing := .idle }
          | .ok contributions => some { state with refreshing := .scanned number contributions 0 }
      | _ => none
  | .finish =>
      match state.refreshing with
      | .scanned number contributions _ =>
          some { state with
            cache := state.cache.commit source set number contributions
            refreshing := .idle }
      | _ => none

/-- What actions lead to one after another, if they are possible. -/
def run (state : Ongoing α β) : List Action → Option (Ongoing α β)
  | [] => some state
  | action :: rest => (act source set state action).bind fun next => run next rest

end Act

variable {source : Source α β} {set : ControllerSet} {state : Ongoing α β}

/-- The first of the waiting events is taken up while no update is being made. -/
theorem Ongoing.take_first {event : FileEvent} {later : List FileEvent}
    (hwaiting : state.waiting = event :: later) (hupdates : state.updates = [])
    (hpopulated : state.cache.populated = true) :
    state.take source 0 event =
      { state with
        waiting := later
        updates :=
          if (state.cache.plan source event.removed event.touched).isEmpty then []
          else [.planned (state.cache.plan source event.removed event.touched)] } := by
  simp [Ongoing.take, hwaiting, hupdates, hpopulated]

theorem run_change (files : Files) (events : List FileEvent) (rest : List Action) :
    run source set state (.change files events :: rest) =
      run source set { state with
        files
        waiting := state.waiting ++ events
        refreshing := state.refreshing.hear events.length } rest := rfl

/-- A refresh starts and reads the files. -/
theorem run_begin_scan (hidle : state.refreshing = .idle) {contributions : List (Contribution α)}
    (hread : state.cache.readAll source state.files = .ok contributions) (rest : List Action) :
    run source set state (.begin :: .scan :: rest) =
      run source set { state with
        cache := state.cache.begin.2
        refreshing := .scanned state.cache.begin.1 contributions 0 } rest := by
  have hsame : state.cache.begin.2.readAll source state.files = .ok contributions := hread
  simp only [run, act, hidle, hsame, Option.bind_some]

/-- Without anything in between, the steps of a refresh do what the refresh does. -/
theorem run_refresh (hidle : state.refreshing = .idle) {contributions : List (Contribution α)}
    (hread : state.cache.readAll source state.files = .ok contributions) :
    run source set state [.begin, .scan, .finish] =
      some { state with cache := (state.cache.refresh source set state.files).2 } := by
  have hsame : state.cache.begin.2.readAll source state.files = .ok contributions := hread
  rw [run_begin_scan hidle hread]
  simp only [run, act, refresh, hsame, Option.bind_some, hidle]

/-- Without anything in between, the steps of an update do what the update does. -/
theorem run_update {event : FileEvent} {rest : List FileEvent}
    (hwaiting : state.waiting = event :: rest) (hupdates : state.updates = [])
    (hpopulated : state.cache.populated = true)
    (hplan : (state.cache.plan source event.removed event.touched).isEmpty = false) :
    run source set state [.take 0, .read 0, .commit 0] =
      some { state with
        cache := (Project.apply source set state.files event state.cache).2
        waiting := rest } := by
  rw [Project.apply, update_eq_of_populated source set state.files _ _ hpopulated,
    if_neg (by simp [hplan])]
  have htake : state.take source 0 event = _ :=
    Ongoing.take_first hwaiting hupdates hpopulated
  simp [run, act, hwaiting, hupdates, htake, hplan]

end Cache
end NgIndex
