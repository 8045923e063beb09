import NgIndex.Proofs.Lookup.Follow

/-!
# The ends of a search

A search hands what it reaches to an action, and goes on while the action has no answer.  Where it
goes does not depend on the action: the places that it may come to can be listed beforehand, and
the answer of the search is the first answer that the action has along the list.

The list is made in the same way as the search, case by case.  Where a property of an object is
looked for, each end of the search for the object is one to go on from.  An export statement that
settles the question cuts the list.
-/

namespace NgIndex
namespace Lookup

open Script

/-- Something that cannot be followed further: the module in which it stands, with the files that
are being looked into when it is reached, and where it stands. -/
structure Terminal where
  place : Place
  site : Cursor

/-! ### Listing the ends -/

/-- The terminals of what a module, named by a specifier, exports under a name. -/
abbrev Reached :=
  (place : Place) → (specifier name : String) → (exactly : Bool) → List Terminal

def declarationTerminalsWith (terminals : Place → Cursor → List Terminal) (place : Place)
    (declaration : Cursor) : List Terminal :=
  if declaration.kind == .declarator then
    match declaration.child? .value with
    | some value => terminals place value
    | none => []
  else [⟨place, declaration⟩]

/-- The terminals of a value that is followed for a number of steps. -/
def stepTerminals (reached : Reached) : Nat → Place → Cursor → List Terminal
  | 0, _, _ => []
  | steps + 1, place, c =>
      let m := place.script
      let c := c.unwrap
      if c.kind == .identifier || c.kind == .shorthand then
        let name := m.textAt c
        match m.declarationOf? name c with
        | some declaration =>
            declarationTerminalsWith (stepTerminals reached steps) place declaration
        | none =>
            match m.importOf? name with
            | some binding =>
                reached place binding.source (exportName binding.imported none) false
            | none => []
      else if c.kind == .member then
        match c.child? .object, c.child? .property with
        | some object, some property =>
            let object := object.unwrap
            let property := m.textAt property
            if object.kind == .this then
              match c.enclosingClass?.bind fun owner => (Table.ofClass m owner).get? property with
              | some value => stepTerminals reached steps place value
              | none => []
            else
              match wholeImport? m object with
              | some binding =>
                  reached place binding.source (exportName binding.imported property) false
              | none =>
                  (stepTerminals reached steps place object).flatMap fun target =>
                    match (Table.ofNode? target.place.script target.site).bind fun table =>
                        table.get? property with
                    | some value => stepTerminals reached steps target.place value
                    | none => []
        | _, _ => []
      else [⟨place, c⟩]

def declarationTerminals (reached : Reached) (place : Place) (declaration : Cursor) :
    List Terminal :=
  declarationTerminalsWith (stepTerminals reached stepLimit) place declaration

def topLevelTerminals (reached : Reached) (place : Place) (name : String) : List Terminal :=
  match place.script.topLevel? name with
  | some declaration => declarationTerminals reached place declaration
  | none =>
      match place.script.importOf? name with
      | some binding => reached place binding.source (exportName binding.imported none) false
      | none => []

def offerTerminals (reached : Reached) (place : Place) (name : String) : Offer → List Terminal
  | .nothing => []
  | .declared site _ => [⟨place, site⟩]
  | .declarator site => declarationTerminals reached place site
  | .value none => []
  | .value (some site) => stepTerminals reached stepLimit place site
  | .ownName target => topLevelTerminals reached place target
  | .passed source target => reached place source target true
  | .everything source => reached place source name true

/-- The terminals that a turn leads to. -/
def Turn.terminalsWith (terminals : Place → Cursor → List Terminal) (reached : Reached)
    (place : Place) : Turn → List Terminal
  | .nowhere => []
  | .ends site => [⟨place, site⟩]
  | .onward value => terminals place value
  | .outside specifier name exactly => reached place specifier name exactly
  | .inward object property =>
      (terminals place object).flatMap fun target =>
        match propertyOf? target.place.script target.site property with
        | some value => terminals target.place value
        | none => []

section Turns

variable (reached : Reached) (place : Place)

theorem declarationTerminalsWith_eq (terminals : Place → Cursor → List Terminal)
    (declaration : Cursor) :
    declarationTerminalsWith terminals place declaration =
      (Turn.ofDeclaration declaration).terminalsWith terminals reached place := by
  unfold declarationTerminalsWith Turn.ofDeclaration
  split
  · cases declaration.child? .value with
    | none => rfl
    | some value => rfl
  · rfl

/-- With steps left, the terminals are those that the turn leads to. -/
theorem stepTerminals_succ (steps : Nat) (c : Cursor) :
    stepTerminals reached (steps + 1) place c =
      (Turn.ofExpression place.script c).terminalsWith (stepTerminals reached steps) reached
        place := by
  rw [stepTerminals, Turn.ofExpression]
  generalize c.unwrap = c
  simp only [Turn.ofPlain]
  split
  · rw [Turn.ofName]
    cases place.script.declarationOf? (place.script.textAt c) c with
    | some declaration => exact declarationTerminalsWith_eq reached place _ declaration
    | none =>
        cases place.script.importOf? (place.script.textAt c) with
        | some binding => rfl
        | none => rfl
  · split
    · cases c.child? .object with
      | none => rfl
      | some object =>
          cases c.child? .property with
          | none => rfl
          | some property =>
              simp only [Turn.ofMember]
              split
              · cases c.enclosingClass?.bind fun owner =>
                    (Table.ofClass place.script owner).get? (place.script.textAt property) with
                | some value => rfl
                | none => rfl
              · cases wholeImport? place.script object.unwrap with
                | some binding => rfl
                | none => rfl
    · rfl

/-- The terminals of what an export statement offers are those that the turn at it leads to. -/
theorem offerTerminals_eq (name : String) (offer : Offer) :
    offerTerminals reached place name offer =
      (Turn.ofOffer place.script name offer).terminalsWith (stepTerminals reached stepLimit) reached
        place := by
  have hdeclaration := declarationTerminalsWith_eq reached place (stepTerminals reached stepLimit)
  cases offer with
  | nothing => rfl
  | declared site settles => rfl
  | declarator site => exact hdeclaration site
  | value site =>
      cases site with
      | none => rfl
      | some site => rfl
  | ownName target =>
      rw [offerTerminals, topLevelTerminals, Turn.ofOffer, Turn.ofName, Module.topLevel?]
      cases place.script.declarationOf? target place.script.root with
      | some declaration => exact hdeclaration declaration
      | none =>
          cases place.script.importOf? target with
          | some binding => rfl
          | none => rfl
  | passed source target => rfl
  | everything source => rfl

end Turns

/-- The terminals of a name among export statements. -/
def searchTerminals (reached : Reached) (place : Place) (name : String) :
    List Cursor → List Terminal
  | [] => []
  | statement :: rest =>
      let offer := place.script.offer name statement
      offerTerminals reached place name offer ++
        if offer.settles then [] else searchTerminals reached place name rest

/-- The terminals of what a module exports under a name. -/
def exportTerminals (reached : Reached) (place : Place) (name : String) (exactly : Bool) :
    List Terminal :=
  searchTerminals reached place name place.script.exports ++
    if exactly || name == defaultName then []
    else searchTerminals reached place defaultName place.script.exports

/-- The place that a search comes to from another by the name of a module.  There is none if the
module is not found or cannot be read, or if it is being looked into. -/
def Place.entered? (scene : Scene) (place : Place) (specifier : String) : Option Place :=
  if isRelative specifier then
    match (moduleCandidates place.script.directory specifier).find? scene.files.contains with
    | none => none
    | some path =>
        if path.key ∈ place.chain then none
        else
          match scene.files.read path with
          | .error _ => none
          | .ok text => some (place.enter path text)
  else none

theorem Place.entered?_eq_some_iff {scene : Scene} {place entered : Place} {specifier : String} :
    Place.entered? scene place specifier = some entered ↔
      ∃ path text, Enters scene place.chain place.script.directory specifier path text ∧
        entered = place.enter path text := by
  unfold Place.entered?
  constructor
  · intro h
    split at h
    · next hrelative =>
        split at h
        · cases h
        · next path hfound =>
            split at h
            · cases h
            · next hfresh =>
                split at h
                · cases h
                · next text hread =>
                    exact ⟨path, text, ⟨hrelative, hfound, hfresh, hread⟩, (Option.some.inj h).symm⟩
    · cases h
  · rintro ⟨path, text, h, rfl⟩
    rw [if_pos h.relative, h.found]
    simp only [if_neg h.fresh, h.read]

/-- The terminals in other modules, where `limit` bounds how many modules are looked into at the
same time. -/
def reachedWithin (scene : Scene) : Nat → Reached
  | 0, _, _, _, _ => []
  | limit + 1, place, specifier, name, exactly =>
      match Place.entered? scene place specifier with
      | some entered => exportTerminals (reachedWithin scene limit) entered name exactly
      | none => []

/-- The terminals of a value, in the order in which a search comes to them. -/
def terminals (scene : Scene) (place : Place) (c : Cursor) : List Terminal :=
  stepTerminals (reachedWithin scene (importLimit scene.files place.script.path)) stepLimit place c

/-- The terminals of a value are those that the turn at it leads to. -/
theorem terminals_eq (scene : Scene) (place : Place) (c : Cursor) :
    let reached := reachedWithin scene (importLimit scene.files place.script.path)
    terminals scene place c =
      (Turn.ofExpression place.script c).terminalsWith (stepTerminals reached (stepLimit - 1))
        reached place :=
  stepTerminals_succ _ place (stepLimit - 1) c

/-! ### Steps with one answer -/

section Gives

variable {α β : Type} {scene : Scene} {chain : List String}

/-- A step that has the same answer whenever a chain of files is being looked into, whatever else
the session has recorded, and that goes back to this chain. -/
def Gives (scene : Scene) (chain : List String) (step : Lookup α) (answer : α) : Prop :=
  ∀ session : Session, session.chain = chain →
    (step scene session).1 = answer ∧ (step scene session).2.chain = chain

/-- An action that has one answer at each terminal. -/
def VisitGives (scene : Scene) (visit : Visit α) (answer : Terminal → Option α) : Prop :=
  ∀ t : Terminal, t.place.chain ≠ [] →
    Gives scene t.place.chain (visit t.place.script t.site) (answer t)

/-- A way of reaching modules that has the first answer of its action along a list. -/
def ReachGives (scene : Scene) (reach : Reach α) (reached : Reached) : Prop :=
  ∀ (place : Place) (specifier name : String) (exactly : Bool) (visit : Visit α)
    (answer : Terminal → Option α), place.chain ≠ [] → VisitGives scene visit answer →
    Gives scene place.chain (reach place.script specifier name exactly visit)
      ((reached place specifier name exactly).findSome? answer)

theorem Gives.pure (scene : Scene) (chain : List String) (a : α) :
    Gives scene chain (Pure.pure a) a :=
  fun _ hchain => ⟨rfl, hchain⟩

theorem Gives.answer_eq {step : Lookup α} {a b : α} (ha : Gives scene chain step a)
    (hb : Gives scene chain step b) : a = b :=
  (ha { chain } rfl).1.symm.trans (hb { chain } rfl).1

theorem Gives.bind {step : Lookup α} {next : α → Lookup β} {a : α} {b : β}
    (h : Gives scene chain step a) (hnext : Gives scene chain (next a) b) :
    Gives scene chain (step >>= next) b := by
  intro session hchain
  obtain ⟨hanswer, hmiddle⟩ := h session hchain
  rw [bind_run, hanswer]
  exact hnext _ hmiddle

/-- Where a step has no answer, another is taken in its place. -/
theorem Gives.orElse {step other : Lookup (Option α)} {a b : Option α}
    (h : Gives scene chain step a) (hother : Gives scene chain other b) :
    Gives scene chain
      (step >>= fun answer => match answer with
        | some answer => Pure.pure (some answer)
        | none => other) (a.or b) := by
  refine h.bind ?_
  cases a with
  | some a => exact .pure scene chain (some a)
  | none => exact hother

theorem withModule_gives {place : Place} (specifier : String) (hchain : place.chain ≠ [])
    (action : Module → Lookup (Option α)) {answer : Place → Option α}
    (haction : ∀ entered : Place, entered.chain ≠ [] →
      Gives scene entered.chain (action entered.script) (answer entered)) :
    Gives scene place.chain (withModule place.script.directory specifier action)
      ((Place.entered? scene place specifier).bind answer) := by
  intro session hsession
  cases hentered : Place.entered? scene place specifier with
  | some entered =>
      obtain ⟨path, text, h, rfl⟩ := Place.entered?_eq_some_iff.mp hentered
      have hinside : (session.entering path).chain = path.key :: place.chain := by
        rw [Session.chain_entering, hsession]
      obtain ⟨hanswer, hend⟩ :=
        haction (place.enter path text) (List.cons_ne_nil _ _) _ hinside
      rw [h.withModule_run action hsession]
      exact ⟨hanswer, Session.chain_leaving hend hchain⟩
  | none =>
      have hnone : ¬ ∃ path text,
          Enters scene place.chain place.script.directory specifier path text := by
        rintro ⟨path, text, h⟩
        rw [Place.entered?_eq_some_iff.mpr ⟨path, text, h, rfl⟩] at hentered
        cases hentered
      obtain ⟨after, hend, -, -, hrun⟩ := withModule_run_of_not_enters hchain hnone hsession
      rw [hrun]
      exact ⟨rfl, hend⟩

end Gives

/-! ### The search goes along the list -/

theorem findSome?_flatMap {α β γ : Type} (xs : List α) (f : α → List β) (g : β → Option γ) :
    (xs.flatMap f).findSome? g = xs.findSome? fun x => (f x).findSome? g := by
  induction xs with
  | nil => rfl
  | cons x xs ih =>
      rw [List.flatMap_cons, List.findSome?_append, ih, List.findSome?_cons]
      cases (f x).findSome? g with
      | none => rfl
      | some c => rfl

section Search

variable {α : Type} {scene : Scene} {place : Place} {visit : Visit α}
  {answer : Terminal → Option α} {reach : Reach α} {reached : Reached}

/-- Where every search has the first answer along its list, so has one that takes a turn first. -/
theorem Turn.followWith_gives {follow : Module → Cursor → Visit α → Lookup (Option α)}
    {terminals : Place → Cursor → List Terminal}
    (hfollow : ∀ {place : Place} {visit : Visit α} {answer : Terminal → Option α} (c : Cursor),
      VisitGives scene visit answer → place.chain ≠ [] →
        Gives scene place.chain (follow place.script c visit)
          ((terminals place c).findSome? answer))
    (hreach : ReachGives scene reach reached) (turn : Turn)
    (hvisit : VisitGives scene visit answer) (hchain : place.chain ≠ []) :
    Gives scene place.chain (turn.followWith follow reach place.script visit)
      ((turn.terminalsWith terminals reached place).findSome? answer) := by
  cases turn with
  | nowhere => exact .pure _ _ none
  | ends site =>
      rw [Turn.terminalsWith, List.findSome?_singleton]
      exact hvisit ⟨place, site⟩ hchain
  | onward value => exact hfollow value hvisit hchain
  | outside specifier name exactly => exact hreach _ _ _ _ _ _ hchain hvisit
  | inward object property =>
      -- The search for the object has an action of its own: at each end it goes on with the
      -- property, and what it finds is a part of the list.
      rw [Turn.terminalsWith, findSome?_flatMap]
      refine hfollow object (fun target htarget => ?_) hchain
      cases propertyOf? target.place.script target.site property with
      | none => exact .pure _ _ none
      | some value => exact hfollow value hvisit htarget

theorem followSteps_gives (hreach : ReachGives scene reach reached) (steps : Nat)
    {place : Place} {visit : Visit α} {answer : Terminal → Option α} (c : Cursor)
    (hvisit : VisitGives scene visit answer) (hchain : place.chain ≠ []) :
    Gives scene place.chain (followSteps reach steps place.script c visit)
      ((stepTerminals reached steps place c).findSome? answer) := by
  induction steps generalizing place c visit answer with
  | zero => exact .pure _ _ none
  | succ steps ih =>
      rw [followSteps_succ, stepTerminals_succ]
      exact Turn.followWith_gives ih hreach _ hvisit hchain

variable (hreach : ReachGives scene reach reached) (hvisit : VisitGives scene visit answer)
  (hchain : place.chain ≠ [])

include hreach hvisit hchain

theorem followOffer_gives (name : String) (offer : Offer) :
    Gives scene place.chain (followOffer reach place.script name visit offer)
      ((offerTerminals reached place name offer).findSome? answer) := by
  rw [followOffer_eq, offerTerminals_eq]
  exact Turn.followWith_gives (followSteps_gives hreach stepLimit) hreach _ hvisit hchain

theorem searchExports_gives (name : String) (statements : List Cursor) :
    Gives scene place.chain (searchExports reach place.script name visit statements)
      ((searchTerminals reached place name statements).findSome? answer) := by
  induction statements with
  | nil => exact .pure _ _ none
  | cons statement rest ih =>
      -- Whether the later statements are tried depends on the statement, not on the action.
      rw [searchTerminals, List.findSome?_append]
      refine (followOffer_gives hreach hvisit hchain name _).orElse ?_
      cases (place.script.offer name statement).settles with
      | true => exact .pure _ _ none
      | false => exact ih

theorem followExport_gives (name : String) (exactly : Bool) :
    Gives scene place.chain (followExport reach place.script name exactly visit)
      ((exportTerminals reached place name exactly).findSome? answer) := by
  rw [exportTerminals, List.findSome?_append]
  refine (searchExports_gives hreach hvisit hchain name _).orElse ?_
  cases (exactly || name == defaultName) with
  | true => exact .pure _ _ none
  | false => exact searchExports_gives hreach hvisit hchain defaultName _

end Search

theorem reachWithin_gives {α : Type} (scene : Scene) (limit : Nat) :
    ReachGives scene (reachWithin (α := α) limit) (reachedWithin scene limit) := by
  induction limit with
  | zero => exact fun _ _ _ _ _ _ _ _ session hsession => ⟨rfl, hsession⟩
  | succ limit ih =>
      intro place specifier name exactly visit answer hchain hvisit
      have hmodule := withModule_gives specifier hchain
        (fun m => followExport (reachWithin limit) m name exactly visit)
        fun entered hentered => followExport_gives ih hvisit hentered name exactly
      rw [reachedWithin]
      cases hplace : Place.entered? scene place specifier with
      | none => rwa [hplace] at hmodule
      | some entered => rwa [hplace] at hmodule

/-- A search has the first answer that its action has along the list of terminals. -/
theorem follow_gives {α : Type} {scene : Scene} {place : Place} {visit : Visit α}
    {answer : Terminal → Option α} (hvisit : VisitGives scene visit answer)
    (hchain : place.chain ≠ []) (c : Cursor) :
    Gives scene place.chain (follow place.script c visit)
      ((terminals scene place c).findSome? answer) := by
  intro session hsession
  rw [follow_run]
  exact followSteps_gives (reachWithin_gives scene _) stepLimit c hvisit hchain session hsession

end Lookup
end NgIndex
