import NgIndex.Proofs.Lookup.Change
import NgIndex.Proofs.Lookup.Region
import NgIndex.Proofs.Lookup.Turn

/-!
# Searches that do not see a change

A search for a value hands what it reaches to an action.  If the action tracks a change of the
files wherever the search may come to, then so does the search.  This goes through the search case
by case; what another module exports is left to the way of reaching modules.

The number of modules that a search may look into at the same time is bounded by the number of
files, and the bound changes with the files.  But the bound is never met, so any number above it
makes for the same search.
-/

namespace NgIndex

/-! ### The modules that a script names -/

namespace Script

/-- The module that an offer says to look into. -/
def Offer.source? : Offer → Option String
  | .passed source _ => some source
  | .everything source => some source
  | _ => none

namespace Module

variable {m : Module} {name : String}

theorem source_mem_specifiers {binding : Import} (h : m.importOf? name = some binding) :
    binding.source ∈ m.specifiers := by
  obtain ⟨entry, hfind, rfl⟩ := Option.map_eq_some_iff.mp h
  have hmem : entry ∈ m.imports := by simpa using List.mem_of_find?_eq_some hfind
  exact List.mem_append_left _ (List.mem_map.mpr ⟨entry, hmem, rfl⟩)

theorem source?_declarationOffer (m : Module) (declaration : Cursor) (name : String) :
    (m.declarationOffer declaration name).source? = none := by
  unfold declarationOffer
  simp only
  split
  · split
    · rfl
    · rfl
  · cases declaration.child? .name with
    | none => rfl
    | some declared =>
        simp only
        split
        · rfl
        · rfl

theorem source?_listOffer {statement : Cursor} {source : String}
    (h : (m.listOffer statement name).source? = some source) :
    (statement.child? .source).bind m.literalAt? = some source := by
  unfold listOffer at h
  generalize (statement.child? .source).bind m.literalAt? = named at h ⊢
  simp only at h
  split at h
  · split at h
    · cases h
    · exact h
    · cases h
  · split at h
    · split at h
      · cases h
      · exact h
    · cases h

/-- What a script offers is its own or comes from a module that it names. -/
theorem source?_offer {statement : Cursor} {source : String} (hstatement : statement ∈ m.exports)
    (h : (m.offer name statement).source? = some source) : source ∈ m.specifiers := by
  unfold offer at h
  simp only at h
  split at h
  · split at h
    · rw [source?_declarationOffer] at h
      cases h
    · split at h
      · cases h
      · cases h
  · split at h
    · exact List.mem_append_right _
        (List.mem_filterMap.mpr ⟨statement, hstatement, source?_listOffer h⟩)
    · split at h
      · cases h
      · cases h

end Module
end Script

namespace Lookup

open Script

variable {α : Type}

theorem source_mem_specifiers_of_wholeImport? {m : Module} {object : Cursor} {binding : Import}
    (h : wholeImport? m object = some binding) : binding.source ∈ m.specifiers := by
  simp only [wholeImport?, Option.bind_eq_bind, Option.bind_eq_some_iff, Option.pure_def,
    Option.some.injEq] at h
  obtain ⟨-, -, -, -, found, hfound, -, -, rfl⟩ := h
  exact Module.source_mem_specifiers hfound

namespace Turn

/-- The specifier of the module that a turn leads into. -/
def specifier? : Turn → Option String
  | .outside specifier _ _ => some specifier
  | _ => none

variable {m : Module} {specifier : String}

theorem specifier?_ofValue? (value : Option Cursor) : (ofValue? value).specifier? = none := by
  cases value with
  | none => rfl
  | some value => rfl

theorem specifier?_ofDeclaration (declaration : Cursor) :
    (ofDeclaration declaration).specifier? = none := by
  unfold ofDeclaration
  split
  · exact specifier?_ofValue? _
  · rfl

theorem specifier_mem_of_ofName {name : String} {site : Cursor}
    (h : (ofName m name site).specifier? = some specifier) : specifier ∈ m.specifiers := by
  unfold ofName at h
  split at h
  · rw [specifier?_ofDeclaration] at h
    cases h
  · cases himport : m.importOf? name with
    | none =>
        rw [himport] at h
        cases h
    | some binding =>
        rw [himport] at h
        obtain rfl := Option.some.inj h
        exact Module.source_mem_specifiers himport

theorem specifier_mem_of_ofMember {c object : Cursor} {property : String}
    (h : (ofMember m c object property).specifier? = some specifier) :
    specifier ∈ m.specifiers := by
  unfold ofMember at h
  split at h
  · rw [specifier?_ofValue?] at h
    cases h
  · split at h
    · next binding hwhole =>
        obtain rfl := Option.some.inj h
        exact source_mem_specifiers_of_wholeImport? hwhole
    · cases h

/-- From an expression a search goes into modules that the script names. -/
theorem specifier_mem_of_ofExpression {c : Cursor}
    (h : (ofExpression m c).specifier? = some specifier) : specifier ∈ m.specifiers := by
  unfold ofExpression ofPlain at h
  split at h
  · exact specifier_mem_of_ofName h
  · split at h
    · split at h
      · exact specifier_mem_of_ofMember h
      · cases h
    · cases h

/-- From an export statement a search goes into modules that the script names. -/
theorem specifier_mem_of_ofOffer {name : String} {statement : Cursor}
    (hstatement : statement ∈ m.exports)
    (h : (ofOffer m name (m.offer name statement)).specifier? = some specifier) :
    specifier ∈ m.specifiers := by
  cases hoffer : m.offer name statement with
  | nothing =>
      rw [hoffer] at h
      cases h
  | declared site settles =>
      rw [hoffer] at h
      cases h
  | declarator site =>
      rw [hoffer, ofOffer, specifier?_ofDeclaration] at h
      cases h
  | value site =>
      rw [hoffer, ofOffer, specifier?_ofValue?] at h
      cases h
  | ownName target =>
      rw [hoffer] at h
      exact specifier_mem_of_ofName h
  | passed source target =>
      rw [hoffer] at h
      obtain rfl := Option.some.inj h
      exact Module.source?_offer hstatement (by rw [hoffer]; rfl)
  | everything source =>
      rw [hoffer] at h
      obtain rfl := Option.some.inj h
      exact Module.source?_offer hstatement (by rw [hoffer]; rfl)

end Turn

/-! ### Going through a search -/

/-- Where a search may be.  The chain is never empty, and with a place there is what can be entered
from it before or after the change. -/
structure Places (change : Change) (At : Place → Prop) : Prop where
  chain_ne_nil : ∀ place, At place → place.chain ≠ []
  enter : ∀ (place : Place) (specifier : String) (path : Path) (text : String), At place →
    isRelative specifier = true → path ∈ moduleCandidates place.script.directory specifier →
    change.scene.files.contains path = true ∨ change.altered.contains path = true →
    path.key ∉ place.chain → At (place.enter path text)

theorem places_ne_nil (change : Change) : Places change fun place => place.chain ≠ [] where
  chain_ne_nil _ hchain := hchain
  enter _ _ _ _ _ _ _ _ _ := List.cons_ne_nil _ _

/-- A relation between two steps at a place. -/
abbrev StepRelation := (α : Type) → Place → Lookup α → Lookup α → Prop

/-- Relations that hold between steps which only give the same answer, and that are kept when steps
are put one after another. -/
structure StepRelation.Composes (Rel : StepRelation) : Prop where
  pure : ∀ {α : Type} (place : Place) (a : α), Rel α place (Pure.pure a) (Pure.pure a)
  bind : ∀ {α β : Type} {place : Place} {step step' : Lookup α} {next next' : α → Lookup β},
    Rel α place step step' → (∀ a, Rel β place (next a) (next' a)) →
      Rel β place (step >>= next) (step' >>= next')

/-- Actions that are related at all places. -/
def VisitsRelate (Rel : StepRelation) (At : Place → Prop) (visit visit' : Visit α) : Prop :=
  ∀ place c, At place → Rel _ place (visit place.script c) (visit' place.script c)

/-- Ways of reaching modules that are related at all places, together with their actions. -/
def ReachesRelate (Rel : StepRelation) (At : Place → Prop) (reach reach' : Reach α) : Prop :=
  ∀ place specifier name exactly visit visit', At place →
    specifier ∈ place.script.specifiers → VisitsRelate Rel At visit visit' →
    Rel _ place (reach place.script specifier name exactly visit)
      (reach' place.script specifier name exactly visit')

/-- Actions that track a change at all places. -/
abbrev VisitsTrack (change : Change) (At : Place → Prop) (visit visit' : Visit α) : Prop :=
  VisitsRelate (fun _ => Tracks change) At visit visit'

/-- Ways of reaching modules that track a change at all places, together with their actions. -/
abbrev ReachesTrack (change : Change) (At : Place → Prop) (reach reach' : Reach α) : Prop :=
  ReachesRelate (fun _ => Tracks change) At reach reach'

theorem tracks_composes (change : Change) : StepRelation.Composes fun _ => Tracks change where
  pure _ a := .pure a
  bind h hnext := h.bind hnext

section Search

variable {Rel : StepRelation} {At : Place → Prop} {place : Place} {visit visit' : Visit α}
  {reach reach' : Reach α} (hrel : Rel.Composes)

include hrel

/-- Searches that are related wherever they start are related after any turn. -/
theorem Turn.followWith_relate {follow follow' : Module → Cursor → Visit α → Lookup (Option α)}
    (hfollow : ∀ {place : Place} {visit visit' : Visit α} (c : Cursor),
      VisitsRelate Rel At visit visit' → At place →
        Rel _ place (follow place.script c visit) (follow' place.script c visit'))
    (hreach : ReachesRelate Rel At reach reach') {turn : Turn}
    (hturn : ∀ specifier, turn.specifier? = some specifier → specifier ∈ place.script.specifiers)
    (hvisit : VisitsRelate Rel At visit visit') (hplace : At place) :
    Rel _ place (turn.followWith follow reach place.script visit)
      (turn.followWith follow' reach' place.script visit') := by
  cases turn with
  | nowhere => exact hrel.pure _ none
  | ends site => exact hvisit place site hplace
  | onward value => exact hfollow value hvisit hplace
  | outside specifier name exactly =>
      exact hreach _ _ _ _ _ _ hplace (hturn specifier rfl) hvisit
  | inward object property =>
      -- The rest of the search goes on at whatever place the object leads to.
      refine hfollow object (fun place' target hplace' => ?_) hplace
      cases propertyOf? place'.script target property with
      | none => exact hrel.pure _ none
      | some value => exact hfollow value hvisit hplace'

theorem followSteps_relate (hreach : ReachesRelate Rel At reach reach') (steps : Nat)
    {place : Place} {visit visit' : Visit α} (c : Cursor)
    (hvisit : VisitsRelate Rel At visit visit') (hplace : At place) :
    Rel _ place (followSteps reach steps place.script c visit)
      (followSteps reach' steps place.script c visit') := by
  induction steps generalizing place c visit visit' with
  | zero => exact hrel.pure _ none
  | succ steps ih =>
      rw [followSteps_succ, followSteps_succ]
      exact Turn.followWith_relate hrel ih hreach
        (fun _ => Turn.specifier_mem_of_ofExpression) hvisit hplace

theorem followOffer_relate (hreach : ReachesRelate Rel At reach reach')
    (name : String) {statement : Cursor} (hstatement : statement ∈ place.script.exports)
    (hvisit : VisitsRelate Rel At visit visit') (hplace : At place) :
    Rel _ place (followOffer reach place.script name visit (place.script.offer name statement))
      (followOffer reach' place.script name visit' (place.script.offer name statement)) := by
  rw [followOffer_eq, followOffer_eq]
  exact Turn.followWith_relate hrel (followSteps_relate hrel hreach stepLimit) hreach
    (fun _ => Turn.specifier_mem_of_ofOffer hstatement) hvisit hplace

theorem searchExports_relate (hreach : ReachesRelate Rel At reach reach')
    (name : String) {statements : List Cursor}
    (hstatements : ∀ statement ∈ statements, statement ∈ place.script.exports)
    (hvisit : VisitsRelate Rel At visit visit') (hplace : At place) :
    Rel _ place (searchExports reach place.script name visit statements)
      (searchExports reach' place.script name visit' statements) := by
  induction statements with
  | nil => exact hrel.pure _ none
  | cons statement rest ih =>
      refine hrel.bind (followOffer_relate hrel hreach name
        (hstatements statement List.mem_cons_self) hvisit hplace) fun answer => ?_
      cases answer with
      | some answer => exact hrel.pure _ (some answer)
      | none =>
          simp only
          split
          · exact hrel.pure _ none
          · exact ih fun other hother => hstatements other (List.mem_cons_of_mem _ hother)

theorem followExport_relate (hreach : ReachesRelate Rel At reach reach')
    (name : String) (exactly : Bool) (hvisit : VisitsRelate Rel At visit visit')
    (hplace : At place) :
    Rel _ place (followExport reach place.script name exactly visit)
      (followExport reach' place.script name exactly visit') := by
  have hsearch (name : String) :=
    searchExports_relate hrel hreach name (fun _ hmem => hmem) hvisit hplace
  refine hrel.bind (hsearch name) fun answer => ?_
  cases answer with
  | some answer => exact hrel.pure _ (some answer)
  | none =>
      simp only
      split
      · exact hrel.pure _ none
      · exact hsearch defaultName

end Search

/-! ### Reaching modules -/

section Reach

variable {change : Change} {At : Place → Prop}

theorem Places.before (h : Places change At) : Places (.still change.scene change.home) At where
  chain_ne_nil := h.chain_ne_nil
  enter place specifier path text hplace hrelative hmem hpath hfresh :=
    h.enter place specifier path text hplace hrelative hmem (.inl (hpath.elim id id)) hfresh

theorem Places.after (h : Places change At) : Places (.still change.after change.home) At where
  chain_ne_nil := h.chain_ne_nil
  enter place specifier path text hplace hrelative hmem hpath hfresh :=
    h.enter place specifier path text hplace hrelative hmem (.inr (hpath.elim id id)) hfresh

theorem Places.and {At' : Place → Prop} (h : Places change At) (h' : Places change At') :
    Places change fun place => At place ∧ At' place where
  chain_ne_nil place hplace := h.chain_ne_nil place hplace.1
  enter place specifier path text hplace hrelative hmem hpath hfresh :=
    ⟨h.enter place specifier path text hplace.1 hrelative hmem hpath hfresh,
      h'.enter place specifier path text hplace.2 hrelative hmem hpath hfresh⟩

/-- With the same bound, modules are reached in the same way. -/
theorem reachWithin_tracks (hplaces : Places change At) (limit : Nat) :
    ReachesTrack change At (reachWithin (α := α) limit) (reachWithin limit) := by
  induction limit with
  | zero => exact fun _ _ _ _ _ _ _ _ _ => Tracks.giveUp.bind fun _ => .pure none
  | succ limit ih =>
      intro place specifier name exactly visit visit' hplace hspecifier hvisit
      refine Tracks.withModule (hplaces.chain_ne_nil place hplace) hspecifier
        fun path text hrelative hmem hpath hfresh => ?_
      have hentered := hplaces.enter place specifier path text hplace hrelative hmem hpath hfresh
      exact followExport_relate (tracks_composes _) ih name exactly hvisit hentered

variable {scene : Scene} {home : Module}

/-- The places near a file from which fewer modules than a limit can be entered one from the
other. -/
structure PlacesWithin (files : Files) (start : Path) (At : Place → Prop) (limit : Nat)
    (place : Place) : Prop where
  allowed : At place
  near : Near start place.script.directory
  left : files.modulesLeft start place.chain < limit

theorem PlacesWithin.succ {files : Files} {start : Path} {limit : Nat} {place : Place}
    (h : PlacesWithin files start At limit place) : PlacesWithin files start At (limit + 1) place :=
  ⟨h.allowed, h.near, Nat.lt_succ_of_lt h.left⟩

theorem PlacesWithin.enter {start : Path} {limit : Nat} {place : Place}
    (hplace : PlacesWithin scene.files start At (limit + 1) place)
    (hplaces : Places (.still scene home) At) {specifier : String}
    (hrelative : isRelative specifier = true) {path : Path}
    (hmem : path ∈ moduleCandidates place.script.directory specifier)
    (hpath : scene.files.contains path = true) (hfresh : path.key ∉ place.chain) (text : String) :
    PlacesWithin scene.files start At limit (place.enter path text) := by
  obtain ⟨hmodule, hdirectory⟩ := hplace.near.candidate hrelative hmem
  have hless := Files.modulesLeft_cons_lt hmodule hpath hfresh
  have hleft := hplace.left
  refine ⟨?_, hdirectory, ?_⟩
  · exact hplaces.enter place specifier path text hplace.allowed hrelative hmem (.inl hpath) hfresh
  · change scene.files.modulesLeft start (path.key :: place.chain) < limit
    omega

theorem Places.within (hplaces : Places (.still scene home) At) (start : Path) (limit : Nat) :
    Places (.still scene home) (PlacesWithin scene.files start At limit) where
  chain_ne_nil place hplace := hplaces.chain_ne_nil place hplace.allowed
  enter _ _ _ text hplace hrelative hmem hpath hfresh :=
    hplace.succ.enter hplaces hrelative hmem (hpath.elim id id) hfresh text

/-- The number of modules that may be looked into does not count where it is large enough. -/
theorem reachWithin_tracks_of_modulesLeft_lt (hplaces : Places (.still scene home) At)
    (start : Path) (limit limit' : Nat) :
    ReachesTrack (.still scene home)
      (fun place => PlacesWithin scene.files start At limit place ∧
        PlacesWithin scene.files start At limit' place)
      (reachWithin (α := α) limit) (reachWithin limit') := by
  -- By induction on one limit: entering a module lowers both limits and the modules left.
  induction limit generalizing limit' with
  | zero =>
      rintro place specifier name exactly visit visit' ⟨hplace, -⟩
      exact absurd hplace.left (Nat.not_lt_zero _)
  | succ limit ih =>
      rintro place specifier name exactly visit visit' ⟨hplace, hplace'⟩ hspecifier hvisit
      cases limit' with
      | zero => exact absurd hplace'.left (Nat.not_lt_zero _)
      | succ limit' =>
          refine Tracks.withModule (hplaces.chain_ne_nil place hplace.allowed) hspecifier
            fun path text hrelative hmem hpath hfresh => ?_
          have hcontains := hpath.elim id id
          exact followExport_relate (tracks_composes _) (ih limit') name exactly
            (fun inner c hinner => hvisit inner c ⟨hinner.1.succ, hinner.2.succ⟩)
            ⟨hplace.enter hplaces hrelative hmem hcontains hfresh text,
              hplace'.enter hplaces hrelative hmem hcontains hfresh text⟩

/-- A search with a limit that is large enough goes the same way with any larger one. -/
theorem followSteps_tracks_of_le (hplaces : Places (.still scene home) At) {place : Place}
    (c : Cursor) {visit : Visit α} (hplace : At place)
    (hvisit : VisitsTrack (.still scene home) At visit visit) {limit limit' : Nat}
    (hlimit : importLimit scene.files place.script.path ≤ limit)
    (hlimit' : importLimit scene.files place.script.path ≤ limit') :
    Tracks (.still scene home) place
      (followSteps (reachWithin limit) stepLimit place.script c visit)
      (followSteps (reachWithin limit') stepLimit place.script c visit) := by
  have hnear : Near place.script.path place.script.directory := near_directory place.script.path
  have hleft := Files.modulesLeft_lt_importLimit scene.files place.script.path place.chain
  exact followSteps_relate (tracks_composes _)
    (reachWithin_tracks_of_modulesLeft_lt hplaces place.script.path limit limit') stepLimit c
    (fun inner c hinner => hvisit inner c hinner.1.allowed)
    ⟨⟨hplace, hnear, by omega⟩, ⟨hplace, hnear, by omega⟩⟩

theorem follow_run (m : Module) (c : Cursor) (visit : Visit α) (scene : Scene) :
    follow m c visit scene =
      followSteps (reachWithin (importLimit scene.files m.path)) stepLimit m c visit scene := rfl

/-- A search tracks a change if its action does, although the limit changes with the files. -/
theorem follow_tracks (hplaces : Places change At) {place : Place} (c : Cursor)
    {visit visit' : Visit α} (hplace : At place) (hvisit : VisitsTrack change At visit visit') :
    Tracks change place (follow place.script c visit) (follow place.script c visit') := by
  -- The two sides have limits of their own.  Both are compared with a third one.
  let limit := max (importLimit change.scene.files place.script.path)
    (importLimit change.altered place.script.path)
  have hbefore : Tracks (.still change.scene change.home) place (follow place.script c visit)
      (followSteps (reachWithin limit) stepLimit place.script c visit) :=
    (followSteps_tracks_of_le hplaces.before c hplace
      (fun place c hplace => (hvisit place c hplace).keeps.tracks _) (le_refl _)
      (le_max_left _ _)).congr (follow_run place.script c visit _) rfl
  have hmiddle : Tracks change place
      (followSteps (reachWithin limit) stepLimit place.script c visit)
      (followSteps (reachWithin limit) stepLimit place.script c visit') :=
    followSteps_relate (tracks_composes _) (reachWithin_tracks hplaces limit) stepLimit c hvisit
      hplace
  have hafter : Tracks (.still change.after change.home) place
      (followSteps (reachWithin limit) stepLimit place.script c visit')
      (follow place.script c visit') :=
    (followSteps_tracks_of_le hplaces.after c hplace
      (fun place c hplace => (hvisit place c hplace).keeps_after.tracks _)
      (le_max_right _ _) (le_refl _)).congr rfl (follow_run place.script c visit' _)
  exact hbefore.trans hmiddle hafter

end Reach

end Lookup
end NgIndex
