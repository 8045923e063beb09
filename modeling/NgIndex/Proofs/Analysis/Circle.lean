import NgIndex.Proofs.Analysis.Candidates
import NgIndex.Proofs.Analysis.Ending
import NgIndex.Proofs.Lookup.Inside

/-!
# Lists that lead back to themselves

A list stands for the factory at its end, and what stands there may lead to another list.  Nothing
keeps the search for a factory from coming to the same list again, and then it does not end.  This
is the only way in which it does not end: the lists of one module are places in its script, so if
none of them leads back to itself there is an end to them, and a search that goes on in another
module leaves fewer modules to enter.
-/

namespace NgIndex

open Script Script.Cursor Lookup Relation

namespace Analysis

/-! ### What is tried for a factory -/

section Tries

variable (scene : Scene) (origin : Path)

/-- The terminals of what stands at the end of a list. -/
def listTerminals (t : Terminal) : List Terminal :=
  match t.site.items.getLast? with
  | some last => terminals scene t.place last
  | none => []

/-- The factory that the end of a search is by itself, if it is no list. -/
def ownFactory? (t : Terminal) : Option Factory :=
  if t.site.kind == .call then
    answerAt scene t.place.chain (callFactory origin t.place.script t.site)
  else if t.site.node.isFunction then
    answerAt scene t.place.chain (functionFactory origin t.place.script t.site)
  else none

/-- An end of a search that has no factory to it: something else, or a list that leads to such ends
only. -/
inductive Fruitless : Terminal → Prop
  | other {t : Terminal} : t.site.kind ≠ .array → ownFactory? scene origin t = none → Fruitless t
  | list {t : Terminal} : t.site.kind = .array →
      (∀ t' ∈ listTerminals scene t, Fruitless t') → Fruitless t

/-- One of several candidates, where nothing comes of those before it. -/
def Tried (candidates : List Terminal) (t : Terminal) : Prop :=
  ∃ before after, candidates = before ++ t :: after ∧ ∀ t' ∈ before, Fruitless scene origin t'

/-- A list and a candidate that is tried for it. -/
def Tries (t t' : Terminal) : Prop :=
  t.site.kind = .array ∧ Tried scene origin (listTerminals scene t) t'

/-- An end of a search from which a list is come to that leads back to itself. -/
def Circling (t : Terminal) : Prop :=
  ∃ list, ReflTransGen (Tries scene origin) t list ∧ TransGen (Tries scene origin) list list

end Tries

variable {scene : Scene} {origin : Path}

theorem Tried.mem {candidates : List Terminal} {t : Terminal}
    (h : Tried scene origin candidates t) : t ∈ candidates := by
  obtain ⟨before, after, rfl, -⟩ := h
  exact List.mem_append_right _ List.mem_cons_self

/-- From an end that leads into a circle another such end is tried. -/
theorem Circling.exists_tries {t : Terminal} (h : Circling scene origin t) :
    ∃ t', Tries scene origin t t' ∧ Circling scene origin t' := by
  obtain ⟨list, hreach, hcircle⟩ := h
  rcases hreach.cases_head with rfl | ⟨next, hnext, hreach⟩
  · obtain ⟨next, hnext, hback⟩ := TransGen.head'_iff.mp hcircle
    exact ⟨next, hnext, t, hback, hcircle⟩
  · exact ⟨next, hnext, list, hreach, hcircle⟩

theorem Circling.of_tries {t t' : Terminal} (htries : Tries scene origin t t')
    (h : Circling scene origin t') : Circling scene origin t := by
  obtain ⟨list, hreach, hcircle⟩ := h
  exact ⟨list, .head htries hreach, hcircle⟩

/-! ### The answer of a search for a factory -/

section Answers

variable (scene : Scene) (origin : Path)

/-- What the search for a factory inside one module answers at an end. -/
def factoryFrom (deeper : Terminal → Option (Except Endless Factory)) :
    Nat → Terminal → Option (Except Endless Factory)
  | 0, _ => some (.error {})
  | lists + 1, t =>
      if t.site.kind == .array then
        (listTerminals scene t).findSome? fun t' =>
          if t'.place.script.path == t.place.script.path then factoryFrom deeper lists t'
          else deeper t'
      else (ownFactory? scene origin t).map .ok

/-- What the search for a factory answers at an end. -/
def factoryFromWithin : Nat → Terminal → Option (Except Endless Factory)
  | 0, _ => some (.error {})
  | modules + 1, t =>
      factoryFrom scene origin (factoryFromWithin modules) (listLimit t.place.script) t

variable {scene}

theorem factoryAt_gives {visit : Visit (Except Endless Factory)}
    {deeper : Terminal → Option (Except Endless Factory)} (hdeeper : VisitGives scene visit deeper)
    (lists : Nat) :
    VisitGives scene (factoryAt origin visit lists) (factoryFrom scene origin deeper lists) := by
  induction lists with
  | zero => exact fun t _ => .pure _ _ _
  | succ lists ih =>
      intro t ht
      simp only [factoryAt, factoryFrom]
      split
      · unfold listTerminals
        cases t.site.items.getLast? with
        | none => exact .pure _ _ none
        | some last =>
            refine follow_gives (fun t' ht' => ?_) ht last
            split
            · exact ih t' ht'
            · exact hdeeper t' ht'
      · unfold ownFactory?
        split
        · exact ((composed_callFactory origin _ _).gives scene ht).bind (.pure _ _ _)
        · split
          · exact ((composed_functionFactory origin _ _).gives scene ht).bind (.pure _ _ _)
          · exact .pure _ _ none

theorem factoryWithin_gives (modules : Nat) :
    VisitGives scene (factoryWithin origin modules) (factoryFromWithin scene origin modules) := by
  induction modules with
  | zero => exact fun t _ => .pure _ _ _
  | succ modules ih => exact fun t ht => factoryAt_gives origin ih (listLimit t.place.script) t ht

end Answers

/-! ### Nothing comes of some ends -/

/-- Answers that agree on the ends of which nothing comes, except where a bound is met. -/
structure Judges (scene : Scene) (origin : Path)
    (answer : Terminal → Option (Except Endless Factory)) : Prop where
  fruitless : ∀ t, answer t = none → Fruitless scene origin t
  ne_ok : ∀ t factory, Fruitless scene origin t → answer t ≠ some (.ok factory)

theorem judges_endless : Judges scene origin fun _ => some (.error {}) where
  fruitless _ h := nomatch h
  ne_ok _ _ _ h := nomatch h

theorem Judges.ite {answer answer' : Terminal → Option (Except Endless Factory)}
    (h : Judges scene origin answer) (h' : Judges scene origin answer') (test : Terminal → Bool) :
    Judges scene origin fun t => if test t then answer t else answer' t where
  fruitless t ht := by
    split at ht
    · exact h.fruitless t ht
    · exact h'.fruitless t ht
  ne_ok t factory ht := by
    split
    · exact h.ne_ok t factory ht
    · exact h'.ne_ok t factory ht

theorem judges_factoryFrom {deeper : Terminal → Option (Except Endless Factory)}
    (hdeeper : Judges scene origin deeper) (lists : Nat) :
    Judges scene origin (factoryFrom scene origin deeper lists) := by
  induction lists with
  | zero => exact judges_endless
  | succ lists ih =>
      have hinner (t : Terminal) :=
        ih.ite hdeeper fun t' => t'.place.script.path == t.place.script.path
      constructor
      · intro t ht
        rw [factoryFrom] at ht
        by_cases harray : t.site.kind = .array
        · rw [if_pos (by simpa using harray), List.findSome?_eq_none_iff] at ht
          exact .list harray fun t' ht' => (hinner t).fruitless t' (ht t' ht')
        · rw [if_neg (by simpa using harray)] at ht
          exact .other harray (Option.map_eq_none_iff.mp ht)
      · intro t factory ht hanswer
        rw [factoryFrom] at hanswer
        cases ht with
        | other harray hnone =>
            rw [if_neg (by simpa using harray), hnone] at hanswer
            cases hanswer
        | list harray hall =>
            rw [if_pos (by simpa using harray)] at hanswer
            obtain ⟨t', ht', hok⟩ := List.exists_of_findSome?_eq_some hanswer
            exact (hinner t).ne_ok t' factory (hall t' ht') hok

theorem judges_factoryFromWithin (modules : Nat) :
    Judges scene origin (factoryFromWithin scene origin modules) := by
  induction modules with
  | zero => exact judges_endless
  | succ modules ih =>
      constructor
      · intro t ht
        exact (judges_factoryFrom ih (listLimit t.place.script)).fruitless t ht
      · intro t factory ht
        exact (judges_factoryFrom ih (listLimit t.place.script)).ne_ok t factory ht

/-- A search along candidates meets a bound just if it does so at one that is tried. -/
theorem Judges.findSome?_eq_error_iff {answer : Terminal → Option (Except Endless Factory)}
    (h : Judges scene origin answer) (candidates : List Terminal) :
    candidates.findSome? answer = some (.error {}) ↔
      ∃ t, Tried scene origin candidates t ∧ answer t = some (.error {}) := by
  constructor
  · intro herror
    obtain ⟨before, t, after, heq, ht, hbefore⟩ := List.findSome?_eq_some_iff.mp herror
    exact ⟨t, ⟨before, after, heq, fun t' ht' => h.fruitless t' (hbefore t' ht')⟩, ht⟩
  · rintro ⟨t, ⟨before, after, rfl, hbefore⟩, ht⟩
    rw [List.findSome?_append, List.findSome?_cons, ht]
    -- If one of those before has an answer, then it meets a bound itself.
    cases hfound : before.findSome? answer with
    | none => rfl
    | some found =>
        obtain ⟨t', ht', hanswer⟩ := List.exists_of_findSome?_eq_some hfound
        cases found with
        | error e => rfl
        | ok factory => exact absurd hanswer (h.ne_ok t' factory (hbefore t' ht'))

/-! ### A search in a circle meets every bound -/

theorem factoryFrom_of_circling {deeper : Terminal → Option (Except Endless Factory)}
    (hjudges : Judges scene origin deeper)
    (hdeeper : ∀ t, Circling scene origin t → deeper t = some (.error {})) (lists : Nat)
    {t : Terminal} (h : Circling scene origin t) :
    factoryFrom scene origin deeper lists t = some (.error {}) := by
  induction lists generalizing t with
  | zero => rfl
  | succ lists ih =>
      obtain ⟨t', ⟨harray, htried⟩, hcircling⟩ := h.exists_tries
      have hinner := (judges_factoryFrom hjudges lists).ite hjudges fun t' =>
        t'.place.script.path == t.place.script.path
      rw [factoryFrom, if_pos (by simpa using harray), hinner.findSome?_eq_error_iff]
      refine ⟨t', htried, ?_⟩
      -- Whichever of the two bounds is used up by the candidate, it is still in the circle.
      split
      · exact ih hcircling
      · exact hdeeper t' hcircling

theorem factoryFromWithin_of_circling (modules : Nat) {t : Terminal}
    (h : Circling scene origin t) :
    factoryFromWithin scene origin modules t = some (.error {}) := by
  induction modules generalizing t with
  | zero => rfl
  | succ modules ih =>
      exact factoryFrom_of_circling (judges_factoryFromWithin modules) (fun _ => ih) _ h

/-! ### A search that meets a bound is in a circle -/

/-- A place whose script is on the chain and indexed in the usual way. -/
structure Sound (place : Place) : Prop where
  on_chain : place.script.path.key ∈ place.chain
  whole : place.script.Whole

theorem sound_enter (place : Place) (path : Path) (text : String) :
    Sound (place.enter path text) :=
  ⟨List.mem_cons_self, Module.whole_ofText path text⟩

theorem places_sound (scene : Scene) (home : Module) : Places (.still scene home) Sound where
  chain_ne_nil _ hplace := List.ne_nil_of_mem hplace.on_chain
  enter place _ path text _ _ _ _ _ := sound_enter place path text

/-- Where a search that starts at a place may be: there, or in another script from which fewer
modules can be entered. -/
def HereOrDeeper (files : Files) (start : Path) (limit : Nat) (place here : Place) : Prop :=
  here = place ∨ PlacesWithin files start Sound limit here ∧
    place.script.path.key ∈ here.chain ∧ here.script.path ≠ place.script.path

section Limit

variable {start : Path} {limit : Nat} {place : Place}
  (hplace : PlacesWithin scene.files start Sound (limit + 1) place)

include hplace

theorem places_hereOrDeeper :
    Places (.still scene place.script) (HereOrDeeper scene.files start limit place) where
  chain_ne_nil here hhere := by
    rcases hhere with rfl | ⟨hhere, -, -⟩
    · exact List.ne_nil_of_mem hplace.allowed.on_chain
    · exact List.ne_nil_of_mem hhere.allowed.on_chain
  enter here specifier path text hhere hrelative hmem hpath hfresh := by
    have hplaces := places_sound scene place.script
    have hcontains := hpath.elim id id
    -- The script of the place is on the chain, so it is not entered again.
    have hother (hchain : place.script.path.key ∈ here.chain) : path ≠ place.script.path := by
      rintro rfl
      exact hfresh hchain
    rcases hhere with rfl | ⟨hhere, hchain, -⟩
    · have hchain := hplace.allowed.on_chain
      exact .inr ⟨hplace.enter hplaces hrelative hmem hcontains hfresh text,
        List.mem_cons_of_mem _ hchain, hother hchain⟩
    · exact .inr ⟨hhere.succ.enter hplaces hrelative hmem hcontains hfresh text,
        List.mem_cons_of_mem _ hchain, hother hchain⟩

theorem listTerminals_inside {c : Cursor} (hc : Within place.script.root c) :
    ∀ t ∈ listTerminals scene ⟨place, c⟩,
      Inside (HereOrDeeper scene.files start limit place) t := by
  intro t ht
  unfold listTerminals at ht
  split at ht
  · next last hlast =>
      refine terminals_inside (places_hereOrDeeper hplace) (fun here hhere => ?_) (.inl rfl)
        (hc.trans (within_of_mem_items (List.mem_of_getLast? hlast))) t ht
      rcases hhere with rfl | ⟨hhere, -, -⟩
      · exact hplace.allowed.whole
      · exact hhere.allowed.whole
  · cases ht

/-- Places of a script, all different, from which a place in it has been come to. -/
structure Led (scene : Scene) (origin : Path) (place : Place) (seen : List Cursor) (c : Cursor) :
    Prop where
  nodup : seen.Nodup
  within : ∀ s ∈ c :: seen, Within place.script.root s
  tries : ∀ s ∈ seen, TransGen (Tries scene origin) ⟨place, s⟩ ⟨place, c⟩

omit hplace

theorem Led.length_lt {seen : List Cursor} {c : Cursor} (h : Led scene origin place seen c)
    (hc : c ∉ seen) : seen.length < place.script.root.preOrder.length := by
  have hnodup : (c :: seen).Nodup := List.nodup_cons.mpr ⟨hc, h.nodup⟩
  have hsubset : c :: seen ⊆ place.script.root.preOrder :=
    fun s hs => mem_preOrder_iff.mpr (h.within s hs)
  have hlength := (List.subperm_of_subset hnodup hsubset).length_le
  rw [List.length_cons] at hlength
  omega

theorem Led.next {seen : List Cursor} {c c' : Cursor} (h : Led scene origin place seen c)
    (hc : c ∉ seen) (htries : Tries scene origin ⟨place, c⟩ ⟨place, c'⟩)
    (hc' : Within place.script.root c') : Led scene origin place (c :: seen) c' where
  nodup := List.nodup_cons.mpr ⟨hc, h.nodup⟩
  within := List.forall_mem_cons.mpr ⟨hc', h.within⟩
  tries := List.forall_mem_cons.mpr
    ⟨.single htries, fun s hs => (h.tries s hs).tail htries⟩

include hplace

/-- By induction on the bound: it is as large as the number of places that have not led here, so
when it is met all places have, this one among them. -/
theorem circling_of_factoryFrom {deeper : Terminal → Option (Except Endless Factory)}
    (hjudges : Judges scene origin deeper)
    (hdeeper : ∀ t, Inside (PlacesWithin scene.files start Sound limit) t →
      deeper t = some (.error {}) → Circling scene origin t)
    (lists : Nat) {seen : List Cursor} {c : Cursor} (hled : Led scene origin place seen c)
    (hlists : seen.length + lists = listLimit place.script)
    (h : factoryFrom scene origin deeper lists ⟨place, c⟩ = some (.error {})) :
    Circling scene origin ⟨place, c⟩ := by
  induction lists generalizing seen c with
  | zero =>
      by_cases hc : c ∈ seen
      · exact ⟨_, .refl, hled.tries c hc⟩
      · have hlt := hled.length_lt hc
        rw [listLimit] at hlists
        omega
  | succ lists ih =>
      by_cases hc : c ∈ seen
      · exact ⟨_, .refl, hled.tries c hc⟩
      · rw [factoryFrom] at h
        by_cases harray : c.kind = .array
        · have hinner := (judges_factoryFrom hjudges lists).ite hjudges fun t' =>
            t'.place.script.path == place.script.path
          rw [if_pos (by simpa using harray), hinner.findSome?_eq_error_iff] at h
          obtain ⟨t', htried, herror⟩ := h
          have htries : Tries scene origin ⟨place, c⟩ t' := ⟨harray, htried⟩
          obtain ⟨hallowed, hwithin⟩ :=
            listTerminals_inside hplace (hled.within c List.mem_cons_self) t' htried.mem
          refine .of_tries htries ?_
          obtain ⟨place', c'⟩ := t'
          -- Another list of this script is one more that has been seen; in another script there are
          -- fewer modules left.
          rcases hallowed with hsame | ⟨hless, -, hother⟩
          · obtain rfl : place' = place := hsame
            rw [if_pos (by simp)] at herror
            refine ih (hled.next hc htries hwithin) ?_ herror
            rw [List.length_cons, ← hlists]
            omega
          · rw [if_neg (by simpa using hother)] at herror
            exact hdeeper _ ⟨hless, hwithin⟩ herror
        · rw [if_neg (by simpa using harray)] at h
          obtain ⟨factory, -, hcontra⟩ := Option.map_eq_some_iff.mp h
          cases hcontra

end Limit

theorem circling_of_factoryFromWithin {start : Path} (modules : Nat) {t : Terminal}
    (ht : Inside (PlacesWithin scene.files start Sound modules) t)
    (h : factoryFromWithin scene origin modules t = some (.error {})) :
    Circling scene origin t := by
  induction modules generalizing t with
  | zero => exact absurd ht.allowed.left (Nat.not_lt_zero _)
  | succ modules ih =>
      have hled : Led scene origin t.place [] t.site :=
        ⟨.nil, by simpa using ht.within, fun s hs => nomatch hs⟩
      exact circling_of_factoryFrom ht.allowed (judges_factoryFromWithin modules)
        (fun _ => ih) _ hled (Nat.zero_add _) h

/-- The search for the factory that an expression stands for meets a bound just if it tries
something that leads into a circle. -/
theorem findSome?_factoryFromWithin_eq_error_iff {place : Place} (hplace : Sound place)
    {c : Cursor} (hc : Within place.script.root c) :
    (terminals scene place c).findSome?
        (factoryFromWithin scene origin (importLimit scene.files place.script.path)) =
          some (.error {}) ↔
      ∃ t, Tried scene origin (terminals scene place c) t ∧ Circling scene origin t := by
  rw [(judges_factoryFromWithin _).findSome?_eq_error_iff]
  constructor
  · rintro ⟨t, htried, herror⟩
    have hplaces := (places_sound scene place.script).within place.script.path
      (importLimit scene.files place.script.path)
    have hstart : PlacesWithin scene.files place.script.path Sound
        (importLimit scene.files place.script.path) place :=
      ⟨hplace, near_directory _, Files.modulesLeft_lt_importLimit _ _ _⟩
    have hinside := terminals_inside hplaces (fun here hhere => hhere.allowed.whole) hstart hc t
      htried.mem
    exact ⟨t, htried, circling_of_factoryFromWithin _ hinside herror⟩
  · rintro ⟨t, htried, hcircling⟩
    exact ⟨t, htried, factoryFromWithin_of_circling _ hcircling⟩

/-! ### Analyses that are given up -/

section GivesUp

variable {α β : Type} {chain : List String}

/-- A step that goes back to its chain, and that gives up a search just under a condition. -/
def GivesUpIf (scene : Scene) (chain : List String) (step : Lookup α) (condition : Prop) : Prop :=
  ∀ session : Session, session.chain = chain →
    (step scene session).2.chain = chain ∧
      ((step scene session).2.gaveUp = true ↔ session.gaveUp = true ∨ condition)

theorem givesUpIf_of_ends {step : Lookup α} (h : Ends scene step) (hchain : chain ≠ []) :
    GivesUpIf scene chain step False := by
  rintro session rfl
  obtain ⟨hend, hgaveUp⟩ := h session hchain
  exact ⟨hend, by rw [hgaveUp, or_false]⟩

theorem GivesUpIf.congr {step : Lookup α} {p q : Prop} (h : GivesUpIf scene chain step p)
    (hpq : p ↔ q) : GivesUpIf scene chain step q := by
  rwa [propext hpq] at h

/-- The second of two steps is taken with the answer of the first. -/
theorem GivesUpIf.bind {step : Lookup α} {next : α → Lookup β} {p q : Prop}
    (h : GivesUpIf scene chain step p)
    (hnext : ∀ session : Session, session.chain = chain →
      GivesUpIf scene chain (next (step scene session).1) q) :
    GivesUpIf scene chain (step >>= next) (p ∨ q) := by
  intro session hsession
  obtain ⟨hmiddle, hp⟩ := h session hsession
  obtain ⟨hend, hq⟩ := hnext session hsession _ hmiddle
  rw [bind_run]
  exact ⟨hend, by rw [hq, hp, or_assoc]⟩

theorem GivesUpIf.pure (a : α) : GivesUpIf scene chain (Pure.pure a) False :=
  fun _ hsession => ⟨hsession, by rw [or_false]; rfl⟩

theorem GivesUpIf.mapM {xs : List α} {step : α → Lookup β} {p : α → Prop}
    (h : ∀ x ∈ xs, GivesUpIf scene chain (step x) (p x)) :
    GivesUpIf scene chain (xs.mapM step) (∃ x ∈ xs, p x) := by
  induction xs with
  | nil => exact (GivesUpIf.pure []).congr (by simp)
  | cons x xs ih =>
      rw [List.mapM_cons]
      have hrest := ih fun y hy => h y (List.mem_cons_of_mem _ hy)
      refine GivesUpIf.congr ((h x List.mem_cons_self).bind fun _ _ =>
        hrest.bind fun _ _ => .pure _) (by simp)

theorem concluded_givesUpIf (found : Option (Except Endless Factory)) :
    GivesUpIf scene chain (concluded found) (found = some (.error {})) := by
  match found with
  | none => exact (GivesUpIf.pure none).congr (by simp)
  | some (.ok factory) => exact (GivesUpIf.pure (some factory)).congr (by simp)
  | some (.error e) => exact fun _ hsession => ⟨hsession, fun _ => .inr rfl, fun _ => rfl⟩

end GivesUp

theorem ends_factoryAt {deeper : Visit (Except Endless Factory)}
    (hdeeper : ∀ m c, Ends scene (deeper m c)) (lists : Nat) (m : Module) (c : Cursor) :
    Ends scene (factoryAt origin deeper lists m c) := by
  induction lists generalizing m c with
  | zero => exact .pure _ _
  | succ lists ih =>
      simp only [factoryAt]
      split
      · split
        · refine .follow fun target site => ?_
          split
          · exact ih target site
          · exact hdeeper target site
        · exact .pure _ _
      · split
        · exact ((composed_callFactory origin m c).ends scene).bind fun _ => .pure _ _
        · split
          · exact ((composed_functionFactory origin m c).ends scene).bind fun _ => .pure _ _
          · exact .pure _ _

theorem ends_factoryWithin (modules : Nat) (m : Module) (c : Cursor) :
    Ends scene (factoryWithin origin modules m c) := by
  induction modules generalizing m c with
  | zero => exact .pure _ _
  | succ modules ih => exact ends_factoryAt ih (listLimit m) m c

/-- An expression for a factory whose search comes to a list that leads back to itself. -/
def CirclesFrom (scene : Scene) (place : Place) (c : Cursor) : Prop :=
  ∃ t, Tried scene place.script.path (terminals scene place c) t ∧
    Circling scene place.script.path t

theorem factory?_run (m : Module) (c : Cursor) (scene : Scene) (session : Session) :
    factory? m c scene session =
      (follow m c (factoryWithin m.path (importLimit scene.files m.path)) >>= concluded) scene
        session := rfl

theorem factory?_givesUpIf {place : Place} (hplace : Sound place) {c : Cursor}
    (hc : Within place.script.root c) :
    GivesUpIf scene place.chain (factory? place.script c) (CirclesFrom scene place c) := by
  have hchain : place.chain ≠ [] := List.ne_nil_of_mem hplace.on_chain
  let limit := importLimit scene.files place.script.path
  let search := follow place.script c (factoryWithin place.script.path limit)
  have hends : Ends scene search := .follow (ends_factoryWithin limit)
  have hanswer : Gives scene place.chain search
      ((terminals scene place c).findSome?
        (factoryFromWithin scene place.script.path limit)) :=
    follow_gives (factoryWithin_gives _ limit) hchain c
  -- The searches inside end by themselves; what gives up is the conclusion from their answer.
  have hsearch : GivesUpIf scene place.chain (search >>= concluded)
      (False ∨ (terminals scene place c).findSome?
        (factoryFromWithin scene place.script.path limit) = some (.error {})) := by
    refine (givesUpIf_of_ends hends hchain).bind fun session hsession => ?_
    rw [(hanswer session hsession).1]
    exact concluded_givesUpIf _
  rw [false_or, findSome?_factoryFromWithin_eq_error_iff hplace hc] at hsearch
  intro session hsession
  rw [factory?_run]
  exact hsearch session hsession

/-- A call that registers a directive, under a name that is known, with an expression for its
factory. -/
def RegistersDirective (scene : Scene) (place : Place) (call : Call) (factory : Cursor) : Prop :=
  call.isMethod "directive" = true ∧ ∃ site, call.arguments = [site, factory] ∧
    (answerAt scene place.chain (string? place.script site)).isSome = true

theorem registeredDirective?_givesUpIf {place : Place} (hplace : Sound place)
    (classes : List Directive) {call : Call} (hcall : .call call ∈ place.script.events) :
    GivesUpIf scene place.chain (registeredDirective? place.script classes call)
      (∃ factory, RegistersDirective scene place call factory ∧
        CirclesFrom scene place factory) := by
  have hchain : place.chain ≠ [] := List.ne_nil_of_mem hplace.on_chain
  unfold registeredDirective?
  split
  · next site factory hmethod harguments =>
      have hfactory : Within place.script.root factory :=
        Module.within_of_mem_events hcall (by simp [harguments])
      have hname : Composed place.script (string? place.script site) := .string? site
      refine GivesUpIf.congr ((givesUpIf_of_ends (hname.ends scene) hchain).bind
        (q := (answerAt scene place.chain (string? place.script site)).isSome = true ∧
          CirclesFrom scene place factory) fun session hsession => ?_)
        (by simp [RegistersDirective, hmethod, harguments])
      -- A factory is looked for only under a name that is known.
      rw [(hname.gives scene hchain session hsession).1]
      cases answerAt scene place.chain (string? place.script site) with
      | none => exact (GivesUpIf.pure none).congr (by simp)
      | some name =>
          have hgivesUp : GivesUpIf scene place.chain (factory? place.script factory) _ :=
            factory?_givesUpIf hplace hfactory
          exact (hgivesUp.bind fun _ _ => .pure _).congr (by simp)
  · next hno =>
      refine (GivesUpIf.pure none).congr ⟨False.elim, ?_⟩
      rintro ⟨factory, ⟨hmethod, site, harguments, -⟩, -⟩
      exact hno site factory hmethod harguments

theorem directives_givesUpIf {place : Place} (hplace : Sound place) :
    GivesUpIf scene place.chain (directives place.script)
      (∃ call factory, .call call ∈ place.script.events ∧
        RegistersDirective scene place call factory ∧ CirclesFrom scene place factory) := by
  have hchain : place.chain ≠ [] := List.ne_nil_of_mem hplace.on_chain
  have hclasses := (composed_classDirectives place.script).ends scene
  refine GivesUpIf.congr ((givesUpIf_of_ends hclasses hchain).bind fun session _ =>
    (GivesUpIf.mapM (p := fun event => ∃ call, event = Event.call call ∧ ∃ factory,
      RegistersDirective scene place call factory ∧ CirclesFrom scene place factory)
      fun event hevent => ?_).bind fun _ _ => .pure _) ?_
  · cases event with
    | call call => exact (registeredDirective?_givesUpIf hplace _ hevent).congr (by simp)
    | classDeclaration site => exact (GivesUpIf.pure none).congr (by simp)
    | functionDeclaration site => exact (GivesUpIf.pure none).congr (by simp)
    | assignment site left right => exact (GivesUpIf.pure none).congr (by simp)
  rw [false_or, or_false]
  constructor
  · rintro ⟨_, hevent, call, rfl, factory, hfactory⟩
    exact ⟨call, factory, hevent, hfactory⟩
  · rintro ⟨call, factory, hevent, hfactory⟩
    exact ⟨_, hevent, call, rfl, factory, hfactory⟩

/-- However large the bounds are, a search that goes round in a circle meets them. -/
theorem CirclesFrom.gives {place : Place} (hchain : place.chain ≠ []) {c : Cursor}
    (h : CirclesFrom scene place c) (modules lists : Nat) :
    Gives scene place.chain
      (follow place.script c
        (factoryAt place.script.path (factoryWithin place.script.path modules) lists))
      (some (.error {})) := by
  obtain ⟨t, htried, hcircling⟩ := h
  have hjudges : Judges scene place.script.path
      (factoryFromWithin scene place.script.path modules) := judges_factoryFromWithin modules
  have herror : (terminals scene place c).findSome? (factoryFrom scene place.script.path
      (factoryFromWithin scene place.script.path modules) lists) = some (.error {}) := by
    rw [(judges_factoryFrom hjudges lists).findSome?_eq_error_iff]
    refine ⟨t, htried, factoryFrom_of_circling hjudges (fun t' ht' => ?_) lists hcircling⟩
    exact factoryFromWithin_of_circling modules ht'
  rw [← herror]
  exact follow_gives (factoryAt_gives _ (factoryWithin_gives _ modules) lists) hchain c

end Analysis

theorem Analysis.sound_first (origin : Path) (text : String) : Sound (.first origin text) :=
  ⟨List.mem_cons_self, Module.whole_ofText origin text⟩

theorem Analysis.gaveUp_directives_iff (scene : Scene) (origin : Path) (text : String) :
    (directives (.ofText origin text) scene (.start origin)).2.gaveUp = true ↔
      ∃ call factory, .call call ∈ (Module.ofText origin text).events ∧
        RegistersDirective scene (.first origin text) call factory ∧
        CirclesFrom scene (.first origin text) factory := by
  have hgivesUp : GivesUpIf scene _ _ _ := directives_givesUpIf (sound_first origin text)
  rw [← false_or (∃ call factory, _)]
  exact (hgivesUp (.start origin) rfl).2.trans (or_congr_left (by simp [Session.start]))

/-- **The analysis of directives ends just where no list leads back to itself.**  Whatever scripts
there are, the analysis of a script comes to its end unless a factory is looked for from an
expression whose search comes to a list that leads, by way of other lists or none, to the same list
again.  In that case no bound on the number of lists and modules is large enough. -/
theorem directives_end_iff_no_circle (scene : Scene) (origin : Path) (text : String) :
    ((Analysis.directives (.ofText origin text) scene (.start origin)).2.gaveUp = false ↔
      ∀ (call : Call) (factory : Cursor), .call call ∈ (Module.ofText origin text).events →
        Analysis.RegistersDirective scene (.first origin text) call factory →
        ¬ Analysis.CirclesFrom scene (.first origin text) factory) ∧
    ∀ factory : Cursor, Analysis.CirclesFrom scene (.first origin text) factory →
      ∀ modules lists : Nat, Gives scene [origin.key]
        (follow (.ofText origin text) factory
          (Analysis.factoryAt origin (Analysis.factoryWithin origin modules) lists))
        (some (.error {})) := by
  constructor
  · rw [← Bool.not_eq_true, Analysis.gaveUp_directives_iff]
    simp only [not_exists, not_and]
  · intro factory hcircle modules lists
    exact hcircle.gives (List.cons_ne_nil _ _) modules lists

/-! ### A list that stands for itself, and one that does not -/

namespace SelfReferring

def origin : Path :=
  ⟨"/main.js"⟩

/-- The last part of the list is the name of the list. -/
def text : String :=
  "var a = ['x', a]; angular.module('m').directive('d', a)"

/-- The last part of each list leads on, in the end to a function. -/
def straightText : String :=
  "var f = () => ({}); var a = ['x', f]; angular.module('m').directive('d', ['y', a])"

def scene : Scene where
  root := ⟨"/"⟩
  files := {}

theorem gaveUp_text :
    (Analysis.directives (.ofText origin text) scene (.start origin)).2.gaveUp = true := by
  decide +kernel

end SelfReferring

section

open SelfReferring

/-- The lists that lead to a function do not lead back to themselves.  The one that stands for
itself is in a circle, and the search from it meets every bound. -/
theorem straight_lists_end_and_others_do_not :
    (∀ (call : Call) (factory : Cursor), .call call ∈ (Module.ofText origin straightText).events →
      Analysis.RegistersDirective scene (.first origin straightText) call factory →
      ¬ Analysis.CirclesFrom scene (.first origin straightText) factory) ∧
    ∃ factory : Cursor, Analysis.CirclesFrom scene (.first origin text) factory ∧
      ∀ modules lists : Nat, Gives scene [origin.key]
        (follow (.ofText origin text) factory
          (Analysis.factoryAt origin (Analysis.factoryWithin origin modules) lists))
        (some (.error {})) := by
  have hstraight : (Analysis.directives (.ofText origin straightText) scene
      (.start origin)).2.gaveUp = false := by
    decide +kernel
  obtain ⟨call, factory, -, -, hcircle⟩ :=
    (Analysis.gaveUp_directives_iff scene origin text).mp gaveUp_text
  refine ⟨(directives_end_iff_no_circle scene origin straightText).1.mp hstraight, factory,
    hcircle, ?_⟩
  exact (directives_end_iff_no_circle scene origin text).2 factory hcircle

/-- The analysis of a script with a list whose last part is the name of the list does not end: the
search for the factory is given up, and it would be under any other bounds. -/
theorem self_referring_list_is_endless :
    (Analysis.directives (.ofText origin text) scene (.start origin)).2.gaveUp = true ∧
    ∃ (call : Call) (factory : Cursor), .call call ∈ (Module.ofText origin text).events ∧
      Analysis.RegistersDirective scene (.first origin text) call factory ∧
      ∀ modules lists : Nat,
        (follow (.ofText origin text) factory
          (Analysis.factoryAt origin (Analysis.factoryWithin origin modules) lists) scene
          (.start origin)).1 = some (.error {}) := by
  obtain ⟨call, factory, hcall, hregisters, hcircle⟩ :=
    (Analysis.gaveUp_directives_iff scene origin text).mp gaveUp_text
  refine ⟨gaveUp_text, call, factory, hcall, hregisters, fun modules lists => ?_⟩
  exact (hcircle.gives (List.cons_ne_nil _ _) modules lists (.start origin) rfl).1

end

end NgIndex
