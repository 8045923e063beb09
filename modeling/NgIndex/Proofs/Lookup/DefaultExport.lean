import NgIndex.Proofs.Lookup.Terminals

/-!
# The default export as a fallback

What is imported under a name is looked for among the exports of that name first, and after that at
what the module gives away without a name.  The second search is made whenever the first one has no
answer.  That may be so because the module does not export the name.  It may as well be so because
the action has no answer at anything that the name leads to, although the module exports it.

So the default export has no say in what a name means only as long as the action accepts something
that the name leads to.  This is shown to be the exact condition, up to ends of the search that the
name and the default export have in common.
-/

namespace NgIndex
namespace Lookup

open Script

section Runs

variable {α : Type} (reach : Reach α) (m : Module) (visit : Visit α) (scene : Scene)
  (session : Session)

/-- What is looked for exactly is looked for among the exports of its name only. -/
theorem followExport_exactly (name : String) :
    followExport reach m name true visit scene session =
      searchExports reach m name visit m.exports scene session := by
  unfold followExport
  rw [bind_run]
  cases h : searchExports reach m name visit m.exports scene session with
  | mk answer after =>
      cases answer with
      | some a => rfl
      | none => rfl

/-- The default export is looked at if and only if the search for the name has no answer. -/
theorem followExport_run {name : String} (hname : name ≠ defaultName) :
    followExport reach m name false visit scene session =
      let own := followExport reach m name true visit scene session
      if own.1.isSome then own
      else followExport reach m defaultName true visit scene own.2 := by
  simp only [followExport_exactly]
  unfold followExport
  rw [bind_run]
  cases h : searchExports reach m name visit m.exports scene session with
  | mk answer after =>
      cases answer with
      | some a => rfl
      | none => simp [hname]

end Runs

/-! ### Actions with given answers -/

section Answers

variable {α : Type}

/-- The action that has given answers. -/
def Visit.ofAnswer (answer : Terminal → Option α) : Visit α :=
  fun m c => do return answer ⟨⟨(← get).chain, m⟩, c⟩

theorem visitGives_ofAnswer (scene : Scene) (answer : Terminal → Option α) :
    VisitGives scene (Visit.ofAnswer answer) answer := by
  rintro ⟨⟨chain, m⟩, c⟩ - session rfl
  exact ⟨rfl, rfl⟩

end Answers

/-! ### What the default export has a say in -/

section Fallback

variable {α : Type} (scene : Scene) (limit : Nat) (place : Place)

/-- The ends of the search for what a module exports under a name, in the order in which they are
come to. -/
def ownTerminals (name : String) : List Terminal :=
  exportTerminals (reachedWithin scene limit) place name true

theorem exportTerminals_eq_append {name : String} (hname : name ≠ defaultName) :
    exportTerminals (reachedWithin scene limit) place name false =
      ownTerminals scene limit place name ++ ownTerminals scene limit place defaultName := by
  simp [ownTerminals, exportTerminals, hname]

/-- A name that no export statement offers leads nowhere. -/
theorem ownTerminals_eq_nil {name : String}
    (h : ∀ statement ∈ place.script.exports, place.script.offer name statement = .nothing) :
    ownTerminals scene limit place name = [] := by
  have hsearch (statements : List Cursor)
      (h : ∀ statement ∈ statements, place.script.offer name statement = .nothing) :
      searchTerminals (reachedWithin scene limit) place name statements = [] := by
    induction statements with
    | nil => rfl
    | cons statement rest ih =>
        rw [searchTerminals, h statement List.mem_cons_self]
        exact ih fun other hother => h other (List.mem_cons_of_mem _ hother)
  simp [ownTerminals, exportTerminals, hsearch _ h]

theorem findSome?_congr_mem {ts : List Terminal} {answer other : Terminal → Option α}
    (h : ∀ t ∈ ts, other t = answer t) : ts.findSome? other = ts.findSome? answer := by
  induction ts with
  | nil => rfl
  | cons t ts ih =>
      rw [List.findSome?_cons, List.findSome?_cons, h t List.mem_cons_self,
        ih fun t ht => h t (List.mem_cons_of_mem _ ht)]

/-- A search for a name has the same answer, whatever the action answers at ends that the name does
not lead to. -/
def DefaultHasNoSay (name : String) (answer : Terminal → Option α) : Prop :=
  ∀ (visit : Visit α) (other : Terminal → Option α), VisitGives scene visit other →
    (∀ t ∈ ownTerminals scene limit place name, other t = answer t) →
    Gives scene place.chain (followExport (reachWithin limit) place.script name false visit)
      ((ownTerminals scene limit place name).findSome? answer)

variable {scene limit place} {name : String} {answer : Terminal → Option α}

/-- The answer of the search is the first one along the ends of the name, and after them along those
of the default export. -/
theorem followExport_gives_or (hname : name ≠ defaultName) (hchain : place.chain ≠ [])
    {visit : Visit α} {other : Terminal → Option α} (hvisit : VisitGives scene visit other)
    (hother : ∀ t ∈ ownTerminals scene limit place name, other t = answer t) :
    Gives scene place.chain (followExport (reachWithin limit) place.script name false visit)
      (((ownTerminals scene limit place name).findSome? answer).or
        ((ownTerminals scene limit place defaultName).findSome? other)) := by
  have h := followExport_gives (reachWithin_gives scene limit) hvisit hchain name false
  rwa [exportTerminals_eq_append scene limit place hname, List.findSome?_append,
    findSome?_congr_mem hother] at h

/-- The default export has no say where the action accepts an end that the name leads to. -/
theorem DefaultHasNoSay.of_accepted (hname : name ≠ defaultName) (hchain : place.chain ≠ [])
    (h : ∃ t ∈ ownTerminals scene limit place name, (answer t).isSome) :
    DefaultHasNoSay scene limit place name answer := by
  intro visit other hvisit hother
  have hgives := followExport_gives_or hname hchain hvisit hother
  obtain ⟨a, ha⟩ := Option.isSome_iff_exists.mp (List.findSome?_isSome_iff.mpr h)
  rwa [ha, Option.some_or, ← ha] at hgives

/-- Nor does it where it leads to nothing that the name does not lead to as well. -/
theorem DefaultHasNoSay.of_subset (hname : name ≠ defaultName) (hchain : place.chain ≠ [])
    (h : ∀ t ∈ ownTerminals scene limit place defaultName,
      t ∈ ownTerminals scene limit place name) :
    DefaultHasNoSay scene limit place name answer := by
  intro visit other hvisit hother
  have hgives := followExport_gives_or hname hchain hvisit hother
  cases hown : (ownTerminals scene limit place name).findSome? answer with
  | some a => rwa [hown, Option.some_or] at hgives
  | none =>
      have hdefault : (ownTerminals scene limit place defaultName).findSome? other = none := by
        rw [List.findSome?_eq_none_iff] at hown ⊢
        exact fun t ht => (hother t (h t ht)).trans (hown t (h t ht))
      rwa [hown, hdefault] at hgives

open Classical in
/-- Where the action accepts nothing that the name leads to, its answer at any other end that the
default export leads to becomes the answer of the search. -/
theorem DefaultHasNoSay.subset [Inhabited α] (hname : name ≠ defaultName)
    (hchain : place.chain ≠ []) (h : DefaultHasNoSay scene limit place name answer)
    (hnone : ¬ ∃ t ∈ ownTerminals scene limit place name, (answer t).isSome) :
    ∀ t ∈ ownTerminals scene limit place defaultName, t ∈ ownTerminals scene limit place name := by
  intro t ht
  by_contra hout
  -- The action is made to accept whatever the name does not lead to.
  let other : Terminal → Option α := fun t =>
    if t ∈ ownTerminals scene limit place name then answer t else some default
  have hvisit := visitGives_ofAnswer scene other
  have hother : ∀ t ∈ ownTerminals scene limit place name, other t = answer t :=
    fun _ ht => if_pos ht
  have hsame := (h _ other hvisit hother).answer_eq
    (followExport_gives_or hname hchain hvisit hother)
  have hown : (ownTerminals scene limit place name).findSome? answer = none := by
    rwa [← List.findSome?_isSome_iff, Option.not_isSome_iff_eq_none] at hnone
  rw [hown, Option.none_or] at hsame
  have hreject := List.findSome?_eq_none_iff.mp hsame.symm t ht
  rw [show other t = some default from if_neg hout] at hreject
  exact absurd hreject (Option.some_ne_none _)

end Fallback

end Lookup

open Lookup Script

/-- **When the default export has no say.**  What a module exports under a name is looked for at its
default export if and only if the search for the name itself has no answer, be it that the module
does not export the name or that the action accepts nothing that the name leads to.  So the action's
answers at the default export do not matter if and only if it accepts an end that the name leads to,
or the default export leads to no other.  A name that no statement offers leads to no end, so the
default export stands in for it. -/
theorem default_export_has_no_say_iff {α : Type} [Inhabited α] (scene : Scene) (limit : Nat)
    {place : Place} (hchain : place.chain ≠ []) {name : String} (hname : name ≠ defaultName) :
    (∀ (visit : Visit α) (session : Session),
      followExport (reachWithin limit) place.script name false visit scene session =
        let own := followExport (reachWithin limit) place.script name true visit scene session
        if own.1.isSome then own
        else followExport (reachWithin limit) place.script defaultName true visit scene own.2) ∧
    (∀ answer : Terminal → Option α,
      DefaultHasNoSay scene limit place name answer ↔
        (∃ t ∈ ownTerminals scene limit place name, (answer t).isSome) ∨
          ∀ t ∈ ownTerminals scene limit place defaultName,
            t ∈ ownTerminals scene limit place name) ∧
    ((∀ statement ∈ place.script.exports, place.script.offer name statement = .nothing) →
      ownTerminals scene limit place name = []) := by
  refine ⟨fun visit session => followExport_run _ _ _ _ _ hname, fun answer => ?_,
    ownTerminals_eq_nil scene limit place⟩
  constructor
  · intro h
    exact or_iff_not_imp_left.mpr (h.subset hname hchain)
  · rintro (haccepted | hsubset)
    · exact .of_accepted hname hchain haccepted
    · exact .of_subset hname hchain hsubset

/-! ### A name and a default export of different kinds -/

namespace Standin

/-- A module that exports an object under a name, and gives away a text without one. -/
def home : Module :=
  .ofText ⟨"/m.ts"⟩ "export const a = \x7b\x7d; export default 'x'"

def scene : Scene where
  root := ⟨"/"⟩
  files := {}

def place : Place :=
  ⟨["/m.ts"], home⟩

/-- The text of a literal. -/
def literal (t : Terminal) : Option String :=
  t.place.script.literalAt? t.site

/-- What is written, whatever it is. -/
def written (t : Terminal) : Option String :=
  some (t.place.script.textAt t.site)

end Standin

/-- The default export has a say if the action wants a text, and none if it takes what comes. -/
theorem standin_default_export_has_no_say_iff :
    Standin.place.chain ≠ [] ∧ "a" ≠ defaultName ∧
      DefaultHasNoSay Standin.scene 1 Standin.place "a" Standin.written ∧
      ¬ DefaultHasNoSay Standin.scene 1 Standin.place "a" Standin.literal := by
  have hchain : Standin.place.chain ≠ [] := by decide
  have hname : "a" ≠ defaultName := by decide
  obtain ⟨-, hsay, -⟩ :=
    default_export_has_no_say_iff (α := String) Standin.scene 1 hchain hname
  obtain ⟨hwritten, hliteral, hdefault⟩ :
      (∃ t ∈ ownTerminals Standin.scene 1 Standin.place "a", (Standin.written t).isSome) ∧
      (∀ t ∈ ownTerminals Standin.scene 1 Standin.place "a", Standin.literal t = none) ∧
      ∃ t ∈ ownTerminals Standin.scene 1 Standin.place defaultName,
        Standin.literal t = some "x" := by
    decide +kernel
  refine ⟨hchain, hname, (hsay _).mpr (.inl hwritten), fun h => ?_⟩
  rcases (hsay _).mp h with ⟨t, ht, hsome⟩ | hsubset
  · simp [hliteral t ht] at hsome
  · obtain ⟨t, ht, hx⟩ := hdefault
    simp [hliteral t (hsubset t ht)] at hx

/-- Whether a statement exports a name itself, and not just all that another module exports. -/
def Script.Offer.isOfName : Offer → Bool
  | .nothing => false
  | .everything _ => false
  | _ => true

/-- A statement exports the name, and leads to an object.  Still the search for a text under this
name ends at the default export. -/
theorem exported_name_is_read_at_default_export :
    (∃ statement ∈ Standin.home.exports, (Standin.home.offer "a" statement).isOfName = true) ∧
      (ownTerminals Standin.scene 1 Standin.place "a").map Standin.written = [some "\x7b\x7d"] ∧
      (ownTerminals Standin.scene 1 Standin.place defaultName).map Standin.written =
        [some "'x'"] ∧
      (followExport (reachWithin 1) Standin.home "a" false
        (fun m target => pure (m.literalAt? target)) Standin.scene { chain := ["/m.ts"] }).1 =
          some "x" := by
  decide +kernel

end NgIndex
