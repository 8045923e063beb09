import NgIndex.Proofs.Lookup.Terminals
import NgIndex.Proofs.Script.Within

/-!
# Where the ends of a search are

If a search starts at a place inside a script, it ends at places inside scripts: in the one where it
started, or in one that can be entered from there by way of others.  It ends at an expression that
has been taken out of its wrappers, at a declaration other than that of a variable, or at what an
export statement declares; whatever holds of all of these holds of the ends.
-/

namespace NgIndex
namespace Lookup

open Script Script.Cursor

/-- A terminal inside the script of a place that is allowed. -/
structure Inside (At : Place → Prop) (t : Terminal) : Prop where
  allowed : At t.place
  within : Within t.place.script.root t.site

/-- A terminal inside the script of a place, with what there is to the ends of searches. -/
structure EndsInside (At : Place → Prop) (End : Module → Cursor → Prop) (t : Terminal) : Prop
    extends Inside At t where
  ends : End t.place.script t.site

/-- What is reached in other modules is inside their scripts. -/
def ReachedInside (At : Place → Prop) (End : Module → Cursor → Prop) (reached : Reached) : Prop :=
  ∀ (place : Place) (specifier name : String) (exactly : Bool), At place →
    ∀ t ∈ reached place specifier name exactly, EndsInside At End t

/-- Whether what is at a place leads elsewhere. -/
def leadsOn (kind : Kind) : Bool :=
  [.identifier, .shorthand, .member].contains kind

/-- Something that holds of all places which a search in a script may end at. -/
structure Ending (m : Module) (End : Module → Cursor → Prop) : Prop where
  whole : m.Whole
  unwrapped : ∀ c, Within m.root c → leadsOn c.unwrap.kind = false → End m c.unwrap
  declared : ∀ declaration ∈ m.declarations, declaration.site.kind ≠ .declarator →
    End m declaration.site
  offered : ∀ statement ∈ m.exports, ∀ name site settles,
    m.offer name statement = .declared site settles → End m site

/-- That a search ends in a script says no more. -/
theorem ending_of_whole {m : Module} (h : m.Whole) : Ending m fun _ _ => True :=
  ⟨h, fun _ _ _ => trivial, fun _ _ _ => trivial, fun _ _ _ _ _ _ => trivial⟩

theorem Ending.declarationOf? {m : Module} {End : Module → Cursor → Prop} (h : Ending m End)
    {name : String} {site declaration : Cursor}
    (hdeclaration : m.declarationOf? name site = some declaration)
    (hkind : declaration.kind ≠ .declarator) : End m declaration := by
  obtain ⟨found, hfound, rfl⟩ := Option.map_eq_some_iff.mp hdeclaration
  have hmem := Module.mem_of_innermost? hfound
  exact h.declared found (List.mem_filter.mp hmem).1 hkind

theorem kind_of_declarationOffer_declarator {m : Module} {declaration site : Cursor}
    {name : String} (h : m.declarationOffer declaration name = .declarator site) :
    site.kind = .declarator := by
  unfold Module.declarationOffer at h
  simp only at h
  split at h
  · split at h
    · next declarator hfind =>
        obtain rfl := Offer.declarator.inj h
        have htest := List.find?_some hfind
        simp only [Bool.and_eq_true, beq_iff_eq] at htest
        exact htest.1
    · cases h
  · split at h
    · split at h
      · cases h
      · cases h
    · cases h

/-- A variable that a statement offers is one. -/
theorem kind_of_offer_declarator {m : Module} {name : String} {statement site : Cursor}
    (h : m.offer name statement = .declarator site) : site.kind = .declarator := by
  unfold Module.offer at h
  simp only at h
  split at h
  · split at h
    · exact kind_of_declarationOffer_declarator h
    · split at h
      · cases h
      · cases h
  · split at h
    · have hnone := Module.site?_listOffer m statement name
      rw [h] at hnone
      cases hnone
    · split at h
      · cases h
      · cases h

/-! ### Turns inside a script -/

namespace Turn

/-- Whether a turn leads to a place inside the script, or ends the search where it may end. -/
def StaysInside (m : Module) (End : Module → Cursor → Prop) : Turn → Prop
  | .nowhere => True
  | .ends site => Within m.root site ∧ End m site
  | .onward value => Within m.root value
  | .outside _ _ _ => True
  | .inward object _ => Within m.root object

variable {m : Module} {End : Module → Cursor → Prop}

theorem staysInside_ofValue? {value : Option Cursor}
    (h : ∀ inner, value = some inner → Within m.root inner) : (ofValue? value).StaysInside m End := by
  cases value with
  | none => exact trivial
  | some inner => exact h inner rfl

theorem staysInside_ofDeclaration {declaration : Cursor}
    (hdeclaration : Within m.root declaration)
    (hend : declaration.kind ≠ .declarator → End m declaration) :
    (ofDeclaration declaration).StaysInside m End := by
  unfold ofDeclaration
  split
  · exact staysInside_ofValue? fun value hvalue => hdeclaration.trans (within_of_child? hvalue)
  · next hkind => exact ⟨hdeclaration, hend (by simpa using hkind)⟩

theorem staysInside_ofName (h : Ending m End) (name : String) (site : Cursor) :
    (ofName m name site).StaysInside m End := by
  unfold ofName
  split
  · next declaration hdeclaration =>
      exact staysInside_ofDeclaration (h.whole.within_declarationOf? hdeclaration)
        (h.declarationOf? hdeclaration)
  · cases m.importOf? name with
    | none => exact trivial
    | some binding => exact trivial

theorem staysInside_ofMember (h : Ending m End) {c object : Cursor} (hc : Within m.root c)
    (hobject : Within m.root object) (property : String) :
    (ofMember m c object property).StaysInside m End := by
  unfold ofMember
  split
  · -- What surrounds a place in the script is in the script, and so are its fields.
    refine staysInside_ofValue? fun value hvalue => ?_
    obtain ⟨owner, howner, hvalue⟩ := Option.bind_eq_some_iff.mp hvalue
    exact (hc.nearest? h.whole.above howner).trans (Table.within_of_get?_ofClass hvalue)
  · split
    · exact trivial
    · exact hobject

theorem staysInside_ofExpression (h : Ending m End) {c : Cursor} (hc : Within m.root c) :
    (ofExpression m c).StaysInside m End := by
  have hunwrap := hc.trans (within_unwrap c)
  unfold ofExpression ofPlain
  split
  · exact staysInside_ofName h _ _
  · next hname =>
      split
      · split
        · next object property hobject _ =>
            have hbelow := (hunwrap.trans (within_of_child? hobject)).trans (within_unwrap object)
            exact staysInside_ofMember h hunwrap hbelow _
        · exact trivial
      · next hmember =>
          refine ⟨hunwrap, h.unwrapped c hc ?_⟩
          simp_all [leadsOn]

theorem staysInside_ofOffer (h : Ending m End) (name : String) {statement : Cursor}
    (hstatement : statement ∈ m.exports) :
    (ofOffer m name (m.offer name statement)).StaysInside m End := by
  have hsite : ∀ site, (m.offer name statement).site? = some site → Within m.root site :=
    fun site hsite => (Module.within_of_mem_exports hstatement).trans (Module.within_of_offer hsite)
  cases hoffer : m.offer name statement with
  | nothing => exact trivial
  | declared site settles =>
      rw [hoffer] at hsite
      exact ⟨hsite site rfl, h.offered statement hstatement name site settles hoffer⟩
  | declarator site =>
      rw [hoffer] at hsite
      exact staysInside_ofDeclaration (hsite site rfl)
        fun hkind => absurd (kind_of_offer_declarator hoffer) hkind
  | value site =>
      rw [hoffer] at hsite
      exact staysInside_ofValue? hsite
  | ownName target => exact staysInside_ofName h target m.root
  | passed source target => exact trivial
  | everything source => exact trivial

end Turn

section Search

variable {At : Place → Prop} {End : Module → Cursor → Prop} {reached : Reached} {place : Place}
  (hending : ∀ place, At place → Ending place.script End)

include hending

/-- A turn that stays inside the script comes to terminals inside scripts, if searches do. -/
theorem Turn.terminalsWith_inside {terminals : Place → Cursor → List Terminal}
    (hterminals : ∀ {place : Place} {c : Cursor}, At place → Within place.script.root c →
      ∀ t ∈ terminals place c, EndsInside At End t)
    (hreached : ReachedInside At End reached) (hplace : At place) {turn : Turn}
    (hturn : turn.StaysInside place.script End) :
    ∀ t ∈ turn.terminalsWith terminals reached place, EndsInside At End t := by
  cases turn with
  | nowhere => exact fun t ht => nomatch ht
  | ends site =>
      intro t ht
      obtain rfl := List.mem_singleton.mp ht
      exact ⟨⟨hplace, hturn.1⟩, hturn.2⟩
  | onward value => exact hterminals hplace hturn
  | outside specifier name exactly => exact hreached _ _ _ _ hplace
  | inward object property =>
      intro t ht
      obtain ⟨target, htarget, ht⟩ := List.mem_flatMap.mp ht
      have hinside := hterminals hplace hturn target htarget
      split at ht
      · next value hvalue =>
          obtain ⟨table, htable, hvalue⟩ := Option.bind_eq_some_iff.mp hvalue
          have hwithin := (hending _ hinside.allowed).whole.within_ofNode? hinside.within htable
            hvalue
          exact hterminals hinside.allowed hwithin t ht
      · cases ht

theorem stepTerminals_inside (hreached : ReachedInside At End reached) (steps : Nat)
    {place : Place} {c : Cursor} (hplace : At place) (hc : Within place.script.root c) :
    ∀ t ∈ stepTerminals reached steps place c, EndsInside At End t := by
  induction steps generalizing place c with
  | zero => exact fun t ht => nomatch ht
  | succ steps ih =>
      rw [stepTerminals_succ]
      exact Turn.terminalsWith_inside hending ih hreached hplace
        (Turn.staysInside_ofExpression (hending place hplace) hc)

variable (hreached : ReachedInside At End reached) (hplace : At place)

include hreached hplace

theorem offerTerminals_inside (name : String) {statement : Cursor}
    (hstatement : statement ∈ place.script.exports) :
    ∀ t ∈ offerTerminals reached place name (place.script.offer name statement),
      EndsInside At End t := by
  rw [offerTerminals_eq]
  exact Turn.terminalsWith_inside hending (stepTerminals_inside hending hreached stepLimit) hreached
    hplace (Turn.staysInside_ofOffer (hending place hplace) name hstatement)

theorem searchTerminals_inside (name : String) {statements : List Cursor}
    (hstatements : ∀ statement ∈ statements, statement ∈ place.script.exports) :
    ∀ t ∈ searchTerminals reached place name statements, EndsInside At End t := by
  induction statements with
  | nil => exact fun t ht => nomatch ht
  | cons statement rest ih =>
      intro t ht
      rw [searchTerminals] at ht
      rcases List.mem_append.mp ht with hoffer | hrest
      · exact offerTerminals_inside hending hreached hplace name
          (hstatements statement List.mem_cons_self) t hoffer
      · split at hrest
        · cases hrest
        · exact ih (fun other hother => hstatements other (List.mem_cons_of_mem _ hother)) t hrest

theorem exportTerminals_inside (name : String) (exactly : Bool) :
    ∀ t ∈ exportTerminals reached place name exactly, EndsInside At End t := by
  have hexports (name : String) := searchTerminals_inside hending hreached hplace name
    fun _ hstatement => hstatement
  intro t ht
  rcases List.mem_append.mp ht with hname | hdefault
  · exact hexports name t hname
  · split at hdefault
    · cases hdefault
    · exact hexports defaultName t hdefault

end Search

section Reach

variable {scene : Scene} {home : Module} {At : Place → Prop} {End : Module → Cursor → Prop}
  (hplaces : Places (.still scene home) At)

include hplaces

theorem allowed_of_entered? {place entered : Place} {specifier : String} (hplace : At place)
    (h : Place.entered? scene place specifier = some entered) : At entered := by
  obtain ⟨path, text, hentered, rfl⟩ := Place.entered?_eq_some_iff.mp h
  exact hplaces.enter place specifier path text hplace hentered.relative hentered.candidate
    (.inl hentered.contains) hentered.fresh

theorem reachedWithin_inside (hending : ∀ place, At place → Ending place.script End)
    (limit : Nat) : ReachedInside At End (reachedWithin scene limit) := by
  induction limit with
  | zero => exact fun _ _ _ _ _ t ht => nomatch ht
  | succ limit ih =>
      intro place specifier name exactly hplace t ht
      rw [reachedWithin] at ht
      split at ht
      · next entered hentered =>
          have hallowed := allowed_of_entered? hplaces hplace hentered
          exact exportTerminals_inside hending ih hallowed name exactly t ht
      · cases ht

/-- A search that starts inside the script of a place ends inside the scripts of places that it can
come to from there, and at places of which everything holds that holds of all ends. -/
theorem terminals_endsInside (hending : ∀ place, At place → Ending place.script End)
    {place : Place} {c : Cursor} (hplace : At place) (hc : Within place.script.root c) :
    ∀ t ∈ terminals scene place c, EndsInside At End t :=
  stepTerminals_inside hending (reachedWithin_inside hplaces hending _) stepLimit hplace hc

theorem terminals_inside (hwhole : ∀ place, At place → place.script.Whole) {place : Place}
    {c : Cursor} (hplace : At place) (hc : Within place.script.root c) :
    ∀ t ∈ terminals scene place c, Inside At t := fun t ht =>
  (terminals_endsInside hplaces (fun place hplace => ending_of_whole (hwhole place hplace)) hplace
    hc t ht).toInside

end Reach

end Lookup
end NgIndex
