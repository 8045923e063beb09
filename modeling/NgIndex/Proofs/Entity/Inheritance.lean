import Mathlib.Data.List.Forall2
import Mathlib.Data.List.Perm.Subperm
import Mathlib.Logic.Relation
import NgIndex.Analysis.Controller

/-!
# Chains of base classes

Linking goes through a list of controllers and walks from each one to its base class, to the base
class of that, and so on.  Results are kept by class name, so that a chain is walked once, and a
class that is being linked is not walked into again.

A result that is kept is used for every controller with the same class name, registered name and
path.  Where these three tell the controllers of a list apart, each controller comes out as it went
in.  Where they do not, a controller may come out as another one, with another span, other members
and the base classes of the other one; which of the two is lost depends on the order of the list.

Where moreover no class is a base of itself, over however many steps, the walk is never cut short,
and the base classes of a result are those that the declarations give.  Of a base class that is
declared several times the last declaration counts, whichever was linked first.
-/

namespace NgIndex
namespace Controller

/-! ### Controllers that are taken for each other -/

/-- Two controllers that linking takes for one: they have the same class name, the same registered
name and the same path. -/
def Alike (a b : Controller) : Prop :=
  a.className = b.className ∧ a.sameEntry b = true

/-- Controllers of a list that are alike are the same. -/
def ToldApart (controllers : List Controller) : Prop :=
  ∀ a ∈ controllers, ∀ b ∈ controllers, a.Alike b → a = b

instance (a b : Controller) : Decidable (a.Alike b) :=
  inferInstanceAs (Decidable (a.className = b.className ∧ a.sameEntry b = true))

instance (controllers : List Controller) : Decidable (ToldApart controllers) :=
  inferInstanceAs (Decidable (∀ a ∈ controllers, ∀ b ∈ controllers, a.Alike b → a = b))

theorem Alike.refl (c : Controller) : c.Alike c :=
  ⟨rfl, by simp [sameEntry]⟩

/-! ### What one controller is linked to -/

/-- The base of a controller to go on with.  There is none if its class is being linked or is not
declared. -/
def openBase? (controllers : List Controller) (visiting : List String) (c : Controller) :
    Option Controller :=
  (c.baseClassName.filter fun name => !visiting.contains name).bind (lastOfClass? controllers)

section Step

variable {controllers : List Controller} {memo : LinkMemo} {c base : Controller}
  {linked : LinkedController}

theorem linkOne_of_remembered (controllers : List Controller)
    (h : remembered? memo c = some linked) (fuel : Nat) (visiting : List String) :
    linkOne controllers (fuel + 1) visiting memo c = (linked, memo) := by
  simp only [linkOne, h]

theorem linkOne_of_openBase?_eq_none {visiting : List String} (h : remembered? memo c = none)
    (hbase : openBase? controllers (c.className :: visiting) c = none) (fuel : Nat) :
    linkOne controllers (fuel + 1) visiting memo c = (⟨c, []⟩, remember memo ⟨c, []⟩) := by
  unfold openBase? at hbase
  simp only [linkOne, h, hbase]

theorem linkOne_of_openBase?_eq_some {visiting : List String} (h : remembered? memo c = none)
    (hbase : openBase? controllers (c.className :: visiting) c = some base) (fuel : Nat) :
    let below := linkOne controllers fuel (c.className :: visiting) memo base
    linkOne controllers (fuel + 1) visiting memo c =
      (⟨c, below.1.controller :: below.1.bases⟩,
        remember below.2 ⟨c, below.1.controller :: below.1.bases⟩) := by
  unfold openBase? at hbase
  simp only [linkOne, h, hbase]

theorem lastOfClass?_eq_some_iff {className : String} :
    lastOfClass? controllers className = some base ↔
      base.className = className ∧ ∃ before after, controllers = before ++ base :: after ∧
        ∀ other ∈ after, other.className ≠ className := by
  unfold lastOfClass?
  rw [List.find?_eq_some_iff_append]
  simp only [beq_iff_eq, Bool.not_eq_true', beq_eq_false_iff_ne]
  refine and_congr_right fun _ => ?_
  constructor
  · rintro ⟨after, before, hlist, hafter⟩
    refine ⟨before.reverse, after.reverse, ?_, fun other hother => ?_⟩
    · rw [← List.reverse_reverse controllers, hlist]
      simp
    · exact hafter other (List.mem_reverse.mp hother)
  · rintro ⟨before, after, rfl, hafter⟩
    refine ⟨after.reverse, before.reverse, by simp, fun other hother => ?_⟩
    exact hafter other (List.mem_reverse.mp hother)

theorem mem_of_lastOfClass? {className : String}
    (h : lastOfClass? controllers className = some base) :
    base ∈ controllers ∧ base.className = className := by
  obtain ⟨hname, before, after, rfl, -⟩ := lastOfClass?_eq_some_iff.mp h
  exact ⟨List.mem_append_right _ List.mem_cons_self, hname⟩

/-- The base to go on with is declared, and its class is not being linked. -/
theorem openBase?_eq_some {visiting : List String}
    (h : openBase? controllers visiting c = some base) :
    base ∈ controllers ∧ base.className ∉ visiting := by
  unfold openBase? at h
  obtain ⟨name, hname, hbase⟩ := Option.bind_eq_some_iff.mp h
  obtain ⟨-, hfree⟩ := Option.filter_eq_some_iff.mp hname
  obtain ⟨hmem, rfl⟩ := mem_of_lastOfClass? hbase
  exact ⟨hmem, by simpa using hfree⟩

end Step

/-! ### What is kept -/

/-- Every result that is kept stands under the name of its class and has a property. -/
def MemoHolds (P : LinkedController → Prop) (memo : LinkMemo) : Prop :=
  ∀ entry ∈ memo, entry.1 = entry.2.controller.className ∧ P entry.2

section Memo

variable {P : LinkedController → Prop} {memo : LinkMemo} {c : Controller}
  {linked : LinkedController}

theorem MemoHolds.nil : MemoHolds P [] :=
  fun _ hentry => absurd hentry List.not_mem_nil

theorem MemoHolds.remember (h : MemoHolds P memo) (hlinked : P linked) :
    MemoHolds P (Controller.remember memo linked) := by
  unfold Controller.remember
  split
  · exact h
  · intro entry hentry
    rcases List.mem_append.mp hentry with hold | hnew
    · exact h entry hold
    · obtain rfl := List.mem_singleton.mp hnew
      exact ⟨rfl, hlinked⟩

/-- A result that is used again belongs to a controller that is like the one at hand. -/
theorem MemoHolds.of_remembered? (h : MemoHolds P memo)
    (hlinked : remembered? memo c = some linked) : P linked ∧ linked.controller.Alike c := by
  unfold remembered? at hlinked
  cases hfind : memo.find? fun entry => entry.1 == c.className with
  | none => simp [hfind] at hlinked
  | some entry =>
      obtain ⟨key, kept⟩ := entry
      simp only [hfind, Option.ite_none_right_eq_some, Option.some.injEq] at hlinked
      obtain ⟨hsame, rfl⟩ := hlinked
      obtain ⟨hkey, hkept⟩ := h _ (List.mem_of_find?_eq_some hfind)
      have hclass : key = c.className := by simpa using List.find?_some hfind
      exact ⟨hkept, hkey.symm.trans hclass, hsame⟩

/-- Another class keeps the result that it has. -/
theorem find?_remember_of_ne {className : String} (h : linked.controller.className ≠ className) :
    ((remember memo linked).find? fun entry => entry.1 == className) =
      memo.find? fun entry => entry.1 == className := by
  unfold remember
  split
  · rfl
  · rw [List.find?_append, List.find?_singleton, if_neg (by simpa using h), Option.or_none]

/-- If there is no result for a class yet, the one that is remembered is used for all controllers
like its own. -/
theorem remembered?_remember (memo : LinkMemo) (linked : LinkedController) {other : Controller}
    (h : linked.controller.Alike other)
    (hnew : (memo.find? fun entry => entry.1 == linked.controller.className) = none) :
    remembered? (remember memo linked) other = some linked := by
  have hany : (memo.any fun entry => entry.1 == linked.controller.className) = false := by
    simpa using hnew
  have hfind : ((remember memo linked).find? fun entry => entry.1 == other.className) =
      some (linked.controller.className, linked) := by
    unfold remember
    rw [if_neg (by simp [hany]), ← h.1, List.find?_append, hnew, Option.none_or,
      List.find?_singleton, if_pos (by simp)]
  simp only [remembered?, hfind, h.2, if_true]

end Memo

/-! ### What goes in comes out -/

section Kept

variable {controllers : List Controller} {memo : LinkMemo} {c : Controller}

/-- A controller of the list comes out as one of the list that is like it. -/
theorem linkOne_alike (fuel : Nat) (visiting : List String)
    (hmemo : MemoHolds (fun linked => linked.controller ∈ controllers) memo)
    (hc : c ∈ controllers) :
    let result := linkOne controllers fuel visiting memo c
    (result.1.controller ∈ controllers ∧ result.1.controller.Alike c) ∧
      MemoHolds (fun linked => linked.controller ∈ controllers) result.2 := by
  induction fuel generalizing visiting memo c with
  | zero => exact ⟨⟨hc, .refl c⟩, hmemo⟩
  | succ fuel ih =>
      cases hknown : remembered? memo c with
      | some linked =>
          rw [linkOne_of_remembered controllers hknown]
          exact ⟨hmemo.of_remembered? hknown, hmemo⟩
      | none =>
          cases hbase : openBase? controllers (c.className :: visiting) c with
          | none =>
              rw [linkOne_of_openBase?_eq_none hknown hbase]
              exact ⟨⟨hc, .refl c⟩, hmemo.remember hc⟩
          | some base =>
              rw [linkOne_of_openBase?_eq_some hknown hbase]
              obtain ⟨-, hbelow⟩ := ih (c.className :: visiting) hmemo (openBase?_eq_some hbase).1
              exact ⟨⟨hc, .refl c⟩, hbelow.remember hc⟩

/-- While a class is being linked, nothing is remembered for it. -/
theorem find?_linkOne_of_mem_visiting (controllers : List Controller) (memo : LinkMemo) (fuel : Nat)
    {visiting : List String} {className : String} (hvisiting : className ∈ visiting)
    (hfree : c.className ∉ visiting) :
    ((linkOne controllers fuel visiting memo c).2.find? fun entry => entry.1 == className) =
      memo.find? fun entry => entry.1 == className := by
  have hne : c.className ≠ className := fun heq => hfree (heq ▸ hvisiting)
  induction fuel generalizing visiting memo c with
  | zero => rfl
  | succ fuel ih =>
      cases hknown : remembered? memo c with
      | some linked => rw [linkOne_of_remembered controllers hknown]
      | none =>
          cases hbase : openBase? controllers (c.className :: visiting) c with
          | none =>
              rw [linkOne_of_openBase?_eq_none hknown hbase]
              exact find?_remember_of_ne hne
          | some base =>
              rw [linkOne_of_openBase?_eq_some hknown hbase, find?_remember_of_ne hne]
              have hbelow := (openBase?_eq_some hbase).2
              exact ih _ (List.mem_cons_of_mem _ hvisiting) hbelow fun heq =>
                hbelow (heq ▸ List.mem_cons_of_mem _ hvisiting)

/-- A controller that is linked before anything else is remembered as it is. -/
theorem remembered?_linkOne_nil (controllers : List Controller) (fuel : Nat) {other : Controller}
    (h : c.Alike other) :
    let result := linkOne controllers (fuel + 1) [] [] c
    result.1.controller = c ∧ remembered? result.2 other = some result.1 := by
  have hunknown : remembered? [] c = none := rfl
  cases hbase : openBase? controllers [c.className] c with
  | none =>
      rw [linkOne_of_openBase?_eq_none hunknown hbase]
      refine ⟨rfl, ?_⟩
      exact remembered?_remember [] ⟨c, []⟩ h rfl
  | some base =>
      -- the walk below does not come back to the class, so it is not known yet
      rw [linkOne_of_openBase?_eq_some hunknown hbase]
      have hbelow := find?_linkOne_of_mem_visiting controllers [] fuel List.mem_cons_self
        (openBase?_eq_some hbase).2
      refine ⟨rfl, ?_⟩
      exact remembered?_remember _ ⟨c, _⟩ h hbelow

end Kept

/-- What holds of each controller that is linked, whatever is kept by then, holds along the list. -/
theorem forall₂_linkAll {controllers rest : List Controller}
    {R : Controller → LinkedController → Prop} {I : LinkMemo → Prop} {memo : LinkMemo}
    (hstep : ∀ c ∈ controllers, ∀ memo, I memo →
      let result := linkOne controllers (controllers.length + 1) [] memo c
      R c result.1 ∧ I result.2)
    (hrest : ∀ c ∈ rest, c ∈ controllers) (hmemo : I memo) :
    List.Forall₂ R rest (linkAll controllers memo rest) := by
  induction rest generalizing memo with
  | nil => exact .nil
  | cons c rest ih =>
      obtain ⟨hlinked, hnext⟩ := hstep c (hrest c List.mem_cons_self) memo hmemo
      exact .cons hlinked (ih (fun c hc => hrest c (List.mem_cons_of_mem _ hc)) hnext)

theorem link_alike (controllers : List Controller) :
    List.Forall₂ (fun c linked => linked.controller ∈ controllers ∧ linked.controller.Alike c)
      controllers (link controllers) :=
  forall₂_linkAll (fun _ hc _ hmemo => linkOne_alike _ _ hmemo hc) (fun _ hc => hc) .nil

/-- Where controllers are told apart, they come out as they went in. -/
theorem ToldApart.map_controller_link {controllers : List Controller} (h : ToldApart controllers) :
    (link controllers).map LinkedController.controller = controllers := by
  have hkept : List.Forall₂ (fun c linked => c = linked.controller) controllers
      (link controllers) := by
    refine forall₂_linkAll (I := MemoHolds fun linked => linked.controller ∈ controllers)
      (fun c hc memo hmemo => ?_) (fun _ hc => hc) .nil
    obtain ⟨⟨hmem, halike⟩, hnext⟩ := linkOne_alike (controllers.length + 1) [] hmemo hc
    exact ⟨(h _ hmem c hc halike).symm, hnext⟩
  rw [← List.forall₂_map_right_iff, List.forall₂_eq_eq_eq] at hkept
  exact hkept.symm

theorem ToldApart.perm {controllers order : List Controller} (h : ToldApart controllers)
    (horder : order.Perm controllers) : ToldApart order :=
  fun a ha b hb => h a (horder.mem_iff.mp ha) b (horder.mem_iff.mp hb)

/-- Of two controllers at the head of a list that are alike, the second comes out as the first. -/
theorem linkAll_cons_cons_of_alike (controllers : List Controller) {a b : Controller}
    (h : a.Alike b) (rest : List Controller) :
    ∃ others, (linkAll controllers [] (a :: b :: rest)).map LinkedController.controller =
      a :: a :: others := by
  obtain ⟨hfirst, hknown⟩ := remembered?_linkOne_nil controllers controllers.length h
  have hsecond := linkOne_of_remembered controllers hknown controllers.length []
  simp only [linkAll, List.map_cons, hsecond, hfirst]
  exact ⟨_, rfl⟩

/-- If nothing is lost in any order, the controllers are told apart. -/
theorem toldApart_of_map_controller_link {controllers : List Controller}
    (h : ∀ order : List Controller, order.Perm controllers →
      (link order).map LinkedController.controller = order) : ToldApart controllers := by
  intro a ha b hb hab
  by_contra hne
  -- put the two at the head of the list, where the first one takes the place of the second
  have hb' : b ∈ controllers.erase a := (List.mem_erase_of_ne (Ne.symm hne)).mpr hb
  have horder : (a :: b :: (controllers.erase a).erase b).Perm controllers :=
    ((List.perm_cons_erase hb').symm.cons a).trans (List.perm_cons_erase ha).symm
  have hkept := h _ horder
  obtain ⟨others, hlost⟩ := linkAll_cons_cons_of_alike (a :: b :: (controllers.erase a).erase b) hab
    ((controllers.erase a).erase b)
  rw [link, hlost] at hkept
  simp only [List.cons.injEq, true_and] at hkept
  exact hne hkept.1

/-! ### The chain that the declarations give -/

section Declared

variable (controllers : List Controller)

/-- A base class is the last controller of a list that has the name of it. -/
def IsBase (c base : Controller) : Prop :=
  c.baseClassName = some base.className ∧ ∃ before after, controllers = before ++ base :: after ∧
    ∀ other ∈ after, other.className ≠ base.className

/-- The base classes of a controller, nearest first, up to one whose base class is not in the
list. -/
inductive BaseChain : Controller → List Controller → Prop where
  | ends {c : Controller} : (∀ base, ¬ IsBase controllers c base) → BaseChain c []
  | goesOn {c base : Controller} {rest : List Controller} :
      IsBase controllers c base → BaseChain base rest → BaseChain c (base :: rest)

/-- A class of the list is declared, here or there, with another class of the list as its base. -/
def Extends (className baseName : String) : Prop :=
  ∃ c ∈ controllers, c.className = className ∧ c.baseClassName = some baseName ∧
    ∃ base ∈ controllers, base.className = baseName

/-- No class is a base of itself, over however many steps. -/
def Acyclic : Prop :=
  ∀ className, ¬ Relation.TransGen (Extends controllers) className className

end Declared

section Chain

variable {controllers : List Controller} {c base : Controller}

theorem isBase_iff :
    IsBase controllers c base ↔ c.baseClassName.bind (lastOfClass? controllers) = some base := by
  rw [Option.bind_eq_some_iff]
  constructor
  · rintro ⟨hname, hlast⟩
    exact ⟨base.className, hname, lastOfClass?_eq_some_iff.mpr ⟨rfl, hlast⟩⟩
  · rintro ⟨name, hname, hlast⟩
    obtain ⟨rfl, hlast⟩ := lastOfClass?_eq_some_iff.mp hlast
    exact ⟨hname, hlast⟩

theorem IsBase.mem (h : IsBase controllers c base) : base ∈ controllers := by
  obtain ⟨-, before, after, rfl, -⟩ := h
  exact List.mem_append_right _ List.mem_cons_self

theorem IsBase.extends (h : IsBase controllers c base) (hc : c ∈ controllers) :
    Extends controllers c.className base.className :=
  ⟨c, hc, rfl, h.1, base, h.mem, rfl⟩

/-- The declarations give one chain. -/
theorem BaseChain.unique {first second : List Controller} (hfirst : BaseChain controllers c first)
    (hsecond : BaseChain controllers c second) : first = second := by
  induction hfirst generalizing second with
  | ends hnone =>
      cases hsecond with
      | ends => rfl
      | goesOn hbase => exact absurd hbase (hnone _)
  | goesOn hbase _ ih =>
      cases hsecond with
      | ends hnone => exact absurd hbase (hnone _)
      | goesOn hbase' hrest =>
          obtain rfl := Option.some.inj ((isBase_iff.mp hbase).symm.trans (isBase_iff.mp hbase'))
          rw [ih hrest]

/-- A hierarchy is acyclic if the classes can be numbered so that numbers go down to the bases. -/
theorem acyclic_of_descending (level : String → Nat)
    (h : ∀ c ∈ controllers, ∀ base ∈ controllers, c.baseClassName = some base.className →
      level base.className < level c.className) : Acyclic controllers := by
  have hbelow {className baseName : String}
      (hpath : Relation.TransGen (Extends controllers) className baseName) :
      level baseName < level className := by
    induction hpath with
    | single hstep =>
        obtain ⟨c, hc, rfl, hname, base, hbase, rfl⟩ := hstep
        exact h c hc base hbase hname
    | tail _ hstep ih =>
        obtain ⟨c, hc, rfl, hname, base, hbase, rfl⟩ := hstep
        exact Nat.lt_trans (h c hc base hbase hname) ih
  exact fun className hcircle => Nat.lt_irrefl _ (hbelow hcircle)

/-! ### The walk along the chain -/

/-- How far a walk along a chain has come: the classes that are being linked lie above the
controller at hand, none of them twice, and the fuel is enough for those that may still come. -/
structure Walking (controllers : List Controller) (fuel : Nat) (visiting : List String)
    (c : Controller) : Prop where
  declared : c ∈ controllers
  above : ∀ name ∈ visiting, Relation.TransGen (Extends controllers) name c.className
  nodup : visiting.Nodup
  enough : controllers.length < fuel + visiting.length

theorem Walking.start (hc : c ∈ controllers) :
    Walking controllers (controllers.length + 1) [] c :=
  ⟨hc, fun _ hname => absurd hname List.not_mem_nil, List.nodup_nil, by simp⟩

variable {fuel : Nat} {visiting : List String}

/-- The classes that are being linked are declared, so there are no more of them than
controllers. -/
theorem Walking.fuel_pos (h : Walking controllers fuel visiting c) : 0 < fuel := by
  have hdeclared : visiting ⊆ controllers.map className := by
    intro name hname
    obtain ⟨_, ⟨above, habove, rfl, -⟩, -⟩ := Relation.TransGen.head'_iff.mp (h.above name hname)
    exact List.mem_map_of_mem habove
  have hlength := (List.subperm_of_subset h.nodup hdeclared).length_le
  rw [List.length_map] at hlength
  have henough := h.enough
  omega

theorem Walking.not_mem (h : Walking controllers fuel visiting c) (hacyclic : Acyclic controllers) :
    c.className ∉ visiting :=
  fun hmem => hacyclic c.className (h.above c.className hmem)

theorem Walking.next (h : Walking controllers (fuel + 1) visiting c)
    (hacyclic : Acyclic controllers) (hbase : IsBase controllers c base) :
    Walking controllers fuel (c.className :: visiting) base where
  declared := hbase.mem
  above name hname := by
    rcases List.mem_cons.mp hname with rfl | hvisiting
    · exact .single (hbase.extends h.declared)
    · exact (h.above name hvisiting).tail (hbase.extends h.declared)
  nodup := List.nodup_cons.mpr ⟨h.not_mem hacyclic, h.nodup⟩
  enough := by
    have henough := h.enough
    rw [List.length_cons]
    omega

/-- On an acyclic hierarchy the walk goes on with the base class whenever there is one. -/
theorem Walking.openBase?_eq_some_iff (h : Walking controllers fuel visiting c)
    (hacyclic : Acyclic controllers) :
    openBase? controllers (c.className :: visiting) c = some base ↔ IsBase controllers c base := by
  constructor
  · intro hopen
    obtain ⟨name, hname, hbase⟩ := Option.bind_eq_some_iff.mp hopen
    exact isBase_iff.mpr
      (Option.bind_eq_some_iff.mpr ⟨name, (Option.filter_eq_some_iff.mp hname).1, hbase⟩)
  · intro hbase
    -- a base that is being linked would lie on a circle
    have hfree : base.className ∉ c.className :: visiting := by
      intro hmem
      have hstep := hbase.extends h.declared
      rcases List.mem_cons.mp hmem with hself | hvisiting
      · rw [hself] at hstep
        exact hacyclic c.className (.single hstep)
      · exact hacyclic base.className ((h.above _ hvisiting).tail hstep)
    have hfilter : c.baseClassName.filter (fun name => !(c.className :: visiting).contains name) =
        some base.className :=
      Option.filter_eq_some_iff.mpr ⟨hbase.1, by simpa using hfree⟩
    unfold openBase?
    rw [hfilter, Option.bind_some]
    exact lastOfClass?_eq_some_iff.mpr ⟨rfl, hbase.2⟩

/-- Linking a controller gives its chain, if that is what the results that are kept hold. -/
theorem Walking.linkOne {memo : LinkMemo} (hwalk : Walking controllers fuel visiting c)
    (htold : ToldApart controllers) (hacyclic : Acyclic controllers)
    (hmemo : MemoHolds (fun linked => linked.controller ∈ controllers ∧
      BaseChain controllers linked.controller linked.bases) memo) :
    let result := Controller.linkOne controllers fuel visiting memo c
    (result.1.controller = c ∧ BaseChain controllers c result.1.bases) ∧
      MemoHolds (fun linked => linked.controller ∈ controllers ∧
        BaseChain controllers linked.controller linked.bases) result.2 := by
  induction fuel generalizing visiting memo c with
  | zero => exact absurd hwalk.fuel_pos (Nat.lt_irrefl 0)
  | succ fuel ih =>
      cases hknown : remembered? memo c with
      | some linked =>
          -- the result was found under another walk, but it is the chain of the same controller
          rw [linkOne_of_remembered controllers hknown]
          obtain ⟨⟨hmem, hchain⟩, halike⟩ := hmemo.of_remembered? hknown
          obtain rfl := htold _ hmem c hwalk.declared halike
          exact ⟨⟨rfl, hchain⟩, hmemo⟩
      | none =>
          cases hbase : openBase? controllers (c.className :: visiting) c with
          | none =>
              rw [linkOne_of_openBase?_eq_none hknown hbase]
              have hchain : BaseChain controllers c [] := .ends fun base hisBase => by
                rw [(hwalk.openBase?_eq_some_iff hacyclic).mpr hisBase] at hbase
                cases hbase
              exact ⟨⟨rfl, hchain⟩, hmemo.remember ⟨hwalk.declared, hchain⟩⟩
          | some base =>
              rw [linkOne_of_openBase?_eq_some hknown hbase]
              have hisBase := (hwalk.openBase?_eq_some_iff hacyclic).mp hbase
              obtain ⟨⟨hsame, hrest⟩, hbelow⟩ := ih (hwalk.next hacyclic hisBase) hmemo
              have hchain : BaseChain controllers c (_ :: _) := .goesOn hisBase hrest
              rw [hsame]
              exact ⟨⟨rfl, hchain⟩, hbelow.remember ⟨hwalk.declared, hchain⟩⟩

end Chain

/-- The base classes of every controller are those that the declarations give. -/
theorem link_baseChain {controllers : List Controller} (htold : ToldApart controllers)
    (hacyclic : Acyclic controllers) :
    List.Forall₂ (fun c linked => linked.controller = c ∧ BaseChain controllers c linked.bases)
      controllers (link controllers) :=
  forall₂_linkAll (fun _ hc _ hmemo => (Walking.start hc).linkOne htold hacyclic hmemo)
    (fun _ hc => hc) .nil

end Controller

/-- An instance of a class is one of the class itself or of one of the base classes. -/
theorem LinkedController.isInstanceOf_iff {linked : LinkedController} {className : String} :
    linked.isInstanceOf className = true ↔
      linked.controller.className = className ∨
        ∃ base ∈ linked.bases, base.className = className := by
  simp [isInstanceOf]

open Controller

/-- **Nothing is lost where controllers are told apart.**  Whatever the list, the result for a
controller belongs to one of the list with the same class name, the same registered name and the
same path.  It is the controller itself, for every one of the list and in every order of the list,
if and only if controllers that agree in these three are the same. -/
theorem controllers_kept_iff_toldApart (controllers : List Controller) :
    List.Forall₂ (fun c linked => linked.controller ∈ controllers ∧ linked.controller.Alike c)
      controllers (link controllers) ∧
    ((∀ order : List Controller, order.Perm controllers →
        (link order).map LinkedController.controller = order) ↔ ToldApart controllers) :=
  ⟨link_alike controllers, toldApart_of_map_controller_link,
    fun htold _ horder => (htold.perm horder).map_controller_link⟩

/-! ### A class that is declared twice in one script -/

namespace Redeclared

def path : Path :=
  ⟨"/a.js"⟩

/-- Two blocks with a class of their own each, under one name. -/
def script : Script.Module :=
  .ofText path "\x7b class A \x7b x = 1 \x7d \x7d \x7b class A \x7b y = 2 \x7d \x7d"

/-- The controllers of the script. -/
def controllers : List Controller :=
  (Analysis.controllers script { root := ⟨"/"⟩, files := {} } (.start path)).1

end Redeclared

/-- The second class has one member, and after linking it has the member of the first. -/
theorem redeclared_controllers_not_kept :
    (Redeclared.controllers.map fun c => c.members.map Member.name) = [["x"], ["y"]] ∧
      ((link Redeclared.controllers).map fun linked =>
        linked.controller.members.map Member.name) = [["x"], ["x"]] ∧
      (link Redeclared.controllers).map LinkedController.controller ≠ Redeclared.controllers := by
  decide +kernel

/-- **Base classes are those that are declared.**  In a list whose controllers are told apart by
class name, registered name and path, and in which no class is a base of itself over however many
steps, the base classes of a result are exactly the chain that the declarations give for its
controller.  The result is an instance of the classes on that chain and of its own class, and of no
other. -/
theorem bases_eq_declared_chain {controllers : List Controller} (htold : ToldApart controllers)
    (hacyclic : Acyclic controllers) :
    List.Forall₂ (fun c linked =>
      linked.controller = c ∧
      (∀ chain, BaseChain controllers c chain ↔ linked.bases = chain) ∧
      ∀ chain, BaseChain controllers c chain → ∀ className,
        linked.isInstanceOf className = true ↔
          c.className = className ∨ ∃ base ∈ chain, base.className = className)
      controllers (link controllers) := by
  refine (link_baseChain htold hacyclic).imp ?_
  rintro c linked ⟨rfl, hchain⟩
  refine ⟨rfl, fun chain => ⟨hchain.unique, fun hsame => hsame ▸ hchain⟩, ?_⟩
  intro chain hother className
  rw [LinkedController.isInstanceOf_iff, hchain.unique hother]

/-! ### A base class with two declarations -/

namespace Family

/-- A controller that is declared as a class and registered under a name. -/
def controller (name className path : String) (baseClassName : Option String) : Controller where
  name
  className
  path := ⟨path⟩
  span := .between {} {}
  baseClassName

def child : Controller :=
  controller "Child" "Child" "/a.ts" (some "Parent")

def parent : Controller :=
  controller "Parent" "Parent" "/b.ts" (some "Root")

def root : Controller :=
  controller "Root" "Root" "/b.ts" (some "Elsewhere")

/-- Another declaration of the parent comes first, and the child is registered twice. -/
def controllers : List Controller :=
  [controller "Parent" "Parent" "/a.ts" (some "Root"), child,
    controller "Alias" "Child" "/a.ts" (some "Parent"), parent, root]

def level (className : String) : Nat :=
  ["Root", "Parent"].idxOf className

end Family

/-- The child has the second declaration of the parent as its base, although the first one is linked
before and kept. -/
theorem family_bases_eq_declared_chain :
    ToldApart Family.controllers ∧ Acyclic Family.controllers ∧
      ((link Family.controllers).map LinkedController.bases) =
        [[Family.root], [Family.parent, Family.root], [Family.parent, Family.root], [Family.root],
          []] ∧
      BaseChain Family.controllers Family.child [Family.parent, Family.root] := by
  have htold : ToldApart Family.controllers := by decide +kernel
  have hacyclic : Acyclic Family.controllers :=
    acyclic_of_descending Family.level (by decide +kernel)
  have hlength : 1 < (link Family.controllers).length := by decide +kernel
  have hbases : ∀ h : 1 < (link Family.controllers).length,
      ((link Family.controllers).get ⟨1, h⟩).bases = [Family.parent, Family.root] := by
    decide +kernel
  have hchild := (bases_eq_declared_chain htold hacyclic).get (by decide) hlength
  exact ⟨htold, hacyclic, by decide +kernel, (hchild.2.1 _).mpr (hbases hlength)⟩

end NgIndex
