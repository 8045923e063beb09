import Mathlib.Data.List.Induction
import Mathlib.Data.List.Nodup
import NgIndex.Entity.Controller

/-!
# Inherited members

A class has its own members and those of its base classes, nearest first.  A base class contributes
a member if no class nearer than it declares the name, and of several members of one name in the
same base class only the first.  Own members are all kept, and bases beyond the limit contribute
nothing.

To tell which declaration a member of the list comes from, members are taken together with the place
where they are declared.  A filter is applied to the finished list, so a member that it takes out
hides the farther ones of its name all the same.
-/

namespace NgIndex
namespace LinkedController

/-! ### Adding members one by one -/

section Add

variable (members added : List Member)

theorem addMember_of_mem {member : Member} (h : member.name ∈ members.map Member.name) :
    addMember members member = members := by
  obtain ⟨other, hother, hname⟩ := List.mem_map.mp h
  exact if_pos (List.any_eq_true.mpr ⟨other, hother, by simpa using hname⟩)

theorem addMember_of_not_mem {member : Member} (h : member.name ∉ members.map Member.name) :
    addMember members member = members ++ [member] := by
  refine if_neg fun hany => h ?_
  obtain ⟨other, hother, hname⟩ := List.any_eq_true.mp hany
  exact List.mem_map.mpr ⟨other, hother, by simpa using hname⟩

theorem mem_names_foldl_addMember {name : String} :
    name ∈ (added.foldl addMember members).map Member.name ↔
      name ∈ members.map Member.name ∨ name ∈ added.map Member.name := by
  induction added generalizing members with
  | nil => simp
  | cons member rest ih =>
      rw [List.foldl_cons, ih, List.map_cons, List.mem_cons]
      by_cases h : member.name ∈ members.map Member.name
      · rw [addMember_of_mem members h]
        constructor
        · exact Or.imp_right .inr
        · rintro (hold | rfl | hrest)
          · exact .inl hold
          · exact .inl h
          · exact .inr hrest
      · rw [addMember_of_not_mem members h, List.map_append, List.mem_append, or_assoc]
        simp

/-- The first member of a name is the first one that was there or was to be added. -/
theorem find?_foldl_addMember (name : String) :
    (added.foldl addMember members).find? (fun m => m.name == name) =
      (members ++ added).find? fun m => m.name == name := by
  induction added generalizing members with
  | nil => simp
  | cons member rest ih =>
      rw [List.foldl_cons, ih]
      by_cases h : member.name ∈ members.map Member.name
      · -- A member that is left out is not the first of its name.
        rw [addMember_of_mem members h, List.find?_append, List.find?_append, List.find?_cons]
        by_cases hname : (member.name == name) = true
        · obtain ⟨other, hother, hsame⟩ := List.mem_map.mp h
          have hfound : (members.find? fun m => m.name == name).isSome = true :=
            List.find?_isSome.mpr ⟨other, hother, by rw [hsame, hname]⟩
          rw [Option.or_of_isSome hfound, Option.or_of_isSome hfound]
        · rw [Bool.not_eq_true] at hname
          rw [hname]
      · rw [addMember_of_not_mem members h, List.append_assoc, List.singleton_append]

/-- What is added stands behind, and each name in it is new and comes once. -/
theorem exists_foldl_addMember :
    ∃ inherited, added.foldl addMember members = members ++ inherited ∧
      (inherited.map Member.name).Nodup ∧
      ∀ member ∈ inherited, member.name ∉ members.map Member.name := by
  induction added using List.reverseRecOn with
  | nil => exact ⟨[], by simp, by simp, by simp⟩
  | append_singleton front member ih =>
      obtain ⟨inherited, hall, hnodup, hnew⟩ := ih
      rw [List.foldl_concat, hall]
      by_cases h : member.name ∈ (members ++ inherited).map Member.name
      · exact ⟨inherited, addMember_of_mem _ h, hnodup, hnew⟩
      · rw [List.map_append, List.mem_append, not_or] at h
        refine ⟨inherited ++ [member], ?_, ?_, ?_⟩
        · rw [addMember_of_not_mem _ (by simpa using h), List.append_assoc]
        · rw [List.map_append, List.nodup_append]
          refine ⟨hnodup, List.nodup_singleton _, ?_⟩
          rintro name hname other hother rfl
          rw [List.map_singleton, List.mem_singleton] at hother
          exact h.2 (hother ▸ hname)
        · intro other hother
          rcases List.mem_append.mp hother with hother | hother
          · exact hnew other hother
          · rw [List.mem_singleton.mp hother]
            exact h.1

end Add

/-! ### Members where they are declared -/

/-- A member at the place where it is declared. -/
structure Declaration where
  /-- The number of steps up to the class that declares the member. -/
  depth : Nat
  /-- The place of the member in its class. -/
  index : Nat
  member : Member
  deriving DecidableEq

namespace Declaration

/-- A declaration in a nearer class, or farther to the front of the same class. -/
def Precedes (d e : Declaration) : Prop :=
  d.depth < e.depth ∨ d.depth = e.depth ∧ d.index < e.index

instance (d e : Declaration) : Decidable (d.Precedes e) :=
  inferInstanceAs (Decidable (_ ∨ _))

theorem Precedes.asymm {d e : Declaration} (h : d.Precedes e) : ¬ e.Precedes d := by
  unfold Precedes at h ⊢
  omega

/-- The declarations of classes, from a given number of steps up. -/
def ofClasses (depth : Nat) : List Controller → List Declaration
  | [] => []
  | owner :: rest =>
      (owner.members.zipIdx.map fun (member, index) => ⟨depth, index, member⟩) ++
        ofClasses (depth + 1) rest

theorem map_member_ofClasses (depth : Nat) (classes : List Controller) :
    (ofClasses depth classes).map member = classes.flatMap Controller.members := by
  induction classes generalizing depth with
  | nil => rfl
  | cons owner rest ih =>
      rw [ofClasses, List.map_append, ih, List.flatMap_cons, List.map_map]
      refine congrArg (· ++ _) ?_
      exact List.zipIdx_map_fst 0 owner.members

theorem ofClasses_append (depth : Nat) (front back : List Controller) :
    ofClasses depth (front ++ back) =
      ofClasses depth front ++ ofClasses (depth + front.length) back := by
  induction front generalizing depth with
  | nil => rfl
  | cons owner rest ih =>
      rw [List.cons_append, ofClasses, ofClasses, ih, List.append_assoc, List.length_cons,
        Nat.add_right_comm depth, Nat.add_assoc]

theorem depth_of_mem_ofClasses {depth : Nat} {classes : List Controller} {d : Declaration}
    (h : d ∈ ofClasses depth classes) : depth ≤ d.depth ∧ d.depth < depth + classes.length := by
  induction classes generalizing depth with
  | nil => cases h
  | cons owner rest ih =>
      rw [ofClasses] at h
      rw [List.length_cons]
      rcases List.mem_append.mp h with h | h
      · obtain ⟨entry, -, rfl⟩ := List.mem_map.mp h
        exact ⟨Nat.le_refl _, by change depth < _; omega⟩
      · have := ih h
        omega

/-- Declarations are listed in the order in which they count. -/
theorem pairwise_ofClasses (depth : Nat) (classes : List Controller) :
    (ofClasses depth classes).Pairwise Precedes := by
  induction classes generalizing depth with
  | nil => exact .nil
  | cons owner rest ih =>
      rw [ofClasses, List.pairwise_append]
      refine ⟨?_, ih _, ?_⟩
      · rw [List.pairwise_map, List.pairwise_iff_getElem]
        intro i j hi hj hlt
        refine .inr ⟨rfl, ?_⟩
        simpa using hlt
      · intro d hd e he
        obtain ⟨entry, -, rfl⟩ := List.mem_map.mp hd
        exact .inl (depth_of_mem_ofClasses he).1

end Declaration

/-- The declarations of the class and of all its bases. -/
def declarations (linked : LinkedController) : List Declaration :=
  Declaration.ofClasses 0 (linked.controller :: linked.bases)

/-- A declaration that counts as a member: one of the class itself, or one within the limit whose
name is not declared before it. -/
def Counts (linked : LinkedController) (d : Declaration) : Prop :=
  d.depth = 0 ∨ d.depth ≤ inheritanceLimit ∧
    ∀ e ∈ linked.declarations, e.Precedes d → e.member.name ≠ d.member.name

instance (linked : LinkedController) : DecidablePred linked.Counts :=
  fun _ => inferInstanceAs (Decidable (_ ∨ _))

section Added

open Declaration

variable {own front : List Declaration} {last : Declaration}

/-- A declaration behind all the others hides none of them. -/
theorem filter_not_hidden_concat (hlast : ∀ d ∈ own ++ front, d.Precedes last) :
    (front.filter fun d =>
      ∀ e ∈ own ++ (front ++ [last]), e.Precedes d → e.member.name ≠ d.member.name) =
      front.filter fun d => ∀ e ∈ own ++ front, e.Precedes d → e.member.name ≠ d.member.name := by
  refine List.filter_congr fun d hd => decide_eq_decide.mpr ?_
  have hnot := (hlast d (List.mem_append_right _ hd)).asymm
  rw [← List.append_assoc]
  simp only [List.mem_append, List.mem_singleton, or_imp, forall_and, forall_eq]
  simp [hnot]

/-- A declaration behind all the others is not hidden if its name is not among those kept so far. -/
theorem not_hidden_iff (hlast : ∀ d ∈ own ++ front, d.Precedes last) :
    (∀ e ∈ own ++ (front ++ [last]), e.Precedes last → e.member.name ≠ last.member.name) ↔
      last.member.name ∉
        ((front.map member).foldl addMember (own.map member)).map Member.name := by
  rw [mem_names_foldl_addMember, ← List.mem_append, ← List.map_append, ← List.map_append,
    List.map_map, ← List.append_assoc, List.mem_map, not_exists]
  constructor
  · rintro hall e ⟨he, hname⟩
    exact hall e (List.mem_append_left _ he) (hlast e he) hname
  · intro hnone e he hprecedes hname
    rcases List.mem_append.mp he with he | he
    · exact hnone e ⟨he, hname⟩
    · rw [List.mem_singleton.mp he] at hprecedes
      exact hprecedes.asymm hprecedes

/-- Members that are added to those before them are kept just if their name is not declared before
them. -/
theorem foldl_addMember_map_member (own rest : List Declaration)
    (hordered : (own ++ rest).Pairwise Precedes) :
    (rest.map member).foldl addMember (own.map member) =
      (own ++ rest.filter fun d =>
        ∀ e ∈ own ++ rest, e.Precedes d → e.member.name ≠ d.member.name).map member := by
  induction rest using List.reverseRecOn with
  | nil => simp
  | append_singleton front last ih =>
      rw [← List.append_assoc] at hordered
      obtain ⟨hfront, -, hbefore⟩ := List.pairwise_append.mp hordered
      have hlast : ∀ d ∈ own ++ front, d.Precedes last := fun d hd => hbefore d hd last (by simp)
      rw [List.map_append, List.foldl_append, List.map_singleton, List.foldl_cons, List.foldl_nil,
        List.filter_append, filter_not_hidden_concat hlast]
      by_cases h : last.member.name ∈
          ((front.map member).foldl addMember (own.map member)).map Member.name
      · rw [addMember_of_mem _ h, ih hfront, List.filter_singleton,
          decide_eq_false (by rwa [not_hidden_iff hlast, not_not])]
        simp
      · rw [addMember_of_not_mem _ h, ih hfront, List.filter_singleton,
          decide_eq_true ((not_hidden_iff hlast).mpr h)]
        simp

end Added

/-! ### Declarations within the limit -/

def ownDeclarations (linked : LinkedController) : List Declaration :=
  Declaration.ofClasses 0 [linked.controller]

def nearDeclarations (linked : LinkedController) : List Declaration :=
  Declaration.ofClasses 1 (linked.bases.take inheritanceLimit)

def farDeclarations (linked : LinkedController) : List Declaration :=
  Declaration.ofClasses (1 + (linked.bases.take inheritanceLimit).length)
    (linked.bases.drop inheritanceLimit)

section Limit

variable (linked : LinkedController)

theorem declarations_eq : linked.declarations =
    linked.ownDeclarations ++ linked.nearDeclarations ++ linked.farDeclarations := by
  have hfront := Declaration.ofClasses_append 0 [linked.controller] linked.bases
  have hback := Declaration.ofClasses_append 1 (linked.bases.take inheritanceLimit)
    (linked.bases.drop inheritanceLimit)
  rw [List.take_append_drop] at hback
  rw [declarations, List.append_assoc, nearDeclarations, farDeclarations, ← hback]
  exact hfront

theorem depth_of_mem_ownDeclarations {d : Declaration} (h : d ∈ linked.ownDeclarations) :
    d.depth = 0 := by
  have hdepth := (Declaration.depth_of_mem_ofClasses h).2
  simpa using hdepth

theorem depth_of_mem_nearDeclarations {d : Declaration} (h : d ∈ linked.nearDeclarations) :
    d.depth ≠ 0 ∧ d.depth ≤ inheritanceLimit := by
  have hdepth := Declaration.depth_of_mem_ofClasses h
  have hlength := List.length_take_le inheritanceLimit linked.bases
  omega

theorem depth_of_mem_farDeclarations {d : Declaration} (h : d ∈ linked.farDeclarations) :
    inheritanceLimit < d.depth := by
  have hdepth := Declaration.depth_of_mem_ofClasses h
  rw [List.length_take, List.length_drop] at hdepth
  omega

theorem pairwise_ownDeclarations_append_nearDeclarations :
    (linked.ownDeclarations ++ linked.nearDeclarations).Pairwise Declaration.Precedes := by
  have hall : linked.declarations.Pairwise Declaration.Precedes :=
    Declaration.pairwise_ofClasses 0 (linked.controller :: linked.bases)
  rw [declarations_eq] at hall
  exact (List.pairwise_append.mp hall).1

/-- Within the limit a declaration of a base counts just if no declaration within the limit has its
name and precedes it, since those beyond the limit precede none that is within it. -/
theorem counts_iff_of_mem_nearDeclarations {d : Declaration} (h : d ∈ linked.nearDeclarations) :
    linked.Counts d ↔ ∀ e ∈ linked.ownDeclarations ++ linked.nearDeclarations,
      e.Precedes d → e.member.name ≠ d.member.name := by
  obtain ⟨hzero, hlimit⟩ := linked.depth_of_mem_nearDeclarations h
  rw [Counts, or_iff_right hzero, and_iff_right hlimit, declarations_eq]
  refine ⟨fun hnone e he => hnone e (List.mem_append_left _ he), fun hnone e he hprecedes => ?_⟩
  rcases List.mem_append.mp he with he | he
  · exact hnone e he hprecedes
  · have hbeyond := linked.depth_of_mem_farDeclarations he
    unfold Declaration.Precedes at hprecedes
    omega

theorem filter_counts : (linked.declarations.filter fun d => linked.Counts d) =
    linked.ownDeclarations ++ linked.nearDeclarations.filter fun d =>
      ∀ e ∈ linked.ownDeclarations ++ linked.nearDeclarations,
        e.Precedes d → e.member.name ≠ d.member.name := by
  have hkept : (linked.ownDeclarations.filter fun d => linked.Counts d) = linked.ownDeclarations :=
    List.filter_eq_self.mpr fun d hd =>
      decide_eq_true (.inl (linked.depth_of_mem_ownDeclarations hd))
  have hdropped : (linked.farDeclarations.filter fun d => linked.Counts d) = [] := by
    refine List.filter_eq_nil_iff.mpr fun d hd => ?_
    have hdepth := linked.depth_of_mem_farDeclarations hd
    rw [decide_eq_true_iff]
    rintro (hzero | ⟨hlimit, -⟩)
    · omega
    · omega
  rw [declarations_eq, List.filter_append, List.filter_append, hkept, hdropped, List.append_nil]
  exact congrArg (linked.ownDeclarations ++ ·) (List.filter_congr fun d hd =>
    decide_eq_decide.mpr (linked.counts_iff_of_mem_nearDeclarations hd))

/-- The members of a class are the declarations that count, in their order. -/
theorem allMembers_eq : linked.allMembers =
    (linked.declarations.filter fun d => linked.Counts d).map Declaration.member := by
  have hfold := foldl_addMember_map_member linked.ownDeclarations linked.nearDeclarations
    linked.pairwise_ownDeclarations_append_nearDeclarations
  rw [← filter_counts] at hfold
  rw [← hfold, ownDeclarations, nearDeclarations, Declaration.map_member_ofClasses,
    Declaration.map_member_ofClasses, allMembers]
  simp

end Limit

/-! ### Members that are shown -/

/-- The declarations whose members are shown. -/
def shown (linked : LinkedController) (filter : MemberFilter) : List Declaration :=
  linked.declarations.filter fun d => linked.Counts d ∧ filter.shows d.member = true

theorem visibleMembers_eq (linked : LinkedController) (filter : MemberFilter) :
    filter.visibleMembers linked = (linked.shown filter).map Declaration.member := by
  rw [MemberFilter.visibleMembers, allMembers_eq, List.filter_map, List.filter_filter, shown]
  simp [Bool.and_comm]

/-- The classes that members come from. -/
def contributors (linked : LinkedController) : List Controller :=
  linked.controller :: linked.bases.take inheritanceLimit

theorem find?_allMembers (linked : LinkedController) (name : String) :
    linked.allMembers.find? (fun m => m.name == name) =
      linked.contributors.findSome? fun owner => owner.members.find? fun m => m.name == name := by
  rw [allMembers, find?_foldl_addMember, ← List.flatMap_cons, List.find?_flatMap]
  rfl

/-- A declaration of a base is not shown where a nearer class declares the name, whether the nearer
one is shown or not. -/
theorem not_mem_shown {linked : LinkedController} (filter : MemberFilter)
    {nearer d : Declaration} (hnearer : nearer ∈ linked.declarations)
    (hdepth : nearer.depth < d.depth) (hname : nearer.member.name = d.member.name) :
    d ∉ linked.shown filter := by
  intro hd
  have hshown := (List.mem_filter.mp hd).2
  rw [decide_eq_true_iff] at hshown
  rcases hshown.1 with hzero | ⟨-, hnone⟩
  · omega
  · exact hnone nearer hnearer (.inl hdepth) hname

end LinkedController

open LinkedController in
/-- **The nearest definition of a member wins.**  Whatever the chain of base classes, the members of
a class are its own ones, followed by members with names that are not among the own ones and that
come once each.  The first member of a name is the first one of the nearest class that declares the
name, among the class and the bases within the limit.  A filter takes out members of this list, so
what it shows are the declarations that count and pass; a declaration of a base is not among them
where a nearer class declares the name, whether that one passes or not. -/
theorem nearest_definition_wins (linked : LinkedController) (filter : MemberFilter) :
    (∃ inherited, linked.allMembers = linked.controller.members ++ inherited ∧
      (inherited.map Member.name).Nodup ∧
      ∀ member ∈ inherited, member.name ∉ linked.controller.members.map Member.name) ∧
    (∀ name, linked.allMembers.find? (fun m => m.name == name) =
      linked.contributors.findSome? fun owner => owner.members.find? fun m => m.name == name) ∧
    linked.allMembers =
      (linked.declarations.filter fun d => linked.Counts d).map Declaration.member ∧
    filter.visibleMembers linked = linked.allMembers.filter filter.shows ∧
    filter.visibleMembers linked = (linked.shown filter).map Declaration.member ∧
    ∀ nearer ∈ linked.declarations, ∀ d : Declaration, nearer.depth < d.depth →
      nearer.member.name = d.member.name → d ∉ linked.shown filter := by
  refine ⟨exists_foldl_addMember _ _, find?_allMembers linked, linked.allMembers_eq, rfl,
    visibleMembers_eq linked filter, ?_⟩
  intro nearer hnearer d hdepth hname
  exact not_mem_shown filter hnearer hdepth hname

/-! ### A member that is hidden by one that is not shown -/

namespace Hiding

def member (name : String) (isPublic : Bool) : Member :=
  ⟨name, anyType, isPublic, default, .property⟩

/-- A class with a private member of a name that its base declares as a public one. -/
def card : LinkedController where
  controller := { name := "Card", className := "Card", path := ⟨"/card.ts"⟩, span := default,
                  members := [member "title" true, member "secret" false] }
  bases := [{ name := "Base", className := "Base", path := ⟨"/base.ts"⟩, span := default,
              members := [member "secret" true, member "open" true] }]

/-- The filter that shows public members. -/
def onlyPublic : MemberFilter :=
  { publicOnly := true }

end Hiding

open LinkedController Hiding in
/-- The private member is filtered out, and the public one of the base is not shown in its place. -/
theorem hidden_member_not_shown :
    (∃ nearer ∈ card.declarations, ∃ d ∈ card.declarations, nearer.depth < d.depth ∧
      nearer.member.name = d.member.name ∧ onlyPublic.shows d.member = true ∧
      d ∉ card.shown onlyPublic) ∧
    (onlyPublic.visibleMembers card).map Member.name = ["title", "open"] := by
  obtain ⟨-, -, -, -, -, hhidden⟩ := nearest_definition_wins card onlyPublic
  let own : Declaration := ⟨0, 1, member "secret" false⟩
  let inherited : Declaration := ⟨1, 0, member "secret" true⟩
  have hown : own ∈ card.declarations := by decide
  have hinherited : inherited ∈ card.declarations := by decide
  refine ⟨⟨own, hown, inherited, hinherited, by decide, rfl, rfl, ?_⟩, by decide⟩
  exact hhidden own hown inherited (by decide) rfl

end NgIndex
