import Mathlib.Data.List.Induction
import Mathlib.Data.List.Pairwise

/-!
# Nodes of a tree by their addresses

A tree is given by the children of each node.  The address of a node is the list of the numbers of
the children that lead to it from the root, so nodes that look the same are told apart by where they
stand.  A traversal lists a tree if it goes through the addresses of all its nodes in the order of
the traversal, each once.

There are two such orders: in one of them a node comes before what is below it, which is the order
of the addresses as words, and in the other one it comes after that.
-/

namespace NgIndex
namespace Tree

/-! ### Addresses -/

/-- Whether an address comes before another if nodes come after what is below them. -/
inductive Closes : List Nat → List Nat → Prop where
  | deeper (index : Nat) (address : List Nat) : Closes (index :: address) []
  | left {i j : Nat} (a b : List Nat) : i < j → Closes (i :: a) (j :: b)
  | inside (index : Nat) {a b : List Nat} : Closes a b → Closes (index :: a) (index :: b)

/-- An order of addresses in which what is below a child comes before what is below a later one. -/
structure LeftToRight (before : List Nat → List Nat → Prop) : Prop where
  irrefl : ∀ address, ¬ before address address
  left : ∀ {i j : Nat} (a b : List Nat), i < j → before (i :: a) (j :: b)
  inside : ∀ (index : Nat) {a b : List Nat}, before a b → before (index :: a) (index :: b)

theorem leftToRight_lt : LeftToRight (· < ·) where
  irrefl := List.lt_irrefl
  left _ _ h := List.cons_lt_cons_iff.mpr (.inl h)
  inside _ _ _ h := List.cons_lt_cons_iff.mpr (.inr ⟨rfl, h⟩)

theorem leftToRight_closes : LeftToRight Closes where
  irrefl address h := by
    induction address with
    | nil => cases h
    | cons index rest ih =>
        cases h with
        | left _ _ hlt => exact Nat.lt_irrefl _ hlt
        | inside _ h => exact ih h
  left a b h := .left a b h
  inside index _ _ h := .inside index h

variable {α : Type} (children : α → List α)

/-- The node at an address. -/
def nodeAt? : α → List Nat → Option α
  | node, [] => some node
  | node, index :: address => (children node)[index]?.bind fun child => nodeAt? child address

/-- The node at an address in one of several trees, whose number comes first. -/
def nodeAmong? (roots : List α) : List Nat → Option α
  | [] => none
  | index :: address => roots[index]?.bind fun root => nodeAt? children root address

theorem nodeAt?_cons (node : α) (index : Nat) (address : List Nat) :
    nodeAt? children node (index :: address) =
      nodeAmong? children (children node) (index :: address) := by
  rw [nodeAt?, nodeAmong?]

/-- An address in two pieces leads as far as the first piece does, and on from there. -/
theorem nodeAt?_append (root : α) (address rest : List Nat) :
    nodeAt? children root (address ++ rest) =
      (nodeAt? children root address).bind fun node => nodeAt? children node rest := by
  induction address generalizing root with
  | nil => rfl
  | cons index address ih =>
      rw [List.cons_append, nodeAt?, nodeAt?]
      cases (children root)[index]? with
      | none => rfl
      | some child => exact ih child

/-- What is done to every node of a tree is done to the node at each address. -/
theorem nodeAt?_map {f : α → α} (hf : ∀ node, children (f node) = (children node).map f)
    (root : α) (address : List Nat) :
    nodeAt? children (f root) address = (nodeAt? children root address).map f := by
  induction address generalizing root with
  | nil => rfl
  | cons index rest ih =>
      rw [nodeAt?, nodeAt?, hf, List.getElem?_map]
      cases (children root)[index]? with
      | none => rfl
      | some child => exact ih child

/-- Whether all nodes of a tree have a property. -/
def Everywhere (property : α → Prop) (root : α) : Prop :=
  ∀ address node, nodeAt? children root address = some node → property node

theorem Everywhere.self {property : α → Prop} {root : α} (h : Everywhere children property root) :
    property root :=
  h [] root rfl

theorem everywhere_iff {property : α → Prop} {root : α} :
    Everywhere children property root ↔
      property root ∧ ∀ child ∈ children root, Everywhere children property child := by
  constructor
  · intro h
    refine ⟨h.self, fun child hchild address node hnode => ?_⟩
    obtain ⟨index, hindex⟩ := List.mem_iff_getElem?.mp hchild
    refine h (index :: address) node ?_
    rw [nodeAt?, hindex, Option.bind_some, hnode]
  · intro h address node hnode
    cases address with
    | nil =>
        cases hnode
        exact h.1
    | cons index rest =>
        rw [nodeAt?] at hnode
        obtain ⟨child, hindex, hbelow⟩ := Option.bind_eq_some_iff.mp hnode
        exact h.2 child (List.mem_of_getElem? hindex) rest node hbelow

/-! ### Traversals -/

/-- A list of nodes goes through a tree, or several trees, in an order: the addresses at which it
finds its nodes are all there are, and each comes once. -/
structure Lists (before : List Nat → List Nat → Prop) (nodeOf : List Nat → Option α)
    (addresses : List (List Nat)) (nodes : List α) : Prop where
  ordered : addresses.Pairwise before
  once : addresses.Nodup
  complete : ∀ address, address ∈ addresses ↔ (nodeOf address).isSome = true
  found : nodes.map some = addresses.map nodeOf

variable {children} {before : List Nat → List Nat → Prop} {addresses : List (List Nat)}
  {nodes : List α}

theorem Lists.of_ordered (hbefore : LeftToRight before) {nodeOf : List Nat → Option α}
    (hordered : addresses.Pairwise before)
    (hcomplete : ∀ address, address ∈ addresses ↔ (nodeOf address).isSome = true)
    (hfound : nodes.map some = addresses.map nodeOf) : Lists before nodeOf addresses nodes where
  ordered := hordered
  once := hordered.imp fun h => by
    rintro rfl
    exact hbefore.irrefl _ h
  complete := hcomplete
  found := hfound

theorem Lists.map {nodeOf : List Nat → Option α} (h : Lists before nodeOf addresses nodes)
    (f : α → α) :
    Lists before (fun address => (nodeOf address).map f) addresses (nodes.map f) where
  ordered := h.ordered
  once := h.once
  complete address := by rw [h.complete, Option.isSome_map]
  found := by
    have hmapped := congrArg (List.map (Option.map f)) h.found
    simpa [Function.comp_def] using hmapped

theorem nodeAmong?_eq_none {roots : List α} {index : Nat} (h : roots.length ≤ index)
    (address : List Nat) : nodeAmong? children roots (index :: address) = none := by
  rw [nodeAmong?, List.getElem?_eq_none h, Option.bind_none]

theorem nodeAmong?_concat_of_lt {roots : List α} {index : Nat} (h : index < roots.length) (last : α)
    (address : List Nat) :
    nodeAmong? children (roots ++ [last]) (index :: address) =
      nodeAmong? children roots (index :: address) := by
  rw [nodeAmong?, nodeAmong?, List.getElem?_append_left h]

theorem nodeAmong?_concat_length (roots : List α) (last : α) (address : List Nat) :
    nodeAmong? children (roots ++ [last]) (roots.length :: address) =
      nodeAt? children last address := by
  rw [nodeAmong?, List.getElem?_concat_length, Option.bind_some]

/-- Of several trees the addresses start with the number of a tree. -/
theorem Lists.exists_index {roots : List α}
    (h : Lists before (nodeAmong? children roots) addresses nodes) {address : List Nat}
    (haddress : address ∈ addresses) :
    ∃ index rest, address = index :: rest ∧ index < roots.length := by
  have hsome := (h.complete address).mp haddress
  cases address with
  | nil => cases hsome
  | cons index rest =>
      refine ⟨index, rest, rfl, ?_⟩
      by_contra hlarge
      rw [nodeAmong?_eq_none (Nat.le_of_not_lt hlarge)] at hsome
      cases hsome

/-- With one more tree on the right, the addresses are those of the trees before it and those of the
tree, with its number in front. -/
theorem mem_concat_addresses_iff {roots : List α} {last : α} {addresses' : List (List Nat)}
    {nodes' : List α} (h : Lists before (nodeAmong? children roots) addresses nodes)
    (hlast : Lists before (nodeAt? children last) addresses' nodes') (address : List Nat) :
    address ∈ addresses ++ addresses'.map (roots.length :: ·) ↔
      (nodeAmong? children (roots ++ [last]) address).isSome = true := by
  rw [List.mem_append, h.complete]
  cases address with
  | nil => simp [nodeAmong?]
  | cons index rest =>
      rcases Nat.lt_trichotomy index roots.length with hlt | rfl | hgt
      · rw [nodeAmong?_concat_of_lt hlt]
        simp [Nat.ne_of_gt hlt]
      · rw [nodeAmong?_concat_length, nodeAmong?_eq_none (Nat.le_refl _), ← hlast.complete]
        simp
      · rw [nodeAmong?_eq_none (Nat.le_of_lt hgt),
          nodeAmong?_eq_none (by rw [List.length_append, List.length_singleton]; omega)]
        simp [Nat.ne_of_lt hgt]

/-- A traversal of one more tree on the right. -/
theorem Lists.concat (hbefore : LeftToRight before) {roots : List α} {last : α}
    {addresses' : List (List Nat)} {nodes' : List α}
    (h : Lists before (nodeAmong? children roots) addresses nodes)
    (hlast : Lists before (nodeAt? children last) addresses' nodes') :
    Lists before (nodeAmong? children (roots ++ [last]))
      (addresses ++ addresses'.map (roots.length :: ·)) (nodes ++ nodes') := by
  refine .of_ordered hbefore ?_ (mem_concat_addresses_iff h hlast) ?_
  · refine List.pairwise_append.mpr ⟨h.ordered, ?_, ?_⟩
    · exact List.pairwise_map.mpr (hlast.ordered.imp fun hab => hbefore.inside _ hab)
    · intro address haddress address' haddress'
      obtain ⟨index, rest, rfl, hindex⟩ := h.exists_index haddress
      obtain ⟨rest', -, rfl⟩ := List.mem_map.mp haddress'
      exact hbefore.left rest rest' hindex
  · rw [List.map_append, List.map_append, h.found, hlast.found, List.map_map]
    congr 1
    · refine List.map_congr_left fun address haddress => ?_
      obtain ⟨index, rest, rfl, hindex⟩ := h.exists_index haddress
      exact (nodeAmong?_concat_of_lt hindex last rest).symm
    · exact List.map_congr_left fun address _ =>
        (nodeAmong?_concat_length roots last address).symm

/-- Trees that are listed one after another. -/
theorem exists_lists_flatMap (hbefore : LeftToRight before) {visit : α → List α} (roots : List α)
    (h : ∀ root ∈ roots, ∃ addresses, Lists before (nodeAt? children root) addresses (visit root)) :
    ∃ addresses, Lists before (nodeAmong? children roots) addresses (roots.flatMap visit) := by
  induction roots using List.reverseRecOn with
  | nil =>
      refine ⟨[], .of_ordered hbefore .nil (fun address => ?_) rfl⟩
      cases address with
      | nil => simp [nodeAmong?]
      | cons index rest => simp [nodeAmong?]
  | append_singleton roots last ih =>
      obtain ⟨addresses, hroots⟩ := ih fun root hroot => h root (List.mem_append_left _ hroot)
      obtain ⟨addresses', hlast⟩ := h last (by simp)
      rw [List.flatMap_append, List.flatMap_singleton]
      exact ⟨_, hroots.concat hbefore hlast⟩

/-- A node before what is below it. -/
theorem Lists.above {node : α}
    (h : Lists (· < ·) (nodeAmong? children (children node)) addresses nodes) :
    Lists (· < ·) (nodeAt? children node) ([] :: addresses) (node :: nodes) := by
  have hne {address : List Nat} (haddress : address ∈ addresses) : address ≠ [] := by
    rintro rfl
    exact absurd ((h.complete []).mp haddress) (by simp [nodeAmong?])
  refine .of_ordered leftToRight_lt ?_ ?_ ?_
  · refine List.pairwise_cons.mpr ⟨fun address haddress => ?_, h.ordered⟩
    obtain ⟨index, rest, rfl⟩ := List.exists_cons_of_ne_nil (hne haddress)
    exact List.nil_lt_cons index rest
  · intro address
    cases address with
    | nil => simp [nodeAt?]
    | cons index rest =>
        rw [nodeAt?_cons, ← h.complete]
        simp
  · rw [List.map_cons, List.map_cons, h.found]
    refine congrArg₂ List.cons rfl (List.map_congr_left fun address haddress => ?_)
    obtain ⟨index, rest, rfl⟩ := List.exists_cons_of_ne_nil (hne haddress)
    exact (nodeAt?_cons children node index rest).symm

/-- A node after what is below it. -/
theorem Lists.beneath {node : α}
    (h : Lists Closes (nodeAmong? children (children node)) addresses nodes) :
    Lists Closes (nodeAt? children node) (addresses ++ [[]]) (nodes ++ [node]) := by
  have hne {address : List Nat} (haddress : address ∈ addresses) : address ≠ [] := by
    rintro rfl
    exact absurd ((h.complete []).mp haddress) (by simp [nodeAmong?])
  refine .of_ordered leftToRight_closes ?_ ?_ ?_
  · refine List.pairwise_append.mpr ⟨h.ordered, List.pairwise_singleton _ _, ?_⟩
    intro address haddress last hlast
    obtain ⟨index, rest, rfl⟩ := List.exists_cons_of_ne_nil (hne haddress)
    rw [List.mem_singleton.mp hlast]
    exact .deeper index rest
  · intro address
    cases address with
    | nil => simp [nodeAt?]
    | cons index rest =>
        rw [nodeAt?_cons, ← h.complete]
        simp
  · rw [List.map_append, List.map_append, h.found]
    refine congrArg₂ (· ++ ·) (List.map_congr_left fun address haddress => ?_) rfl
    obtain ⟨index, rest, rfl⟩ := List.exists_cons_of_ne_nil (hne haddress)
    exact (nodeAt?_cons children node index rest).symm

section Induction

variable {size : α → Nat} (hsize : ∀ node, ∀ child ∈ children node, size child < size node)

include hsize

/-- What holds of a node whenever it holds of its children holds of all nodes. -/
theorem induction_on_children {motive : α → Prop}
    (step : ∀ node, (∀ child ∈ children node, motive child) → motive node) (node : α) :
    motive node := by
  induction hn : size node using Nat.strongRecOn generalizing node with
  | ind n ih =>
      subst hn
      exact step node fun child hchild => ih _ (hsize node child hchild) child rfl

/-- A traversal that takes nodes before what is below them lists the tree in this order. -/
theorem exists_lists_of_above {visit : α → List α}
    (hvisit : ∀ node, visit node = node :: (children node).flatMap visit) (root : α) :
    ∃ addresses, Lists (· < ·) (nodeAt? children root) addresses (visit root) := by
  induction root using induction_on_children hsize with
  | step node ih =>
      obtain ⟨addresses, h⟩ := exists_lists_flatMap leftToRight_lt (children node) ih
      rw [hvisit]
      exact ⟨_, h.above⟩

/-- A traversal that takes nodes after what is below them lists the tree in this order. -/
theorem exists_lists_of_beneath {visit : α → List α}
    (hvisit : ∀ node, visit node = (children node).flatMap visit ++ [node]) (root : α) :
    ∃ addresses, Lists Closes (nodeAt? children root) addresses (visit root) := by
  induction root using induction_on_children hsize with
  | step node ih =>
      obtain ⟨addresses, h⟩ := exists_lists_flatMap leftToRight_closes (children node) ih
      rw [hvisit]
      exact ⟨_, h.beneath⟩

end Induction

end Tree
end NgIndex
