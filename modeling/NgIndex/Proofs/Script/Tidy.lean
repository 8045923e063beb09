import NgIndex.Script.Node

/-!
# Trees in order

The tree of a script is in order if the children of each node stand one after another inside the
range of the node, and none of them is empty.  Some kinds of nodes have more to them: a block starts
with its brace, a call or an access has the parts that it is made of just once, words have no parts,
and in the roles of names there are words.

Comments are put into the tree afterwards.  A comment that does not cross the bounds of any node can
be put where it belongs, and the tree stays in order.
-/

namespace NgIndex
namespace Script

/-! ### Nodes one after another -/

/-- Nodes that stand one after another between two places of a text, none of them empty. -/
def Row : Nat → List Node → Nat → Prop
  | low, [], high => low ≤ high
  | low, node :: rest, high =>
      low ≤ node.start.byte ∧ node.start.byte < node.stop.byte ∧ Row node.stop.byte rest high

namespace Row

variable {low middle high : Nat} {node : Node} {nodes others : List Node}

theorem le (h : Row low nodes high) : low ≤ high := by
  induction nodes generalizing low with
  | nil => exact h
  | cons node rest ih =>
      obtain ⟨hlow, hfull, hrest⟩ := h
      have := ih hrest
      omega

theorem mono {low' high' : Nat} (h : Row low nodes high) (hlow : low' ≤ low)
    (hhigh : high ≤ high') : Row low' nodes high' := by
  induction nodes generalizing low low' with
  | nil => exact Nat.le_trans hlow (Nat.le_trans h hhigh)
  | cons node rest ih =>
      obtain ⟨hstart, hfull, hrest⟩ := h
      exact ⟨Nat.le_trans hlow hstart, hfull, ih hrest (Nat.le_refl _)⟩

theorem append (h : Row low nodes middle) (h' : Row middle others high) :
    Row low (nodes ++ others) high := by
  induction nodes generalizing low with
  | nil => exact h'.mono h (Nat.le_refl _)
  | cons node rest ih =>
      obtain ⟨hstart, hfull, hrest⟩ := h
      exact ⟨hstart, hfull, ih hrest⟩

theorem low_le (h : Row low nodes high) (hnode : node ∈ nodes) : low ≤ node.start.byte := by
  induction nodes generalizing low with
  | nil => cases hnode
  | cons first rest ih =>
      obtain ⟨hstart, hfull, hrest⟩ := h
      rcases List.mem_cons.mp hnode with rfl | hmem
      · exact hstart
      · have := ih hrest hmem
        omega

theorem lt (h : Row low nodes high) (hnode : node ∈ nodes) :
    node.start.byte < node.stop.byte := by
  induction nodes generalizing low with
  | nil => cases hnode
  | cons first rest ih =>
      obtain ⟨-, hfull, hrest⟩ := h
      rcases List.mem_cons.mp hnode with rfl | hmem
      · exact hfull
      · exact ih hrest hmem

theorem le_high (h : Row low nodes high) (hnode : node ∈ nodes) : node.stop.byte ≤ high := by
  induction nodes generalizing low with
  | nil => cases hnode
  | cons first rest ih =>
      obtain ⟨-, -, hrest⟩ := h
      rcases List.mem_cons.mp hnode with rfl | hmem
      · exact hrest.le
      · exact ih hrest hmem

theorem pairwise (h : Row low nodes high) :
    nodes.Pairwise fun earlier later => earlier.stop.byte ≤ later.start.byte := by
  induction nodes generalizing low with
  | nil => exact .nil
  | cons first rest ih =>
      obtain ⟨-, -, hrest⟩ := h
      exact .cons (fun _ hnode => hrest.low_le hnode) (ih hrest)

theorem sublist (h : Row low nodes high) (hsub : others.Sublist nodes) : Row low others high := by
  induction hsub generalizing low with
  | slnil => exact h
  | cons node _ ih =>
      obtain ⟨hstart, hfull, hrest⟩ := h
      exact (ih hrest).mono (by omega) (Nat.le_refl _)
  | cons_cons node _ ih =>
      obtain ⟨hstart, hfull, hrest⟩ := h
      exact ⟨hstart, hfull, ih hrest⟩

/-- The range of a row that is not empty, from the start of its first node to the end of its
last. -/
theorem trim (h : Row low nodes high) (hne : nodes ≠ []) :
    Row (nodes.head hne).start.byte nodes (nodes.getLast hne).stop.byte := by
  induction nodes generalizing low with
  | nil => cases hne rfl
  | cons first rest ih =>
      obtain ⟨-, hfull, hrest⟩ := h
      refine ⟨Nat.le_refl _, hfull, ?_⟩
      cases rest with
      | nil => exact Nat.le_refl _
      | cons second rest =>
          rw [List.getLast_cons (List.cons_ne_nil _ _)]
          exact (ih hrest (List.cons_ne_nil _ _)).mono hrest.1 (Nat.le_refl _)

end Row

section Branch

variable {low high : Nat} {nodes : List Node}

theorem Node.start_branch (kind : Kind) (hne : nodes ≠ []) :
    (branch kind nodes).start = (nodes.head hne).start := by
  simp [branch, List.head?_eq_some_head hne]

theorem Node.stop_branch (kind : Kind) (hne : nodes ≠ []) :
    (branch kind nodes).stop = (nodes.getLast hne).stop := by
  simp [branch, List.getLast?_eq_some_getLast hne]

/-- A row that is not empty is taken as the children of one node. -/
theorem Row.branch (h : Row low nodes high) (hne : nodes ≠ []) (kind : Kind) :
    Row low [Node.branch kind nodes] high ∧
      Row (Node.branch kind nodes).start.byte nodes (Node.branch kind nodes).stop.byte := by
  have hrow := h.trim hne
  have hhead := List.head_mem hne
  refine ⟨⟨?_, ?_, ?_⟩, ?_⟩
  · rw [Node.start_branch kind hne]
    exact h.low_le hhead
  · rw [Node.start_branch kind hne, Node.stop_branch kind hne]
    exact Nat.lt_of_lt_of_le (h.lt hhead) (hrow.le_high hhead)
  · rw [Node.stop_branch kind hne]
    exact h.le_high (List.getLast_mem hne)
  · rwa [Node.start_branch kind hne, Node.stop_branch kind hne]

end Branch

/-! ### Trees in order -/

/-- The roles of the children of a node, in order. -/
def Node.roles (node : Node) : List Field :=
  node.children.filterMap Node.role

/-- Whether a node of a kind declares a name that stands for the node itself. -/
def Kind.isDefinition (kind : Kind) : Bool :=
  match kind with
  | .classDeclaration => true
  | .abstractClassDeclaration => true
  | .functionDeclaration => true
  | .generatorDeclaration => true
  | _ => false

/-- Whether a node of a kind may be what an export statement declares. -/
def Kind.isDeclaration (kind : Kind) : Bool :=
  kind.isDefinition || [.varDeclaration, .lexicalDeclaration, .functionSignature, .enumDeclaration,
    .interfaceDeclaration, .typeAlias, .namespaceBlock, .moduleBlock, .importAlias,
    .ambient].contains kind

/-- Whether nodes of a kind are names or other words. -/
def Kind.isWord (kind : Kind) : Bool :=
  [.identifier, .shorthand, .propertyName, .privateName, .number, .string].contains kind

/-- Whether nodes of a kind have no parts. -/
def Kind.isLeaf (kind : Kind) : Bool :=
  kind == .token || kind == .comment || kind.isWord

/-- Whether a node of a kind may have a child of another kind in a role.  Any node may have comments,
which play no role. -/
def Kind.admits (kind : Kind) (role : Option Field) (child : Kind) : Bool :=
  match kind, role with
  | .exportStatement, some .declaration => child.isDeclaration
  | .member, some .property => child.isWord
  | .method, some .name => child.isWord || child == .computedName
  | .importSpecifier, some .name => child.isWord
  | .importSpecifier, some .newName => child.isWord
  | .namespaceImport, none => child.isLeaf
  | .namespaceImport, some _ => false
  | .classDeclaration, some .name => child.isWord
  | .abstractClassDeclaration, some .name => child.isWord
  | .classExpression, some .name => child.isWord
  | _, _ => true

/-- Whether a node of a kind may have some nodes as children. -/
def Kind.AdmitsAll (kind : Kind) (nodes : List Node) : Prop :=
  ∀ node ∈ nodes, kind.admits node.role node.kind = true

section AdmitsAll

variable {kind : Kind} {node : Node} {nodes others : List Node}

@[simp]
theorem Kind.admitsAll_nil : kind.AdmitsAll [] :=
  fun _ h => nomatch h

@[simp]
theorem Kind.admitsAll_cons : kind.AdmitsAll (node :: nodes) ↔
    kind.admits node.role node.kind = true ∧ kind.AdmitsAll nodes :=
  List.forall_mem_cons

@[simp]
theorem Kind.admitsAll_append : kind.AdmitsAll (nodes ++ others) ↔
    kind.AdmitsAll nodes ∧ kind.AdmitsAll others :=
  List.forall_mem_append

end AdmitsAll

/-- What nodes of some kinds have to them. -/
structure Node.Shaped (node : Node) : Prop where
  leaf : node.kind.isLeaf = true → node.children = []
  block : node.kind = .block → ∃ opening ∈ node.children.head?,
    opening.kind = .token ∧ opening.start.byte = node.start.byte
  call : node.kind = .call → node.roles = [.function, .arguments]
  member : node.kind = .member → node.roles = [.object, .property]
  definition : node.kind.isDefinition = true → .value ∉ node.roles
  construct : node.kind = .construct → .constructor ∈ node.roles
  admits : node.kind.AdmitsAll node.children

/-- Whether all there is to nodes of a kind is which children they may have. -/
def Kind.isSimple (kind : Kind) : Bool :=
  !([.program, .block, .call, .member, .construct, .computedName].contains kind ||
    kind.isDefinition || kind.isLeaf)

/-- Whether there is nothing to nodes of a kind. -/
def Kind.isPlain (kind : Kind) : Bool :=
  kind.isSimple && !([.exportStatement, .importSpecifier, .namespaceImport, .method,
    .classExpression].contains kind)

theorem Kind.ne_of_isSimple {kind other : Kind} (h : kind.isSimple = true)
    (hother : other.isSimple = false) : kind ≠ other := by
  rintro rfl
  rw [h] at hother
  cases hother

theorem Kind.isSimple_of_isPlain {kind : Kind} (h : kind.isPlain = true) : kind.isSimple = true :=
  (Bool.and_eq_true_iff.mp h).1

theorem Kind.admitsAll_of_isPlain {kind : Kind} (h : kind.isPlain = true) (nodes : List Node) :
    kind.AdmitsAll nodes := by
  intro node _
  unfold Kind.admits
  split
  iterate 10 · cases h
  · rfl

theorem Kind.isLeaf_of_isDefinition {kind : Kind} (h : kind.isDefinition = true) :
    kind.isLeaf = false := by
  unfold Kind.isDefinition at h
  split at h
  iterate 4 · rfl
  · cases h

namespace Node

variable {node : Node} {nodes : List Node}

theorem shaped_of_isSimple (h : node.kind.isSimple = true)
    (hadmits : node.kind.AdmitsAll node.children) : node.Shaped := by
  have hkind : node.kind.isDefinition = false ∧ node.kind.isLeaf = false := by
    simp only [Kind.isSimple, Bool.not_eq_true', Bool.or_eq_false_iff] at h
    exact ⟨h.1.2, h.2⟩
  have hother (kind : Kind) (hsimple : kind.isSimple = false) : node.kind ≠ kind :=
    Kind.ne_of_isSimple h hsimple
  exact ⟨fun h => absurd h (by simp [hkind.2]), fun h => absurd h (hother _ rfl),
    fun h => absurd h (hother _ rfl), fun h => absurd h (hother _ rfl),
    fun h => absurd h (by simp [hkind.1]), fun h => absurd h (hother _ rfl), hadmits⟩

theorem shaped_of_isPlain (h : node.kind.isPlain = true) : node.Shaped :=
  shaped_of_isSimple (Kind.isSimple_of_isPlain h) (Kind.admitsAll_of_isPlain h _)

theorem shaped_of_isLeaf (h : node.kind.isLeaf = true) (hchildren : node.children = []) :
    node.Shaped := by
  have hkind (kind : Kind) (hother : kind.isLeaf = false) : node.kind ≠ kind := by
    rintro rfl
    rw [h] at hother
    cases hother
  refine ⟨fun _ => hchildren, fun h => absurd h (hkind _ rfl), fun h => absurd h (hkind _ rfl),
    fun h => absurd h (hkind _ rfl), fun _ => ?_, fun h => absurd h (hkind _ rfl), ?_⟩
  · simp [roles, hchildren]
  · simp [hchildren]

theorem shaped_program (h : node.kind = .program) : node.Shaped := by
  constructor <;> simp [h, Kind.isDefinition, Kind.isLeaf, Kind.isWord, Kind.AdmitsAll, Kind.admits]

theorem shaped_call (h : nodes.filterMap role = [.function, .arguments]) :
    (branch .call nodes).Shaped :=
  ⟨nofun, nofun, fun _ => h, nofun, nofun, nofun, fun _ _ => rfl⟩

theorem shaped_member (h : nodes.filterMap role = [.object, .property])
    (hadmits : Kind.member.AdmitsAll nodes) : (branch .member nodes).Shaped :=
  ⟨nofun, nofun, nofun, fun _ => h, nofun, nofun, hadmits⟩

theorem shaped_construct (h : .constructor ∈ nodes.filterMap role) :
    (branch .construct nodes).Shaped :=
  ⟨nofun, nofun, nofun, nofun, nofun, fun _ => h, fun _ _ => rfl⟩

theorem shaped_computedName : (branch .computedName nodes).Shaped :=
  ⟨nofun, nofun, nofun, nofun, nofun, nofun, fun _ _ => rfl⟩

theorem shaped_block {opening : Node} (h : opening.kind = .token) :
    (branch .block (opening :: nodes)).Shaped :=
  ⟨nofun, fun _ => ⟨opening, rfl, h, rfl⟩, nofun, nofun, nofun, nofun, fun _ _ => rfl⟩

theorem shaped_definition {kind : Kind} (hkind : kind.isDefinition = true)
    (h : .value ∉ nodes.filterMap role) (hadmits : kind.AdmitsAll nodes) :
    (branch kind nodes).Shaped := by
  refine ⟨fun hleaf => ?_, ?_, ?_, ?_, fun _ => h, ?_, hadmits⟩
  · rw [show (branch kind nodes).kind = kind from rfl, Kind.isLeaf_of_isDefinition hkind] at hleaf
    cases hleaf
  all_goals
    rintro rfl
    cases hkind

/-- What a node admits as a child in a role. -/
theorem Shaped.admits_role (h : node.Shaped) {kind : Kind} (hkind : node.kind = kind)
    {child : Node} (hchild : child ∈ node.children) {role : Field} (hrole : child.role = some role) :
    kind.admits (some role) child.kind = true := by
  rw [← hkind, ← hrole]
  exact h.admits child hchild

end Node

/-- A tree in order.  Below its root there is no other script. -/
inductive Node.Tidy : Node → Prop
  | intro {node : Node} (row : Row node.start.byte node.children node.stop.byte)
      (shaped : node.Shaped) (below : ∀ child ∈ node.children, child.Tidy)
      (inner : ∀ child ∈ node.children, child.kind ≠ .program) : node.Tidy

/-- A tree in order that is a part of a script. -/
structure Node.Part (node : Node) : Prop where
  tidy : node.Tidy
  kind : node.kind ≠ .program

namespace Node.Tidy

variable {node : Node}

theorem row (h : node.Tidy) : Row node.start.byte node.children node.stop.byte := by
  cases h
  assumption

theorem shaped (h : node.Tidy) : node.Shaped := by
  cases h
  assumption

theorem part (h : node.Tidy) {child : Node} (hchild : child ∈ node.children) : child.Part := by
  cases h with
  | intro _ _ hbelow hinner => exact ⟨hbelow child hchild, hinner child hchild⟩

theorem of_parts (row : Row node.start.byte node.children node.stop.byte) (shaped : node.Shaped)
    (parts : ∀ child ∈ node.children, child.Part) : node.Tidy :=
  .intro row shaped (fun child h => (parts child h).tidy) fun child h => (parts child h).kind

/-- A node without children. -/
theorem of_leaf (hchildren : node.children = []) (shaped : node.Shaped)
    (hle : node.start.byte ≤ node.stop.byte) : node.Tidy := by
  refine of_parts ?_ shaped ?_
  · rw [hchildren]
    exact hle
  · rw [hchildren]
    exact fun _ h => nomatch h

end Node.Tidy

namespace Node.Part

variable {node : Node}

/-- A node without children. -/
theorem of_leaf (hchildren : node.children = [])
    (hkind : node.kind.isPlain = true ∨ node.kind.isLeaf = true)
    (hle : node.start.byte ≤ node.stop.byte) : node.Part := by
  rcases hkind with hplain | hleaf
  · exact ⟨.of_leaf hchildren (shaped_of_isPlain hplain) hle,
      Kind.ne_of_isSimple (Kind.isSimple_of_isPlain hplain) rfl⟩
  · refine ⟨.of_leaf hchildren (shaped_of_isLeaf hleaf hchildren) hle, fun hprogram => ?_⟩
    rw [hprogram] at hleaf
    cases hleaf

/-- Whether a tree is in order does not depend on the role of its root. -/
theorem as (h : node.Part) (role : Option Field) : ({ node with role } : Node).Part :=
  have hshaped := h.tidy.shaped
  ⟨.of_parts h.tidy.row ⟨hshaped.leaf, hshaped.block, hshaped.call, hshaped.member,
    hshaped.definition, hshaped.construct, hshaped.admits⟩ fun _ hchild => h.tidy.part hchild,
    h.kind⟩

end Node.Part

/-! ### Comments -/

/-- A comment that does not cross the bounds of a node, nor of any node below it. -/
inductive Spares (comment : Node) : Node → Prop
  | before {node : Node} (h : comment.stop.byte ≤ node.start.byte) : Spares comment node
  | behind {node : Node} (h : node.stop.byte ≤ comment.start.byte) : Spares comment node
  | inside {node : Node} (hstart : node.start.byte ≤ comment.start.byte)
      (hstop : comment.stop.byte ≤ node.stop.byte) (hne : node.children ≠ [])
      (h : ∀ child ∈ node.children, Spares comment child) : Spares comment node

/-- A comment as it is passed between tokens. -/
structure IsComment (node : Node) : Prop where
  kind : node.kind = .comment
  role : node.role = none
  children : node.children = []
  full : node.start.byte < node.stop.byte

theorem IsComment.part {node : Node} (h : IsComment node) : node.Part :=
  .of_leaf h.children (.inr (by rw [h.kind]; decide)) (Nat.le_of_lt h.full)

theorem Spares.as {comment node : Node} (h : Spares comment node) (role : Option Field) :
    Spares comment { node with role } := by
  cases h with
  | before h => exact .before h
  | behind h => exact .behind h
  | inside hstart hstop hne h => exact .inside hstart hstop hne h

theorem Spares.child {comment node child : Node} (h : Spares comment node) (hnode : node.Tidy)
    (hchild : child ∈ node.children) : Spares comment child := by
  cases h with
  | before h => exact .before (Nat.le_trans h (hnode.row.low_le hchild))
  | behind h => exact .behind (Nat.le_trans (hnode.row.le_high hchild) h)
  | inside _ _ _ h => exact h child hchild

/-- A comment that spares the nodes of a row spares the node that they make up. -/
theorem Spares.branch {comment : Node} {low high : Nat} {nodes : List Node}
    (hrow : Row low nodes high) (hne : nodes ≠ []) (h : ∀ node ∈ nodes, Spares comment node)
    (kind : Kind) : Spares comment (Node.branch kind nodes) := by
  have hstart := Node.start_branch kind hne
  have hstop := Node.stop_branch kind hne
  have hhead := h _ (List.head_mem hne)
  have hlast := h _ (List.getLast_mem hne)
  have hfirst := hrow.lt (List.head_mem hne)
  have hfinal := hrow.lt (List.getLast_mem hne)
  by_cases hbefore : comment.stop.byte ≤ (nodes.head hne).start.byte
  · exact .before (by rwa [hstart])
  by_cases hbehind : (nodes.getLast hne).stop.byte ≤ comment.start.byte
  · exact .behind (by rwa [hstop])
  refine .inside ?_ ?_ hne h
  · rw [hstart]
    cases hhead with
    | before h => exact absurd h hbefore
    | behind h => omega
    | inside h => exact h
  · rw [hstop]
    cases hlast with
    | before h => omega
    | behind h => exact absurd h hbehind
    | inside _ h => exact h

/-! ### Putting comments into a tree -/

namespace Node

theorem insert_eq (node comment : Node) :
    node.insert comment = { node with children := insertAmong comment node.children } := by
  obtain ⟨kind, role, start, stop, children⟩ := node
  rw [insert]

theorem roles_insertAmong {comment : Node} (hcomment : comment.role = none) (nodes : List Node) :
    (insertAmong comment nodes).filterMap Node.role = nodes.filterMap Node.role := by
  induction nodes with
  | nil => simp [insertAmong, hcomment]
  | cons child rest ih =>
      rw [insertAmong]
      split
      · simp [hcomment]
      · split
        · simp [List.filterMap_cons, insert_eq]
        · simp [List.filterMap_cons, ih]

/-- Any node with parts may have a comment among them. -/
theorem admits_comment (kind : Kind) {comment : Node} (hcomment : IsComment comment) :
    kind.admits comment.role comment.kind = true := by
  rw [hcomment.role, hcomment.kind]
  cases kind
  all_goals rfl

theorem admitsAll_insertAmong {kind : Kind} {comment : Node} (hcomment : IsComment comment)
    {nodes : List Node} (h : kind.AdmitsAll nodes) :
    kind.AdmitsAll (insertAmong comment nodes) := by
  have hself := admits_comment kind hcomment
  induction nodes with
  | nil => simpa [insertAmong] using hself
  | cons child rest ih =>
      obtain ⟨hchild, hrest⟩ := Kind.admitsAll_cons.mp h
      rw [insertAmong]
      split
      · exact Kind.admitsAll_cons.mpr ⟨hself, h⟩
      · split
        · refine Kind.admitsAll_cons.mpr ⟨?_, hrest⟩
          rw [insert_eq]
          exact hchild
        · exact Kind.admitsAll_cons.mpr ⟨hchild, ih hrest⟩

/-- A comment that does not come before the first node of a list leaves it where it is. -/
theorem head?_insertAmong {comment first : Node} (rest : List Node)
    (h : ¬ comment.stop.byte ≤ first.start.byte) :
    ∃ other ∈ (insertAmong comment (first :: rest)).head?,
      other.kind = first.kind ∧ other.start = first.start := by
  rw [insertAmong, if_neg h]
  split
  · exact ⟨first.insert comment, rfl, by simp [insert_eq], by simp [insert_eq]⟩
  · exact ⟨first, rfl, rfl, rfl⟩

theorem Shaped.insert {node comment : Node} (h : node.Shaped) (hcomment : IsComment comment)
    (hstart : node.start.byte ≤ comment.start.byte) (hne : node.children ≠ []) :
    (node.insert comment).Shaped := by
  have hroles : (node.insert comment).roles = node.roles := by
    rw [roles, insert_eq, roles_insertAmong hcomment.role, roles]
  have hkind : (node.insert comment).kind = node.kind := by rw [insert_eq]
  refine ⟨fun hleaf => absurd (h.leaf (hkind ▸ hleaf)) hne, fun hblock => ?_, ?_, ?_, ?_, ?_, ?_⟩
  · obtain ⟨opening, hopening, htoken, hfirst⟩ := h.block (hkind ▸ hblock)
    obtain ⟨rest, hchildren⟩ : ∃ rest, node.children = opening :: rest :=
      List.head?_eq_some_iff.mp hopening
    have hfull := hcomment.full
    have hbehind : ¬ comment.stop.byte ≤ opening.start.byte := by omega
    obtain ⟨other, hother, hsame, hplace⟩ := head?_insertAmong rest hbehind
    refine ⟨other, ?_, hsame ▸ htoken, ?_⟩
    · rw [insert_eq, hchildren]
      exact hother
    · rw [insert_eq, hplace]
      exact hfirst
  · rw [hkind, hroles]
    exact h.call
  · rw [hkind, hroles]
    exact h.member
  · rw [hkind, hroles]
    exact h.definition
  · rw [hkind, hroles]
    exact h.construct
  · rw [insert_eq]
    exact admitsAll_insertAmong hcomment h.admits

section Insertion

variable {comment : Node} (hcomment : IsComment comment)

include hcomment

mutual

/-- A comment goes into a node that has it inside its range. -/
theorem tidy_insert (node : Node) (htidy : node.Tidy)
    (hspares : ∀ child ∈ node.children, Spares comment child)
    (hstart : node.start.byte ≤ comment.start.byte) (hstop : comment.stop.byte ≤ node.stop.byte)
    (hne : node.children ≠ []) : (node.insert comment).Tidy := by
  obtain ⟨kind, role, start, stop, children⟩ := node
  obtain ⟨hrow, hbelow⟩ := tidy_insertAmong children htidy.row (fun _ h => htidy.part h) hspares
    hstart hstop
  refine .of_parts ?_ (htidy.shaped.insert hcomment hstart hne) ?_
  · rw [insert]
    exact hrow
  · rw [insert]
    exact hbelow

/-- A comment goes between the nodes of a row, or into one of them. -/
theorem tidy_insertAmong (nodes : List Node) {low high : Nat} (hrow : Row low nodes high)
    (hparts : ∀ node ∈ nodes, node.Part) (hspares : ∀ node ∈ nodes, Spares comment node)
    (hlow : low ≤ comment.start.byte) (hhigh : comment.stop.byte ≤ high) :
    Row low (insertAmong comment nodes) high ∧
      ∀ node ∈ insertAmong comment nodes, node.Part := by
  have hfull := hcomment.full
  match nodes with
  | [] =>
      rw [insertAmong]
      exact ⟨⟨hlow, hfull, hhigh⟩, by simpa using hcomment.part⟩
  | child :: rest =>
      obtain ⟨hstart, hchild, hrest⟩ := hrow
      have hpartChild := hparts child List.mem_cons_self
      have hpartsRest := fun node h => hparts node (List.mem_cons_of_mem child h)
      rw [insertAmong]
      by_cases hbefore : comment.stop.byte ≤ child.start.byte
      · rw [if_pos hbefore]
        refine ⟨⟨hlow, hfull, hbefore, hchild, hrest⟩, fun node hnode => ?_⟩
        rcases List.mem_cons.mp hnode with rfl | hnode
        · exact hcomment.part
        · exact hparts node hnode
      rw [if_neg hbefore]
      by_cases hinside : comment.start.byte < child.stop.byte
      · rw [if_pos hinside]
        cases hspares child List.mem_cons_self with
        | before h => exact absurd h hbefore
        | behind h => omega
        | inside hfrom hto hne hbelow =>
            refine ⟨⟨?_, ?_, ?_⟩, fun node hnode => ?_⟩
            · rwa [insert_eq]
            · rwa [insert_eq]
            · rwa [insert_eq]
            · rcases List.mem_cons.mp hnode with rfl | hnode
              · refine ⟨tidy_insert child hpartChild.tidy hbelow hfrom hto hne, ?_⟩
                rw [insert_eq]
                exact hpartChild.kind
              · exact hpartsRest node hnode
      · rw [if_neg hinside]
        obtain ⟨hrow, hbelow⟩ := tidy_insertAmong rest hrest hpartsRest
          (fun node h => hspares node (List.mem_cons_of_mem _ h)) (by omega) hhigh
        refine ⟨⟨hstart, hchild, hrow⟩, fun node hnode => ?_⟩
        rcases List.mem_cons.mp hnode with rfl | hnode
        · exact hpartChild
        · exact hbelow node hnode

end

end Insertion

section Other

variable {comment other : Node}

mutual

/-- A comment that is put into a tree does not get into the way of another. -/
theorem spares_insert
    (hapart : comment.stop.byte ≤ other.start.byte ∨ other.stop.byte ≤ comment.start.byte)
    (node : Node) (h : Spares other node) : Spares other (node.insert comment) := by
  obtain ⟨kind, role, start, stop, children⟩ := node
  rw [insert]
  cases h with
  | before h => exact .before h
  | behind h => exact .behind h
  | inside hstart hstop hne h =>
      have hall := spares_insertAmong hapart children h
      refine .inside hstart hstop ?_ hall
      cases children with
      | nil => exact absurd rfl hne
      | cons child rest =>
          simp only [insertAmong]
          split
          · exact List.cons_ne_nil _ _
          · split <;> exact List.cons_ne_nil _ _

theorem spares_insertAmong
    (hapart : comment.stop.byte ≤ other.start.byte ∨ other.stop.byte ≤ comment.start.byte)
    (nodes : List Node) (h : ∀ node ∈ nodes, Spares other node) :
    ∀ node ∈ insertAmong comment nodes, Spares other node := by
  have hself : Spares other comment :=
    hapart.elim (fun h => .behind h) fun h => .before h
  match nodes with
  | [] =>
      rw [insertAmong]
      simpa using hself
  | child :: rest =>
      intro node hnode
      have hrest := fun node hmem => h node (List.mem_cons_of_mem child hmem)
      rw [insertAmong] at hnode
      split at hnode
      · rcases List.mem_cons.mp hnode with rfl | hnode
        · exact hself
        · exact h node hnode
      · split at hnode
        · rcases List.mem_cons.mp hnode with rfl | hnode
          · exact spares_insert hapart child (h child List.mem_cons_self)
          · exact hrest node hnode
        · rcases List.mem_cons.mp hnode with rfl | hnode
          · exact h node List.mem_cons_self
          · exact spares_insertAmong hapart rest hrest node hnode

end

end Other

/-- Comments that stand one after another and spare the nodes of a row all find their place. -/
theorem tidy_insertAll {comments nodes : List Node} {low high : Nat} (hrow : Row low nodes high)
    (hparts : ∀ node ∈ nodes, node.Part) (hcomments : Row low comments high)
    (hall : ∀ comment ∈ comments, IsComment comment ∧ ∀ node ∈ nodes, Spares comment node) :
    Row low (comments.foldl (fun nodes comment => insertAmong comment nodes) nodes) high ∧
      ∀ node ∈ comments.foldl (fun nodes comment => insertAmong comment nodes) nodes,
        node.Part := by
  induction comments generalizing nodes with
  | nil => exact ⟨hrow, hparts⟩
  | cons comment rest ih =>
      obtain ⟨hcomment, hspares⟩ := hall comment List.mem_cons_self
      obtain ⟨hlow, hfull, hrest⟩ := hcomments
      obtain ⟨hrow, hparts⟩ := tidy_insertAmong hcomment nodes hrow hparts hspares hlow hrest.le
      refine ih hrow hparts (hrest.mono (by omega) (Nat.le_refl _)) fun other hother => ?_
      obtain ⟨hisComment, hother'⟩ := hall other (List.mem_cons_of_mem _ hother)
      exact ⟨hisComment, spares_insertAmong (.inl (hrest.low_le hother)) nodes hother'⟩

end Node
end Script
end NgIndex
