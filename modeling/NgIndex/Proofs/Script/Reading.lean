import Mathlib.Data.Set.Insert
import NgIndex.Proofs.Script.Tidy
import NgIndex.Script.Rule

/-!
# What rules read

A rule of the grammar reads a part of the text and makes nodes of it.  The nodes stand one after
another in the part that was read, they are in order, and the comments that were passed on the way
do not cross the bounds of any of them.  Names in brackets start where the text has a bracket.  All
this is kept when rules follow each other, when one is tried in place of another and when one is
repeated, and it is kept when nodes are put together under a new one.

Most rules go on from nodes that have been read before.  So the statement about a rule has a list of
nodes before it, the ones that it will make a part of its result.
-/

namespace NgIndex
namespace Script

/-! ### Characters of the text -/

/-- Reading on from one input leads to another. -/
def Input.Reaches (first last : Input) : Prop :=
  ∃ passed, first.rest = passed ++ last.rest ∧ last.position = first.position.after passed

/-- What is left of the text has a character at a place. -/
def Input.Shows (input : Input) (c : Char) (byte : Nat) : Prop :=
  ∃ passed rest, input.rest = passed ++ c :: rest ∧ (input.position.after passed).byte = byte

theorem Position.after_append (p : Position) (cs others : List Char) :
    p.after (cs ++ others) = (p.after cs).after others :=
  List.foldl_append

namespace Input

variable {first middle last : Input}

theorem Reaches.refl (input : Input) : input.Reaches input :=
  ⟨[], rfl, rfl⟩

theorem Reaches.trans (h : first.Reaches middle) (h' : middle.Reaches last) :
    first.Reaches last := by
  obtain ⟨passed, hrest, hposition⟩ := h
  obtain ⟨more, hrest', hposition'⟩ := h'
  refine ⟨passed ++ more, ?_, ?_⟩
  · rw [hrest, hrest', List.append_assoc]
  · rw [hposition', hposition, Position.after_append]

theorem Reaches.remainder (h : first.Reaches last) :
    last.position.after last.rest = first.position.after first.rest := by
  obtain ⟨passed, hrest, hposition⟩ := h
  rw [hrest, hposition, Position.after_append]

theorem Shows.of_reaches {c : Char} {byte : Nat} (h : last.Shows c byte)
    (hreaches : first.Reaches last) : first.Shows c byte := by
  obtain ⟨passed, hrest, hposition⟩ := hreaches
  obtain ⟨more, rest, hmore, rfl⟩ := h
  refine ⟨passed ++ more, rest, ?_, ?_⟩
  · rw [hrest, hmore, List.append_assoc]
  · rw [hposition, Position.after_append]

end Input

/-! ### What has been read -/

/-- The names in brackets that are in a tree start with a bracket of the text. -/
inductive Node.Bracketed (input : Input) : Node → Prop
  | intro {node : Node} (opening : node.kind = .computedName → input.Shows '[' node.start.byte)
      (below : ∀ child ∈ node.children, child.Bracketed input) : node.Bracketed input

namespace Node.Bracketed

variable {input : Input} {node : Node}

theorem opening (h : node.Bracketed input) (hkind : node.kind = .computedName) :
    input.Shows '[' node.start.byte := by
  cases h with
  | intro hopening _ => exact hopening hkind

theorem child (h : node.Bracketed input) {child : Node} (hchild : child ∈ node.children) :
    child.Bracketed input := by
  cases h with
  | intro _ hbelow => exact hbelow child hchild

theorem of_reaches {first : Input} (h : node.Bracketed input) (hreaches : first.Reaches input) :
    node.Bracketed first := by
  induction h with
  | intro hopening _ ih => exact .intro (fun hkind => (hopening hkind).of_reaches hreaches) ih

end Node.Bracketed

/-- A part of a script that is found in a text. -/
structure Node.PartOf (input : Input) (node : Node) : Prop extends Node.Part node where
  brackets : node.Bracketed input

namespace Node.PartOf

variable {input : Input} {node : Node}

theorem of_reaches {first : Input} (h : node.PartOf input) (hreaches : first.Reaches input) :
    node.PartOf first :=
  ⟨h.toPart, h.brackets.of_reaches hreaches⟩

/-- A node without children. -/
theorem of_leaf (hchildren : node.children = [])
    (hkind : node.kind.isPlain = true ∨ node.kind.isLeaf = true)
    (hle : node.start.byte ≤ node.stop.byte) : node.PartOf input := by
  refine ⟨.of_leaf hchildren hkind hle, .intro (fun hcomputed => ?_) (by simp [hchildren])⟩
  rw [hcomputed] at hkind
  exact absurd hkind (by decide)

theorem of_isComment (h : IsComment node) : node.PartOf input :=
  .of_leaf h.children (.inr (by rw [h.kind]; rfl)) (Nat.le_of_lt h.full)

theorem as (h : node.PartOf input) (role : Option Field) : ({ node with role } : Node).PartOf input :=
  ⟨h.toPart.as role, .intro h.brackets.opening fun _ hchild => h.brackets.child hchild⟩

theorem child (h : node.PartOf input) {child : Node} (hchild : child ∈ node.children) :
    child.PartOf input :=
  ⟨h.tidy.part hchild, h.brackets.child hchild⟩

end Node.PartOf

/-- From one place in the text to another, nodes have been read one after another. -/
structure Reads (first : Input) (nodes : List Node) (last : Input) : Prop where
  row : Row first.position.byte nodes last.position.byte
  parts : ∀ node ∈ nodes, node.PartOf first
  reaches : first.Reaches last
  passed : ∃ comments, last.comments = comments.reverse ++ first.comments ∧
    Row first.position.byte comments last.position.byte ∧
    ∀ comment ∈ comments, IsComment comment ∧ ∀ node ∈ nodes, Spares comment node

/-- The node without its role. -/
def Node.bare (node : Node) : Node :=
  { node with role := none }

@[simp]
theorem Node.bare_as (node : Node) (role : Field) : (node.as role).bare = node.bare :=
  rfl

theorem Node.partOf_bare_iff {input : Input} {node : Node} :
    node.bare.PartOf input ↔ node.PartOf input := by
  refine ⟨fun h => ?_, fun h => h.as none⟩
  cases node
  exact h.as _

theorem spares_bare_iff {comment node : Node} : Spares comment node.bare ↔ Spares comment node := by
  refine ⟨fun h => ?_, fun h => h.as none⟩
  cases node
  exact h.as _

theorem row_append_iff {low high : Nat} {nodes others : List Node} :
    Row low (nodes ++ others) high ↔ ∃ middle, Row low nodes middle ∧ Row middle others high := by
  constructor
  · intro h
    induction nodes generalizing low with
    | nil => exact ⟨low, Nat.le_refl _, h⟩
    | cons node rest ih =>
        obtain ⟨hstart, hfull, hrest⟩ := h
        obtain ⟨middle, hnodes, hothers⟩ := ih hrest
        exact ⟨middle, ⟨hstart, hfull, hnodes⟩, hothers⟩
  · rintro ⟨middle, hnodes, hothers⟩
    exact hnodes.append hothers

theorem row_map_bare_iff {low high : Nat} {nodes : List Node} :
    Row low (nodes.map Node.bare) high ↔ Row low nodes high := by
  induction nodes generalizing low with
  | nil => exact Iff.rfl
  | cons node rest ih => simp [Row, Node.bare, ih]

namespace Reads

variable {first middle last : Input} {earlier nodes others : List Node} {node : Node}

theorem refl (input : Input) : Reads input [] input :=
  ⟨Nat.le_refl _, (fun _ h => nomatch h), .refl input, [], rfl, Nat.le_refl _,
    (fun _ h => nomatch h)⟩

theorem append (h : Reads first nodes middle) (h' : Reads middle others last) :
    Reads first (nodes ++ others) last := by
  obtain ⟨comments, hcomments, hrow, hspares⟩ := h.passed
  obtain ⟨later, hlater, hrow', hspares'⟩ := h'.passed
  refine ⟨h.row.append h'.row, fun node hnode => ?_, h.reaches.trans h'.reaches,
    comments ++ later, ?_, hrow.append hrow', fun comment hcomment => ?_⟩
  · rcases List.mem_append.mp hnode with hnode | hnode
    · exact h.parts node hnode
    · exact (h'.parts node hnode).of_reaches h.reaches
  · rw [hlater, hcomments, List.reverse_append, List.append_assoc]
  · -- A comment spares the nodes of the other part since it stands before or behind them.
    rcases List.mem_append.mp hcomment with hmem | hmem
    · refine ⟨(hspares comment hmem).1, fun node hnode => ?_⟩
      rcases List.mem_append.mp hnode with hnode | hnode
      · exact (hspares comment hmem).2 node hnode
      · exact .before (Nat.le_trans (hrow.le_high hmem) (h'.row.low_le hnode))
    · refine ⟨(hspares' comment hmem).1, fun node hnode => ?_⟩
      rcases List.mem_append.mp hnode with hnode | hnode
      · exact .behind (Nat.le_trans (h.row.le_high hnode) (hrow'.low_le hmem))
      · exact (hspares' comment hmem).2 node hnode

/-- Other nodes have been read if they stand where those that were read do, as long as they are in
order and comments spare them. -/
theorem replace (h : Reads first nodes last)
    (hrow : Row first.position.byte others last.position.byte)
    (hparts : ∀ node ∈ others, node.PartOf first)
    (hspares : ∀ comment, (∀ node ∈ nodes, Spares comment node) →
      ∀ node ∈ others, Spares comment node) : Reads first others last := by
  obtain ⟨comments, hcomments, hcommentRow, hall⟩ := h.passed
  exact ⟨hrow, hparts, h.reaches, comments, hcomments, hcommentRow, fun comment hcomment =>
    ⟨(hall comment hcomment).1, hspares comment (hall comment hcomment).2⟩⟩

theorem sublist (h : Reads first nodes last) (hsub : others.Sublist nodes) :
    Reads first others last :=
  h.replace (h.row.sublist hsub) (fun node hnode => h.parts node (hsub.subset hnode))
    fun _ hspares node hnode => hspares node (hsub.subset hnode)

/-- The roles of nodes have nothing to do with what has been read. -/
theorem congr (h : Reads first nodes last) (hsame : others.map Node.bare = nodes.map Node.bare) :
    Reads first others last := by
  have hmem {node : Node} (hnode : node ∈ others) : ∃ other ∈ nodes, other.bare = node.bare :=
    List.mem_map.mp (hsame ▸ List.mem_map_of_mem hnode)
  refine h.replace ?_ (fun node hnode => ?_) fun comment hspares node hnode => ?_
  · rw [← row_map_bare_iff, hsame, row_map_bare_iff]
    exact h.row
  · obtain ⟨other, hother, heq⟩ := hmem hnode
    rw [← Node.partOf_bare_iff, ← heq, Node.partOf_bare_iff]
    exact h.parts other hother
  · obtain ⟨other, hother, heq⟩ := hmem hnode
    rw [← spares_bare_iff, ← heq, spares_bare_iff]
    exact hspares other hother

/-- The nodes read last are put under a new one. -/
theorem branch (h : Reads first (earlier ++ nodes) last) (hne : nodes ≠ []) {kind : Kind}
    (hshaped : (Node.branch kind nodes).Shaped) (hkind : kind ≠ .program)
    (hopening : kind = .computedName → first.Shows '[' (nodes.head hne).start.byte) :
    Reads first (earlier ++ [.branch kind nodes]) last := by
  obtain ⟨middle, hearlier, hnodes⟩ := row_append_iff.mp h.row
  obtain ⟨houter, hinner⟩ := hnodes.branch hne kind
  refine h.replace (hearlier.append houter) (fun node hnode => ?_) fun comment hspares node hnode =>
    ?_
  · rcases List.mem_append.mp hnode with hnode | hnode
    · exact h.parts node (List.mem_append_left _ hnode)
    · obtain rfl := List.mem_singleton.mp hnode
      have hparts := fun child hchild => h.parts child (List.mem_append_right earlier hchild)
      refine ⟨⟨.of_parts hinner hshaped fun child hchild => (hparts child hchild).toPart, hkind⟩,
        .intro (fun hcomputed => ?_) fun child hchild => (hparts child hchild).brackets⟩
      rw [Node.start_branch kind hne]
      exact hopening hcomputed
  · rcases List.mem_append.mp hnode with hnode | hnode
    · exact hspares node (List.mem_append_left _ hnode)
    · obtain rfl := List.mem_singleton.mp hnode
      exact .branch hnodes hne (fun child hchild => hspares child (List.mem_append_right _ hchild))
        kind

/-- The node read last is taken as one of another kind. -/
theorem withKind (h : Reads first (earlier ++ [node]) last) {kind : Kind}
    (hkind : kind.isPlain = true) : Reads first (earlier ++ [node.withKind kind]) last := by
  have hsimple := Kind.isSimple_of_isPlain hkind
  obtain ⟨middle, hearlier, hnode⟩ := row_append_iff.mp h.row
  refine h.replace (hearlier.append hnode) (fun other hother => ?_) fun comment hspares other
    hother => ?_
  · rcases List.mem_append.mp hother with hother | hother
    · exact h.parts other (List.mem_append_left _ hother)
    · obtain rfl := List.mem_singleton.mp hother
      have hpart := h.parts node (List.mem_append_right _ (List.mem_singleton.mpr rfl))
      refine ⟨⟨.of_parts hpart.tidy.row (Node.shaped_of_isPlain hkind) fun _ hchild =>
        hpart.tidy.part hchild, Kind.ne_of_isSimple hsimple rfl⟩, .intro (fun hcomputed => ?_)
        fun _ hchild => hpart.brackets.child hchild⟩
      exact absurd hcomputed (Kind.ne_of_isSimple hsimple rfl)
  · rcases List.mem_append.mp hother with hother | hother
    · exact hspares other (List.mem_append_left _ hother)
    · obtain rfl := List.mem_singleton.mp hother
      cases hspares node (List.mem_append_right _ (List.mem_singleton.mpr rfl)) with
      | before h => exact .before h
      | behind h => exact .behind h
      | inside hstart hstop hne h => exact .inside hstart hstop hne h

/-- The children of the node read last take its place. -/
theorem children (h : Reads first (earlier ++ [node]) last) :
    Reads first (earlier ++ node.children) last := by
  obtain ⟨middle, hearlier, hstart, hfull, hstop⟩ := row_append_iff.mp h.row
  have hself : node ∈ earlier ++ [node] := List.mem_append_right _ (List.mem_singleton.mpr rfl)
  have hpart := h.parts node hself
  refine h.replace (hearlier.append (hpart.tidy.row.mono hstart hstop)) (fun other hother => ?_)
    fun comment hspares other hother => ?_
  · rcases List.mem_append.mp hother with hother | hother
    · exact h.parts other (List.mem_append_left _ hother)
    · exact hpart.child hother
  · rcases List.mem_append.mp hother with hother | hother
    · exact hspares other (List.mem_append_left _ hother)
    · exact (hspares node hself).child hpart.tidy hother

end Reads

/-! ### Moving over the text -/

theorem Position.byte_lt_advance (p : Position) (c : Char) : p.byte < (p.advance c).byte := by
  unfold Position.advance
  split
  · exact Nat.lt_succ_self _
  · exact Nat.lt_add_of_pos_right c.utf8Size_pos

namespace Input

theorem byte_le_drop (input : Input) (count : Nat) :
    input.position.byte ≤ (input.drop count).position.byte := by
  induction count generalizing input with
  | zero => exact Nat.le_refl _
  | succ count ih =>
      rw [drop]
      split
      · exact Nat.le_refl _
      · next c rest _ =>
          refine Nat.le_trans (Nat.le_of_lt (Position.byte_lt_advance _ c)) ?_
          exact ih { input with rest, position := input.position.advance c }

theorem byte_lt_drop {input : Input} {count : Nat} (hcount : 0 < count) (hrest : input.rest ≠ []) :
    input.position.byte < (input.drop count).position.byte := by
  obtain ⟨count, rfl⟩ := Nat.exists_eq_succ_of_ne_zero (Nat.ne_of_gt hcount)
  rw [drop]
  split
  · next h => exact absurd h hrest
  · next c rest _ =>
      refine Nat.lt_of_lt_of_le (Position.byte_lt_advance _ c) ?_
      exact byte_le_drop { input with rest, position := input.position.advance c } count

theorem comments_drop (input : Input) (count : Nat) :
    (input.drop count).comments = input.comments := by
  induction count generalizing input with
  | zero => rfl
  | succ count ih =>
      rw [drop]
      split
      · rfl
      · exact ih _

theorem reaches_drop (input : Input) (count : Nat) : input.Reaches (input.drop count) := by
  induction count generalizing input with
  | zero => exact .refl input
  | succ count ih =>
      rw [drop]
      split
      · exact .refl input
      · next c rest h =>
          refine Reaches.trans ?_ (ih { input with rest, position := input.position.advance c })
          exact ⟨[c], h, rfl⟩

/-- The node that takes up the given number of characters. -/
def leaf (input : Input) (kind : Kind) (count : Nat) : Node :=
  { kind, start := input.position, stop := (input.drop count).position }

theorem reads_drop (input : Input) (count : Nat) : Reads input [] (input.drop count) :=
  ⟨byte_le_drop input count, (fun _ h => nomatch h), reaches_drop input count, [],
    comments_drop input count, byte_le_drop input count, (fun _ h => nomatch h)⟩

theorem reads_leaf {input : Input} {kind : Kind} {count : Nat}
    (hkind : kind.isPlain = true ∨ kind.isLeaf = true) (hcount : 0 < count)
    (hrest : input.rest ≠ []) : Reads input [input.leaf kind count] (input.drop count) := by
  have hlt := byte_lt_drop hcount hrest
  refine ⟨⟨Nat.le_refl _, hlt, Nat.le_refl _⟩, fun node hnode => ?_, reaches_drop input count, [],
    comments_drop input count, Nat.le_of_lt hlt, (fun _ h => nomatch h)⟩
  obtain rfl := List.mem_singleton.mp hnode
  exact .of_leaf rfl hkind (Nat.le_of_lt hlt)

/-- A comment is passed and kept with those before it. -/
theorem reads_comment {input : Input} {count : Nat} (hcount : 0 < count)
    (hrest : input.rest ≠ []) :
    Reads input [] { input.drop count with
      comments := input.leaf .comment count :: (input.drop count).comments } := by
  have hlt := byte_lt_drop hcount hrest
  refine ⟨Nat.le_of_lt hlt, (fun _ h => nomatch h), reaches_drop input count,
    [input.leaf .comment count], ?_, ⟨Nat.le_refl _, hlt, Nat.le_refl _⟩, fun comment hmem => ?_⟩
  · rw [comments_drop]
    rfl
  · obtain rfl := List.mem_singleton.mp hmem
    exact ⟨⟨rfl, rfl, rfl, hlt⟩, fun _ h => nomatch h⟩

theorem ne_nil_of_closeComment {passed cs body rest : List Char}
    (h : closeComment passed cs = some (body, rest)) : body ≠ [] := by
  fun_induction closeComment passed cs with
  | case1 => cases h
  | case2 =>
      obtain ⟨rfl, -⟩ := Prod.mk.inj (Option.some.inj h)
      exact List.cons_ne_nil _ _
  | case3 passed c rest _ ih => exact ih h

theorem ne_nil_of_splitComment? {cs body rest : List Char}
    (h : splitComment? cs = some (body, rest)) : 0 < body.length ∧ cs ≠ [] := by
  unfold splitComment? at h
  split at h
  · obtain ⟨rfl, -⟩ := Prod.mk.inj (Option.some.inj h)
    exact ⟨Nat.succ_pos _, List.cons_ne_nil _ _⟩
  · obtain ⟨⟨passed, after⟩, hclose, heq⟩ := Option.map_eq_some_iff.mp h
    obtain ⟨rfl, -⟩ := Prod.mk.inj heq
    refine ⟨?_, List.cons_ne_nil _ _⟩
    rw [List.length_reverse]
    exact List.length_pos_iff.mpr (ne_nil_of_closeComment hclose)
  · cases h

/-- White space and comments before a token. -/
theorem reads_skipTrivia (input : Input) : Reads input [] input.skipTrivia := by
  have hwith (fuel : Nat) (input : Input) : Reads input [] (input.skipTriviaWith fuel) := by
    induction fuel generalizing input with
    | zero => exact .refl input
    | succ fuel ih =>
        rw [skipTriviaWith]
        have hspace := reads_drop input (input.rest.takeWhile isSpace).length
        split
        · exact hspace
        · next body rest hcomment =>
            obtain ⟨hbody, hrest⟩ := ne_nil_of_splitComment? hcomment
            exact (hspace.append (reads_comment hbody hrest)).append (ih _)
  exact hwith _ input

end Input

/-! ### Rules -/

/-- What answers goals reads nodes that have no role yet. -/
def Env.Sound (env : Env) : Prop :=
  ∀ goal first node last, env.solve goal first = some (node, last) →
    Reads first [node] last ∧ node.role = none

/-- Each node has one of the given roles or none. -/
def HasRoles (fields : Set Field) (nodes : List Node) : Prop :=
  ∀ node ∈ nodes, ∀ field, node.role = some field → field ∈ fields

section HasRoles

variable {fields more : Set Field} {node : Node} {nodes others : List Node}

@[simp]
theorem hasRoles_nil : HasRoles fields [] :=
  fun _ h => nomatch h

@[simp]
theorem hasRoles_cons : HasRoles fields (node :: nodes) ↔
    (∀ field, node.role = some field → field ∈ fields) ∧ HasRoles fields nodes := by
  simp [HasRoles]

@[simp]
theorem hasRoles_append : HasRoles fields (nodes ++ others) ↔
    HasRoles fields nodes ∧ HasRoles fields others := by
  simp only [HasRoles, List.mem_append, or_imp, forall_and]

@[simp]
theorem hasRoles_flatten {rows : List (List Node)} :
    HasRoles fields rows.flatten ↔ ∀ row ∈ rows, HasRoles fields row := by
  simp only [HasRoles, List.mem_flatten]
  exact ⟨fun h row hrow node hnode => h node ⟨row, hrow, hnode⟩,
    fun h node ⟨row, hrow, hnode⟩ => h row hrow node hnode⟩

theorem hasRoles_empty_singleton : HasRoles ∅ [node] ↔ node.role = none := by
  simp [Option.eq_none_iff_forall_ne_some]

theorem HasRoles.mono (h : HasRoles fields nodes) (hsub : fields ⊆ more) : HasRoles more nodes :=
  fun node hnode field hfield => hsub (h node hnode field hfield)

theorem HasRoles.of_empty (h : HasRoles ∅ nodes) : HasRoles fields nodes :=
  h.mono (Set.empty_subset _)

theorem HasRoles.univ : HasRoles Set.univ nodes :=
  fun _ _ _ _ => trivial

theorem HasRoles.filterMap_role (h : HasRoles ∅ nodes) : nodes.filterMap Node.role = [] :=
  List.filterMap_eq_nil_iff.mpr fun node hnode => by
    cases hrole : node.role with
    | none => rfl
    | some field => exact absurd (h node hnode field hrole) (Set.notMem_empty field)

/-- Where a node of a kind does not mind what stands in some roles, it admits what has them. -/
theorem HasRoles.admitsAll (h : HasRoles fields nodes) {kind : Kind}
    (hnone : ∀ child, kind.admits none child = true)
    (hfields : ∀ field ∈ fields, ∀ child, kind.admits (some field) child = true) :
    kind.AdmitsAll nodes := by
  intro node hnode
  cases hrole : node.role with
  | none => exact hnone _
  | some field => exact hfields field (h node hnode field hrole) _

theorem HasRoles.not_mem_filterMap (h : HasRoles fields nodes) {field : Field}
    (hfield : field ∉ fields) : field ∉ nodes.filterMap Node.role := fun hmem => by
  obtain ⟨node, hnode, hrole⟩ := List.mem_filterMap.mp hmem
  exact hfield (h node hnode field hrole)

end HasRoles

@[simp]
theorem Node.role_as (node : Node) (role : Field) : (node.as role).role = some role :=
  rfl

@[simp]
theorem Node.kind_as (node : Node) (role : Field) : (node.as role).kind = node.kind :=
  rfl

@[simp]
theorem Node.role_branch (kind : Kind) (nodes : List Node) : (branch kind nodes).role = none :=
  rfl

namespace Rule

variable {α β : Type}

theorem bind_run {rule : Rule α} {next : α → Rule β} {env : Env} {input last : Input} {b : β} :
    (rule >>= next) env input = some (b, last) ↔
      ∃ a middle, rule env input = some (a, middle) ∧ next a env middle = some (b, last) := by
  simp [bind, ReaderT.bind, StateT.bind, Option.bind_eq_some_iff]

theorem orElse_run {rule other : Rule α} {env : Env} {input last : Input} {a : α}
    (h : (rule <|> other) env input = some (a, last)) :
    rule env input = some (a, last) ∨ other env input = some (a, last) := by
  change Option.orElse (rule env input) (fun _ => other env input) = some (a, last) at h
  cases hrule : rule env input with
  | none => exact .inr (by simpa [hrule] using h)
  | some found => exact .inl (by simpa [hrule] using h)

theorem check_run {condition : Bool} {env : Env} {input last : Input} {a : Unit}
    (h : Rule.check condition env input = some (a, last)) : condition = true ∧ input = last := by
  cases condition with
  | false => cases h
  | true =>
      obtain ⟨-, rfl⟩ := Prod.mk.inj (Option.some.inj h)
      exact ⟨rfl, rfl⟩

/-- After some nodes have been read, a rule reads on and makes the given parts of what it reads and
of these nodes. -/
def Continues (before : List Node) (fields : Set Field) (parts : α → List Node) (rule : Rule α) :
    Prop :=
  ∀ env : Env, env.Sound → ∀ first earlier input a last, Reads first (earlier ++ before) input →
    rule env input = some (a, last) →
      Reads first (earlier ++ parts a) last ∧ HasRoles fields (parts a)

/-- A rule that reads one node. -/
abbrev Yields (rule : Rule Node) : Prop :=
  rule.Continues [] ∅ fun node => [node]

/-- A rule that reads several nodes. -/
abbrev YieldsAll (fields : Set Field) (rule : Rule (List Node)) : Prop :=
  rule.Continues [] fields id

/-- Nodes that were read before, some of them with roles, and at least one. -/
@[simp]
def Takes (before nodes : List Node) : Prop :=
  nodes.map Node.bare = before.map Node.bare ∧ nodes ≠ []

/-- A rule that looks at the text only. -/
def Looks (rule : Rule α) : Prop :=
  ∀ env input a last, rule env input = some (a, last) → last = input

section Continues

variable {before middle : List Node} {fields more : Set Field} {parts : α → List Node}
  {partsOf : β → List Node}

theorem Continues.of_run {rule : Rule α}
    (h : ∀ env input a last, rule env input = some (a, last) →
      Reads input (parts a) last ∧ HasRoles fields (parts a)) : rule.Continues [] fields parts := by
  intro env _ first earlier input a last hreads hrun
  obtain ⟨hparts, hroles⟩ := h env input a last hrun
  rw [List.append_nil] at hreads
  exact ⟨hreads.append hparts, hroles⟩

/-- What a rule reads comes after what has been read before. -/
theorem Continues.reads {rule : Rule Node} (h : rule.Yields) {env : Env} (henv : env.Sound)
    {first input last : Input} {nodes : List Node} {node : Node} (hreads : Reads first nodes input)
    (hrun : rule env input = some (node, last)) : Reads first (nodes ++ [node]) last := by
  rw [← List.append_nil nodes] at hreads
  exact (h env henv first nodes input node last hreads hrun).1

theorem Continues.bind {rule : Rule α} {next : α → Rule β} (h : rule.Continues middle more parts)
    (hnext : ∀ a, HasRoles more (parts a) → (next a).Continues (before ++ parts a) fields partsOf) :
    (rule >>= next).Continues (before ++ middle) fields partsOf := by
  intro env henv first earlier input b last hreads hrun
  obtain ⟨a, between, hrule, hrest⟩ := bind_run.mp hrun
  rw [← List.append_assoc] at hreads
  obtain ⟨hmiddle, hroles⟩ := h env henv first (earlier ++ before) input a between hreads hrule
  rw [List.append_assoc] at hmiddle
  exact hnext a hroles env henv first earlier between b last hmiddle hrest

/-- More is read after the nodes read before. -/
theorem Continues.also {rule : Rule α} {next : α → Rule β} (h : rule.Continues [] more parts)
    (hnext : ∀ a, HasRoles more (parts a) → (next a).Continues (before ++ parts a) fields partsOf) :
    (rule >>= next).Continues before fields partsOf := by
  have hbind : (rule >>= next).Continues (before ++ []) fields partsOf := h.bind hnext
  rwa [List.append_nil] at hbind

/-- One more node is read. -/
theorem Continues.node {rule : Rule Node} {next : Node → Rule β} (h : rule.Yields)
    (hnext : ∀ node, node.role = none → (next node).Continues (before ++ [node]) fields partsOf) :
    (rule >>= next).Continues before fields partsOf :=
  h.also fun node hroles => hnext node (hasRoles_empty_singleton.mp hroles)

/-- What was read last goes on. -/
theorem Continues.last {rule : Rule Node} {next : Node → Rule β} {node : Node}
    (h : rule.Continues [node] ∅ fun node => [node])
    (hnext : ∀ node, node.role = none → (next node).Continues (before ++ [node]) fields partsOf) :
    (rule >>= next).Continues (before ++ [node]) fields partsOf :=
  h.bind fun found hroles => hnext found (hasRoles_empty_singleton.mp hroles)

/-- More nodes are read. -/
theorem Continues.nodes {rule : Rule (List Node)} {next : List Node → Rule β}
    (h : rule.YieldsAll more)
    (hnext : ∀ nodes, HasRoles more nodes →
      (next nodes).Continues (before ++ nodes) fields partsOf) :
    (rule >>= next).Continues before fields partsOf :=
  h.also hnext

theorem Continues.look {rule : Rule α} {next : α → Rule β} (h : rule.Looks)
    (hnext : ∀ a, (next a).Continues before fields partsOf) :
    (rule >>= next).Continues before fields partsOf := by
  intro env henv first earlier input b last hreads hrun
  obtain ⟨a, between, hrule, hrest⟩ := bind_run.mp hrun
  obtain rfl := h env input a between hrule
  exact hnext a env henv first earlier between b last hreads hrest

theorem Continues.skip {next : Unit → Rule β}
    (hnext : (next ()).Continues before fields partsOf) :
    (Rule.skip >>= next).Continues before fields partsOf := by
  intro env henv first earlier input b last hreads hrun
  have hspace := hreads.append input.reads_skipTrivia
  rw [List.append_nil] at hspace
  exact hnext env henv first earlier input.skipTrivia b last hspace hrun

theorem Continues.check {condition : Bool} {next : Unit → Rule β}
    (hnext : condition = true → (next ()).Continues before fields partsOf) :
    (Rule.check condition >>= next).Continues before fields partsOf := by
  intro env henv first earlier input b last hreads hrun
  obtain ⟨_, between, hcheck, hrest⟩ := bind_run.mp hrun
  obtain ⟨hcondition, rfl⟩ := check_run hcheck
  exact hnext hcondition env henv first earlier input b last hreads hrest

theorem Continues.orElse {rule other : Rule α} (h : rule.Continues before fields parts)
    (h' : other.Continues before fields parts) :
    (rule <|> other).Continues before fields parts := by
  intro env henv first earlier input a last hreads hrun
  rcases orElse_run hrun with hrun | hrun
  · exact h env henv first earlier input a last hreads hrun
  · exact h' env henv first earlier input a last hreads hrun

theorem Continues.mono {rule : Rule α} (h : rule.Continues before fields parts)
    (hsub : fields ⊆ more) : rule.Continues before more parts := by
  intro env henv first earlier input a last hreads hrun
  obtain ⟨hparts, hroles⟩ := h env henv first earlier input a last hreads hrun
  exact ⟨hparts, hroles.mono hsub⟩

theorem Continues.failure : (failure : Rule α).Continues before fields parts :=
  fun _ _ _ _ _ _ _ _ h => nomatch h

theorem Continues.ite {condition : Prop} [Decidable condition] {rule other : Rule α}
    (h : rule.Continues before fields parts) (h' : other.Continues before fields parts) :
    (if condition then rule else other).Continues before fields parts := by
  split
  · exact h
  · exact h'

/-- One of two nodes is read. -/
theorem Continues.either {condition : Prop} [Decidable condition] {rule other : Rule Node}
    {next : Node → Rule β} (h : rule.Yields) (h' : other.Yields)
    (hnext : ∀ node, node.role = none → (next node).Continues (before ++ [node]) fields partsOf) :
    (if condition then rule >>= next else other >>= next).Continues before fields partsOf :=
  .ite (.node h hnext) (.node h' hnext)

/-- Nothing more is read; the nodes may be given roles. -/
theorem Continues.done {a : α} (hroles : HasRoles fields (parts a))
    (hsame : (parts a).map Node.bare = before.map Node.bare) :
    (pure a : Rule α).Continues before fields parts := by
  intro env _ first earlier input b last hreads hrun
  obtain ⟨rfl, rfl⟩ : a = b ∧ input = last := Prod.mk.inj (Option.some.inj hrun)
  exact ⟨hreads.congr (by simp [hsame]), hroles⟩

/-- The nodes are put under a new one, after they have been given their roles. -/
theorem Continues.branch {kind : Kind} {nodes : List Node}
    (hshaped : (Node.branch kind nodes).Shaped) (htakes : Takes before nodes)
    (hkind : kind ≠ .program ∧ kind ≠ .computedName) :
    (pure (Node.branch kind nodes) : Rule Node).Continues before ∅ fun node => [node] := by
  intro env _ first earlier input b last hreads hrun
  obtain ⟨hsame, hne⟩ := htakes
  obtain ⟨rfl, rfl⟩ : Node.branch kind nodes = b ∧ input = last :=
    Prod.mk.inj (Option.some.inj hrun)
  have hnodes : Reads first (earlier ++ nodes) input := hreads.congr (by simp [hsame])
  exact ⟨hnodes.branch hne hshaped hkind.1 fun h => absurd h hkind.2, by simp⟩

/-- The nodes are put under one of a kind that only minds which children it has. -/
theorem Continues.simple {kind : Kind} {nodes : List Node} (htakes : Takes before nodes)
    (hkind : kind.isSimple = true) (hadmits : kind.AdmitsAll nodes) :
    (pure (Node.branch kind nodes) : Rule Node).Continues before ∅ fun node => [node] :=
  .branch (Node.shaped_of_isSimple hkind hadmits) htakes
    ⟨Kind.ne_of_isSimple hkind rfl, Kind.ne_of_isSimple hkind rfl⟩

/-- The nodes are put under a new one of a kind that there is nothing to. -/
theorem Continues.plain {kind : Kind} {nodes : List Node} (htakes : Takes before nodes)
    (hkind : kind.isPlain = true) :
    (pure (Node.branch kind nodes) : Rule Node).Continues before ∅ fun node => [node] :=
  .simple htakes (Kind.isSimple_of_isPlain hkind) (Kind.admitsAll_of_isPlain hkind nodes)

/-- The nodes are put under one that declares a name; none of them is a value. -/
theorem Continues.definition {kind : Kind} {nodes : List Node} (hkind : kind.isDefinition = true)
    (hroles : HasRoles {.value}ᶜ nodes) (hadmits : kind.AdmitsAll nodes)
    (htakes : Takes before nodes) :
    (pure (Node.branch kind nodes) : Rule Node).Continues before ∅ fun node => [node] := by
  refine .branch (Node.shaped_definition hkind (hroles.not_mem_filterMap (by simp)) hadmits) htakes
    ⟨?_, ?_⟩
  all_goals
    rintro rfl
    cases hkind

/-- The nodes are put under a new one, and that is given a role. -/
theorem Continues.plainAs {kind : Kind} {nodes : List Node} {role : Field}
    (htakes : Takes before nodes) (hkind : kind.isPlain = true) (hrole : role ∈ fields) :
    (pure ((Node.branch kind nodes).as role) : Rule Node).Continues before fields
      fun node => [node] := by
  intro env henv first earlier input a last hreads hrun
  obtain ⟨rfl, rfl⟩ : (Node.branch kind nodes).as role = a ∧ input = last :=
    Prod.mk.inj (Option.some.inj hrun)
  obtain ⟨hbranch, -⟩ := Continues.plain htakes hkind env henv first earlier input _ _ hreads rfl
  exact ⟨hbranch.congr (by simp), by simpa using hrole⟩

/-- The node read last is taken as one of another kind. -/
theorem Continues.withKind (kind : Kind) {rule : Rule α} {node : Node}
    (h : rule.Continues (before ++ [node.withKind kind]) fields parts)
    (hkind : kind.isPlain = true) : rule.Continues (before ++ [node]) fields parts := by
  intro env henv first earlier input a last hreads hrun
  rw [← List.append_assoc] at hreads
  refine h env henv first earlier input a last ?_ hrun
  rw [← List.append_assoc]
  exact hreads.withKind hkind

/-- A rule goes on after the nodes read last are put under a new one. -/
theorem Continues.under (kind : Kind) (front nodes : List Node) {rule : Rule α}
    (hshaped : (Node.branch kind nodes).Shaped)
    (h : rule.Continues (front ++ [Node.branch kind nodes]) fields parts)
    (hsame : (front ++ nodes).map Node.bare = before.map Node.bare)
    (hkind : kind ≠ .program ∧ kind ≠ .computedName) (hne : nodes ≠ []) :
    rule.Continues before fields parts := by
  intro env henv first earlier input a last hreads hrun
  have hnodes : Reads first (earlier ++ front ++ nodes) input := by
    rw [List.append_assoc]
    exact hreads.congr (by simpa using hsame)
  refine h env henv first earlier input a last ?_ hrun
  rw [← List.append_assoc]
  exact hnodes.branch hne hshaped hkind.1 fun h => absurd h hkind.2

/-- A rule goes on after the nodes read last are put under a new one of a kind that only minds which
children it has. -/
theorem Continues.collect (kind : Kind) (front nodes : List Node) {rule : Rule α}
    (h : rule.Continues (front ++ [Node.branch kind nodes]) fields parts)
    (hsame : (front ++ nodes).map Node.bare = before.map Node.bare) (hkind : kind.isSimple = true)
    (hadmits : kind.AdmitsAll nodes) (hne : nodes ≠ []) : rule.Continues before fields parts :=
  .under kind front nodes (Node.shaped_of_isSimple hkind hadmits) h hsame
    ⟨Kind.ne_of_isSimple hkind rfl, Kind.ne_of_isSimple hkind rfl⟩ hne

/-- A rule goes on after the nodes read last are put under a new one of a kind that there is nothing
to. -/
theorem Continues.gather (kind : Kind) (front nodes : List Node) {rule : Rule α}
    (h : rule.Continues (front ++ [Node.branch kind nodes]) fields parts)
    (hsame : (front ++ nodes).map Node.bare = before.map Node.bare) (hkind : kind.isPlain = true)
    (hne : nodes ≠ []) :
    rule.Continues before fields parts :=
  .collect kind front nodes h hsame (Kind.isSimple_of_isPlain hkind)
    (Kind.admitsAll_of_isPlain hkind nodes) hne

/-- The children of the node read last take its place. -/
theorem Continues.children {rule : Rule α} {node : Node}
    (h : rule.Continues (before ++ node.children) fields parts) :
    rule.Continues (before ++ [node]) fields parts := by
  intro env henv first earlier input a last hreads hrun
  rw [← List.append_assoc] at hreads
  refine h env henv first earlier input a last ?_ hrun
  rw [← List.append_assoc]
  exact hreads.children

/-- Some of the nodes are left out. -/
theorem Continues.sublist (nodes : List Node) {rule : Rule α}
    (h : rule.Continues nodes fields parts) (hsub : nodes.Sublist before) :
    rule.Continues before fields parts := by
  intro env henv first earlier input a last hreads hrun
  exact h env henv first earlier input a last
    (hreads.sublist ((List.Sublist.refl earlier).append hsub)) hrun

end Continues

/-! ### What the results of a rule have in common -/

/-- Whatever a rule reads has a property. -/
def Ensures (P : α → Prop) (rule : Rule α) : Prop :=
  ∀ env : Env, env.Sound → ∀ input a last, rule env input = some (a, last) → P a

section Ensures

variable {P : α → Prop} {Q : β → Prop}

theorem Ensures.pure {a : α} (h : P a) : (Pure.pure a : Rule α).Ensures P := by
  intro env _ input b last hrun
  obtain ⟨rfl, -⟩ := Prod.mk.inj (Option.some.inj hrun)
  exact h

theorem Ensures.after {rule : Rule β} {next : β → Rule α} (h : rule.Ensures Q)
    (hnext : ∀ b, Q b → (next b).Ensures P) : (rule >>= next).Ensures P := by
  intro env henv input a last hrun
  obtain ⟨b, middle, hrule, hrest⟩ := bind_run.mp hrun
  exact hnext b (h env henv input b middle hrule) env henv middle a last hrest

theorem Ensures.bind {rule : Rule β} {next : β → Rule α} (h : ∀ b, (next b).Ensures P) :
    (rule >>= next).Ensures P :=
  .after (fun _ _ _ _ _ _ => trivial : rule.Ensures fun _ => True) fun b _ => h b

theorem Ensures.orElse {rule other : Rule α} (h : rule.Ensures P) (h' : other.Ensures P) :
    (rule <|> other).Ensures P := fun env henv input a last hrun =>
  (orElse_run hrun).elim (h env henv input a last) (h' env henv input a last)

theorem Ensures.mono {Q : α → Prop} {rule : Rule α} (h : rule.Ensures P)
    (himp : ∀ a, P a → Q a) : rule.Ensures Q :=
  fun env henv input a last hrun => himp a (h env henv input a last hrun)

theorem Ensures.failure : (failure : Rule α).Ensures P :=
  fun _ _ _ _ _ h => nomatch h

theorem Ensures.opt {rule : Rule α} (h : rule.Ensures P) :
    (opt rule).Ensures fun found => ∀ a ∈ found, P a := by
  rw [Rule.opt, map_eq_pure_bind]
  exact .orElse (.after h fun a ha => .pure (by simpa using ha)) (.pure nofun)

theorem Ensures.optList {P : Node → Prop} {rule : Rule Node} (h : rule.Ensures P) :
    (optList rule).Ensures fun nodes => ∀ node ∈ nodes, P node :=
  .after h.opt fun found hfound => .pure fun node hnode => hfound node (by simpa using hnode)

theorem Ensures.ite {condition : Prop} [Decidable condition] {rule other : Rule α}
    (h : rule.Ensures P) (h' : other.Ensures P) :
    (if condition then rule else other).Ensures P := by
  split
  · exact h
  · exact h'

theorem Continues.ensures {rule : Rule α} {fields : Set Field} {parts : α → List Node}
    (h : rule.Continues [] fields parts) : rule.Ensures fun a => HasRoles fields (parts a) :=
  fun env henv input a last hrun => (h env henv input [] input a last (.refl input) hrun).2

variable {before : List Node} {fields more : Set Field} {partsOf : β → List Node}

theorem Continues.bindOf {rule : Rule α} {next : α → Rule β} {parts : α → List Node}
    (h : rule.Continues [] more parts) (hP : rule.Ensures P)
    (hnext : ∀ a, HasRoles more (parts a) → P a →
      (next a).Continues (before ++ parts a) fields partsOf) :
    (rule >>= next).Continues before fields partsOf := by
  intro env henv first earlier input b last hreads hrun
  obtain ⟨a, between, hrule, hrest⟩ := bind_run.mp hrun
  rw [← List.append_nil (earlier ++ before)] at hreads
  obtain ⟨hmiddle, hroles⟩ := h env henv first (earlier ++ before) input a between hreads hrule
  rw [List.append_assoc] at hmiddle
  exact hnext a hroles (hP env henv input a between hrule) env henv first earlier between b last
    hmiddle hrest

/-- One more node is read, of which something is known. -/
theorem Continues.nodeOf {P : Node → Prop} {rule : Rule Node} {next : Node → Rule β}
    (h : rule.Yields) (hP : rule.Ensures P)
    (hnext : ∀ node, node.role = none → P node →
      (next node).Continues (before ++ [node]) fields partsOf) :
    (rule >>= next).Continues before fields partsOf :=
  h.bindOf hP fun node hroles hnode => hnext node (hasRoles_empty_singleton.mp hroles) hnode

/-- More nodes are read, and at least one. -/
theorem Continues.filled (more : Set Field) {rule : Rule (List Node)} {next : List Node → Rule β}
    (h : rule.YieldsAll more) (hfull : rule.Ensures (· ≠ []))
    (hnext : ∀ nodes, HasRoles more nodes → nodes ≠ [] →
      (next nodes).Continues (before ++ nodes) fields partsOf) :
    (rule >>= next).Continues before fields partsOf :=
  h.bindOf hfull hnext

end Ensures

/-! ### Rules that look at the text -/

theorem looks_typed : typed.Looks := by
  intro env input a last h
  obtain ⟨-, rfl⟩ := Prod.mk.inj (Option.some.inj h)
  rfl

theorem looks_dialect : dialect.Looks := by
  intro env input a last h
  obtain ⟨-, rfl⟩ := Prod.mk.inj (Option.some.inj h)
  rfl

theorem looks_get : (get : Rule Input).Looks := by
  intro env input a last h
  obtain ⟨-, rfl⟩ := Prod.mk.inj (Option.some.inj h)
  rfl

theorem Looks.map {rule : Rule α} (h : rule.Looks) (f : α → β) :
    (do return f (← rule) : Rule β).Looks := by
  intro env input b last hrun
  obtain ⟨a, between, hrule, hrest⟩ := bind_run.mp hrun
  obtain rfl := h env input a between hrule
  obtain ⟨-, rfl⟩ := Prod.mk.inj (Option.some.inj hrest)
  rfl

theorem looks_ahead : ahead.Looks :=
  looks_get.map _

theorem looks_newlineAhead : newlineAhead.Looks :=
  looks_get.map _

theorem looks_nextIs (text : String) : (nextIs text).Looks :=
  looks_ahead.map _

theorem looks_nextOperator : nextOperator.Looks :=
  looks_ahead.map _

theorem looks_nextWord : nextWord.Looks :=
  looks_ahead.map _

theorem looks_looksAt (rule : Rule α) : (looksAt rule).Looks := by
  intro env input a last h
  unfold looksAt at h
  split at h
  all_goals
    obtain ⟨-, rfl⟩ := Prod.mk.inj (Option.some.inj h)
    rfl

theorem looks_check (condition : Bool) : (Rule.check condition).Looks :=
  fun _ _ _ _ h => (check_run h).2.symm

/-- A node that is taken only before certain characters. -/
theorem yields_before {rule : Rule Node} (h : rule.Yields) (test : List Char → Bool) :
    (do let node ← rule; Rule.check (test (← ahead)); return node : Rule Node).Yields :=
  .node h fun node hnode => .look looks_ahead fun _ => .check fun _ => .done (by simp [hnode]) rfl

/-- A node that is taken only where the next token is on the same line. -/
theorem yields_onLine {rule : Rule Node} (h : rule.Yields) :
    (do let node ← rule; Rule.check !(← newlineAhead); return node : Rule Node).Yields :=
  .node h fun node hnode => .look looks_newlineAhead fun _ => .check fun _ =>
    .done (by simp [hnode]) rfl

/-! ### Tokens -/

theorem yields_leaf {rule : Rule Node} {kind : Kind}
    (hkind : kind.isPlain = true ∨ kind.isLeaf = true)
    (h : ∀ env input node last, rule env input = some (node, last) →
      ∃ middle count, Reads input [] middle ∧ middle.rest ≠ [] ∧ 0 < count ∧
        leaf kind count env middle = some (node, last)) : rule.Yields := by
  refine .of_run fun env input node last hrun => ?_
  obtain ⟨middle, count, hmiddle, hrest, hcount, hleaf⟩ := h env input node last hrun
  obtain ⟨rfl, rfl⟩ : middle.leaf kind count = node ∧ middle.drop count = last :=
    Prod.mk.inj (Option.some.inj hleaf)
  exact ⟨hmiddle.append (Input.reads_leaf hkind hcount hrest), by simp [Input.leaf]⟩

/-- A token at the front, after what may stand before it. -/
theorem yields_skip_leaf (kind : Kind) {rule : List Char → Rule Node}
    (hkind : kind.isPlain = true ∨ kind.isLeaf = true)
    (h : ∀ cs env input node last, rule cs env input = some (node, last) →
      cs ≠ [] ∧ ∃ count, 0 < count ∧ (do skip; leaf kind count) env input = some (node, last)) :
    (ahead >>= rule).Yields := by
  refine yields_leaf hkind fun env input node last hrun => ?_
  obtain ⟨cs, between, hahead, hrest⟩ := bind_run.mp hrun
  obtain ⟨rfl, rfl⟩ : input.skipTrivia.rest = cs ∧ input = between :=
    Prod.mk.inj (Option.some.inj hahead)
  obtain ⟨hne, count, hcount, hleaf⟩ := h _ env input node last hrest
  exact ⟨input.skipTrivia, count, input.reads_skipTrivia, hne, hcount, hleaf⟩

/-- A token that is recognised by a test of the characters. -/
theorem yields_token {kind : Kind} {test : List Char → Bool} {count : List Char → Nat}
    (hkind : kind.isPlain = true ∨ kind.isLeaf = true)
    (h : ∀ cs, test cs = true → cs ≠ [] ∧ 0 < count cs) :
    (do let cs ← ahead; Rule.check (test cs); skip; leaf kind (count cs) : Rule Node).Yields := by
  refine yields_skip_leaf kind hkind fun cs env input node last hrun => ?_
  obtain ⟨_, between, hcheck, hrest⟩ := bind_run.mp hrun
  obtain ⟨htest, rfl⟩ := check_run hcheck
  exact ⟨(h cs htest).1, count cs, (h cs htest).2, hrest⟩

theorem length_pos_of_ne_empty {text : String} (h : text ≠ "") : 0 < text.length :=
  Nat.pos_of_ne_zero fun hzero => h (String.length_eq_zero_iff.mp hzero)

theorem ne_nil_of_beq {read : List Char → List Char} {text : String} {cs : List Char}
    (htext : text ≠ "") (hnil : read [] = []) (h : (read cs == text.toList) = true) : cs ≠ [] := by
  rintro rfl
  rw [hnil, beq_iff_eq] at h
  exact htext (String.toList_eq_nil_iff.mp h.symm)

theorem yields_punct {text : String} (htext : text ≠ "") : (punct text).Yields :=
  yields_token (.inr rfl) fun _ h =>
    ⟨ne_nil_of_beq htext (by decide) h, length_pos_of_ne_empty htext⟩

theorem ensures_leaf (kind : Kind) (count : Nat) :
    (leaf kind count).Ensures fun node => node.kind = kind :=
  .bind fun _ => .bind fun _ => .pure rfl

theorem ensures_punct (text : String) : (punct text).Ensures fun node => node.kind = .token :=
  .bind fun _ => .bind fun _ => .bind fun _ => ensures_leaf .token text.length

/-- The operator at the front stands at the front. -/
theorem operatorAt_prefix (cs : List Char) : operatorAt cs <+: cs := by
  unfold operatorAt
  split
  · exact List.nil_prefix
  · next operator hfind =>
      have hfront : operator.isPrefixOf cs = true :=
        List.find?_some (p := fun operator : List Char => operator.isPrefixOf cs) hfind
      have hprefix : operator <+: cs := List.isPrefixOf_iff_prefix.mp hfront
      split
      · next h =>
          have hoperator : operator = ['?', '.'] := by simpa using (Bool.and_eq_true_iff.mp h).1
          rw [hoperator] at hprefix
          exact (List.prefix_append ['?'] ['.']).trans hprefix
      · exact hprefix

/-- An operator stands where the text has its first character. -/
theorem shows_punct {text : String} {c : Char} {env : Env} {input last : Input} {node : Node}
    (htext : text.toList.head? = some c) (h : punct text env input = some (node, last)) :
    input.Shows c node.start.byte := by
  obtain ⟨cs, _, hahead, hafter⟩ := bind_run.mp h
  obtain ⟨rfl, rfl⟩ : input.skipTrivia.rest = cs ∧ input = _ :=
    Prod.mk.inj (Option.some.inj hahead)
  obtain ⟨_, middle, hcheck, hskip⟩ := bind_run.mp hafter
  obtain ⟨hfront, rfl⟩ := check_run hcheck
  obtain ⟨rfl, -⟩ : input.skipTrivia.leaf .token text.length = node ∧ _ = last :=
    Prod.mk.inj (Option.some.inj hskip)
  have hprefix := operatorAt_prefix input.skipTrivia.rest
  rw [beq_iff_eq.mp hfront] at hprefix
  obtain ⟨tail, htail⟩ := List.head?_eq_some_iff.mp htext
  obtain ⟨rest, hrest⟩ := hprefix
  rw [htail] at hrest
  exact Input.Shows.of_reaches ⟨[], tail ++ rest, hrest.symm, rfl⟩ input.reads_skipTrivia.reaches

theorem yields_glyph (c : Char) : (glyph c).Yields :=
  yields_token (.inr rfl) fun cs h => ⟨by rintro rfl; simp at h, Nat.one_pos⟩

theorem yields_wordAs {kind : Kind} {text : String}
    (hkind : kind.isPlain = true ∨ kind.isLeaf = true) (htext : text ≠ "") :
    (wordAs kind text).Yields :=
  yields_token hkind fun _ h => ⟨ne_nil_of_beq htext rfl h, length_pos_of_ne_empty htext⟩

theorem yields_keyword {text : String} (htext : text ≠ "") :
    (keyword text).Yields :=
  yields_wordAs (.inr rfl) htext

theorem ne_nil_of_wordAt {cs : List Char} (h : (!(wordAt cs).isEmpty) = true) :
    cs ≠ [] ∧ 0 < (wordAt cs).length := by
  have hword : wordAt cs ≠ [] := by simpa using h
  exact ⟨fun hnil => hword (by rw [hnil]; rfl), List.length_pos_iff.mpr hword⟩

theorem ensures_keyword (text : String) : (keyword text).Ensures fun node => node.kind = .token :=
  .bind fun _ => .bind fun _ => .bind fun _ => ensures_leaf .token text.length

theorem yields_anyWord {kind : Kind}
    (hkind : kind.isPlain = true ∨ kind.isLeaf = true) : (anyWord kind).Yields :=
  yields_token hkind fun _ h => ne_nil_of_wordAt h

theorem yields_nameAs {kind : Kind} (hkind : kind.isPlain = true ∨ kind.isLeaf = true) :
    (nameAs kind).Yields :=
  yields_token hkind fun _ h => ne_nil_of_wordAt (Bool.and_elim_left h)

theorem yields_identifier : identifier.Yields :=
  yields_nameAs (by decide)

theorem yields_variableName : variableName.Yields :=
  Continues.look looks_nextWord fun _ => .ite (yields_wordAs (by decide) (by decide))
    yields_identifier

theorem yields_oneOf {texts : List String} (htexts : "" ∉ texts) :
    (oneOf texts).Yields :=
  Continues.look looks_nextWord fun _ => Continues.check fun hword => yields_keyword fun heq =>
    htexts (heq ▸ List.contains_iff_mem.mp hword)

/-- A token that is read where its length can be told. -/
theorem exists_of_length {length : Option Nat} {kind : Kind} {count : Nat → Nat} {env : Env}
    {input last : Input} {node : Node} (hcount : ∀ length, 0 < count length)
    (h : (match length with
      | some length => do skip; leaf kind (count length)
      | none => failure : Rule Node) env input = some (node, last)) :
    ∃ count, 0 < count ∧ (do skip; leaf kind count : Rule Node) env input = some (node, last) := by
  cases length with
  | none => cases h
  | some length => exact ⟨count length, hcount length, h⟩

theorem yields_string : string.Yields := by
  refine yields_skip_leaf .string (by decide) fun cs env input node last hrun => ?_
  split at hrun
  · exact ⟨List.cons_ne_nil _ _, exists_of_length (fun _ => Nat.succ_pos _) hrun⟩
  · exact ⟨List.cons_ne_nil _ _, exists_of_length (fun _ => Nat.succ_pos _) hrun⟩
  · cases hrun

theorem numberLength_pos {decimal point : Bool} {c : Char} {rest : List Char}
    (hc : c = '.' ∧ point = false ∨ c.isDigit = true) :
    0 < numberLength decimal point (c :: rest) := by
  unfold numberLength
  split
  · next h => cases h
  iterate 4
    · split
      · exact Nat.succ_pos _
      · exact Nat.one_pos
  · next c' rest' _ _ _ _ h =>
      obtain ⟨rfl, rfl⟩ := List.cons.inj h
      rcases hc with ⟨rfl, rfl⟩ | hdigit
      · exact Nat.succ_pos _
      · have hpoint : (c == '.') = false := by
          rw [beq_eq_false_iff_ne]
          rintro rfl
          exact absurd hdigit (by decide)
        rw [hpoint]
        simp [Char.isAlphanum, hdigit]

theorem yields_number : number.Yields := by
  refine yields_token (by decide) fun cs htest => ?_
  split at htest
  · exact ⟨List.cons_ne_nil _ _, numberLength_pos (.inl ⟨rfl, rfl⟩)⟩
  · next c rest _ => exact ⟨List.cons_ne_nil _ _, numberLength_pos (.inr htest)⟩
  · cases htest

theorem yields_regex : regex.Yields := by
  refine yields_skip_leaf .regex (by decide) fun cs env input node last hrun => ?_
  split at hrun
  · exact ⟨List.cons_ne_nil _ _, exists_of_length (fun _ => by omega) hrun⟩
  · cases hrun

theorem yields_privateName : privateName.Yields := by
  refine yields_skip_leaf .privateName (by decide)
    fun cs env input node last hrun => ?_
  split at hrun
  · next rest =>
      obtain ⟨_, between, hcheck, hrest⟩ := bind_run.mp hrun
      obtain rfl := looks_check _ env input _ between hcheck
      exact ⟨List.cons_ne_nil _ _, _, Nat.succ_pos _, hrest⟩
  · cases hrun

/-! ### Words -/

/-- A rule that reads a word. -/
abbrev ReadsWord (rule : Rule Node) : Prop :=
  rule.Ensures fun node => node.kind.isWord = true

theorem readsWord_leaf {kind : Kind} (hkind : kind.isWord = true) (count : Nat) :
    (leaf kind count).ReadsWord :=
  .bind fun _ => .bind fun _ => .pure hkind

theorem readsWord_anyWord {kind : Kind} (hkind : kind.isWord = true) : (anyWord kind).ReadsWord :=
  .bind fun cs => .bind fun _ => .bind fun _ => readsWord_leaf hkind (wordAt cs).length

theorem readsWord_identifier : identifier.ReadsWord :=
  .bind fun cs => .bind fun _ => .bind fun _ => readsWord_leaf rfl (wordAt cs).length

theorem readsWord_string : string.ReadsWord := by
  refine .bind fun cs => ?_
  split
  · split
    · exact .bind fun _ => readsWord_leaf rfl _
    · exact .failure
  · split
    · exact .bind fun _ => readsWord_leaf rfl _
    · exact .failure
  · exact .failure

theorem readsWord_number : number.ReadsWord :=
  .bind fun _ => .bind fun _ => .bind fun _ => readsWord_leaf rfl _

theorem readsWord_privateName : privateName.ReadsWord := by
  refine .bind fun cs => ?_
  split
  · exact .bind fun _ => .bind fun _ => readsWord_leaf rfl _
  · exact .failure

/-! ### Repetition -/

section Repetition

variable {before : List Node} {fields more : Set Field} {parts : α → List Node}

theorem yields_goal (g : Goal) : (goal g).Yields := by
  intro env henv first earlier input node last hreads hrun
  obtain ⟨hnode, hrole⟩ := henv g input node last hrun
  rw [List.append_nil] at hreads
  exact ⟨hreads.append hnode, by simp [hrole]⟩

/-- A rule that may fail adds nothing where it does. -/
theorem continues_opt {rule : Rule α} (h : rule.Continues [] fields parts) :
    (opt rule).Continues [] fields fun found => (found.map parts).getD [] := by
  rw [opt, map_eq_pure_bind]
  refine .orElse ?_ (.done hasRoles_nil rfl)
  exact h.also fun a hroles => .done hroles rfl

/-- More nodes are read, of which something is known, or none where they are missing. -/
theorem Continues.maybeOf {P : List Node → Prop} {more : Set Field} {before : List Node}
    {rule : Rule (List Node)} {next : Option (List Node) → Rule α} (h : rule.YieldsAll more)
    (hP : rule.Ensures P)
    (hnext : ∀ found, HasRoles more (found.getD []) → (∀ nodes ∈ found, P nodes) →
      (next found).Continues (before ++ found.getD []) fields parts) :
    (opt rule >>= next).Continues before fields parts := by
  refine (continues_opt h).bindOf hP.opt fun found hroles hfound => ?_
  rw [Option.map_id_apply] at hroles ⊢
  exact hnext found hroles hfound

/-- More nodes are read, or none where they are missing. -/
theorem Continues.maybe (more : Set Field) {before : List Node} {rule : Rule (List Node)}
    {next : Option (List Node) → Rule α} (h : rule.YieldsAll more)
    (hnext : ∀ found, HasRoles more (found.getD []) →
      (next found).Continues (before ++ found.getD []) fields parts) :
    (opt rule >>= next).Continues before fields parts :=
  .maybeOf h h.ensures fun found hroles _ => hnext found hroles

theorem continues_optList {rule : Rule Node} (h : rule.Continues [] fields fun node => [node]) :
    (optList rule).YieldsAll fields := by
  refine (continues_opt h).also fun found hroles => ?_
  cases found with
  | none => exact .done hroles rfl
  | some node => exact .done hroles rfl

theorem yields_optList {rule : Rule Node} (h : rule.Yields) : (optList rule).YieldsAll ∅ :=
  continues_optList h

theorem continues_manyWith {rule : Rule α} (h : rule.Continues [] fields parts) (fuel : Nat) :
    (manyWith rule fuel).Continues [] fields (List.flatMap parts) := by
  induction fuel with
  | zero => exact .done hasRoles_nil rfl
  | succ fuel ih =>
      intro env henv first earlier input values last hreads hrun
      simp only [manyWith] at hrun
      split at hrun
      · obtain ⟨rfl, rfl⟩ := Prod.mk.inj (Option.some.inj hrun)
        exact ⟨hreads, hasRoles_nil⟩
      · next value next hvalue =>
          obtain ⟨hnext, hroles⟩ := h env henv first earlier input value next hreads hvalue
          split at hrun
          · obtain ⟨⟨rest, after⟩, hrest, heq⟩ := Option.map_eq_some_iff.mp hrun
            obtain ⟨rfl, rfl⟩ := Prod.mk.inj heq
            rw [← List.append_nil (earlier ++ parts value)] at hnext
            obtain ⟨hlast, hmore⟩ := ih env henv first (earlier ++ parts value) next rest after
              hnext hrest
            refine ⟨?_, ?_⟩
            · rwa [List.flatMap_cons, ← List.append_assoc]
            · rw [List.flatMap_cons, hasRoles_append]
              exact ⟨hroles, hmore⟩
          · obtain ⟨rfl, rfl⟩ := Prod.mk.inj (Option.some.inj hrun)
            simpa using ⟨hnext, hroles⟩

theorem continues_many {rule : Rule α} (h : rule.Continues [] fields parts) :
    (many rule).Continues [] fields (List.flatMap parts) :=
  .look looks_get fun input => continues_manyWith h (input.rest.length + 1)

theorem yields_many {rule : Rule Node} (h : rule.Yields) : (many rule).YieldsAll ∅ := by
  have hparts : List.flatMap (fun node : Node => [node]) = id := by
    funext nodes
    simp
  have hmany := continues_many h
  rwa [hparts] at hmany

/-- More nodes are read, in rows. -/
theorem Continues.rows (more : Set Field) {before : List Node} {rule : Rule (List (List Node))}
    {next : List (List Node) → Rule α} (h : rule.Continues [] more (List.flatMap id))
    (hnext : ∀ rows : List (List Node), HasRoles more rows.flatten →
      (next rows).Continues (before ++ rows.flatten) fields parts) :
    (rule >>= next).Continues before fields parts := by
  refine h.also fun rows hroles => ?_
  rw [List.flatMap_id] at hroles ⊢
  exact hnext rows hroles

theorem continues_iterateWith {step : Node → Rule Node}
    (h : ∀ node, node.role = none → (step node).Continues [node] ∅ fun node => [node])
    (fuel : Nat) {node : Node} (hrole : node.role = none) :
    (iterateWith step fuel node).Continues [node] ∅ fun node => [node] := by
  induction fuel generalizing node with
  | zero => exact .done (by simp [hrole]) rfl
  | succ fuel ih =>
      intro env henv first earlier input value last hreads hrun
      simp only [iterateWith] at hrun
      split at hrun
      · obtain ⟨rfl, rfl⟩ := Prod.mk.inj (Option.some.inj hrun)
        exact ⟨hreads, by simp [hrole]⟩
      · next found next hfound =>
          obtain ⟨hnext, hroles⟩ := h node hrole env henv first earlier input found next hreads
            hfound
          split at hrun
          · exact ih (hasRoles_empty_singleton.mp hroles) env henv first earlier next value last
              hnext hrun
          · obtain ⟨rfl, rfl⟩ := Prod.mk.inj (Option.some.inj hrun)
            exact ⟨hnext, hroles⟩

theorem continues_iterate {step : Node → Rule Node}
    (h : ∀ node, node.role = none → (step node).Continues [node] ∅ fun node => [node])
    {node : Node} (hrole : node.role = none) :
    (iterate step node).Continues [node] ∅ fun node => [node] :=
  .look looks_get fun input => continues_iterateWith h (input.rest.length + 1) hrole

theorem yields_semicolon (operand : Bool) : (semicolon operand).YieldsAll ∅ := by
  refine .look (looks_nextIs ";") fun next => ?_
  split
  · exact .node (yields_punct (by decide)) fun sign hsign => .done (by simp [hsign]) rfl
  · exact .look looks_dialect fun dialect => .look looks_get fun input =>
      .check fun _ => .done hasRoles_nil rfl

theorem yields_commaSeparated {item : Rule Node} (h : item.Yields) :
    (commaSeparated item).YieldsAll ∅ := by
  refine .nodes (yields_optList h) fun first hfirst => ?_
  refine .rows ∅ (continues_many (.node (yields_punct (by decide)) fun comma hcomma => ?_))
    fun more hmore => .done (by simpa [hfirst] using hmore) (by simp)
  exact .nodes (yields_optList h) fun item hitem => .done (by simp [hcomma, hitem]) (by simp)

theorem yields_commaSeparated1 {item : Rule Node} (h : item.Yields) :
    (commaSeparated1 item).YieldsAll ∅ := by
  refine .node h fun first hfirst => ?_
  refine .rows ∅ (continues_many (.node (yields_punct (by decide)) fun comma hcomma => ?_))
    fun more hmore => .done (by simpa [hfirst] using hmore) (by simp)
  exact .node h fun item hitem => .done (by simp [hcomma, hitem]) (by simp)

end Repetition

/-! ### Leaves without white space before them -/

/-- What `Continues` says, at one place in the text. -/
def ContinuesAt (input : Input) (before : List Node) (fields : Set Field) (parts : α → List Node)
    (rule : Rule α) : Prop :=
  ∀ env : Env, env.Sound → ∀ first earlier a last, Reads first (earlier ++ before) input →
    rule env input = some (a, last) →
      Reads first (earlier ++ parts a) last ∧ HasRoles fields (parts a)

section Here

variable {input : Input} {before : List Node} {fields : Set Field} {parts : α → List Node}

theorem Continues.here {rule : Rule α} (h : rule.Continues before fields parts) :
    rule.ContinuesAt input before fields parts :=
  fun env henv first earlier a last => h env henv first earlier input a last

theorem Continues.get {next : Input → Rule α}
    (hnext : ∀ input, (next input).ContinuesAt input before fields parts) :
    (MonadState.get >>= next : Rule α).Continues before fields parts := by
  intro env henv first earlier input a last hreads hrun
  obtain ⟨found, between, hget, hrest⟩ := bind_run.mp hrun
  obtain ⟨rfl, rfl⟩ : input = found ∧ input = between := Prod.mk.inj (Option.some.inj hget)
  exact hnext input env henv first earlier a last hreads hrest

theorem ContinuesAt.check {condition : Bool} {next : Unit → Rule α}
    (hnext : condition = true → (next ()).ContinuesAt input before fields parts) :
    (Rule.check condition >>= next).ContinuesAt input before fields parts := by
  intro env henv first earlier b last hreads hrun
  obtain ⟨_, between, hcheck, hrest⟩ := bind_run.mp hrun
  obtain ⟨hcondition, rfl⟩ := check_run hcheck
  exact hnext hcondition env henv first earlier b last hreads hrest

theorem ContinuesAt.leaf {kind : Kind} {count : Nat}
    (hkind : kind.isPlain = true ∨ kind.isLeaf = true) (hcount : 0 < count) (hrest : input.rest ≠ []) :
    (leaf kind count).ContinuesAt input [] ∅ fun node => [node] := by
  intro env _ first earlier node last hreads hrun
  obtain ⟨rfl, rfl⟩ : input.leaf kind count = node ∧ input.drop count = last :=
    Prod.mk.inj (Option.some.inj hrun)
  rw [List.append_nil] at hreads
  exact ⟨hreads.append (Input.reads_leaf hkind hcount hrest), by simp [Input.leaf]⟩

/-- One more node is read. -/
theorem ContinuesAt.node {rule : Rule Node} {next : Node → Rule α}
    (h : rule.ContinuesAt input [] ∅ fun node => [node])
    (hnext : ∀ node, node.role = none → (next node).Continues (before ++ [node]) fields parts) :
    (rule >>= next).ContinuesAt input before fields parts := by
  intro env henv first earlier a last hreads hrun
  obtain ⟨node, between, hrule, hrest⟩ := bind_run.mp hrun
  rw [← List.append_nil (earlier ++ before)] at hreads
  obtain ⟨hnode, hroles⟩ := h env henv first (earlier ++ before) node between hreads hrule
  rw [List.append_assoc] at hnode
  exact hnext node (hasRoles_empty_singleton.mp hroles) env henv first earlier between a last hnode
    hrest

end Here

theorem escapeLength_pos (cs : List Char) : 0 < escapeLength cs := by
  unfold escapeLength
  dsimp only
  split
  · omega
  · omega
  · omega
  · omega
  · split
    all_goals omega
  · omega

theorem yields_templatePiece {inside : Rule Node} (h : inside.Yields) :
    (templatePiece inside).Yields := by
  refine .get fun input => ?_
  dsimp only
  split
  · next rest hrest =>
      refine .node (.leaf (.inr rfl) (by decide) (by simp [hrest])) fun opening hopening => ?_
      exact .node h fun value hvalue => .node (yields_glyph _) fun closing hclosing =>
        .plain (by simp) (by decide)
  · next rest hrest =>
      exact .leaf (.inl (by decide)) (escapeLength_pos _) (by simp [hrest])
  · refine .check fun hlength => ?_
    have hpos : 0 < templateLength input.rest := by
      simpa [Nat.pos_iff_ne_zero] using hlength
    refine .leaf (.inl (by decide)) hpos fun hnil => ?_
    rw [hnil] at hpos
    exact absurd hpos (Nat.lt_irrefl 0)

theorem yields_templateOf {inside : Rule Node} (h : inside.Yields) :
  (templateOf inside).Yields := by
  refine .node (yields_glyph _) fun opening hopening => ?_
  refine .nodes (yields_many (yields_templatePiece h)) fun pieces hpieces => ?_
  refine .get fun input => .check fun hquote => ?_
  refine .node (.leaf (.inr rfl) Nat.one_pos fun hnil => by simp [hnil] at hquote)
    fun closing hclosing => .plain (by simp) (by decide)

end Rule

end Script
end NgIndex
