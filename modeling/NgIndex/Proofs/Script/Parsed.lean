import NgIndex.Proofs.Script.Grammar.Statements
import NgIndex.Script.Parse

/-!
# Every script is read in order

Each goal is answered by a rule that reads nodes in order, as long as the goals that the rule asks
for are.  So by induction on the bound for the nesting of goals the statements of a script are in
order, and the tree that they make up with the comments between them is, whatever the text.  The
names in brackets start with their brackets in that text.
-/

namespace NgIndex
namespace Script

theorem Goal.yields_rule (goal : Goal) : goal.rule.Yields := by
  cases goal with
  | statement => exact Rule.yields_statement
  | block => exact Rule.yields_block
  | classBody => exact Rule.yields_classBody
  | expression => exact Rule.yields_expression
  | single => exact Rule.yields_singleWith true
  | consequent => exact Rule.yields_singleWith false
  | binary level => exact Rule.yields_binary level
  | unary => exact Rule.yields_unary
  | pattern => exact Rule.yields_pattern
  | type => exact Rule.yields_type
  | markup => exact Rule.yields_markup

theorem sound_solve (dialect : Dialect) (depth : Nat) :
    ({ dialect, solve := solve dialect depth } : Env).Sound := by
  induction depth with
  | zero => exact fun _ _ _ _ h => nomatch h
  | succ depth ih =>
      intro goal first node last h
      obtain ⟨hreads, hroles⟩ :=
        goal.yields_rule _ ih first [] first node last (.refl first) h
      exact ⟨hreads, hasRoles_empty_singleton.mp hroles⟩

theorem yields_interpreterLine : interpreterLine.Yields := by
  refine .get fun input => ?_
  split
  · next h => exact .leaf (by decide) (by omega) (by simp [h])
  · exact Rule.Continues.failure.here

theorem yieldsAll_statements : statements.YieldsAll ∅ :=
  .nodes (Rule.yields_optList yields_interpreterLine) fun front hfront =>
    .nodes (Rule.yields_many (Rule.yields_goal _)) fun nodes hnodes =>
    .skip (.done (by simp [hfront, hnodes]) (by simp))

theorem Position.byte_le_after (p : Position) (cs : List Char) : p.byte ≤ (p.after cs).byte := by
  induction cs generalizing p with
  | nil => exact Nat.le_refl _
  | cons c cs ih => exact Nat.le_trans (Nat.le_of_lt (Position.byte_lt_advance p c)) (ih _)

/-- The range of a script runs from its first node. -/
theorem Row.of_head {low high : Nat} {nodes : List Node} (h : Row low nodes high) {start : Position}
    (hstart : ∀ node ∈ nodes.head?, node.start = start) (hempty : nodes = [] → start.byte ≤ high) :
    Row start.byte nodes high := by
  cases nodes with
  | nil => exact hempty rfl
  | cons node rest =>
      obtain rfl := hstart node rfl
      exact ⟨Nat.le_refl _, h.2⟩

theorem reads_statements {dialect : Dialect} {depth : Nat} {input last : Input} {nodes : List Node}
    (h : statements { dialect, solve := solve dialect depth } input = some (nodes, last)) :
    Reads input nodes last :=
  (yieldsAll_statements _ (sound_solve dialect depth) input [] input nodes last (.refl input) h).1

/-- The tree of a script is in order. -/
theorem tidy_parse (dialect : Dialect) (text : String) : (parse dialect text).Tidy := by
  unfold parse
  dsimp only
  split
  · exact .of_leaf rfl (Node.shaped_program rfl) (Nat.le_refl _)
  next nodes last hrun =>
    have hreads := reads_statements hrun
    obtain ⟨comments, hcomments, hrow, hall⟩ := hreads.passed
    rw [List.append_nil] at hcomments
    rw [hcomments, List.reverse_reverse]
    obtain ⟨hwhole, hparts⟩ := Node.tidy_insertAll hreads.row
      (fun node hnode => (hreads.parts node hnode).toPart) hrow hall
    have hend : last.position.byte ≤ (({} : Position).after text.toList).byte := by
      rw [← hreads.reaches.remainder]
      exact Position.byte_le_after _ _
    refine .of_parts ?_ (Node.shaped_program rfl) hparts
    refine (hwhole.mono (Nat.le_refl _) hend).of_head (fun node hnode => ?_) fun hnil => ?_
    · dsimp only
      rw [Option.mem_def.mp hnode]
      rfl
    · dsimp only
      rw [hnil]
      exact Nat.le_refl _

/-! ### Names in brackets -/

section Brackets

variable {input : Input} {comment : Node}

mutual

/-- A comment that is put into a tree leaves what the names in it start with. -/
theorem Node.bracketed_insert (hcomment : comment.Bracketed input) (node : Node)
    (h : node.Bracketed input) : (node.insert comment).Bracketed input := by
  obtain ⟨kind, role, start, stop, children⟩ := node
  rw [Node.insert]
  exact .intro h.opening (Node.bracketed_insertAmong hcomment children fun _ hchild =>
    h.child hchild)

theorem Node.bracketed_insertAmong (hcomment : comment.Bracketed input) (nodes : List Node)
    (h : ∀ node ∈ nodes, node.Bracketed input) :
    ∀ node ∈ insertAmong comment nodes, node.Bracketed input := by
  match nodes with
  | [] =>
      rw [insertAmong]
      simpa using hcomment
  | child :: rest =>
      obtain ⟨hchild, hrest⟩ := List.forall_mem_cons.mp h
      rw [insertAmong]
      split
      · exact List.forall_mem_cons.mpr ⟨hcomment, h⟩
      · split
        · exact List.forall_mem_cons.mpr ⟨Node.bracketed_insert hcomment child hchild, hrest⟩
        · exact List.forall_mem_cons.mpr ⟨hchild, Node.bracketed_insertAmong hcomment rest hrest⟩

end

theorem Node.bracketed_insertAll {comments nodes : List Node}
    (hcomments : ∀ comment ∈ comments, comment.Bracketed input)
    (h : ∀ node ∈ nodes, node.Bracketed input) :
    ∀ node ∈ comments.foldl (fun nodes comment => insertAmong comment nodes) nodes,
      node.Bracketed input := by
  induction comments generalizing nodes with
  | nil => exact h
  | cons comment rest ih =>
      obtain ⟨hcomment, hrest⟩ := List.forall_mem_cons.mp hcomments
      exact ih hrest (Node.bracketed_insertAmong hcomment nodes h)

end Brackets

/-- The names in brackets that are in the tree of a script start with a bracket of its text. -/
theorem bracketed_parse (dialect : Dialect) (text : String) :
    (parse dialect text).Bracketed { rest := text.toList } := by
  unfold parse
  dsimp only
  split
  · exact .intro nofun fun _ h => nomatch h
  next nodes last hrun =>
    have hreads := reads_statements hrun
    obtain ⟨comments, hcomments, -, hall⟩ := hreads.passed
    rw [List.append_nil] at hcomments
    rw [hcomments, List.reverse_reverse]
    refine .intro nofun (Node.bracketed_insertAll (fun comment hcomment => ?_) fun node hnode =>
      (hreads.parts node hnode).brackets)
    exact (Node.PartOf.of_isComment (hall comment hcomment).1).brackets

end Script
end NgIndex
