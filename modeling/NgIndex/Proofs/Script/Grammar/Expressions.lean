import NgIndex.Proofs.Script.Grammar.Types
import NgIndex.Script.ExpressionRules
import NgIndex.Script.MarkupRules

/-!
# Expressions are read in order

The rules for expressions, and for markup among them, read nodes one after another and put them
together in order.
-/

namespace NgIndex
namespace Script
namespace Rule

/-! ### Literals -/

theorem yields_functionBody : functionBody.Continues [] {.body} fun node => [node] :=
  .node (yields_goal _) fun body _ => .done (by simp) rfl

theorem yields_parenthesized : parenthesized.Yields :=
  .node (yields_punct (by decide)) fun opening _ => .node (yields_goal _) fun inside _ =>
    .nodes (yields_optList yields_typeClause) fun type _ =>
    .node (yields_punct (by decide)) fun closing _ => .plain (by simp) (by decide)

theorem yields_arrayLiteral : arrayLiteral.Yields :=
  yields_enclosed (yields_commaSeparated (.orElse yields_spread (yields_goal _))) (by decide)
    (by decide) (by decide)

theorem yields_methodWord : methodWord.Yields :=
  .node (yields_oneOf (by decide)) fun word hword => .look looks_newlineAhead fun _ =>
    .check fun _ => .look looks_ahead fun _ => .check fun _ => .done (by simp [hword]) rfl

theorem yields_methodWords : methodWords.YieldsAll ∅ :=
  .nodes (yields_many yields_methodWord) fun words hwords =>
    .nodes (yields_optList (yields_punct (by decide))) fun star hstar =>
    .done (by simp [hwords, hstar]) (by simp)

/-- A method may be made of its name between what has no role and its parameters and body. -/
theorem admitsAll_method {front rest : List Node} {name : Node} (hfront : HasRoles ∅ front)
    (hname : Kind.method.admits (some .name) name.kind = true)
    (hrest : HasRoles {.parameters, .returnType, .body} rest) :
    Kind.method.AdmitsAll (front ++ name.as .name :: rest) := by
  have hbefore : Kind.method.AdmitsAll front := hfront.admitsAll (fun _ => rfl) (by simp)
  have hafter : Kind.method.AdmitsAll rest :=
    hrest.admitsAll (fun _ => rfl) (by simp [Kind.admits])
  simpa [hbefore, hname] using hafter

theorem hasRoles_definition {signature : List Node} {body : Node}
    (hsignature : HasRoles {.parameters, .returnType} signature) (hbody : HasRoles {.body} [body]) :
    HasRoles {.parameters, .returnType, .body} (signature ++ [body]) :=
  hasRoles_append.mpr ⟨hsignature.mono (by simp [Set.insert_subset_iff]), hbody.mono (by simp)⟩

theorem yields_objectMethod : objectMethod.Yields :=
  .nodes yields_methodWords fun words hwords =>
    .nodeOf yields_propertyName ensures_propertyName fun name _ hname =>
    .nodes yields_callSignature fun signature hsignature =>
    .also yields_functionBody fun body hbody => .simple (by simp) (by decide)
      (by simpa using admitsAll_method hwords hname (hasRoles_definition hsignature hbody))

theorem yields_objectProperty : objectProperty.Yields := by
  refine .look (looks_nextIs _) fun _ => .ite yields_spread
    (.orElse ?_ (.orElse yields_objectMethod ?_))
  · exact .node yields_propertyName fun key _ => .node (yields_punct (by decide)) fun colon _ =>
      .node (yields_goal _) fun value _ => .plain (by simp) (by decide)
  · refine .node (yields_anyWord (by decide)) fun name hname =>
      .orElse ?_ (.done (by simp [hname]) rfl)
    exact .withKind _ (continues_patternWithDefault _) (by decide)

theorem yields_objectLiteral : objectLiteral.Yields :=
  yields_enclosed (yields_commaSeparated yields_objectProperty) (by decide) (by decide) (by decide)

theorem yields_template : template.Yields :=
  yields_templateOf (yields_goal _)

theorem isPlain_functionExpression (star : List Node) :
    (if star.isEmpty then Kind.functionExpression else .generatorExpression).isPlain = true := by
  split <;> decide

theorem yields_functionExpression : functionExpression.Yields :=
  .nodes (yields_optList (yields_onLine (yields_keyword (by decide)))) fun async _ =>
    .node (yields_keyword (by decide)) fun word _ =>
    .nodes (yields_optList (yields_punct (by decide))) fun star _ =>
    .nodes (yields_optList yields_identifier) fun name _ =>
    .nodes yields_callSignature fun signature _ => .also yields_functionBody fun body _ =>
    .plain (by simp) (isPlain_functionExpression star)

/-! ### Classes -/

/-- What a class extends in a typed dialect. -/
theorem yields_base :
    (do
      let value ← goal .unary
      match value.kind, value.children with
      | .instantiation, [value, types] => return [value.as .value, types]
      | _, _ => return value.as .value :: (← optList typeArguments) :
      Rule (List Node)).YieldsAll Set.univ := by
  refine .node (yields_goal _) fun value _ => ?_
  split
  · next callee types _ hchildren =>
      refine .children ?_
      rw [hchildren]
      exact .done .univ rfl
  · exact .nodes (yields_optList yields_typeArguments) fun types _ => .done .univ rfl

theorem yields_implementing :
    (do
      let word ← keyword "implements"
      return .branch .implementsClause (word :: (← commaSeparated1 (goal .type))) :
      Rule Node).Yields :=
  .node (yields_keyword (by decide)) fun word _ =>
    .nodes (yields_commaSeparated1 (yields_goal _)) fun types _ => .plain (by simp) (by decide)

theorem yields_heritage : heritage.Yields := by
  refine .look looks_typed fun _ => ?_
  dsimp only
  split
  · exact .node (yields_keyword (by decide)) fun word _ => .node (yields_goal _) fun base _ =>
      .plain (by simp) (by decide)
  refine .filled ∅ (.orElse ?_ ?_) (.orElse ?_ ?_) fun clauses _ hclauses =>
    .plain ⟨by simp, hclauses⟩ (by decide)
  · refine .node ?_ fun first hfirst => .nodes (yields_optList yields_implementing)
      fun second hsecond => .done (by simp [hfirst, hsecond]) rfl
    refine .node (yields_keyword (by decide)) fun word _ => .nodes yields_base fun first _ => ?_
    refine .rows Set.univ (continues_many ?_) fun more _ => .plain (by simp) (by decide)
    exact .node (yields_punct (by decide)) fun comma _ => .nodes yields_base fun base _ =>
      .done .univ rfl
  · exact .node yields_implementing fun clause hclause => .done (by simp [hclause]) rfl
  · exact .bind fun _ => .bind fun _ => .pure (by simp)
  · exact .bind fun _ => .pure (by simp)

theorem yields_classTail : classTail.YieldsAll {.body} :=
  .nodes (yields_optList yields_typeParameters) fun types htypes =>
    .nodes (yields_optList yields_heritage) fun heritage hheritage =>
    .node (yields_goal _) fun body _ =>
    .done (by simp [htypes.of_empty, hheritage.of_empty]) (by simp)

/-- A class minds its name only. -/
theorem admits_class {kind child : Kind} {role : Option Field}
    (hkind : kind ∈ [.classDeclaration, .abstractClassDeclaration, .classExpression])
    (h : role = some .name → child.isWord = true) : kind.admits role child = true := by
  by_cases hrole : role = some .name
  · subst hrole
    simp only [List.mem_cons, List.not_mem_nil, or_false] at hkind
    rcases hkind with rfl | rfl | rfl
    all_goals exact h rfl
  · unfold Kind.admits
    split
    all_goals simp_all

theorem admitsAll_class {kind : Kind} {front names tail : List Node}
    (hkind : kind ∈ [.classDeclaration, .abstractClassDeclaration, .classExpression])
    (hfront : HasRoles ∅ front) (hnames : ∀ node ∈ names, node.kind.isWord = true)
    (htail : HasRoles {.body} tail) :
    kind.AdmitsAll (front ++ names.map (·.as .name) ++ tail) := by
  intro node hnode
  refine admits_class hkind fun hrole => ?_
  rcases List.mem_append.mp hnode with hnode | hnode
  · rcases List.mem_append.mp hnode with hnode | hnode
    · exact absurd (hfront node hnode _ hrole) (Set.notMem_empty _)
    · obtain ⟨name, hname, rfl⟩ := List.mem_map.mp hnode
      exact hnames name hname
  · exact absurd (htail node hnode _ hrole) (by simp)

theorem yields_classExpression : classExpression.Yields := by
  refine .nodes (yields_many yields_decorator) fun decorators hdecorators =>
    .node (yields_keyword (by decide)) fun word hword => ?_
  refine .bindOf (yields_optList (.look looks_nextWord fun _ => .check fun _ => yields_identifier))
    (Ensures.optList (.bind fun _ => .bind fun _ => readsWord_identifier)) fun name _ hname => ?_
  refine .nodes yields_classTail fun tail htail => .simple (by simp) (by decide) ?_
  have hfront : HasRoles ∅ (decorators ++ [word]) := by simp [hdecorators, hword]
  simpa using admitsAll_class (by simp) hfront hname htail

/-! ### Values -/

theorem yields_constructed {nested primary : Rule Node} (hnested : nested.Yields)
    (hprimary : primary.Yields) : (constructed nested primary).Yields := by
  refine .node (.orElse hnested hprimary) fun base hbase => continues_iterate (fun object _ => ?_)
    hbase
  refine .orElse (continues_plainMember object) (.orElse ?_ ?_)
  · exact .node (yields_punct (by decide)) fun opening _ => .node (yields_goal _) fun index _ =>
      .node (yields_punct (by decide)) fun closing _ => .plain (by simp) (by decide)
  · exact .look looks_typed fun _ => .check fun _ => .node (yields_punct (by decide)) fun mark _ =>
      .plain (by simp) (by decide)

theorem yields_newExpression {primary : Rule Node} (hprimary : primary.Yields) (fuel : Nat) :
    (newExpression primary fuel).Yields := by
  induction fuel with
  | zero => exact .failure
  | succ fuel ih =>
      refine .node (yields_keyword (by decide)) fun word _ => .orElse ?_ ?_
      · exact .node (yields_punct (by decide)) fun point _ =>
          .node (yields_keyword (by decide)) fun target _ => .plain (by simp) (by decide)
      · refine .node (yields_constructed ih hprimary) fun target _ => ?_
        refine .nodes (yields_optList ?_) fun types _ => .nodes (yields_optList yields_arguments)
          fun arguments _ => .branch (Node.shaped_construct (by simp)) (by simp) (by decide)
        exact .node yields_typeArguments fun types htypes => .look (looks_nextIs _) fun _ =>
          .check fun _ => .done (by simp [htypes]) rfl

theorem yields_importExpression : importExpression.Yields := by
  refine .node (yields_wordAs (by decide) (by decide)) fun word hword => .orElse ?_ ?_
  · exact .node (yields_punct (by decide)) fun point _ =>
      .node (yields_keyword (by decide)) fun name _ => .plain (by simp) (by decide)
  · exact .look (looks_nextIs _) fun _ => .check fun _ => .done (by simp [hword]) rfl

theorem yields_plainPrimary : plainPrimary.Yields := by
  refine .look looks_ahead fun cs => ?_
  split
  · exact yields_parenthesized
  · exact yields_arrayLiteral
  · exact yields_objectLiteral
  · exact yields_string
  · exact yields_string
  · exact yields_regex
  · exact yields_privateName
  · exact yields_classExpression
  · exact .look looks_dialect fun _ => .check fun _ => yields_goal _
  · refine .ite yields_template (.ite yields_number (.look looks_nextWord fun word => ?_))
    split
    · exact yields_functionExpression
    · exact yields_classExpression
    · exact yields_importExpression
    · exact yields_wordAs (by decide) (by decide)
    · exact yields_wordAs (by decide) (by decide)
    · exact yields_wordAs (by decide) (by decide)
    · exact yields_wordAs (by decide) (by decide)
    · exact yields_wordAs (by decide) (by decide)
    · exact .orElse yields_functionExpression yields_identifier
    · exact yields_variableName
  · exact .failure

theorem yields_primary : primary.Yields := by
  refine .look looks_nextWord fun word => ?_
  split
  · exact .look looks_get fun _ => yields_newExpression yields_plainPrimary _
  · exact yields_plainPrimary

theorem continues_typedApplication (callee : Node) :
    (typedApplication callee).Continues [callee] ∅ fun node => [node] := by
  refine .node yields_typeArguments fun types htypes => .orElse ?_ (.orElse ?_ ?_)
  · exact .node yields_arguments fun arguments _ =>
      .branch (Node.shaped_call (by simp [htypes])) (by simp) (by decide)
  · exact .node yields_template fun template _ =>
      .branch (Node.shaped_call (by simp [htypes])) (by simp) (by decide)
  · exact .look looks_ahead fun _ => .look looks_newlineAhead fun _ => .check fun _ =>
      .plain (by simp) (by decide)

theorem continues_chained (object : Node) :
    (chained object).Continues [object] ∅ fun node => [node] := by
  refine .node (yields_punct (by decide)) fun mark hmark => .withKind .optionalChain ?_ (by decide)
  have hrole : (mark.withKind .optionalChain).role = none := hmark
  refine .orElse ?_ (.orElse ?_ ?_)
  · exact .nodes (yields_optList yields_typeArguments) fun types htypes =>
      .node yields_arguments fun arguments _ =>
      .branch (Node.shaped_call (by simp [hrole, htypes.filterMap_role])) (by simp) (by decide)
  · exact .node (yields_punct (by decide)) fun opening _ => .node (yields_goal _) fun index _ =>
      .node (yields_punct (by decide)) fun closing _ => .plain (by simp) (by decide)
  · exact continues_member hrole yields_memberName readsWord_memberName

theorem continues_suffix (object : Node) :
    (suffix object).Continues [object] ∅ fun node => [node] := by
  refine .look looks_nextOperator fun operator => ?_
  split
  · exact continues_plainMember object
  · exact continues_chained object
  · exact .node (yields_punct (by decide)) fun opening _ => .node (yields_goal _) fun index _ =>
      .node (yields_punct (by decide)) fun closing _ => .plain (by simp) (by decide)
  · exact .node yields_arguments fun arguments _ =>
      .branch (Node.shaped_call (by simp)) (by simp) (by decide)
  · exact .look looks_typed fun _ => .check fun _ => .look looks_newlineAhead fun _ =>
      .check fun _ => .node (yields_punct (by decide)) fun mark _ => .plain (by simp) (by decide)
  · exact continues_typedApplication object
  · exact continues_typedApplication object
  · exact .look looks_ahead fun _ => .check fun _ => .node yields_template fun template _ =>
      .branch (Node.shaped_call (by simp)) (by simp) (by decide)

theorem yields_access : access.Yields :=
  .node yields_primary fun _ hbase => continues_iterate (fun object _ => continues_suffix object)
    hbase

/-! ### Operators -/

theorem yields_postfixed : postfixed.Yields :=
  .node yields_access fun operand hoperand => .orElse (.look looks_newlineAhead fun _ =>
    .check fun _ =>
    .node (.orElse (yields_punct (by decide)) (yields_punct (by decide))) fun operator _ =>
    .plain (by simp) (by decide)) (.done (by simp [hoperand]) rfl)

theorem yields_prefixed {operator : Rule Node} (h : operator.Yields) :
    (prefixed operator).Yields :=
  .node h fun operator _ => .node (yields_goal _) fun operand _ => .plain (by simp) (by decide)

theorem yields_typeAssertion : typeAssertion.Yields :=
  .look looks_dialect fun _ => .check fun _ => .node yields_typeArguments fun types _ =>
    .node (yields_goal _) fun operand _ => .plain (by simp) (by decide)

theorem yields_unary : unary.Yields := by
  refine .look looks_nextOperator fun operator => ?_
  split
  · next hoperator =>
      refine yields_prefixed (yields_punct fun heq => ?_)
      rw [heq] at hoperator
      exact absurd hoperator (by decide)
  refine .ite (.orElse yields_typeAssertion yields_postfixed) (.look looks_nextWord fun word => ?_)
  split
  · next hword =>
      refine yields_prefixed (yields_keyword fun heq => ?_)
      rw [heq] at hword
      exact absurd hword (by decide)
  split
  · next hword =>
      refine .orElse (yields_prefixed (yields_keyword fun heq => ?_)) yields_postfixed
      rw [heq] at hword
      exact absurd hword (by decide)
  · exact yields_postfixed

theorem continues_conversion (operand : Node) :
    (conversion operand).Continues [operand] ∅ fun node => [node] := by
  refine .look looks_typed fun _ => .check fun _ => .look looks_nextWord fun word => ?_
  split
  · exact .node (yields_keyword (by decide)) fun word _ =>
      .node (.orElse (yields_keyword (by decide)) (yields_goal _)) fun type _ =>
      .plain (by simp) (by decide)
  · exact .node (yields_keyword (by decide)) fun word _ => .node (yields_goal _) fun type _ =>
      .plain (by simp) (by decide)
  · exact .failure

theorem ne_empty_of_operatorLevel {name : String} {level : Nat}
    (h : operatorLevel name = some level) : name ≠ "" := by
  rintro rfl
  cases h

theorem continues_binaryStep (level : Nat) (left : Node) :
    (binaryStep level left).Continues [left] ∅ fun node => [node] := by
  refine .orElse (.check fun _ => continues_conversion left) ?_
  refine .look looks_nextOperator fun operator => .look looks_nextWord fun word => ?_
  dsimp only
  split
  · exact .failure
  · next own hown =>
      have hname := ne_empty_of_operatorLevel hown
      exact .check fun _ => .either (yields_keyword hname) (yields_punct hname) fun sign _ =>
        .node (yields_goal _) fun right _ => .plain (by simp) (by decide)

theorem yields_binary (level : Nat) : (binary level).Yields :=
  .node (yields_goal _) fun _ hleft => continues_iterate
    (fun left _ => continues_binaryStep level left) hleft

theorem yields_conditional : conditional.Yields := by
  refine .node (yields_goal _) fun test htest => .orElse ?_ (.done (by simp [htest]) rfl)
  refine .node (yields_punct (by decide)) fun mark _ => .orElse ?_ ?_
  all_goals
    exact .node (yields_goal _) fun positive _ => .node (yields_punct (by decide)) fun colon _ =>
      .node (yields_goal _) fun negative _ => .plain (by simp) (by decide)

theorem yields_yielded : yielded.Yields := by
  refine .node (yields_keyword (by decide)) fun word _ => .maybe ∅ ?_ fun value _ =>
    .plain (by simp) (by decide)
  exact .look looks_newlineAhead fun _ => .check fun _ =>
    .nodes (yields_optList (yields_punct (by decide))) fun star hstar =>
    .node (yields_goal _) fun value hvalue => .done (by simp [hstar, hvalue]) (by simp)

/-! ### Arrow functions and assignments -/

theorem yields_arrowBody : arrowBody.YieldsAll {.body} :=
  .node (yields_punct (by decide)) fun arrow harrow => .look (looks_nextIs _) fun _ =>
    .either (yields_goal _) (yields_goal _) fun body _ => .done (by simp [harrow]) rfl

theorem yields_asyncWord : asyncWord.Yields :=
  yields_onLine (yields_keyword (by decide))

theorem yields_simpleArrow : simpleArrow.Yields := by
  refine .orElse ?_ (.node yields_asyncWord fun async _ => ?_)
  all_goals
    exact .node yields_identifier fun name _ => .look (looks_nextIs _) fun _ => .check fun _ =>
      .nodes yields_arrowBody fun body _ => .plain (by simp) (by decide)

theorem yields_fullArrow : fullArrow.Yields :=
  .nodes (yields_optList yields_asyncWord) fun async _ =>
    .filled _ yields_callSignature ensures_callSignature fun signature _ hsignature =>
    .nodes yields_arrowBody fun body _ => .plain ⟨by simp, by simp [hsignature]⟩ (by decide)

/-- A node keeps its place when it is taken as a pattern. -/
theorem Continues.assignable {α : Type} {before : List Node} {fields : Set Field}
    {parts : α → List Node} {rule : Rule α} {node : Node}
    (h : rule.Continues (before ++ [assignable node]) fields parts) :
    rule.Continues (before ++ [node]) fields parts := by
  unfold Rule.assignable at h
  split at h
  · exact h.withKind _ (by decide)
  · exact h.withKind _ (by decide)
  · exact h

theorem yields_assignmentOrValue : assignmentOrValue.Yields := by
  refine .node yields_conditional fun left hleft => .look looks_nextOperator fun operator => ?_
  split
  · exact .assignable (.node (yields_punct (by decide)) fun sign _ =>
      .node (yields_goal _) fun right _ => .plain (by simp) (by decide))
  split
  · next hoperator =>
      refine .node (yields_punct fun heq => ?_) fun sign _ => .node (yields_goal _) fun right _ =>
        .plain (by simp) (by decide)
      rw [heq] at hoperator
      exact absurd hoperator (by decide)
  · exact .done (by simp [hleft]) rfl

theorem yields_valueBeforeNoArrow (alsoColon : Bool) : (valueBeforeNoArrow alsoColon).Yields :=
  .node yields_assignmentOrValue fun value hvalue => .look looks_nextOperator fun _ =>
    .check fun _ => .check fun _ => .done (by simp [hvalue]) rfl

theorem yields_singleWith (results : Bool) : (singleWith results).Yields := by
  refine .look looks_ahead fun cs => .look looks_nextWord fun word => ?_
  refine .ite yields_yielded (.ite ?_ (.ite ?_ (.orElse yields_simpleArrow
    yields_assignmentOrValue)))
  · exact .orElse yields_simpleArrow (.orElse (.check fun _ => yields_fullArrow)
      (.orElse (yields_valueBeforeNoArrow _) yields_fullArrow))
  · exact .look looks_typed fun _ => .orElse (yields_valueBeforeNoArrow _)
      (.orElse yields_fullArrow (yields_valueBeforeNoArrow _))

theorem yields_expression : expression.Yields := by
  refine .node (yields_goal _) fun first hfirst => ?_
  refine .rows ∅ (continues_many (yields_marked (yields_punct (by decide)) (yields_goal _)))
    fun more _ => ?_
  split
  · refine .sublist [first] (.done (by simp [hfirst]) rfl) ?_
    simp
  · exact .plain (by simp) (by decide)

/-! ### Markup -/

theorem yields_markupWord : markupWord.Yields := by
  refine yields_token (by decide) fun cs hcs => ?_
  cases cs with
  | nil => cases hcs
  | cons c rest =>
      have hstart : isNameStart c = true := by simpa using hcs
      have hpart : isNamePart c = true := Bool.and_elim_left hstart
      exact ⟨List.cons_ne_nil _ _, by simp [hpart]⟩

theorem yields_markupName : markupName.Yields :=
  .node yields_markupWord fun first _ =>
    .rows ∅ (continues_many (yields_marked (.orElse (yields_glyph _) (yields_glyph _))
      yields_markupWord)) fun more _ => .plain (by simp) (by decide)

theorem yields_markupExpression : markupExpression.Yields :=
  .node (yields_glyph _) fun opening _ =>
    .nodes (yields_optList (.orElse yields_spread (yields_goal _))) fun inside _ =>
    .node (yields_glyph _) fun closing _ => .plain (by simp) (by decide)

theorem yields_markupString : markupString.Yields := by
  refine yields_skip_leaf .string (by decide) fun cs env input node last hrun => ?_
  split at hrun
  · next quote rest =>
      obtain ⟨_, middle, hquote, hmiddle⟩ := bind_run.mp hrun
      obtain rfl := looks_check _ env input _ middle hquote
      obtain ⟨_, between, hclosing, hrest⟩ := bind_run.mp hmiddle
      obtain rfl := looks_check _ env middle _ between hclosing
      exact ⟨List.cons_ne_nil _ _, _, Nat.succ_pos _, hrest⟩
  · cases hrun

theorem yields_markupAttribute : markupAttribute.Yields := by
  refine .orElse yields_markupExpression (.node yields_markupName fun name _ => ?_)
  exact .maybe ∅ (yields_marked (yields_glyph _) (.orElse yields_markupString
    (.orElse yields_markupExpression (yields_goal _)))) fun value _ => .plain (by simp) (by decide)

theorem yields_markupText : markupText.Yields := by
  refine .get fun input => .check fun hlength => ?_
  have hpos : input.rest.takeWhile (fun c => !(['<', '>', '{', '}'].contains c)) ≠ [] := by
    simpa using hlength
  refine .leaf (.inl (by decide)) (List.length_pos_iff.mpr hpos) fun hnil => ?_
  exact hpos (by rw [hnil]; rfl)

theorem yields_markup : markup.Yields := by
  refine .node (yields_glyph _) fun opening _ => .nodes (yields_optList yields_markupName)
    fun name _ => .nodes (yields_optList yields_typeArguments) fun types _ =>
    .nodes (yields_many yields_markupAttribute) fun attributes _ =>
    .nodes (Continues.orElse ?_ ?_ : Rule.YieldsAll ∅ _) fun rest _ => .plain (by simp) (by decide)
  · exact .check fun _ => yields_marked (yields_glyph _) (yields_glyph _)
  · refine .node (yields_glyph _) fun bracket hbracket =>
      .nodes (yields_many (.orElse yields_markupText (.orElse yields_markupExpression
        (yields_goal _)))) fun children hchildren => .node (yields_glyph _) fun front hfront =>
      .node (yields_glyph _) fun slash hslash =>
      .nodes (yields_optList yields_markupName) fun name hname =>
      .node (yields_glyph _) fun closing hclosing => ?_
    exact .done (by simp [hbracket, hchildren, hfront, hslash, hname, hclosing]) (by simp)

end Rule
end Script
end NgIndex
