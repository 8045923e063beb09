import NgIndex.Proofs.Script.Reading
import NgIndex.Script.TypeRules

/-!
# Names, parameters and types are read in order

The rules for what is bound and for types read nodes one after another and put them together in
order.
-/

namespace NgIndex
namespace Script
namespace Rule

/-! ### Names, patterns and parameters -/

/-- A name in brackets starts with its bracket. -/
theorem yields_computedName :
    (do return .branch .computedName [← punct "[", ← goal .single, ← punct "]"] :
      Rule Node).Yields := by
  -- Which operator a token is cannot be told from the token, so the steps are taken one by one.
  intro env henv first earlier input node last hreads hrun
  obtain ⟨opening, middle, hopening, hinside⟩ := bind_run.mp hrun
  obtain ⟨name, between, hname, hclosing⟩ := bind_run.mp hinside
  obtain ⟨closing, place, hpunct, hpure⟩ := bind_run.mp hclosing
  obtain ⟨rfl, rfl⟩ : Node.branch .computedName [opening, name, closing] = node ∧ place = last :=
    Prod.mk.inj (Option.some.inj hpure)
  have hbracket : input.Shows '[' opening.start.byte := shows_punct (by decide) hopening
  rw [List.append_nil] at hreads
  have hread := (yields_punct (by decide)).reads henv hreads hopening
  have hread := (yields_goal _).reads henv hread hname
  have hread := (yields_punct (by decide)).reads henv hread hpunct
  simp only [List.append_assoc, List.cons_append, List.nil_append] at hread
  exact ⟨hread.branch (List.cons_ne_nil _ _) Node.shaped_computedName (by decide) fun _ =>
    hbracket.of_reaches hreads.reaches, by simp⟩

theorem yields_propertyName : propertyName.Yields := by
  refine .look looks_ahead fun cs => ?_
  split
  · exact yields_computedName
  · exact yields_privateName
  · exact yields_string
  · exact yields_string
  · exact .ite (yields_anyWord (by decide)) yields_number
  · exact .failure

/-- The name of a property is a word or stands in brackets, so it can name a method. -/
theorem ensures_propertyName :
    propertyName.Ensures fun node => Kind.method.admits (some .name) node.kind = true := by
  have hword {node : Node} (h : node.kind.isWord = true) :
      Kind.method.admits (some .name) node.kind = true := by
    simp [Kind.admits, h]
  refine .bind fun cs => ?_
  split
  · exact .bind fun _ => .bind fun _ => .bind fun _ => .pure rfl
  · exact readsWord_privateName.mono fun _ => hword
  · exact readsWord_string.mono fun _ => hword
  · exact readsWord_string.mono fun _ => hword
  · exact .ite ((readsWord_anyWord (by decide)).mono fun _ => hword)
      (readsWord_number.mono fun _ => hword)
  · exact .failure

theorem yields_typeClause : typeClause.Yields :=
  .look looks_typed fun _ => .check fun _ => .node (yields_punct (by decide)) fun colon _ =>
    .node (yields_goal _) fun type _ => .plain (by simp) (by decide)

theorem yields_predicateSubject : predicateSubject.Yields :=
  .look looks_nextWord fun _ => .ite (yields_wordAs (by decide) (by decide)) yields_identifier

theorem yields_predicateTarget : predicateTarget.YieldsAll ∅ :=
  .look looks_newlineAhead fun _ => .check fun _ =>
    .node (yields_keyword (by decide)) fun word hword => .node (yields_goal _) fun type htype =>
    .done (by simp [hword, htype]) rfl

theorem yields_predicate : predicate.Yields := by
  refine .orElse (.node (yields_keyword (by decide)) fun word _ => ?_)
    (.node yields_predicateSubject fun subject _ => .nodes yields_predicateTarget fun target _ =>
      .plain (by simp) (by decide))
  exact .look looks_newlineAhead fun _ => .check fun _ => .node yields_predicateSubject
    fun subject _ => .maybe _ yields_predicateTarget fun target _ => .plain (by simp) (by decide)

theorem yields_returnClause : returnClause.Continues [] {.returnType} fun node => [node] :=
  .look looks_typed fun _ => .check fun _ => .node (yields_punct (by decide)) fun colon _ =>
    .node (.orElse yields_predicate (yields_goal _)) fun type _ =>
    .plainAs (by simp) (by decide) (by simp)

theorem yields_typeArguments : typeArguments.Yields :=
  .look looks_typed fun _ => .check fun _ => .node (yields_glyph _) fun opening _ =>
    .nodes (yields_commaSeparated1 (yields_goal _)) fun types _ =>
    .nodes (yields_optList (yields_punct (by decide))) fun comma _ =>
    .node (yields_glyph _) fun closing _ => .plain (by simp) (by decide)

/-- A sign or word with what follows it. -/
theorem yields_marked {mark rest : Rule Node} (hmark : mark.Yields) (hrest : rest.Yields) :
    (do return [← mark, ← rest] : Rule (List Node)).YieldsAll ∅ :=
  .node hmark fun first hfirst => .node hrest fun second hsecond =>
    .done (by simp [hfirst, hsecond]) rfl

theorem yields_typeParameter : typeParameter.Yields := by
  refine .nodes (yields_many (yields_before (yields_oneOf (by decide)) _)) fun modifiers _ => ?_
  exact .node (yields_anyWord (by decide)) fun name _ =>
    .maybe _ (yields_marked (yields_keyword (by decide)) (yields_goal _)) fun bound _ =>
    .maybe _ (yields_marked (yields_punct (by decide)) (yields_goal _)) fun fallback _ =>
    .plain (by simp) (by decide)

theorem yields_typeParameters : typeParameters.Yields :=
  .look looks_typed fun _ => .check fun _ => .node (yields_glyph _) fun opening _ =>
    .nodes (yields_commaSeparated1 yields_typeParameter) fun parameters _ =>
    .nodes (yields_optList (yields_punct (by decide))) fun comma _ =>
    .node (yields_glyph _) fun closing _ => .plain (by simp) (by decide)

theorem yields_initializer : initializer.YieldsAll Set.univ :=
  .node (yields_punct (by decide)) fun sign _ => .node (yields_goal _) fun value _ =>
    .done .univ rfl

theorem yields_spread : spread.Yields :=
  .node (yields_punct (by decide)) fun points _ => .node (yields_goal _) fun value _ =>
    .plain (by simp) (by decide)

theorem yields_arguments : arguments.Yields :=
  .node (yields_punct (by decide)) fun opening _ =>
    .nodes (yields_commaSeparated (.orElse yields_spread (yields_goal _))) fun values _ =>
    .node (yields_punct (by decide)) fun closing _ => .plain (by simp) (by decide)

/-- An access gives its parts their roles once its name has been read. -/
theorem continues_member {object mark : Node} {name : Rule Node} (hmark : mark.role = none)
    (hname : name.Yields) (hword : name.ReadsWord) :
    (do return .branch .member [object.as .object, mark, (← name).as .property] :
      Rule Node).Continues [object, mark] ∅ fun node => [node] :=
  .nodeOf hname hword fun property _ hproperty =>
    .branch (Node.shaped_member (by simp [hmark]) (by simp [Kind.admits, hmark, hproperty]))
      (by simp) (by decide)

theorem yields_memberName : (privateName <|> anyWord .propertyName).Yields :=
  .orElse yields_privateName (yields_anyWord (by decide))

theorem readsWord_memberName : (privateName <|> anyWord .propertyName).ReadsWord :=
  .orElse readsWord_privateName (readsWord_anyWord (by decide))

theorem continues_plainMember (object : Node) :
    (plainMember object).Continues [object] ∅ fun node => [node] :=
  .node (yields_punct (by decide)) fun _ hpoint =>
    continues_member hpoint yields_memberName readsWord_memberName

theorem yields_decorator : decorator.Yields := by
  refine .node (yields_punct (by decide)) fun sign _ => .node (.orElse ?_ ?_) fun content _ =>
    .plain (by simp) (by decide)
  · exact .node (yields_punct (by decide)) fun opening _ => .node (yields_goal _) fun inside _ =>
      .node (yields_punct (by decide)) fun closing _ => .plain (by simp) (by decide)
  · refine .node yields_identifier fun name hname => .last (continues_iterate
      (fun object _ => continues_plainMember object) hname) fun callee hcallee =>
        .orElse ?_ (.done (by simp [hcallee]) rfl)
    exact .nodes (yields_optList yields_typeArguments) fun types htypes =>
      .node yields_arguments fun arguments _ =>
      .branch (Node.shaped_call (by simp [htypes.filterMap_role])) (by simp) (by decide)

theorem continues_patternWithDefault (pattern : Node) :
    (patternWithDefault pattern).Continues [pattern] ∅ fun node => [node] :=
  .node (yields_punct (by decide)) fun sign _ => .node (yields_goal _) fun value _ =>
    .plain (by simp) (by decide)

theorem yields_defaultablePattern : defaultablePattern.Yields :=
  .node (yields_goal _) fun pattern hpattern =>
    .orElse (continues_patternWithDefault pattern) (.done (by simp [hpattern]) rfl)

theorem yields_patternProperty : patternProperty.Yields := by
  refine .look (looks_nextIs _) fun _ => .ite (yields_goal _) (.orElse ?_ ?_)
  · exact .node yields_propertyName fun key _ => .node (yields_punct (by decide)) fun colon _ =>
      .node yields_defaultablePattern fun value _ => .plain (by simp) (by decide)
  · exact .node (yields_anyWord (by decide)) fun name hname =>
      .orElse (continues_patternWithDefault name) (.done (by simp [hname]) rfl)

/-- A list between two brackets. -/
theorem yields_enclosed {opening closing : String} {inside : Rule (List Node)} {kind : Kind}
    {fields : Set Field} (hinside : inside.YieldsAll fields) (hopening : opening ≠ "")
    (hclosing : closing ≠ "") (hkind : kind.isPlain = true) :
    (do
      let first ← punct opening
      let parts ← inside
      let last ← punct closing
      return .branch kind (first :: parts ++ [last]) : Rule Node).Yields :=
  .node (yields_punct hopening) fun first _ => .nodes hinside fun parts _ =>
    .node (yields_punct hclosing) fun last _ => .plain (by simp) hkind

theorem yields_pattern : pattern.Yields := by
  refine .look looks_nextOperator fun operator => ?_
  split
  · exact yields_enclosed (yields_commaSeparated yields_patternProperty) (by decide) (by decide)
      (by decide)
  · exact yields_enclosed (yields_commaSeparated yields_defaultablePattern) (by decide) (by decide)
      (by decide)
  · exact .node (yields_punct (by decide)) fun points _ => .node (yields_goal _) fun pattern _ =>
      .plain (by simp) (by decide)
  · exact yields_variableName

theorem yields_parameterModifier : parameterModifier.Yields := by
  refine .look looks_nextWord fun word => ?_
  dsimp only
  split
  · exact yields_before (yields_wordAs (by decide) (by decide)) _
  · exact yields_before (yields_wordAs (by decide) (by decide)) _
  · exact yields_before (yields_wordAs (by decide) (by decide)) _
  · exact yields_before (yields_wordAs (by decide) (by decide)) _
  · exact yields_before (yields_keyword (by decide)) _
  · exact yields_before .failure _

theorem isPlain_parameter (mark : List Node) :
    (if mark.isEmpty then Kind.requiredParameter else .optionalParameter).isPlain = true := by
  split <;> decide

theorem yields_typedParameter : typedParameter.Yields :=
  .nodes (yields_many yields_decorator) fun decorators _ =>
    .nodes (yields_many yields_parameterModifier) fun modifiers _ => .look looks_nextWord fun _ =>
    .either (yields_wordAs (by decide) (by decide)) (yields_goal _) fun pattern _ =>
    .nodes (yields_optList (yields_punct (by decide))) fun mark _ =>
    .nodes (yields_optList yields_typeClause) fun type _ =>
    .maybe _ yields_initializer fun value _ => .plain (by simp) (isPlain_parameter mark)

theorem yields_formalParameters :
    formalParameters.Continues [] {.parameters} fun node => [node] :=
  .node (yields_punct (by decide)) fun opening _ => .look looks_typed fun _ =>
    .nodes (yields_commaSeparated (.ite yields_typedParameter yields_defaultablePattern))
      fun parameters _ => .node (yields_punct (by decide)) fun closing _ =>
    .plainAs (by simp) (by decide) (by simp)

theorem yields_callSignature : callSignature.YieldsAll {.parameters, .returnType} :=
  .nodes (yields_optList yields_typeParameters) fun types htypes =>
    .also yields_formalParameters fun parameters hparameters =>
    .nodes (continues_optList yields_returnClause) fun result hresult =>
    .done (hasRoles_append.mpr ⟨htypes.of_empty, hasRoles_append.mpr
      ⟨hparameters.mono (by simp), hresult.mono (by simp)⟩⟩) (by simp)

theorem ensures_callSignature : callSignature.Ensures (· ≠ []) :=
  .bind fun _ => .bind fun _ => .bind fun _ => .pure (by simp)

/-! ### Types -/

theorem looks_absent {α : Type} (rule : Rule α) : (absent rule).Looks := by
  intro env input a last hrun
  obtain ⟨_, between, hlook, hrest⟩ := bind_run.mp hrun
  obtain rfl := looks_looksAt rule env input _ between hlook
  exact looks_check _ env between a last hrest

theorem yields_importedType : importedType.Yields := by
  refine .node (yields_wordAs (by decide) (by decide)) fun word _ =>
    .node yields_arguments fun arguments _ => ?_
  refine .under .call [] [word.as .function, arguments.as .arguments] (Node.shaped_call rfl) ?_
    (by simp) (by decide) (by simp)
  exact continues_iterate (fun object _ => continues_plainMember object) (by simp)

theorem yields_typeQuery : typeQuery.Yields := by
  refine .node (yields_keyword (by decide)) fun word _ => .node (.orElse yields_importedType
    (.orElse (yields_wordAs (by decide) (by decide)) yields_identifier)) fun base hbase => ?_
  refine .last (continues_iterate (fun object _ => .orElse (continues_plainMember object)
    (.orElse ?_ ?_)) hbase) fun subject _ => ?_
  · exact .node (yields_punct (by decide)) fun _ hmark =>
      continues_member hmark (yields_anyWord (by decide)) (readsWord_anyWord (by decide))
  · exact .look looks_newlineAhead fun _ => .check fun _ =>
      .node (yields_punct (by decide)) fun opening _ => .look (looks_absent _) fun _ =>
      .node (yields_goal _) fun index _ => .node (yields_punct (by decide)) fun closing _ =>
      .plain (by simp) (by decide)
  · exact .nodes (yields_optList (.look looks_newlineAhead fun _ => .check fun _ =>
      yields_typeArguments)) fun types _ => .plain (by simp) (by decide)

theorem yields_namedType : namedType.Yields :=
  .node (yields_anyWord (by decide)) fun name _ =>
    .rows ∅ (continues_many (yields_marked (yields_punct (by decide)) (yields_anyWord (by decide))))
      fun segments _ => .nodes (yields_optList (.look looks_newlineAhead fun _ =>
    .check fun _ => yields_typeArguments)) fun types _ => .plain (by simp) (by decide)

theorem yields_signedNumber : signedNumber.Yields :=
  .node (.orElse (yields_punct (by decide)) (yields_punct (by decide))) fun sign _ =>
    .node yields_number fun number _ => .plain (by simp) (by decide)

theorem yields_tupleElement : tupleElement.Yields := by
  refine .nodes (yields_optList (yields_punct (by decide))) fun points _ => ?_
  refine .maybe ∅ (.node (yields_anyWord (by decide)) fun name hname =>
    .nodes (yields_optList (yields_punct (by decide))) fun mark hmark =>
    .node (yields_punct (by decide)) fun colon hcolon =>
    .done (by simp [hname, hmark, hcolon]) (by simp)) fun label _ => ?_
  exact .node (yields_goal _) fun type _ =>
    .nodes (yields_optList (yields_punct (by decide))) fun mark _ => .plain (by simp) (by decide)

theorem yields_memberEnd : memberEnd.YieldsAll ∅ :=
  .look (looks_nextIs _) fun _ => .ite (.node (yields_punct (by decide)) fun comma hcomma =>
    .done (by simp [hcomma]) rfl) (yields_semicolon _)

theorem yields_bracketedIndex : bracketedIndex.YieldsAll ∅ :=
  .node (yields_punct (by decide)) fun opening hopening =>
    .node (yields_anyWord (by decide)) fun name hname =>
    .node (.orElse (yields_punct (by decide)) (yields_keyword (by decide))) fun link hlink =>
    .node (yields_goal _) fun type htype =>
    .maybe _ (yields_marked (yields_keyword (by decide)) (yields_goal _)) fun renamed hrenamed =>
    .node (yields_punct (by decide)) fun closing hclosing =>
    .done (by simp [hopening, hname, hlink, htype, hrenamed, hclosing]) (by simp)

theorem yields_optionalMark : optionalMark.YieldsAll ∅ :=
  .nodes (yields_optList (.orElse (yields_punct (by decide)) (yields_punct (by decide))))
    fun sign hsign => .node (yields_punct (by decide)) fun mark hmark =>
    .done (by simp [hsign, hmark]) rfl

theorem ensures_bracketedIndex : bracketedIndex.Ensures (· ≠ []) :=
  .bind fun _ => .bind fun _ => .bind fun _ => .bind fun _ => .bind fun _ => .bind fun _ =>
    .pure (by simp)

theorem yields_indexSignature : indexSignature.Yields :=
  .nodes (yields_optList (.orElse (yields_punct (by decide)) (yields_punct (by decide))))
    fun sign _ => .nodes (yields_many (yields_oneOf (by decide))) fun modifiers _ =>
    .filled _ yields_bracketedIndex ensures_bracketedIndex fun index _ hindex =>
    .maybe _ yields_optionalMark fun mark _ =>
    .nodes (yields_optList yields_typeClause) fun type _ =>
    .plain ⟨by simp, by simp [hindex]⟩ (by decide)

theorem yields_namedTypeMember : namedTypeMember.Yields := by
  refine .nodes (yields_many (.node (yields_oneOf (by decide)) fun word hword =>
    .look looks_newlineAhead fun _ => .check fun _ => .look looks_ahead fun _ => .check fun _ =>
    .done (by simp [hword]) rfl)) fun modifiers _ => ?_
  exact .node yields_propertyName fun name _ => .maybe _ yields_optionalMark fun mark _ =>
    .maybe _ yields_callSignature fun signature _ =>
    .nodes (yields_optList yields_typeClause) fun type _ => .plain (by simp) (by decide)

theorem yields_typeMember : typeMember.Yields := by
  refine .orElse ?_ (.orElse ?_ (.orElse yields_indexSignature yields_namedTypeMember))
  · exact .nodes (yields_optList (yields_keyword (by decide))) fun word _ =>
      .node (yields_keyword (by decide)) fun new _ => .nodes yields_callSignature fun signature _ =>
      .plain (by simp) (by decide)
  · exact .filled _ yields_callSignature ensures_callSignature fun signature _ hsignature =>
      .plain ⟨by simp, hsignature⟩ (by decide)

theorem yields_objectType : objectType.Yields := by
  refine .node (yields_punct (by decide)) fun opening _ => ?_
  refine .rows ∅ (continues_many ?_) fun members _ => ?_
  · exact .nodes (yields_many (.orElse (yields_punct (by decide)) (yields_punct (by decide))))
      fun idle hidle => .node yields_typeMember fun member hmember =>
      .nodes yields_memberEnd fun ending hending =>
      .done (by simp [hidle, hmember, hending]) (by simp)
  · exact .nodes (yields_many (.orElse (yields_punct (by decide)) (yields_punct (by decide))))
      fun idle _ => .node (yields_punct (by decide)) fun closing _ => .plain (by simp) (by decide)

theorem yields_primaryType : primaryType.Yields := by
  refine .look looks_ahead fun cs => ?_
  split
  · exact .node (yields_punct (by decide)) fun opening _ => .node (yields_goal _) fun type _ =>
      .node (yields_punct (by decide)) fun closing _ => .plain (by simp) (by decide)
  · exact yields_objectType
  · exact yields_enclosed (yields_commaSeparated yields_tupleElement) (by decide) (by decide)
      (by decide)
  · exact yields_string
  · exact yields_string
  · exact yields_signedNumber
  · exact yields_signedNumber
  · exact yields_punct (by decide)
  · exact .node (yields_punct (by decide)) fun mark _ => .node (yields_goal _) fun type _ =>
      .plain (by simp) (by decide)
  · refine .ite (yields_templateOf (yields_goal _)) (.ite yields_number ?_)
    refine .look looks_nextWord fun word => ?_
    split
    · exact yields_typeQuery
    · exact yields_importedType
    · exact yields_wordAs (by decide) (by decide)
    · exact yields_namedType
  · exact .failure

theorem yields_postfixType : postfixType.Yields := by
  refine .node yields_primaryType fun base hbase => continues_iterate (fun type _ => ?_) hbase
  exact .look looks_newlineAhead fun _ => .check fun _ =>
    .node (yields_punct (by decide)) fun opening _ =>
    .nodes (yields_optList (yields_goal _)) fun index _ =>
    .node (yields_punct (by decide)) fun closing _ => .plain (by simp) (by decide)

theorem yields_operatorType : operatorType.Yields := by
  refine .nodes (yields_many (.node (yields_oneOf (by decide)) fun word hword =>
    .look looks_newlineAhead fun _ => .check fun _ => .look looks_ahead fun _ => .check fun _ =>
    .done (by simp [hword]) rfl)) fun operators _ => .node yields_postfixType fun type htype => ?_
  refine .maybe ∅ (.check fun _ => .node (yields_keyword (by decide)) fun word hword =>
    .node yields_postfixType fun type htype => .look (looks_absent _) fun _ =>
    .done (by simp [hword, htype]) rfl) fun bound _ => ?_
  split
  · next hnil =>
      refine .sublist [type] (.done (by simp [htype]) rfl) ?_
      simp
  · exact .plain (by simp) (by decide)

theorem yields_functionType : functionType.Yields := by
  refine .maybe ∅ (.nodes (yields_optList (yields_keyword (by decide))) fun word hword =>
    .node (yields_keyword (by decide)) fun new hnew =>
    .done (by simp [hword, hnew]) rfl) fun front _ => ?_
  exact .nodes (yields_optList yields_typeParameters) fun types _ =>
    .also yields_formalParameters fun parameters _ =>
    .node (yields_punct (by decide)) fun arrow _ =>
    .node (.orElse yields_predicate (yields_goal _)) fun result _ => .plain (by simp) (by decide)

theorem yields_unionType : unionType.Yields := by
  have hsign : (punct "|" <|> punct "&").Yields :=
    .orElse (yields_punct (by decide)) (yields_punct (by decide))
  have hpart : (functionType <|> operatorType).Yields :=
    .orElse yields_functionType yields_operatorType
  refine .nodes (yields_optList hsign) fun front _ => .node hpart fun first hfirst => ?_
  refine .rows ∅ (continues_many (yields_marked hsign hpart)) fun more _ => ?_
  split
  · refine .sublist [first] (.done (by simp [hfirst]) rfl) ?_
    simp
  · exact .plain (by simp) (by decide)

theorem yields_type : type.Yields := by
  refine .node (.orElse yields_functionType yields_unionType) fun first hfirst => ?_
  refine .maybe ∅ (.look looks_newlineAhead fun _ => .check fun _ =>
    .node (yields_keyword (by decide)) fun word hword => .node yields_unionType fun bound hbound =>
    .node (yields_punct (by decide)) fun mark hmark =>
    .node (yields_goal _) fun positive hpositive =>
    .node (yields_punct (by decide)) fun colon hcolon =>
    .node (yields_goal _) fun negative hnegative =>
    .done (by simp [hword, hbound, hmark, hpositive, hcolon, hnegative]) rfl) fun condition _ => ?_
  split
  · exact .done (by simp [hfirst]) rfl
  · exact .plain (by simp) (by decide)

end Rule
end Script
end NgIndex
