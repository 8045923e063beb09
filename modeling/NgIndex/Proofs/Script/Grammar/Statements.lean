import NgIndex.Proofs.Script.Grammar.Expressions
import NgIndex.Script.StatementRules

/-!
# Statements are read in order

The rules for imports and exports, for the bodies of classes and for statements read nodes one after
another and put them together in order.
-/

namespace NgIndex
namespace Script
namespace Rule

/-! ### Imports and exports -/

theorem continues_source : source.Continues [] {.source} fun node => [node] :=
  .node yields_string fun text _ => .done (by simp) rfl

theorem yields_fromClause : fromClause.YieldsAll {.source} :=
  .node (yields_keyword (by decide)) fun word hword => .also continues_source fun source hsource =>
    .done (by simpa [hword] using hsource) rfl

theorem yields_importAttributes : importAttributes.Yields :=
  .node (yields_oneOf (by decide)) fun word _ => .node yields_objectLiteral fun values _ =>
    .plain (by simp) (by decide)

theorem yields_exportedName : exportedName.Yields :=
  .orElse yields_string (yields_anyWord (by decide))

theorem readsWord_exportedName : exportedName.ReadsWord :=
  .orElse readsWord_string (readsWord_anyWord (by decide))

theorem yields_typeMark : typeMark.Yields :=
  .look looks_typed fun _ => .check fun _ => .node (yields_oneOf (by decide)) fun word hword =>
    .look looks_nextWord fun _ => .check fun _ => .look (looks_looksAt _) fun _ =>
    .look (looks_nextIs _) fun _ => .look (looks_nextIs _) fun _ => .check fun _ =>
    .done (by simp [hword]) rfl

/-- The names in a list of imports are words.  Those in a list of exports may be anything. -/
theorem yields_specifier {kind : Kind} (hkind : kind.isSimple = true)
    (hadmits : ∀ nodes, Kind.importSpecifier.AdmitsAll nodes → kind.AdmitsAll nodes) :
    (specifier kind).Yields := by
  have hother : (do return [← keyword "as", (← exportedName).as .newName] :
      Rule (List Node)).YieldsAll {.newName} :=
    .node (yields_keyword (by decide)) fun word hword => .node yields_exportedName fun name _ =>
      .done (by simp [hword]) rfl
  have hwords : (do return [← keyword "as", (← exportedName).as .newName] :
      Rule (List Node)).Ensures Kind.importSpecifier.AdmitsAll := by
    refine .after (yields_keyword (by decide)).ensures fun word hword =>
      .after readsWord_exportedName fun name hname => .pure ?_
    simp [hasRoles_empty_singleton.mp hword, hname, Kind.admits]
  refine .nodes (yields_optList yields_typeMark) fun mark hmark =>
    .nodeOf yields_exportedName readsWord_exportedName fun name _ hname =>
    .maybeOf hother hwords fun other _ hmore => .simple (by simp) hkind (hadmits _ ?_)
  have hfront : Kind.importSpecifier.AdmitsAll mark := hmark.admitsAll (fun _ => rfl) (by simp)
  have hrest : Kind.importSpecifier.AdmitsAll (other.getD []) := by
    cases other with
    | none => exact Kind.admitsAll_nil
    | some nodes => exact hmore nodes rfl
  simpa [hfront, hname, Kind.admits] using hrest

theorem yields_namedImports : namedImports.Yields :=
  yields_enclosed (yields_commaSeparated (yields_specifier (by decide) fun _ h => h)) (by decide)
    (by decide) (by decide)

theorem yields_namespaceImport : namespaceImport.Yields :=
  .nodeOf (yields_punct (by decide)) (ensures_punct _) fun star hstar hsign =>
    .nodeOf (yields_keyword (by decide)) (ensures_keyword _) fun word hword has =>
    .nodeOf yields_identifier readsWord_identifier fun name hname hidentifier =>
    .simple (by simp) (by decide)
      (by simp [hstar, hsign, hword, has, hname, hidentifier, Kind.admits, Kind.isLeaf])

theorem yields_importClause : importClause.Yields := by
  have hseveral : (namespaceImport <|> namedImports).Yields :=
    .orElse yields_namespaceImport yields_namedImports
  refine .filled ∅ (.orElse ?_ ?_) (.orElse ?_ ?_) fun parts _ hparts =>
    .plain ⟨by simp, by simpa using hparts⟩ (by decide)
  · exact .node hseveral fun names hnames => .done (by simp [hnames]) rfl
  · exact .node yields_identifier fun name hname =>
      .maybe ∅ (yields_marked (yields_punct (by decide)) hseveral) fun more hmore =>
      .done (by simp [hname, hmore]) (by simp)
  · exact .bind fun _ => .pure (by simp)
  · exact .bind fun _ => .bind fun _ => .pure (by simp)

theorem yields_importRequire : importRequire.Yields :=
  .look looks_typed fun _ => .check fun _ => .node yields_identifier fun name _ =>
    .node (yields_punct (by decide)) fun sign _ => .node (yields_keyword (by decide)) fun word _ =>
    .node (yields_punct (by decide)) fun opening _ => .also continues_source fun source _ =>
    .node (yields_punct (by decide)) fun closing _ => .plain (by simp) (by decide)

theorem yields_qualifiedName : qualifiedName.Yields :=
  .node yields_identifier fun _ hname =>
    continues_iterate (fun object _ => continues_plainMember object) hname

theorem yields_importAlias : importAlias.Yields :=
  .look looks_typed fun _ => .check fun _ => .node (yields_keyword (by decide)) fun word _ =>
    .node yields_identifier fun name _ => .node (yields_punct (by decide)) fun sign _ =>
    .node yields_qualifiedName fun value _ => .nodes (yields_semicolon _) fun ending _ =>
    .plain (by simp) (by decide)

/-- What an import takes and where from. -/
theorem yields_imported :
    ((do return (← importClause) :: (← fromClause)) <|> (do return [← importRequire]) <|>
      (do return [← source]) : Rule (List Node)).YieldsAll Set.univ :=
  .orElse (.node yields_importClause fun _ _ => .nodes yields_fromClause fun _ _ =>
      .done .univ rfl)
    (.orElse (.node yields_importRequire fun _ _ => .done .univ rfl)
      (.also continues_source fun _ _ => .done .univ rfl))

theorem yields_importStatement : importStatement.Yields := by
  refine .node (yields_keyword (by decide)) fun word _ => ?_
  refine .nodes (.orElse (.node yields_typeMark fun mark _ =>
    .nodes yields_imported fun content _ => .done .univ rfl) yields_imported) fun content _ => ?_
  exact .nodes (yields_optList yields_importAttributes) fun attributes _ =>
    .nodes (yields_semicolon _) fun ending _ => .plain (by simp) (by decide)

theorem yields_exportClause : exportClause.Yields :=
  yields_enclosed (yields_commaSeparated (yields_specifier (by decide) fun nodes _ =>
    Kind.admitsAll_of_isPlain rfl nodes)) (by decide) (by decide) (by decide)

theorem yields_exportList : exportList.YieldsAll {.source} := by
  refine .nodes (yields_optList yields_typeMark) fun mark hmark => ?_
  refine .nodes (Continues.orElse ?_ (.orElse ?_ ?_) : Rule.YieldsAll {.source} _)
    fun content hcontent => .nodes (yields_optList yields_importAttributes)
    fun attributes hattributes => .nodes (yields_semicolon _) fun ending hending =>
    .done (by simp [hmark.of_empty, hcontent, hattributes.of_empty, hending.of_empty]) (by simp)
  · exact .node (yields_punct (by decide)) fun star hstar => .nodes yields_fromClause
      fun source hsource => .done (by simpa [hstar] using hsource) rfl
  · refine .node (yields_punct (by decide)) fun star _ =>
      .node (yields_keyword (by decide)) fun word _ => .node yields_exportedName fun name _ => ?_
    exact .gather .namespaceExport [] [star, word, name] (.nodes yields_fromClause
      fun source hsource => .done (by simpa using hsource) rfl) (by simp) (by decide) (by simp)
  · exact .node yields_exportClause fun clause hclause => .maybe _ yields_fromClause
      fun source hsource => .done (by simpa [hclause] using hsource) (by simp)

/-! ### Bodies of classes -/

theorem looks_modifies : modifies.Looks := by
  intro env input a last h
  obtain ⟨cs, _, hahead, hrest⟩ := bind_run.mp h
  obtain rfl := looks_ahead env input cs _ hahead
  exact (looks_newlineAhead.map _) env _ a last hrest

/-- A node that is taken only before what it modifies. -/
theorem yields_modifier {rule : Rule Node} (h : rule.Yields) :
    (do let word ← rule; check (← modifies); return word : Rule Node).Yields :=
  .node h fun word hword => .look looks_modifies fun _ => .check fun _ =>
    .done (by simp [hword]) rfl

theorem yields_memberModifier : memberModifier.Yields := by
  refine .look looks_nextWord fun word => ?_
  dsimp only
  split
  · next hword => 
      refine yields_modifier (yields_wordAs (by decide) fun heq => ?_)
      rw [heq] at hword
      exact absurd hword (by decide)
  split
  · next hword => 
      refine yields_modifier (yields_wordAs (by decide) fun heq => ?_)
      rw [heq] at hword
      exact absurd hword (by decide)
  · exact yields_modifier (yields_oneOf (by decide))

theorem yields_plainModifier : plainModifier.Yields := by
  refine .orElse ?_ (yields_modifier (yields_oneOf (by decide)))
  refine yields_skip_leaf .token (.inr rfl) fun cs env input node last hrun => ?_
  obtain ⟨_, middle, hstatic, hmiddle⟩ := bind_run.mp hrun
  obtain ⟨_, between, hget, hbetween⟩ := bind_run.mp hmiddle
  obtain ⟨_, place, hline, hrest⟩ := bind_run.mp hbetween
  obtain rfl := looks_check _ env input _ middle hstatic
  obtain rfl := looks_check _ env middle _ between hget
  obtain rfl := looks_check _ env between _ place hline
  refine ⟨?_, _, by omega, hrest⟩
  rintro rfl
  cases hstatic

theorem yields_staticBlock : staticBlock.Yields :=
  .node (yields_keyword (by decide)) fun word _ => .also yields_functionBody fun body _ =>
    .plain (by simp) (by decide)

theorem yields_plainMemberOfClass : plainMemberOfClass.YieldsAll Set.univ := by
  refine .nodes (yields_many yields_decorator) fun decorators hdecorators =>
    .nodes (yields_many yields_plainModifier) fun modifiers hmodifiers =>
    .nodes (yields_optList (yields_punct (by decide))) fun star hstar =>
    .nodeOf yields_propertyName ensures_propertyName fun name _ hname => .orElse ?_ ?_
  · refine .also yields_formalParameters fun parameters hparameters => .also yields_functionBody
      fun body hbody => ?_
    have hfront : HasRoles ∅ (decorators ++ modifiers ++ star) := by
      simp [hdecorators, hmodifiers, hstar]
    have hsignature : HasRoles {.parameters, .returnType} [parameters] :=
      hparameters.mono (by simp)
    exact .collect .method [] (decorators ++ modifiers ++ star ++ [name.as .name, parameters, body])
      (.done .univ rfl) (by simp) (by decide)
      (admitsAll_method hfront hname (hasRoles_definition hsignature hbody)) (by simp)
  · refine .maybe _ yields_initializer fun value _ => ?_
    -- A field has no star; if there is one, it gets lost.
    refine .sublist (decorators ++ modifiers ++ [name] ++ value.getD []) ?_ (by simp)
    exact .gather .field [] (decorators ++ modifiers ++ name.as .property :: value.getD [])
      (.nodes (yields_semicolon _) fun ending _ => .done .univ rfl) (by simp) (by decide) (by simp)

theorem yields_bodilessEnd (operand : Bool) : (bodilessEnd operand).YieldsAll ∅ := by
  refine .look (looks_nextIs _) fun next => ?_
  split
  · exact .node (yields_punct (by decide)) fun comma hcomma => .done (by simp [hcomma]) rfl
  · exact yields_semicolon operand

theorem yields_typedMemberOfClass : typedMemberOfClass.YieldsAll Set.univ := by
  refine .nodes (yields_many yields_decorator) fun decorators _ =>
    .nodes (yields_many yields_memberModifier) fun modifiers hmodifiers =>
    .nodes (yields_optList (yields_punct (by decide))) fun star hstar => .orElse ?_ ?_
  · refine .filled _ yields_bracketedIndex ensures_bracketedIndex fun index _ hindex =>
      .maybe _ yields_optionalMark fun mark _ => .nodes (yields_optList yields_typeClause)
      fun type _ => ?_
    -- Nor has an index signature.
    refine .sublist (decorators ++ (modifiers ++ index ++ mark.getD [] ++ type)) ?_ ?_
    · exact .gather .indexSignature decorators (modifiers ++ index ++ mark.getD [] ++ type)
        (.nodes (yields_bodilessEnd _) fun ending _ => .done .univ (by simp))
        (by simp) (by decide) (by simp [hindex])
    · simp
  refine .nodeOf yields_propertyName ensures_propertyName fun name _ hname =>
    .nodes (yields_optList (.orElse (yields_punct (by decide)) (yields_punct (by decide))))
      fun mark hmark => .orElse ?_ ?_
  · refine .nodes yields_callSignature fun signature hsignature => ?_
    -- The decorators of a method stand before it.
    refine .sublist (decorators ++ (modifiers ++ star ++ name :: mark ++ signature)) ?_ (by simp)
    refine .bind (Continues.orElse ?_ ?_ : Rule.Continues _ Set.univ id _) fun parts _ =>
      .done .univ rfl
    · refine .also yields_functionBody fun body hbody => ?_
      have hfront : HasRoles ∅ (modifiers ++ star) := by simp [hmodifiers, hstar]
      have hrest := hasRoles_append.mpr ⟨hmark.of_empty, hasRoles_definition hsignature hbody⟩
      exact .collect .method [] (modifiers ++ star ++ name.as .name :: mark ++ signature ++ [body])
        (.done .univ rfl) (by simp) (by decide)
        (by simpa using admitsAll_method hfront hname hrest) (by simp)
    · exact .gather .methodSignature [] (modifiers ++ star ++ name.as .name :: mark ++ signature)
        (.nodes (yields_bodilessEnd _) fun ending _ => .done .univ rfl) (by simp) (by decide)
        (by simp)
  · refine .nodes (yields_optList yields_typeClause) fun type _ =>
      .maybe _ yields_initializer fun value _ => ?_
    exact .gather .field [] (decorators ++ (modifiers ++ star ++ name.as .name :: mark) ++
      type.map (·.as .type) ++ value.getD [])
      (.nodes (yields_bodilessEnd _) fun ending _ => .done .univ rfl) (by simp) (by decide)
      (by simp)

theorem yields_classBody : classBody.Yields := by
  refine .node (yields_punct (by decide)) fun opening _ => .look looks_typed fun typed => ?_
  refine .rows Set.univ (continues_many (.orElse ?_ (.orElse ?_ ?_))) fun members _ =>
    .node (yields_punct (by decide)) fun closing _ => .plain (by simp) (by decide)
  · exact .node (yields_punct (by decide)) fun _ _ => .done .univ rfl
  · exact .node yields_staticBlock fun _ _ => .done .univ rfl
  · exact .ite yields_typedMemberOfClass yields_plainMemberOfClass

/-! ### Declarations -/

theorem yields_block : block.Yields :=
  .nodeOf (yields_punct (by decide)) (ensures_punct _) fun opening _ hopening =>
    .nodes (yields_many (yields_goal _)) fun statements _ =>
    .node (yields_punct (by decide)) fun closing _ =>
    .branch (Node.shaped_block hopening) (by simp) (by decide)

theorem yields_declarator : declarator.Yields := by
  refine .node (yields_goal _) fun name _ => .nodes (yields_optList ?_) fun mark _ =>
    .nodes (yields_optList yields_typeClause) fun type _ => .maybe _ yields_initializer
    fun value _ => .plain (by simp) (by decide)
  exact .look looks_typed fun _ => .check fun _ => yields_punct (by decide)

theorem continues_variableList : variableList.Continues [] ∅ Prod.snd :=
  .look looks_nextWord fun _ => .node (yields_oneOf (by decide)) fun word hword =>
    .nodes (yields_commaSeparated1 yields_declarator) fun declarators hdeclarators =>
    .done (by simp [hword, hdeclarators]) rfl

theorem ensures_variableList :
    variableList.Ensures fun found => found.1.isPlain = true ∧ found.2 ≠ [] := by
  refine .bind fun word => .bind fun _ => .bind fun _ => .pure ⟨?_, by simp⟩
  dsimp only
  split <;> decide

theorem yields_variableDeclaration : variableDeclaration.Yields :=
  .bindOf continues_variableList ensures_variableList fun _ _ hfound =>
    .nodes (yields_semicolon _) fun ending _ => .plain ⟨by simp, by simp [hfound.2]⟩ hfound.1

theorem yields_functionDeclaration : functionDeclaration.Yields := by
  refine .nodes (yields_optList yields_asyncWord) fun async hasync =>
    .node (yields_keyword (by decide)) fun word hword =>
    .nodes (yields_optList (yields_punct (by decide))) fun star hstar =>
    .node yields_identifier fun name _ => .nodes yields_callSignature fun signature hsignature =>
    .orElse ?_ ?_
  · refine .also yields_functionBody fun body hbody => ?_
    refine .definition ?_ ?_ (fun _ _ => ?_) (by simp)
    · split <;> rfl
    · have hdefinition : HasRoles {.value}ᶜ (signature ++ [body]) :=
        (hasRoles_definition hsignature hbody).mono (by rintro _ (rfl | rfl | rfl) <;> simp)
      simpa [hasync.of_empty, hword, hstar.of_empty] using hdefinition
    · split <;> rfl
  · exact .look looks_typed fun _ => .check fun _ => .nodes (yields_semicolon _) fun ending _ =>
      .plain (by simp) (by decide)

theorem continues_classDeclarationWith {decorators : List Node} (h : HasRoles ∅ decorators) :
    (classDeclarationWith decorators).Continues decorators ∅ fun node => [node] := by
  refine .nodes (yields_optList (.look looks_typed fun _ =>
    .check fun _ => yields_keyword (by decide))) fun mark hmark =>
    .node (yields_keyword (by decide)) fun word hword =>
    .nodeOf yields_identifier readsWord_identifier fun name _ hname =>
    .nodes yields_classTail fun tail htail => ?_
  have hvalue : HasRoles {.value}ᶜ tail := htail.mono (by simp)
  have hfront : HasRoles ∅ (decorators ++ mark ++ [word]) := by simp [h, hmark, hword]
  have hnames : ∀ node ∈ [name], node.kind.isWord = true := by simpa using hname
  have hadmits {kind : Kind}
      (hkind : kind ∈ [.classDeclaration, .abstractClassDeclaration, .classExpression]) :
      kind.AdmitsAll (decorators ++ mark ++ word :: name.as .name :: tail) := by
    simpa using admitsAll_class hkind hfront hnames htail
  refine .definition ?_ ?_ (hadmits ?_) (by simp)
  · split <;> rfl
  · simp [h.of_empty, hmark.of_empty, hword, hvalue]
  · split <;> simp

theorem yields_classDeclaration : classDeclaration.Yields :=
  .nodes (yields_many yields_decorator) fun _ h => continues_classDeclarationWith h

theorem yields_enumMember : enumMember.Yields :=
  .node yields_propertyName fun name _ => .maybe _ yields_initializer fun value _ =>
    .plain (by simp) (by decide)

theorem yields_enumDeclaration : enumDeclaration.Yields := by
  refine .nodes (yields_optList (yields_keyword (by decide))) fun mark _ =>
    .node (yields_keyword (by decide)) fun word _ => .node yields_identifier fun name _ =>
    .node (yields_punct (by decide)) fun opening _ =>
    .nodes (yields_commaSeparated yields_enumMember) fun members _ =>
    .node (yields_punct (by decide)) fun closing _ => ?_
  exact .gather .enumBody (mark ++ [word, name]) (opening :: members ++ [closing])
    (.plain (by simp) (by decide)) (by simp) (by decide) (by simp)

theorem yields_interfaceDeclaration : interfaceDeclaration.Yields := by
  refine .node (yields_keyword (by decide)) fun word _ => .node yields_identifier fun name _ =>
    .nodes (yields_optList yields_typeParameters) fun types _ => .maybe ∅ ?_ fun bases _ =>
    .node yields_objectType fun body _ => .plain (by simp) (by decide)
  exact .node (yields_keyword (by decide)) fun word hword =>
    .nodes (yields_commaSeparated1 (yields_goal _)) fun bases hbases =>
    .done (by simp [hword, hbases]) rfl

theorem yields_typeAlias : typeAlias.Yields :=
  .node (yields_keyword (by decide)) fun word _ => .node yields_identifier fun name _ =>
    .nodes (yields_optList yields_typeParameters) fun types _ =>
    .node (yields_punct (by decide)) fun sign _ => .node (yields_goal _) fun value _ =>
    .nodes (yields_semicolon _) fun ending _ => .plain (by simp) (by decide)

theorem yields_namespaceBlock : namespaceBlock.Yields :=
  .node (yields_keyword (by decide)) fun word _ => .look looks_newlineAhead fun _ => .check fun _ =>
    .node yields_qualifiedName fun name _ => .also yields_functionBody fun body _ =>
    .plain (by simp) (by decide)

theorem yields_moduleBlock : moduleBlock.Yields := by
  refine .node (yields_keyword (by decide)) fun word _ => .look looks_newlineAhead fun _ =>
    .check fun _ => .node (.orElse yields_string yields_qualifiedName) fun name _ =>
    .nodes (continues_optList yields_functionBody) fun body _ => ?_
  split
  · exact .nodes (yields_semicolon _) fun ending _ => .plain (by simp) (by decide)
  · exact .plain (by simp) (by decide)

theorem yields_ownDeclaration : ownDeclaration.Yields := by
  refine .look looks_typed fun typed => .look looks_nextWord fun word => ?_
  split
  · exact yields_variableDeclaration
  · exact yields_variableDeclaration
  · exact .orElse (.check fun _ => yields_enumDeclaration) yields_variableDeclaration
  · exact yields_functionDeclaration
  · exact yields_functionDeclaration
  · exact yields_classDeclaration
  · refine .look (looks_nextIs _) fun next => .ite yields_classDeclaration (.check fun _ => ?_)
    split
    · exact yields_classDeclaration
    · exact yields_enumDeclaration
    · exact yields_interfaceDeclaration
    · exact yields_typeAlias
    · exact yields_namespaceBlock
    · exact yields_moduleBlock
    · exact yields_importAlias
    · exact .failure

theorem yields_ambient : ambient.Yields := by
  refine .look looks_typed fun _ => .check fun _ => .node (yields_keyword (by decide)) fun word _ =>
    .look looks_newlineAhead fun _ => .check fun _ => .node (.orElse ?_ yields_ownDeclaration)
    fun declared _ => .plain (by simp) (by decide)
  exact .node (yields_keyword (by decide)) fun name _ => .also yields_functionBody fun body _ =>
    .plain (by simp) (by decide)

theorem yields_declaration : declaration.Yields :=
  .look looks_nextWord fun _ => .ite yields_ambient yields_ownDeclaration

/-! ### Exports -/

theorem ensures_variableDeclaration :
    variableDeclaration.Ensures fun node => node.kind.isDeclaration = true := by
  refine .after (Q := fun found => found.1.isDeclaration = true) ?_ fun found hkind =>
    .bind fun ending => .pure hkind
  refine .bind fun word => .bind fun _ => .bind fun _ => .pure ?_
  dsimp only
  split <;> decide

theorem ensures_functionDeclaration :
    functionDeclaration.Ensures fun node => node.kind.isDeclaration = true := by
  refine .bind fun async => .bind fun word => .bind fun star => .bind fun name =>
    .bind fun signature => .orElse ?_ ?_
  · refine .bind fun body => .pure ?_
    show (if star.isEmpty then Kind.functionDeclaration else .generatorDeclaration).isDeclaration
    split <;> decide
  · exact .bind fun _ => .bind fun _ => .bind fun ending => .pure rfl

theorem ensures_classDeclaration :
    classDeclaration.Ensures fun node => node.kind.isDeclaration = true := by
  refine .bind fun decorators => .bind fun mark => .bind fun word => .bind fun name =>
    .bind fun tail => .pure ?_
  show (if mark.isEmpty then Kind.classDeclaration else .abstractClassDeclaration).isDeclaration
  split <;> decide

theorem ensures_enumDeclaration :
    enumDeclaration.Ensures fun node => node.kind.isDeclaration = true :=
  .bind fun _ => .bind fun _ => .bind fun _ => .bind fun _ => .bind fun _ => .bind fun _ => .pure rfl

theorem ensures_interfaceDeclaration :
    interfaceDeclaration.Ensures fun node => node.kind.isDeclaration = true :=
  .bind fun _ => .bind fun _ => .bind fun _ => .bind fun _ => .bind fun _ => .pure rfl

theorem ensures_typeAlias : typeAlias.Ensures fun node => node.kind.isDeclaration = true :=
  .bind fun _ => .bind fun _ => .bind fun _ => .bind fun _ => .bind fun _ => .bind fun _ => .pure rfl

theorem ensures_namespaceBlock :
    namespaceBlock.Ensures fun node => node.kind.isDeclaration = true :=
  .bind fun _ => .bind fun _ => .bind fun _ => .bind fun _ => .bind fun _ => .pure rfl

theorem ensures_moduleBlock : moduleBlock.Ensures fun node => node.kind.isDeclaration = true := by
  refine .bind fun _ => .bind fun _ => .bind fun _ => .bind fun _ => .bind fun body => ?_
  split
  · exact .bind fun _ => .pure rfl
  · exact .pure rfl

theorem ensures_importAlias : importAlias.Ensures fun node => node.kind.isDeclaration = true :=
  .bind fun _ => .bind fun _ => .bind fun _ => .bind fun _ => .bind fun _ => .bind fun _ =>
    .bind fun _ => .pure rfl

theorem ensures_ownDeclaration :
    ownDeclaration.Ensures fun node => node.kind.isDeclaration = true := by
  refine .bind fun typed => .bind fun word => ?_
  split
  · exact ensures_variableDeclaration
  · exact ensures_variableDeclaration
  · exact .orElse (.bind fun _ => ensures_enumDeclaration) ensures_variableDeclaration
  · exact ensures_functionDeclaration
  · exact ensures_functionDeclaration
  · exact ensures_classDeclaration
  · refine .bind fun next => .ite ensures_classDeclaration (.bind fun _ => ?_)
    split
    · exact ensures_classDeclaration
    · exact ensures_enumDeclaration
    · exact ensures_interfaceDeclaration
    · exact ensures_typeAlias
    · exact ensures_namespaceBlock
    · exact ensures_moduleBlock
    · exact ensures_importAlias
    · exact .failure

/-- What an export statement declares is a declaration. -/
theorem ensures_declaration : declaration.Ensures fun node => node.kind.isDeclaration = true := by
  refine .bind fun word => .ite ?_ ensures_ownDeclaration
  exact .bind fun _ => .bind fun _ => .bind fun _ => .bind fun _ => .bind fun _ => .bind fun _ =>
    .pure rfl

theorem admitsAll_export {fields : Set Field} {nodes : List Node} (h : HasRoles fields nodes)
    (hfields : .declaration ∉ fields) : Kind.exportStatement.AdmitsAll nodes := by
  refine h.admitsAll (fun _ => rfl) fun field hfield child => ?_
  have hne : field ≠ .declaration := fun heq => hfields (heq ▸ hfield)
  unfold Kind.admits
  split
  all_goals simp_all

theorem yields_exportDefault : exportDefault.YieldsAll Set.univ := by
  refine .node (yields_keyword (by decide)) fun word _ => .orElse ?_ ?_
  · exact .node yields_declaration fun _ _ => .done .univ rfl
  · exact .node (yields_goal _) fun _ _ => .nodes (yields_semicolon _) fun _ _ => .done .univ rfl

theorem ensures_exportDefault : exportDefault.Ensures Kind.exportStatement.AdmitsAll := by
  have hword : (keyword "default").Yields := yields_keyword (by decide)
  refine .after hword.ensures fun word hword => .orElse ?_ ?_
  · refine .after ensures_declaration fun node hnode => .pure ?_
    simp [hasRoles_empty_singleton.mp hword, Kind.admits, hnode]
  · refine .after (yields_goal .single).ensures fun value _ =>
      .after (yields_semicolon true).ensures fun ending hending => .pure ?_
    have hending : HasRoles {.value} ending := HasRoles.of_empty hending
    have hroles : HasRoles {.value} (word :: value.as .value :: ending) := by
      simpa [hasRoles_empty_singleton.mp hword] using hending
    exact admitsAll_export hroles (by simp)

theorem yields_exportAssignment : exportAssignment.YieldsAll ∅ := by
  refine .look looks_typed fun _ => .check fun _ => .orElse ?_ ?_
  · exact .node (yields_punct (by decide)) fun _ hsign => .node (yields_goal _) fun _ hvalue =>
      .nodes (yields_semicolon _) fun _ hending =>
      .done (by simp [hsign, hvalue, hending]) rfl
  · exact .node (yields_keyword (by decide)) fun _ hword =>
      .node (yields_keyword (by decide)) fun _ hsecond => .node yields_identifier fun _ hname =>
      .nodes (yields_semicolon _) fun _ hending =>
      .done (by simp [hword, hsecond, hname, hending]) rfl

theorem continues_exportStatementWith {decorators : List Node} (h : HasRoles ∅ decorators) :
    (exportStatementWith decorators).Continues decorators ∅ fun node => [node] := by
  refine .node (yields_keyword (by decide)) fun word hword => .bindOf
    (P := Kind.exportStatement.AdmitsAll)
    (.orElse yields_exportDefault (.orElse (yields_exportAssignment.mono (Set.subset_univ _))
      (.orElse (yields_exportList.mono (Set.subset_univ _)) ?_)))
    (.orElse ensures_exportDefault (.orElse ?_ (.orElse ?_ ?_))) fun content _ hcontent => ?_
  · exact .node yields_declaration fun _ _ => .done .univ rfl
  · exact yields_exportAssignment.ensures.mono fun _ h => admitsAll_export h (by simp)
  · exact yields_exportList.ensures.mono fun _ h => admitsAll_export h (by simp)
  · exact .after ensures_declaration fun node hnode => .pure (by simp [Kind.admits, hnode])
  · have hfront := admitsAll_export h (by simp)
    exact .simple (by simp) (by decide) (by simp [hfront, hword, hcontent, Kind.admits])

/-! ### Control flow -/

theorem continues_bodyStatement : bodyStatement.Continues [] {.body} fun node => [node] :=
  .node (yields_goal _) fun body _ => .done (by simp) rfl

theorem yields_ifStatement : ifStatement.Yields := by
  refine .node (yields_keyword (by decide)) fun word _ => .node yields_parenthesized fun test _ =>
    .node (yields_goal _) fun positive _ => .nodes (yields_optList ?_) fun other _ =>
    .plain (by simp) (by decide)
  exact .node (yields_keyword (by decide)) fun word _ => .node (yields_goal _) fun negative _ =>
    .plain (by simp) (by decide)

theorem yields_switchCase : switchCase.Yields := by
  refine .nodes (Continues.orElse ?_ ?_ : Rule.YieldsAll ∅ _) fun front _ =>
    .node (yields_punct (by decide)) fun colon _ =>
    .nodes (yields_many (yields_goal _)) fun statements _ => .plain (by simp) (by decide)
  · exact yields_marked (yields_keyword (by decide)) (yields_goal _)
  · exact .node (yields_keyword (by decide)) fun word hword => .done (by simp [hword]) rfl

theorem yields_switchStatement : switchStatement.Yields := by
  refine .node (yields_keyword (by decide)) fun word _ => .node yields_parenthesized fun value _ =>
    .node (yields_punct (by decide)) fun opening _ =>
    .nodes (yields_many yields_switchCase) fun cases _ =>
    .node (yields_punct (by decide)) fun closing _ => ?_
  exact .gather .switchBody [word, value] (opening :: cases ++ [closing])
    (.plain (by simp) (by decide)) (by simp) (by decide) (by simp)

theorem yields_emptyStatement : emptyStatement.Yields :=
  .node (yields_punct (by decide)) fun sign _ => .plain (by simp) (by decide)

theorem yields_forInHead : forInHead.YieldsAll Set.univ := by
  refine .nodes (Continues.orElse ?_ ?_ : Rule.YieldsAll Set.univ _) fun front _ =>
    .node (yields_oneOf (by decide)) fun word _ => .node (yields_goal _) fun value _ =>
    .done .univ (by simp)
  · exact .node (yields_oneOf (by decide)) fun _ _ => .node (yields_goal _) fun _ _ =>
      .done .univ rfl
  · exact .node (yields_goal _) fun _ _ => .assignable (.done .univ rfl)

theorem yields_forHead : forHead.YieldsAll ∅ := by
  have hempty : (do return [← emptyStatement] : Rule (List Node)).YieldsAll ∅ :=
    .node yields_emptyStatement fun sign hsign => .done (by simp [hsign]) rfl
  have hsign : (punct ";").Yields := yields_punct (by decide)
  have hvalued := yields_marked (yields_goal .expression) hsign
  refine .nodes (.orElse hempty (.orElse ?_ hvalued)) fun start hstart =>
    .nodes (.orElse hempty hvalued) fun test htest => .nodes (yields_optList (yields_goal _))
    fun step hstep => .done (by simp [hstart, htest, hstep]) (by simp)
  exact .bindOf continues_variableList ensures_variableList fun found _ hfound =>
    .node (yields_punct (by decide)) fun ending _ => .gather found.1 [] (found.2 ++ [ending])
      (.done (by simp) rfl) (by simp) hfound.1 (by simp)

theorem yields_forStatement : forStatement.Yields := by
  refine .node (yields_keyword (by decide)) fun word _ =>
    .nodes (yields_optList (yields_keyword (by decide))) fun wait _ =>
    .node (yields_punct (by decide)) fun opening _ => .orElse ?_ ?_
  · exact .nodes yields_forInHead fun head _ => .node (yields_punct (by decide)) fun closing _ =>
      .also continues_bodyStatement fun body _ => .plain (by simp) (by decide)
  · exact .nodes yields_forHead fun head _ => .node (yields_punct (by decide)) fun closing _ =>
      .also continues_bodyStatement fun body _ => .plain (by simp) (by decide)

theorem yields_whileStatement : whileStatement.Yields :=
  .node (yields_keyword (by decide)) fun word _ => .node yields_parenthesized fun test _ =>
    .also continues_bodyStatement fun body _ => .plain (by simp) (by decide)

theorem yields_doStatement : doStatement.Yields :=
  .node (yields_keyword (by decide)) fun word _ => .also continues_bodyStatement fun body _ =>
    .node (yields_keyword (by decide)) fun next _ => .node yields_parenthesized fun test _ =>
    .nodes (yields_optList (yields_punct (by decide))) fun ending _ => .plain (by simp) (by decide)

theorem yields_catchClause : catchClause.Yields := by
  refine .node (yields_keyword (by decide)) fun word _ => .maybe Set.univ ?_ fun caught _ =>
    .also yields_functionBody fun body _ => .plain (by simp) (by decide)
  exact .node (yields_punct (by decide)) fun _ _ => .node (yields_goal _) fun _ _ =>
    .nodes (yields_optList yields_typeClause) fun _ _ => .node (yields_punct (by decide)) fun _ _ =>
    .done .univ rfl

theorem yields_tryStatement : tryStatement.Yields := by
  refine .node (yields_keyword (by decide)) fun word _ => .also yields_functionBody fun body _ =>
    .nodes (yields_optList yields_catchClause) fun caught _ => .nodes (yields_optList ?_)
    fun last _ => .plain (by simp) (by decide)
  exact .node (yields_keyword (by decide)) fun word _ => .also yields_functionBody fun body _ =>
    .plain (by simp) (by decide)

theorem yields_withStatement : withStatement.Yields :=
  .node (yields_keyword (by decide)) fun word _ => .node yields_parenthesized fun object _ =>
    .also continues_bodyStatement fun body _ => .plain (by simp) (by decide)

theorem looks_atEnd : atEnd.Looks := by
  intro env input a last h
  obtain ⟨next, _, hnext, hrest⟩ := bind_run.mp h
  obtain rfl := looks_nextIs _ env input next _ hnext
  obtain ⟨-, rfl⟩ := Prod.mk.inj (Option.some.inj hrest)
  rfl

theorem yields_jumpStatement : jumpStatement.Yields := by
  refine .node (yields_oneOf (by decide)) fun word _ => .look looks_atEnd fun ends => ?_
  split
  · exact .nodes (Continues.done hasRoles_nil rfl : Rule.YieldsAll ∅ _) fun label _ =>
      .nodes (yields_semicolon _) fun ending _ => .plain (by simp) (by decide)
  · exact .nodes (yields_optList yields_identifier) fun label _ =>
      .nodes (yields_semicolon _) fun ending _ => .plain (by simp) (by decide)

theorem yields_returnStatement : returnStatement.Yields := by
  refine .node (yields_keyword (by decide)) fun word _ => .look looks_atEnd fun ends => ?_
  split
  · exact .nodes (yields_semicolon _) fun ending _ => .plain (by simp) (by decide)
  · exact .node (yields_goal _) fun value _ => .nodes (yields_semicolon _) fun ending _ =>
      .plain (by simp) (by decide)

theorem yields_throwStatement : throwStatement.Yields :=
  .node (yields_keyword (by decide)) fun word _ => .node (yields_goal _) fun value _ =>
    .nodes (yields_semicolon _) fun ending _ => .plain (by simp) (by decide)

theorem yields_labeledStatement : labeledStatement.Yields :=
  .node yields_identifier fun label _ => .node (yields_punct (by decide)) fun colon _ =>
    .also continues_bodyStatement fun body _ => .plain (by simp) (by decide)

theorem yields_expressionStatement : expressionStatement.Yields := by
  refine .orElse ?_ ?_
  · exact .look looks_typed fun _ => .check fun _ => .node yields_namespaceBlock fun block _ =>
      .plain (by simp) (by decide)
  · exact .node (yields_goal _) fun value _ => .nodes (yields_semicolon _) fun ending _ =>
      .plain (by simp) (by decide)

theorem yields_declarationOrExpression : declarationOrExpression.Yields :=
  .look looks_nextWord fun _ => .ite yields_expressionStatement
    (.orElse yields_declaration (.orElse yields_labeledStatement yields_expressionStatement))

theorem yields_decorated : decorated.Yields :=
  .nodes (yields_many yields_decorator) fun _ h =>
    .orElse (continues_exportStatementWith h) (continues_classDeclarationWith h)

theorem yields_statement : statement.Yields := by
  refine .look looks_nextOperator fun operator => ?_
  split
  · exact yields_block
  · exact yields_emptyStatement
  · exact .orElse yields_decorated yields_expressionStatement
  refine .look looks_nextWord fun word => ?_
  split
  · exact yields_ifStatement
  · exact yields_switchStatement
  · exact yields_forStatement
  · exact yields_whileStatement
  · exact yields_doStatement
  · exact yields_tryStatement
  · exact yields_withStatement
  · exact yields_jumpStatement
  · exact yields_jumpStatement
  · exact yields_jumpStatement
  · exact yields_returnStatement
  · exact yields_throwStatement
  · exact continues_exportStatementWith hasRoles_nil
  · exact .orElse yields_importStatement (.orElse yields_importAlias yields_expressionStatement)
  · exact yields_declarationOrExpression

end Rule
end Script
end NgIndex
