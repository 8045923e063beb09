import NgIndex.Proofs.Markup.Order

/-!
# Reading markup keeps the order of the text

The tree of a text is in order.  A reader of tags only moves forward, so the names it reads follow
each other.  The elements that the tags describe keep the names where they are: however elements are
ended, their opening tags come in the order in which they were read.
-/

namespace NgIndex

/-! ### Moving forward -/

theorem Position.point_lt_advance (p : Position) (c : Char) : p.point < (p.advance c).point := by
  rw [point, point, Prod.Lex.toLex_lt_toLex, advance]
  split
  · exact .inl (Nat.lt_succ_self p.line)
  · exact .inr ⟨rfl, Nat.lt_add_of_pos_right c.utf8Size_pos⟩

theorem Position.point_le_after (p : Position) (cs : List Char) : p.point ≤ (p.after cs).point := by
  induction cs generalizing p with
  | nil => exact le_rfl
  | cons c rest ih => exact (p.point_lt_advance c).le.trans (ih (p.advance c))

theorem Position.point_lt_after (p : Position) {cs : List Char} (hne : cs ≠ []) :
    p.point < (p.after cs).point := by
  obtain ⟨c, rest, rfl⟩ := List.exists_cons_of_ne_nil hne
  exact (p.point_lt_advance c).trans_le ((p.advance c).point_le_after rest)

namespace Markup
namespace Rest

/-- Where a rest starts. -/
def point (rest : Rest) : ℕ ×ₗ ℕ :=
  rest.position.point

theorem point_le_drop (rest : Rest) (count : Nat) : rest.point ≤ (rest.drop count).point :=
  rest.position.point_le_after _

theorem point_le_skipBlankWith (fuel : Nat) (rest : Rest) :
    rest.point ≤ (skipBlankWith fuel rest).point := by
  induction fuel generalizing rest with
  | zero => exact le_rfl
  | succ fuel ih =>
      rw [skipBlankWith]
      split
      · exact (rest.point_le_drop _).trans ((point_le_drop _ _).trans (ih _))
      · exact rest.point_le_drop _

theorem point_le_skipBlank (rest : Rest) : rest.point ≤ (skipBlank rest).point :=
  point_le_skipBlankWith _ rest

theorem point_le_skipValue (rest : Rest) : rest.point ≤ (skipValue rest).point := by
  unfold skipValue
  split <;> exact rest.point_le_drop _

theorem point_le_skipAssignment (rest : Rest) : rest.point ≤ (skipAssignment rest).point := by
  rw [skipAssignment]
  split
  · exact rest.point_le_skipBlank.trans ((point_le_drop _ _).trans
      ((point_le_skipBlank _).trans (point_le_skipValue _)))
  · exact le_rfl

end Rest

/-! ### Names one after another -/

/-- Names that follow each other between two places, none of them empty. -/
def Spelled (low : ℕ ×ₗ ℕ) : List Word → ℕ ×ₗ ℕ → Prop
  | [], high => low ≤ high
  | word :: rest, high =>
      low ≤ word.start.point ∧ word.start.point < word.stop.point ∧
        Spelled word.stop.point rest high

variable {low middle high : ℕ ×ₗ ℕ} {words more : List Word}

theorem Spelled.after {low' : ℕ ×ₗ ℕ} (hlow : low' ≤ low) (h : Spelled low words high) :
    Spelled low' words high := by
  cases words with
  | nil => exact hlow.trans h
  | cons word rest => exact ⟨hlow.trans h.1, h.2⟩

theorem Spelled.before {high' : ℕ ×ₗ ℕ} (h : Spelled low words high) (hhigh : high ≤ high') :
    Spelled low words high' := by
  induction words generalizing low with
  | nil => exact le_trans h hhigh
  | cons word rest ih => exact ⟨h.1, h.2.1, ih h.2.2⟩

theorem spelled_append :
    Spelled low (words ++ more) high ↔
      ∃ middle, Spelled low words middle ∧ Spelled middle more high := by
  induction words generalizing low with
  | nil => exact ⟨fun h => ⟨low, le_rfl, h⟩, fun ⟨_, hlow, h⟩ => h.after hlow⟩
  | cons word rest ih =>
      rw [List.cons_append, Spelled, ih]
      constructor
      · rintro ⟨hlow, hword, middle, hrest, hmore⟩
        exact ⟨middle, ⟨hlow, hword, hrest⟩, hmore⟩
      · rintro ⟨middle, ⟨hlow, hword, hrest⟩, hmore⟩
        exact ⟨hlow, hword, middle, hrest, hmore⟩

/-- A name that is read follows where the text is read from. -/
theorem spelled_word {rest : Rest} {test : Char → Bool}
    (hne : rest.chars.takeWhile test ≠ []) :
    Spelled rest.point [(rest.word test).1] (rest.word test).2.point := by
  refine ⟨le_rfl, rest.position.point_lt_after ?_, le_rfl⟩
  rwa [← List.prefix_iff_eq_take.mp <| List.takeWhile_prefix test]

theorem attributes_succ (fuel : Nat) (rest : Rest) :
    attributes (fuel + 1) rest =
      let found := (skipBlank rest).word isAttributeChar
      if found.1.text.isEmpty then ([], rest)
      else
        let others := attributes fuel (skipAssignment found.2)
        (found.1 :: others.1, others.2) :=
  rfl

theorem spelled_attributes (fuel : Nat) (rest : Rest) :
    Spelled rest.point (attributes fuel rest).1 (attributes fuel rest).2.point := by
  induction fuel generalizing rest with
  | zero => exact le_rfl
  | succ fuel ih =>
      rw [attributes_succ]
      dsimp only
      split
      · exact le_rfl
      · next hempty =>
          have hne : (skipBlank rest).chars.takeWhile isAttributeChar ≠ [] := by
            intro hnil
            refine hempty (String.isEmpty_iff.mpr ?_)
            exact String.ofList_eq_empty_iff.mpr hnil
          exact spelled_append.mpr ⟨_, (spelled_word hne).after rest.point_le_skipBlank,
            (ih _).after (Rest.point_le_skipAssignment _)⟩

/-- The names in a tag. -/
def Tag.names (tag : Tag) : List Word :=
  tag.name :: tag.attributes

/-- The names in the tag that opens an element. -/
def Token.names : Token → List Word
  | .opening tag => tag.names
  | .closing _ => []

theorem spelled_openingTag {rest : Rest} (hne : rest.chars.takeWhile isTagChar ≠ []) :
    Spelled rest.point (openingTag rest).1.names (openingTag rest).2.point := by
  have hattributes := spelled_append.mpr ⟨_, spelled_word hne,
    spelled_attributes (rest.word isTagChar).2.chars.length (rest.word isTagChar).2⟩
  have hblank := hattributes.before (Rest.point_le_skipBlank _)
  unfold openingTag
  dsimp only
  split
  · exact hblank.before (Rest.point_le_drop _ _)
  · exact hblank.before (Rest.point_le_drop _ _)
  · exact hblank

theorem takeWhile_ne_nil {test : Char → Bool} {chars : List Char}
    (h : chars.head?.any test = true) : chars.takeWhile test ≠ [] := by
  cases chars with
  | nil => cases h
  | cons c rest =>
      have hc : test c = true := h
      rw [List.takeWhile_cons_of_pos hc]
      exact List.cons_ne_nil c _

/-- The names in the tags of a text follow each other. -/
theorem spelled_tokensWith (fuel : Nat) (rest : Rest) :
    ∃ high, Spelled rest.point ((tokensWith fuel rest).flatMap Token.names) high := by
  induction fuel generalizing rest with
  | zero => exact ⟨rest.point, le_rfl⟩
  | succ fuel ih =>
      have hlater {next : Rest} (hnext : rest.point ≤ next.point) :
          ∃ high, Spelled rest.point ((tokensWith fuel next).flatMap Token.names) high :=
        (ih next).imp fun _ h => h.after hnext
      unfold tokensWith
      split
      · exact ⟨rest.point, le_rfl⟩
      · exact hlater (rest.point_le_drop _)
      · exact hlater (rest.point_le_drop _)
      · exact hlater ((rest.point_le_drop _).trans
          ((Rest.point_le_skipBlank _).trans (Rest.point_le_drop _ _)))
      · dsimp only
        split
        · next hhead =>
            have htag := (spelled_openingTag (takeWhile_ne_nil hhead)).after
              ((rest.point_le_drop _).trans (Rest.point_le_skipBlank _))
            rw [List.flatMap_cons]
            -- The contents of a script or of a style are passed over.
            split
            · obtain ⟨high, hlast⟩ := ih ((openingTag (skipBlank (rest.drop 1))).2.drop _)
              exact ⟨high, spelled_append.mpr ⟨_, htag, hlast.after (Rest.point_le_drop _ _)⟩⟩
            · obtain ⟨high, hlast⟩ := ih (openingTag (skipBlank (rest.drop 1))).2
              exact ⟨high, spelled_append.mpr ⟨_, htag, hlast⟩⟩
        · exact hlater (rest.point_le_drop _)
      · exact hlater (rest.point_le_drop _)

/-! ### Elements keep the order of their tags -/

mutual

/-- The names in an element and in the elements inside. -/
def Element.names : Element → List Word
  | ⟨tag, children⟩ => tag.names ++ namesOf children

/-- The names in several elements. -/
def namesOf : List Element → List Word
  | [] => []
  | element :: rest => element.names ++ namesOf rest

end

theorem namesOf_append (elements more : List Element) :
    namesOf (elements ++ more) = namesOf elements ++ namesOf more := by
  induction elements with
  | nil => rw [List.nil_append, namesOf, List.nil_append]
  | cons element rest ih => rw [List.cons_append, namesOf, namesOf, ih, List.append_assoc]

theorem namesOf_singleton (element : Element) : namesOf [element] = element.names := by
  rw [namesOf, namesOf, List.append_nil]

/-- The names in an open element, so far. -/
def Frame.names (frame : Frame) : List Word :=
  frame.tag.names ++ namesOf frame.inside.reverse

namespace Builder

/-- The names in open elements, so far. -/
def namesOpen : List Frame → List Word
  | [] => []
  | frame :: rest => namesOpen rest ++ frame.names

/-- The names read so far. -/
def names (builder : Builder) : List Word :=
  namesOf builder.finished.reverse ++ namesOpen builder.frames

theorem names_endWhile (test : Tag → Bool) (finished pending : List Element)
    (frames : List Frame) :
    (endWhile test finished pending frames).names =
      namesOf finished.reverse ++ (namesOpen frames ++ namesOf pending.reverse) := by
  induction frames generalizing pending with
  | nil => simp [endWhile, names, namesOpen, namesOf_append]
  | cons frame rest ih =>
      rw [endWhile]
      split
      -- The element that ends is the only one pending for the frame around it.
      · rw [ih]
        simp [namesOpen, Frame.names, namesOf_singleton, Element.names, namesOf_append]
      · simp [names, namesOpen, Frame.names, namesOf_append]

theorem frames_endWhile_true (finished pending : List Element) (frames : List Frame) :
    (endWhile (fun _ => true) finished pending frames).frames = [] := by
  induction frames generalizing pending with
  | nil => rfl
  | cons frame rest ih =>
      rw [endWhile, if_pos rfl]
      exact ih _

theorem names_add (frames : List Frame) (finished : List Element) (element : Element) :
    (add frames finished element).names =
      namesOf finished.reverse ++ (namesOpen frames ++ element.names) := by
  cases frames with
  | nil => simp [add, names, namesOpen, namesOf_append, namesOf_singleton]
  | cons frame rest =>
      simp [add, names, namesOpen, Frame.names, namesOf_append, namesOf_singleton]

theorem names_endInnermost (builder : Builder) : builder.endInnermost.names = builder.names := by
  unfold endInnermost
  split
  · rfl
  · next frame rest hframes =>
      rw [names_add, names, hframes, namesOpen, Element.names, Frame.names]

theorem names_openTag (builder : Builder) (tag : Tag) :
    (builder.openTag tag).names = builder.names ++ tag.names := by
  let test (outer : Tag) : Bool := !mayContain outer.key tag.key
  have hended : (endWhile test builder.finished [] builder.frames).names = builder.names := by
    rw [names_endWhile, List.reverse_nil, namesOf, List.append_nil, names]
  rw [← hended]
  unfold openTag
  dsimp only
  split
  · rw [names_add, Element.names, namesOf, List.append_nil, ← List.append_assoc, names]
  · rw [names, namesOpen, ← List.append_assoc, Frame.names, List.reverse_nil, namesOf,
      List.append_nil, names]

theorem names_closeTag (builder : Builder) (name : String) :
    (builder.closeTag name).names = builder.names := by
  unfold closeTag
  split
  · rw [names_endInnermost, names_endWhile, List.reverse_nil, namesOf, List.append_nil, names]
  · rfl

theorem names_step (builder : Builder) (token : Token) :
    (builder.step token).names = builder.names ++ token.names := by
  cases token with
  | opening tag => exact builder.names_openTag tag
  | closing name => rw [step, names_closeTag, Token.names, List.append_nil]

theorem names_foldl_step (tokens : List Token) (builder : Builder) :
    (tokens.foldl step builder).names = builder.names ++ tokens.flatMap Token.names := by
  induction tokens generalizing builder with
  | nil => rw [List.foldl_nil, List.flatMap_nil, List.append_nil]
  | cons token rest ih =>
      rw [List.foldl_cons, ih, names_step, List.flatMap_cons, List.append_assoc]

theorem namesOf_finish (builder : Builder) : namesOf builder.finish = builder.names := by
  have hended := names_endWhile (fun _ => true) builder.finished [] builder.frames
  rw [names, frames_endWhile_true, namesOpen, List.append_nil, List.reverse_nil, namesOf,
    List.append_nil] at hended
  rw [finish, hended, names]

end Builder

theorem namesOf_elements (text : String) :
    namesOf (elements text) = (tokens text).flatMap Token.names := by
  rw [elements, Builder.namesOf_finish, Builder.names_foldl_step]
  rfl

/-! ### The tree of a text -/

namespace Node

/-- Trees that follow each other between two places, each of them as it should be. -/
def Placed (low : ℕ ×ₗ ℕ) (nodes : List Node) (high : ℕ ×ₗ ℕ) : Prop :=
  Row low nodes high ∧ ∀ node ∈ nodes, node.InOrder ∧ node.IsMarkup

variable {nodes others : List Node} {word : Word} {tag : Tag}

theorem placed_nil (h : low ≤ high) : Placed low [] high :=
  ⟨h, fun _ hnode => absurd hnode List.not_mem_nil⟩

theorem Placed.append (h : Placed low nodes middle) (hothers : Placed middle others high) :
    Placed low (nodes ++ others) high :=
  ⟨h.1.append hothers.1, fun node hnode => (List.mem_append.mp hnode).elim (h.2 node)
    (hothers.2 node)⟩

theorem Placed.branch (kind : Kind) (h : Placed low nodes high) (hne : nodes ≠ [])
    (hregular : (Node.branch kind nodes).Regular) : Placed low [.branch kind nodes] high := by
  obtain ⟨hplace, hown⟩ := h.1.branch kind hne
  refine ⟨hplace, fun node hnode => ?_⟩
  rw [List.mem_singleton.mp hnode]
  exact ⟨inOrder_iff.mpr ⟨hown, fun child hchild => (h.2 child hchild).1⟩,
    isMarkup_iff.mpr ⟨hregular, fun child hchild => (h.2 child hchild).2⟩⟩

theorem regular_of_kind {node : Node} (hname : node.isName = false)
    (hopening : node.isOpening = false) : node.Regular where
  named h := absurd (hname.symm.trans h) Bool.false_ne_true
  single h := absurd (hopening.symm.trans h) Bool.false_ne_true

theorem placed_ofWord (kind : Kind) (hopening : (ofWord kind word).isOpening = false)
    (h : Spelled low [word] high) : Placed low [ofWord kind word] high := by
  obtain ⟨hlow, hword, hhigh⟩ := h
  refine ⟨⟨hlow, hword.le, hhigh⟩, fun node hnode => ?_⟩
  rw [List.mem_singleton.mp hnode]
  exact ⟨inOrder_iff.mpr ⟨hword.le, fun _ hchild => absurd hchild List.not_mem_nil⟩,
    isMarkup_iff.mpr ⟨⟨fun _ => hword, fun h => absurd (hopening.symm.trans h) Bool.false_ne_true⟩,
      fun _ hchild => absurd hchild List.not_mem_nil⟩⟩

theorem placed_ofAttributes {words : List Word} (h : Spelled low words high) :
    Placed low (words.map ofAttribute) high := by
  induction words generalizing low with
  | nil => exact placed_nil h
  | cons word rest ih =>
      obtain ⟨hlow, hword, hrest⟩ := h
      have hname := placed_ofWord .attributeName rfl ⟨hlow, hword, le_rfl⟩
      have hattribute := hname.branch .attribute (List.cons_ne_nil _ _) (regular_of_kind rfl rfl)
      exact hattribute.append (ih hrest)

theorem regular_ofTag (tag : Tag) : (ofTag tag).Regular := by
  have hkind : (ofTag tag).isName = false := by
    unfold ofTag
    split <;> rfl
  refine ⟨fun h => absurd (hkind.symm.trans h) Bool.false_ne_true, fun _ child hchild => ?_⟩
  have hleaf (kind : Kind) (word : Word) (hopening : (ofWord kind word).isOpening = false) :
      Tree.Everywhere Node.children (fun inner => inner.isOpening = false) (ofWord kind word) :=
    (Tree.everywhere_iff _).mpr ⟨hopening, fun _ h => absurd h List.not_mem_nil⟩
  rcases List.mem_cons.mp hchild with rfl | hattribute
  · exact hleaf .tagName tag.name rfl
  · obtain ⟨word, -, rfl⟩ := List.mem_map.mp hattribute
    refine (Tree.everywhere_iff _).mpr ⟨rfl, fun name hname => ?_⟩
    rw [List.mem_singleton.mp hname]
    exact hleaf .attributeName word rfl

theorem placed_ofTag (h : Spelled low tag.names high) : Placed low [ofTag tag] high := by
  obtain ⟨hlow, hname, hattributes⟩ := h
  have hparts := (placed_ofWord .tagName rfl ⟨hlow, hname, le_rfl⟩).append
    (placed_ofAttributes hattributes)
  exact hparts.branch _ (List.cons_ne_nil _ _) (regular_ofTag tag)

mutual

theorem placed_ofElement (low high : ℕ ×ₗ ℕ) : ∀ element : Element,
    Spelled low element.names high → Placed low [ofElement element] high
  | ⟨tag, children⟩, h => by
      rw [Element.names] at h
      obtain ⟨middle, htag, hchildren⟩ := spelled_append.mp h
      have hparts := (placed_ofTag htag).append (placed_ofElements middle high children hchildren)
      rw [ofElement]
      exact hparts.branch _ (List.cons_ne_nil _ _) (regular_of_kind rfl rfl)

theorem placed_ofElements (low high : ℕ ×ₗ ℕ) : ∀ elements : List Element,
    Spelled low (namesOf elements) high → Placed low (ofElements elements) high
  | [], h => placed_nil h
  | element :: rest, h => by
      rw [namesOf] at h
      obtain ⟨middle, helement, hrest⟩ := spelled_append.mp h
      rw [ofElements]
      exact (placed_ofElement low middle element helement).append
        (placed_ofElements middle high rest hrest)

end

end Node

/-- The tree of a text is one that the grammar allows, and in order. -/
theorem tree_inOrder_and_isMarkup (text : String) : (tree text).InOrder ∧ (tree text).IsMarkup := by
  obtain ⟨high, hread⟩ := spelled_tokensWith (text.toList.length + 1) { chars := text.toList }
  rw [← tokens, ← namesOf_elements] at hread
  have hplaced := Node.placed_ofElements _ high (elements text) hread
  rw [tree]
  -- A document without elements stands nowhere, so it is looked at apart.
  cases hempty : Node.ofElements (elements text) with
  | nil =>
      exact ⟨Node.inOrder_iff.mpr ⟨le_rfl, fun _ h => absurd h List.not_mem_nil⟩,
        Node.isMarkup_iff.mpr
          ⟨Node.regular_of_kind rfl rfl, fun _ h => absurd h List.not_mem_nil⟩⟩
  | cons first rest =>
      rw [hempty] at hplaced
      exact (hplaced.branch _ (List.cons_ne_nil _ _) (Node.regular_of_kind rfl rfl)).2 _
        List.mem_cons_self

end Markup
end NgIndex
