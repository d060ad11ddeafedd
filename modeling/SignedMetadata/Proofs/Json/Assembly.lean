import SignedMetadata.Proofs.Json.Tokens
import SignedMetadata.Proofs.Value.Parts

/-
  The tokens of a tree are assembled to the tree.

  The assembler keeps the open containers on a stack.  From
  any stack that leaves room for the depth of a tree, the
  tokens of the tree lead to the same stack with the tree on
  top.  The layouts of a value are the tokens of the trees
  that hold the value.

  Main declarations:
    * `Tree.Holds`
    * `Assembles`
    * `Tree.assembles_tokens`
    * `Tree.ofText_of_writtenTokens`
    * `exists_tree_of_layout`
    * `Tree.layout_of_holds`
    * `exists_tree_of_spells`
    * `spells_of_holds`
-/

namespace SignedMetadata

namespace Json

------------------------------------------------------------
-- Trees of Values
------------------------------------------------------------

namespace Tree

mutual

/- The tree is closed and holds the value. -/
def Holds : Tree → Value → Prop
| .null, v => v = .null
| .bool b, v => v = .bool b
| .number literal, v =>
    ∃ i, Numeral i literal.toList ∧ v = .integer i
| .string text, v => v = .string text
| .array items closed, v =>
    closed = true ∧
      ∃ vs, HoldsItems items vs ∧ v = .sequence vs
| .object members closed, v =>
    closed = true ∧
      ∃ pairs ms, HoldsMembers members pairs ∧
        pairs.Perm ms ∧ v = .mapping ms
| .broken, _ => False

/- The trees hold the elements, one by one. -/
def HoldsItems : List Tree → List Value → Prop
| [], vs => vs = []
| tree :: trees, vs =>
    ∃ w ws, Holds tree w ∧ HoldsItems trees ws ∧
      vs = w :: ws

/- The members hold the pairs, in the same order. -/
def HoldsMembers :
    List (String × Tree) → List (String × Value) → Prop
| [], ms => ms = []
| (key, tree) :: rest, ms =>
    ∃ w ns, Holds tree w ∧ HoldsMembers rest ns ∧
      ms = (key, w) :: ns

end

end Tree

------------------------------------------------------------
-- Assembly
------------------------------------------------------------

/-
  Tokens lead to a tree from every stack that leaves room for
  a number of containers.
-/
def Assembles
    (tokens : List Token)
    (depth : Nat)
    (tree : Tree) : Prop :=
  ∀ stack : List Frame,
    stack.length + depth ≤ maxOpen →
      tokens.foldl Expectation.step (.needValue stack) =
        .haveValue stack tree

/- Tokens add elements to an open array and close it. -/
def AssemblesItems
    (tokens : List Token)
    (depth : Nat)
    (trees : List Tree) : Prop :=
  ∀ (stack : List Frame) (read : List Tree),
    stack.length + (1 + depth) ≤ maxOpen →
      (tokens ++ [Token.rightBracket]).foldl
          Expectation.step
          (.needValue (.array read :: stack)) =
        .haveValue stack (.array (read.reverse ++ trees) true)

/- Tokens add members to an open object and close it. -/
def AssemblesMembers
    (tokens : List Token)
    (depth : Nat)
    (trees : List (String × Tree)) : Prop :=
  ∀ (stack : List Frame) (read : List (String × Tree))
    (first : Bool),
    stack.length + (1 + depth) ≤ maxOpen →
      (tokens ++ [Token.rightBrace]).foldl
          Expectation.step
          (.needKey stack read first) =
        .haveValue stack
          (.object (read.reverse ++ trees) true)

variable {tokens rest : List Token}
variable {depth depth' : Nat}
variable {tree : Tree}

namespace Expectation

variable {stack : List Frame}

/- An array may be opened when there is room for it. -/
theorem step_leftBracket
    (hRoom : stack.length < maxOpen) :
    step (.needValue stack) .leftBracket =
      .needItem stack := by
  have hOpen : mayOpen stack = true := decide_eq_true hRoom
  rw [step, valueStep, if_pos hOpen]

/- An object may be opened when there is room for it. -/
theorem step_leftBrace
    (hRoom : stack.length < maxOpen) :
    step (.needValue stack) .leftBrace =
      .needKey stack [] true := by
  have hOpen : mayOpen stack = true := decide_eq_true hRoom
  rw [step, valueStep, if_pos hOpen]

/- The first element is read like any other element. -/
theorem step_needItem
    {token : Token}
    (hToken : token ≠ .rightBracket) :
    step (.needItem stack) token =
      step (.needValue (.array [] :: stack)) token := by
  exact if_neg hToken

end Expectation

namespace Assembles

/- The last element is followed by the closing bracket. -/
theorem lastItem (hItem : Assembles tokens depth tree) :
    AssemblesItems tokens depth [tree] := by
  intro stack read hRoom
  have hInside :
      (Frame.array read :: stack).length + depth ≤
        maxOpen := by
    rw [List.length_cons]
    omega
  rw [List.foldl_append, hItem _ hInside]
  simp [Expectation.step, Expectation.afterStep]

/- Any other element is followed by a comma. -/
theorem moreItems
    {trees : List Tree}
    (hItem : Assembles tokens depth tree)
    (hRest : AssemblesItems rest depth' trees) :
    AssemblesItems (tokens ++ .comma :: rest)
      (max depth depth') (tree :: trees) := by
  intro stack read hRoom
  have hInside :
      (Frame.array read :: stack).length + depth ≤
        maxOpen := by
    rw [List.length_cons]
    omega
  have hComma :
      Expectation.step
          (.haveValue (.array read :: stack) tree) .comma =
        .needValue (.array (tree :: read) :: stack) := by
    rfl
  rw [List.append_assoc, List.foldl_append,
    hItem _ hInside, List.cons_append, List.foldl_cons,
    hComma, hRest stack (tree :: read) (by omega),
    List.reverse_cons, List.append_assoc,
    List.singleton_append]

/- A value is bound to the key before it. -/
theorem afterKey
    (hValue : Assembles tokens depth tree)
    (key : String)
    {stack : List Frame}
    (read : List (String × Tree))
    (first : Bool)
    (hRoom : stack.length + (1 + depth) ≤ maxOpen) :
    (.string key :: .colon :: tokens).foldl
        Expectation.step (.needKey stack read first) =
      .haveValue (.object read key :: stack) tree := by
  have hInside :
      (Frame.object read key :: stack).length + depth ≤
        maxOpen := by
    rw [List.length_cons]
    omega
  exact hValue _ hInside

/- The last member is followed by the closing brace. -/
theorem lastMember
    (hValue : Assembles tokens depth tree)
    (key : String) :
    AssemblesMembers (.string key :: .colon :: tokens) depth
      [(key, tree)] := by
  intro stack read first hRoom
  rw [List.foldl_append,
    hValue.afterKey key read first hRoom]
  simp [Expectation.step, Expectation.afterStep]

/- Any other member is followed by a comma. -/
theorem moreMembers
    {trees : List (String × Tree)}
    (hValue : Assembles tokens depth tree)
    (key : String)
    (hRest : AssemblesMembers rest depth' trees) :
    AssemblesMembers
      (.string key :: .colon :: (tokens ++ .comma :: rest))
      (max depth depth') ((key, tree) :: trees) := by
  intro stack read first hRoom
  have hComma :
      Expectation.step
          (.haveValue (.object read key :: stack) tree)
          .comma =
        .needKey stack ((key, tree) :: read) false := by
    rfl
  rw [← List.cons_append, ← List.cons_append,
    List.append_assoc, List.foldl_append,
    hValue.afterKey key read first (by omega),
    List.cons_append, List.foldl_cons, hComma,
    hRest stack ((key, tree) :: read) false (by omega),
    List.reverse_cons, List.append_assoc,
    List.singleton_append]

/- An array without elements is closed at once. -/
theorem emptyArray :
    Assembles [.leftBracket, .rightBracket] 1
      (.array [] true) := by
  intro stack hRoom
  rw [List.foldl_cons,
    Expectation.step_leftBracket (by omega)]
  rfl

/- An object without members is closed at once. -/
theorem emptyObject :
    Assembles [.leftBrace, .rightBrace] 1
      (.object [] true) := by
  intro stack hRoom
  rw [List.foldl_cons,
    Expectation.step_leftBrace (by omega)]
  rfl

/- The elements of an array stand between brackets. -/
theorem array
    {token : Token}
    {trees : List Tree}
    (hToken : token ≠ .rightBracket)
    (hItems : AssemblesItems (token :: rest) depth trees) :
    Assembles
      (.leftBracket :: (token :: rest ++ [.rightBracket]))
      (1 + depth) (.array trees true) := by
  intro stack hRoom
  have hEnd := hItems stack [] hRoom
  rw [List.cons_append, List.foldl_cons] at hEnd
  rw [List.foldl_cons,
    Expectation.step_leftBracket (by omega),
    List.cons_append, List.foldl_cons,
    Expectation.step_needItem hToken]
  exact hEnd

/- The members of an object stand between braces. -/
theorem object
    {trees : List (String × Tree)}
    (hMembers : AssemblesMembers tokens depth trees) :
    Assembles (.leftBrace :: (tokens ++ [.rightBrace]))
      (1 + depth) (.object trees true) := by
  intro stack hRoom
  rw [List.foldl_cons,
    Expectation.step_leftBrace (by omega)]
  exact hMembers stack [] true hRoom

end Assembles

namespace Tree

/- A comma stands before elements that are not the first. -/
theorem itemTokens_comma (tree : Tree) (trees : List Tree) :
    itemTokens [.comma] (tree :: trees) =
      .comma :: itemTokens [] (tree :: trees) := by
  rfl

/- A comma stands before members that are not the first. -/
theorem memberTokens_comma
    (member : String × Tree)
    (rest : List (String × Tree)) :
    memberTokens [.comma] (member :: rest) =
      .comma :: memberTokens [] (member :: rest) := by
  rfl

mutual

/- A complete tree is assembled from its tokens. -/
theorem assembles_tokens
    (tree : Tree)
    (hComplete : tree.Complete) :
    Assembles tree.tokens tree.depth tree := by
  match tree with
  | .null => exact fun _ _ => rfl
  | .bool b => exact fun _ _ => rfl
  | .number literal => exact fun _ _ => rfl
  | .string text => exact fun _ _ => rfl
  | .array [] closed =>
      rw [hComplete.1]
      exact Assembles.emptyArray
  | .array (tree :: trees) closed =>
      rw [hComplete.1]
      have hItems :=
        assemblesItems_itemTokens (tree :: trees)
          hComplete.2 (List.cons_ne_nil tree trees)
      rcases exists_cons_tokens tree with
        ⟨token, rest, hTokens, hToken⟩
      rw [itemTokens, List.nil_append, hTokens,
        List.cons_append] at hItems
      rw [tokens, itemTokens, List.nil_append, hTokens,
        List.cons_append]
      exact Assembles.array hToken hItems
  | .object [] closed =>
      rw [hComplete.1]
      exact Assembles.emptyObject
  | .object (member :: rest) closed =>
      rw [hComplete.1]
      have hMembers :=
        assemblesMembers_memberTokens (member :: rest)
          hComplete.2 (List.cons_ne_nil member rest)
      exact Assembles.object hMembers
  | .broken => exact absurd hComplete id

/- Complete elements are assembled from their tokens. -/
theorem assemblesItems_itemTokens
    (trees : List Tree)
    (hComplete : CompleteItems trees)
    (hSome : trees ≠ []) :
    AssemblesItems (itemTokens [] trees) (depthItems trees)
      trees := by
  match trees with
  | [] => exact absurd rfl hSome
  | [tree] =>
      have hTree := assembles_tokens tree hComplete.1
      rw [itemTokens, itemTokens, List.append_nil,
        depthItems, depthItems, Nat.max_zero]
      exact hTree.lastItem
  | tree :: next :: trees =>
      have hTree := assembles_tokens tree hComplete.1
      have hRest :=
        assemblesItems_itemTokens (next :: trees)
          hComplete.2 (List.cons_ne_nil next trees)
      rw [itemTokens, itemTokens_comma, depthItems]
      exact hTree.moreItems hRest

/- Complete members are assembled from their tokens. -/
theorem assemblesMembers_memberTokens
    (members : List (String × Tree))
    (hComplete : CompleteMembers members)
    (hSome : members ≠ []) :
    AssemblesMembers (memberTokens [] members)
      (depthMembers members) members := by
  match members with
  | [] => exact absurd rfl hSome
  | [(key, tree)] =>
      have hTree := assembles_tokens tree hComplete.1
      rw [memberTokens, memberTokens, List.append_nil,
        depthMembers, depthMembers, Nat.max_zero]
      exact hTree.lastMember key
  | (key, tree) :: next :: rest =>
      have hTree := assembles_tokens tree hComplete.1
      have hRest :=
        assemblesMembers_memberTokens (next :: rest)
          hComplete.2 (List.cons_ne_nil next rest)
      rw [memberTokens, memberTokens_comma, depthMembers]
      exact hTree.moreMembers key hRest

end

/- A text that writes the tokens of a tree is its document. -/
theorem ofText_of_writtenTokens
    {tree : Tree}
    {text : String}
    (hComplete : tree.Complete)
    (hDepth : tree.depth ≤ maxOpen)
    (hText : WrittenTokens tree.tokens text.toList) :
    Document.ofText text = ⟨tree, false⟩ := by
  have hRoom :
      ([] : List Frame).length + tree.depth ≤ maxOpen := by
    rw [List.length_nil]
    omega
  rw [Document.ofText, ofText_eq_tokens hText,
    Document.ofTokens,
    assembles_tokens tree hComplete [] hRoom]
  rfl

------------------------------------------------------------
-- Trees that Hold a Value
------------------------------------------------------------

mutual

/- A tree that holds a value is complete. -/
theorem complete_of_holds
    (tree : Tree)
    {v : Value}
    (hHolds : tree.Holds v) :
    tree.Complete := by
  cases tree with
  | array items closed =>
      rcases hHolds with ⟨hClosed, vs, hItems, _⟩
      exact ⟨hClosed, completeItems_of_holds items hItems⟩
  | object members closed =>
      rcases hHolds with ⟨hClosed, pairs, _, hPairs, _⟩
      exact
        ⟨hClosed, completeMembers_of_holds members hPairs⟩
  | broken => exact hHolds
  | _ => exact trivial

/- Trees that hold elements are complete. -/
theorem completeItems_of_holds
    (trees : List Tree)
    {vs : List Value}
    (hHolds : HoldsItems trees vs) :
    CompleteItems trees := by
  cases trees with
  | nil => exact trivial
  | cons tree trees =>
      rcases hHolds with ⟨w, ws, hHead, hTail, _⟩
      exact
        ⟨complete_of_holds tree hHead,
          completeItems_of_holds trees hTail⟩

/- Members that hold pairs are complete. -/
theorem completeMembers_of_holds
    (members : List (String × Tree))
    {pairs : List (String × Value)}
    (hHolds : HoldsMembers members pairs) :
    CompleteMembers members := by
  cases members with
  | nil => exact trivial
  | cons member rest =>
      rcases hHolds with ⟨w, ns, hHead, hTail, _⟩
      exact
        ⟨complete_of_holds member.2 hHead,
          completeMembers_of_holds rest hTail⟩

end

mutual

/- A tree that holds a value nests as deep as the value. -/
theorem depth_of_holds
    (tree : Tree)
    {v : Value}
    (hHolds : tree.Holds v) :
    tree.depth = v.depth := by
  cases tree with
  | array items closed =>
      rcases hHolds with ⟨_, vs, hItems, rfl⟩
      rw [depth, Value.depth,
        depthItems_of_holds items hItems]
  | object members closed =>
      rcases hHolds with ⟨_, pairs, ms, hPairs, hOrder, rfl⟩
      rw [depth, Value.depth,
        depthMembers_of_holds members hPairs,
        Value.depthMembers_perm hOrder]
  | number literal =>
      rcases hHolds with ⟨i, _, rfl⟩
      rfl
  | broken => exact absurd hHolds id
  | _ =>
      rw [show v = _ from hHolds]
      rfl

/- Trees that hold elements nest as deep as these. -/
theorem depthItems_of_holds
    (trees : List Tree)
    {vs : List Value}
    (hHolds : HoldsItems trees vs) :
    depthItems trees = Value.depthItems vs := by
  cases trees with
  | nil =>
      rw [show vs = [] from hHolds]
      rfl
  | cons tree trees =>
      rcases hHolds with ⟨w, ws, hHead, hTail, rfl⟩
      rw [depthItems, Value.depthItems,
        depth_of_holds tree hHead,
        depthItems_of_holds trees hTail]

/- Members that hold pairs nest as deep as these. -/
theorem depthMembers_of_holds
    (members : List (String × Tree))
    {pairs : List (String × Value)}
    (hHolds : HoldsMembers members pairs) :
    depthMembers members = Value.depthMembers pairs := by
  cases members with
  | nil =>
      rw [show pairs = [] from hHolds]
      rfl
  | cons member rest =>
      rcases hHolds with ⟨w, ns, hHead, hTail, rfl⟩
      rw [depthMembers, Value.depthMembers,
        depth_of_holds member.2 hHead,
        depthMembers_of_holds rest hTail]

end

end Tree

------------------------------------------------------------
-- Layouts
------------------------------------------------------------

mutual

/- A layout of a value is the tokens of a tree of it. -/
theorem exists_tree_of_layout
    {v : Value}
    {tokens : List Token}
    (hLayout : Layout v tokens) :
    ∃ tree : Tree, tree.Holds v ∧ tree.tokens = tokens := by
  match hLayout with
  | .null => exact ⟨.null, rfl, rfl⟩
  | .bool b => exact ⟨.bool b, rfl, rfl⟩
  | @Layout.integer i cs hNumeral =>
      refine ⟨.number (String.ofList cs), ⟨i, ?_, rfl⟩, rfl⟩
      rw [String.toList_ofList]
      exact hNumeral
  | .string s => exact ⟨.string s, rfl, rfl⟩
  | .noItems =>
      exact ⟨.array [] true, ⟨rfl, [], rfl, rfl⟩, rfl⟩
  | .items hItems =>
      rcases exists_trees_of_itemsLayout hItems with
        ⟨tree, trees, hTrees, rfl⟩
      exact
        ⟨.array (tree :: trees) true,
          ⟨rfl, _, hTrees, rfl⟩, rfl⟩
  | .noMembers =>
      exact
        ⟨.object [] true,
          ⟨rfl, [], [], rfl, List.Perm.nil, rfl⟩, rfl⟩
  | .members hOrder hMembers =>
      rcases exists_trees_of_membersLayout hMembers with
        ⟨member, rest, hTrees, rfl⟩
      exact
        ⟨.object (member :: rest) true,
          ⟨rfl, _, _, hTrees, hOrder, rfl⟩, rfl⟩

/- A layout of elements is the tokens of trees of them. -/
theorem exists_trees_of_itemsLayout
    {vs : List Value}
    {tokens : List Token}
    (hLayout : ItemsLayout vs tokens) :
    ∃ tree trees,
      Tree.HoldsItems (tree :: trees) vs ∧
        Tree.itemTokens [] (tree :: trees) = tokens := by
  match hLayout with
  | .last hItem =>
      rcases exists_tree_of_layout hItem with
        ⟨tree, hTree, rfl⟩
      exact
        ⟨tree, [], ⟨_, [], hTree, rfl, rfl⟩,
          List.append_nil _⟩
  | .more hItem hRest =>
      rcases exists_tree_of_layout hItem with
        ⟨tree, hTree, rfl⟩
      rcases exists_trees_of_itemsLayout hRest with
        ⟨next, trees, hTrees, rfl⟩
      exact
        ⟨tree, next :: trees, ⟨_, _, hTree, hTrees, rfl⟩, rfl⟩

/- A layout of members is the tokens of trees of them. -/
theorem exists_trees_of_membersLayout
    {ms : List (String × Value)}
    {tokens : List Token}
    (hLayout : MembersLayout ms tokens) :
    ∃ member rest,
      Tree.HoldsMembers (member :: rest) ms ∧
        Tree.memberTokens [] (member :: rest) = tokens := by
  match hLayout with
  | @MembersLayout.last key _ _ hValue =>
      rcases exists_tree_of_layout hValue with
        ⟨tree, hTree, rfl⟩
      refine
        ⟨(key, tree), [], ⟨_, [], hTree, rfl, rfl⟩, ?_⟩
      rw [Tree.memberTokens, Tree.memberTokens,
        List.append_nil, List.nil_append]
  | @MembersLayout.more key _ _ _ _ hValue hRest =>
      rcases exists_tree_of_layout hValue with
        ⟨tree, hTree, rfl⟩
      rcases exists_trees_of_membersLayout hRest with
        ⟨next, rest, hTrees, rfl⟩
      exact
        ⟨(key, tree), next :: rest,
          ⟨_, _, hTree, hTrees, rfl⟩, rfl⟩

end

namespace Tree

mutual

/- The tokens of a tree are a layout of what it holds. -/
theorem layout_of_holds
    (tree : Tree)
    {v : Value}
    (hHolds : tree.Holds v) :
    Layout v tree.tokens := by
  match tree with
  | .null =>
      cases hHolds
      exact .null
  | .bool b =>
      cases hHolds
      exact .bool b
  | .number literal =>
      rcases hHolds with ⟨i, hNumeral, rfl⟩
      have hLayout := Layout.integer hNumeral
      rw [String.ofList_toList] at hLayout
      exact hLayout
  | .string text =>
      cases hHolds
      exact .string text
  | .array [] closed =>
      rcases hHolds with ⟨_, vs, rfl, rfl⟩
      exact .noItems
  | .array (tree :: trees) closed =>
      rcases hHolds with ⟨_, vs, hItems, rfl⟩
      exact
        .items
          (itemsLayout_of_holds (tree :: trees)
            (List.cons_ne_nil tree trees) hItems)
  | .object [] closed =>
      rcases hHolds with ⟨_, pairs, ms, rfl, hOrder, rfl⟩
      rw [List.nil_perm.mp hOrder]
      exact .noMembers
  | .object (member :: rest) closed =>
      rcases hHolds with ⟨_, pairs, ms, hMembers, hOrder, rfl⟩
      exact
        .members hOrder
          (membersLayout_of_holds (member :: rest)
            (List.cons_ne_nil member rest) hMembers)
  | .broken => exact hHolds.elim

/- The tokens of trees are a layout of the elements. -/
theorem itemsLayout_of_holds
    (trees : List Tree)
    (hSome : trees ≠ [])
    {vs : List Value}
    (hHolds : HoldsItems trees vs) :
    ItemsLayout vs (itemTokens [] trees) := by
  match trees with
  | [] => exact absurd rfl hSome
  | [tree] =>
      rcases hHolds with ⟨w, ws, hHead, rfl, rfl⟩
      rw [itemTokens, itemTokens, List.append_nil]
      exact .last (layout_of_holds tree hHead)
  | tree :: next :: trees =>
      rcases hHolds with ⟨w, ws, hHead, hTail, rfl⟩
      have hRest :=
        itemsLayout_of_holds (next :: trees)
          (List.cons_ne_nil next trees) hTail
      rw [itemTokens, itemTokens_comma]
      exact .more (layout_of_holds tree hHead) hRest

/- The tokens of members are a layout of the pairs. -/
theorem membersLayout_of_holds
    (members : List (String × Tree))
    (hSome : members ≠ [])
    {pairs : List (String × Value)}
    (hHolds : HoldsMembers members pairs) :
    MembersLayout pairs (memberTokens [] members) := by
  match members with
  | [] => exact absurd rfl hSome
  | [(key, tree)] =>
      rcases hHolds with ⟨w, ns, hHead, rfl, rfl⟩
      rw [memberTokens, memberTokens, List.append_nil]
      exact .last (layout_of_holds tree hHead)
  | (key, tree) :: next :: rest =>
      rcases hHolds with ⟨w, ns, hHead, hTail, rfl⟩
      have hRest :=
        membersLayout_of_holds (next :: rest)
          (List.cons_ne_nil next rest) hTail
      rw [memberTokens, memberTokens_comma]
      exact .more (layout_of_holds tree hHead) hRest

end

end Tree

/- A text that writes a value spells a tree of the value. -/
theorem exists_tree_of_spells
    {text : String}
    {v : Value}
    (hSpells : Spells text v) :
    ∃ tree : Tree,
      tree.Holds v ∧
        SpelledTokens tree.tokens text.toList := by
  rcases hSpells with ⟨tokens, hLayout, hText⟩
  rcases exists_tree_of_layout hLayout with
    ⟨tree, hTree, rfl⟩
  exact ⟨tree, hTree, hText⟩

/- A text that spells a tree writes what the tree holds. -/
theorem spells_of_holds
    {text : String}
    {v : Value}
    (hHolds : tree.Holds v)
    (hText : SpelledTokens tree.tokens text.toList) :
    Spells text v :=
  ⟨tree.tokens, tree.layout_of_holds hHolds, hText⟩

end Json

end SignedMetadata
