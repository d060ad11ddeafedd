import SignedMetadata.Proofs.Json.Nesting

/-
  What is read of a tree when its text breaks off.

  A tree is cut short by leaving a container open behind some
  of its parts.  No token takes back what was read before it,
  so that a text that breaks off inside a string is read as a
  tree that is cut short, and never as a complete one.

  Main declarations:
    * `Tree.Cut`
    * `Expectation.cut_step`
    * `Expectation.cut_foldl_step`
    * `Tree.interrupted_tokens`
-/

namespace SignedMetadata

namespace Json

------------------------------------------------------------
-- Trees that Are Cut Short
------------------------------------------------------------

namespace Tree

mutual

/- The first tree is as much as was read of the second. -/
inductive Cut : Tree → Tree → Prop where
| whole (tree : Tree) : Cut tree tree
| broken (tree : Tree) : Cut .broken tree
| array
    {read items : List Tree}
    (closed : Bool)
    (hItems : CutItems read items) :
    Cut (.array read false) (.array items closed)
| object
    {read members : List (String × Tree)}
    (closed : Bool)
    (hMembers : CutMembers read members) :
    Cut (.object read false) (.object members closed)

/- The first elements were read, the last of them in part. -/
inductive CutItems : List Tree → List Tree → Prop where
| none (trees : List Tree) : CutItems [] trees
| last
    {read tree : Tree}
    (trees : List Tree)
    (hTree : Cut read tree) :
    CutItems [read] (tree :: trees)
| next
    {read trees : List Tree}
    (tree : Tree)
    (hRest : CutItems read trees) :
    CutItems (tree :: read) (tree :: trees)

/- The first members were read, likewise. -/
inductive CutMembers :
    List (String × Tree) → List (String × Tree) → Prop where
| none (rest : List (String × Tree)) : CutMembers [] rest
| last
    {read tree : Tree}
    (key : String)
    (rest : List (String × Tree))
    (hTree : Cut read tree) :
    CutMembers [(key, read)] ((key, tree) :: rest)
| next
    {read rest : List (String × Tree)}
    (member : String × Tree)
    (hRest : CutMembers read rest) :
    CutMembers (member :: read) (member :: rest)

end

mutual

/- A tree that was read in part may be cut shorter. -/
theorem Cut.trans
    {first second third : Tree}
    (hFirst : Cut first second)
    (hSecond : Cut second third) :
    Cut first third := by
  cases hFirst with
  | whole => exact hSecond
  | broken => exact .broken third
  | array _ hRead =>
      cases hSecond with
      | whole => exact .array _ hRead
      | array closed hItems =>
          exact .array closed (hRead.trans hItems)
  | object _ hRead =>
      cases hSecond with
      | whole => exact .object _ hRead
      | object closed hMembers =>
          exact .object closed (hRead.trans hMembers)

/- So may elements. -/
theorem CutItems.trans
    {first second third : List Tree}
    (hFirst : CutItems first second)
    (hSecond : CutItems second third) :
    CutItems first third := by
  cases hFirst with
  | none => exact .none third
  | last rest hTree =>
      cases hSecond with
      | last trees hMore =>
          exact .last trees (hTree.trans hMore)
      | next _ _ => exact .last _ hTree
  | next tree hRest =>
      cases hSecond with
      | last trees hMore =>
          cases hRest
          exact .last trees hMore
      | next _ hMore => exact .next tree (hRest.trans hMore)

/- So may members. -/
theorem CutMembers.trans
    {first second third : List (String × Tree)}
    (hFirst : CutMembers first second)
    (hSecond : CutMembers second third) :
    CutMembers first third := by
  cases hFirst with
  | none => exact .none third
  | last key rest hTree =>
      cases hSecond with
      | last _ rest hMore =>
          exact .last key rest (hTree.trans hMore)
      | next _ _ => exact .last key _ hTree
  | next member hRest =>
      cases hSecond with
      | last key rest hMore =>
          cases hRest
          exact .last key rest hMore
      | next _ hMore =>
          exact .next member (hRest.trans hMore)

end

/- Elements may be read to their end. -/
theorem CutItems.whole (trees : List Tree) :
    CutItems trees trees := by
  induction trees with
  | nil => exact .none []
  | cons tree trees ih => exact .next tree ih

/- Members may be read to their end. -/
theorem CutMembers.whole (rest : List (String × Tree)) :
    CutMembers rest rest := by
  induction rest with
  | nil => exact .none []
  | cons member rest ih => exact .next member ih

/- Elements that were read before stay in front. -/
theorem CutItems.behind
    {read trees : List Tree}
    (hRead : CutItems read trees)
    (before : List Tree) :
    CutItems (before ++ read) (before ++ trees) := by
  induction before with
  | nil => exact hRead
  | cons tree before ih => exact .next tree ih

/- Members that were read before stay in front. -/
theorem CutMembers.behind
    {read rest : List (String × Tree)}
    (hRead : CutMembers read rest)
    (before : List (String × Tree)) :
    CutMembers (before ++ read) (before ++ rest) := by
  induction before with
  | nil => exact hRead
  | cons member before ih => exact .next member ih

/- The first member that was read has the first key. -/
theorem CutMembers.eq_nil_or_cons
    {read members : List (String × Tree)}
    (hCut : CutMembers read members) :
    read = [] ∨
      ∃ key first more whole rest,
        read = (key, first) :: more ∧
          members = (key, whole) :: rest ∧
            Cut first whole := by
  cases hCut with
  | none => exact Or.inl rfl
  | last key rest hTree =>
      exact
        Or.inr ⟨key, _, [], _, rest, rfl, rfl, hTree⟩
  | next member hRest =>
      exact
        Or.inr
          ⟨member.1, _, _, _, _, rfl, rfl, .whole member.2⟩

/- A complete tree is cut short of no other tree. -/
theorem Cut.eq_of_complete
    {read tree : Tree}
    (hCut : Cut read tree)
    (hComplete : read.Complete) :
    read = tree := by
  cases hCut with
  | whole => rfl
  | broken => exact absurd hComplete id
  | array closed hItems =>
      exact absurd hComplete.1 Bool.false_ne_true
  | object closed hMembers =>
      exact absurd hComplete.1 Bool.false_ne_true

end Tree

------------------------------------------------------------
-- Open Containers
------------------------------------------------------------

open SignedMetadata.Json.Tree (Cut CutItems CutMembers)

variable {read tree : Tree}
variable {stack : List Frame}

/- A container is cut short with its last part. -/
theorem Frame.cut_abandon
    (frame : Frame)
    (hCut : Cut read tree) :
    Cut (frame.abandon read) (frame.abandon tree) := by
  cases frame with
  | array before =>
      rw [Frame.abandon, Frame.abandon, List.reverse_cons,
        List.reverse_cons]
      apply Cut.array
      exact (CutItems.last [] hCut).behind before.reverse
  | object before key =>
      rw [Frame.abandon, Frame.abandon, List.reverse_cons,
        List.reverse_cons]
      apply Cut.object
      exact
        (CutMembers.last key [] hCut).behind before.reverse

/- So are all containers around it. -/
theorem cut_abandon
    (stack : List Frame)
    (hCut : Cut read tree) :
    Cut (abandon stack read) (abandon stack tree) := by
  induction stack generalizing read tree with
  | nil => exact hCut
  | cons frame stack ih => exact ih (frame.cut_abandon hCut)

/- An array is cut short before an element. -/
theorem cut_array
    (before : List Tree)
    (closed : Bool)
    (trees : List Tree) :
    Cut (.array before false)
      (.array (before ++ trees) closed) := by
  have hItems := (CutItems.none trees).behind before
  rw [List.append_nil] at hItems
  exact .array closed hItems

/- An object is cut short before a member. -/
theorem cut_object
    (before : List (String × Tree))
    (closed : Bool)
    (rest : List (String × Tree)) :
    Cut (.object before false)
      (.object (before ++ rest) closed) := by
  have hMembers := (CutMembers.none rest).behind before
  rw [List.append_nil] at hMembers
  exact .object closed hMembers

------------------------------------------------------------
-- Steps
------------------------------------------------------------

namespace Expectation

/- An object that may be closed at once has no members. -/
def Consistent : Expectation → Prop
| .needKey _ read first => first = true → read = []
| _ => True

/- A value is read inside the containers that are open. -/
theorem exists_abandon_valueStep
    (stack : List Frame)
    (token : Token) :
    Consistent (valueStep stack token) ∧
      ∃ value,
        (valueStep stack token).finish.root =
          abandon stack value := by
  cases token with
  | leftBracket =>
      rw [valueStep]
      by_cases hOpen : mayOpen stack = true
      · rw [if_pos hOpen]
        exact ⟨trivial, _, rfl⟩
      · rw [if_neg hOpen]
        exact ⟨trivial, _, rfl⟩
  | leftBrace =>
      rw [valueStep]
      by_cases hOpen : mayOpen stack = true
      · rw [if_pos hOpen]
        exact ⟨fun _ => rfl, _, rfl⟩
      · rw [if_neg hOpen]
        exact ⟨trivial, _, rfl⟩
  | _ => exact ⟨trivial, _, rfl⟩

/- Nothing is taken back after a value. -/
theorem cut_afterStep
    (value : Tree)
    (token : Token)
    (stack : List Frame) :
    Consistent (afterStep value token stack) ∧
      Cut (abandon stack value)
        (afterStep value token stack).finish.root := by
  match stack with
  | [] => exact ⟨trivial, .whole value⟩
  | .array before :: stack =>
      rw [afterStep]
      by_cases hComma : token = .comma
      · rw [if_pos hComma]
        refine ⟨trivial, cut_abandon stack ?_⟩
        dsimp only [Frame.abandon]
        have hMore :
            (.broken :: value :: before).reverse =
              (value :: before).reverse ++ [.broken] :=
          List.reverse_cons
        rw [hMore]
        exact cut_array _ false [.broken]
      · rw [if_neg hComma]
        by_cases hEnd : token = .rightBracket
        · rw [if_pos hEnd]
          refine ⟨trivial, cut_abandon stack ?_⟩
          exact .array true (.whole _)
        · rw [if_neg hEnd]
          exact ⟨trivial, .whole _⟩
  | .object before key :: stack =>
      rw [afterStep]
      by_cases hComma : token = .comma
      · rw [if_pos hComma]
        exact ⟨Bool.false_ne_true.elim, .whole _⟩
      · rw [if_neg hComma]
        by_cases hEnd : token = .rightBrace
        · rw [if_pos hEnd]
          refine ⟨trivial, cut_abandon stack ?_⟩
          exact .object true (.whole _)
        · rw [if_neg hEnd]
          exact ⟨trivial, .whole _⟩

/- Nothing is taken back at one token. -/
theorem cut_step
    {state : Expectation}
    (hState : state.Consistent)
    (token : Token) :
    (state.step token).Consistent ∧
      Cut state.finish.root
        (state.step token).finish.root := by
  cases state with
  | needValue stack =>
      rcases exists_abandon_valueStep stack token with
        ⟨hStep, value, hValue⟩
      refine ⟨hStep, ?_⟩
      rw [step, hValue]
      exact cut_abandon stack (.broken value)
  | needItem stack =>
      by_cases hEnd : token = .rightBracket
      · rw [step, if_pos hEnd]
        exact
          ⟨trivial, cut_abandon stack (cut_array [] true [])⟩
      · rw [step_needItem hEnd]
        rcases exists_abandon_valueStep
            (.array [] :: stack) token with
          ⟨hStep, value, hValue⟩
        refine ⟨hStep, ?_⟩
        rw [step, hValue]
        exact
          cut_abandon stack (cut_array [] false [value])
  | needKey stack before first =>
      cases token with
      | string key =>
          refine ⟨trivial, cut_abandon stack ?_⟩
          rw [Frame.abandon, List.reverse_cons]
          exact cut_object _ false [(key, .broken)]
      | rightBrace =>
          cases first with
          | false => exact ⟨trivial, .whole _⟩
          | true =>
              rw [hState rfl]
              refine ⟨trivial, cut_abandon stack ?_⟩
              exact cut_object [] true []
      | _ => exact ⟨trivial, .whole _⟩
  | needColon stack before key =>
      rw [step]
      by_cases hColon : token = .colon
      · rw [if_pos hColon]
        exact ⟨trivial, .whole _⟩
      · rw [if_neg hColon]
        exact ⟨trivial, .whole _⟩
  | haveValue stack value =>
      exact cut_afterStep value token stack
  | stopped root => exact ⟨trivial, .whole root⟩
  | trailing root => exact ⟨trivial, .whole root⟩

/- Nothing is taken back at any tokens. -/
theorem cut_foldl_step
    {state : Expectation}
    (hState : state.Consistent)
    (tokens : List Token) :
    (tokens.foldl step state).Consistent ∧
      Cut state.finish.root
        (tokens.foldl step state).finish.root := by
  induction tokens generalizing state with
  | nil => exact ⟨hState, .whole _⟩
  | cons token tokens ih =>
      rcases cut_step hState token with ⟨hNext, hFirst⟩
      rcases ih hNext with ⟨hEnd, hRest⟩
      exact ⟨hEnd, hFirst.trans hRest⟩

------------------------------------------------------------
-- Interrupted Texts
------------------------------------------------------------

/- Less is read where a text breaks off inside a string. -/
theorem cut_step_broken
    (state : Expectation)
    (text : String) :
    Cut (state.step .broken).finish.root
      (state.step (.string text)).finish.root := by
  cases state with
  | needValue stack => exact cut_abandon stack (.broken _)
  | needItem stack =>
      exact cut_abandon (.array [] :: stack) (.broken _)
  | needKey stack before first =>
      refine cut_abandon stack ?_
      rw [Frame.abandon, List.reverse_cons]
      exact cut_object _ false [(text, .broken)]
  | needColon stack before key => exact .whole _
  | haveValue stack value =>
      cases stack with
      | nil => exact .whole _
      | cons frame stack => cases frame <;> exact .whole _
  | stopped root => exact .whole root
  | trailing root => exact .whole root

/- What is read there is not complete, or it was before. -/
theorem not_complete_step_broken
    {state : Expectation}
    (hState : ∀ root, state ≠ .stopped root) :
    (state.step .broken).finish.trailing = true ∨
      ¬ (state.step .broken).finish.root.Complete := by
  cases state with
  | needValue stack =>
      exact Or.inr (not_complete_abandon id)
  | needItem stack =>
      exact Or.inr (not_complete_abandon id)
  | needKey stack before first =>
      refine Or.inr (not_complete_abandon ?_)
      intro hComplete
      exact Bool.false_ne_true hComplete.1
  | needColon stack before key =>
      exact Or.inr (not_complete_abandon id)
  | haveValue stack value =>
      cases stack with
      | nil => exact Or.inl rfl
      | cons frame stack =>
          apply Or.inr
          cases frame with
          | array before =>
              change ¬ (abandon stack _).Complete
              apply not_complete_abandon
              exact Frame.not_complete_abandon (.array before)
          | object before key =>
              change ¬ (abandon stack _).Complete
              apply not_complete_abandon
              exact
                Frame.not_complete_abandon (.object before key)
  | stopped root => exact absurd rfl (hState root)
  | trailing root => exact Or.inl rfl

end Expectation

/-
  If the tokens of a tree break off inside one of its
  strings, the tree is cut short, and it is read neither to
  its end nor as the end of the text.
-/
theorem Tree.interrupted_tokens
    {tree : Tree}
    {before after : List Token}
    {text : String}
    (hComplete : tree.Complete)
    (hDepth : tree.depth ≤ maxOpen)
    (hTokens :
      tree.tokens = before ++ .string text :: after) :
    Cut (Document.ofTokens (before ++ [.broken])).root
        tree ∧
      ((Document.ofTokens (before ++ [.broken])).trailing =
          true ∨
        ¬ (Document.ofTokens
          (before ++ [.broken])).root.Complete) := by
  have hRoom :
      ([] : List Frame).length + tree.depth ≤ maxOpen := by
    rw [List.length_nil]
    omega
  have hWhole := assembles_tokens tree hComplete [] hRoom
  rw [hTokens, List.foldl_append, List.foldl_cons] at hWhole
  rw [Document.ofTokens, List.foldl_append,
    List.foldl_cons, List.foldl_nil]
  have hStart :
      (Expectation.needValue []).Consistent := trivial
  have hBefore :=
    (Expectation.cut_foldl_step hStart before).1
  generalize
    before.foldl Expectation.step (.needValue []) = state
    at hWhole hBefore
  constructor
  · have hNext :=
      (Expectation.cut_step hBefore (.string text)).1
    have hRest :=
      (Expectation.cut_foldl_step hNext after).2
    rw [hWhole] at hRest
    exact
      (Expectation.cut_step_broken state text).trans hRest
  · apply Expectation.not_complete_step_broken
    rintro root rfl
    rw [Expectation.step, Stops.foldl_stopped] at hWhole
    cases hWhole

end Json

end SignedMetadata
