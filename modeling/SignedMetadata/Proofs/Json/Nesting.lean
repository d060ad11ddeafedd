import SignedMetadata.Proofs.Json.Assembly

/-
  No document nests deeper than containers may be open.

  The assembler stops at the first container for which there
  is no room, whatever tokens follow, and leaves a tree that
  is not complete.  What it holds, from the first token to
  the last, fits into the room that the open containers
  leave.

  Main declarations:
    * `Stops`
    * `Tree.stops_tokens`
    * `Tree.complete_ofText_iff`
    * `Expectation.Fits`
    * `Expectation.fits_step`
    * `depth_ofText_le`
-/

namespace SignedMetadata

namespace Json

variable {stack : List Frame}
variable {tokens rest : List Token}
variable {tree : Tree}

------------------------------------------------------------
-- Stopping
------------------------------------------------------------

/- An abandoned container is not complete. -/
theorem Frame.not_complete_abandon (frame : Frame) :
    ¬ (frame.abandon tree).Complete := by
  intro hComplete
  cases frame with
  | array read => exact Bool.noConfusion hComplete.1
  | object read key => exact Bool.noConfusion hComplete.1

/- Nothing complete is left of an incomplete value. -/
theorem not_complete_abandon
    (hTree : ¬ tree.Complete) :
    ¬ (abandon stack tree).Complete := by
  induction stack generalizing tree with
  | nil => exact hTree
  | cons frame stack ih =>
      exact ih frame.not_complete_abandon

/- Tokens stop the assembly before a tree is complete. -/
def Stops
    (start : Expectation)
    (tokens : List Token) : Prop :=
  ∃ root : Tree,
    tokens.foldl Expectation.step start = .stopped root ∧
      ¬ root.Complete

namespace Stops

variable {start : Expectation}

/- A stopped assembly passes over all tokens. -/
theorem foldl_stopped
    (root : Tree)
    (tokens : List Token) :
    tokens.foldl Expectation.step (.stopped root) =
      .stopped root := by
  induction tokens with
  | nil => rfl
  | cons token tokens ih => exact ih

/- It has stopped for good, whatever follows. -/
theorem append
    (hStops : Stops start tokens)
    (rest : List Token) :
    Stops start (tokens ++ rest) := by
  rcases hStops with ⟨root, hRoot, hOpen⟩
  refine ⟨root, ?_, hOpen⟩
  rw [List.foldl_append, hRoot, foldl_stopped]

/- Tokens may come before those that stop it. -/
theorem behind
    {next : Expectation}
    (hTokens :
      tokens.foldl Expectation.step start = next)
    (hStops : Stops next rest) :
    Stops start (tokens ++ rest) := by
  rcases hStops with ⟨root, hRoot, hOpen⟩
  refine ⟨root, ?_, hOpen⟩
  rw [List.foldl_append, hTokens, hRoot]

/- A container stops the assembly where there is no room. -/
theorem full
    {token : Token}
    (hFull : ¬ stack.length < maxOpen)
    (hToken : token = .leftBracket ∨ token = .leftBrace)
    (rest : List Token) :
    Stops (.needValue stack) (token :: rest) := by
  have hNone : ¬ Expectation.mayOpen stack = true := by
    rw [Expectation.mayOpen, decide_eq_true_eq]
    exact hFull
  have hStep :
      Expectation.step (.needValue stack) token =
        .stopped (abandon stack .broken) := by
    rcases hToken with rfl | rfl
    · exact if_neg hNone
    · exact if_neg hNone
  refine ⟨abandon stack .broken, ?_, ?_⟩
  · rw [List.foldl_cons, hStep, foldl_stopped]
  · exact not_complete_abandon id

/- An array stops it when its elements do. -/
theorem array
    {token : Token}
    (hRoom : stack.length < maxOpen)
    (hToken : token ≠ .rightBracket)
    (hItems :
      Stops (.needValue (.array [] :: stack))
        (token :: tokens))
    (rest : List Token) :
    Stops (.needValue stack)
      (.leftBracket :: (token :: tokens ++ rest)) := by
  rcases hItems.append rest with ⟨root, hRoot, hOpen⟩
  rw [List.cons_append, List.foldl_cons] at hRoot
  refine ⟨root, ?_, hOpen⟩
  rw [List.foldl_cons, Expectation.step_leftBracket hRoom,
    List.cons_append, List.foldl_cons,
    Expectation.step_needItem hToken]
  exact hRoot

/- An object stops it when its members do. -/
theorem object
    (hRoom : stack.length < maxOpen)
    (hMembers : Stops (.needKey stack [] true) tokens)
    (rest : List Token) :
    Stops (.needValue stack)
      (.leftBrace :: (tokens ++ rest)) := by
  rcases hMembers.append rest with ⟨root, hRoot, hOpen⟩
  refine ⟨root, ?_, hOpen⟩
  rw [List.foldl_cons, Expectation.step_leftBrace hRoom]
  exact hRoot

end Stops

namespace Tree

mutual

/-
  The tokens of a tree stop the assembly when the open
  containers leave too little room for its depth.
-/
theorem stops_tokens
    (tree : Tree)
    (stack : List Frame)
    (hComplete : tree.Complete)
    (hRoom : stack.length ≤ maxOpen)
    (hDeep : maxOpen < stack.length + tree.depth) :
    Stops (.needValue stack) tree.tokens := by
  match tree with
  | .array items closed =>
      by_cases hFull : stack.length < maxOpen
      · rw [depth] at hDeep
        have hItems :=
          stops_itemTokens items stack [] hComplete.2 hFull
            hDeep
        cases items with
        | nil =>
            rw [depthItems] at hDeep
            omega
        | cons tree trees =>
            rcases exists_cons_tokens tree with
              ⟨token, rest, hTokens, hToken⟩
            rw [itemTokens, List.nil_append, hTokens,
              List.cons_append] at hItems
            rw [tokens, itemTokens, List.nil_append, hTokens,
              List.cons_append]
            exact Stops.array hFull hToken hItems _
      · exact Stops.full hFull (Or.inl rfl) _
  | .object members closed =>
      by_cases hFull : stack.length < maxOpen
      · rw [depth] at hDeep
        have hMembers :=
          stops_memberTokens members stack [] true
            hComplete.2 hFull hDeep
        exact Stops.object hFull hMembers _
      · exact Stops.full hFull (Or.inr rfl) _
  | .null => exact absurd hDeep (Nat.not_lt.mpr hRoom)
  | .bool b => exact absurd hDeep (Nat.not_lt.mpr hRoom)
  | .number literal =>
      exact absurd hDeep (Nat.not_lt.mpr hRoom)
  | .string text => exact absurd hDeep (Nat.not_lt.mpr hRoom)
  | .broken => exact absurd hComplete id

/-
  The elements of an open array, likewise.  When the first
  of them fits, another one does not.
-/
theorem stops_itemTokens
    (trees : List Tree)
    (stack : List Frame)
    (read : List Tree)
    (hComplete : CompleteItems trees)
    (hRoom : stack.length < maxOpen)
    (hDeep :
      maxOpen < stack.length + (1 + depthItems trees)) :
    Stops (.needValue (.array read :: stack))
      (itemTokens [] trees) := by
  match trees with
  | [] =>
      rw [depthItems] at hDeep
      omega
  | tree :: trees =>
      rw [depthItems] at hDeep
      have hInside :
          (Frame.array read :: stack).length =
            stack.length + 1 := by
        rfl
      by_cases hTree :
          maxOpen < stack.length + (1 + tree.depth)
      · have hStops :=
          stops_tokens tree (.array read :: stack)
            hComplete.1 (by omega) (by omega)
        exact hStops.append _
      · have hFirst :=
          assembles_tokens tree hComplete.1
            (.array read :: stack) (by omega)
        have hRest :=
          stops_itemTokens trees stack (tree :: read)
            hComplete.2 hRoom (by omega)
        cases trees with
        | nil =>
            rw [depthItems] at hDeep
            omega
        | cons next trees =>
            rw [itemTokens, itemTokens_comma]
            apply Stops.behind hFirst
            exact hRest

/- The members of an open object, likewise. -/
theorem stops_memberTokens
    (members : List (String × Tree))
    (stack : List Frame)
    (read : List (String × Tree))
    (first : Bool)
    (hComplete : CompleteMembers members)
    (hRoom : stack.length < maxOpen)
    (hDeep :
      maxOpen < stack.length + (1 + depthMembers members)) :
    Stops (.needKey stack read first)
      (memberTokens [] members) := by
  match members with
  | [] =>
      rw [depthMembers] at hDeep
      omega
  | (key, tree) :: members =>
      rw [depthMembers] at hDeep
      have hInside :
          (Frame.object read key :: stack).length =
            stack.length + 1 := by
        rfl
      by_cases hTree :
          maxOpen < stack.length + (1 + tree.depth)
      · have hStops :=
          stops_tokens tree (.object read key :: stack)
            hComplete.1 (by omega) (by omega)
        exact hStops.append _
      · have hFits :
            stack.length + (1 + tree.depth) ≤ maxOpen := by
          omega
        have hFirst :=
          (assembles_tokens tree hComplete.1).afterKey key
            read first hFits
        have hRest :=
          stops_memberTokens members stack
            ((key, tree) :: read) false hComplete.2 hRoom
            (by omega)
        cases members with
        | nil =>
            rw [depthMembers] at hDeep
            omega
        | cons next members =>
            rw [memberTokens, memberTokens_comma]
            apply Stops.behind hFirst
            exact hRest

end

/-
  A text that writes the tokens of a tree is read to its end
  exactly when the tree does not nest too deep.
-/
theorem complete_ofText_iff
    {tree : Tree}
    {text : String}
    (hComplete : tree.Complete)
    (hText : WrittenTokens tree.tokens text.toList) :
    (Document.ofText text).root.Complete ↔
      tree.depth ≤ maxOpen := by
  constructor
  · intro hRoot
    by_contra hDeep
    have hStops :=
      stops_tokens tree [] hComplete (Nat.zero_le maxOpen)
        (by rw [List.length_nil]; omega)
    rcases hStops with ⟨root, hStopped, hOpen⟩
    rw [Document.ofText, ofText_eq_tokens hText,
      Document.ofTokens, hStopped] at hRoot
    exact hOpen hRoot
  · intro hDepth
    rw [ofText_of_writtenTokens hComplete hDepth hText]
    exact hComplete

end Tree

------------------------------------------------------------
-- Room
------------------------------------------------------------

namespace Tree

/- Elements nest within a bound if every one of them does. -/
theorem depthItems_le_iff
    {n : Nat}
    {trees : List Tree} :
    depthItems trees ≤ n ↔
      ∀ tree ∈ trees, tree.depth ≤ n := by
  induction trees with
  | nil => simp [depthItems]
  | cons tree trees ih =>
      rw [depthItems, Nat.max_le, ih, List.forall_mem_cons]

/- Members nest within a bound if every one of them does. -/
theorem depthMembers_le_iff
    {n : Nat}
    {members : List (String × Tree)} :
    depthMembers members ≤ n ↔
      ∀ member ∈ members, member.2.depth ≤ n := by
  induction members with
  | nil => simp [depthMembers]
  | cons member members ih =>
      rw [depthMembers, Nat.max_le, ih, List.forall_mem_cons]

/- Elements in reverse nest as deep. -/
theorem depthItems_reverse (trees : List Tree) :
    depthItems trees.reverse = depthItems trees := by
  apply eq_of_forall_ge_iff
  intro n
  simp only [depthItems_le_iff, List.mem_reverse]

/- Members in reverse nest as deep. -/
theorem depthMembers_reverse
    (members : List (String × Tree)) :
    depthMembers members.reverse = depthMembers members := by
  apply eq_of_forall_ge_iff
  intro n
  simp only [depthMembers_le_iff, List.mem_reverse]

end Tree

/- The greatest depth of what was read into a container. -/
def Frame.depth : Frame → Nat
| .array read => Tree.depthItems read
| .object read _ => Tree.depthMembers read

/- What was read into every open container fits into it. -/
def Fitting : List Frame → Prop
| [] => True
| frame :: stack =>
    stack.length + (1 + frame.depth) ≤ maxOpen ∧
      Fitting stack

/- No more containers are open than may be. -/
theorem length_le_of_fitting (hStack : Fitting stack) :
    stack.length ≤ maxOpen := by
  cases stack with
  | nil => exact Nat.zero_le maxOpen
  | cons frame stack =>
      have hFrame := hStack.1
      rw [List.length_cons]
      omega

/- An abandoned container holds the last value as well. -/
theorem Frame.depth_abandon
    (frame : Frame)
    (tree : Tree) :
    (frame.abandon tree).depth =
      1 + max tree.depth frame.depth := by
  cases frame with
  | array read =>
      rw [Frame.abandon, Tree.depth,
        Tree.depthItems_reverse, Tree.depthItems, Frame.depth]
  | object read key =>
      rw [Frame.abandon, Tree.depth,
        Tree.depthMembers_reverse, Tree.depthMembers,
        Frame.depth]

/- What is left of a value and all open containers fits. -/
theorem depth_abandon_le
    (hStack : Fitting stack)
    (hTree : stack.length + tree.depth ≤ maxOpen) :
    (abandon stack tree).depth ≤ maxOpen := by
  induction stack generalizing tree with
  | nil =>
      rw [List.length_nil, Nat.zero_add] at hTree
      exact hTree
  | cons frame stack ih =>
      apply ih hStack.2
      have hFrame := hStack.1
      rw [List.length_cons] at hTree
      rw [Frame.depth_abandon]
      omega

namespace Expectation

/- Whatever the assembler holds fits into the open room. -/
def Fits : Expectation → Prop
| .needValue stack => Fitting stack
| .needItem stack => Fitting (.array [] :: stack)
| .needKey stack read _ =>
    stack.length + (1 + Tree.depthMembers read) ≤ maxOpen ∧
      Fitting stack
| .needColon stack read key =>
    Fitting (.object read key :: stack)
| .haveValue stack value =>
    stack.length + value.depth ≤ maxOpen ∧ Fitting stack
| .stopped root => root.depth ≤ maxOpen
| .trailing root => root.depth ≤ maxOpen

/- What is left fits when a value is missing. -/
theorem depth_abandon_broken_le (hStack : Fitting stack) :
    (abandon stack .broken).depth ≤ maxOpen := by
  exact
    depth_abandon_le hStack (length_le_of_fitting hStack)

/- A container that may be opened has room inside. -/
theorem room_of_mayOpen
    (hOpen : mayOpen stack = true) :
    stack.length + (1 + 0) ≤ maxOpen := by
  rw [mayOpen, decide_eq_true_eq] at hOpen
  exact hOpen

/- It fits after a token where a value must come. -/
theorem fits_valueStep
    (hStack : Fitting stack)
    (token : Token) :
    (valueStep stack token).Fits := by
  have hLength := length_le_of_fitting hStack
  cases token with
  | null => exact ⟨hLength, hStack⟩
  | bool b => exact ⟨hLength, hStack⟩
  | number literal => exact ⟨hLength, hStack⟩
  | string text => exact ⟨hLength, hStack⟩
  | leftBracket =>
      rw [valueStep]
      split_ifs with hOpen
      · exact ⟨room_of_mayOpen hOpen, hStack⟩
      · exact depth_abandon_broken_le hStack
  | leftBrace =>
      rw [valueStep]
      split_ifs with hOpen
      · exact ⟨room_of_mayOpen hOpen, hStack⟩
      · exact depth_abandon_broken_le hStack
  | _ => exact depth_abandon_broken_le hStack

/- It fits after a token that follows a value. -/
theorem fits_afterStep
    (hStack : Fitting stack)
    (hTree : stack.length + tree.depth ≤ maxOpen)
    (token : Token) :
    (afterStep tree token stack).Fits := by
  cases stack with
  | nil =>
      rw [List.length_nil, Nat.zero_add] at hTree
      exact hTree
  | cons frame stack =>
      have hFrame := hStack.1
      have hInside := hTree
      rw [List.length_cons] at hInside
      cases frame with
      | array read =>
          have hRoom :
              stack.length +
                  (1 + Tree.depthItems (tree :: read)) ≤
                maxOpen := by
            rw [Frame.depth] at hFrame
            rw [Tree.depthItems]
            omega
          rw [afterStep]
          split_ifs with hComma hClose
          · exact ⟨hRoom, hStack.2⟩
          · refine ⟨?_, hStack.2⟩
            rw [Tree.depth, Tree.depthItems_reverse]
            exact hRoom
          · exact depth_abandon_le hStack hTree
      | object read key =>
          have hRoom :
              stack.length +
                  (1 +
                    Tree.depthMembers ((key, tree) :: read)) ≤
                maxOpen := by
            rw [Frame.depth] at hFrame
            rw [Tree.depthMembers]
            omega
          rw [afterStep]
          split_ifs with hComma hClose
          · exact ⟨hRoom, hStack.2⟩
          · refine ⟨?_, hStack.2⟩
            rw [Tree.depth, Tree.depthMembers_reverse]
            exact hRoom
          · exact depth_abandon_le hStack hTree

/- What is left fits when a key is missing. -/
theorem depth_abandon_object_le
    {read : List (String × Tree)}
    (hStack : Fitting stack)
    (hRoom :
      stack.length + (1 + Tree.depthMembers read) ≤
        maxOpen) :
    (abandon stack (.object read.reverse false)).depth ≤
      maxOpen := by
  apply depth_abandon_le hStack
  rw [Tree.depth, Tree.depthMembers_reverse]
  exact hRoom

/- It fits after every token. -/
theorem fits_step
    {expectation : Expectation}
    (hFits : expectation.Fits)
    (token : Token) :
    (expectation.step token).Fits := by
  cases expectation with
  | needValue stack => exact fits_valueStep hFits token
  | needItem stack =>
      rw [step]
      split_ifs with hClose
      · exact hFits
      · exact fits_valueStep hFits token
  | needKey stack read first =>
      rcases hFits with ⟨hRoom, hStack⟩
      have hLeft := depth_abandon_object_le hStack hRoom
      cases token with
      | string key => exact ⟨hRoom, hStack⟩
      | rightBrace =>
          cases first with
          | true =>
              refine ⟨?_, hStack⟩
              rw [Tree.depth, Tree.depthMembers]
              omega
          | false => exact hLeft
      | _ => exact hLeft
  | needColon stack read key =>
      rw [step]
      split_ifs with hColon
      · exact hFits
      · exact depth_abandon_broken_le hFits
  | haveValue stack value =>
      exact fits_afterStep hFits.2 hFits.1 token
  | stopped root => exact hFits
  | trailing root => exact hFits

/- It fits after any number of tokens. -/
theorem fits_foldl_step
    {expectation : Expectation}
    (hFits : expectation.Fits)
    (tokens : List Token) :
    (tokens.foldl step expectation).Fits := by
  induction tokens generalizing expectation with
  | nil => exact hFits
  | cons token tokens ih => exact ih (fits_step hFits token)

/- It fits at the end of the text. -/
theorem depth_finish_le
    {expectation : Expectation}
    (hFits : expectation.Fits) :
    expectation.finish.root.depth ≤ maxOpen := by
  cases expectation with
  | needValue stack => exact depth_abandon_broken_le hFits
  | needItem stack =>
      have hRoom := hFits.1
      exact depth_abandon_le hFits.2 hRoom
  | needKey stack read first =>
      exact depth_abandon_object_le hFits.2 hFits.1
  | needColon stack read key =>
      exact depth_abandon_broken_le hFits
  | haveValue stack value =>
      exact depth_abandon_le hFits.2 hFits.1
  | stopped root => exact hFits
  | trailing root => exact hFits

end Expectation

/- A document nests no deeper than containers may be open. -/
theorem depth_ofText_le (text : String) :
    (Document.ofText text).root.depth ≤ maxOpen := by
  have hStart : (Expectation.needValue []).Fits := trivial
  exact
    Expectation.depth_finish_le
      (Expectation.fits_foldl_step hStart _)

end Json

end SignedMetadata
