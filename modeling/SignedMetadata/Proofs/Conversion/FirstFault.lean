import SignedMetadata.Proofs.Conversion
import SignedMetadata.Proofs.Json.Grammar
import SignedMetadata.Proofs.Reading.Literals

/-
  Conversion ends at the first fault.

  The nodes of data are its parts with their paths, in
  preorder: a container before what it holds, elements by
  position, members by their keys.  Every node is judged by
  itself: a container by its distance from the root, and a
  number by its literal.  Conversion succeeds if no node is
  at fault, with a value of the same structure, and otherwise
  it fails with the fault of the first node that has one.

  Main declarations:
    * `Json.nodes`
    * `Json.WellFormed`
    * `Json.Fault`
    * `Json.Denotes`
    * `Judged`
    * `Value.judged_ofJsonAt`
    * `Value.ofJson_reports_first_fault`
-/

namespace SignedMetadata

open Fallible

------------------------------------------------------------
-- Places of Errors
------------------------------------------------------------

/- The text of the path that an error names. -/
def EncodeError.place? : EncodeError → Option String
| .floatingPoint path _ => some path.render
| .integerOutOfRange path _ => some path.render
| .tooDeep path _ => some path.render
| _ => none

------------------------------------------------------------
-- Nodes of Data
------------------------------------------------------------

namespace Json

/- A part of data and where it stands. -/
abbrev Node := Path × Json

mutual

/- The nodes of data at a path, in preorder. -/
def nodes (path : Path) : Json → List Node
| .null => [(path, .null)]
| .bool b => [(path, .bool b)]
| .number literal => [(path, .number literal)]
| .string text => [(path, .string text)]
| .array items =>
    (path, .array items) :: itemNodes path 0 items
| .object members =>
    (path, .object members) :: memberNodes path members

/- The nodes of elements, the first at a position. -/
def itemNodes
    (path : Path)
    (position : Nat) : List Json → List Node
| [] => []
| json :: rest =>
    nodes (path.index position) json ++
      itemNodes path (position + 1) rest

/- The nodes of members. -/
def memberNodes
    (path : Path) : List (String × Json) → List Node
| [] => []
| (key, json) :: rest =>
    nodes (path.field key) json ++ memberNodes path rest

end

/- The data is an array or an object. -/
def IsContainer : Json → Prop
| .array _ => True
| .object _ => True
| _ => False

------------------------------------------------------------
-- Well-Formed Data
------------------------------------------------------------

/- The literal follows the grammar of numbers. -/
def IsNumber (literal : String) : Prop :=
  ∃ kept, WrittenNumber kept literal.toList

mutual

/-
  All literals follow the grammar, and the keys of all
  objects are ascending.
-/
def WellFormed : Json → Prop
| .null => True
| .bool _ => True
| .number literal => IsNumber literal
| .string _ => True
| .array items => WellFormedItems items
| .object members =>
    Members.Ascending members ∧ WellFormedMembers members

/- All elements are well formed. -/
def WellFormedItems : List Json → Prop
| [] => True
| json :: rest => WellFormed json ∧ WellFormedItems rest

/- The data of all members is well formed. -/
def WellFormedMembers : List (String × Json) → Prop
| [] => True
| (_, json) :: rest =>
    WellFormed json ∧ WellFormedMembers rest

end

mutual

/- The parts of well-formed data are well formed. -/
theorem wellFormed_of_mem_nodes
    {path : Path}
    {node : Node}
    (json : Json)
    (hWell : json.WellFormed)
    (hNode : node ∈ json.nodes path) :
    node.2.WellFormed := by
  cases json with
  | array items =>
      rcases List.mem_cons.mp hNode with rfl | hInside
      · exact hWell
      · exact wellFormed_of_mem_itemNodes items hWell hInside
  | object members =>
      rcases List.mem_cons.mp hNode with rfl | hInside
      · exact hWell
      · exact
          wellFormed_of_mem_memberNodes members hWell.2
            hInside
  | _ =>
      rw [List.mem_singleton.mp hNode]
      exact hWell

/- So are those of well-formed elements. -/
theorem wellFormed_of_mem_itemNodes
    {path : Path}
    {position : Nat}
    {node : Node}
    (items : List Json)
    (hWell : WellFormedItems items)
    (hNode : node ∈ itemNodes path position items) :
    node.2.WellFormed := by
  cases items with
  | nil => cases hNode
  | cons json rest =>
      rcases List.mem_append.mp hNode with hHere | hThere
      · exact wellFormed_of_mem_nodes json hWell.1 hHere
      · exact
          wellFormed_of_mem_itemNodes rest hWell.2 hThere

/- So are those of well-formed members. -/
theorem wellFormed_of_mem_memberNodes
    {path : Path}
    {node : Node}
    (members : List (String × Json))
    (hWell : WellFormedMembers members)
    (hNode : node ∈ memberNodes path members) :
    node.2.WellFormed := by
  cases members with
  | nil => cases hNode
  | cons member rest =>
      rcases List.mem_append.mp hNode with hHere | hThere
      · exact wellFormed_of_mem_nodes member.2 hWell.1 hHere
      · exact
          wellFormed_of_mem_memberNodes rest hWell.2 hThere

end

------------------------------------------------------------
-- Faults
------------------------------------------------------------

/- What is wrong with a node, judged by itself. -/
inductive Fault (limits : Limits) :
    Node → EncodeError → Prop where
| tooDeep
    {path : Path} {json : Json}
    (hContainer : json.IsContainer)
    (hDeep : limits.maxDepth ≤ path.length) :
    Fault limits (path, json)
      (.tooDeep path limits.maxDepth)
| fractional
    {path : Path} {literal : String}
    (hMark : ∃ c ∈ literal.toList, marksFraction c = true) :
    Fault limits (path, .number literal)
      (.floatingPoint path literal)
| outOfRange
    {path : Path} {literal : String} {i : Int}
    (hNumeral : Numeral i literal.toList)
    (hRange : ¬ Value.InRange i) :
    Fault limits (path, .number literal)
      (.integerOutOfRange path literal)

/- A fault names the path of its node. -/
theorem Fault.place?_eq
    {limits : Limits}
    {node : Node}
    {cause : EncodeError}
    (hFault : Fault limits node cause) :
    cause.place? = some node.1.render := by
  cases hFault <;> rfl

/- None of the nodes is at fault. -/
def Sound (limits : Limits) (nodes : List Node) : Prop :=
  ∀ node ∈ nodes, ∀ cause, ¬ Fault limits node cause

------------------------------------------------------------
-- Values
------------------------------------------------------------

mutual

/-
  The value has the structure of the data, with the same
  integers, texts and keys.
-/
def Denotes : Json → Value → Prop
| .null, v => v = .null
| .bool b, v => v = .bool b
| .number literal, v =>
    ∃ i, Numeral i literal.toList ∧ v = .integer i
| .string text, v => v = .string text
| .array items, v =>
    ∃ vs, DenotesItems items vs ∧ v = .sequence vs
| .object members, v =>
    ∃ ms, DenotesMembers members ms ∧ v = .mapping ms

/- The elements have the structure of the data. -/
def DenotesItems : List Json → List Value → Prop
| [], vs => vs = []
| json :: rest, vs =>
    ∃ w ws, Denotes json w ∧ DenotesItems rest ws ∧
      vs = w :: ws

/- The members have the keys and structure of the data. -/
def DenotesMembers :
    List (String × Json) → List (String × Value) → Prop
| [], ms => ms = []
| (key, json) :: rest, ms =>
    ∃ w ns, Denotes json w ∧ DenotesMembers rest ns ∧
      ms = (key, w) :: ns

end

end Json

------------------------------------------------------------
-- Literals
------------------------------------------------------------

open Json (Numeral Node Fault Sound)

/- Digits stand alone, or a fraction or exponent follows. -/
theorem Json.WrittenMagnitude.decimal_or_marked
    {kept cs : List Char}
    (hMagnitude : Json.WrittenMagnitude kept cs) :
    (∃ n, Json.Decimal n cs) ∨
      ∃ c ∈ cs, marksFraction c = true := by
  cases hMagnitude with
  | @parts n ds _ _ _ hWhole hFraction hExponent =>
      cases hFraction with
      | point _ => exact Or.inr ⟨'.', by simp, rfl⟩
      | none =>
          cases hExponent with
          | none =>
              rw [List.append_nil, List.append_nil]
              exact Or.inl ⟨n, hWhole⟩
          | @unsigned mark _ hMark _ =>
              refine Or.inr ⟨mark, by simp, ?_⟩
              rcases hMark with rfl | rfl <;> rfl
          | @signed mark _ _ hMark _ _ =>
              refine Or.inr ⟨mark, by simp, ?_⟩
              rcases hMark with rfl | rfl <;> rfl

/- A number of the grammar is an integer or a fraction. -/
theorem Json.IsNumber.numeral_or_marked
    {literal : String}
    (hNumber : Json.IsNumber literal) :
    (∃ i, Numeral i literal.toList) ∨
      ∃ c ∈ literal.toList, marksFraction c = true := by
  rcases hNumber with ⟨kept, hWritten⟩
  generalize literal.toList = cs at hWritten
  cases hWritten with
  | unsigned hMagnitude =>
      rcases hMagnitude.decimal_or_marked with
        ⟨n, hDecimal⟩ | hMark
      · exact Or.inl ⟨n, .unsigned hDecimal⟩
      · exact Or.inr hMark
  | negative hMagnitude =>
      rcases hMagnitude.decimal_or_marked with
        ⟨n, hDecimal⟩ | ⟨c, hc, hMark⟩
      · exact Or.inl ⟨-n, .negative hDecimal⟩
      · exact Or.inr ⟨c, List.mem_cons_of_mem _ hc, hMark⟩

/- A literal with a mark of a fraction is no integer. -/
theorem integerOfLiteral_of_marked
    {literal : String}
    (hMark : ∃ c ∈ literal.toList, marksFraction c = true) :
    integerOfLiteral literal = .error .fractional := by
  exact if_pos (List.any_eq_true.mpr hMark)

/- A numeral has no mark of a fraction. -/
theorem not_marked_of_numeral
    {i : Int}
    {literal : String}
    (hNumeral : Numeral i literal.toList) :
    ¬ ∃ c ∈ literal.toList, marksFraction c = true := by
  rintro ⟨c, hc, hMark⟩
  have hInteger : Text.integer? literal ≠ none := by
    rw [integer?_of_numeral hNumeral]
    exact Option.some_ne_none i
  exact
    not_marksFraction_of_isDigit
      (isDigit_of_integer? hInteger c hc) hMark

/- A numeral of an integer out of range is rejected. -/
theorem integerOfLiteral_of_outOfRange
    {i : Int}
    {literal : String}
    (hNumeral : Numeral i literal.toList)
    (hRange : ¬ Value.InRange i) :
    integerOfLiteral literal = .error .outOfRange := by
  have hUnmarked := not_marked_of_numeral hNumeral
  rw [← List.any_eq_true] at hUnmarked
  rw [integerOfLiteral, if_neg hUnmarked,
    integer?_of_numeral hNumeral]
  exact if_neg hRange

/- A literal is the numeral of one integer only. -/
theorem eq_of_numeral
    {i j : Int}
    {literal : String}
    (hFirst : Numeral i literal.toList)
    (hSecond : Numeral j literal.toList) :
    i = j := by
  have hSame := integer?_of_numeral hFirst
  rw [integer?_of_numeral hSecond] at hSame
  exact (Option.some.inj hSame).symm

------------------------------------------------------------
-- Judgement
------------------------------------------------------------

/-
  What comes out of nodes: something, if none of them is at
  fault, and else the fault of the first one that is.
-/
def Judged
    {α : Type}
    (limits : Limits)
    (nodes : List Node) : Except EncodeError α → Prop
| .ok _ => Sound limits nodes
| .error cause =>
    ∃ before node behind,
      nodes = before ++ node :: behind ∧
        Sound limits before ∧ Fault limits node cause

namespace Judged

variable {α β : Type}
variable {limits : Limits}
variable {path : Path}
variable {nodes nodes' : List Node}

/- Without nodes, everything is sound. -/
theorem nothing (a : α) :
    Judged limits [] (.ok a : Except EncodeError α) := by
  exact List.forall_mem_nil _

/- Nodes are judged one after another. -/
theorem bind
    {first : Except EncodeError α}
    {next : α → Except EncodeError β}
    (hFirst : Judged limits nodes first)
    (hNext : ∀ a, Judged limits nodes' (next a)) :
    Judged limits (nodes ++ nodes') (first >>= next) := by
  cases first with
  | error cause =>
      rcases hFirst with
        ⟨before, node, behind, rfl, hSound, hFault⟩
      refine ⟨before, node, behind ++ nodes', ?_, hSound,
        hFault⟩
      rw [List.append_assoc, List.cons_append]
  | ok a =>
      have hRest := hNext a
      change Judged limits (nodes ++ nodes') (next a)
      cases hEnd : next a with
      | ok b =>
          rw [hEnd] at hRest
          exact List.forall_mem_append.mpr ⟨hFirst, hRest⟩
      | error cause =>
          rw [hEnd] at hRest
          rcases hRest with
            ⟨before, node, behind, rfl, hSound, hFault⟩
          refine ⟨nodes ++ before, node, behind, ?_, ?_,
            hFault⟩
          · rw [List.append_assoc]
          · exact List.forall_mem_append.mpr ⟨hFirst, hSound⟩

/- What is made of the result needs no further node. -/
theorem map
    {first : Except EncodeError α}
    (make : α → β)
    (hFirst : Judged limits nodes first) :
    Judged limits nodes
      (first >>= fun a => pure (make a)) := by
  have hNext :
      ∀ a, Judged limits [] (pure (make a)) :=
    fun a => nothing (make a)
  have hBoth := hFirst.bind hNext
  rw [List.append_nil] at hBoth
  exact hBoth

/- A node that is at fault ends everything. -/
theorem fault
    {node : Node}
    {cause : EncodeError}
    (hFault : Fault limits node cause) :
    Judged limits [node]
      (.error cause : Except EncodeError α) := by
  exact ⟨[], node, [], rfl, List.forall_mem_nil _, hFault⟩

/- A node that is not at fault does not. -/
theorem sound
    {node : Node}
    (a : α)
    (hSound : ∀ cause, ¬ Fault limits node cause) :
    Judged limits [node] (.ok a : Except EncodeError α) := by
  exact List.forall_mem_singleton.mpr hSound

/- A container is judged by its distance from the root. -/
theorem enter
    {json : Json}
    (hContainer : json.IsContainer) :
    Judged limits [(path, json)] (limits.enter path) := by
  unfold Limits.enter
  split
  · rename_i hDeep
    exact fault (.tooDeep hContainer hDeep)
  · rename_i hRoom
    apply sound
    rintro cause hFault
    cases hFault with
    | tooDeep _ hDeep => exact hRoom hDeep
    | fractional _ => exact hContainer
    | outOfRange _ _ => exact hContainer

/- A number is judged by its literal. -/
theorem literal
    {literal : String}
    (hNumber : Json.IsNumber literal) :
    Judged limits [(path, .number literal)]
      (Value.ofLiteralAt path literal) := by
  unfold Value.ofLiteralAt
  rcases hNumber.numeral_or_marked with
    ⟨i, hNumeral⟩ | hMark
  · by_cases hRange : Value.InRange i
    · rw [integerOfLiteral_of_numeral hNumeral hRange]
      apply sound
      rintro cause hFault
      cases hFault with
      | tooDeep hContainer _ => exact hContainer
      | fractional hMark =>
          exact not_marked_of_numeral hNumeral hMark
      | outOfRange hOther hOut =>
          rw [eq_of_numeral hNumeral hOther] at hRange
          exact hOut hRange
    · rw [integerOfLiteral_of_outOfRange hNumeral hRange]
      exact fault (.outOfRange hNumeral hRange)
  · rw [integerOfLiteral_of_marked hMark]
    exact fault (.fractional hMark)

end Judged

------------------------------------------------------------
-- Conversion
------------------------------------------------------------

namespace Value

variable {limits : Limits}

mutual

/- Conversion judges the nodes of data. -/
theorem judged_ofJsonAt
    (path : Path)
    (json : Json)
    (hWell : json.WellFormed) :
    Judged limits (json.nodes path)
      (ofJsonAt limits path json) := by
  cases json with
  | number literal => exact .literal hWell
  | array items =>
      have hItems := judged_ofJsonItems path 0 items hWell
      have hEnter :
          Judged limits [(path, .array items)]
            (limits.enter path) :=
        .enter trivial
      exact hEnter.bind fun _ => hItems.map Value.sequence
  | object members =>
      have hMembers :=
        judged_ofJsonMembers path [] members hWell.2
      have hEnter :
          Judged limits [(path, .object members)]
            (limits.enter path) :=
        .enter trivial
      exact hEnter.bind fun _ => hMembers.map Value.mapping
  | _ =>
      apply Judged.sound
      rintro cause hFault
      cases hFault with
      | tooDeep hContainer _ => exact hContainer

/- Conversion judges the nodes of elements. -/
theorem judged_ofJsonItems
    (path : Path)
    (position : Nat)
    (items : List Json)
    (hWell : Json.WellFormedItems items) :
    Judged limits (Json.itemNodes path position items)
      (ofJsonItems limits path position items) := by
  cases items with
  | nil => exact .nothing []
  | cons json rest =>
      have hHead :=
        judged_ofJsonAt (path.index position) json hWell.1
      have hTail :=
        judged_ofJsonItems path (position + 1) rest hWell.2
      exact hHead.bind fun v => hTail.map (v :: ·)

/- Conversion judges the nodes of members. -/
theorem judged_ofJsonMembers
    (path : Path)
    (read : Members Value)
    (members : List (String × Json))
    (hWell : Json.WellFormedMembers members) :
    Judged limits (Json.memberNodes path members)
      (ofJsonMembers limits path read members) := by
  cases members with
  | nil => exact .nothing read
  | cons member rest =>
      have hHead :=
        judged_ofJsonAt (path.field member.1) member.2
          hWell.1
      exact
        hHead.bind fun v =>
          judged_ofJsonMembers path
            (Members.insert member.1 v read) rest hWell.2

end

------------------------------------------------------------
-- Structure
------------------------------------------------------------

/- A literal that gives an integer is its numeral. -/
theorem numeral_of_integerOfLiteral
    {literal : String}
    {i : Int}
    (hNumber : Json.IsNumber literal)
    (hInteger : integerOfLiteral literal = .ok i) :
    Numeral i literal.toList := by
  rcases hNumber.numeral_or_marked with
    ⟨j, hNumeral⟩ | hMark
  · have hSame := (integerOfLiteral_eq_ok_iff.mp hInteger).1
    rw [integer?_of_numeral hNumeral] at hSame
    rw [← Option.some.inj hSame]
    exact hNumeral
  · rw [integerOfLiteral_of_marked hMark] at hInteger
    cases hInteger

mutual

/- Converted data has the structure of its value. -/
theorem denotes_of_ofJsonAt
    {path : Path}
    {v : Value}
    (json : Json)
    (hWell : json.WellFormed)
    (hValue : ofJsonAt limits path json = .ok v) :
    json.Denotes v := by
  cases json with
  | number literal =>
      rcases ofJsonAt_number_iff.mp hValue with
        ⟨i, hInteger, rfl⟩
      exact ⟨i, numeral_of_integerOfLiteral hWell hInteger,
        rfl⟩
  | array items =>
      rcases ofJsonAt_array_iff.mp hValue with
        ⟨_, vs, hItems, rfl⟩
      exact ⟨vs, denotes_of_ofJsonItems items hWell hItems,
        rfl⟩
  | object members =>
      rcases (ofJsonAt_object_iff hWell.1).mp hValue with
        ⟨_, ms, hMembers, rfl⟩
      exact ⟨ms,
        denotes_of_converts members hWell.2 hMembers, rfl⟩
  | _ => exact (Except.ok.inj hValue).symm

/- Converted elements have the structure of their values. -/
theorem denotes_of_ofJsonItems
    {path : Path}
    {position : Nat}
    {vs : List Value}
    (items : List Json)
    (hWell : Json.WellFormedItems items)
    (hItems :
      ofJsonItems limits path position items = .ok vs) :
    Json.DenotesItems items vs := by
  cases items with
  | nil => exact (Except.ok.inj hItems).symm
  | cons json rest =>
      rcases ofJsonItems_cons_iff.mp hItems with
        ⟨w, hHead, ws, hTail, rfl⟩
      exact ⟨w, ws, denotes_of_ofJsonAt json hWell.1 hHead,
        denotes_of_ofJsonItems rest hWell.2 hTail, rfl⟩

/- Converted members have the structure of their values. -/
theorem denotes_of_converts
    {path : Path}
    {ms : Members Value}
    (members : List (String × Json))
    (hWell : Json.WellFormedMembers members)
    (hMembers : Converts limits path members ms) :
    Json.DenotesMembers members ms := by
  cases members with
  | nil =>
      cases hMembers
      rfl
  | cons member rest =>
      cases hMembers with
      | @cons _ n _ ns hHead hTail =>
          rcases member with ⟨key, json⟩
          rcases n with ⟨l, w⟩
          rcases hHead with ⟨rfl, hValue⟩
          exact ⟨w, ns,
            denotes_of_ofJsonAt json hWell.1 hValue,
            denotes_of_converts rest hWell.2 hTail, rfl⟩

end

------------------------------------------------------------
-- The First Fault
------------------------------------------------------------

/-
  Nodes without a fault are integers in range and containers
  above the limit.
-/
theorem sound_iff
    {nodes : List Node}
    (hWell : ∀ node ∈ nodes, node.2.WellFormed) :
    Sound limits nodes ↔
      (∀ path literal, (path, .number literal) ∈ nodes →
        ∃ i, Numeral i literal.toList ∧ InRange i) ∧
      ∀ path part, (path, part) ∈ nodes →
        part.IsContainer → path.length < limits.maxDepth := by
  constructor
  · intro hSound
    refine ⟨?_, ?_⟩
    · intro path literal hNode
      have hNumber : Json.IsNumber literal := hWell _ hNode
      rcases hNumber.numeral_or_marked with
        ⟨i, hNumeral⟩ | hMark
      · refine ⟨i, hNumeral, ?_⟩
        by_contra hRange
        exact hSound _ hNode _ (.outOfRange hNumeral hRange)
      · exact absurd (.fractional hMark) (hSound _ hNode _)
    · intro path part hNode hContainer
      by_contra hDeep
      exact
        hSound _ hNode _
          (.tooDeep hContainer (Nat.le_of_not_lt hDeep))
  · rintro ⟨hNumbers, hRoom⟩ node hNode cause hFault
    cases hFault with
    | tooDeep hContainer hDeep =>
        exact
          absurd (hRoom _ _ hNode hContainer)
            (Nat.not_lt.mpr hDeep)
    | fractional hMark =>
        rcases hNumbers _ _ hNode with ⟨i, hNumeral, _⟩
        exact not_marked_of_numeral hNumeral hMark
    | outOfRange hNumeral hRange =>
        rcases hNumbers _ _ hNode with ⟨i, hOther, hIn⟩
        rw [eq_of_numeral hOther hNumeral] at hIn
        exact hRange hIn

/-
  Well-formed data is converted exactly if all its numbers
  are integers in range and all its containers are above the
  limit.  The value then has the structure of the data; and
  else the fault is that of the first node at fault, with its
  path, all nodes before it being sound.
-/
theorem ofJson_reports_first_fault
    (limits : Limits)
    {json : Json}
    (hWell : json.WellFormed) :
    ((∃ v, ofJson limits json = .ok v) ↔
      (∀ path literal,
        (path, .number literal) ∈ json.nodes Path.root →
          ∃ i, Numeral i literal.toList ∧ InRange i) ∧
      ∀ path part, (path, part) ∈ json.nodes Path.root →
        part.IsContainer → path.length < limits.maxDepth) ∧
    (∀ v, ofJson limits json = .ok v → json.Denotes v) ∧
    ∀ cause, ofJson limits json = .error cause →
      ∃ before path part behind,
        json.nodes Path.root =
            before ++ (path, part) :: behind ∧
          Sound limits before ∧
          Fault limits (path, part) cause ∧
          cause.place? = some path.render := by
  have hJudged :
      Judged limits (json.nodes Path.root)
        (ofJson limits json) :=
    judged_ofJsonAt Path.root json hWell
  have hNodes :
      ∀ node ∈ json.nodes Path.root, node.2.WellFormed :=
    fun _ hNode =>
      Json.wellFormed_of_mem_nodes json hWell hNode
  refine ⟨?_, fun v => denotes_of_ofJsonAt json hWell, ?_⟩
  · rw [← sound_iff hNodes]
    cases hEnd : ofJson limits json with
    | ok v =>
        rw [hEnd] at hJudged
        exact iff_of_true ⟨v, rfl⟩ hJudged
    | error cause =>
        rw [hEnd] at hJudged
        rcases hJudged with
          ⟨before, node, behind, hSplit, _, hFault⟩
        apply iff_of_false
        · rintro ⟨v, hValue⟩
          cases hValue
        · intro hAll
          apply hAll node _ cause hFault
          rw [hSplit]
          exact List.mem_append_cons_self
  · intro cause hEnd
    rw [hEnd] at hJudged
    rcases hJudged with
      ⟨before, ⟨path, part⟩, behind, hSplit, hBefore,
        hFault⟩
    exact ⟨before, path, part, behind, hSplit, hBefore,
      hFault, hFault.place?_eq⟩

/-
  A fraction inside an array that stands too deep, and after
  it an integer of 129 bits: the array is reported.
-/
theorem ofJson_reports_first_fault_competing :
    ∃ json : Json,
      json =
          .object
            [("a", .array [.number "-1",
              .array [.number "2.5"]]),
            ("b",
              .number
                "170141183460469231731687303715884105728")] ∧
        json.WellFormed ∧
        ofJson ⟨2, 0⟩ json =
          .error (.tooDeep [.field "a", .index 1] 2) ∧
        ∃ before path part behind,
          json.nodes Path.root =
              before ++ (path, part) :: behind ∧
            Sound ⟨2, 0⟩ before ∧
            Fault ⟨2, 0⟩ (path, part)
              (.tooDeep [.field "a", .index 1] 2) ∧
            some "$.a[1]" = some path.render := by
  have hDigits : Json.Digits ['5'] :=
    ⟨by decide, List.all_eq_true.mp rfl⟩
  have hOne : Json.Decimal 1 ['1'] :=
    ⟨by decide, List.all_eq_true.mp rfl, by decide, rfl⟩
  have hTwo : Json.Decimal 2 ['2'] :=
    ⟨by decide, List.all_eq_true.mp rfl, by decide, rfl⟩
  have hLarge :
      Json.Decimal 170141183460469231731687303715884105728
        "170141183460469231731687303715884105728".toList :=
    ⟨by decide, List.all_eq_true.mp rfl, by decide, rfl⟩
  have hNegative : Json.IsNumber "-1" :=
    ⟨_, (Numeral.negative hOne).written⟩
  have hFraction : Json.IsNumber "2.5" :=
    ⟨_, .unsigned (.parts hTwo (.point hDigits) .none)⟩
  have hNumber :
      Json.IsNumber
        "170141183460469231731687303715884105728" :=
    ⟨_, (Numeral.unsigned hLarge).written⟩
  have hKeys :
      Members.Ascending
        [("a", .array [.number "-1",
          .array [.number "2.5"]]),
        ("b",
          Json.number
            "170141183460469231731687303715884105728")] := by
    decide
  have hWell :
      Json.WellFormed (.object _) :=
    ⟨hKeys,
      ⟨hNegative, ⟨hFraction, trivial⟩, trivial⟩,
      hNumber, trivial⟩
  refine ⟨_, rfl, hWell, rfl, ?_⟩
  exact
    (ofJson_reports_first_fault ⟨2, 0⟩ hWell).2.2
      (.tooDeep [.field "a", .index 1] 2) rfl

end Value

end SignedMetadata
