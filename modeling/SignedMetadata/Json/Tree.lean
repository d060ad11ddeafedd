import SignedMetadata.Json.Token

/-
  JSON documents as far as they can be read.

  A tree holds what a text says up to the first fault in its
  grammar, with members in the order of the text and with
  repeated keys.  A container that the fault cuts short is
  not closed, and a value that could not be read is `broken`.
  A container inside 127 others is not read.

  Readers of documents are functions of this tree: whatever
  they reject before the fault is reported in place of it.
-/

namespace SignedMetadata

namespace Json

------------------------------------------------------------
-- Trees
------------------------------------------------------------

/- A JSON text up to the first fault. -/
inductive Tree where
| null
| bool (b : Bool)
| number (literal : String)
| string (text : String)
| array (items : List Tree) (closed : Bool)
| object (members : List (String × Tree)) (closed : Bool)
| broken
deriving Repr, Inhabited

/- A text with one root value; more text may follow it. -/
structure Document where
  root : Tree
  trailing : Bool
deriving Repr

------------------------------------------------------------
-- Open Containers
------------------------------------------------------------

/-
  A container that is being read, with what was read of it
  in reverse.  An object is about to read the value of a key.
-/
inductive Frame where
| array (read : List Tree)
| object (read : List (String × Tree)) (key : String)
deriving Repr

namespace Frame

/- A frame with one more value, as an unclosed container. -/
def abandon (value : Tree) : Frame → Tree
| .array read => .array (value :: read).reverse false
| .object read key =>
    .object ((key, value) :: read).reverse false

end Frame

/- The tree when reading stops at a value. -/
def abandon : List Frame → Tree → Tree
| [], value => value
| frame :: stack, value =>
    abandon stack (frame.abandon value)

/- How many containers may be open at once. -/
def maxOpen : Nat := 127

------------------------------------------------------------
-- Assembly
------------------------------------------------------------

/-
  What must come next: a value, the first element or the end
  of an array, a key (or the end of an object without
  members), a colon, or whatever follows a value.
-/
inductive Expectation where
| needValue (stack : List Frame)
| needItem (stack : List Frame)
| needKey
    (stack : List Frame) (read : List (String × Tree))
    (first : Bool)
| needColon
    (stack : List Frame) (read : List (String × Tree))
    (key : String)
| haveValue (stack : List Frame) (value : Tree)
| stopped (root : Tree)
| trailing (root : Tree)
deriving Repr

namespace Expectation

/- A container may be opened inside the open ones. -/
def mayOpen (stack : List Frame) : Bool :=
  stack.length < maxOpen

/- The step where a value must come. -/
def valueStep
    (stack : List Frame) : Token → Expectation
| .null => .haveValue stack .null
| .bool b => .haveValue stack (.bool b)
| .number literal => .haveValue stack (.number literal)
| .string text => .haveValue stack (.string text)
| .leftBracket =>
    if mayOpen stack then .needItem stack
    else .stopped (abandon stack .broken)
| .leftBrace =>
    if mayOpen stack then .needKey stack [] true
    else .stopped (abandon stack .broken)
| _ => .stopped (abandon stack .broken)

/- The step after a value. -/
def afterStep
    (value : Tree)
    (token : Token) : List Frame → Expectation
| [] => .trailing value
| .array read :: stack =>
    if token = .comma then
      .needValue (.array (value :: read) :: stack)
    else if token = .rightBracket then
      .haveValue stack (.array (value :: read).reverse true)
    else
      .stopped (abandon (.array read :: stack) value)
| .object read key :: stack =>
    if token = .comma then
      .needKey stack ((key, value) :: read) false
    else if token = .rightBrace then
      .haveValue stack
        (.object ((key, value) :: read).reverse true)
    else
      .stopped (abandon (.object read key :: stack) value)

/- The step at one token. -/
def step : Expectation → Token → Expectation
| .needValue stack, token => valueStep stack token
| .needItem stack, token =>
    if token = .rightBracket then
      .haveValue stack (.array [] true)
    else
      valueStep (.array [] :: stack) token
| .needKey stack read first, token =>
    match token with
    | .string key => .needColon stack read key
    | .rightBrace =>
        if first then .haveValue stack (.object [] true)
        else
          .stopped
            (abandon stack (.object read.reverse false))
    | _ =>
        .stopped (abandon stack (.object read.reverse false))
| .needColon stack read key, token =>
    if token = .colon then
      .needValue (.object read key :: stack)
    else
      .stopped (abandon (.object read key :: stack) .broken)
| .haveValue stack value, token => afterStep value token stack
| .stopped root, _ => .stopped root
| .trailing root, _ => .trailing root

/- The document when the text ends here. -/
def finish : Expectation → Document
| .needValue stack => ⟨abandon stack .broken, false⟩
| .needItem stack =>
    ⟨abandon stack (.array [] false), false⟩
| .needKey stack read _ =>
    ⟨abandon stack (.object read.reverse false), false⟩
| .needColon stack read key =>
    ⟨abandon (.object read key :: stack) .broken, false⟩
| .haveValue stack value => ⟨abandon stack value, false⟩
| .stopped root => ⟨root, false⟩
| .trailing root => ⟨root, true⟩

end Expectation

/- The document that tokens write. -/
def Document.ofTokens (tokens : List Token) : Document :=
  (tokens.foldl Expectation.step (.needValue [])).finish

/- The document that a text writes. -/
def Document.ofText (text : String) : Document :=
  .ofTokens (Token.ofText text)

end Json

end SignedMetadata
