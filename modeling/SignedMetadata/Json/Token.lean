import SignedMetadata.Json.Number
import SignedMetadata.Text.Hex

/-
  Tokens of JSON text.

  The scanner reads one character at a time.  Its phase is
  what it is in the middle of; a step gives the next phase
  and the tokens that the character completes.  Text that is
  no token ends the scan with the token `broken`.
-/

namespace SignedMetadata

namespace Json

------------------------------------------------------------
-- Tokens
------------------------------------------------------------

/- A lexical unit of JSON text. -/
inductive Token where
| leftBracket
| rightBracket
| leftBrace
| rightBrace
| comma
| colon
| null
| bool (b : Bool)
| number (literal : String)
| string (text : String)
| broken
deriving DecidableEq, Repr

------------------------------------------------------------
-- Phases
------------------------------------------------------------

/-
  What the scanner is in the middle of.  Characters read so
  far are held in reverse.  A code unit still lacks `left`
  hex digits, and `high` is the surrogate before it.
-/
inductive Phase where
| between
| word (rest : List Char) (token : Token)
| number (part : NumberPhase) (read : List Char)
| text (read : List Char)
| escape (read : List Char)
| codeUnit
    (read : List Char) (high : Option Nat)
    (left value : Nat)
| surrogate (read : List Char) (high : Nat)
| surrogateEscape (read : List Char) (high : Nat)
| broken
deriving Repr

namespace Phase

/- A step that ends the scan. -/
def fail : Phase × List Token :=
  (.broken, [.broken])

/- The character may stand between tokens. -/
def isSpace (c : Char) : Bool :=
  c = ' ' || c = '\t' || c = '\n' || c = '\r'

------------------------------------------------------------
-- Strings
------------------------------------------------------------

/- The code unit follows a high surrogate. -/
def isHigh (unit : Nat) : Bool :=
  0xD800 ≤ unit && unit < 0xDC00

/- The code unit precedes a low surrogate. -/
def isLow (unit : Nat) : Bool :=
  0xDC00 ≤ unit && unit < 0xE000

/- The code point that two surrogates stand for. -/
def paired (high low : Nat) : Nat :=
  0x10000 + (high - 0xD800) * 0x400 + (low - 0xDC00)

/- The phase after a complete code unit. -/
def afterUnit
    (read : List Char)
    (high : Option Nat)
    (unit : Nat) : Phase × List Token :=
  match high with
  | some first =>
      if isLow unit then
        (.text (Char.ofNat (paired first unit) :: read), [])
      else
        fail
  | none =>
      if isHigh unit then (.surrogate read unit, [])
      else if isLow unit then fail
      else (.text (Char.ofNat unit :: read), [])

/- The character that a one-letter escape stands for. -/
def escaped? (c : Char) : Option Char :=
  if c = '"' ∨ c = '\\' ∨ c = '/' then some c
  else if c = 'b' then some '\x08'
  else if c = 'f' then some '\x0c'
  else if c = 'n' then some '\n'
  else if c = 'r' then some '\r'
  else if c = 't' then some '\t'
  else none

/- The step inside a string. -/
def textStep
    (read : List Char)
    (c : Char) : Phase × List Token :=
  if c = '"' then
    (.between, [.string (String.ofList read.reverse)])
  else if c = '\\' then (.escape read, [])
  else if c.toNat < 0x20 then fail
  else (.text (c :: read), [])

/- The step after a backslash. -/
def escapeStep
    (read : List Char)
    (c : Char) : Phase × List Token :=
  if c = 'u' then (.codeUnit read none 4 0, [])
  else
    match escaped? c with
    | some escaped => (.text (escaped :: read), [])
    | none => fail

/- The step inside a code unit. -/
def unitStep
    (read : List Char)
    (high : Option Nat)
    (left value : Nat)
    (c : Char) : Phase × List Token :=
  match Text.hexDigit? c with
  | none => fail
  | some digit =>
      if left ≤ 1 then
        afterUnit read high (value * 16 + digit)
      else
        (.codeUnit read high (left - 1)
          (value * 16 + digit), [])

------------------------------------------------------------
-- Steps
------------------------------------------------------------

/- The step between tokens. -/
def start (c : Char) : Phase × List Token :=
  if isSpace c then (.between, [])
  else if c = '[' then (.between, [.leftBracket])
  else if c = ']' then (.between, [.rightBracket])
  else if c = '\x7b' then (.between, [.leftBrace])
  else if c = '\x7d' then (.between, [.rightBrace])
  else if c = ',' then (.between, [.comma])
  else if c = ':' then (.between, [.colon])
  else if c = '"' then (.text [], [])
  else if c = 'n' then (.word ['u', 'l', 'l'] .null, [])
  else if c = 't' then
    (.word ['r', 'u', 'e'] (.bool true), [])
  else if c = 'f' then
    (.word ['a', 'l', 's', 'e'] (.bool false), [])
  else
    match NumberPhase.first? c with
    | some part => (.number part [c], [])
    | none => fail

/- The step inside a word. -/
def wordStep
    (rest : List Char)
    (token : Token)
    (c : Char) : Phase × List Token :=
  match rest with
  | [] => fail
  | [last] =>
      if c = last then (.between, [token]) else fail
  | next :: more =>
      if c = next then (.word more token, []) else fail

/- The token of a literal that was read. -/
def numberToken (read : List Char) : Token :=
  .number (String.ofList read.reverse)

/- The step inside a number. -/
def numberStep
    (part : NumberPhase)
    (read : List Char)
    (c : Char) : Phase × List Token :=
  match part.next? c with
  | some (next, added) =>
      (.number next (added.reverse ++ read), [])
  | none =>
      if part.endsBefore c then
        let (phase, tokens) := start c
        (phase, numberToken read :: tokens)
      else
        fail

/- The next phase, and the tokens that are complete. -/
def step : Phase → Char → Phase × List Token
| .between, c => start c
| .word rest token, c => wordStep rest token c
| .number part read, c => numberStep part read c
| .text read, c => textStep read c
| .escape read, c => escapeStep read c
| .codeUnit read high left value, c =>
    unitStep read high left value c
| .surrogate read high, c =>
    if c = '\\' then (.surrogateEscape read high, [])
    else fail
| .surrogateEscape read high, c =>
    if c = 'u' then (.codeUnit read (some high) 4 0, [])
    else fail
| .broken, _ => (.broken, [])

/- The tokens that the end of the text completes. -/
def finish : Phase → List Token
| .between => []
| .broken => []
| .number part read =>
    if part.complete then [numberToken read] else [.broken]
| _ => [.broken]

/- The tokens of the rest of a text. -/
def scan : Phase → List Char → List Token
| phase, [] => phase.finish
| phase, c :: cs =>
    let (next, tokens) := phase.step c
    tokens ++ scan next cs

end Phase

/- The tokens of a text. -/
def Token.ofText (text : String) : List Token :=
  Phase.scan .between text.toList

end Json

end SignedMetadata
