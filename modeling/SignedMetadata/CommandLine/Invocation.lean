import SignedMetadata.CommandLine.Options
import SignedMetadata.Digest.Basic
import SignedMetadata.Role

/-
  What a command line asks for.

  A command line names one of five commands.  The limits may
  be given before or after the name of the command, and then
  those after it count.  Every command reads one input, from
  a file if an operand names one.
-/

namespace SignedMetadata

namespace CommandLine

------------------------------------------------------------
-- Commands
------------------------------------------------------------

/- What to do with the input. -/
inductive Command where
| canonicalize (signedOnly : Bool)
| digest (algorithm : HashAlgorithm) (signedOnly : Bool)
| wrap
| signAppend (keyId method sig : String)
| check
    (role : Option Role) (signable strict json : Bool)
deriving DecidableEq, Repr

/- A command with its input and the limits on it. -/
structure Invocation where
  limits : Limits
  input : Option String
  command : Command
deriving DecidableEq, Repr

/- A command line asks for help, or for a command. -/
inductive Request where
| help
| run (invocation : Invocation)
deriving DecidableEq, Repr

------------------------------------------------------------
-- Options of Commands
------------------------------------------------------------

/- A number of at most 64 bits. -/
def word? (text : String) : Option Nat :=
  (Text.natural? text).filter fun n =>
    n ≤ 0xffffffffffffffff

/- The role of a name, if there is one. -/
def role? (name : String) : Option Role :=
  (Role.parse name).toOption

/- The options that limits are given by. -/
def limitOptions : List (String × (String → Bool)) :=
  [("max-depth", fun text => (word? text).isSome),
    ("max-bytes", fun text => (word? text).isSome)]

/- The options before the name of a command. -/
def commonOptions : KnownOptions := ⟨[], limitOptions⟩

/- The options of a command, by its name. -/
def commandOptions? (name : String) : Option KnownOptions :=
  let any : String → Bool := fun _ => true
  let algorithm : String → Bool :=
    fun text => (HashAlgorithm.ofName? text).isSome
  let role : String → Bool := fun text => (role? text).isSome
  [("canonicalize",
      KnownOptions.mk ["signed"] limitOptions),
    ("digest",
      ⟨["signed"], ("alg", algorithm) :: limitOptions⟩),
    ("wrap", commonOptions),
    ("sign-append",
      ⟨[], [("keyid", any), ("method", any), ("sig", any)] ++
        limitOptions⟩),
    ("check",
      ⟨["signable", "strict", "json"],
        ("role", role) :: limitOptions⟩)
  ].lookup name

/- The value of an option, if it is given, and is valid. -/
def optional?
    {α : Type}
    (parse : String → Option α)
    (text : Option String) : Option (Option α) :=
  match text with
  | none => some none
  | some text => (parse text).map some

/- A limit, given after the command, before it, or neither. -/
def limit?
    (name : String)
    (standard : Nat)
    (before after : Given) : Option Nat := do
  let before ← optional? word? (before.value? name)
  let after ← optional? word? (after.value? name)
  return (after.or before).getD standard

/- The command of a name with its options. -/
def command? (name : String) (given : Given) : Option Command :=
  if name = "canonicalize" then
    some (.canonicalize (given.hasFlag "signed"))
  else if name = "digest" then do
    let algorithm ←
      optional? HashAlgorithm.ofName? (given.value? "alg")
    return .digest (algorithm.getD .sha256)
      (given.hasFlag "signed")
  else if name = "wrap" then
    some .wrap
  else if name = "sign-append" then do
    let keyId ← given.value? "keyid"
    let method ← given.value? "method"
    let sig ← given.value? "sig"
    return .signAppend keyId method sig
  else if name = "check" then do
    let role ← optional? role? (given.value? "role")
    return .check role (given.hasFlag "signable")
      (given.hasFlag "strict") (given.hasFlag "json")
  else
    none

------------------------------------------------------------
-- Command Lines
------------------------------------------------------------

/-
  The invocation of a command by what is given before its
  name and after it.
-/
def invocation?
    (name : String)
    (before after : Given) : Option Invocation := do
  let maxDepth ←
    limit? "max-depth" Limits.standard.maxDepth before after
  let maxBytes ←
    limit? "max-bytes" Limits.standard.maxBytes before after
  let command ← command? name after
  return ⟨⟨maxDepth, maxBytes⟩, after.operands.head?, command⟩

/- The words after `help` name a command, or nothing. -/
def isTopic : List String → Bool
| [] => true
| [name] => name = "help" || (commandOptions? name).isSome
| _ => false

/-
  The invocation that arguments write.  What is given before
  the name of a command is settled after its own arguments,
  so that these may still ask for help.
-/
def invocation
    (arguments : List String) : Except Stop Invocation := do
  let before ←
    commonOptions.scan true .nothing none arguments
  match before.rest with
  | [] => .error .invalid
  | "help" :: topic =>
      .error (if isTopic topic then .help else .invalid)
  | name :: rest => do
      let known ← orInvalid (commandOptions? name)
      let after ← known.scan false .nothing none rest
      let given ← known.settle after.given after.pending
      let earlier ←
        commonOptions.settle before.given before.pending
      orInvalid (invocation? name earlier given)

/- What arguments ask for, if they are a command line. -/
def Request.parse?
    (arguments : List String) : Option Request :=
  match invocation arguments with
  | .ok invocation => some (.run invocation)
  | .error .help => some .help
  | .error .invalid => none

end CommandLine

end SignedMetadata
