/-
  Options and operands on a command line.

  An option starts with two dashes.  A flag stands alone; any
  other option takes a value, after an equals sign or as the
  next argument, which must not look like an option itself.
  Two dashes alone end the options.  No option may be given
  twice, and there is at most one operand.

  Arguments are read from left to right, and the first that
  asks for help, or has no place, ends the reading.
-/

namespace SignedMetadata

namespace CommandLine

------------------------------------------------------------
-- Known Options
------------------------------------------------------------

/-
  The names of the flags, and of the options with a value
  together with the values that they admit.
-/
structure KnownOptions where
  flags : List String
  valued : List (String × (String → Bool))

/- Why reading arguments ends before the last one. -/
inductive Stop where
| help
| invalid
deriving DecidableEq, Repr

/- What is there, or an argument without a place. -/
def orInvalid {α : Type} : Option α → Except Stop α
| none => .error .invalid
| some a => .ok a

------------------------------------------------------------
-- Given Options
------------------------------------------------------------

/- The options and operands of a command line. -/
structure Given where
  flags : List String
  values : List (String × String)
  operands : List String
deriving DecidableEq, Repr

namespace Given

/- Nothing has been given. -/
def nothing : Given := ⟨[], [], []⟩

/- The flag was given. -/
def hasFlag (given : Given) (name : String) : Bool :=
  given.flags.contains name

/- The value of an option. -/
def value? (given : Given) (name : String) : Option String :=
  given.values.lookup name

/- One more flag, unless it was given before. -/
def addFlag
    (given : Given)
    (name : String) : Except Stop Given :=
  if given.hasFlag name then .error .invalid
  else
    .ok ⟨name :: given.flags, given.values, given.operands⟩

/-
  One more option with a value, unless it was given before
  or does not admit the value.
-/
def addValue
    (given : Given)
    (admits : String → Bool)
    (name value : String) : Except Stop Given :=
  if (given.value? name).isSome || !admits value then
    .error .invalid
  else
    .ok ⟨given.flags, (name, value) :: given.values,
      given.operands⟩

/- One more operand, unless there is one. -/
def addOperand
    (given : Given)
    (operand : String) : Except Stop Given :=
  if given.operands.isEmpty then
    .ok ⟨given.flags, given.values, [operand]⟩
  else
    .error .invalid

end Given

------------------------------------------------------------
-- Arguments
------------------------------------------------------------

/- What one argument is. -/
inductive Argument where
| help
| endOfOptions
| option (name : String) (attached : Option String)
| unknown
| operand (text : String)
deriving DecidableEq, Repr

/- The name of an option and a value attached to it. -/
def splitOption (cs : List Char) : Argument :=
  match cs.dropWhile (· ≠ '=') with
  | [] => .option (String.ofList cs) none
  | _ :: value =>
      .option (String.ofList (cs.takeWhile (· ≠ '=')))
        (some (String.ofList value))

/-
  What an argument is.  A dash alone is an operand, and after
  one dash the letter `h` asks for help.
-/
def Argument.ofText (text : String) : Argument :=
  match text.toList with
  | ['-', '-'] => .endOfOptions
  | '-' :: '-' :: cs =>
      if String.ofList cs = "help" then .help
      else splitOption cs
  | ['-'] => .operand text
  | '-' :: c :: _ => if c = 'h' then .help else .unknown
  | _ => .operand text

------------------------------------------------------------
-- Reading Arguments
------------------------------------------------------------

/-
  How far arguments have been read: what is given, the option
  whose value was the last argument, and what is left over.
-/
structure Scan where
  given : Given
  pending : Option (String × String)
  rest : List String
deriving DecidableEq, Repr

/- What is given together with a pending option. -/
def KnownOptions.settle
    (known : KnownOptions)
    (given : Given) :
    Option (String × String) → Except Stop Given
| none => .ok given
| some (name, value) => do
    let admits ← orInvalid (known.valued.lookup name)
    given.addValue admits name value

/-
  Read arguments.  With `onlyFirst`, the first operand and
  all that follows it are left over, and an option whose
  value stands right before the operand stays pending.
-/
def KnownOptions.scan
    (known : KnownOptions)
    (onlyFirst : Bool)
    (given : Given)
    (pending : Option (String × String)) :
    List String → Except Stop Scan
| [] => .ok ⟨given, pending, []⟩
| text :: rest =>
    match Argument.ofText text with
    | .unknown => .error .invalid
    | .help => do
        let _ ← known.settle given pending
        .error .help
    | .endOfOptions => do
        let given ← rest.foldlM Given.addOperand given
        return ⟨given, pending, []⟩
    | .operand operand =>
        if onlyFirst then
          .ok ⟨given, pending, operand :: rest⟩
        else do
          let given ← known.settle given pending
          let given ← given.addOperand operand
          known.scan onlyFirst given none rest
    | .option name attached => do
        let given ← known.settle given pending
        if known.flags.contains name then
          match attached with
          | some _ => .error .invalid
          | none => do
              let given ← given.addFlag name
              known.scan onlyFirst given none rest
        else do
          let admits ← orInvalid (known.valued.lookup name)
          match attached, rest with
          | some value, rest => do
              let given ← given.addValue admits name value
              known.scan onlyFirst given none rest
          | none, [] => .error .invalid
          | none, next :: rest =>
              match Argument.ofText next with
              | .operand _ =>
                  known.scan onlyFirst given
                    (some (name, next)) rest
              | _ => .error .invalid

end CommandLine

end SignedMetadata
