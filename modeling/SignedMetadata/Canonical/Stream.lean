import SignedMetadata.Canonical.Length

/-
  Writing canonical text to a sink, fragment by fragment.

  Punctuation, words and numerals are one fragment each.  A
  string is cut before every escaped character, so that runs
  of its characters pass through unchanged.  The limits are
  checked before the first fragment is written.
-/

namespace SignedMetadata

namespace Canonical

------------------------------------------------------------
-- Strings
------------------------------------------------------------

/- A run of characters, held in reverse, unless it is empty. -/
def runFragments : List Char → List String
| [] => []
| c :: cs => [String.ofList (c :: cs).reverse]

/-
  The fragments of the characters of a string, when the run
  in hand has not been written yet.
-/
def bodyFragments
    (run : List Char) : List Char → List String
| [] => runFragments run
| c :: cs =>
    if isEscaped c then
      runFragments run ++ "\\" :: bodyFragments [c] cs
    else
      bodyFragments (c :: run) cs

/- The fragments of a string. -/
def stringFragments (s : String) : List String :=
  "\"" :: bodyFragments [] s.toList ++ ["\""]

------------------------------------------------------------
-- Values
------------------------------------------------------------

variable {m : Type → Type} [Monad m]

/- Write a string, one fragment after another. -/
def writeString
    (emit : String → m Unit)
    (s : String) : m Unit :=
  (stringFragments s).forM emit

mutual

/- Write a value, one fragment after another. -/
def write (emit : String → m Unit) : Value → m Unit
| .null => emit "null"
| .bool true => emit "true"
| .bool false => emit "false"
| .integer i => emit (Text.ofInteger i)
| .string s => writeString emit s
| .sequence items => do
    emit "["
    writeItems emit [] items
    emit "]"
| .mapping members => do
    emit "\x7b"
    writeMembers emit [] members
    emit "\x7d"

/-
  Write elements.  `lead` is written before the first, and a
  comma before every other element.
-/
def writeItems
    (emit : String → m Unit)
    (lead : List String) : List Value → m Unit
| [] => pure ()
| v :: vs => do
    lead.forM emit
    write emit v
    writeItems emit [","] vs

/- Write members, likewise. -/
def writeMembers
    (emit : String → m Unit)
    (lead : List String) :
    List (String × Value) → m Unit
| [] => pure ()
| (k, v) :: ms => do
    lead.forM emit
    writeString emit k
    emit ":"
    write emit v
    writeMembers emit [","] ms

end

/-
  Write a value within the limits to a sink.  Nothing is
  written when the limits reject the value, and writing ends
  at the first fragment that the sink refuses.
-/
def encodeTo
    {σ : Type}
    (limits : Limits)
    (sink : Sink σ)
    (value : Value) :
    ExceptT EncodeError (StateM σ) Unit :=
  match length limits value with
  | .error cause => throw cause
  | .ok _ => ExceptT.adapt .sink (write sink value)

end Canonical

end SignedMetadata
