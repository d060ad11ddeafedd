import SignedMetadata.Canonical.Stream
import SignedMetadata.Digest.Sha2
import SignedMetadata.Text.Hex

/-
  Digests of canonical text.

  A digest is computed while the canonical text is written
  to the hasher, without holding the text as a whole.
-/

namespace SignedMetadata

------------------------------------------------------------
-- Algorithms
------------------------------------------------------------

/- The hash functions that metadata may name. -/
inductive HashAlgorithm where
| sha224
| sha256
| sha384
| sha512
deriving DecidableEq, Repr

namespace HashAlgorithm

/- The name of an algorithm. -/
def name : HashAlgorithm → String
| .sha224 => "sha224"
| .sha256 => "sha256"
| .sha384 => "sha384"
| .sha512 => "sha512"

/- All algorithms. -/
def all : List HashAlgorithm :=
  [.sha224, .sha256, .sha384, .sha512]

/- The algorithm of a name. -/
def ofName? (text : String) : Option HashAlgorithm :=
  all.find? fun algorithm => algorithm.name = text

/- The digest of a message, in one go. -/
def hash :
    HashAlgorithm → List UInt8 → List UInt8
| .sha224 => Sha2.sha224.hash
| .sha256 => Sha2.sha256.hash
| .sha384 => Sha2.sha384.hash
| .sha512 => Sha2.sha512.hash

end HashAlgorithm

/- A name that is no algorithm's. -/
structure UnknownAlgorithm where
  name : String
deriving DecidableEq, Repr

/- The wording for an unknown algorithm. -/
def UnknownAlgorithm.message
    (unknown : UnknownAlgorithm) : String :=
  "unsupported hash algorithm '" ++ unknown.name ++ "'"

/- The algorithm of a name, or why there is none. -/
def HashAlgorithm.parse
    (text : String) :
    Except UnknownAlgorithm HashAlgorithm :=
  match ofName? text with
  | some algorithm => .ok algorithm
  | none => .error ⟨text⟩

------------------------------------------------------------
-- Digests of Values
------------------------------------------------------------

namespace Digest

/- A sink that lets a hasher take the bytes of fragments. -/
def hashing
    {w : Nat}
    (variant : Sha2.Variant w) : Sink (Sha2.Hasher w) :=
  fun fragment =>
    modify fun hasher =>
      variant.update hasher (Text.bytes fragment)

/- Digest the canonical text of a value as it is written. -/
def streamed
    {w : Nat}
    (variant : Sha2.Variant w)
    (limits : Limits)
    (value : Value) : Except EncodeError String :=
  let (outcome, hasher) :=
    (Canonical.encodeTo limits (hashing variant) value).run
      variant.begin
  match outcome with
  | .ok () => .ok (Text.hexOfBytes (variant.finish hasher))
  | .error cause => .error cause

/- The hex digest of a value's canonical text. -/
def ofValue
    (algorithm : HashAlgorithm)
    (limits : Limits)
    (value : Value) : Except EncodeError String :=
  match algorithm with
  | .sha224 => streamed Sha2.sha224 limits value
  | .sha256 => streamed Sha2.sha256 limits value
  | .sha384 => streamed Sha2.sha384 limits value
  | .sha512 => streamed Sha2.sha512 limits value

/-
  Digests under several algorithms, bound to their names in
  ascending order.
-/
def table
    (limits : Limits)
    (value : Value)
    (algorithms : List HashAlgorithm) :
    Except EncodeError (Members String) := do
  let pairs ← algorithms.mapM fun algorithm => do
    return (algorithm.name,
      ← ofValue algorithm limits value)
  return Members.ofList pairs

end Digest

end SignedMetadata
