/-
  Bounds on what the canonical encoder accepts.

  A limit on container nesting and one on the size of the
  canonical text in bytes.  Both are counted in 64-bit
  words, so the loosest limits are the largest word.
-/

namespace SignedMetadata

------------------------------------------------------------
-- Limits
------------------------------------------------------------

/- The nesting and the output size that are still accepted. -/
structure Limits where
  maxDepth : Nat
  maxBytes : Nat
deriving DecidableEq, Repr

namespace Limits

/- Sixty-four nested containers and sixty-four mebibytes. -/
def standard : Limits where
  maxDepth := 64
  maxBytes := 64 * 1024 * 1024

/- The loosest limits that a 64-bit word can state. -/
def unbounded : Limits where
  maxDepth := 0xffffffffffffffff
  maxBytes := 0xffffffffffffffff

end Limits

end SignedMetadata
