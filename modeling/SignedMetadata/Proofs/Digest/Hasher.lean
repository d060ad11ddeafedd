import SignedMetadata.Digest.Sha2

/-
  Hashing bytes as they come is hashing them as a whole.

  A hasher that has taken a message has compressed the full
  blocks of it, and holds the bytes behind them.  One more
  byte keeps this, so a message may be cut anywhere before it
  is handed over; and the padded message ends with a block.
  Digests have the length that their variant says.

  Main declarations:
    * `Hasher.Represents`
    * `represents_take`
    * `represents_update`
    * `finish_of_represents`
    * `length_hash`
-/

namespace SignedMetadata

namespace Sha2

variable {w : Nat}
variable {variant : Variant w}
variable {hasher : Hasher w}
variable {message : List UInt8}

------------------------------------------------------------
-- Blocks
------------------------------------------------------------

/- Blocks of one size, with less than a block behind them. -/
theorem blocks_flatten_append
    {size : Nat}
    {full : List (List UInt8)}
    {rest : List UInt8}
    (hFull : ∀ block ∈ full, block.length = size)
    (hRest : rest.length < size) :
    blocks size (full.flatten ++ rest) = full := by
  induction full with
  | nil =>
      rw [List.flatten_nil, List.nil_append, blocks,
        if_pos (Or.inr hRest)]
  | cons block full ih =>
      rw [List.forall_mem_cons] at hFull
      rw [List.flatten_cons, List.append_assoc, blocks,
        if_neg, List.take_left' hFull.1,
        List.drop_left' hFull.1, ih hFull.2]
      rw [List.length_append, hFull.1]
      omega

------------------------------------------------------------
-- Hashers
------------------------------------------------------------

/-
  A hasher has taken a message: it has compressed blocks that
  start the message, and holds what is behind them, which is
  less than a block.
-/
structure Hasher.Represents
    (variant : Variant w)
    (hasher : Hasher w)
    (message : List UInt8) : Prop where
  compressed :
    ∃ full : List (List UInt8),
      (∀ block ∈ full, block.length = blockBytes w) ∧
        message = full.flatten ++ hasher.pending.reverse ∧
          hasher.chain =
            full.foldl variant.family.compress variant.start
  pending_lt : hasher.pending.length < blockBytes w
  taken_eq : hasher.taken = message.length

/- A new hasher has taken nothing. -/
theorem represents_begin
    (variant : Variant w)
    (hWidth : 0 < w) :
    variant.begin.Represents variant [] := by
  refine ⟨⟨[], by simp, rfl, rfl⟩, ?_, rfl⟩
  rw [Variant.begin, List.length_nil, blockBytes]
  omega

/- One more byte is taken, and a full block compressed. -/
theorem represents_take
    (hTaken : hasher.Represents variant message)
    (b : UInt8) :
    (variant.take hasher b).Represents variant
      (message ++ [b]) := by
  rcases hTaken with
    ⟨⟨full, hFull, hMessage, hChain⟩, hPending, hLength⟩
  have hCount :
      hasher.taken + 1 = (message ++ [b]).length := by
    rw [hLength, List.length_append, List.length_singleton]
  have hBytes :
      message ++ [b] =
        full.flatten ++ (b :: hasher.pending).reverse := by
    rw [hMessage, List.reverse_cons, List.append_assoc]
  by_cases hBlock :
      (b :: hasher.pending).length = blockBytes w
  · rw [Variant.take, if_pos hBlock]
    refine
      ⟨⟨full ++ [(b :: hasher.pending).reverse], ?_, ?_, ?_⟩,
        ?_, hCount⟩
    · intro block hMember
      rw [List.mem_append, List.mem_singleton] at hMember
      rcases hMember with hOld | rfl
      · exact hFull block hOld
      · rw [List.length_reverse, hBlock]
    · simpa using hBytes
    · rw [List.foldl_append, ← hChain]
      rfl
    · rw [List.length_nil]
      omega
  · rw [Variant.take, if_neg hBlock]
    refine ⟨⟨full, hFull, hBytes, hChain⟩, ?_, hCount⟩
    rw [List.length_cons] at hBlock ⊢
    omega

/- Bytes are taken one after another. -/
theorem represents_update
    (hTaken : hasher.Represents variant message)
    (bytes : List UInt8) :
    (variant.update hasher bytes).Represents variant
      (message ++ bytes) := by
  induction bytes generalizing hasher message with
  | nil =>
      rw [List.append_nil]
      exact hTaken
  | cons b bytes ih =>
      have hRest := ih (represents_take hTaken b)
      rw [List.append_assoc, List.singleton_append] at hRest
      exact hRest

/- The chaining words are those of the full blocks. -/
theorem chain_of_represents
    (hTaken : hasher.Represents variant message) :
    hasher.chain =
      (blocks (blockBytes w) message).foldl
        variant.family.compress variant.start := by
  rcases hTaken with
    ⟨⟨full, hFull, hMessage, hChain⟩, hPending, _⟩
  rw [hMessage, blocks_flatten_append hFull, hChain]
  rw [List.length_reverse]
  exact hPending

/- The digest of what was taken is that of the message. -/
theorem finish_of_represents
    (hTaken : hasher.Represents variant message) :
    variant.finish hasher = variant.hash message := by
  have hPadded :=
    represents_update hTaken (padding w hasher.taken)
  rw [Variant.finish, chain_of_represents hPadded,
    hTaken.taken_eq]
  rfl

------------------------------------------------------------
-- Digests
------------------------------------------------------------

/- A digest is cut off from the bytes of eight words. -/
theorem length_hash
    (variant : Variant w)
    (hWords : variant.digestBytes ≤ 8 * (w / 8))
    (message : List UInt8) :
    (variant.hash message).length = variant.digestBytes := by
  have hBytes (chain : Chain w) :
      (chain.words.flatMap fun word =>
        bigEndian (w / 8) word.toNat).length =
          8 * (w / 8) := by
    simp [Chain.words, bigEndian]
    omega
  rw [Variant.hash, Variant.digest, List.length_take, hBytes]
  exact Nat.min_eq_left hWords

end Sha2

end SignedMetadata
