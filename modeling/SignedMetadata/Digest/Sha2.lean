import SignedMetadata.Text.Bytes

/-
  The SHA-2 family of hash functions.

  A hasher takes one byte after another.  Whenever a block
  is full it is compressed into the chaining words, so that
  only an incomplete block is ever held.  The 32-bit and the
  64-bit functions share one definition, over the width of
  their words; a `Variant` holds what tells them apart.
  `Variant.hash` is the digest of a whole message at once.
-/

namespace SignedMetadata

namespace Sha2

------------------------------------------------------------
-- Word Functions
------------------------------------------------------------

/-
  Two rotations and a third amount, by which a word is
  rotated or shifted.
-/
structure Mixing where
  first : Nat
  second : Nat
  third : Nat

/- What the functions of one word width have in common. -/
structure Family (w : Nat) where
  majorSum : Mixing
  choiceSum : Mixing
  earlyMix : Mixing
  lateMix : Mixing
  constants : List (BitVec w)

/- Three rotations of a word, combined. -/
def Mixing.rotate
    {w : Nat}
    (mix : Mixing)
    (x : BitVec w) : BitVec w :=
  x.rotateRight mix.first ^^^ x.rotateRight mix.second ^^^
    x.rotateRight mix.third

/- Two rotations and a shift of a word, combined. -/
def Mixing.shift
    {w : Nat}
    (mix : Mixing)
    (x : BitVec w) : BitVec w :=
  x.rotateRight mix.first ^^^ x.rotateRight mix.second ^^^
    (x >>> mix.third)

/- Bits of the second or third word, as the first says. -/
def choice {w : Nat} (x y z : BitVec w) : BitVec w :=
  (x &&& y) ^^^ (~~~x &&& z)

/- Bits that at least two of three words have. -/
def majority {w : Nat} (x y z : BitVec w) : BitVec w :=
  (x &&& y) ^^^ (x &&& z) ^^^ (y &&& z)

------------------------------------------------------------
-- Compression
------------------------------------------------------------

/- The eight chaining words. -/
structure Chain (w : Nat) where
  a : BitVec w
  b : BitVec w
  c : BitVec w
  d : BitVec w
  e : BitVec w
  f : BitVec w
  g : BitVec w
  h : BitVec w
deriving DecidableEq

/- Chaining words in order. -/
def Chain.words {w : Nat} (s : Chain w) : List (BitVec w) :=
  [s.a, s.b, s.c, s.d, s.e, s.f, s.g, s.h]

/- Add two chains word by word. -/
def Chain.add {w : Nat} (s t : Chain w) : Chain w where
  a := s.a + t.a
  b := s.b + t.b
  c := s.c + t.c
  d := s.d + t.d
  e := s.e + t.e
  f := s.f + t.f
  g := s.g + t.g
  h := s.h + t.h

/- One round, with its constant and its schedule word. -/
def Family.round
    {w : Nat}
    (family : Family w)
    (s : Chain w)
    (input : BitVec w × BitVec w) : Chain w :=
  let t₁ :=
    s.h + family.choiceSum.rotate s.e +
      choice s.e s.f s.g + input.1 + input.2
  let t₂ :=
    family.majorSum.rotate s.a + majority s.a s.b s.c
  { a := t₁ + t₂
    b := s.a
    c := s.b
    d := s.c
    e := s.d + t₁
    f := s.e
    g := s.f
    h := s.g }

/-
  Schedule words from the sixteen words before them; as many
  as `count`, starting with the oldest of the sixteen.
-/
def Family.schedule
    {w : Nat}
    (family : Family w)
    (recent : List (BitVec w)) : Nat → List (BitVec w)
| 0 => []
| count + 1 =>
    match recent with
    | [] => []
    | oldest :: rest =>
        let next :=
          family.lateMix.shift (rest.getD 13 0) +
            rest.getD 8 0 +
            family.earlyMix.shift (rest.getD 0 0) + oldest
        oldest :: family.schedule (rest ++ [next]) count

/- The word that bytes write, most significant byte first. -/
def wordOfBytes (w : Nat) (bytes : List UInt8) : BitVec w :=
  BitVec.ofNat w
    (bytes.foldl (fun n b => n * 256 + b.toNat) 0)

/- The words that the bytes of a block write. -/
def wordsOfBlock
    (w : Nat)
    (block : List UInt8) : List (BitVec w) :=
  (List.range 16).map fun i =>
    wordOfBytes w
      ((block.drop (i * (w / 8))).take (w / 8))

/- Compress one block into the chaining words. -/
def Family.compress
    {w : Nat}
    (family : Family w)
    (s : Chain w)
    (block : List UInt8) : Chain w :=
  let schedule :=
    family.schedule (wordsOfBlock w block)
      family.constants.length
  s.add
    ((family.constants.zip schedule).foldl family.round s)

------------------------------------------------------------
-- Hashers
------------------------------------------------------------

/- A family, the words to start from, and a digest size. -/
structure Variant (w : Nat) where
  family : Family w
  start : Chain w
  digestBytes : Nat

/-
  A hash computation in progress: the chaining words after
  the full blocks, the bytes of the incomplete block in
  reverse, and how many bytes were taken.
-/
structure Hasher (w : Nat) where
  chain : Chain w
  pending : List UInt8
  taken : Nat

variable {w : Nat}

/- How many bytes a block has: sixteen words. -/
def blockBytes (w : Nat) : Nat := 2 * w

/- A computation that has taken nothing. -/
def Variant.begin (variant : Variant w) : Hasher w where
  chain := variant.start
  pending := []
  taken := 0

/- Take one byte. -/
def Variant.take
    (variant : Variant w)
    (hasher : Hasher w)
    (b : UInt8) : Hasher w :=
  let pending := b :: hasher.pending
  if pending.length = blockBytes w then
    { chain :=
        variant.family.compress hasher.chain pending.reverse
      pending := []
      taken := hasher.taken + 1 }
  else
    { chain := hasher.chain
      pending := pending
      taken := hasher.taken + 1 }

/- Take bytes one after another. -/
def Variant.update
    (variant : Variant w)
    (hasher : Hasher w)
    (bytes : List UInt8) : Hasher w :=
  bytes.foldl variant.take hasher

/- The bytes of a number, most significant first. -/
def bigEndian (count n : Nat) : List UInt8 :=
  (List.range count).map fun i =>
    UInt8.ofNat (n / Nat.pow 256 (count - 1 - i))

/-
  What follows the message: a one bit, zero bits up to the
  last two words of a block, and the message length in bits.
-/
def padding (w taken : Nat) : List UInt8 :=
  let tail := w / 4
  let zeros :=
    (2 * blockBytes w - 1 - tail - taken % blockBytes w) %
      blockBytes w
  0x80 :: List.replicate zeros 0 ++ bigEndian tail (8 * taken)

/- The digest that chaining words stand for. -/
def Variant.digest
    (variant : Variant w)
    (chain : Chain w) : List UInt8 :=
  (chain.words.flatMap fun word =>
    bigEndian (w / 8) word.toNat).take variant.digestBytes

/- The digest of what was taken. -/
def Variant.finish
    (variant : Variant w)
    (hasher : Hasher w) : List UInt8 :=
  variant.digest
    (variant.update hasher (padding w hasher.taken)).chain

/- Taking joined messages is taking one, then the other. -/
theorem update_append
    (variant : Variant w)
    (hasher : Hasher w)
    (xs ys : List UInt8) :
    variant.update hasher (xs ++ ys) =
      variant.update (variant.update hasher xs) ys := by
  simp [Variant.update, List.foldl_append]

------------------------------------------------------------
-- Whole Messages
------------------------------------------------------------

/- The full blocks of some bytes, without what is left. -/
def blocks (size : Nat) (bytes : List UInt8) :
    List (List UInt8) :=
  if size = 0 ∨ bytes.length < size then []
  else bytes.take size :: blocks size (bytes.drop size)
termination_by bytes.length
decreasing_by
  rw [List.length_drop]
  omega

/-
  The digest of a message that is at hand as a whole: all
  blocks of the padded message, compressed in order.
-/
def Variant.hash
    (variant : Variant w)
    (message : List UInt8) : List UInt8 :=
  variant.digest
    ((blocks (blockBytes w)
      (message ++ padding w message.length)).foldl
        variant.family.compress variant.start)

------------------------------------------------------------
-- 32-Bit Functions
------------------------------------------------------------

/- Functions over 32-bit words, in sixty-four rounds. -/
def family32 : Family 32 where
  majorSum := ⟨2, 13, 22⟩
  choiceSum := ⟨6, 11, 25⟩
  earlyMix := ⟨7, 18, 3⟩
  lateMix := ⟨17, 19, 10⟩
  constants := [
    0x428A2F98, 0x71374491, 0xB5C0FBCF, 0xE9B5DBA5,
    0x3956C25B, 0x59F111F1, 0x923F82A4, 0xAB1C5ED5,
    0xD807AA98, 0x12835B01, 0x243185BE, 0x550C7DC3,
    0x72BE5D74, 0x80DEB1FE, 0x9BDC06A7, 0xC19BF174,
    0xE49B69C1, 0xEFBE4786, 0x0FC19DC6, 0x240CA1CC,
    0x2DE92C6F, 0x4A7484AA, 0x5CB0A9DC, 0x76F988DA,
    0x983E5152, 0xA831C66D, 0xB00327C8, 0xBF597FC7,
    0xC6E00BF3, 0xD5A79147, 0x06CA6351, 0x14292967,
    0x27B70A85, 0x2E1B2138, 0x4D2C6DFC, 0x53380D13,
    0x650A7354, 0x766A0ABB, 0x81C2C92E, 0x92722C85,
    0xA2BFE8A1, 0xA81A664B, 0xC24B8B70, 0xC76C51A3,
    0xD192E819, 0xD6990624, 0xF40E3585, 0x106AA070,
    0x19A4C116, 0x1E376C08, 0x2748774C, 0x34B0BCB5,
    0x391C0CB3, 0x4ED8AA4A, 0x5B9CCA4F, 0x682E6FF3,
    0x748F82EE, 0x78A5636F, 0x84C87814, 0x8CC70208,
    0x90BEFFFA, 0xA4506CEB, 0xBEF9A3F7, 0xC67178F2]

/- SHA-224. -/
def sha224 : Variant 32 where
  family := family32
  start := ⟨
    0xC1059ED8, 0x367CD507, 0x3070DD17, 0xF70E5939,
    0xFFC00B31, 0x68581511, 0x64F98FA7, 0xBEFA4FA4⟩
  digestBytes := 28

/- SHA-256. -/
def sha256 : Variant 32 where
  family := family32
  start := ⟨
    0x6A09E667, 0xBB67AE85, 0x3C6EF372, 0xA54FF53A,
    0x510E527F, 0x9B05688C, 0x1F83D9AB, 0x5BE0CD19⟩
  digestBytes := 32

------------------------------------------------------------
-- 64-Bit Functions
------------------------------------------------------------

/- Functions over 64-bit words, in eighty rounds. -/
def family64 : Family 64 where
  majorSum := ⟨28, 34, 39⟩
  choiceSum := ⟨14, 18, 41⟩
  earlyMix := ⟨1, 8, 7⟩
  lateMix := ⟨19, 61, 6⟩
  constants := [
    0x428A2F98D728AE22, 0x7137449123EF65CD,
    0xB5C0FBCFEC4D3B2F, 0xE9B5DBA58189DBBC,
    0x3956C25BF348B538, 0x59F111F1B605D019,
    0x923F82A4AF194F9B, 0xAB1C5ED5DA6D8118,
    0xD807AA98A3030242, 0x12835B0145706FBE,
    0x243185BE4EE4B28C, 0x550C7DC3D5FFB4E2,
    0x72BE5D74F27B896F, 0x80DEB1FE3B1696B1,
    0x9BDC06A725C71235, 0xC19BF174CF692694,
    0xE49B69C19EF14AD2, 0xEFBE4786384F25E3,
    0x0FC19DC68B8CD5B5, 0x240CA1CC77AC9C65,
    0x2DE92C6F592B0275, 0x4A7484AA6EA6E483,
    0x5CB0A9DCBD41FBD4, 0x76F988DA831153B5,
    0x983E5152EE66DFAB, 0xA831C66D2DB43210,
    0xB00327C898FB213F, 0xBF597FC7BEEF0EE4,
    0xC6E00BF33DA88FC2, 0xD5A79147930AA725,
    0x06CA6351E003826F, 0x142929670A0E6E70,
    0x27B70A8546D22FFC, 0x2E1B21385C26C926,
    0x4D2C6DFC5AC42AED, 0x53380D139D95B3DF,
    0x650A73548BAF63DE, 0x766A0ABB3C77B2A8,
    0x81C2C92E47EDAEE6, 0x92722C851482353B,
    0xA2BFE8A14CF10364, 0xA81A664BBC423001,
    0xC24B8B70D0F89791, 0xC76C51A30654BE30,
    0xD192E819D6EF5218, 0xD69906245565A910,
    0xF40E35855771202A, 0x106AA07032BBD1B8,
    0x19A4C116B8D2D0C8, 0x1E376C085141AB53,
    0x2748774CDF8EEB99, 0x34B0BCB5E19B48A8,
    0x391C0CB3C5C95A63, 0x4ED8AA4AE3418ACB,
    0x5B9CCA4F7763E373, 0x682E6FF3D6B2B8A3,
    0x748F82EE5DEFB2FC, 0x78A5636F43172F60,
    0x84C87814A1F0AB72, 0x8CC702081A6439EC,
    0x90BEFFFA23631E28, 0xA4506CEBDE82BDE9,
    0xBEF9A3F7B2C67915, 0xC67178F2E372532B,
    0xCA273ECEEA26619C, 0xD186B8C721C0C207,
    0xEADA7DD6CDE0EB1E, 0xF57D4F7FEE6ED178,
    0x06F067AA72176FBA, 0x0A637DC5A2C898A6,
    0x113F9804BEF90DAE, 0x1B710B35131C471B,
    0x28DB77F523047D84, 0x32CAAB7B40C72493,
    0x3C9EBE0A15C9BEBC, 0x431D67C49C100D4C,
    0x4CC5D4BECB3E42B6, 0x597F299CFC657E2A,
    0x5FCB6FAB3AD6FAEC, 0x6C44198C4A475817]

/- SHA-384. -/
def sha384 : Variant 64 where
  family := family64
  start := ⟨
    0xCBBB9D5DC1059ED8, 0x629A292A367CD507,
    0x9159015A3070DD17, 0x152FECD8F70E5939,
    0x67332667FFC00B31, 0x8EB44A8768581511,
    0xDB0C2E0D64F98FA7, 0x47B5481DBEFA4FA4⟩
  digestBytes := 48

/- SHA-512. -/
def sha512 : Variant 64 where
  family := family64
  start := ⟨
    0x6A09E667F3BCC908, 0xBB67AE8584CAA73B,
    0x3C6EF372FE94F82B, 0xA54FF53A5F1D36F1,
    0x510E527FADE682D1, 0x9B05688C2B3E6C1F,
    0x1F83D9ABFB41BD6B, 0x5BE0CD19137E2179⟩
  digestBytes := 64

end Sha2

end SignedMetadata
