import SignedMetadata.Digest.Basic
import SignedMetadata.Proofs.Canonical.Streaming
import SignedMetadata.Proofs.Digest.Hasher
import SignedMetadata.Proofs.Members
import SignedMetadata.Proofs.Text.Hex

/-
  Digests cover the whole canonical text, and nothing else.

  A digest is computed from fragments as they are written,
  and is that of the encoding in one go, in lowercase hex.  It
  fails exactly as encoding does, before the hasher takes
  anything.  A table of digests has one entry for each
  algorithm that is asked for, in ascending order of their
  names.

  Main declarations:
    * `Digest.ofText`
    * `Digest.writesHex_ofText`
    * `Digest.length_ofText`
    * `Digest.isHex_ofText`
    * `Digest.ofValue_eq`
    * `Digest.entries`
    * `Digest.table_of_encode_ok`
    * `Digest.table_of_encode_error`
-/

namespace SignedMetadata

open Canonical (encode encodeTo fragments)

------------------------------------------------------------
-- Algorithms
------------------------------------------------------------

namespace HashAlgorithm

/- There are no other algorithms. -/
theorem mem_all (algorithm : HashAlgorithm) :
    algorithm ∈ all := by
  cases algorithm <;> decide

/- Two algorithms have two names. -/
theorem name_inj {a b : HashAlgorithm} :
    a.name = b.name ↔ a = b := by
  cases a <;> cases b <;> decide

/- How many bytes a digest has. -/
def digestBytes : HashAlgorithm → Nat
| .sha224 => 28
| .sha256 => 32
| .sha384 => 48
| .sha512 => 64

/- Every digest of an algorithm has the same length. -/
theorem length_hash
    (algorithm : HashAlgorithm)
    (message : List UInt8) :
    (algorithm.hash message).length =
      algorithm.digestBytes := by
  cases algorithm with
  | sha224 => exact Sha2.length_hash Sha2.sha224 (by decide) _
  | sha256 => exact Sha2.length_hash Sha2.sha256 (by decide) _
  | sha384 => exact Sha2.length_hash Sha2.sha384 (by decide) _
  | sha512 => exact Sha2.length_hash Sha2.sha512 (by decide) _

end HashAlgorithm

namespace Digest

variable {limits : Limits}
variable {v : Value}
variable {text : String}
variable {cause : EncodeError}

/- The hex digest of a text, which is at hand as a whole. -/
def ofText
    (algorithm : HashAlgorithm)
    (text : String) : String :=
  Text.hexOfBytes (algorithm.hash (Text.bytes text))

/- It is the hash of the bytes in lowercase hex digits. -/
theorem writesHex_ofText
    (algorithm : HashAlgorithm)
    (text : String) :
    Text.WritesHex (algorithm.hash (Text.bytes text))
      (ofText algorithm text).toList :=
  Text.writesHex_hexOfBytes _

/- Its length depends on the algorithm only. -/
theorem length_ofText
    (algorithm : HashAlgorithm)
    (text : String) :
    (ofText algorithm text).length =
      2 * algorithm.digestBytes := by
  rw [← String.length_toList,
    (writesHex_ofText algorithm text).length_eq,
    HashAlgorithm.length_hash]

/- It is a text of hex digits. -/
theorem isHex_ofText
    (algorithm : HashAlgorithm)
    (text : String) :
    Text.isHex (ofText algorithm text) = true := by
  have hDigits :
      Text.lowerHexDigits.all Text.isHexDigit = true := by
    decide
  have hLength :
      (ofText algorithm text).length ≠ 0 := by
    rw [length_ofText]
    cases algorithm <;> decide
  have hSome : (ofText algorithm text).isEmpty = false := by
    rw [String.isEmpty_eq_false_iff]
    intro hEmpty
    exact hLength (congrArg String.length hEmpty)
  rw [Text.isHex, hSome, Bool.not_false, Bool.true_and,
    List.all_eq_true]
  intro c hChar
  exact
    List.all_eq_true.mp hDigits c
      ((writesHex_ofText algorithm text).forall_mem c hChar)

------------------------------------------------------------
-- Digests as Text is Written
------------------------------------------------------------

section Streamed

variable {w : Nat}
variable (variant : Sha2.Variant w)

/- A hasher takes every text, one behind another. -/
theorem forM_hashing
    (texts : List String)
    (hasher : Sha2.Hasher w) :
    (texts.forM (hashing variant)).run hasher =
      (.ok (),
        variant.update hasher
          (texts.flatMap Text.bytes)) := by
  induction texts generalizing hasher with
  | nil => rfl
  | cons text texts ih =>
      rw [Sink.forM_cons_of_taken rfl, ih, List.flatMap_cons,
        Sha2.update_append]

/- The digest of written text is that of the encoding. -/
theorem streamed_eq
    (hWidth : 0 < w)
    (limits : Limits)
    (v : Value) :
    streamed variant limits v =
      (encode limits v).map fun text =>
        Text.hexOfBytes (variant.hash (Text.bytes text)) := by
  unfold streamed
  cases hEncode : encode limits v with
  | error cause =>
      rw [Canonical.encodeTo_of_encode_error hEncode]
      rfl
  | ok text =>
      have hTaken :=
        Sha2.represents_update
          (Sha2.represents_begin variant hWidth)
          (Text.bytes text)
      rw [Canonical.encodeTo_of_encode_ok hEncode,
        forM_hashing, Canonical.flatMap_bytes,
        Canonical.join_fragments,
        ← Canonical.eq_ofValue_of_encode hEncode]
      have hDigest := Sha2.finish_of_represents hTaken
      rw [List.nil_append] at hDigest
      exact
        congrArg
          (fun digest => Except.ok (Text.hexOfBytes digest))
          hDigest

end Streamed

/- The digest of a value is that of its encoding. -/
theorem ofValue_eq
    (algorithm : HashAlgorithm)
    (limits : Limits)
    (v : Value) :
    ofValue algorithm limits v =
      (encode limits v).map (ofText algorithm) := by
  cases algorithm with
  | sha224 => exact streamed_eq Sha2.sha224 (by decide) _ _
  | sha256 => exact streamed_eq Sha2.sha256 (by decide) _ _
  | sha384 => exact streamed_eq Sha2.sha384 (by decide) _ _
  | sha512 => exact streamed_eq Sha2.sha512 (by decide) _ _

------------------------------------------------------------
-- Tables of Digests
------------------------------------------------------------

/- The name of an algorithm with the digest of a text. -/
def entry
    (text : String)
    (algorithm : HashAlgorithm) : String × String :=
  (algorithm.name, ofText algorithm text)

/- One entry for each algorithm in a list, in name order. -/
def entries
    (text : String)
    (algorithms : List HashAlgorithm) : Members String :=
  (HashAlgorithm.all.filter (· ∈ algorithms)).map (entry text)

/- Entries are in ascending order of the names. -/
theorem ascending_entries
    (text : String)
    (algorithms : List HashAlgorithm) :
    Members.Ascending (entries text algorithms) := by
  have hAll :
      (HashAlgorithm.all.map HashAlgorithm.name).Pairwise
        (· < ·) := by
    decide
  have hKeys :
      Members.keys (entries text algorithms) =
        (HashAlgorithm.all.filter (· ∈ algorithms)).map
          HashAlgorithm.name := by
    rw [Members.keys, entries, List.map_map]
    rfl
  rw [Members.Ascending, hKeys]
  exact hAll.sublist (List.filter_sublist.map _)

/- A name is bound to the digest under its algorithm. -/
theorem lookup_map_entry
    {algorithms : List HashAlgorithm}
    {key digest : String} :
    (algorithms.map (entry text)).lookup key = some digest ↔
      ∃ a ∈ algorithms, entry text a = (key, digest) := by
  induction algorithms with
  | nil => simp
  | cons a algorithms ih =>
      rw [List.map_cons, entry, List.lookup_cons,
        List.exists_mem_cons_iff]
      by_cases hKey : key = a.name
      · subst hKey
        rw [beq_self_eq_true]
        constructor
        · intro hDigest
          exact
            Or.inl
              (congrArg (Prod.mk a.name)
                (Option.some.inj hDigest))
        · rintro (hHead | ⟨b, _, hEntry⟩)
          · exact congrArg (some ∘ Prod.snd) hHead
          · have hSame : b = a :=
              HashAlgorithm.name_inj.mp
                (congrArg Prod.fst hEntry)
            rw [hSame] at hEntry
            exact congrArg (some ∘ Prod.snd) hEntry
      · have hHead : entry text a ≠ (key, digest) := by
          intro hEntry
          exact hKey (congrArg Prod.fst hEntry).symm
        rw [beq_eq_false_iff_ne.mpr hKey, or_iff_right hHead]
        exact ih

/- Entries do not depend on order or repetition. -/
theorem ofList_map_entry
    (text : String)
    (algorithms : List HashAlgorithm) :
    Members.ofList (algorithms.map (entry text)) =
      entries text algorithms := by
  apply
    Members.eq_of_find?_eq (Members.ascending_ofList _)
      (ascending_entries text algorithms)
  intro key
  apply Option.ext
  intro digest
  rw [Members.find?_ofList, Members.last?, ← List.map_reverse,
    lookup_map_entry, Members.find?, entries,
    lookup_map_entry]
  simp [HashAlgorithm.mem_all]

/- The table of a value that is encoded has the entries. -/
theorem table_of_encode_ok
    (hEncode : encode limits v = .ok text)
    (algorithms : List HashAlgorithm) :
    table limits v algorithms =
      .ok (entries text algorithms) := by
  have hPairs :
      (algorithms.mapM fun algorithm => do
          return (algorithm.name,
            ← ofValue algorithm limits v)) =
        (.ok (algorithms.map (entry text)) :
          Except EncodeError (List (String × String))) := by
    induction algorithms with
    | nil => rfl
    | cons a algorithms ih =>
        rw [List.mapM_cons, ih, ofValue_eq, hEncode]
        rfl
  rw [table, hPairs, ← ofList_map_entry]
  rfl

/- A table with entries fails as the encoding does. -/
theorem table_of_encode_error
    (hEncode : encode limits v = .error cause)
    {algorithms : List HashAlgorithm}
    (hSome : algorithms ≠ []) :
    table limits v algorithms = .error cause := by
  cases algorithms with
  | nil => exact absurd rfl hSome
  | cons a algorithms =>
      rw [table, List.mapM_cons, ofValue_eq, hEncode]
      rfl

end Digest

end SignedMetadata
