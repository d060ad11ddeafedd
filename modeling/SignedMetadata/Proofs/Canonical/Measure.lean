import SignedMetadata.Proofs.Canonical.Fragments
import SignedMetadata.Proofs.Canonical.Size
import SignedMetadata.Proofs.Text.Utf8
import SignedMetadata.Proofs.Value.Containers

/-
  The measurement before encoding is exact.

  A measurement ends with the sum of all sizes, or with the
  first fault.  `Measured` says this of one part of a value:
  how many bytes it adds, and where its containers stand.
  Parts measured one after another are measured together.

  Main declarations:
    * `Measured`
    * `measure_measured`
    * `length_exact`
-/

namespace SignedMetadata

namespace Canonical

open Value (containers itemContainers memberContainers)
open Value (firstAt firstAt_append firstAt_cons)

------------------------------------------------------------
-- Measured Parts
------------------------------------------------------------

/-
  The end of the measurement of a part of `count` bytes with
  containers at some places: the new total, when it fits and
  no container lies at the depth limit; else the first such
  container, or that the part does not fit.
-/
def Measured
    (limits : Limits)
    (total count : Nat)
    (places : List Path) : Except EncodeError Nat → Prop
| .ok sum =>
    sum = total + count ∧ sum ≤ limits.maxBytes ∧
      firstAt limits.maxDepth places = none
| .error cause =>
    (∃ path,
      firstAt limits.maxDepth places = some path ∧
        cause = .tooDeep path limits.maxDepth) ∨
      limits.maxBytes < total + count ∧
        cause = .tooLarge limits.maxBytes

namespace Measured

variable {limits : Limits}
variable {total count count' : Nat}
variable {places places' : List Path}

/- No part adds nothing. -/
theorem nothing
    (hTotal : total ≤ limits.maxBytes) :
    Measured limits total 0 [] (.ok total) := by
  exact ⟨rfl, hTotal, Value.firstAt_nil _⟩

/- Bytes are added if they fit. -/
theorem grow (total count : Nat) :
    Measured limits total count []
      (Canonical.grow limits total count) := by
  by_cases hFits : total + count ≤ limits.maxBytes
  · rw [Canonical.grow, if_pos hFits]
    exact ⟨rfl, hFits, Value.firstAt_nil _⟩
  · rw [Canonical.grow, if_neg hFits]
    exact Or.inr ⟨Nat.lt_of_not_le hFits, rfl⟩

/- One part is measured after another. -/
theorem bind
    {first : Except EncodeError Nat}
    {next : Nat → Except EncodeError Nat}
    (hFirst : Measured limits total count places first)
    (hNext :
      ∀ sum, sum = total + count →
        sum ≤ limits.maxBytes →
          Measured limits sum count' places' (next sum)) :
    Measured limits total (count + count')
      (places ++ places') (first >>= next) := by
  cases first with
  | ok sum =>
      rcases hFirst with ⟨rfl, hFits, hNone⟩
      have hRest := hNext _ rfl hFits
      change Measured limits total (count + count')
        (places ++ places') (next (total + count))
      cases hEnd : next (total + count) with
      | ok last =>
          rw [hEnd] at hRest
          rcases hRest with ⟨hSum, hLast, hNone'⟩
          refine ⟨by omega, hLast, ?_⟩
          rw [firstAt_append, hNone, hNone', Option.or_none]
      | error cause =>
          rw [hEnd] at hRest
          rcases hRest with
            ⟨path, hPath, hCause⟩ | ⟨hLarge, hCause⟩
          · refine Or.inl ⟨path, ?_, hCause⟩
            rw [firstAt_append, hNone, hPath, Option.none_or]
          · exact Or.inr ⟨by omega, hCause⟩
  | error cause =>
      rcases hFirst with
        ⟨path, hPath, hCause⟩ | ⟨hLarge, hCause⟩
      · refine Or.inl ⟨path, ?_, hCause⟩
        rw [firstAt_append, hPath, Option.some_or]
      · exact Or.inr ⟨by omega, hCause⟩

/-
  A container is entered unless it lies at the depth limit,
  which no container above it does.
-/
theorem enter
    {path : Path}
    {content : Except EncodeError Nat}
    (hPath : path.length ≤ limits.maxDepth)
    (hContent :
      path.length < limits.maxDepth →
        Measured limits total count places content) :
    Measured limits total count (path :: places)
      (limits.enter path >>= fun _ => content) := by
  by_cases hDeep : limits.maxDepth ≤ path.length
  · have hHere : path.length = limits.maxDepth := by omega
    rw [Limits.enter, if_pos hDeep]
    refine Or.inl ⟨path, ?_, rfl⟩
    rw [firstAt_cons, if_pos hHere]
  · have hBelow : path.length < limits.maxDepth := by omega
    have hMeasured := hContent hBelow
    rw [Limits.enter, if_neg hDeep]
    change Measured limits total count (path :: places)
      content
    cases content with
    | ok sum =>
        rcases hMeasured with ⟨hSum, hFits, hNone⟩
        refine ⟨hSum, hFits, ?_⟩
        rw [firstAt_cons, if_neg (by omega), hNone]
    | error cause =>
        rcases hMeasured with ⟨place, hPlace, hCause⟩ | hLarge
        · refine Or.inl ⟨place, ?_, hCause⟩
          rw [firstAt_cons, if_neg (by omega), hPlace]
        · exact Or.inr hLarge

end Measured

------------------------------------------------------------
-- Measured Values
------------------------------------------------------------

mutual

/- Measuring adds the size and visits the containers. -/
theorem measure_measured
    {limits : Limits}
    (path : Path)
    (total : Nat)
    (v : Value)
    (hPath : path.length ≤ limits.maxDepth) :
    Measured limits total (size v) (containers path v)
      (measure limits path total v) := by
  cases v with
  | null => exact Measured.grow total 4
  | bool b =>
      cases b with
      | false => exact Measured.grow total 5
      | true => exact Measured.grow total 4
  | integer i =>
      rw [size_integer]
      exact Measured.grow total (integerLength i)
  | string s =>
      have hSize : size (.string s) = stringLength s :=
        utf8ByteSize_ofString s
      rw [hSize]
      exact Measured.grow total (stringLength s)
  | sequence items =>
      rw [size_sequence, containers, measure]
      apply Measured.enter hPath
      intro hBelow
      exact
        (Measured.grow total (2 + (items.length - 1))).bind
          fun sum _ hSum =>
            measureItems_measured path 0 sum items hBelow
              hSum
  | mapping members =>
      rw [size_mapping, containers, measure]
      apply Measured.enter hPath
      intro hBelow
      exact
        (Measured.grow total
          (2 + (members.length - 1))).bind
          fun sum _ hSum =>
            measureMembers_measured path sum members hBelow
              hSum

/- Measuring elements adds their sizes. -/
theorem measureItems_measured
    {limits : Limits}
    (path : Path)
    (position total : Nat)
    (vs : List Value)
    (hPath : path.length < limits.maxDepth)
    (hTotal : total ≤ limits.maxBytes) :
    Measured limits total (itemsSize vs)
      (itemContainers path position vs)
      (measureItems limits path position total vs) := by
  cases vs with
  | nil => exact Measured.nothing hTotal
  | cons v vs =>
      have hInside :
          (path.index position).length ≤ limits.maxDepth := by
        rw [Value.length_index]
        exact hPath
      have hHead :=
        measure_measured (path.index position) total v
          hInside
      exact
        hHead.bind fun sum _ hSum =>
          measureItems_measured path (position + 1) sum vs
            hPath hSum

/- Measuring members adds the sizes of keys and values. -/
theorem measureMembers_measured
    {limits : Limits}
    (path : Path)
    (total : Nat)
    (ms : List (String × Value))
    (hPath : path.length < limits.maxDepth)
    (hTotal : total ≤ limits.maxBytes) :
    Measured limits total (membersSize ms)
      (memberContainers path ms)
      (measureMembers limits path total ms) := by
  cases ms with
  | nil => exact Measured.nothing hTotal
  | cons member ms =>
      rcases member with ⟨k, v⟩
      have hKey :
          Measured limits total (stringLength k + 1) []
            (grow limits total (stringLength k + 1)) :=
        Measured.grow total (stringLength k + 1)
      have hInside :
          (path.field k).length ≤ limits.maxDepth := by
        rw [Value.length_field]
        exact hPath
      exact
        hKey.bind fun sum _ _ =>
          (measure_measured (path.field k) sum v
            hInside).bind
            fun last _ hLast =>
              measureMembers_measured path last ms hPath
                hLast

end

/- The measurement of a whole value starts from nothing. -/
theorem length_measured
    (limits : Limits)
    (v : Value) :
    Measured limits 0 (size v) (containers Path.root v)
      (length limits v) := by
  exact measure_measured Path.root 0 v (Nat.zero_le _)

------------------------------------------------------------
-- Exactness
------------------------------------------------------------

/- A value has a length if it is neither too deep nor long. -/
theorem length_eq_ok_iff
    {limits : Limits}
    {v : Value}
    {n : Nat} :
    length limits v = .ok n ↔
      v.depth ≤ limits.maxDepth ∧
        size v ≤ limits.maxBytes ∧ n = size v := by
  have hMeasured := length_measured limits v
  have hDepth :=
    Value.firstContainerAt_eq_none_iff limits.maxDepth v
  rw [Value.firstContainerAt] at hDepth
  cases hLength : length limits v with
  | ok sum =>
      rw [hLength] at hMeasured
      rcases hMeasured with ⟨hSum, hFits, hNone⟩
      have hShallow := hDepth.mp hNone
      rw [Except.ok.injEq]
      omega
  | error cause =>
      rw [hLength] at hMeasured
      rcases hMeasured with ⟨path, hPath, _⟩ | ⟨hLarge, _⟩
      · have hDeep : ¬ v.depth ≤ limits.maxDepth := by
          intro hShallow
          rw [hDepth.mpr hShallow] at hPath
          exact absurd hPath (by simp)
        simp [hDeep]
      · have hSize : ¬ size v ≤ limits.maxBytes := by omega
        simp [hSize]

/- A fault is the first container too deep, or the size. -/
theorem fault_of_length_eq_error
    {limits : Limits}
    {v : Value}
    {cause : EncodeError}
    (hLength : length limits v = .error cause) :
    (limits.maxDepth < v.depth ∧
      ∃ path,
        v.firstContainerAt limits.maxDepth = some path ∧
          cause = .tooDeep path limits.maxDepth) ∨
      limits.maxBytes < size v ∧
        cause = .tooLarge limits.maxBytes := by
  have hMeasured := length_measured limits v
  rw [hLength] at hMeasured
  rcases hMeasured with
    ⟨path, hPath, hCause⟩ | ⟨hLarge, hCause⟩
  · refine Or.inl ⟨?_, path, hPath, hCause⟩
    apply Nat.lt_of_not_le
    intro hShallow
    have hNone :=
      (Value.firstContainerAt_eq_none_iff _ v).mpr hShallow
    rw [Value.firstContainerAt, hPath] at hNone
    exact absurd hNone (by simp)
  · exact Or.inr ⟨by omega, hCause⟩

/- A value that has a length is encoded as its text. -/
theorem encode_of_length
    {limits : Limits}
    {v : Value}
    {n : Nat}
    (hLength : length limits v = .ok n) :
    encode limits v = .ok (ofValue v) := by
  rw [encode, hLength]
  rfl

/- A value that is not too deep is encoded if it fits. -/
theorem encode_of_depth_le
    {limits : Limits}
    {v : Value}
    (hDepth : v.depth ≤ limits.maxDepth) :
    encode limits v =
      if size v ≤ limits.maxBytes then .ok (ofValue v)
      else .error (.tooLarge limits.maxBytes) := by
  by_cases hFits : size v ≤ limits.maxBytes
  · have hLength : length limits v = .ok (size v) :=
      length_eq_ok_iff.mpr ⟨hDepth, hFits, rfl⟩
    rw [if_pos hFits, encode_of_length hLength]
  · rw [if_neg hFits]
    cases hLength : length limits v with
    | ok n =>
        exact absurd (length_eq_ok_iff.mp hLength).2.1 hFits
    | error cause =>
        rcases fault_of_length_eq_error hLength with
          ⟨hDeep, _⟩ | ⟨_, rfl⟩
        · exact absurd hDepth (Nat.not_le_of_lt hDeep)
        · rw [encode, hLength]
          rfl

/- A value within the limits is encoded, as its text. -/
theorem encode_eq_ok_iff
    {limits : Limits}
    {v : Value}
    {text : String} :
    encode limits v = .ok text ↔
      v.depth ≤ limits.maxDepth ∧
        size v ≤ limits.maxBytes ∧ text = ofValue v := by
  constructor
  · intro hEncode
    cases hLength : length limits v with
    | error cause =>
        rw [encode, hLength] at hEncode
        cases hEncode
    | ok n =>
        rw [encode_of_length hLength] at hEncode
        rcases length_eq_ok_iff.mp hLength with
          ⟨hDepth, hSize, _⟩
        exact
          ⟨hDepth, hSize, (Except.ok.inj hEncode).symm⟩
  · rintro ⟨hDepth, hSize, rfl⟩
    rw [encode_of_depth_le hDepth, if_pos hSize]

/-
  Measuring is exact.  The bytes that writing a value emits
  are counted, neither more nor fewer, exactly when the value
  is within both limits, and are then its encoding.  Otherwise
  the fault is the first container in preorder at the depth
  limit, of a value that is too deep, or the size limit, of a
  text that is too long.
-/
theorem length_exact
    (limits : Limits)
    (v : Value) :
    ∃ text,
      (write Sink.collector v).run "" = (.ok (), text) ∧
        (∀ n,
          length limits v = .ok n ↔
            v.depth ≤ limits.maxDepth ∧
              (Text.bytes text).length ≤ limits.maxBytes ∧
                n = (Text.bytes text).length) ∧
        (∀ n,
          length limits v = .ok n →
            encode limits v = .ok text) ∧
        ∀ cause,
          length limits v = .error cause →
            (limits.maxDepth < v.depth ∧
              ∃ path,
                v.firstContainerAt limits.maxDepth =
                    some path ∧
                  cause = .tooDeep path limits.maxDepth) ∨
              limits.maxBytes < (Text.bytes text).length ∧
                cause = .tooLarge limits.maxBytes := by
  refine ⟨ofValue v, ?_, ?_, ?_, ?_⟩
  · rw [write_collector, String.empty_append]
  · intro n
    exact length_eq_ok_iff
  · intro n hLength
    exact encode_of_length hLength
  · intro cause hLength
    exact fault_of_length_eq_error hLength

end Canonical

end SignedMetadata
