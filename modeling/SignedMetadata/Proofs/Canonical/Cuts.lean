import SignedMetadata.Proofs.Canonical.Fragments
import SignedMetadata.Proofs.Text.Order

/-
  Fragments as slices of bytes.

  The bytes of a string may be cut without a look at its
  characters: an index moves over the bytes, and another one
  stays where the slice in hand starts.  A slice ends before
  every byte of an escaped character.  No other character has
  such a byte in it, so that every slice is the bytes of some
  characters, and the slices are the fragments.

  Main declarations:
    * `bodyCuts`
    * `cuts`
    * `stringCuts_bytes`
    * `cuts_eq`
-/

namespace SignedMetadata

namespace Canonical

------------------------------------------------------------
-- Slices
------------------------------------------------------------

/- The bytes from one index up to another one. -/
def slice
    (bytes : List UInt8)
    (start stop : Nat) : List UInt8 :=
  (bytes.drop start).take (stop - start)

/- A slice, unless it is empty. -/
def sliceCuts
    (bytes : List UInt8)
    (start stop : Nat) : List (List UInt8) :=
  if start < stop then [slice bytes start stop] else []

/- The byte of an escaped character. -/
def isEscapedByte (b : UInt8) : Bool :=
  b = 0x22 || b = 0x5c

/-
  The slices of the bytes of a string, when those from `start`
  have not been written and those from `index` are to come.
-/
def bodyCuts
    (bytes : List UInt8)
    (start index : Nat) : List UInt8 → List (List UInt8)
| [] => sliceCuts bytes start bytes.length
| b :: rest =>
    if isEscapedByte b then
      sliceCuts bytes start index ++
        [0x5c] :: bodyCuts bytes index (index + 1) rest
    else
      bodyCuts bytes start (index + 1) rest

/- The slices of the bytes of a string between quotes. -/
def stringCuts (bytes : List UInt8) : List (List UInt8) :=
  [0x22] :: bodyCuts bytes 0 0 bytes ++ [[0x22]]

mutual

/- The slices of a value, in order. -/
def cuts : Value → List (List UInt8)
| .null => [Text.bytes "null"]
| .bool true => [Text.bytes "true"]
| .bool false => [Text.bytes "false"]
| .integer i => [Text.bytes (Text.ofInteger i)]
| .string s => stringCuts (Text.bytes s)
| .sequence items => [0x5b] :: itemCuts [] items ++ [[0x5d]]
| .mapping members =>
    [0x7b] :: memberCuts [] members ++ [[0x7d]]

/- The slices of elements, with a comma between them. -/
def itemCuts
    (lead : List (List UInt8)) :
    List Value → List (List UInt8)
| [] => []
| v :: vs => lead ++ cuts v ++ itemCuts [[0x2c]] vs

/- The slices of members, likewise. -/
def memberCuts
    (lead : List (List UInt8)) :
    List (String × Value) → List (List UInt8)
| [] => []
| (k, v) :: ms =>
    lead ++ stringCuts (Text.bytes k) ++ [0x3a] :: cuts v ++
      memberCuts [[0x2c]] ms

end

------------------------------------------------------------
-- Cuts between Characters
------------------------------------------------------------

variable {done run block rest : List UInt8}
variable {start index : Nat}

/- The slice that starts behind some bytes. -/
theorem slice_append :
    slice (done ++ (run ++ rest)) done.length
        (done.length + run.length) =
      run := by
  rw [slice, List.drop_left', Nat.add_sub_cancel_left,
    List.take_left']
  · rfl
  · rfl

/- Bytes of no escaped character do not end a slice. -/
theorem bodyCuts_append
    {bytes : List UInt8}
    (hPlain : ∀ b ∈ block, isEscapedByte b = false)
    (rest : List UInt8) :
    bodyCuts bytes start index (block ++ rest) =
      bodyCuts bytes start (index + block.length) rest := by
  induction block generalizing index with
  | nil => rfl
  | cons b block ih =>
      rw [List.forall_mem_cons] at hPlain
      rw [List.cons_append, bodyCuts, hPlain.1,
        if_neg Bool.false_ne_true, ih hPlain.2,
        List.length_cons]
      congr 1
      omega

/- Other characters have no byte of an escaped one. -/
theorem isEscapedByte_of_mem
    {c : Char}
    {b : UInt8}
    (hPlain : isEscaped c = false)
    (hByte : b ∈ String.utf8EncodeChar c) :
    isEscapedByte b = false := by
  rw [Bool.eq_false_iff]
  intro hEscaped
  rw [isEscapedByte, Bool.or_eq_true, decide_eq_true_eq,
    decide_eq_true_eq] at hEscaped
  have hSame (d : Char)
      (hD : d.toNat = b.toNat)
      (hAscii : b.toNat < 0x80) :
      c = d := by
    have hChar := Text.toNat_eq_of_mem_utf8EncodeChar hByte hAscii
    exact Char.toNat_inj.mp (hChar.trans hD.symm)
  rcases hEscaped with rfl | rfl
  · rw [hSame '"' rfl (by decide)] at hPlain
    exact absurd hPlain (by decide)
  · rw [hSame '\\' rfl (by decide)] at hPlain
    exact absurd hPlain (by decide)

/- The byte of an escaped character is all of it. -/
theorem exists_byte_of_isEscaped
    {c : Char}
    (hEscaped : isEscaped c = true) :
    ∃ b, String.utf8EncodeChar c = [b] ∧
      isEscapedByte b = true := by
  rw [isEscaped, Bool.or_eq_true, decide_eq_true_eq,
    decide_eq_true_eq] at hEscaped
  rcases hEscaped with rfl | rfl
  · exact ⟨0x22, by decide, by decide⟩
  · exact ⟨0x5c, by decide, by decide⟩

------------------------------------------------------------
-- Slices of Characters
------------------------------------------------------------

/- The bytes of characters. -/
def utf8 (cs : List Char) : List UInt8 :=
  cs.flatMap String.utf8EncodeChar

/- The bytes of a run that is held in reverse. -/
theorem utf8_reverse_cons (c : Char) (cs : List Char) :
    utf8 (c :: cs).reverse =
      utf8 cs.reverse ++ String.utf8EncodeChar c := by
  simp [utf8]

/- The run in hand is the slice in hand. -/
theorem sliceCuts_utf8
    (done rest : List UInt8)
    (run : List Char) :
    sliceCuts (done ++ (utf8 run.reverse ++ rest))
        done.length (done.length + (utf8 run.reverse).length) =
      (runFragments run).map Text.bytes := by
  cases run with
  | nil => exact if_neg (Nat.lt_irrefl done.length)
  | cons c cs =>
      have hSome : 0 < (utf8 (c :: cs).reverse).length := by
        rw [utf8_reverse_cons, Text.utf8EncodeChar_eq,
          List.length_append, List.length_cons]
        omega
      rw [sliceCuts, if_pos (Nat.lt_add_of_pos_right hSome),
        slice_append, runFragments, List.map_singleton,
        Text.bytes_eq_flatMap, String.toList_ofList, utf8]

/-
  The slices of the bytes of characters are the bytes of the
  fragments.  The induction is on the characters; the slice
  in hand lies between the bytes of those that are done with
  and those that are to come.
-/
theorem bodyCuts_utf8
    (done : List UInt8)
    (run cs : List Char) :
    bodyCuts (done ++ (utf8 run.reverse ++ utf8 cs))
        done.length (done.length + (utf8 run.reverse).length)
        (utf8 cs) =
      (bodyFragments run cs).map Text.bytes := by
  induction cs generalizing done run with
  | nil =>
      have hSlice := sliceCuts_utf8 done [] run
      have hNone : utf8 [] = [] := rfl
      rw [List.append_nil] at hSlice
      rw [bodyFragments, ← hSlice, hNone, List.append_nil,
        bodyCuts, List.length_append]
  | cons c cs ih =>
      have hCons :
          utf8 (c :: cs) =
            String.utf8EncodeChar c ++ utf8 cs :=
        List.flatMap_cons
      by_cases hEscaped : isEscaped c = true
      · rcases exists_byte_of_isEscaped hEscaped with
          ⟨b, hByte, hCut⟩
        have hNext := ih (done ++ utf8 run.reverse) [c]
        have hOne : utf8 [c].reverse = [b] := by
          simp [utf8, hByte]
        rw [hOne, List.append_assoc, List.length_append,
          List.length_singleton] at hNext
        rw [bodyFragments, if_pos hEscaped, List.map_append,
          List.map_cons, ← hNext,
          ← sliceCuts_utf8 done ([b] ++ utf8 cs) run, hCons,
          hByte, List.singleton_append, bodyCuts, if_pos hCut]
        rfl
      · have hPlain : isEscaped c = false :=
          Bool.eq_false_iff.mpr hEscaped
        have hNext := ih done (c :: run)
        rw [utf8_reverse_cons, List.append_assoc,
          List.length_append, ← Nat.add_assoc, ← hCons]
          at hNext
        rw [bodyFragments, if_neg hEscaped, ← hNext]
        nth_rewrite 2 [hCons]
        exact
          bodyCuts_append
            (fun b hb => isEscapedByte_of_mem hPlain hb)
            (utf8 cs)

/- A string is cut into the bytes of its fragments. -/
theorem stringCuts_bytes (s : String) :
    stringCuts (Text.bytes s) =
      (stringFragments s).map Text.bytes := by
  have hBody := bodyCuts_utf8 [] [] s.toList
  have hBytes : Text.bytes s = utf8 s.toList :=
    Text.bytes_eq_flatMap s
  rw [stringCuts, hBytes, stringFragments, List.map_append,
    List.map_cons, ← hBody]
  rfl

------------------------------------------------------------
-- Slices of Values
------------------------------------------------------------

mutual

/- A value is cut into the bytes of its fragments. -/
theorem cuts_eq (v : Value) :
    cuts v = (fragments v).map Text.bytes := by
  cases v with
  | null => rfl
  | bool b => cases b <;> rfl
  | integer i => rfl
  | string s => exact stringCuts_bytes s
  | sequence items =>
      have hItems := itemCuts_eq [] items
      rw [List.map_nil] at hItems
      rw [cuts, hItems, fragments, List.map_append,
        List.map_cons]
      rfl
  | mapping members =>
      have hMembers := memberCuts_eq [] members
      rw [List.map_nil] at hMembers
      rw [cuts, hMembers, fragments, List.map_append,
        List.map_cons]
      rfl

/- Elements are cut into the bytes of their fragments. -/
theorem itemCuts_eq
    (lead : List String)
    (vs : List Value) :
    itemCuts (lead.map Text.bytes) vs =
      (itemFragments lead vs).map Text.bytes := by
  cases vs with
  | nil => rfl
  | cons v vs =>
      have hRest := itemCuts_eq [","] vs
      rw [itemCuts, itemFragments, List.map_append,
        List.map_append, cuts_eq v, ← hRest]
      rfl

/- Members are cut into the bytes of their fragments. -/
theorem memberCuts_eq
    (lead : List String)
    (ms : List (String × Value)) :
    memberCuts (lead.map Text.bytes) ms =
      (memberFragments lead ms).map Text.bytes := by
  cases ms with
  | nil => rfl
  | cons member ms =>
      rcases member with ⟨k, v⟩
      have hRest := memberCuts_eq [","] ms
      rw [memberCuts, memberFragments, stringCuts_bytes,
        cuts_eq v]
      simp only [List.map_append, List.map_cons, ← hRest]
      rfl

end

end Canonical

end SignedMetadata
