import SignedMetadata.Proofs.Canonical.Delimiting
import SignedMetadata.Proofs.Members
import SignedMetadata.Proofs.Text.Order

/-
  The keys that stand in canonical text.

  A reader that knows nothing of values takes quoted texts
  and other characters from a text.  Between two braces that
  belong together, every text with a colon behind it is a key.
  What the reader finds in canonical text are the keys of all
  mappings inside the value, each list in member order.

  Main declarations:
    * `Canonical.marks`
    * `Canonical.writtenKeys`
    * `Value.mappingKeys`
    * `Canonical.writtenKeys_ofValue`
-/

namespace SignedMetadata

namespace Canonical

------------------------------------------------------------
-- Marks of a Text
------------------------------------------------------------

/- A text between quotes, or a character outside of them. -/
inductive Mark where
| text (s : String)
| sign (c : Char)
deriving DecidableEq, Repr

/-
  Where a character stands.  What has been read of a quoted
  text is held in reverse.
-/
inductive Place where
| outside
| quoted (read : List Char)
| escaped (read : List Char)

/- The marks of characters, the first at a place. -/
def marks : Place → List Char → List Mark
| _, [] => []
| .outside, c :: cs =>
    if c = '"' then marks (.quoted []) cs
    else .sign c :: marks .outside cs
| .quoted read, c :: cs =>
    if c = '"' then
      .text (String.ofList read.reverse) :: marks .outside cs
    else if c = '\\' then
      marks (.escaped read) cs
    else
      marks (.quoted (c :: read)) cs
| .escaped read, c :: cs => marks (.quoted (c :: read)) cs

/-
  The keys between braces that belong together, one list for
  each pair of braces, when the pair is closed.  `inside` are
  the keys between the braces that are open, the innermost
  pair in front.
-/
def keysBetween :
    List (List String) → List Mark → List (List String)
| _, [] => []
| inside, .sign c :: rest =>
    if c = '\x7b' then keysBetween ([] :: inside) rest
    else if c = '\x7d' then
      inside.take 1 ++ keysBetween (inside.drop 1) rest
    else
      keysBetween inside rest
| inside, .text s :: rest =>
    if rest.head? = some (.sign ':') then
      keysBetween
        (inside.modifyHead fun keys => keys ++ [s]) rest
    else
      keysBetween inside rest

/- The keys that stand in a text, taken unescaped. -/
def writtenKeys (text : String) : List (List String) :=
  keysBetween [] (marks .outside text.toList)

end Canonical

------------------------------------------------------------
-- Keys of a Value
------------------------------------------------------------

namespace Value

mutual

/-
  The keys of every mapping inside the value, in the order in
  which the mappings end.
-/
def mappingKeys : Value → List (List String)
| .sequence items => mappingKeysOfItems items
| .mapping members =>
    mappingKeysOfMembers members ++ [Members.keys members]
| _ => []

/- The keys of every mapping inside elements. -/
def mappingKeysOfItems : List Value → List (List String)
| [] => []
| v :: vs => mappingKeys v ++ mappingKeysOfItems vs

/- The keys of every mapping inside member values. -/
def mappingKeysOfMembers :
    List (String × Value) → List (List String)
| [] => []
| (_, v) :: ms => mappingKeys v ++ mappingKeysOfMembers ms

end

end Value

------------------------------------------------------------
-- Reading Scalars
------------------------------------------------------------

namespace Canonical

variable {inside : List (List String)}
variable {r : List Char}

/- The keys in what is left of a text. -/
def keysLeft
    (inside : List (List String))
    (cs : List Char) : List (List String) :=
  keysBetween inside (marks .outside cs)

/- No sign is a quote or a brace. -/
def IsPlain (cs : List Char) : Prop :=
  ∀ c ∈ cs, c ≠ '"' ∧ c ≠ '\x7b' ∧ c ≠ '\x7d'

instance (cs : List Char) : Decidable (IsPlain cs) :=
  -- only the signs given are tested, not all characters
  List.decidableBAll
    (fun c => c ≠ '"' ∧ c ≠ '\x7b' ∧ c ≠ '\x7d') cs

/- Plain signs are passed over. -/
theorem keysLeft_plain
    {cs : List Char}
    (hPlain : IsPlain cs) :
    keysLeft inside (cs ++ r) = keysLeft inside r := by
  induction cs with
  | nil => rfl
  | cons c cs ih =>
      rw [IsPlain, List.forall_mem_cons] at hPlain
      rcases hPlain.1 with ⟨hQuote, hOpen, hClose⟩
      rw [List.cons_append, keysLeft, marks, if_neg hQuote,
        keysBetween, if_neg hOpen, if_neg hClose]
      exact ih hPlain.2

/- A brace opens a list of keys. -/
theorem keysLeft_open :
    keysLeft inside ('\x7b' :: r) =
      keysLeft ([] :: inside) r := by
  rfl

/- A brace closes the list. -/
theorem keysLeft_close (keys : List String) :
    keysLeft (keys :: inside) ('\x7d' :: r) =
      keys :: keysLeft inside r := by
  rfl

/- The body of a string is read up to its quote. -/
theorem marks_body
    (cs read : List Char) :
    marks (.quoted read) (body cs ++ '"' :: r) =
      .text (String.ofList (read.reverse ++ cs)) ::
        marks .outside r := by
  induction cs generalizing read with
  | nil =>
      rw [List.append_nil]
      rfl
  | cons c cs ih =>
      have hRead :
          read.reverse ++ c :: cs =
            (c :: read).reverse ++ cs := by
        rw [List.reverse_cons, List.append_assoc]
        rfl
      rw [body_cons, List.append_assoc, hRead, ← ih,
        escapeChar]
      by_cases hEscaped : isEscaped c = true
      · rw [if_pos hEscaped]
        rfl
      · have hOther : c ≠ '"' ∧ c ≠ '\\' := by
          simpa [isEscaped] using hEscaped
        rw [if_neg hEscaped, List.singleton_append, marks,
          if_neg hOther.1, if_neg hOther.2]

/- A string is read as its text. -/
theorem marks_ofString (s : String) :
    marks .outside ((ofString s).toList ++ r) =
      .text s :: marks .outside r := by
  have hBody := marks_body (r := r) s.toList []
  rw [List.reverse_nil, List.nil_append,
    String.ofList_toList] at hBody
  rw [← hBody, toList_ofString, List.append_assoc]
  rfl

/- What follows is neither a colon nor another string. -/
def EndsValue (r : List Char) : Prop :=
  ∀ c ∈ r.head?, c ≠ ':' ∧ c ≠ '"'

/- Nothing follows. -/
theorem endsValue_nil : EndsValue [] := by
  exact fun c hNone => absurd hNone (Option.not_mem_none c)

/- What follows starts with another sign. -/
theorem endsValue_cons
    {c : Char}
    (hColon : c ≠ ':')
    (hQuote : c ≠ '"') :
    EndsValue (c :: r) := by
  intro d hHead
  rw [List.head?_cons, Option.mem_some] at hHead
  rw [← hHead]
  exact ⟨hColon, hQuote⟩

/- A string that is no key is passed over. -/
theorem keysLeft_string
    (s : String)
    (hEnd : EndsValue r) :
    keysLeft inside ((ofString s).toList ++ r) =
      keysLeft inside r := by
  have hColon :
      (marks .outside r).head? ≠ some (.sign ':') := by
    cases r with
    | nil => exact Option.some_ne_none _ |>.symm
    | cons c r =>
        rcases hEnd c rfl with ⟨hColon, hQuote⟩
        rw [marks, if_neg hQuote, List.head?_cons]
        intro hSign
        cases hSign
        exact hColon rfl
  rw [keysLeft, marks_ofString, keysBetween, if_neg hColon]
  rfl

/- A key is added to those of its mapping. -/
theorem keysLeft_key
    (s : String)
    (keys : List String) :
    keysLeft (keys :: inside)
        ((ofString s).toList ++ ':' :: r) =
      keysLeft ((keys ++ [s]) :: inside) r := by
  rw [keysLeft, marks_ofString]
  rfl

/- The signs of a numeral are plain. -/
theorem isPlain_ofInteger (i : Int) :
    IsPlain (Text.ofInteger i).toList := by
  have hSign : IsPlain (if i < 0 then ['-'] else []) := by
    split_ifs <;> decide
  have hDigits : IsPlain (Nat.toDigits 10 i.natAbs) := by
    intro c hc
    have hDigit := Text.isDigit_toDigits _ c hc
    refine ⟨?_, ?_, ?_⟩ <;> rintro rfl <;> cases hDigit
  rw [Text.toList_ofInteger]
  exact List.forall_mem_append.mpr ⟨hSign, hDigits⟩

------------------------------------------------------------
-- Reading Values
------------------------------------------------------------

/- An element or the end of its sequence ends a value. -/
theorem endsValue_ofItems
    (vs : List Value)
    (r : List Char) :
    EndsValue ((ofItems "," vs).toList ++ ']' :: r) := by
  cases vs with
  | nil => exact endsValue_cons (by decide) (by decide)
  | cons v vs =>
      rw [toList_ofItems_cons]
      exact endsValue_cons (by decide) (by decide)

/- A member or the end of its mapping ends a value. -/
theorem endsValue_ofMembers
    (ms : List (String × Value))
    (r : List Char) :
    EndsValue ((ofMembers "," ms).toList ++ '\x7d' :: r) := by
  cases ms with
  | nil => exact endsValue_cons (by decide) (by decide)
  | cons m ms =>
      rw [toList_ofMembers_cons]
      exact endsValue_cons (by decide) (by decide)

/- The lead of a part is passed over. -/
theorem keysLeft_lead
    {lead : String}
    (hLead : IsLead lead) :
    keysLeft inside (lead.toList ++ r) =
      keysLeft inside r := by
  apply keysLeft_plain
  rcases hLead with rfl | rfl <;> decide

mutual

/- The keys of a value stand in its canonical text. -/
theorem keysLeft_ofValue
    (inside : List (List String))
    (v : Value)
    (r : List Char)
    (hEnd : EndsValue r) :
    keysLeft inside ((ofValue v).toList ++ r) =
      v.mappingKeys ++ keysLeft inside r := by
  cases v with
  | null => exact keysLeft_plain (by decide)
  | bool b =>
      cases b with
      | true => exact keysLeft_plain (by decide)
      | false => exact keysLeft_plain (by decide)
  | integer i => exact keysLeft_plain (isPlain_ofInteger i)
  | string s => exact keysLeft_string s hEnd
  | sequence items =>
      have hItems :=
        keysLeft_ofItems inside "" (Or.inl rfl) items r
      have hOpen : IsPlain ['['] := by decide
      have hClose : IsPlain [']'] := by decide
      have hText :
          (ofValue (.sequence items)).toList ++ r =
            ['['] ++
              ((ofItems "" items).toList ++ ']' :: r) := by
        simp [ofValue]
      rw [hText, keysLeft_plain hOpen, hItems]
      exact congrArg _ (keysLeft_plain hClose)
  | mapping members =>
      have hMembers :=
        keysLeft_ofMembers inside [] "" (Or.inl rfl) members r
      have hText :
          (ofValue (.mapping members)).toList ++ r =
            '\x7b' ::
              ((ofMembers "" members).toList ++
                '\x7d' :: r) := by
        simp [ofValue]
      rw [hText, keysLeft_open, hMembers, Value.mappingKeys,
        List.append_assoc]
      rfl

/- So do the keys of elements. -/
theorem keysLeft_ofItems
    (inside : List (List String))
    (lead : String)
    (hLead : IsLead lead)
    (vs : List Value)
    (r : List Char) :
    keysLeft inside ((ofItems lead vs).toList ++ ']' :: r) =
      Value.mappingKeysOfItems vs ++
        keysLeft inside (']' :: r) := by
  cases vs with
  | nil => rfl
  | cons v vs =>
      rw [toList_ofItems_cons, keysLeft_lead hLead,
        keysLeft_ofValue inside v _ (endsValue_ofItems vs r),
        keysLeft_ofItems inside "," (Or.inr rfl) vs r,
        Value.mappingKeysOfItems, List.append_assoc]

/- The keys of members are added to those before them. -/
theorem keysLeft_ofMembers
    (inside : List (List String))
    (keys : List String)
    (lead : String)
    (hLead : IsLead lead)
    (ms : List (String × Value))
    (r : List Char) :
    keysLeft (keys :: inside)
        ((ofMembers lead ms).toList ++ '\x7d' :: r) =
      Value.mappingKeysOfMembers ms ++
        (keys ++ Members.keys ms) :: keysLeft inside r := by
  cases ms with
  | nil =>
      rw [Members.keys_nil, List.append_nil]
      exact keysLeft_close keys
  | cons m ms =>
      rcases m with ⟨k, v⟩
      rw [toList_ofMembers_cons, keysLeft_lead hLead,
        keysLeft_key,
        keysLeft_ofValue _ v _ (endsValue_ofMembers ms r),
        keysLeft_ofMembers inside (keys ++ [k]) ","
          (Or.inr rfl) ms r,
        Value.mappingKeysOfMembers, List.append_assoc,
        Members.keys_cons, List.append_assoc,
        List.singleton_append]

end

/- What stands in canonical text are the keys of mappings. -/
theorem writtenKeys_ofValue (v : Value) :
    writtenKeys (ofValue v) = v.mappingKeys := by
  have hLeft := keysLeft_ofValue [] v [] endsValue_nil
  rw [List.append_nil] at hLeft
  exact hLeft.trans (List.append_nil _)

end Canonical

------------------------------------------------------------
-- Order of Keys
------------------------------------------------------------

namespace Value

mutual

/- The keys of each mapping in a value are ascending. -/
theorem pairwise_of_mem_mappingKeys
    (v : Value)
    (hWell : v.WellFormed) :
    ∀ keys ∈ v.mappingKeys, keys.Pairwise (· < ·) := by
  cases v with
  | sequence items =>
      exact pairwise_of_mem_mappingKeysOfItems items hWell
  | mapping members =>
      rw [mappingKeys, List.forall_mem_append,
        List.forall_mem_singleton]
      exact
        ⟨pairwise_of_mem_mappingKeysOfMembers members hWell.2,
          hWell.1⟩
  | _ => exact List.forall_mem_nil _

/- So are those in elements. -/
theorem pairwise_of_mem_mappingKeysOfItems
    (vs : List Value)
    (hWell : WellFormedItems vs) :
    ∀ keys ∈ mappingKeysOfItems vs,
      keys.Pairwise (· < ·) := by
  cases vs with
  | nil => exact List.forall_mem_nil _
  | cons v vs =>
      exact
        List.forall_mem_append.mpr
          ⟨pairwise_of_mem_mappingKeys v hWell.1,
            pairwise_of_mem_mappingKeysOfItems vs hWell.2⟩

/- So are those in member values. -/
theorem pairwise_of_mem_mappingKeysOfMembers
    (ms : List (String × Value))
    (hWell : WellFormedMembers ms) :
    ∀ keys ∈ mappingKeysOfMembers ms,
      keys.Pairwise (· < ·) := by
  cases ms with
  | nil => exact List.forall_mem_nil _
  | cons m ms =>
      exact
        List.forall_mem_append.mpr
          ⟨pairwise_of_mem_mappingKeys m.2 hWell.1,
            pairwise_of_mem_mappingKeysOfMembers ms hWell.2⟩

end

/- The bytes of the keys are ascending, too. -/
theorem pairwise_bytes_of_mem_mappingKeys
    {v : Value}
    {keys : List String}
    (hWell : v.WellFormed)
    (hKeys : keys ∈ v.mappingKeys) :
    (keys.map Text.bytes).Pairwise (· < ·) := by
  rw [List.pairwise_map]
  simp only [Text.bytes_lt_iff]
  exact pairwise_of_mem_mappingKeys v hWell keys hKeys

end Value

end SignedMetadata
