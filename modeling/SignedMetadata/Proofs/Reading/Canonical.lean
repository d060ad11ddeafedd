import SignedMetadata.Proofs.Canonical.Delimiting
import SignedMetadata.Proofs.Reading.Interruption
import SignedMetadata.Proofs.Reading.Printed

/-
  Reading canonical text as JSON.

  Canonical text writes the tokens of a value one after the
  other, and in strings it escapes as JSON does, but for the
  control characters, which it writes as they are.  So it is
  JSON text for the value if there are none, and breaks off
  inside the first string that has one otherwise.

  Main declarations:
    * `Value.texts`
    * `Canonical.toList_ofValue`
    * `Canonical.scan_controlled`
    * `Value.readAs_canonical_or_malformed`
-/

namespace SignedMetadata

open Json (Token Tree Phase SpelledChar SpelledText
  SpelledToken SpelledTokens itemTrees memberTrees)

------------------------------------------------------------
-- Strings of a Value
------------------------------------------------------------

namespace Value

mutual

/- Every string and every key of the value. -/
def texts : Value → List String
| .null => []
| .bool _ => []
| .integer _ => []
| .string s => [s]
| .sequence items => textsOfItems items
| .mapping members => textsOfMembers members

/- Every string and every key of the elements. -/
def textsOfItems : List Value → List String
| [] => []
| v :: vs => texts v ++ textsOfItems vs

/- Every key of the members, and what their values have. -/
def textsOfMembers : List (String × Value) → List String
| [] => []
| (k, v) :: ms => k :: (texts v ++ textsOfMembers ms)

end

end Value

/- The text has no character below the space. -/
def Text.Uncontrolled (s : String) : Prop :=
  ∀ c ∈ s.toList, 0x20 ≤ c.toNat

instance (s : String) : Decidable (Text.Uncontrolled s) :=
  List.decidableBAll
    (fun (c : Char) => 0x20 ≤ c.toNat) s.toList

------------------------------------------------------------
-- Canonical Text of Tokens
------------------------------------------------------------

namespace Canonical

/- How canonical text writes a token. -/
def ofToken : Token → List Char
| .leftBracket => ['[']
| .rightBracket => [']']
| .leftBrace => ['\x7b']
| .rightBrace => ['\x7d']
| .comma => [',']
| .colon => [':']
| .null => ['n', 'u', 'l', 'l']
| .bool true => ['t', 'r', 'u', 'e']
| .bool false => ['f', 'a', 'l', 's', 'e']
| .number literal => literal.toList
| .string s => '"' :: body s.toList ++ ['"']
| .broken => []

/- Canonical text writes a string as its token. -/
theorem ofToken_string (s : String) :
    ofToken (.string s) = (ofString s).toList := by
  rw [toList_ofString, ofToken]

mutual

/- Canonical text writes the tokens of a value. -/
theorem toList_ofValue (v : Value) :
    (ofValue v).toList =
      v.toJson.tree.tokens.flatMap ofToken := by
  match v with
  | .null => rfl
  | .bool true => rfl
  | .bool false => rfl
  | .integer i => exact (List.append_nil _).symm
  | .string s =>
      rw [ofValue, ← ofToken_string]
      exact (List.append_nil _).symm
  | .sequence items =>
      have hItems :=
        toList_ofItems "" [] items rfl
      simp only [ofValue, String.toList_append, hItems,
        Value.toJson, Json.tree, Tree.tokens,
        List.flatMap_cons, List.flatMap_append]
      rfl
  | .mapping members =>
      have hMembers :=
        toList_ofMembers "" [] members rfl
      simp only [ofValue, String.toList_append, hMembers,
        Value.toJson, Json.tree, Tree.tokens,
        List.flatMap_cons, List.flatMap_append]
      rfl

/- Elements are written behind a lead, and then commas. -/
theorem toList_ofItems
    (lead : String)
    (leading : List Token)
    (vs : List Value)
    (hLead : lead.toList = leading.flatMap ofToken) :
    (ofItems lead vs).toList =
      (Tree.itemTokens leading
        (itemTrees (Value.toJsonItems vs))).flatMap
          ofToken := by
  cases vs with
  | nil => rfl
  | cons v vs =>
      have hRest := toList_ofItems "," [.comma] vs rfl
      simp only [ofItems, String.toList_append,
        toList_ofValue v, hRest, hLead, Value.toJsonItems,
        itemTrees, Tree.itemTokens, List.flatMap_append,
        List.append_assoc]

/- Members are written likewise. -/
theorem toList_ofMembers
    (lead : String)
    (leading : List Token)
    (ms : List (String × Value))
    (hLead : lead.toList = leading.flatMap ofToken) :
    (ofMembers lead ms).toList =
      (Tree.memberTokens leading
        (memberTrees (Value.toJsonMembers ms))).flatMap
          ofToken := by
  cases ms with
  | nil => rfl
  | cons m ms =>
      rcases m with ⟨k, v⟩
      have hRest := toList_ofMembers "," [.comma] ms rfl
      have hColon : ":".toList = ofToken .colon := rfl
      simp only [ofMembers, String.toList_append,
        toList_ofValue v, ofToken_string, hRest, hLead,
        hColon, Value.toJsonMembers, memberTrees,
        Tree.memberTokens, List.flatMap_append,
        List.flatMap_cons, List.append_assoc]

end

------------------------------------------------------------
-- Control Characters
------------------------------------------------------------

/- The token is no string with a control character. -/
def Uncontrolled : Token → Prop
| .string s => Text.Uncontrolled s
| _ => True

/- JSON reads every other character as it is written. -/
theorem spelledChar_escapeChar
    {c : Char}
    (hPrinted : 0x20 ≤ c.toNat) :
    SpelledChar c (escapeChar c) := by
  have hEscaped :
      isEscaped c = true ↔ c = '"' ∨ c = '\\' := by
    simp [isEscaped]
  unfold escapeChar
  by_cases hMark : isEscaped c = true
  · rw [if_pos hMark]
    rcases hEscaped.mp hMark with rfl | rfl
    · exact .letter (by decide)
    · exact .letter (by decide)
  · rw [if_neg hMark]
    rw [hEscaped, not_or] at hMark
    exact .raw hMark.1 hMark.2 hPrinted

/- A text without them is spelled by its characters. -/
theorem spelledText_body
    {cs : List Char}
    (hPrinted : ∀ c ∈ cs, 0x20 ≤ c.toNat) :
    SpelledText cs (body cs) := by
  induction cs with
  | nil => exact .nil
  | cons c cs ih =>
      rw [List.forall_mem_cons] at hPrinted
      rw [body_cons]
      exact
        .cons (spelledChar_escapeChar hPrinted.1)
          (ih hPrinted.2)

/- Nothing is read behind the place where a text breaks. -/
theorem scan_broken (cs : List Char) :
    Phase.scan .broken cs = [] := by
  induction cs with
  | nil => rfl
  | cons c cs ih => exact ih

/- A text breaks off at its first control character. -/
theorem scan_body
    {cs : List Char}
    (read rest : List Char)
    (hControl : ¬ ∀ c ∈ cs, 0x20 ≤ c.toNat) :
    Phase.scan (.text read) (body cs ++ rest) =
      [.broken] := by
  induction cs generalizing read with
  | nil => exact absurd hControl (by simp)
  | cons c cs ih =>
      rw [body_cons, List.append_assoc]
      by_cases hPrinted : 0x20 ≤ c.toNat
      · rw [Phase.scan_spelledChar read _
          (spelledChar_escapeChar hPrinted)]
        apply ih
        intro hRest
        exact
          hControl
            (List.forall_mem_cons.mpr ⟨hPrinted, hRest⟩)
      · have hQuote : c ≠ '"' := by
          rintro rfl
          exact hPrinted (by decide)
        have hBackslash : c ≠ '\\' := by
          rintro rfl
          exact hPrinted (by decide)
        have hEscape : escapeChar c = [c] := by
          simp [escapeChar, isEscaped, hQuote, hBackslash]
        rw [hEscape, List.singleton_append, Phase.scan_cons,
          Phase.step, Phase.textStep, if_neg hQuote,
          if_neg hBackslash,
          if_pos (Nat.lt_of_not_le hPrinted), Phase.fail,
          scan_broken]
        rfl

/- So does a string with one. -/
theorem scan_controlled
    {s : String}
    (rest : List Char)
    (hControl : ¬ Text.Uncontrolled s) :
    Phase.scan .between (ofToken (.string s) ++ rest) =
      [.broken] := by
  have hQuote :
      Phase.scan .between (ofToken (.string s) ++ rest) =
        Phase.scan (.text [])
          (body s.toList ++ '"' :: rest) := by
    rw [ofToken, List.append_assoc]
    rfl
  rw [hQuote]
  exact scan_body [] _ hControl

------------------------------------------------------------
-- Tokens of a Value
------------------------------------------------------------

/- JSON reads the token as canonical text writes it. -/
def Readable (token : Token) : Prop :=
  Uncontrolled token → SpelledToken token (ofToken token)

/- Strings without control characters are read as written. -/
theorem readable_string (s : String) :
    Readable (.string s) := by
  intro hPrinted
  exact .string (spelledText_body hPrinted)

mutual

/- All tokens of a value are read as they are written. -/
theorem readable_tokens (v : Value) :
    ∀ token ∈ v.toJson.tree.tokens, Readable token := by
  match v with
  | .null =>
      exact List.forall_mem_singleton.mpr fun _ => .null
  | .bool true =>
      exact List.forall_mem_singleton.mpr fun _ => .true
  | .bool false =>
      exact List.forall_mem_singleton.mpr fun _ => .false
  | .integer i =>
      have hNumber :=
        SpelledToken.number (Json.numeral_ofInteger i)
      rw [String.ofList_toList] at hNumber
      exact List.forall_mem_singleton.mpr fun _ => hNumber
  | .string s =>
      exact List.forall_mem_singleton.mpr (readable_string s)
  | .sequence items =>
      have hItems :=
        readable_itemTokens items (List.forall_mem_nil _)
      have hEnd : Readable .rightBracket :=
        fun _ => .rightBracket
      exact
        List.forall_mem_cons.mpr
          ⟨fun _ => .leftBracket,
            List.forall_mem_append.mpr
              ⟨hItems, List.forall_mem_singleton.mpr hEnd⟩⟩
  | .mapping members =>
      have hMembers :=
        readable_memberTokens members (List.forall_mem_nil _)
      have hEnd : Readable .rightBrace :=
        fun _ => .rightBrace
      exact
        List.forall_mem_cons.mpr
          ⟨fun _ => .leftBrace,
            List.forall_mem_append.mpr
              ⟨hMembers,
                List.forall_mem_singleton.mpr hEnd⟩⟩

/- So are the tokens of elements behind a lead. -/
theorem readable_itemTokens
    (vs : List Value)
    {leading : List Token}
    (hLead : ∀ token ∈ leading, Readable token) :
    ∀ token ∈
        Tree.itemTokens leading
          (itemTrees (Value.toJsonItems vs)),
      Readable token := by
  cases vs with
  | nil => exact List.forall_mem_nil _
  | cons v vs =>
      have hComma : ∀ token ∈ [Token.comma], Readable token :=
        List.forall_mem_singleton.mpr fun _ => .comma
      exact
        List.forall_mem_append.mpr
          ⟨hLead,
            List.forall_mem_append.mpr
              ⟨readable_tokens v,
                readable_itemTokens vs hComma⟩⟩

/- So are the tokens of members. -/
theorem readable_memberTokens
    (ms : List (String × Value))
    {leading : List Token}
    (hLead : ∀ token ∈ leading, Readable token) :
    ∀ token ∈
        Tree.memberTokens leading
          (memberTrees (Value.toJsonMembers ms)),
      Readable token := by
  cases ms with
  | nil => exact List.forall_mem_nil _
  | cons m ms =>
      have hComma : ∀ token ∈ [Token.comma], Readable token :=
        List.forall_mem_singleton.mpr fun _ => .comma
      have hColon : Readable .colon := fun _ => .colon
      exact
        List.forall_mem_append.mpr
          ⟨hLead,
            List.forall_mem_cons.mpr
              ⟨readable_string m.1,
                List.forall_mem_cons.mpr
                  ⟨hColon,
                    List.forall_mem_append.mpr
                      ⟨readable_tokens m.2,
                        readable_memberTokens ms hComma⟩⟩⟩⟩

end

mutual

/- The strings in the tokens are the strings and the keys. -/
theorem uncontrolled_tokens_iff (v : Value) :
    (∀ token ∈ v.toJson.tree.tokens, Uncontrolled token) ↔
      ∀ s ∈ v.texts, Text.Uncontrolled s := by
  cases v with
  | string s =>
      rw [Value.texts, List.forall_mem_singleton]
      exact List.forall_mem_singleton
  | sequence items =>
      have hItems :=
        uncontrolled_itemTokens_iff items
          (List.forall_mem_nil _)
      rw [Value.toJson, Json.tree, Tree.tokens,
        List.forall_mem_cons, List.forall_mem_append,
        List.forall_mem_singleton, hItems]
      exact
        (and_iff_right trivial).trans (and_iff_left trivial)
  | mapping members =>
      have hMembers :=
        uncontrolled_memberTokens_iff members
          (List.forall_mem_nil _)
      rw [Value.toJson, Json.tree, Tree.tokens,
        List.forall_mem_cons, List.forall_mem_append,
        List.forall_mem_singleton, hMembers]
      exact
        (and_iff_right trivial).trans (and_iff_left trivial)
  | _ =>
      exact
        iff_of_true
          (List.forall_mem_singleton.mpr trivial)
          (List.forall_mem_nil _)

/- They are those of the elements. -/
theorem uncontrolled_itemTokens_iff
    (vs : List Value)
    {leading : List Token}
    (hLead : ∀ token ∈ leading, Uncontrolled token) :
    (∀ token ∈
        Tree.itemTokens leading
          (itemTrees (Value.toJsonItems vs)),
      Uncontrolled token) ↔
      ∀ s ∈ Value.textsOfItems vs,
        Text.Uncontrolled s := by
  cases vs with
  | nil =>
      exact
        iff_of_true (List.forall_mem_nil _)
          (List.forall_mem_nil _)
  | cons v vs =>
      have hComma :
          ∀ token ∈ [Token.comma], Uncontrolled token :=
        List.forall_mem_singleton.mpr trivial
      have hRest := uncontrolled_itemTokens_iff vs hComma
      rw [Value.toJsonItems, itemTrees, Tree.itemTokens,
        Value.textsOfItems, List.forall_mem_append,
        List.forall_mem_append, List.forall_mem_append,
        uncontrolled_tokens_iff v, hRest]
      exact and_iff_right hLead

/- They are the keys, and those of the member values. -/
theorem uncontrolled_memberTokens_iff
    (ms : List (String × Value))
    {leading : List Token}
    (hLead : ∀ token ∈ leading, Uncontrolled token) :
    (∀ token ∈
        Tree.memberTokens leading
          (memberTrees (Value.toJsonMembers ms)),
      Uncontrolled token) ↔
      ∀ s ∈ Value.textsOfMembers ms,
        Text.Uncontrolled s := by
  cases ms with
  | nil =>
      exact
        iff_of_true (List.forall_mem_nil _)
          (List.forall_mem_nil _)
  | cons m ms =>
      rcases m with ⟨k, v⟩
      have hComma :
          ∀ token ∈ [Token.comma], Uncontrolled token :=
        List.forall_mem_singleton.mpr trivial
      have hRest := uncontrolled_memberTokens_iff ms hComma
      rw [Value.toJsonMembers, memberTrees,
        Tree.memberTokens, Value.textsOfMembers,
        List.forall_mem_append, List.forall_mem_cons,
        List.forall_mem_cons, List.forall_mem_append,
        List.forall_mem_cons, List.forall_mem_append,
        uncontrolled_tokens_iff v, hRest]
      exact
        (and_iff_right hLead).trans
          (and_congr_right fun _ => and_iff_right trivial)

end

------------------------------------------------------------
-- Scanning
------------------------------------------------------------

/- Readable tokens are spelled by their canonical texts. -/
theorem spelledTokens_ofToken
    {tokens : List Token}
    (hReadable : ∀ token ∈ tokens, Readable token)
    (hPrinted : ∀ token ∈ tokens, Uncontrolled token) :
    SpelledTokens tokens (tokens.flatMap ofToken) := by
  induction tokens with
  | nil => exact .nil Json.White.nil
  | cons token tokens ih =>
      rw [List.forall_mem_cons] at hReadable hPrinted
      rw [List.flatMap_cons]
      exact
        .next (hReadable.1 hPrinted.1)
          (ih hReadable.2 hPrinted.2)

/-
  Tokens with a control character break off inside the first
  string that has one.
-/
theorem scan_tokens_controlled
    {tokens : List Token}
    (hReadable : ∀ token ∈ tokens, Readable token)
    (hChain : tokens.IsChain Phase.MayTouch)
    (hControl : ¬ ∀ token ∈ tokens, Uncontrolled token) :
    ∃ before s after,
      tokens = before ++ .string s :: after ∧
        Phase.scan .between (tokens.flatMap ofToken) =
          before ++ [.broken] := by
  classical
  cases hFind :
      tokens.find? fun token => ¬ Uncontrolled token with
  | none =>
      rw [List.find?_eq_none] at hFind
      apply absurd _ hControl
      intro token hToken
      simpa using hFind token hToken
  | some token =>
      rcases List.find?_eq_some_iff_append.mp hFind with
        ⟨hFirst, before, after, rfl, hBefore⟩
      rw [decide_eq_true_eq] at hFirst
      have hPrinted :
          ∀ token ∈ before, Uncontrolled token := by
        intro token hToken
        simpa using hBefore token hToken
      rw [List.forall_mem_append] at hReadable
      cases token with
      | string s =>
          refine ⟨before, s, after, rfl, ?_⟩
          have hTokens :=
            (spelledTokens_ofToken hReadable.1
              hPrinted).written
          rw [List.append_cons, List.isChain_append] at hChain
          rw [List.flatMap_append, List.flatMap_cons,
            Phase.scan_writtenTokens_append hTokens hChain.1
              (fun hNext => absurd hNext Bool.false_ne_true),
            scan_controlled _ hFirst]
      | _ => exact absurd trivial hFirst

end Canonical

------------------------------------------------------------
-- Canonical Text as JSON
------------------------------------------------------------

namespace Value

/-
  The canonical text of a well-formed value that nests at
  most 127 deep, and in which no mapping has `literalKey` as
  its least key, is read back as the value if no string and
  no key of it has a control character; otherwise it is no
  JSON text.
-/
theorem readAs_canonical_or_malformed
    {v : Value}
    {text : String}
    (hEncode : Canonical.encode .unbounded v = .ok text)
    (hWell : v.WellFormed)
    (hFirst : v.NotFirst literalKey)
    (hDepth : v.depth ≤ 127) :
    ((∀ s ∈ v.texts, Text.Uncontrolled s) →
        ReadAs text v) ∧
      ((∃ s ∈ v.texts, ¬ Text.Uncontrolled s) →
        ofText text = .error .malformed ∧
          Json.ofText text = .error .malformed) := by
  have hText := Canonical.toList_ofValue v
  rw [← Canonical.eq_ofValue_of_encode hEncode] at hText
  have hHolds := holds_toJson v
  have hPlain := plain_toJson v hFirst
  have hReadable := Canonical.readable_tokens v
  constructor
  · intro hPrinted
    rw [← Canonical.uncontrolled_tokens_iff] at hPrinted
    apply readAs_of_spelledTokens _ hHolds hWell hPlain hDepth
    rw [hText]
    exact Canonical.spelledTokens_ofToken hReadable hPrinted
  · rintro ⟨s, hs, hControl⟩
    have hTokens :
        ¬ ∀ token ∈ v.toJson.tree.tokens,
          Canonical.Uncontrolled token := by
      rw [Canonical.uncontrolled_tokens_iff]
      intro hPrinted
      exact hControl (hPrinted s hs)
    rcases Canonical.scan_tokens_controlled hReadable
        (Tree.mayTouch_tokens _) hTokens with
      ⟨before, first, after, hTree, hScan⟩
    apply malformed_of_interrupted hHolds hWell hPlain hDepth
      hTree
    rw [Json.Token.ofText, hText]
    exact hScan

/- A value whose second key ends in some character. -/
def keyEndingIn (last : Char) : Value :=
  .mapping
    [("a\"", .integer (-1)),
      ("b" ++ String.singleton last,
        .sequence [.string "\\é\x7f"])]

/- Its canonical text. -/
def textEndingIn (last : Char) : String :=
  "\x7b\"a\\\"\":-1,\"b" ++ String.singleton last ++
    "\":[\"\\\\é\x7f\"]\x7d"

/- A tab in a key makes the text unreadable; a space not. -/
theorem readAs_canonical_or_malformed_tab :
    (Canonical.encode .unbounded (keyEndingIn ' ') =
          .ok (textEndingIn ' ') ∧
        ReadAs (textEndingIn ' ') (keyEndingIn ' ')) ∧
      Canonical.encode .unbounded (keyEndingIn '\t') =
          .ok (textEndingIn '\t') ∧
        ofText (textEndingIn '\t') = .error .malformed := by
  have hWell
      (last : Char)
      (hOrder : "a\"" < "b" ++ String.singleton last) :
      (keyEndingIn last).WellFormed := by
    have hRange : InRange (-1) := by decide
    have hKeys :
        Members.Ascending
          [("a\"", Value.integer (-1)),
            ("b" ++ String.singleton last,
              .sequence [.string "\\é\x7f"])] := by
      simpa [Members.Ascending, Members.keys] using hOrder
    exact
      ⟨hKeys, hRange, ⟨trivial, trivial⟩, trivial⟩
  have hFirst (last : Char) :
      (keyEndingIn last).NotFirst literalKey := by
    have hKey : "a\"" ≠ literalKey := by decide
    exact
      ⟨fun hHead => hKey (Option.some.inj hHead), trivial,
        ⟨trivial, trivial⟩, trivial⟩
  have hDepth (last : Char) :
      (keyEndingIn last).depth ≤ 127 := by
    have hTwo : (keyEndingIn last).depth = 2 := rfl
    omega
  have hSpace :
      Canonical.encode .unbounded (keyEndingIn ' ') =
        .ok (textEndingIn ' ') := by
    decide +kernel
  have hTab :
      Canonical.encode .unbounded (keyEndingIn '\t') =
        .ok (textEndingIn '\t') := by
    decide +kernel
  refine ⟨⟨hSpace, ?_⟩, hTab, ?_⟩
  · apply
      (readAs_canonical_or_malformed hSpace
        (hWell ' ' (by decide)) (hFirst ' ')
        (hDepth ' ')).1
    decide +kernel
  · apply And.left
    apply
      (readAs_canonical_or_malformed hTab
        (hWell '\t' (by decide)) (hFirst '\t')
        (hDepth '\t')).2
    exact ⟨"b\t", by decide +kernel, by decide +kernel⟩

end Value

end SignedMetadata
