import Mathlib.Control.Monad.Basic
import SignedMetadata.Canonical.Length
import SignedMetadata.Proofs.Text.Decimal
import SignedMetadata.Proofs.Text.Utf8

/-
  Canonical texts determine their values.

  The first character of a canonical text tells the kind of
  the value.  Words, strings and containers also say where
  they end; a numeral ends where no digit follows it, and
  inside a container a comma or a closing mark does.  So two
  canonical texts with anything after them can agree only if
  the values agree, and what comes after them.

  Main declarations:
    * `ofString_append_inj`
    * `ofValue_append_inj`
    * `encode_delimits`
-/

namespace SignedMetadata

namespace Canonical

open Text (EndsNumeral)

------------------------------------------------------------
-- Strings
------------------------------------------------------------

/- The characters between the quotes of a canonical string. -/
def body (cs : List Char) : List Char :=
  cs.flatMap escapeChar

/- Characters are escaped one after another. -/
theorem body_cons
    (c : Char)
    (cs : List Char) :
    body (c :: cs) = escapeChar c ++ body cs := by
  simp [body]

/- A canonical string is its body between two quotes. -/
theorem toList_ofString (s : String) :
    (ofString s).toList = '"' :: body s.toList ++ ['"'] := by
  simp [ofString, body]

/- An escaped character does not look like the end. -/
theorem escapeChar_append_ne_quote
    (c : Char)
    (cs r : List Char) :
    escapeChar c ++ cs ≠ '"' :: r := by
  by_cases hEscaped : isEscaped c = true
  · simp [escapeChar, hEscaped]
  · intro hEq
    simp only [escapeChar, hEscaped, Bool.false_eq_true,
      if_false, List.cons_append, List.nil_append,
      List.cons.injEq] at hEq
    rw [hEq.1] at hEscaped
    exact hEscaped (by decide)

/- One escaped character is read back from what it starts. -/
theorem escapeChar_append_inj
    {c d : Char}
    {r r' : List Char}
    (hEq : escapeChar c ++ r = escapeChar d ++ r') :
    c = d ∧ r = r' := by
  by_cases hC : isEscaped c = true
  · by_cases hD : isEscaped d = true
    · simpa [escapeChar, hC, hD] using hEq
    · simp only [escapeChar, hC, hD, Bool.false_eq_true,
        if_true, if_false, List.cons_append, List.nil_append,
        List.cons.injEq] at hEq
      rw [← hEq.1] at hD
      exact absurd (by decide) hD
  · by_cases hD : isEscaped d = true
    · simp only [escapeChar, hC, hD, Bool.false_eq_true,
        if_true, if_false, List.cons_append, List.nil_append,
        List.cons.injEq] at hEq
      rw [hEq.1] at hC
      exact absurd (by decide) hC
    · simpa [escapeChar, hC, hD] using hEq

/- The first quote that no backslash precedes ends a body. -/
theorem body_append_inj
    {cs ds r r' : List Char}
    (hEq : body cs ++ '"' :: r = body ds ++ '"' :: r') :
    cs = ds ∧ r = r' := by
  exact
    Text.coded_append_inj escapeChar_append_inj
      escapeChar_append_ne_quote hEq

/- A canonical string says where it ends. -/
theorem ofString_append_inj
    {s t : String}
    {r r' : List Char}
    (hEq :
      (ofString s).toList ++ r = (ofString t).toList ++ r') :
    s = t ∧ r = r' := by
  have hBody :
      body s.toList ++ '"' :: r =
        body t.toList ++ '"' :: r' := by
    simpa [toList_ofString] using hEq
  have hParts := body_append_inj hBody
  exact ⟨String.toList_inj.mp hParts.1, hParts.2⟩

------------------------------------------------------------
-- First Characters
------------------------------------------------------------

/- The kind of the value that a canonical text starts. -/
def kindOf? (c : Char) : Option Kind :=
  if c = 'n' then some .null
  else if c = 't' ∨ c = 'f' then some .bool
  else if c = '"' then some .string
  else if c = '[' then some .sequence
  else if c = '\x7b' then some .mapping
  else if c = '-' ∨ c.isDigit then some .integer
  else none

/- Numerals start integers. -/
theorem kindOf?_numeral
    {c : Char}
    (hNumeral : c = '-' ∨ c.isDigit = true) :
    kindOf? c = some .integer := by
  rcases hNumeral with rfl | hDigit
  · decide
  · have hOther :
        ∀ d : Char, d.isDigit = false → c ≠ d := by
      intro d hD hEq
      rw [hEq, hD] at hDigit
      exact absurd hDigit (by decide)
    simp [kindOf?, hDigit, hOther 'n' (by decide),
      hOther 't' (by decide), hOther 'f' (by decide),
      hOther '"' (by decide), hOther '[' (by decide),
      hOther '\x7b' (by decide)]

/- The first character of a canonical text tells the kind. -/
theorem exists_cons_ofValue (v : Value) :
    ∃ c cs,
      (ofValue v).toList = c :: cs ∧
        kindOf? c = some v.kind := by
  cases v with
  | null => exact ⟨'n', ['u', 'l', 'l'], rfl, by decide⟩
  | bool b =>
      cases b with
      | false =>
          exact ⟨'f', ['a', 'l', 's', 'e'], rfl, by decide⟩
      | true =>
          exact ⟨'t', ['r', 'u', 'e'], rfl, by decide⟩
  | integer i =>
      rcases Text.exists_cons_ofInteger i with
        ⟨c, cs, hText, hNumeral⟩
      exact ⟨c, cs, hText, kindOf?_numeral hNumeral⟩
  | string s =>
      exact
        ⟨'"', _, toList_ofString s,
          by simp [kindOf?, Value.kind]⟩
  | sequence items =>
      refine
        ⟨'[', (ofItems "" items).toList ++ [']'], ?_,
          by simp [kindOf?, Value.kind]⟩
      simp [ofValue]
  | mapping members =>
      refine
        ⟨'\x7b', (ofMembers "" members).toList ++ ['\x7d'],
          ?_, by simp [kindOf?, Value.kind]⟩
      simp [ofValue]

/- Canonical texts that start alike have one kind. -/
theorem kind_eq_of_append_eq
    {v w : Value}
    {r r' : List Char}
    (hEq :
      (ofValue v).toList ++ r = (ofValue w).toList ++ r') :
    v.kind = w.kind := by
  rcases exists_cons_ofValue v with ⟨c, cs, hV, hKindV⟩
  rcases exists_cons_ofValue w with ⟨d, ds, hW, hKindW⟩
  rw [hV, hW, List.cons_append, List.cons_append,
    List.cons.injEq] at hEq
  rw [hEq.1, hKindW] at hKindV
  exact (Option.some.inj hKindV).symm

/- No canonical text starts with another character. -/
theorem ofValue_append_ne
    {c : Char}
    (hNone : kindOf? c = none)
    (v : Value)
    (r r' : List Char) :
    (ofValue v).toList ++ r ≠ c :: r' := by
  intro hEq
  rcases exists_cons_ofValue v with ⟨d, ds, hV, hKind⟩
  rw [hV, List.cons_append, List.cons.injEq] at hEq
  rw [hEq.1, hNone] at hKind
  exact absurd hKind (by simp)

------------------------------------------------------------
-- Elements and Members
------------------------------------------------------------

/- The lead before the first part, or before a later one. -/
def IsLead (lead : String) : Prop :=
  lead = "" ∨ lead = ","

/- The characters of one element and those after it. -/
theorem toList_ofItems_cons
    (lead : String)
    (v : Value)
    (vs : List Value)
    (r : List Char) :
    (ofItems lead (v :: vs)).toList ++ r =
      lead.toList ++ ((ofValue v).toList ++
        ((ofItems "," vs).toList ++ r)) := by
  simp [ofItems]

/- The characters of one member and those after it. -/
theorem toList_ofMembers_cons
    (lead : String)
    (k : String)
    (v : Value)
    (ms : List (String × Value))
    (r : List Char) :
    (ofMembers lead ((k, v) :: ms)).toList ++ r =
      lead.toList ++ ((ofString k).toList ++
        ':' :: ((ofValue v).toList ++
          ((ofMembers "," ms).toList ++ r))) := by
  simp [ofMembers]

/- No digit follows an element. -/
theorem endsNumeral_ofItems
    (vs : List Value)
    (r : List Char) :
    EndsNumeral ((ofItems "," vs).toList ++ ']' :: r) := by
  cases vs with
  | nil => simp [ofItems]
  | cons v vs =>
      rw [toList_ofItems_cons]
      simp

/- No digit follows a member. -/
theorem endsNumeral_ofMembers
    (ms : List (String × Value))
    (r : List Char) :
    EndsNumeral
      ((ofMembers "," ms).toList ++ '\x7d' :: r) := by
  cases ms with
  | nil => simp [ofMembers]
  | cons m ms =>
      rw [toList_ofMembers_cons]
      simp

/- An element does not look like the end of a sequence. -/
theorem ofItems_cons_append_ne
    {lead : String}
    (hLead : IsLead lead)
    (v : Value)
    (vs : List Value)
    (r r' : List Char) :
    (ofItems lead (v :: vs)).toList ++ r ≠ ']' :: r' := by
  rw [toList_ofItems_cons]
  rcases hLead with rfl | rfl
  · exact ofValue_append_ne (by decide) v _ r'
  · simp

/- A member does not look like the end of a mapping. -/
theorem ofMembers_cons_append_ne
    {lead : String}
    (hLead : IsLead lead)
    (m : String × Value)
    (ms : List (String × Value))
    (r r' : List Char) :
    (ofMembers lead (m :: ms)).toList ++ r ≠
      '\x7d' :: r' := by
  rw [toList_ofMembers_cons, toList_ofString]
  rcases hLead with rfl | rfl <;> simp

------------------------------------------------------------
-- Values
------------------------------------------------------------

mutual

/-
  Values whose canonical texts start the same text are equal,
  when no digit follows an integer.
-/
theorem ofValue_append_inj
    (v w : Value)
    (r r' : List Char)
    (hR : v.kind = .integer → EndsNumeral r)
    (hR' : w.kind = .integer → EndsNumeral r')
    (hEq :
      (ofValue v).toList ++ r = (ofValue w).toList ++ r') :
    v = w ∧ r = r' := by
  have hKind := kind_eq_of_append_eq hEq
  cases v with
  | null =>
      cases w with
      | null => exact ⟨rfl, List.append_cancel_left hEq⟩
      | _ => simp [Value.kind] at hKind
  | bool b =>
      cases w with
      | bool c =>
          cases b <;> cases c <;>
            simp [ofValue] at hEq
          · exact ⟨rfl, hEq⟩
          · exact ⟨rfl, hEq⟩
      | _ => simp [Value.kind] at hKind
  | integer i =>
      cases w with
      | integer j =>
          have hParts :=
            Text.ofInteger_append_inj (hR rfl) (hR' rfl) hEq
          exact ⟨by rw [hParts.1], hParts.2⟩
      | _ => simp [Value.kind] at hKind
  | string s =>
      cases w with
      | string t =>
          have hParts := ofString_append_inj hEq
          exact ⟨by rw [hParts.1], hParts.2⟩
      | _ => simp [Value.kind] at hKind
  | sequence vs =>
      cases w with
      | sequence ws =>
          have hItems :
              (ofItems "" vs).toList ++ ']' :: r =
                (ofItems "" ws).toList ++ ']' :: r' := by
            simpa [ofValue] using hEq
          have hParts :=
            ofItems_append_inj "" (Or.inl rfl) vs ws r r'
              hItems
          exact ⟨by rw [hParts.1], hParts.2⟩
      | _ => simp [Value.kind] at hKind
  | mapping ms =>
      cases w with
      | mapping ns =>
          have hMembers :
              (ofMembers "" ms).toList ++ '\x7d' :: r =
                (ofMembers "" ns).toList ++ '\x7d' :: r' := by
            simpa [ofValue] using hEq
          have hParts :=
            ofMembers_append_inj "" (Or.inl rfl) ms ns r r'
              hMembers
          exact ⟨by rw [hParts.1], hParts.2⟩
      | _ => simp [Value.kind] at hKind

/- The elements of a sequence, up to its closing bracket. -/
theorem ofItems_append_inj
    (lead : String)
    (hLead : IsLead lead)
    (vs ws : List Value)
    (r r' : List Char)
    (hEq :
      (ofItems lead vs).toList ++ ']' :: r =
        (ofItems lead ws).toList ++ ']' :: r') :
    vs = ws ∧ r = r' := by
  cases vs with
  | nil =>
      cases ws with
      | nil => simpa [ofItems] using hEq
      | cons w ws =>
          exact absurd hEq.symm
            (ofItems_cons_append_ne hLead w ws _ r)
  | cons v vs =>
      cases ws with
      | nil =>
          exact absurd hEq
            (ofItems_cons_append_ne hLead v vs _ r')
      | cons w ws =>
          rw [toList_ofItems_cons, toList_ofItems_cons,
            List.append_right_inj] at hEq
          have hHead :=
            ofValue_append_inj v w _ _
              (fun _ => endsNumeral_ofItems vs r)
              (fun _ => endsNumeral_ofItems ws r') hEq
          have hTail :=
            ofItems_append_inj "," (Or.inr rfl) vs ws r r'
              hHead.2
          exact ⟨by rw [hHead.1, hTail.1], hTail.2⟩

/- The members of a mapping, up to its closing brace. -/
theorem ofMembers_append_inj
    (lead : String)
    (hLead : IsLead lead)
    (ms ns : List (String × Value))
    (r r' : List Char)
    (hEq :
      (ofMembers lead ms).toList ++ '\x7d' :: r =
        (ofMembers lead ns).toList ++ '\x7d' :: r') :
    ms = ns ∧ r = r' := by
  cases ms with
  | nil =>
      cases ns with
      | nil => simpa [ofMembers] using hEq
      | cons n ns =>
          exact absurd hEq.symm
            (ofMembers_cons_append_ne hLead n ns _ r)
  | cons m ms =>
      rcases m with ⟨k, v⟩
      cases ns with
      | nil =>
          exact absurd hEq
            (ofMembers_cons_append_ne hLead (k, v) ms _ r')
      | cons n ns =>
          rcases n with ⟨l, w⟩
          rw [toList_ofMembers_cons, toList_ofMembers_cons,
            List.append_right_inj] at hEq
          have hKey := ofString_append_inj hEq
          have hRest := (List.cons.inj hKey.2).2
          have hHead :=
            ofValue_append_inj v w _ _
              (fun _ => endsNumeral_ofMembers ms r)
              (fun _ => endsNumeral_ofMembers ns r') hRest
          have hTail :=
            ofMembers_append_inj "," (Or.inr rfl) ms ns r r'
              hHead.2
          exact
            ⟨by rw [hKey.1, hHead.1, hTail.1], hTail.2⟩

end

/- A canonical text starts another only as an integer. -/
theorem eq_or_integers_of_prefix
    {v w : Value}
    (hPrefix :
      (ofValue v).toList <+: (ofValue w).toList) :
    v = w ∨ v.kind = .integer ∧ w.kind = .integer := by
  rcases hPrefix with ⟨r, hEq⟩
  have hEnd :
      (ofValue v).toList ++ r = (ofValue w).toList ++ [] := by
    rw [hEq, List.append_nil]
  have hKind := kind_eq_of_append_eq hEnd
  by_cases hInteger : v.kind = .integer
  · exact Or.inr ⟨hInteger, by rw [← hKind, hInteger]⟩
  · have hParts :=
      ofValue_append_inj v w r []
        (fun hV => absurd hV hInteger)
        (fun _ => Text.endsNumeral_nil) hEnd
    exact Or.inl hParts.1

/- Only equal values have the same canonical text. -/
theorem ofValue_inj
    {v w : Value}
    (hText : ofValue v = ofValue w) :
    v = w := by
  have hParts :=
    ofValue_append_inj v w [] []
      (fun _ => Text.endsNumeral_nil)
      (fun _ => Text.endsNumeral_nil) (by rw [hText])
  exact hParts.1

------------------------------------------------------------
-- Encodings
------------------------------------------------------------

/- A value within the limits is encoded as its text. -/
theorem eq_ofValue_of_encode
    {limits : Limits}
    {v : Value}
    {s : String}
    (hEncode : encode limits v = .ok s) :
    s = ofValue v := by
  unfold encode at hEncode
  cases hLength : length limits v with
  | error cause =>
      rw [hLength] at hEncode
      exact absurd hEncode (by rintro ⟨⟩)
  | ok n =>
      rw [hLength] at hEncode
      exact (Except.ok.inj hEncode).symm

/-
  Encodings are injective and delimit themselves: equal bytes
  come from equal values, and the bytes of a value start the
  bytes of another one only if both are integers.
-/
theorem encode_delimits
    {limits limits' : Limits}
    {v w : Value}
    {s t : String}
    (hV : encode limits v = .ok s)
    (hW : encode limits' w = .ok t) :
    (Text.bytes s = Text.bytes t → v = w) ∧
      (Text.bytes s <+: Text.bytes t →
        v = w ∨ v.kind = .integer ∧ w.kind = .integer) := by
  have hS := eq_ofValue_of_encode hV
  have hT := eq_ofValue_of_encode hW
  subst hS hT
  constructor
  · intro hBytes
    exact ofValue_inj (Text.bytes_inj.mp hBytes)
  · intro hBytes
    exact
      eq_or_integers_of_prefix
        (Text.toList_prefix_of_bytes_prefix hBytes)

/- A key that looks like the text of another mapping. -/
theorem encode_delimits_quoted_key :
    encode .standard (.mapping [("a\":1,\"b", .integer 2)]) =
        .ok "\x7b\"a\\\":1,\\\"b\":2\x7d" ∧
      encode .standard
          (.mapping [("a", .integer 1), ("b", .integer 2)]) =
        .ok "\x7b\"a\":1,\"b\":2\x7d" ∧
      ¬ Text.bytes "\x7b\"a\\\":1,\\\"b\":2\x7d" <+:
        Text.bytes "\x7b\"a\":1,\"b\":2\x7d" := by
  have hQuoted :
      encode .standard
          (.mapping [("a\":1,\"b", .integer 2)]) =
        .ok "\x7b\"a\\\":1,\\\"b\":2\x7d" := by
    decide +kernel
  have hPlain :
      encode .standard
          (.mapping [("a", .integer 1), ("b", .integer 2)]) =
        .ok "\x7b\"a\":1,\"b\":2\x7d" := by
    decide +kernel
  refine ⟨hQuoted, hPlain, ?_⟩
  intro hPrefix
  rcases (encode_delimits hQuoted hPlain).2 hPrefix with
    hEq | hKinds
  · exact absurd hEq (by simp)
  · exact absurd hKinds.1 (by simp [Value.kind])

end Canonical

end SignedMetadata
