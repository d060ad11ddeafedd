import SignedMetadata.Json.Printer
import SignedMetadata.Proofs.Json.Assembly
import SignedMetadata.Proofs.Text.Decimal

/-
  Printed data is a spelling of its tokens.

  Data has one tree, with closed containers.  The printer
  puts white space between tokens only, writes every
  character of a string in one of its spellings, and keeps
  literals as they are.  So what is printed is read as the
  tree of the data, if its literals are numerals.

  Main declarations:
    * `Json.tree`
    * `spelledText_printed`
    * `IsRaw`
    * `numeral_ofInteger`
    * `SpelledTokens.append`
    * `spelledTokens_pretty`
    * `spelledTokens_compact`
-/

namespace SignedMetadata

namespace Json

------------------------------------------------------------
-- Trees of Data
------------------------------------------------------------

mutual

/- The tree of data, with all containers closed. -/
def tree : Json → Tree
| .null => .null
| .bool b => .bool b
| .number literal => .number literal
| .string text => .string text
| .array items => .array (itemTrees items) true
| .object members => .object (memberTrees members) true

/- The trees of elements. -/
def itemTrees : List Json → List Tree
| [] => []
| json :: jsons => tree json :: itemTrees jsons

/- The trees of members under their keys. -/
def memberTrees :
    List (String × Json) → List (String × Tree)
| [] => []
| (key, json) :: rest => (key, tree json) :: memberTrees rest

end

------------------------------------------------------------
-- Strings
------------------------------------------------------------

/- A control character is written by its code unit. -/
theorem codeUnit_of_lt
    {n : Nat}
    (hControl : n < 0x20) :
    CodeUnit n
      ['0', '0', Nat.digitChar (n / 16),
        Nat.digitChar (n % 16)] := by
  have hZero : HexDigit 0 '0' := .lower (by decide)
  have hHigh : HexDigit (n / 16) (Nat.digitChar (n / 16)) :=
    .lower (by omega)
  have hLow : HexDigit (n % 16) (Nat.digitChar (n % 16)) :=
    .lower (by omega)
  have hUnit := CodeUnit.digits hZero hZero hHigh hLow
  have hValue :
      ((0 * 16 + 0) * 16 + n / 16) * 16 + n % 16 = n := by
    omega
  rw [hValue] at hUnit
  exact hUnit

/- A character is printed in one of its spellings. -/
theorem spelledChar_printedChar (c : Char) :
    SpelledChar c (printedChar c) := by
  have hLetters :
      ∀ p ∈ escapeLetters, SpelledChar p.2 ['\\', p.1] := by
    intro p hp
    exact .letter hp
  unfold printedChar
  split_ifs with hQuote hBackslash hBack hFeed hLine hReturn
    hTab hControl
  · exact hQuote ▸ hLetters ('"', '"') (by decide)
  · exact hBackslash ▸ hLetters ('\\', '\\') (by decide)
  · exact hBack ▸ hLetters ('b', '\x08') (by decide)
  · exact hFeed ▸ hLetters ('f', '\x0c') (by decide)
  · exact hLine ▸ hLetters ('n', '\n') (by decide)
  · exact hReturn ▸ hLetters ('r', '\r') (by decide)
  · exact hTab ▸ hLetters ('t', '\t') (by decide)
  · exact .unit (codeUnit_of_lt hControl)
  · exact .raw hQuote hBackslash (Nat.le_of_not_lt hControl)

/- The characters of a string are printed one by one. -/
theorem spelledText_printed (cs : List Char) :
    SpelledText cs (cs.flatMap printedChar) := by
  induction cs with
  | nil => exact .nil
  | cons c cs ih =>
      rw [List.flatMap_cons]
      exact .cons (spelledChar_printedChar c) ih

/- A character without an escape stands for itself. -/
theorem printedChar_of_raw
    {c : Char}
    (hQuote : c ≠ '"')
    (hBackslash : c ≠ '\\')
    (hPrinted : 0x20 ≤ c.toNat) :
    printedChar c = [c] := by
  have hControl (d : Char) (hd : d.toNat < 0x20) : c ≠ d := by
    rintro rfl
    omega
  rw [printedChar, if_neg hQuote, if_neg hBackslash,
    if_neg (hControl _ (by decide)),
    if_neg (hControl _ (by decide)),
    if_neg (hControl _ (by decide)),
    if_neg (hControl _ (by decide)),
    if_neg (hControl _ (by decide)),
    if_neg (Nat.not_lt_of_le hPrinted)]

/- No character of the text is printed with an escape. -/
def IsRaw (text : String) : Prop :=
  ∀ c ∈ text.toList, printedChar c = [c]

instance (text : String) : Decidable (IsRaw text) :=
  -- only those of the text are tested, not all there are
  List.decidableBAll (fun c => printedChar c = [c])
    text.toList

/- Texts are such behind each other if both are. -/
theorem isRaw_append_iff
    {first second : String} :
    IsRaw (first ++ second) ↔
      IsRaw first ∧ IsRaw second := by
  rw [IsRaw, String.toList_append]
  exact List.forall_mem_append

/- Such a text is printed as it is. -/
theorem printedString_of_isRaw
    {text : String}
    (hRaw : IsRaw text) :
    printedString text = "\"" ++ text ++ "\"" := by
  have hBody :
      text.toList.flatMap printedChar = text.toList := by
    rw [List.flatMap_congr hRaw]
    exact List.flatMap_singleton' _
  apply String.toList_inj.mp
  rw [printedString, hBody]
  simp

/- A string is printed between quotes. -/
theorem spelledToken_printedString (text : String) :
    SpelledToken (.string text)
      (printedString text).toList := by
  rw [printedString, String.toList_ofList]
  exact .string (spelledText_printed text.toList)

------------------------------------------------------------
-- Numerals
------------------------------------------------------------

/- The digits of a number have no leading zero. -/
theorem leading_toDigits
    (n : Nat)
    (hZero : (Nat.toDigits 10 n).head? = some '0') :
    Nat.toDigits 10 n = ['0'] := by
  induction n using Nat.strongRecOn with
  | _ n ih =>
      by_cases hDigit : n < 10
      · rw [Nat.toDigits_of_lt_base hDigit] at hZero ⊢
        rw [List.head?_cons, Option.some.injEq] at hZero
        rw [hZero]
      · have hLonger : 10 ≤ n := Nat.le_of_not_lt hDigit
        rw [Nat.toDigits_of_base_le (by decide) hLonger,
          List.head?_append_of_ne_nil _
            Nat.toDigits_ne_nil] at hZero
        have hFront := ih (n / 10) (by omega) hZero
        have hNone : n / 10 = 0 := by
          have hValue :
              Nat.ofDigitChars 10
                  (Nat.toDigits 10 (n / 10)) 0 =
                n / 10 := by
            simp
          rw [← hValue, hFront]
          rfl
        omega

/- The digits of a number are one of its numerals. -/
theorem decimal_toDigits (n : Nat) :
    Decimal n (Nat.toDigits 10 n) where
  nonempty := Nat.toDigits_ne_nil
  digits := Text.isDigit_toDigits n
  leading := leading_toDigits n
  value := by simp

/- The text of an integer is one of its numerals. -/
theorem numeral_ofInteger (i : Int) :
    Numeral i (Text.ofInteger i).toList := by
  rw [Text.toList_ofInteger]
  have hDecimal := decimal_toDigits i.natAbs
  by_cases hSign : i < 0
  · have hNumeral := Numeral.negative hDecimal
    rw [show (-(i.natAbs : Int)) = i by omega] at hNumeral
    rw [if_pos hSign]
    exact hNumeral
  · have hNumeral := Numeral.unsigned hDecimal
    rw [show (i.natAbs : Int) = i by omega] at hNumeral
    rw [if_neg hSign]
    exact hNumeral

------------------------------------------------------------
-- Joined Texts
------------------------------------------------------------

/- White space may be joined. -/
theorem White.append
    {space more : List Char}
    (hSpace : White space)
    (hMore : White more) :
    White (space ++ more) := by
  intro c hc
  rcases List.mem_append.mp hc with hc | hc
  · exact hSpace c hc
  · exact hMore c hc

/- Nothing is white space. -/
theorem White.nil : White [] := by
  intro c hc
  exact absurd hc List.not_mem_nil

/- A new line is white space. -/
theorem white_newLine (level : Nat) :
    White (newLine level).toList := by
  rw [newLine, String.toList_ofList]
  intro c hc
  rcases List.mem_cons.mp hc with rfl | hc
  · exact Or.inr (Or.inr (Or.inl rfl))
  · exact Or.inl (List.eq_of_mem_replicate hc)

namespace SpelledTokens

variable {token : Token}
variable {tokens more : List Token}
variable {space cs rest : List Char}

/- White space may stand before tokens. -/
theorem after
    (hSpace : White space)
    (hTokens : SpelledTokens tokens cs) :
    SpelledTokens tokens (space ++ cs) := by
  cases hTokens with
  | nil hWhite => exact .nil (hSpace.append hWhite)
  | cons hWhite hToken hRest =>
      rw [← List.append_assoc]
      exact .cons (hSpace.append hWhite) hToken hRest

/- Tokens may be followed by more tokens. -/
theorem append
    (hTokens : SpelledTokens tokens cs)
    (hMore : SpelledTokens more rest) :
    SpelledTokens (tokens ++ more) (cs ++ rest) := by
  induction hTokens with
  | nil hSpace => exact hMore.after hSpace
  | cons hSpace hToken _ ih =>
      rw [List.append_assoc, List.append_assoc]
      exact .cons hSpace hToken ih

/- A spelling of a token may be followed by more tokens. -/
theorem next
    (hToken : SpelledToken token cs)
    (hRest : SpelledTokens tokens rest) :
    SpelledTokens (token :: tokens) (cs ++ rest) := by
  exact .cons White.nil hToken hRest

/- White space may stand behind the last token. -/
theorem last
    (hToken : SpelledToken token cs)
    (hSpace : White space) :
    SpelledTokens [token] (cs ++ space) := by
  exact next hToken (.nil hSpace)

/- A spelling of a token alone. -/
theorem one (hToken : SpelledToken token cs) :
    SpelledTokens [token] cs := by
  have hLast := last hToken White.nil
  rw [List.append_nil] at hLast
  exact hLast

end SpelledTokens

------------------------------------------------------------
-- Indented Text
------------------------------------------------------------

open Json.Tree (Holds HoldsItems HoldsMembers itemTokens
  memberTokens)

mutual

/- Data that holds a value is printed as its tokens. -/
theorem spelledTokens_prettyAt
    (json : Json)
    (level : Nat)
    {v : Value}
    (hHolds : json.tree.Holds v) :
    SpelledTokens json.tree.tokens
      (prettyAt level json).toList := by
  match json with
  | .null =>
      have hNull := SpelledTokens.one .null
      simpa [prettyAt, tree, Tree.tokens] using hNull
  | .bool true =>
      have hTrue := SpelledTokens.one .true
      simpa [prettyAt, tree, Tree.tokens] using hTrue
  | .bool false =>
      have hFalse := SpelledTokens.one .false
      simpa [prettyAt, tree, Tree.tokens] using hFalse
  | .number literal =>
      rcases hHolds with ⟨i, hNumeral, _⟩
      have hToken := SpelledToken.number hNumeral
      rw [String.ofList_toList] at hToken
      exact .one hToken
  | .string text =>
      exact .one (spelledToken_printedString text)
  | .array [] =>
      have hArray :=
        SpelledTokens.next .leftBracket (.one .rightBracket)
      simpa [prettyAt, tree, itemTrees, Tree.tokens,
        itemTokens] using hArray
  | .array (item :: items) =>
      rcases hHolds with ⟨_, _, ⟨_, _, hItem, hItems, _⟩, _⟩
      have hClose :
          SpelledTokens [.rightBracket]
            ((newLine level).toList ++ [']']) :=
        .after (white_newLine level) (.one .rightBracket)
      have hRest :=
        (spelledTokens_prettyItems items (level + 1)
          hItems).append hClose
      have hBody :=
        (spelledTokens_prettyAt item (level + 1)
          hItem).append hRest
      have hInside :=
        SpelledTokens.after (white_newLine (level + 1)) hBody
      have hArray :=
        SpelledTokens.next .leftBracket hInside
      simpa [prettyAt, tree, itemTrees, Tree.tokens,
        itemTokens] using hArray
  | .object [] =>
      have hObject :=
        SpelledTokens.next .leftBrace (.one .rightBrace)
      simpa [prettyAt, tree, memberTrees, Tree.tokens,
        memberTokens] using hObject
  | .object ((key, json) :: rest) =>
      rcases hHolds with
        ⟨_, _, _, ⟨_, _, hValue, hMembers, _⟩, _, _⟩
      have hClose :
          SpelledTokens [.rightBrace]
            ((newLine level).toList ++ ['\x7d']) :=
        .after (white_newLine level) (.one .rightBrace)
      have hRest :=
        (spelledTokens_prettyMembers rest (level + 1)
          hMembers).append hClose
      have hMember :=
        (spelledTokens_prettyMember key json (level + 1)
          hValue).append hRest
      have hInside :=
        SpelledTokens.after (white_newLine (level + 1))
          hMember
      have hObject :=
        SpelledTokens.next .leftBrace hInside
      simpa [prettyAt, tree, memberTrees, Tree.tokens,
        memberTokens] using hObject

/- Elements after the first are printed behind commas. -/
theorem spelledTokens_prettyItems
    (items : List Json)
    (level : Nat)
    {vs : List Value}
    (hHolds : HoldsItems (itemTrees items) vs) :
    SpelledTokens (itemTokens [.comma] (itemTrees items))
      (prettyItems level items).toList := by
  match items with
  | [] => exact .nil White.nil
  | item :: items =>
      rcases hHolds with ⟨_, _, hItem, hItems, _⟩
      have hBody :=
        (spelledTokens_prettyAt item level hItem).append
          (spelledTokens_prettyItems items level hItems)
      have hAfter :=
        SpelledTokens.after (white_newLine level) hBody
      have hComma := SpelledTokens.next .comma hAfter
      simpa [prettyItems, itemTrees, itemTokens] using hComma

/- A key is printed in front of its value. -/
theorem spelledTokens_prettyMember
    (key : String)
    (json : Json)
    (level : Nat)
    {v : Value}
    (hHolds : json.tree.Holds v) :
    SpelledTokens (.string key :: .colon :: json.tree.tokens)
      ((printedString key).toList ++
        (':' :: ' ' :: (prettyAt level json).toList)) := by
  have hSpace : White [' '] := by
    intro c hc
    exact Or.inl (List.mem_singleton.mp hc)
  have hValue :=
    SpelledTokens.after hSpace
      (spelledTokens_prettyAt json level hHolds)
  exact
    .next (spelledToken_printedString key)
      (.next .colon hValue)

/- Members after the first are printed behind commas. -/
theorem spelledTokens_prettyMembers
    (members : List (String × Json))
    (level : Nat)
    {ms : List (String × Value)}
    (hHolds : HoldsMembers (memberTrees members) ms) :
    SpelledTokens
      (memberTokens [.comma] (memberTrees members))
      (prettyMembers level members).toList := by
  match members with
  | [] => exact .nil White.nil
  | (key, json) :: rest =>
      rcases hHolds with ⟨_, _, hValue, hMembers, _⟩
      have hBody :=
        (spelledTokens_prettyMember key json level
          hValue).append
          (spelledTokens_prettyMembers rest level hMembers)
      have hAfter :=
        SpelledTokens.after (white_newLine level) hBody
      have hComma := SpelledTokens.next .comma hAfter
      simpa [prettyMembers, memberTrees, memberTokens]
        using hComma

end

/- Printed data and a line end are the tokens of its tree. -/
theorem spelledTokens_pretty
    {json : Json}
    {v : Value}
    (hHolds : json.tree.Holds v) :
    SpelledTokens json.tree.tokens
      (json.pretty ++ "\n").toList := by
  have hLine : White ['\n'] := by
    intro c hc
    exact
      Or.inr (Or.inr (Or.inl (List.mem_singleton.mp hc)))
  have hEnd :=
    (spelledTokens_prettyAt json 0 hHolds).append
      (SpelledTokens.nil hLine)
  rw [List.append_nil] at hEnd
  rw [pretty, String.toList_append]
  exact hEnd

------------------------------------------------------------
-- Compact Text
------------------------------------------------------------

mutual

/-
  Data that holds a value is printed as its tokens without
  white space, too.  A scalar is printed alike both ways.
-/
theorem spelledTokens_compact
    (json : Json)
    {v : Value}
    (hHolds : json.tree.Holds v) :
    SpelledTokens json.tree.tokens json.compact.toList := by
  match json with
  | .null => exact spelledTokens_prettyAt .null 0 hHolds
  | .bool true =>
      exact spelledTokens_prettyAt (.bool true) 0 hHolds
  | .bool false =>
      exact spelledTokens_prettyAt (.bool false) 0 hHolds
  | .number literal =>
      exact
        spelledTokens_prettyAt (.number literal) 0 hHolds
  | .string text =>
      exact spelledTokens_prettyAt (.string text) 0 hHolds
  | .array items =>
      rcases hHolds with ⟨_, _, hItems, _⟩
      have hLead : SpelledTokens [] "".toList :=
        .nil White.nil
      have hInside :=
        (spelledTokens_compactItems items hLead
          hItems).append (.one .rightBracket)
      have hArray :=
        SpelledTokens.next .leftBracket hInside
      simpa [compact, tree, Tree.tokens] using hArray
  | .object members =>
      rcases hHolds with ⟨_, _, _, hMembers, _⟩
      have hLead : SpelledTokens [] "".toList :=
        .nil White.nil
      have hInside :=
        (spelledTokens_compactMembers members hLead
          hMembers).append (.one .rightBrace)
      have hObject :=
        SpelledTokens.next .leftBrace hInside
      simpa [compact, tree, Tree.tokens] using hObject

/- Elements are printed behind a lead, and then commas. -/
theorem spelledTokens_compactItems
    (items : List Json)
    {lead : String}
    {leading : List Token}
    {vs : List Value}
    (hLead : SpelledTokens leading lead.toList)
    (hHolds : HoldsItems (itemTrees items) vs) :
    SpelledTokens (itemTokens leading (itemTrees items))
      (compactItems lead items).toList := by
  match items with
  | [] => exact .nil White.nil
  | item :: items =>
      rcases hHolds with ⟨_, _, hItem, hItems, _⟩
      have hComma : SpelledTokens [.comma] ",".toList :=
        .one .comma
      have hBody :=
        (spelledTokens_compact item hItem).append
          (spelledTokens_compactItems items hComma hItems)
      have hAll := hLead.append hBody
      simpa [compactItems, itemTrees, itemTokens] using hAll

/- Members are printed likewise. -/
theorem spelledTokens_compactMembers
    (members : List (String × Json))
    {lead : String}
    {leading : List Token}
    {ms : List (String × Value)}
    (hLead : SpelledTokens leading lead.toList)
    (hHolds : HoldsMembers (memberTrees members) ms) :
    SpelledTokens
      (memberTokens leading (memberTrees members))
      (compactMembers lead members).toList := by
  match members with
  | [] => exact .nil White.nil
  | (key, json) :: rest =>
      rcases hHolds with ⟨_, _, hValue, hMembers, _⟩
      have hComma : SpelledTokens [.comma] ",".toList :=
        .one .comma
      have hBody :=
        (spelledTokens_compact json hValue).append
          (spelledTokens_compactMembers rest hComma hMembers)
      have hMember :=
        SpelledTokens.next (spelledToken_printedString key)
          (.next .colon hBody)
      have hAll := hLead.append hMember
      simpa [compactMembers, memberTrees, memberTokens]
        using hAll

end

end Json

end SignedMetadata
