import SignedMetadata.Json.Token
import SignedMetadata.Value

/-
  The texts that write a value.

  A value is laid out as a sequence of tokens, in which the
  members of a mapping stand in any order.  Every token has
  its spellings, and white space may stand before and after
  every token.  A character of a string is written as it is,
  by a letter after a backslash, by its code unit in
  hexadecimal digits, or by two surrogate code units.

  Main declarations:
    * `SpelledChar`
    * `Numeral`
    * `SpelledTokens`
    * `Layout`
    * `Spells`
-/

namespace SignedMetadata

namespace Json

------------------------------------------------------------
-- Strings
------------------------------------------------------------

/- A hexadecimal digit, in either case. -/
inductive HexDigit : Nat → Char → Prop where
| lower
    {d : Nat} (hDigit : d < 16) :
    HexDigit d (Nat.digitChar d)
| upper
    {d : Nat} (hDigit : d < 16) :
    HexDigit d (Nat.digitChar d).toUpper

/- A number of sixteen bits as four hexadecimal digits. -/
inductive CodeUnit : Nat → List Char → Prop where
| digits
    {p q r s : Nat} {a b c d : Char}
    (hP : HexDigit p a) (hQ : HexDigit q b)
    (hR : HexDigit r c) (hS : HexDigit s d) :
    CodeUnit (((p * 16 + q) * 16 + r) * 16 + s) [a, b, c, d]

/- The letters of short escapes, and what they stand for. -/
def escapeLetters : List (Char × Char) :=
  [('"', '"'), ('\\', '\\'), ('/', '/'), ('b', '\x08'),
    ('f', '\x0c'), ('n', '\n'), ('r', '\r'), ('t', '\t')]

/- The ways to write a character inside a string. -/
inductive SpelledChar : Char → List Char → Prop where
| raw
    {c : Char} (hQuote : c ≠ '"') (hBackslash : c ≠ '\\')
    (hPrinted : 0x20 ≤ c.toNat) :
    SpelledChar c [c]
| letter
    {c l : Char} (hLetter : (l, c) ∈ escapeLetters) :
    SpelledChar c ['\\', l]
| unit
    {c : Char} {hex : List Char}
    (hUnit : CodeUnit c.toNat hex) :
    SpelledChar c ('\\' :: 'u' :: hex)
| surrogates
    {c : Char} {high low : List Char}
    (hWide : 0x10000 ≤ c.toNat)
    (hHigh :
      CodeUnit (0xD800 + (c.toNat - 0x10000) / 0x400) high)
    (hLow :
      CodeUnit (0xDC00 + (c.toNat - 0x10000) % 0x400) low) :
    SpelledChar c
      ('\\' :: 'u' :: high ++ '\\' :: 'u' :: low)

/- The ways to write a text inside a string. -/
inductive SpelledText : List Char → List Char → Prop where
| nil : SpelledText [] []
| cons
    {c : Char} {cs spelling rest : List Char}
    (hHead : SpelledChar c spelling)
    (hTail : SpelledText cs rest) :
    SpelledText (c :: cs) (spelling ++ rest)

------------------------------------------------------------
-- Integers
------------------------------------------------------------

/- The digits of a number, with a leading zero only alone. -/
structure Decimal (n : Nat) (ds : List Char) : Prop where
  nonempty : ds ≠ []
  digits : ∀ d ∈ ds, d.isDigit = true
  leading : ds.head? = some '0' → ds = ['0']
  value : Nat.ofDigitChars 10 ds 0 = n

/- The literals of an integer; zero may have a sign. -/
inductive Numeral : Int → List Char → Prop where
| unsigned
    {n : Nat} {ds : List Char} (hDecimal : Decimal n ds) :
    Numeral n ds
| negative
    {n : Nat} {ds : List Char} (hDecimal : Decimal n ds) :
    Numeral (-n) ('-' :: ds)

------------------------------------------------------------
-- Tokens
------------------------------------------------------------

/- The ways to write a token. -/
inductive SpelledToken : Token → List Char → Prop where
| leftBracket : SpelledToken .leftBracket ['[']
| rightBracket : SpelledToken .rightBracket [']']
| leftBrace : SpelledToken .leftBrace ['\x7b']
| rightBrace : SpelledToken .rightBrace ['\x7d']
| comma : SpelledToken .comma [',']
| colon : SpelledToken .colon [':']
| null : SpelledToken .null ['n', 'u', 'l', 'l']
| true : SpelledToken (.bool true) ['t', 'r', 'u', 'e']
| false :
    SpelledToken (.bool false) ['f', 'a', 'l', 's', 'e']
| number
    {i : Int} {cs : List Char} (hNumeral : Numeral i cs) :
    SpelledToken (.number (String.ofList cs)) cs
| string
    {s : String} {body : List Char}
    (hText : SpelledText s.toList body) :
    SpelledToken (.string s) ('"' :: body ++ ['"'])

/- Every character may stand between tokens. -/
def White (cs : List Char) : Prop :=
  ∀ c ∈ cs, c = ' ' ∨ c = '\t' ∨ c = '\n' ∨ c = '\r'

/- The ways to write tokens, with space around each. -/
inductive SpelledTokens : List Token → List Char → Prop where
| nil
    {space : List Char} (hSpace : White space) :
    SpelledTokens [] space
| cons
    {token : Token} {tokens : List Token}
    {space cs rest : List Char}
    (hSpace : White space)
    (hToken : SpelledToken token cs)
    (hRest : SpelledTokens tokens rest) :
    SpelledTokens (token :: tokens) (space ++ (cs ++ rest))

------------------------------------------------------------
-- Values
------------------------------------------------------------

mutual

/- The token sequences of a value. -/
inductive Layout : Value → List Token → Prop where
| null : Layout .null [.null]
| bool (b : Bool) : Layout (.bool b) [.bool b]
| integer
    {i : Int} {cs : List Char} (hNumeral : Numeral i cs) :
    Layout (.integer i) [.number (String.ofList cs)]
| string (s : String) : Layout (.string s) [.string s]
| noItems :
    Layout (.sequence []) [.leftBracket, .rightBracket]
| items
    {vs : List Value} {tokens : List Token}
    (hItems : ItemsLayout vs tokens) :
    Layout (.sequence vs)
      (.leftBracket :: (tokens ++ [.rightBracket]))
| noMembers :
    Layout (.mapping []) [.leftBrace, .rightBrace]
| members
    {ms pairs : List (String × Value)} {tokens : List Token}
    (hOrder : pairs.Perm ms)
    (hMembers : MembersLayout pairs tokens) :
    Layout (.mapping ms)
      (.leftBrace :: (tokens ++ [.rightBrace]))

/- The token sequences of elements, between brackets. -/
inductive ItemsLayout : List Value → List Token → Prop where
| last
    {v : Value} {tokens : List Token}
    (hItem : Layout v tokens) :
    ItemsLayout [v] tokens
| more
    {v : Value} {vs : List Value} {tokens rest : List Token}
    (hItem : Layout v tokens)
    (hRest : ItemsLayout vs rest) :
    ItemsLayout (v :: vs) (tokens ++ .comma :: rest)

/- The token sequences of members, in the order given. -/
inductive MembersLayout :
    List (String × Value) → List Token → Prop where
| last
    {key : String} {v : Value} {tokens : List Token}
    (hValue : Layout v tokens) :
    MembersLayout [(key, v)]
      (.string key :: .colon :: tokens)
| more
    {key : String} {v : Value}
    {ms : List (String × Value)} {tokens rest : List Token}
    (hValue : Layout v tokens)
    (hRest : MembersLayout ms rest) :
    MembersLayout ((key, v) :: ms)
      (.string key :: .colon :: (tokens ++ .comma :: rest))

end

/- The text writes the value. -/
def Spells (text : String) (v : Value) : Prop :=
  ∃ tokens,
    Layout v tokens ∧ SpelledTokens tokens text.toList

end Json

end SignedMetadata
