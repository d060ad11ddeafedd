import Mathlib.Data.List.Chain
import SignedMetadata.Proofs.Json.Grammar
import SignedMetadata.Proofs.Text.Quoted

/-
  Every way to write tokens is scanned to these tokens.

  A string gives the text it spells, whatever escapes are
  used, and a number its literal, provided that a delimiter
  follows it.  Tokens may touch unless the first is a number
  that the second does not delimit.

  Main declarations:
    * `Phase.scan_spelledChar`
    * `Phase.scan_writtenNumber`
    * `Phase.scan_writtenTokens_append`
    * `Phase.mayTouch_append`
-/

namespace SignedMetadata

namespace Json

namespace Phase

/- A scan goes on from the phase after a step. -/
theorem scan_cons
    (phase : Phase)
    (c : Char)
    (cs : List Char) :
    scan phase (c :: cs) =
      (phase.step c).2 ++ scan (phase.step c).1 cs := by
  rfl

/- White space may stand between tokens. -/
theorem isSpace_of_white
    {c : Char}
    {cs : List Char}
    (hSpace : White (c :: cs)) :
    isSpace c = true := by
  simpa [isSpace, or_assoc] using hSpace c (by simp)

/- White space between tokens is passed over. -/
theorem scan_white
    {space : List Char}
    (rest : List Char)
    (hSpace : White space) :
    scan .between (space ++ rest) = scan .between rest := by
  induction space with
  | nil => rfl
  | cons c cs ih =>
      rw [List.cons_append, scan_cons, step, start,
        if_pos (isSpace_of_white hSpace), List.nil_append]
      exact ih fun d hd => hSpace d (by simp [hd])

------------------------------------------------------------
-- Strings
------------------------------------------------------------

/- A hexadecimal digit has its value. -/
theorem hexDigit?_of_hexDigit
    {d : Nat}
    {c : Char}
    (hDigit : HexDigit d c) :
    Text.hexDigit? c = some d := by
  have hUpper :
      ∀ d < 16,
        Text.hexDigit? (Nat.digitChar d).toUpper = some d := by
    decide
  cases hDigit with
  | lower hDigit => exact Text.hexDigit?_digitChar hDigit
  | upper hDigit => exact hUpper d hDigit

/- Four hexadecimal digits complete a code unit. -/
theorem scan_codeUnit
    {unit : Nat}
    {hex : List Char}
    (read : List Char)
    (high : Option Nat)
    (rest : List Char)
    (hUnit : CodeUnit unit hex) :
    scan (.codeUnit read high 4 0) (hex ++ rest) =
      (afterUnit read high unit).2 ++
        scan (afterUnit read high unit).1 rest := by
  cases hUnit with
  | digits hP hQ hR hS =>
      simp [scan_cons, step, unitStep,
        hexDigit?_of_hexDigit hP, hexDigit?_of_hexDigit hQ,
        hexDigit?_of_hexDigit hR, hexDigit?_of_hexDigit hS]

/- No character is a surrogate. -/
theorem toNat_char (c : Char) :
    c.toNat < 0xD800 ∨
      0xE000 ≤ c.toNat ∧ c.toNat < 0x110000 := by
  have hValid := c.valid
  unfold UInt32.isValidChar Nat.isValidChar at hValid
  change c.toNat < _ ∨ _ < c.toNat ∧ c.toNat < _ at hValid
  omega

/- The surrogates of a code point stand for it. -/
theorem paired_surrogates
    {n : Nat}
    (hWide : 0x10000 ≤ n)
    (hRange : n < 0x110000) :
    isHigh (0xD800 + (n - 0x10000) / 0x400) = true ∧
      isLow (0xDC00 + (n - 0x10000) % 0x400) = true ∧
        paired (0xD800 + (n - 0x10000) / 0x400)
          (0xDC00 + (n - 0x10000) % 0x400) = n := by
  refine ⟨?_, ?_, ?_⟩
  · rw [isHigh, Bool.and_eq_true, decide_eq_true_iff,
      decide_eq_true_iff]
    omega
  · rw [isLow, Bool.and_eq_true, decide_eq_true_iff,
      decide_eq_true_iff]
    omega
  · unfold paired
    omega

/- Every way to write a character adds that character. -/
theorem scan_spelledChar
    {c : Char}
    {spelling : List Char}
    (read rest : List Char)
    (hChar : SpelledChar c spelling) :
    scan (.text read) (spelling ++ rest) =
      scan (.text (c :: read)) rest := by
  have hRange := toNat_char c
  cases hChar with
  | raw hQuote hBackslash hPrinted =>
      have hControl : ¬ c.toNat < 0x20 := by omega
      rw [List.singleton_append, scan_cons, step, textStep,
        if_neg hQuote, if_neg hBackslash, if_neg hControl,
        List.nil_append]
  | @letter l hLetter =>
      have hAll :
          ∀ p ∈ escapeLetters,
            p.1 ≠ 'u' ∧ escaped? p.1 = some p.2 := by
        decide
      have hEscaped := hAll (l, c) hLetter
      simp [scan_cons, step, textStep, escapeStep,
        hEscaped.1, hEscaped.2]
  | @unit hex hUnit =>
      have hHigh : isHigh c.toNat = false := by
        simp [isHigh]
        omega
      have hLow : isLow c.toNat = false := by
        simp [isLow]
        omega
      have hSteps :
          scan (.text read) ('\\' :: 'u' :: hex ++ rest) =
            scan (.codeUnit read none 4 0) (hex ++ rest) := by
        rfl
      rw [hSteps, scan_codeUnit read none rest hUnit,
        afterUnit]
      simp [hHigh, hLow]
  | @surrogates high low hWide hHigh hLow =>
      rcases paired_surrogates hWide (by omega) with
        ⟨hIsHigh, hIsLow, hPaired⟩
      have hFirst :
          scan (.text read)
              ('\\' :: 'u' :: high ++
                '\\' :: 'u' :: low ++ rest) =
            scan (.codeUnit read none 4 0)
              (high ++ ('\\' :: 'u' :: (low ++ rest))) := by
        rw [List.append_assoc]
        rfl
      have hSecond :
          scan
                (.surrogate read
                  (0xD800 + (c.toNat - 0x10000) / 0x400))
              ('\\' :: 'u' :: (low ++ rest)) =
            scan
              (.codeUnit read
                (some (0xD800 + (c.toNat - 0x10000) / 0x400))
                4 0)
              (low ++ rest) := by
        rfl
      rw [hFirst, scan_codeUnit read none _ hHigh,
        afterUnit, if_pos hIsHigh, List.nil_append, hSecond,
        scan_codeUnit read _ rest hLow,
        afterUnit, if_pos hIsLow, List.nil_append, hPaired,
        Char.ofNat_toNat]

/- A spelled text is read up to the closing quote. -/
theorem scan_spelledText
    {cs body : List Char}
    (read rest : List Char)
    (hText : SpelledText cs body) :
    scan (.text read) (body ++ '"' :: rest) =
      .string (String.ofList (read.reverse ++ cs)) ::
        scan .between rest := by
  induction hText generalizing read with
  | nil =>
      rw [List.append_nil]
      rfl
  | @cons c cs spelling body hHead _ ih =>
      rw [List.append_assoc, scan_spelledChar read _ hHead,
        ih, List.reverse_cons, List.append_assoc,
        List.singleton_append]

------------------------------------------------------------
-- Numbers
------------------------------------------------------------

/- What follows a number does not continue it. -/
def Delimited (rest : List Char) : Prop :=
  ∀ c ∈ rest.head?,
    isSpace c = true ∨ c = ',' ∨ c = ']' ∨ c = '\x7d'

/- A number has a first digit. -/
theorem exists_cons_of_decimal
    {n : Nat}
    {ds : List Char}
    (hDecimal : Decimal n ds) :
    ∃ d rest, ds = d :: rest ∧ d.isDigit = true := by
  cases ds with
  | nil => exact absurd rfl hDecimal.nonempty
  | cons d rest =>
      exact ⟨d, rest, rfl, hDecimal.digits d (by simp)⟩

/- A character that continues a literal is added to it. -/
theorem scan_next
    {part next : NumberPhase}
    {c : Char}
    {added : List Char}
    (read rest : List Char)
    (hNext : part.next? c = some (next, added)) :
    scan (.number part read) (c :: rest) =
      scan (.number next (added.reverse ++ read)) rest := by
  rw [scan_cons, step, numberStep, hNext, List.nil_append]

/- A complete literal ends before a delimiter. -/
theorem scan_delimited
    {part : NumberPhase}
    (read rest : List Char)
    (hPart : part.complete = true)
    (hRest : Delimited rest) :
    scan (.number part read) rest =
      numberToken read :: scan .between rest := by
  cases rest with
  | nil =>
      rw [scan, finish, if_pos hPart]
      rfl
  | cons c cs =>
      have hDelimiter := hRest c rfl
      simp only [isSpace, Bool.or_eq_true,
        decide_eq_true_eq] at hDelimiter
      cases part with
      | zero =>
          rcases hDelimiter with
            (((rfl | rfl) | rfl) | rfl) | rfl | rfl | rfl <;>
          rfl
      | whole =>
          rcases hDelimiter with
            (((rfl | rfl) | rfl) | rfl) | rfl | rfl | rfl <;>
          rfl
      | fraction =>
          rcases hDelimiter with
            (((rfl | rfl) | rfl) | rfl) | rfl | rfl | rfl <;>
          rfl
      | exponent =>
          rcases hDelimiter with
            (((rfl | rfl) | rfl) | rfl) | rfl | rfl | rfl <;>
          rfl
      | _ => exact absurd hPart Bool.false_ne_true

/- Digits are read where any number of them may stand. -/
theorem scan_digits
    {part : NumberPhase}
    {ds : List Char}
    (read rest : List Char)
    (hPart :
      ∀ d : Char, d.isDigit = true →
        part.next? d = some (part, [d]))
    (hDigits : ∀ d ∈ ds, d.isDigit = true) :
    scan (.number part read) (ds ++ rest) =
      scan (.number part (ds.reverse ++ read)) rest := by
  induction ds generalizing read with
  | nil => rfl
  | cons d ds ih =>
      have hDigit : d.isDigit = true := hDigits d (by simp)
      have hRest : ∀ e ∈ ds, e.isDigit = true := by
        intro e he
        exact hDigits e (List.mem_cons_of_mem d he)
      rw [List.cons_append,
        scan_next read _ (hPart d hDigit), ih _ hRest,
        List.reverse_singleton, List.reverse_cons,
        List.append_assoc]

/- The part of a literal that its first digit is. -/
def ofDigit (d : Char) : NumberPhase :=
  if d = '0' then .zero else .whole

/- The digits of a number are read after the first one. -/
theorem scan_decimal
    {n : Nat}
    {d : Char}
    {ds : List Char}
    (read rest : List Char)
    (hDecimal : Decimal n (d :: ds)) :
    ∃ part, (part = .zero ∨ part = .whole) ∧
      scan (.number (ofDigit d) (d :: read)) (ds ++ rest) =
        scan (.number part ((d :: ds).reverse ++ read))
          rest := by
  by_cases hZero : d = '0'
  · have hAlone := hDecimal.leading (by rw [hZero]; rfl)
    rw [List.cons.injEq] at hAlone
    rw [hZero, hAlone.2]
    exact ⟨.zero, Or.inl rfl, rfl⟩
  · have hWhole :
        ∀ e : Char, e.isDigit = true →
          NumberPhase.whole.next? e =
            some (.whole, [e]) := by
      intro e he
      rw [NumberPhase.next?, if_pos he]
    refine ⟨.whole, Or.inr rfl, ?_⟩
    rw [ofDigit, if_neg hZero,
      scan_digits (d :: read) rest hWhole
        (fun e he => hDecimal.digits e (by simp [he])),
      List.reverse_cons, List.append_assoc]
    rfl

/- A fraction is read behind the digits of a number. -/
theorem scan_fraction
    {part : NumberPhase}
    {fraction : List Char}
    (read rest : List Char)
    (hPart : part = .zero ∨ part = .whole)
    (hFraction : Fraction fraction) :
    ∃ next,
      (next = .zero ∨ next = .whole ∨ next = .fraction) ∧
        scan (.number part read) (fraction ++ rest) =
          scan (.number next (fraction.reverse ++ read))
            rest := by
  cases hFraction with
  | none =>
      refine ⟨part, ?_, rfl⟩
      rw [← or_assoc]
      exact Or.inl hPart
  | @point ds hDigits =>
      have hPoint :
          part.next? '.' = some (.point, ['.']) := by
        rcases hPart with rfl | rfl <;> rfl
      have hFirst :
          ∀ e : Char, e.isDigit = true →
            NumberPhase.point.next? e =
              some (.fraction, [e]) := by
        intro e he
        rw [NumberPhase.next?, if_pos he]
      have hMore :
          ∀ e : Char, e.isDigit = true →
            NumberPhase.fraction.next? e =
              some (.fraction, [e]) := by
        intro e he
        rw [NumberPhase.next?, if_pos he]
      refine ⟨.fraction, Or.inr (Or.inr rfl), ?_⟩
      rw [List.cons_append, scan_next read _ hPoint]
      rcases List.exists_cons_of_ne_nil hDigits.nonempty with
        ⟨d, ds', rfl⟩
      rw [List.cons_append,
        scan_next _ _ (hFirst d (hDigits.digits d (by simp))),
        scan_digits _ rest hMore
          (fun e he => hDigits.digits e (by simp [he]))]
      simp

/- An exponent is read as it is kept, and ends a number. -/
theorem scan_exponent
    {part : NumberPhase}
    {kept exponent : List Char}
    (read rest : List Char)
    (hPart :
      part = .zero ∨ part = .whole ∨ part = .fraction)
    (hExponent : Exponent kept exponent) :
    ∃ next, NumberPhase.complete next = true ∧
      scan (.number part read) (exponent ++ rest) =
        scan (.number next (kept.reverse ++ read)) rest := by
  have hMore :
      ∀ e : Char, e.isDigit = true →
        NumberPhase.exponent.next? e =
          some (.exponent, [e]) := by
    intro e he
    rw [NumberPhase.next?, if_pos he]
  have hMark :
      ∀ mark, (mark = 'e' ∨ mark = 'E') →
        part.next? mark = some (.mark, ['e']) := by
    rintro mark (rfl | rfl) <;>
      rcases hPart with rfl | rfl | rfl <;> rfl
  cases hExponent with
  | none =>
      refine ⟨part, ?_, rfl⟩
      rcases hPart with rfl | rfl | rfl <;> rfl
  | @unsigned mark ds hLetter hDigits =>
      refine ⟨.exponent, rfl, ?_⟩
      rcases List.exists_cons_of_ne_nil hDigits.nonempty with
        ⟨d, ds', rfl⟩
      have hDigit := hDigits.digits d (by simp)
      have hSign : ¬ (d = '+' ∨ d = '-') := by
        rintro (rfl | rfl) <;> exact absurd hDigit (by decide)
      have hFirst :
          NumberPhase.mark.next? d =
            some (.exponent, ['+', d]) := by
        rw [NumberPhase.next?, if_neg hSign, if_pos hDigit]
      rw [List.cons_append, scan_next read _ (hMark _ hLetter),
        List.cons_append, scan_next _ _ hFirst,
        scan_digits _ rest hMore
          (fun e he => hDigits.digits e (by simp [he]))]
      simp
  | @signed mark sign ds hLetter hSign hDigits =>
      refine ⟨.exponent, rfl, ?_⟩
      rcases List.exists_cons_of_ne_nil hDigits.nonempty with
        ⟨d, ds', rfl⟩
      have hNext :
          NumberPhase.mark.next? sign =
            some (.sign, [sign]) := by
        rw [NumberPhase.next?, if_pos hSign]
      have hFirst :
          NumberPhase.sign.next? d =
            some (.exponent, [d]) := by
        rw [NumberPhase.next?,
          if_pos (hDigits.digits d (by simp))]
      rw [List.cons_append, scan_next read _ (hMark _ hLetter),
        List.cons_append, scan_next _ _ hNext,
        List.cons_append, scan_next _ _ hFirst,
        scan_digits _ rest hMore
          (fun e he => hDigits.digits e (by simp [he]))]
      simp

/- A number without a sign is read after its first digit. -/
theorem scan_writtenMagnitude
    {kept cs rest : List Char}
    (read : List Char)
    (hMagnitude : WrittenMagnitude kept cs)
    (hRest : Delimited rest) :
    ∃ d more,
      cs = d :: more ∧ d.isDigit = true ∧
        scan (.number (ofDigit d) (d :: read))
            (more ++ rest) =
          numberToken (kept.reverse ++ read) ::
            scan .between rest := by
  cases hMagnitude with
  | @parts n ds fraction kept exponent hWhole hFraction
      hExponent =>
      rcases exists_cons_of_decimal hWhole with
        ⟨d, ds', rfl, hDigit⟩
      refine
        ⟨d, ds' ++ (fraction ++ exponent), rfl, hDigit, ?_⟩
      rcases scan_decimal read
          (fraction ++ (exponent ++ rest)) hWhole with
        ⟨first, hPart, hScanWhole⟩
      rcases scan_fraction ((d :: ds').reverse ++ read)
          (exponent ++ rest) hPart hFraction with
        ⟨second, hPart, hScanFraction⟩
      rcases scan_exponent
          (fraction.reverse ++
            ((d :: ds').reverse ++ read))
          rest hPart hExponent with
        ⟨last, hComplete, hScanExponent⟩
      rw [List.append_assoc, List.append_assoc, hScanWhole,
        hScanFraction, hScanExponent,
        scan_delimited _ rest hComplete hRest]
      simp

/- A literal may start with a digit. -/
theorem start_digit
    {d : Char}
    (hDigit : d.isDigit = true) :
    start d = (.number (ofDigit d) [d], []) := by
  have hOther : ∀ c : Char, c.isDigit = false → d ≠ c := by
    rintro c hc rfl
    rw [hDigit] at hc
    exact absurd hc (by simp)
  by_cases hZero : d = '0'
  · subst hZero
    rfl
  · simp [start, isSpace, NumberPhase.first?, ofDigit,
      hOther, hDigit, hZero]

/- A number is read up to the delimiter behind it. -/
theorem scan_writtenNumber
    {kept cs rest : List Char}
    (hNumber : WrittenNumber kept cs)
    (hRest : Delimited rest) :
    scan .between (cs ++ rest) =
      .number (String.ofList kept) ::
        scan .between rest := by
  cases hNumber with
  | unsigned hMagnitude =>
      rcases scan_writtenMagnitude [] hMagnitude hRest with
        ⟨d, more, rfl, hDigit, hScan⟩
      rw [List.cons_append, scan_cons, step,
        start_digit hDigit, List.nil_append, hScan,
        numberToken, List.append_nil, List.reverse_reverse]
  | @negative kept cs hMagnitude =>
      rcases scan_writtenMagnitude ['-'] hMagnitude hRest with
        ⟨d, more, rfl, hDigit, hScan⟩
      have hSign :
          NumberPhase.minus.next? d =
            some (ofDigit d, [d]) := by
        by_cases hZero : d = '0' <;>
          simp [NumberPhase.next?, ofDigit, hZero, hDigit]
      have hMinus :
          scan .between ('-' :: (d :: more) ++ rest) =
            scan (.number .minus ['-'])
              (d :: (more ++ rest)) := by
        rfl
      have hFirst :
          scan (.number .minus ['-'])
              (d :: (more ++ rest)) =
            scan (.number (ofDigit d) [d, '-'])
              (more ++ rest) :=
        scan_next ['-'] _ hSign
      rw [hMinus, hFirst, hScan, numberToken,
        List.reverse_append, List.reverse_reverse]
      rfl

------------------------------------------------------------
-- Tokens
------------------------------------------------------------

/- A number stands here. -/
def isNumber : Token → Bool
| .number _ => true
| _ => false

/- A number may end right before the token. -/
def delimits : Token → Bool
| .comma => true
| .rightBracket => true
| .rightBrace => true
| _ => false

/- Two tokens need no space between them. -/
def MayTouch (first second : Token) : Prop :=
  isNumber first = true → delimits second = true

/- Every way to write a token is scanned to the token. -/
theorem scan_writtenToken
    {token : Token}
    {cs rest : List Char}
    (hToken : WrittenToken token cs)
    (hRest : isNumber token = true → Delimited rest) :
    scan .between (cs ++ rest) =
      token :: scan .between rest := by
  cases hToken with
  | number hNumber =>
      exact scan_writtenNumber hNumber (hRest rfl)
  | spelled hSpelled =>
      cases hSpelled with
      | number hNumeral =>
          exact
            scan_writtenNumber hNumeral.written (hRest rfl)
      | @string s body hText =>
          have hQuote :
              scan .between ('"' :: body ++ ['"'] ++ rest) =
                scan (.text []) (body ++ '"' :: rest) := by
            rw [List.append_assoc]
            rfl
          rw [hQuote, scan_spelledText [] rest hText,
            List.reverse_nil, List.nil_append,
            String.ofList_toList]
      | _ => rfl

/-
  Tokens delimit a number if the first of them does, and if
  there are none, what follows them has to.
-/
theorem delimited_append
    {tokens : List Token}
    {cs rest : List Char}
    (hTokens : WrittenTokens tokens cs)
    (hFirst : ∀ t ∈ tokens.head?, delimits t = true)
    (hRest : tokens = [] → Delimited rest) :
    Delimited (cs ++ rest) := by
  cases hTokens with
  | nil hSpace =>
      cases cs with
      | nil => exact hRest rfl
      | cons c cs =>
          intro d hd
          cases hd
          exact Or.inl (isSpace_of_white hSpace)
  | @cons token tokens space spelling more hSpace hToken _ =>
      cases space with
      | cons c cs =>
          intro d hd
          cases hd
          exact Or.inl (isSpace_of_white hSpace)
      | nil =>
          have hDelimits := hFirst token rfl
          intro d hd
          cases hToken with
          | number hNumber =>
              exact absurd hDelimits Bool.false_ne_true
          | spelled hSpelled =>
              cases hSpelled with
              | comma =>
                  cases hd
                  simp
              | rightBracket =>
                  cases hd
                  simp
              | rightBrace =>
                  cases hd
                  simp
              | _ => exact absurd hDelimits Bool.false_ne_true

/-
  Every way to write tokens is scanned to these tokens, also
  when the text goes on with another token behind them.
-/
theorem scan_writtenTokens_append
    {tokens : List Token}
    {next : Token}
    {cs rest : List Char}
    (hTokens : WrittenTokens tokens cs)
    (hChain : (tokens ++ [next]).IsChain MayTouch)
    (hRest : delimits next = true → Delimited rest) :
    scan .between (cs ++ rest) =
      tokens ++ scan .between rest := by
  induction hTokens with
  | nil hSpace => exact scan_white rest hSpace
  | @cons token tokens space spelling more hSpace hToken
      hMore ih =>
      rw [List.cons_append] at hChain
      have hParts := List.isChain_cons.mp hChain
      rw [List.append_assoc, List.append_assoc,
        scan_white _ hSpace,
        scan_writtenToken hToken, ih hParts.2,
        List.cons_append]
      intro hNumber
      apply delimited_append hMore
      · intro t ht
        have hHead : t ∈ (tokens ++ [next]).head? := by
          rw [List.head?_append, ht]
          rfl
        exact hParts.1 t hHead hNumber
      · rintro rfl
        exact hRest (hParts.1 next rfl hNumber)

/- Tokens before a delimiter may touch it. -/
theorem mayTouch_append
    {tokens rest : List Token}
    {token : Token}
    (hDelimits : delimits token = true)
    (hTokens : tokens.IsChain MayTouch)
    (hRest : (token :: rest).IsChain MayTouch) :
    (tokens ++ token :: rest).IsChain MayTouch := by
  apply List.isChain_append.mpr
  refine ⟨hTokens, hRest, ?_⟩
  intro first _ second hSecond _
  cases hSecond
  exact hDelimits

/- What is no number may touch the token behind it. -/
theorem mayTouch_cons
    {token : Token}
    {tokens : List Token}
    (hNumber : isNumber token = false)
    (hTokens : tokens.IsChain MayTouch) :
    (token :: tokens).IsChain MayTouch := by
  apply List.isChain_cons.mpr
  refine ⟨?_, hTokens⟩
  intro second _ hFirst
  rw [hNumber] at hFirst
  exact absurd hFirst (by simp)

/- Every way to write tokens is scanned to these tokens. -/
theorem scan_writtenTokens
    {tokens : List Token}
    {cs : List Char}
    (hTokens : WrittenTokens tokens cs)
    (hChain : tokens.IsChain MayTouch) :
    scan .between cs = tokens := by
  have hComma :
      (tokens ++ [Token.comma]).IsChain MayTouch :=
    mayTouch_append rfl hChain (List.isChain_singleton _)
  have hEnd : Delimited [] := by
    intro c hc
    exact absurd hc (Option.not_mem_none c)
  have hScan :=
    scan_writtenTokens_append hTokens hComma fun _ => hEnd
  rw [List.append_nil] at hScan
  rw [hScan]
  exact List.append_nil tokens

end Phase

end Json

end SignedMetadata
