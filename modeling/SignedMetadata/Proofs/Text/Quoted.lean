import Mathlib.Tactic.SplitIfs
import SignedMetadata.Proofs.Text.Endings
import SignedMetadata.Text.Hex
import SignedMetadata.Text.Quoted

/-
  Quoted text says where it ends.

  Every character is written as a backslash and a letter, as
  its code point between braces, or as itself, and what is
  written tells which.  No character is written with a quote
  in front, so the first quote behind the opening one closes
  the text.

  Main declarations:
    * `Quotation`
    * `quotedChar_append_inj`
    * `quoted_append_inj`
-/

namespace SignedMetadata.Text

variable {c d : Char}
variable {r r' : List Char}

------------------------------------------------------------
-- Code Points
------------------------------------------------------------

/- A digit below sixteen has its value. -/
theorem hexDigit?_digitChar
    {d : Nat}
    (hDigit : d < 16) :
    hexDigit? (Nat.digitChar d) = some d := by
  have hAll :
      ∀ d < 16, hexDigit? (Nat.digitChar d) = some d := by
    decide
  exact hAll d hDigit

/- The digits of a number in base sixteen are hex digits. -/
theorem isHexDigit_toDigits
    (n : Nat) :
    ∀ c ∈ Nat.toDigits 16 n, isHexDigit c = true := by
  induction n using Nat.strongRecOn with
  | ind n ih =>
      have hLast :
          isHexDigit (Nat.digitChar (n % 16)) = true := by
        rw [isHexDigit, hexDigit?_digitChar (by omega),
          Option.isSome_some]
      intro c hc
      by_cases hSmall : n < 16
      · rw [Nat.toDigits_of_lt_base hSmall,
          List.mem_singleton] at hc
        rw [Nat.mod_eq_of_lt hSmall] at hLast
        rw [hc, hLast]
      · rw [Nat.toDigits_of_base_le (by decide) (by omega),
          List.mem_append, List.mem_singleton] at hc
        rcases hc with hInit | rfl
        · exact ih (n / 16) (by omega) c hInit
        · exact hLast

/- The number that hex digits write. -/
def hexNumber (ds : List Char) : Nat :=
  ds.foldl (fun n c => 16 * n + (hexDigit? c).getD 0) 0

/- The digits of a number write the number. -/
theorem hexNumber_toDigits (n : Nat) :
    hexNumber (Nat.toDigits 16 n) = n := by
  induction n using Nat.strongRecOn with
  | ind n ih =>
      by_cases hSmall : n < 16
      · simp [Nat.toDigits_of_lt_base hSmall, hexNumber,
          hexDigit?_digitChar hSmall]
      · have hLast :
            hexDigit? (Nat.digitChar (n % 16)) =
              some (n % 16) :=
          hexDigit?_digitChar (by omega)
        have hInit := ih (n / 16) (by omega)
        rw [hexNumber] at hInit
        rw [Nat.toDigits_of_base_le (by decide) (by omega),
          hexNumber, List.foldl_append, hInit]
        simp only [List.foldl_cons, List.foldl_nil, hLast,
          Option.getD_some]
        omega

/- A code point between braces says where it ends. -/
theorem codePointEscape_append_inj
    (hEq :
      codePointEscape c ++ r = codePointEscape d ++ r') :
    c = d ∧ r = r' := by
  have hBrace : isHexDigit '\x7d' = false := by decide
  have hDigits :
      Nat.toDigits 16 c.toNat ++ '\x7d' :: r =
        Nat.toDigits 16 d.toNat ++ '\x7d' :: r' := by
    simpa [codePointEscape] using hEq
  rcases run_append_inj (isHexDigit_toDigits c.toNat)
      (isHexDigit_toDigits d.toNat)
      ((endsRun_cons _ _ _).mpr hBrace)
      ((endsRun_cons _ _ _).mpr hBrace) hDigits with
    ⟨hCode, hRest⟩
  have hNumber := congrArg hexNumber hCode
  rw [hexNumber_toDigits, hexNumber_toDigits] at hNumber
  exact
    ⟨Char.toNat_inj.mp hNumber, List.tail_eq_of_cons_eq hRest⟩

------------------------------------------------------------
-- Characters
------------------------------------------------------------

/- What a letter behind a backslash stands for. -/
def escaped? (letter : Char) : Option Char :=
  if letter = '0' then some '\x00'
  else if letter = 't' then some '\t'
  else if letter = 'r' then some '\r'
  else if letter = 'n' then some '\n'
  else if letter = '"' then some '"'
  else if letter = '\\' then some '\\'
  else none

/- The ways in which a character may be written. -/
inductive Quotation (c : Char) : List Char → Prop where
| letter
    {e : Char} (hLetter : escaped? e = some c) :
    Quotation c ['\\', e]
| codePoint : Quotation c (codePointEscape c)
| plain
    (hQuote : c ≠ '"') (hBackslash : c ≠ '\\') :
    Quotation c [c]

/- Every character is written in one of these ways. -/
theorem quotation_quotedChar (c : Char) :
    Quotation c (quotedChar c) := by
  unfold quotedChar
  split_ifs with hNull hTab hReturn hLine hQuote hBackslash
    hHidden
  · rw [hNull]
    exact .letter rfl
  · rw [hTab]
    exact .letter rfl
  · rw [hReturn]
    exact .letter rfl
  · rw [hLine]
    exact .letter rfl
  · rw [hQuote]
    exact .letter rfl
  · rw [hBackslash]
    exact .letter rfl
  · exact .codePoint
  · exact .plain hQuote hBackslash

/- What is written for a character starts with no quote. -/
theorem Quotation.ne_quote
    {cs : List Char}
    (hWritten : Quotation c cs) :
    cs ++ r ≠ '"' :: r' := by
  cases hWritten with
  | letter hLetter => simp
  | codePoint => simp [codePointEscape]
  | plain hQuote hBackslash => simp [hQuote]

/- A character is read back from what is written for it. -/
theorem Quotation.append_inj
    {cs ds : List Char}
    (hC : Quotation c cs)
    (hD : Quotation d ds)
    (hEq : cs ++ r = ds ++ r') :
    c = d ∧ r = r' := by
  have hUnicode : escaped? 'u' = none := by decide
  cases hC with
  | letter hLetter =>
      cases hD with
      | letter hOther =>
          simp only [List.cons_append, List.nil_append,
            List.cons.injEq, true_and] at hEq
          rw [hEq.1, hOther, Option.some.injEq] at hLetter
          exact ⟨hLetter.symm, hEq.2⟩
      | codePoint =>
          simp only [codePointEscape, List.cons_append,
            List.nil_append, List.cons.injEq, true_and] at hEq
          rw [hEq.1, hUnicode] at hLetter
          cases hLetter
      | plain hQuote hBackslash =>
          simp only [List.cons_append, List.cons.injEq] at hEq
          exact absurd hEq.1.symm hBackslash
  | codePoint =>
      cases hD with
      | letter hOther =>
          simp only [codePointEscape, List.cons_append,
            List.nil_append, List.cons.injEq, true_and] at hEq
          rw [← hEq.1, hUnicode] at hOther
          cases hOther
      | codePoint => exact codePointEscape_append_inj hEq
      | plain hQuote hBackslash =>
          simp only [codePointEscape, List.cons_append,
            List.cons.injEq] at hEq
          exact absurd hEq.1.symm hBackslash
  | plain hQuote hBackslash =>
      cases hD with
      | letter hOther =>
          simp only [List.cons_append, List.cons.injEq] at hEq
          exact absurd hEq.1 hBackslash
      | codePoint =>
          simp only [codePointEscape, List.cons_append,
            List.cons.injEq] at hEq
          exact absurd hEq.1 hBackslash
      | plain hQuote' hBackslash' =>
          simpa using hEq

/- One character is read back from a quoted text. -/
theorem quotedChar_append_inj
    (hEq : quotedChar c ++ r = quotedChar d ++ r') :
    c = d ∧ r = r' := by
  exact
    (quotation_quotedChar c).append_inj
      (quotation_quotedChar d) hEq

------------------------------------------------------------
-- Texts
------------------------------------------------------------

/- A quoted text is its characters between two quotes. -/
theorem toList_quoted (s : String) :
    (quoted s).toList =
      '"' :: s.toList.flatMap quotedChar ++ ['"'] := by
  simp [quoted]

/- A quoted text says where it ends. -/
theorem quoted_append_inj
    {s t : String}
    (hEq : (quoted s).toList ++ r = (quoted t).toList ++ r') :
    s = t ∧ r = r' := by
  have hBody :
      s.toList.flatMap quotedChar ++ '"' :: r =
        t.toList.flatMap quotedChar ++ '"' :: r' := by
    simpa [toList_quoted] using hEq
  rcases coded_append_inj quotedChar_append_inj
      (fun c _ _ => (quotation_quotedChar c).ne_quote)
      hBody with
    ⟨hText, hRest⟩
  exact ⟨String.toList_inj.mp hText, hRest⟩

end SignedMetadata.Text
