import SignedMetadata.CommandLine.Invocation
import SignedMetadata.Proofs.Json.Printing
import SignedMetadata.Proofs.Reading.Acceptance
import SignedMetadata.Signature.Basic

/-
  Options with values on a command line.

  An option is given by its name behind two dashes and its
  value as the next argument, which must not start with a
  dash.  When every option takes its value and none is given
  twice, the options are read back as they were given.

  Main declarations:
    * `ofText_operand`
    * `word?_ofNatural`
    * `KnownOptions.Takes`
    * `KnownOptions.settle_scan_options`
    * `invocation_of_options`
-/

namespace SignedMetadata

namespace CommandLine

open Fallible

------------------------------------------------------------
-- Values
------------------------------------------------------------

/- A text that does not start with a dash is an operand. -/
theorem ofText_operand
    {text : String}
    (hDash : '-' ∉ text.toList.head?) :
    Argument.ofText text = .operand text := by
  unfold Argument.ofText
  split <;> simp_all

/- The digits of a number do not start with a dash. -/
theorem dash_notMem_ofNatural (n : Nat) :
    '-' ∉ (Text.ofNatural n).toList.head? := by
  intro hDash
  rw [Text.ofNatural, String.toList_ofList] at hDash
  have hDigit :=
    Text.isDigit_toDigits n '-' (List.mem_of_mem_head? hDash)
  exact absurd hDigit (by decide)

/- Hex digits do not start with a dash. -/
theorem dash_notMem_hex (hex : HexText) :
    '-' ∉ hex.text.toList.head? := by
  intro hDash
  have hHex := hex.isHex
  rw [Text.isHex, Bool.and_eq_true, List.all_eq_true] at hHex
  have hDigit := hHex.2 '-' (List.mem_of_mem_head? hDash)
  exact absurd hDigit (by decide)

/- A number of 64 bits is read from its digits. -/
theorem word?_ofNatural
    {n : Nat}
    (hWord : n ≤ 0xffffffffffffffff) :
    word? (Text.ofNatural n) = some n := by
  have hDigits :=
    digits?_of_decimal (Json.decimal_toDigits n)
  have hValue :
      Text.natural? (Text.ofNatural n) = some n := by
    rw [Text.natural?, Text.ofNatural, String.toList_ofList]
    split
    · next cs hPlus =>
        have hDigit :=
          Text.isDigit_toDigits n '+' (by simp [hPlus])
        exact absurd hDigit (by decide)
    · exact hDigits
  rw [word?, hValue, Option.filter_some,
    if_pos (decide_eq_true hWord)]

------------------------------------------------------------
-- Options
------------------------------------------------------------

namespace KnownOptions

variable {known : KnownOptions}
variable {option : String × String}
variable {options : List (String × String)}
variable {given settled : Given}
variable {pending : Option (String × String)}

/- An option with a value that it admits. -/
structure Takes
    (known : KnownOptions)
    (option : String × String) : Prop where
  named :
    Argument.ofText ("--" ++ option.1) =
      .option option.1 none
  valued : known.flags.contains option.1 = false
  admitted :
    ∃ admits,
      known.valued.lookup option.1 = some admits ∧
        admits option.2 = true
  operand : '-' ∉ option.2.toList.head?

/- The arguments that give an option. -/
def arguments (option : String × String) : List String :=
  ["--" ++ option.1, option.2]

/- An option is pending until the next argument is read. -/
theorem scan_option
    (hTakes : known.Takes option)
    (hSettled : known.settle given pending = .ok settled)
    (rest : List String) :
    known.scan false given pending
        (arguments option ++ rest) =
      known.scan false settled (some option) rest := by
  rcases hTakes.admitted with ⟨admits, hAdmits, _⟩
  have hOperand := ofText_operand hTakes.operand
  have hAdmits' :
      orInvalid (known.valued.lookup option.1) =
        .ok admits := by
    rw [hAdmits]
    rfl
  rw [arguments, List.cons_append, List.cons_append,
    List.nil_append, scan]
  simp only [hTakes.named, hSettled, hTakes.valued,
    hAdmits', hOperand]
  rfl

/- A pending option is settled if it was not given before. -/
theorem settle_option
    (hTakes : known.Takes option)
    (hNew : option.1 ∉ given.values.map Prod.fst) :
    known.settle given (some option) =
      .ok
        ⟨given.flags, option :: given.values,
          given.operands⟩ := by
  rcases hTakes.admitted with ⟨admits, hAdmits, hValue⟩
  have hNone : given.value? option.1 = none :=
    Members.find?_eq_none_iff.mpr hNew
  have hAdmits' :
      orInvalid (known.valued.lookup option.1) =
        .ok admits := by
    rw [hAdmits]
    rfl
  have hAdded :
      given.addValue admits option.1 option.2 =
        .ok
          ⟨given.flags, option :: given.values,
            given.operands⟩ := by
    rw [Given.addValue, hNone, hValue]
    rfl
  rw [settle, hAdmits']
  exact hAdded

/- Options that are given one after another are read back. -/
theorem settle_scan_options
    (hTakes : ∀ option ∈ options, known.Takes option)
    (hSettled : known.settle given pending = .ok settled)
    (hNew :
      (options.map Prod.fst ++
        settled.values.map Prod.fst).Nodup) :
    ∃ after,
      known.scan false given pending
          (options.flatMap arguments) =
        .ok after ∧
        known.settle after.given after.pending =
          .ok
            ⟨settled.flags,
              options.reverse ++ settled.values,
              settled.operands⟩ := by
  induction options generalizing given pending settled with
  | nil =>
      refine ⟨⟨given, pending, []⟩, ?_, hSettled⟩
      rw [List.flatMap_nil, scan]
  | cons option options ih =>
      have hOption := hTakes option List.mem_cons_self
      rw [List.map_cons, List.cons_append] at hNew
      have hFresh :
          option.1 ∉ settled.values.map Prod.fst := by
        intro hGiven
        exact
          (List.nodup_cons.mp hNew).1
            (List.mem_append_right _ hGiven)
      have hMoved :
          (options.map Prod.fst ++
            (option :: settled.values).map
              Prod.fst).Nodup :=
        List.perm_middle.nodup_iff.mpr hNew
      have hRest :=
        ih
          (fun o ho => hTakes o (List.mem_cons_of_mem _ ho))
          (settle_option hOption hFresh) hMoved
      rw [List.flatMap_cons,
        scan_option hOption hSettled, List.reverse_cons,
        List.append_assoc, List.singleton_append]
      exact hRest

end KnownOptions

/- A command with options that it takes is invoked. -/
theorem invocation_of_options
    {name : String}
    {known : KnownOptions}
    {options : List (String × String)}
    {invoked : Invocation}
    (hName : Argument.ofText name = .operand name)
    (hHelp : name ≠ "help")
    (hKnown : commandOptions? name = some known)
    (hTakes : ∀ option ∈ options, known.Takes option)
    (hNodup : (options.map Prod.fst).Nodup)
    (hInvoked :
      invocation? name .nothing ⟨[], options.reverse, []⟩ =
        some invoked) :
    invocation
        (name :: options.flatMap KnownOptions.arguments) =
      .ok invoked := by
  have hFirst :
      commonOptions.scan true .nothing none
          (name :: options.flatMap KnownOptions.arguments) =
        .ok
          ⟨.nothing, none,
            name ::
              options.flatMap KnownOptions.arguments⟩ := by
    rw [KnownOptions.scan, hName]
    rfl
  have hSettled :
      known.settle Given.nothing none =
        .ok Given.nothing := by
    rfl
  have hNames :
      (options.map Prod.fst ++
        Given.nothing.values.map Prod.fst).Nodup := by
    rw [Given.nothing, List.map_nil, List.append_nil]
    exact hNodup
  rcases
      KnownOptions.settle_scan_options hTakes hSettled hNames
    with ⟨after, hScan, hGiven⟩
  rw [Given.nothing, List.append_nil] at hGiven
  simp only [invocation, bind_eq_ok_iff]
  refine ⟨_, hFirst, ?_⟩
  split
  · next hNone => cases hNone
  · next topic hTopic =>
      exact absurd (List.cons.inj hTopic).1 hHelp
  · next other rest _ hRest =>
      cases hRest
      simp only [bind_eq_ok_iff]
      refine ⟨known, ?_, after, hScan, _, hGiven, ?_⟩
      · rw [hKnown]
        rfl
      · refine ⟨.nothing, rfl, ?_⟩
        rw [hInvoked]
        rfl

end CommandLine

end SignedMetadata
