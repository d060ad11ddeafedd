import SignedMetadata.Proofs.Pattern.Compilation

/-
  Engines that follow a meaning of what is written.

  A meaning says which part of a text an expression matches
  between which other parts.  An engine follows it if it
  finds the expressions that it compiles where they match,
  and if a group between anchors holds the expression in it
  to whole texts.  A pattern of such an engine accepts the
  texts that its source describes as a whole, provided that
  the source is an expression on its own.

  The built-in engine follows the meaning of the expressions
  that it reads.

  Main declarations:
    * `Engine.Follows`
    * `Engine.follows_builtIn`
    * `Pattern.accepts_iff_occurs`
    * `Pattern.accepts_iff_full`
    * `Pattern.accepts_iff_matches`
-/

namespace SignedMetadata

namespace Engine

------------------------------------------------------------
-- Meanings
------------------------------------------------------------

/-
  Which parts of texts written expressions match, between
  the characters before the part and the ones behind it.
-/
abbrev Meaning :=
  String → List Char → List Char → List Char → Prop

/- The engine compiles what is written. -/
def Knows (engine : Engine) (written : String) : Prop :=
  ∃ finds, engine.compile? written = some finds

/-
  What engines document about the expressions they compile.
  They are found in the texts of which they match some part.
  In a group between anchors, an expression matches nothing
  but whole texts, and those as it does on its own.
-/
structure Follows
    (engine : Engine)
    (means : Meaning) : Prop where
  finds_iff :
    ∀ {written : String} {finds : String → Bool},
      engine.compile? written = some finds →
        ∀ text : String,
          finds text = true ↔
            ∃ before part behind,
              text.toList = before ++ (part ++ behind) ∧
                means written before part behind
  anchored_iff :
    ∀ {source : String},
      engine.Knows source →
        engine.Knows (Pattern.anchored source) →
          ∀ before part behind,
            means (Pattern.anchored source)
                before part behind ↔
              before = [] ∧ behind = [] ∧
                means source [] part []

------------------------------------------------------------
-- The Built-In Engine
------------------------------------------------------------

/- What the expressions that are read mean. -/
def builtInMeaning : Meaning :=
  fun written before part behind =>
    ∃ e, Expression.parse? written = some e ∧
      e.regex.Matches before.isEmpty behind.isEmpty part

/- What is compiled has been read. -/
theorem exists_parse?_of_builtIn
    {written : String}
    {finds : String → Bool}
    (hCompile : builtIn.compile? written = some finds) :
    ∃ e, Expression.parse? written = some e ∧
      finds = e.regex.occursIn := by
  unfold builtIn at hCompile
  dsimp only at hCompile
  split at hCompile
  · cases hCompile
  · rename_i e hRead
    split at hCompile
    · exact ⟨e, hRead, (Option.some.inj hCompile).symm⟩
    · cases hCompile

/- The meaning of what is read is the meaning of one regex. -/
theorem builtInMeaning_iff
    {written : String}
    {e : Expression}
    (hRead : Expression.parse? written = some e)
    {before part behind : List Char} :
    builtInMeaning written before part behind ↔
      e.regex.Matches before.isEmpty behind.isEmpty part := by
  constructor
  · rintro ⟨other, hOther, hMatches⟩
    rw [hRead, Option.some.injEq] at hOther
    rw [hOther]
    exact hMatches
  · intro hMatches
    exact ⟨e, hRead, hMatches⟩

/- The built-in engine follows what expressions mean. -/
theorem follows_builtIn : builtIn.Follows builtInMeaning where
  finds_iff hCompile text := by
    rcases exists_parse?_of_builtIn hCompile with
      ⟨e, hRead, rfl⟩
    rw [Regex.occursIn_iff (Expression.inOrder_of_parse? hRead)]
    simp only [builtInMeaning_iff hRead]
  anchored_iff hSource _ before part behind := by
    rcases hSource with ⟨finds, hCompile⟩
    rcases exists_parse?_of_builtIn hCompile with
      ⟨body, hBody, _⟩
    rcases Expression.parse?_anchored hBody with
      ⟨numbered, hAnchored⟩
    rw [builtInMeaning_iff hAnchored, builtInMeaning_iff hBody]
    refine Regex.matches_anchors_iff.trans ?_
    rw [List.isEmpty_iff, List.isEmpty_iff]
    rfl

end Engine

------------------------------------------------------------
-- Compiled Patterns
------------------------------------------------------------

namespace Pattern

/- The pattern is what the engine makes of its source. -/
def CompiledBy (engine : Engine) (p : Pattern) : Prop :=
  compileBy? engine p.source = some p

/- The source of the pattern is an expression on its own. -/
def SelfContained (engine : Engine) (p : Pattern) : Prop :=
  engine.Knows p.source

/- What is compiled matches some part of the text. -/
def Occurs
    (means : Engine.Meaning)
    (p : Pattern)
    (text : String) : Prop :=
  ∃ before part behind,
    text.toList = before ++ (part ++ behind) ∧
      means (anchored p.source) before part behind

/- The source, on its own, describes the whole text. -/
def Full
    (engine : Engine)
    (means : Engine.Meaning)
    (p : Pattern)
    (text : String) : Prop :=
  p.SelfContained engine ∧ means p.source [] text.toList []

variable {engine : Engine}
variable {means : Engine.Meaning}
variable {p : Pattern}
variable {text : String}

/- A source is compiled to a pattern with that source. -/
theorem compiledBy_of_compileBy?
    {source : String}
    (hCompile : compileBy? engine source = some p) :
    p.CompiledBy engine := by
  rcases Option.map_eq_some_iff.mp hCompile with
    ⟨finds, _, rfl⟩
  exact hCompile

/- A compiled pattern is found as its anchored source is. -/
theorem CompiledBy.compile?_anchored
    (hCompiled : p.CompiledBy engine) :
    engine.compile? (anchored p.source) = some p.finds := by
  rcases Option.map_eq_some_iff.mp hCompiled with
    ⟨finds, hCompile, hSame⟩
  rw [hCompile, ← hSame]

/- A compiled pattern accepts the texts in which it occurs. -/
theorem accepts_iff_occurs
    (hEngine : engine.Follows means)
    (hCompiled : p.CompiledBy engine) :
    p.accepts text = true ↔ p.Occurs means text :=
  hEngine.finds_iff hCompiled.compile?_anchored text

/-
  If the source is an expression on its own, the texts that
  are accepted are the ones that it describes as a whole.
-/
theorem accepts_iff_full
    (hEngine : engine.Follows means)
    (hCompiled : p.CompiledBy engine)
    (hAlone : p.SelfContained engine) :
    p.accepts text = true ↔ p.Full engine means text := by
  have hAnchored :=
    hEngine.anchored_iff hAlone
      ⟨p.finds, hCompiled.compile?_anchored⟩
  rw [accepts_iff_occurs hEngine hCompiled]
  constructor
  · rintro ⟨before, part, behind, hText, hPart⟩
    rcases (hAnchored before part behind).mp hPart with
      ⟨rfl, rfl, hWhole⟩
    rw [List.nil_append, List.append_nil] at hText
    rw [← hText] at hWhole
    exact ⟨hAlone, hWhole⟩
  · rintro ⟨_, hWhole⟩
    refine ⟨[], text.toList, [], ?_, ?_⟩
    · rw [List.nil_append, List.append_nil]
    · exact
        (hAnchored [] text.toList []).mpr ⟨rfl, rfl, hWhole⟩

/- A text that is described as a whole is accepted. -/
theorem accepts_of_full
    (hEngine : engine.Follows means)
    (hCompiled : p.CompiledBy engine)
    (hFull : p.Full engine means text) :
    p.accepts text = true :=
  (accepts_iff_full hEngine hCompiled hFull.1).mpr hFull

/- What the built-in engine reads matches what it accepts. -/
theorem accepts_iff_matches
    {r : Regex}
    (hCompiled : p.CompiledBy .builtIn)
    (hAlone : p.SelfContained .builtIn)
    (hParse :
      (Expression.parse? p.source).map Expression.regex =
        some r) :
    p.accepts text = true ↔
      r.Matches true true text.toList := by
  rcases Option.map_eq_some_iff.mp hParse with
    ⟨body, hBody, rfl⟩
  rw [accepts_iff_full Engine.follows_builtIn hCompiled hAlone]
  exact
    (and_iff_right hAlone).trans
      (Engine.builtInMeaning_iff hBody)

end Pattern

end SignedMetadata
