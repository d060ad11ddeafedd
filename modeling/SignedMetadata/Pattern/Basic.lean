import SignedMetadata.Pattern.Automaton
import SignedMetadata.Text.Blank
import SignedMetadata.Text.Decimal

/-
  Patterns in the usual written form.

  An engine compiles expressions as they are written, or
  refuses them.  A pattern is put into an anchored group as
  text before it is compiled, so that it must match a text as
  a whole; any engine may be asked for this.

  The built-in engine knows characters, escapes, `.`, classes
  in brackets, groups, `|`, the anchors `^` and `$`, and
  repetition by `?`, `*`, `+` and counts in braces.  After a
  backslash it knows marks and the letters of `\d`, `\n`,
  `\r` and `\t`.  What other engines know besides is refused:
  other letters and digits after a backslash, such as those
  of `\w`, `\s`, `\p`, `\b`, `\z` and `\x41`, and groups that
  start with a question mark and no colon, such as flags and
  names.  Patterns that are nested too deeply, or whose
  automata would be too large, are refused as well.
-/

namespace SignedMetadata

namespace Expression

------------------------------------------------------------
-- Lexical Units
------------------------------------------------------------

/- A lexical unit of a pattern. -/
inductive Lexeme where
| atom (e : Expression)
| repetition
    (least : Nat) (greatest : Option Nat) (reluctant : Bool)
| openGroup (numbered : Bool)
| closeGroup
| bar

/- The expression of a primitive outside of brackets. -/
def ofPrimitive (p : CharClass.Primitive) : Expression :=
  .one ⟨p.ranges, 0⟩

/- A number of at most 32 bits between blanks. -/
def number? (cs : List Char) : Option Nat × List Char :=
  let cs := cs.dropWhile Text.isBlank
  ((Text.digits? (cs.takeWhile Char.isDigit)).filter
      fun n => n ≤ 0xffffffff,
    (cs.dropWhile Char.isDigit).dropWhile Text.isBlank)

/- A count in braces, after the left one, and what follows. -/
def count? (cs : List Char) :
    Option ((Nat × Option Nat) × List Char) :=
  match number? cs with
  | (some n, '\x7d' :: rest) => some ((n, some n), rest)
  | (some n, ',' :: '\x7d' :: rest) => some ((n, none), rest)
  | (some n, ',' :: more) =>
      match number? more with
      | (some m, '\x7d' :: rest) =>
          if n ≤ m then some ((n, some m), rest) else none
      | _ => none
  | _ => none

/- A repetition, which a mark after it makes reluctant. -/
def repetition
    (least : Nat)
    (greatest : Option Nat) : List Char → Lexeme × List Char
| '?' :: cs => (.repetition least greatest true, cs)
| cs => (.repetition least greatest false, cs)

/- The next lexeme of a pattern, and what follows it. -/
def lexeme? : List Char → Option (Lexeme × List Char)
| [] => none
| '(' :: '?' :: ':' :: cs => some (.openGroup false, cs)
| '(' :: '?' :: _ => none
| '(' :: cs => some (.openGroup true, cs)
| ')' :: cs => some (.closeGroup, cs)
| '|' :: cs => some (.bar, cs)
| '^' :: cs => some (.atom .atStart, cs)
| '$' :: cs => some (.atom .atEnd, cs)
| '.' :: cs =>
    some (.atom (.one ⟨CharClass.anyInLine, 0⟩), cs)
| '*' :: cs => some (repetition 0 none cs)
| '+' :: cs => some (repetition 1 none cs)
| '?' :: cs => some (repetition 0 (some 1) cs)
| '\x7b' :: cs =>
    (count? cs).map fun ((least, greatest), rest) =>
      repetition least greatest rest
| '[' :: cs =>
    (CharClass.read? cs).map fun (cls, rest) =>
      (.atom (.one cls), rest)
| cs =>
    (CharClass.primitive? cs).map fun (p, rest) =>
      (.atom (ofPrimitive p), rest)

/- The lexemes of a pattern, if there are few enough. -/
def lexemes? : Nat → List Char → Option (List Lexeme)
| _, [] => some []
| 0, _ => none
| fuel + 1, cs =>
    match lexeme? cs with
    | none => none
    | some (lexeme, rest) =>
        (lexemes? fuel rest).map fun lexemes => lexeme :: lexemes

------------------------------------------------------------
-- Groups
------------------------------------------------------------

/-
  A group that is being read: the alternatives before the
  last bar and the expressions after it, both in reverse.
-/
structure Group where
  numbered : Bool
  finished : List Expression
  current : List Expression

namespace Group

/- A group of which nothing has been read. -/
def start (numbered : Bool) : Group := ⟨numbered, [], []⟩

/- The group with one more expression. -/
def add (group : Group) (e : Expression) : Group :=
  ⟨group.numbered, group.finished, e :: group.current⟩

/- The group after a bar. -/
def split (group : Group) : Group :=
  ⟨group.numbered,
    ofItems group.current.reverse :: group.finished, []⟩

/- The expression of a group that is complete. -/
def body (group : Group) : Expression :=
  ofAlternatives group.split.finished.reverse

end Group

/-
  The groups after one more lexeme, innermost first.  Nothing
  can be repeated at the start of an alternative, and the
  outermost group is not closed.
-/
def lexemeStep?
    (group : Group)
    (outer : List Group) :
    Lexeme → Option (Group × List Group)
| .atom e => some (group.add e, outer)
| .repetition least greatest reluctant =>
    match group.current with
    | [] => none
    | e :: es =>
        some (⟨group.numbered, group.finished,
          .times e least greatest reluctant :: es⟩, outer)
| .bar => some (group.split, outer)
| .openGroup numbered => some (.start numbered, group :: outer)
| .closeGroup =>
    match outer with
    | [] => none
    | parent :: rest =>
        some (parent.add (.group group.numbered group.body),
          rest)

/- The expression that lexemes write after open groups. -/
def ofLexemes?
    (group : Group)
    (outer : List Group) : List Lexeme → Option Expression
| [] => if outer.isEmpty then some group.body else none
| lexeme :: lexemes =>
    match lexemeStep? group outer lexeme with
    | none => none
    | some (next, rest) => ofLexemes? next rest lexemes

/- The expression that a text writes. -/
def parse? (text : String) : Option Expression :=
  match lexemes? text.length text.toList with
  | none => none
  | some lexemes => ofLexemes? (.start false) [] lexemes

/- How deeply the parts of a pattern may be nested. -/
def maxNesting : Nat := 250

end Expression

------------------------------------------------------------
-- Engines
------------------------------------------------------------

/-
  What compiles expressions as they are written.  Of an
  expression that is not refused, the engine says in which
  texts it is found.
-/
structure Engine where
  compile? : String → Option (String → Bool)

/- The engine for the form that is read here. -/
def Engine.builtIn : Engine where
  compile? written :=
    match Expression.parse? written with
    | none => none
    | some e =>
        if e.nesting ≤ Expression.maxNesting ∧
            Automaton.fits e then
          some e.regex.occursIn
        else
          none

------------------------------------------------------------
-- Patterns
------------------------------------------------------------

/- A pattern as written, and in which texts it is found. -/
structure Pattern where
  source : String
  finds : String → Bool

namespace Pattern

/- A source between the anchors of a group. -/
def anchored (source : String) : String :=
  "^(?:" ++ source ++ ")$"

/- The pattern that a source writes for an engine. -/
def compileBy?
    (engine : Engine)
    (source : String) : Option Pattern :=
  (engine.compile? (anchored source)).map fun finds =>
    ⟨source, finds⟩

/- The pattern that a source writes for the built-in one. -/
def compile? (source : String) : Option Pattern :=
  compileBy? .builtIn source

/- The text matches the pattern. -/
def accepts (pattern : Pattern) (text : String) : Bool :=
  pattern.finds text

end Pattern

end SignedMetadata
