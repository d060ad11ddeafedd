import SignedMetadata.Pattern.CharClass
import SignedMetadata.Pattern.Regex

/-
  Patterns as they are written.

  An expression keeps the groups, lists and repetitions of a
  pattern.  `Expression.regex` is what it means, and
  `Expression.nesting` is how deeply it is nested.  There are
  no boundaries of words, no flags and no names of groups.
-/

namespace SignedMetadata

open Text (CodePointRanges)

------------------------------------------------------------
-- Expressions
------------------------------------------------------------

/-
  A written pattern.  Numbered groups are those that a plain
  left parenthesis opens.
-/
inductive Expression where
| empty
| one (cls : CharClass.Part)
| atStart
| atEnd
| group (numbered : Bool) (body : Expression)
| times
    (body : Expression)
    (least : Nat)
    (greatest : Option Nat)
    (reluctant : Bool)
| sequence (items : List Expression)
| choice (alternatives : List Expression)

namespace Expression

/- Expressions one after another. -/
def ofItems : List Expression → Expression
| [] => .empty
| [e] => e
| es => .sequence es

/- One of several expressions. -/
def ofAlternatives : List Expression → Expression
| [] => .empty
| [e] => e
| es => .choice es

------------------------------------------------------------
-- Meaning
------------------------------------------------------------

mutual

/- The regular expression of a pattern. -/
def regex : Expression → Regex
| .empty => .empty
| .one cls => .one cls.ranges
| .atStart => .atStart
| .atEnd => .atEnd
| .group _ body => regex body
| .times body least greatest _ =>
    .times (regex body) least greatest
| .sequence items => regexSequence items
| .choice alternatives => regexChoice alternatives

/- The regular expressions of items, one after another. -/
def regexSequence : List Expression → Regex
| [] => .empty
| e :: es => .seq (regex e) (regexSequence es)

/- One of the regular expressions of alternatives. -/
def regexChoice : List Expression → Regex
| [] => .one []
| e :: es => .alt (regex e) (regexChoice es)

end

------------------------------------------------------------
-- Nesting
------------------------------------------------------------

mutual

/- How deeply the parts of a pattern are nested. -/
def nesting : Expression → Nat
| .empty => 0
| .one cls => cls.nesting
| .atStart => 0
| .atEnd => 0
| .group _ body => nesting body + 1
| .times body _ _ _ => nesting body + 1
| .sequence items => nestingAll items + 1
| .choice alternatives => nestingAll alternatives + 1

/- How deeply the deepest of several patterns is nested. -/
def nestingAll : List Expression → Nat
| [] => 0
| e :: es => max (nesting e) (nestingAll es)

end

end Expression

end SignedMetadata
