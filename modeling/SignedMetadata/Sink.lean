import SignedMetadata.Text.Bytes

/-
  Receivers of text that arrives in fragments.

  A sink takes one fragment at a time and may refuse it; its
  state shows what it has received, also after a refusal.
  `Sink.collector` appends every fragment, `Sink.recorder`
  keeps the list of fragments and refuses some by number.
-/

namespace SignedMetadata

------------------------------------------------------------
-- Refusals
------------------------------------------------------------

/- Why a sink did not take a fragment. -/
inductive SinkError where
| failed (reason : String)
| rejected (reason : String)
deriving DecidableEq, Repr

/- The wording of a refusal. -/
def SinkError.message : SinkError → String
| .failed reason => "sink write failed: " ++ reason
| .rejected reason => "sink rejected fragment: " ++ reason

------------------------------------------------------------
-- Sinks
------------------------------------------------------------

/- A receiver of fragments with a state. -/
abbrev Sink (σ : Type) :=
  String → ExceptT SinkError (StateM σ) Unit

namespace Sink

/- Append every fragment to the text received so far. -/
def collector : Sink String :=
  fun fragment => modify fun received => received ++ fragment

/-
  Keep every fragment in order.  Fragments are numbered from
  zero, and `refusal` names the numbers that are refused.
-/
def recorder
    (refusal : Nat → Option SinkError) :
    Sink (List String) :=
  fun fragment => do
    let received ← get
    match refusal received.length with
    | some cause => throw cause
    | none => set (received ++ [fragment])

end Sink

end SignedMetadata
