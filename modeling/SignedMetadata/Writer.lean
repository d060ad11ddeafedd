import SignedMetadata.Sink

/-
  Byte writers that take less than they are offered.

  A writer takes a bounded number of bytes in each call and
  in all.  A full writer fails, or stalls by taking nothing.
  `Writer.sink` offers a fragment again and again until all
  of its bytes are taken, so that a short call loses and
  repeats nothing.
-/

namespace SignedMetadata

------------------------------------------------------------
-- Writers
------------------------------------------------------------

/-
  Bounds of a byte writer; no bound where `none`.  A full
  writer stalls or fails, and a flush may be refused.
-/
structure Writer where
  perCall : Option Nat
  capacity : Option Nat
  stalls : Bool
  refusesFlush : Bool
deriving DecidableEq, Repr

namespace Writer

/- How many more bytes fit, if there is a bound. -/
def room? (writer : Writer) (held : Nat) : Option Nat :=
  writer.capacity.map fun capacity => capacity - held

/- The lesser of a count and a bound that may be absent. -/
def bounded (count : Nat) : Option Nat → Nat
| none => count
| some bound => min count bound

/-
  How many of the offered bytes one call takes, when the
  writer holds `held` bytes already.
-/
def accepts
    (writer : Writer)
    (held offered : Nat) : Except String Nat :=
  if writer.room? held = some 0 ∧ !writer.stalls then
    .error "writer full"
  else
    .ok <|
      bounded (bounded offered writer.perCall)
        (writer.room? held)

/-
  Offer bytes until all are taken.  The bytes that the writer
  holds are returned also when a call fails or takes nothing.
-/
def writeAll
    (writer : Writer)
    (held : List UInt8) :
    List UInt8 → Except SinkError Unit × List UInt8
| [] => (.ok (), held)
| b :: bs =>
    match writer.accepts held.length (b :: bs).length with
    | .error reason => (.error (.failed reason), held)
    | .ok 0 =>
        (.error (.failed "failed to write whole buffer"),
          held)
    | .ok (count + 1) =>
        writeAll writer
          (held ++ b :: bs.take count)
          (bs.drop count)
termination_by bytes => bytes.length
decreasing_by
  simp only [List.length_drop, List.length_cons]
  omega

/- A sink that writes the bytes of every fragment. -/
def sink (writer : Writer) : Sink (List UInt8) :=
  fun fragment => do
    let (outcome, held) :=
      writer.writeAll (← get) (Text.bytes fragment)
    set held
    match outcome with
    | .ok () => pure ()
    | .error cause => throw cause

/- Flush the writer, as is done when the sink is given up. -/
def flush (writer : Writer) : Except SinkError Unit :=
  if writer.refusesFlush then
    .error (.failed "flush refused")
  else
    .ok ()

end Writer

end SignedMetadata
