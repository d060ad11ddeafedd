import SignedMetadata.Members

/-
  JSON data that has been read or is about to be written.

  Numbers keep the text of their literal.  Members are held
  in the order given; data that was read has them in
  ascending key order, without repeats.
-/

namespace SignedMetadata

------------------------------------------------------------
-- JSON Data
------------------------------------------------------------

/- A JSON value with literal numbers. -/
inductive Json where
| null
| bool (b : Bool)
| number (literal : String)
| string (text : String)
| array (items : List Json)
| object (members : List (String × Json))
deriving Repr, Inhabited

end SignedMetadata
