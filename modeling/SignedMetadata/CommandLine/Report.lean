import SignedMetadata.Expiry
import SignedMetadata.Json.Printer
import SignedMetadata.Role

/-
  Reports on checked metadata.

  A report names the role, the expiry, whether that has
  passed, and for envelopes the number of signatures.
-/

namespace SignedMetadata

namespace CommandLine

------------------------------------------------------------
-- Reports
------------------------------------------------------------

/- What a check has found. -/
structure Report where
  role : Role
  expires : DateTime
  expired : Bool
  signatures : Option Nat
deriving DecidableEq, Repr

namespace Report

/- A report as JSON data. -/
def toJson (report : Report) : Json :=
  .object <|
    [("expired", .bool report.expired),
      ("expires", .string report.expires.rfc3339),
      ("role", .string report.role.typeName)] ++
    match report.signatures with
    | none => []
    | some count =>
        [("signatures", .number (Text.ofNatural count))]

/- A line of a table: a label of twelve places, and a text. -/
def row (label text : String) : String :=
  label ++
    String.ofList (List.replicate (12 - label.length) ' ') ++
    " " ++ text ++ "\n"

/- Whether metadata is still valid, in a word. -/
def status (report : Report) : String :=
  if report.expired then "EXPIRED" else "valid"

/- A report as a table. -/
def toTable (report : Report) : String :=
  row "ROLE" report.role.typeName ++
    row "EXPIRES" report.expires.zulu ++
    row "STATUS" report.status ++
    match report.signatures with
    | none => ""
    | some count => row "SIGNATURES" (Text.ofNatural count)

/- A report as text. -/
def render (json : Bool) (report : Report) : String :=
  if json then report.toJson.pretty ++ "\n"
  else report.toTable

end Report

end CommandLine

end SignedMetadata
