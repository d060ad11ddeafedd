import SignedMetadata.Main
import SignedMetadata.Reading.Data
import SignedMetadata.Reading.Datum
import SignedMetadata.Envelope.Reading
import SignedMetadata.Writer
import SignedMetadata.Proofs.CommandLine.Spelling
import SignedMetadata.Proofs.Canonical.Streaming
import SignedMetadata.Proofs.Envelope.Values
import SignedMetadata.Proofs.Json.Nesting
import SignedMetadata.Proofs.Json.Printing
import SignedMetadata.Proofs.Value.Data
import SignedMetadata.Proofs.Reading.Bounds
import SignedMetadata.Proofs.Envelope.Data
import SignedMetadata.Proofs.CommandLine.Arguments
import SignedMetadata.Proofs.CommandLine.SignAppend
import SignedMetadata.Proofs.CommandLine.Wrap
import SignedMetadata.Proofs.Reading.Data
import SignedMetadata.Proofs.Reading.Direct
import SignedMetadata.Proofs.Envelope.Texts
import SignedMetadata.Proofs.Envelope.Runs
import SignedMetadata.Proofs.Reading.Canonical
import SignedMetadata.Proofs.CommandLine.RepeatedKeys
import SignedMetadata.Proofs.Shape.Decision
import SignedMetadata.Proofs.Shape.Objects
import SignedMetadata.Proofs.Role
import SignedMetadata.Proofs.Catalog.Texts
import SignedMetadata.Proofs.Envelope.Shapes
import SignedMetadata.Proofs.Shape.Wording
import SignedMetadata.Proofs.CommandLine.Check
import SignedMetadata.Proofs.Datum.Floats
import SignedMetadata.Proofs.Shape.Relocation
import SignedMetadata.Proofs.Conversion.FirstFault
import SignedMetadata.Proofs.Datum.Values
import SignedMetadata.Proofs.Expiry.Stamps
import SignedMetadata.Proofs.CommandLine.Reports
import SignedMetadata.Proofs.Shape.Extension
import SignedMetadata.Proofs.Value.Construction
import SignedMetadata.Proofs.Reading.Integers
import SignedMetadata.Proofs.Writer
import SignedMetadata.Proofs.Path
import SignedMetadata.Proofs.CommandLine.Digest
import SignedMetadata.Proofs.CommandLine.Outcomes
