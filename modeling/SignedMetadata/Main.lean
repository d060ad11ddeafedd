import SignedMetadata.CommandLine.Run
import Std.Time.Zoned

/-
  The command `signed-metadata`.

  This module reads what a command may see, runs it, and
  writes its outcome.
-/

namespace SignedMetadata

------------------------------------------------------------
-- Surroundings
------------------------------------------------------------

/- Why a read failed, as commands report it. -/
def readFault : IO.Error → String
  | .noFileOrDirectory .. =>
      "No such file or directory (os error 2)"
  | .permissionDenied .. =>
      "Permission denied (os error 13)"
  | .inappropriateType .. => "Is a directory (os error 21)"
  | fault => toString fault

/- The bytes that a read gives, or why it failed. -/
def attempt
    (read : IO ByteArray) :
    IO (Except String (List UInt8)) := do
  try
    let bytes ← read
    return .ok bytes.toList
  catch fault =>
    return .error (readFault fault)

/-
  What the command of a command line may see.  Only the input
  that the command asks for is read: the file it names, or
  standard input.
-/
def surroundings
    (arguments : List String) :
    IO CommandLine.Environment := do
  let now ← Std.Time.Timestamp.now
  let instant : Instant :=
    ⟨now.toSecondsSinceUnixEpoch.val, 0⟩
  match CommandLine.Request.parse? arguments with
  | some (.run invocation) =>
      match invocation.input with
      | some path =>
          let content ← attempt (IO.FS.readBinFile path)
          return ⟨.ok [], fun _ => content, instant⟩
      | none =>
          let stdin ← IO.getStdin
          let content ← attempt stdin.readBinToEnd
          return ⟨content, fun _ => .ok [], instant⟩
  | _ => return ⟨.ok [], fun _ => .ok [], instant⟩

end SignedMetadata

/- Run a command line. -/
def main (arguments : List String) : IO UInt32 := do
  let environment ← SignedMetadata.surroundings arguments
  let outcome :=
    SignedMetadata.CommandLine.run environment arguments
  IO.print outcome.output
  IO.eprint outcome.errors
  return outcome.code.toUInt32
