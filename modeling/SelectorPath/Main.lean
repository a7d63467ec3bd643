import SelectorPath.Command.Report

/-! The command: it reads the source that the arguments ask for, and prints the report. -/

namespace SelectorPath.Command

partial def readAll (stream : IO.FS.Stream) (bytes : ByteArray) : IO ByteArray := do
  let more ← stream.read 65536
  if more.isEmpty then return bytes else readAll stream (bytes ++ more)

def failureOf : IO.Error → ReadFailure
  | .noFileOrDirectory .. => .notFound
  | .inappropriateType .. => .isDirectory
  | error => .refused (toString error)

def readSource (source : Source) : IO (Except ReadFailure ByteArray) := do
  try
    match source with
    | .file path => return .ok (← IO.FS.readBinFile path)
    | .standardInput => return .ok (← readAll (← IO.getStdin) .empty)
  catch error =>
    return .error (failureOf error)

/-- The bytes of the source that the arguments ask for, if they ask for one. -/
def readRequested (arguments : List String) : IO (Except ReadFailure ByteArray) :=
  match Request.ofArguments arguments with
  | .run options =>
    match options.source? with
    | some source => readSource source
    | none => return .ok .empty
  | _ => return .ok .empty

end SelectorPath.Command

open SelectorPath.Command in
def main (arguments : List String) : IO UInt32 := do
  let contents ← readRequested arguments
  let report := respond (fun _ => contents) arguments
  IO.print report.stdout
  IO.eprint report.stderr
  return report.status.toUInt32
