import PlaceFeed.Command

/-!
# The program

`main` reads the files that the arguments name, and standard input when it is asked for, runs the
command over them, and writes its outcome: reports to standard output, usage and log messages to
standard error.
-/

namespace PlaceFeed

/-- The bytes of the file at a path, unless it cannot be read. -/
def readFile? (path : Bytes) : IO (Option Bytes) := do
  try
    let data ← IO.FS.readBinFile ((String.fromUTF8? ⟨path.toArray⟩).getD "")
    return some data.data.toList
  catch _ => return none

end PlaceFeed

open PlaceFeed

/-- The program. -/
def main (args : List String) : IO UInt32 := do
  let args := args.map Bytes.ofString
  let request := Request.ofArgs args
  let files ← request.paths.mapM fun path => return (path, ← readFile? path)
  let stdin ← match request with
    | .check _ input =>
      if input = Request.standardInput then
        let data ← (← IO.getStdin).readBinToEnd
        pure data.data.toList
      else pure []
    | _ => pure []
  let outcome := Command.run (fun path => (files.lookup path).join) stdin
    ⟨.info, Settings.defaultPattern⟩ args
  let out ← IO.getStdout
  let err ← IO.getStderr
  out.write ⟨outcome.out.toArray⟩
  err.write ⟨outcome.err.toArray⟩
  for message in outcome.log do
    err.write ⟨(message.toBytes ++ [Ascii.lineFeed]).toArray⟩
  return outcome.code.toUInt32
