/-
**The command.**

Reads the command line, runs, and prints the report, or says what failed.

Main definitions:

* `Caret.readSource` — reading from the disk or from the standard input;
* `main` — the command.
-/

import Caret.CommandLine.Run

set_option relaxedAutoImplicit false
set_option autoImplicit false

namespace Caret

/-- The reason why the system refused to read. -/
def ReadError.ofSystem : IO.Error → ReadError
  | .noFileOrDirectory _ _ _ => notFound
  | .inappropriateType _ code _ => if code = 21 then isDirectory else notDirectory
  | e => system (toString e)

/-- All bytes of a stream. -/
partial def readAll (stream : IO.FS.Stream) (read : ByteArray) : IO ByteArray := do
  let bytes ← stream.read 65536
  if bytes.isEmpty then return read else readAll stream (read ++ bytes)

/-- The text of a source, or the reason why it cannot be read. -/
def readSource (source : Source) : IO (Except ReadError String) := do
  try
    match source with
    | .standardInput => return readText (← readAll (← IO.getStdin) ByteArray.empty)
    | .file path => return readText (← IO.FS.readBinFile path)
  catch e => return .error (.ofSystem e)

/-- How the command is used. -/
def usage : String :=
  "Classify the completion context at a cursor in Go source\n\n" ++
  "Usage: cursorctx [OPTIONS] <FILE>\n\n" ++
  "Arguments:\n" ++
  "  <FILE>  Go source file to analyze, or `-` to read stdin\n\n" ++
  "Options:\n" ++
  "      --offset <OFFSET>          Cursor as a byte offset (defaults to the end of the buffer)\n" ++
  "      --line <LINE>              Cursor line, 1-based\n" ++
  "      --column <COLUMN>          Cursor column in characters, 1-based\n" ++
  "      --format <FORMAT>          Output format [possible values: text, json]\n" ++
  "      --config <PATH>            TOML config file\n" ++
  "      --max-input-bytes <BYTES>  Reject buffers larger than this many bytes\n" ++
  "      --log-filter <DIRECTIVES>  Tracing filter directives\n" ++
  "  -h, --help                     Print help\n" ++
  "  -V, --version                  Print version"

end Caret

open Caret in
/-- The command. -/
def main (words : List String) : IO UInt32 := do
  match Arguments.parse words with
  | .error stop =>
    match stop with
    | .help => IO.println usage
    | .version => IO.println "cursorctx 0.1.0"
    | .rejected e => IO.eprintln ("error: " ++ e.message)
    return stop.exitCode.toUInt32
  | .ok arguments =>
    match ← run readSource arguments with
    | .ok report =>
      IO.println report
      return 0
    | .error failure =>
      IO.eprintln ("cursorctx error: " ++ failure.message)
      return 2
