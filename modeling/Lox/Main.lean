import Lox.Command
import Std.Time.DateTime.Timestamp

/-!
The program itself: it fetches what a command works on, and writes what the command leaves behind.
-/

namespace Lox

/-- The seconds since the epoch. -/
def secondsNow : IO Float := do
  let time ← Std.Time.Timestamp.now
  return Float.ofInt time.toNanosecondsSinceUnixEpoch.val / 1000000000

/-- The bytes of a file, if it can be read. -/
def fileContent? (path : String) : IO (Option (List UInt8)) := do
  try
    return some (← IO.FS.readBinFile path).toList
  catch _ => return none

/-- The bytes of standard input, up to its end. -/
def inputContent : IO (List UInt8) := do
  return (← (← IO.getStdin).readBinToEnd).toList

end Lox

open Lox in
def main (arguments : List String) : IO UInt32 := do
  let outcome ←
    match Command.ofArguments? arguments with
    | none => pure Command.misused
    | some command => do
      let content ←
        match command.path? with
        | some path => fileContent? path
        | none => pure none
      let input ← if command.readsInput && (content.isSome || command.path?.isNone) then inputContent
        else pure []
      pure (command.execute content input (← secondsNow))
  (← IO.getStderr).putStr outcome.complaints
  (← IO.getStdout).putStr outcome.written
  return outcome.exit.toUInt32
