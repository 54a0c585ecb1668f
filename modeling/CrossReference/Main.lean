import CrossReference.Command
import CrossReference.Snapshot

/-!
# The program

The arguments say what to do, and standard input holds a snapshot of the workspace to do it in.
-/

set_option autoImplicit false

/-- All that can still be read of a stream. -/
partial def readAll (stream : IO.FS.Stream) (text : String) : IO String := do
  let line ← stream.getLine
  if line.isEmpty then return text else readAll stream (text ++ line)

def main (arguments : List String) : IO UInt32 := do
  let snapshot ← readAll (← IO.getStdin) ""
  match CrossReference.Snapshot.read? snapshot with
  | none =>
      IO.eprintln "Unable to read the snapshot on standard input"
      return 1
  | some workspace =>
      let outcome := CrossReference.Command.run workspace arguments
      IO.print outcome.output
      IO.eprint outcome.errors
      return outcome.code.toUInt32
