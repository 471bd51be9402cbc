import Tftp.Program
import Tftp.Script

/-!
# The command

`main` runs the program with the arguments it is given. The tree of files and what happens on the
network come from a script on standard input; what the program says and sends is written to standard
output, and what has gone wrong to standard error.
-/

namespace Tftp

/-- The lines of a stream, without the characters that end them. -/
partial def readLines (stream : IO.FS.Stream) (lines : List Bytes) : IO (List Bytes) := do
  let line ← stream.getLine
  if line.isEmpty then return lines.reverse
  readLines stream ((line.toUTF8.toList.filter fun b => b ≠ 10 ∧ b ≠ 13) :: lines)

def writeEvent (event : Event) : IO Unit := do
  match event.line? with
  | some line =>
    let stream ← if event.isError then IO.getStderr else IO.getStdout
    stream.write ⟨(line ++ [10]).toArray⟩
  | none => return

end Tftp

open Tftp in
def main (arguments : List String) : IO UInt32 := do
  let lines ← readLines (← IO.getStdin) []
  let tree := (lines.filterMap Script.change?).foldl FileTree.apply {}
  let disk : Disk := { tree, space := some ⟨4096, 1048576⟩ }
  let outcome := Program.run (arguments.map fun argument => argument.toUTF8.toList) disk {}
    (lines.filterMap Script.cue?)
  outcome.events.flatten.forM writeEvent
  return outcome.exitCode
