import CommandShell.FileTree.System
import CommandShell.Shell

/-! The command line: a shell on a new machine that reads its commands from standard
input. -/
namespace CommandShell

def newMachine : Machine :=
  { files := FileTree.system
    directory := "/root"
    environment := [("HOME", "/root"), ("PATH", Session.defaultPath)] }

/-- Exit codes are kept modulo 256. -/
def exitByte (code : Int) : UInt32 :=
  UInt32.ofNat (code % 256).toNat

partial def readAll (stream : IO.FS.Stream) (done : ByteArray) : IO ByteArray := do
  let piece ← stream.read 65536
  if piece.isEmpty then return done
  readAll stream (done ++ piece)

end CommandShell

open CommandShell in
def main : IO UInt32 := do
  let input ← readAll (← IO.getStdin) ByteArray.empty
  let (result, shell) := runProcess newMachine [] input.toList
  let out ← IO.getStdout
  let err ← IO.getStderr
  out.write (ByteArray.mk (shell.output [.prompt, .out]).toArray)
  out.flush
  err.write (ByteArray.mk (shell.output [.err, .warning]).toArray)
  err.flush
  match result with
  | .ok code => return exitByte code
  | .error fault =>
    err.putStr (fault.message ++ "\n")
    return 1
