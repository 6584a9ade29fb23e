import CommandShell.Machine

/-! The ends of the streams that commands read and write. -/
namespace CommandShell

structure Source where
  rest : Bytes := []
  closed : Bool := false
  deriving DecidableEq, Repr

/-- Where written bytes go. The pieces written so far are newest first; `broken` is a
pipe that nobody reads any more. -/
inductive Sink where
  | memory (written : List Bytes)
  | terminal (written : List Bytes)
  | file (file : OpenFile)
  | broken
  | closed
  deriving DecidableEq, Repr

namespace Sink

def empty : Sink := .memory []

def bytes : Sink → Bytes
  | .memory written | .terminal written => written.reverse.flatten
  | .file _ | .broken | .closed => []

def write (sink : Sink) (data : Bytes) (files : FileTree) : Except Fault (Sink × FileTree) :=
  match sink with
  | .memory written => .ok (.memory (data :: written), files)
  | .terminal written => .ok (.terminal (data :: written), files)
  | .file target =>
    match target.write data files with
    | .ok (target, files) => .ok (.file target, files)
    | .error e => .error (.system e)
  | .broken => if data = [] then .ok (.broken, files) else .error (.brokenPipe "Broken pipe")
  | .closed => .error .closedStream

end Sink

/-- What a command line reads: the terminal, with the bytes not read from it yet, or a
stream that stands in for it. -/
inductive Stdin where
  | terminal (rest : Bytes)
  | given (source : Source)
  deriving DecidableEq, Repr

namespace Stdin

def source : Stdin → Source
  | .terminal rest => ⟨rest, false⟩
  | .given source => source

/-- The same input after reading left `source` of it. -/
def leave (stdin : Stdin) (source : Source) : Stdin :=
  match stdin with
  | .terminal _ => .terminal source.rest
  | .given _ => .given source

end Stdin

/-- The streams that the process of a shell has open; `held` are the files that it opened for
the command that is running. -/
structure Streams where
  stdin : Stdin
  out : Sink := .empty
  err : Sink := .empty
  held : List OpenFile := []
  deriving DecidableEq, Repr

namespace Streams

def hold (streams : Streams) (files : List OpenFile) : Streams :=
  { streams with held := files ++ streams.held }

def close (streams : Streams) (files : List OpenFile) : Streams :=
  { streams with held := files.foldl List.erase streams.held }

end Streams

/-- The pieces of `bytes` that end after each newline, every one with what follows it.
`done` and `line` are newest first. -/
def cutInput (done : List (Bytes × Bytes)) (line : Bytes) : Bytes → List (Bytes × Bytes)
  | [] => (if line = [] then done else (line.reverse, []) :: done).reverse
  | b :: rest =>
    if b = 0x0a then cutInput (((b :: line).reverse, rest) :: done) [] rest
    else cutInput done (b :: line) rest

end CommandShell
