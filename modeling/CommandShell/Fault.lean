/-! The ways in which running a command can go wrong. A shell error has a message
and a status of its own; the other faults come from the machine or from the
command itself. -/
namespace CommandShell

/-- What the machine answers when it refuses an operation on files or programs. -/
inductive SystemError where
  | noEntry
  | argumentsTooLong
  | badFormat
  | accessDenied
  | alreadyExists
  | notDirectory
  | isDirectory
  | noSpace
  | nameTooLong
  | tooManyLinks
  deriving DecidableEq, Repr

namespace SystemError

def number : SystemError → Nat
  | .noEntry => 2
  | .argumentsTooLong => 7
  | .badFormat => 8
  | .accessDenied => 13
  | .alreadyExists => 17
  | .notDirectory => 20
  | .isDirectory => 21
  | .noSpace => 28
  | .nameTooLong => 36
  | .tooManyLinks => 40

def text : SystemError → String
  | .noEntry => "No such file or directory"
  | .argumentsTooLong => "Argument list too long"
  | .badFormat => "Exec format error"
  | .accessDenied => "Permission denied"
  | .alreadyExists => "File exists"
  | .notDirectory => "Not a directory"
  | .isDirectory => "Is a directory"
  | .noSpace => "No space left on device"
  | .nameTooLong => "File name too long"
  | .tooManyLinks => "Too many levels of symbolic links"

end SystemError

inductive ShellError where
  | failure (message : String)
  | badLine (message : String)
  | commandNotFound (name : String)
  | redirection (message : String)
  | spawn (message : String) (status : Int)
  | historyFile (path reason : String)
  deriving DecidableEq, Repr

namespace ShellError

def message : ShellError → String
  | .failure message => message
  | .badLine message => message
  | .commandNotFound name => name ++ ": command not found"
  | .redirection message => message
  | .spawn message _ => message
  | .historyFile path reason => "history: " ++ path ++ ": " ++ reason

def status : ShellError → Int
  | .failure _ => 1
  | .badLine _ => 2
  | .commandNotFound _ => 127
  | .redirection _ => 1
  | .spawn _ status => status
  | .historyFile _ _ => 1

end ShellError

inductive Fault where
  | shell (error : ShellError)
  | brokenPipe (message : String)
  | interrupt (message : String)
  | nulByte
  | closedStream
  | outOfRange
  | sizeTooLarge
  | system (error : SystemError)
  | systemAt (error : SystemError) (path : String)
  | value (message : String)
  | wrongType (message : String)
  | unencodable (message : String)
  | processDenied (message : String)
  | runtime (message : String)
  | device (message : String)
  deriving DecidableEq, Repr

namespace Fault

def message : Fault → String
  | .shell error => error.message
  | .brokenPipe message => message
  | .interrupt message => message
  | .nulByte => "embedded null byte"
  | .closedStream => "I/O operation on closed file."
  | .outOfRange => "list index out of range"
  | .sizeTooLarge => "cannot fit 'int' into an index-sized integer"
  | .system error => "[Errno " ++ toString error.number ++ "] " ++ error.text
  | .systemAt error path =>
    "[Errno " ++ toString error.number ++ "] " ++ error.text ++ ": '" ++ path ++ "'"
  | .value message => message
  | .wrongType message => message
  | .unencodable message => message
  | .processDenied message => message
  | .runtime message => message
  | .device message => message

/-- A copy between streams and a report on a stream end quietly with such a fault. -/
def isStreamFault : Fault → Bool
  | .brokenPipe _ | .nulByte | .closedStream | .system _ | .systemAt _ _ | .value _
  | .unencodable _ | .device _ => true
  | _ => false

end Fault

end CommandShell
