import CommandShell.Fault

/-! Ending the programs that a shell leaves behind. Each is asked to end first, and
killed when it has not done so in time. How the machine and the programs take that is part
of what is known of each of them. -/
namespace CommandShell

/-- What comes of a signal: it is taken, or the program is gone, or it may not be sent. -/
inductive SignalAnswer where
  | taken
  | gone
  | denied (message : String)
  deriving DecidableEq, Repr

/-- A program that the shell has started and that may still run. `lasts` is the time in
milliseconds that it goes on after it was asked to end, and nothing if it never ends. -/
structure Child where
  pid : Nat
  onTerminate : SignalAnswer := .taken
  lasts : Option Nat := some 0
  onKill : SignalAnswer := .taken
  deriving DecidableEq, Repr

def Child.outlasts (child : Child) (timeout : Nat) : Bool :=
  child.lasts.all (timeout < ·)

/-- Sends a signal to one program after another, and gives those that took it. One that is
gone is passed over; one that may not be signalled stops it. -/
def signalAll (answer : Child → SignalAnswer) : List Child → Except Fault (List Child)
  | [] => .ok []
  | child :: rest =>
    match answer child with
    | .denied message => .error (.processDenied message)
    | .gone => signalAll answer rest
    | .taken => (signalAll answer rest).map (child :: ·)

/-- Ends the children within a time in milliseconds, and gives those that were killed. When
they cannot be listed, nothing is done. -/
def cleanUp (timeout : Nat) : Option (List Child) → Except Fault (List Child)
  | none => .ok []
  | some children =>
    match signalAll Child.onTerminate children with
    | .error fault => .error fault
    | .ok _ => signalAll Child.onKill (children.filter (·.outlasts timeout))

/-- The children that still run when those in `killed` have been killed. -/
def survivors (timeout : Nat) (killed children : List Child) : List Child :=
  children.filter fun child =>
    child.outlasts timeout && child.onKill != .gone && !(killed.contains child)

end CommandShell
