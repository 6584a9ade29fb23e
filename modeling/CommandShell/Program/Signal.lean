/-! Signals by name and number. -/
namespace CommandShell.Signal

def names : List (String × Nat) :=
  [("HUP", 1), ("INT", 2), ("QUIT", 3), ("ILL", 4), ("TRAP", 5), ("ABRT", 6), ("BUS", 7),
    ("FPE", 8), ("KILL", 9), ("USR1", 10), ("SEGV", 11), ("USR2", 12), ("PIPE", 13),
    ("ALRM", 14), ("TERM", 15), ("STKFLT", 16), ("CHLD", 17), ("CONT", 18), ("STOP", 19),
    ("TSTP", 20), ("TTIN", 21), ("TTOU", 22), ("URG", 23), ("XCPU", 24), ("XFSZ", 25),
    ("VTALRM", 26), ("PROF", 27), ("WINCH", 28), ("IO", 29), ("PWR", 30), ("SYS", 31)]

def last : Nat := 64

def kill : Nat := 9

def terminate : Nat := 15

/-- A number, or a name in any case. -/
def ofText? (text : String) : Option Nat :=
  if text ≠ "" && text.toList.all Char.isDigit then
    let number := text.toList.foldl (fun n c => 10 * n + (c.toNat - '0'.toNat)) 0
    if number ≤ last then some number else none
  else names.lookup text.toUpper

/-- Signals that a program does not notice unless it asks to. -/
def isHarmless (signal : Nat) : Bool :=
  signal ∈ [0, 17, 18, 19, 20, 21, 22, 23, 28]

end CommandShell.Signal
