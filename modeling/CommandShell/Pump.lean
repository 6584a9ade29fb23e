import CommandShell.Fault
import CommandShell.Text.Utf8

/-! Copying a stream to another one piece by piece. Reads are given as the list of
what each of them yields; an empty piece is the end of the stream. -/
namespace CommandShell

/-- How bytes are handed to a destination, and how both ends of a copy are closed. A source
that is not part of the state `δ` closes without a fault. -/
structure Outlet (δ : Type) where
  write : δ → Bytes → Except Fault Unit × δ
  flush : δ → Except Fault Unit × δ
  close : δ → Except Fault Unit × δ
  closeSource : δ → Except Fault Unit × δ := fun state => (.ok (), state)

inductive StreamEnd where
  | source
  | destination
  deriving DecidableEq, Repr

/-- The outcome of a copy: the bytes that were written and flushed, the number of reads
made, the fault that ended it, if any, and the ends closed in order. -/
structure Copy (δ : Type) where
  destination : δ
  total : Nat := 0
  reads : Nat := 0
  fault : Option Fault := none
  closed : List StreamEnd := []

namespace Pump

/-- Absent and zero sizes stand for the configured one. -/
def chosenSize (requested : Option Int) (configured : Int) : Int :=
  match requested with
  | none => configured
  | some size => if size = 0 then configured else size

/-- Sizes that are not below this, or below its negative, are refused. -/
def sizeBound : Int := 0x8000000000000000

/-- Pieces of `size` bytes, the last one what is left; `done` is newest first. -/
def cut (size : Nat) (done : List Bytes) (bytes : Bytes) : List Bytes :=
  if size = 0 || bytes.isEmpty then done.reverse
  else cut size (bytes.take size :: done) (bytes.drop size)
termination_by bytes.length
decreasing_by
  rename_i more
  simp only [Bool.or_eq_true, decide_eq_true_eq, List.isEmpty_iff, not_or] at more
  have := List.length_pos_iff.mpr more.2
  simp only [List.length_drop]
  omega

/-- The reads of a stream that holds `bytes`. A negative size takes all at once. -/
def reads (size : Int) (bytes : Bytes) : List (Except Fault Bytes) :=
  if size < -sizeBound || sizeBound ≤ size then [.error .sizeTooLarge]
  else if size < 0 then [.ok bytes]
  else (cut size.toNat [] bytes).map .ok

/-- Copies until a read is empty or something fails. -/
def copy (outlet : Outlet δ) (state : Copy δ) : List (Except Fault Bytes) → Copy δ
  | [] => { state with reads := state.reads + 1 }
  | read :: rest =>
    let state := { state with reads := state.reads + 1 }
    match read with
    | .error fault => { state with fault := some fault }
    | .ok [] => state
    | .ok (b :: more) =>
      let chunk := b :: more
      let (written, destination) := outlet.write state.destination chunk
      match written with
      | .error fault => { state with destination, fault := some fault }
      | .ok () =>
        let (flushed, destination) := outlet.flush destination
        match flushed with
        | .error fault => { state with destination, fault := some fault }
        | .ok () =>
          copy outlet { state with destination, total := state.total + chunk.length } rest

def quiet (fault : Option Fault) : Option Fault :=
  fault.filter fun fault => !fault.isStreamFault

def closingFault : Except Fault Unit → Option Fault
  | .ok () => none
  | .error fault => quiet (some fault)

/-- Copies, closes the source, and then the destination if asked to. The fault that is
left is the last one that the copy does not keep to itself; if closing the source leaves
one the destination stays open. -/
def run (outlet : Outlet δ) (destination : δ) (closeDestination : Bool)
    (reads : List (Except Fault Bytes)) : Copy δ :=
  let copied := copy outlet { destination } reads
  let (closing, destination) := outlet.closeSource copied.destination
  match closingFault closing with
  | some fault => { copied with destination, fault := some fault, closed := [.source] }
  | none =>
    if closeDestination then
      let (closing, destination) := outlet.close destination
      let fault := (closingFault closing).or (quiet copied.fault)
      { copied with destination, fault, closed := [.source, .destination] }
    else { copied with destination, fault := quiet copied.fault, closed := [.source] }

def collector : Outlet (List Bytes) where
  write taken chunk := (.ok (), chunk :: taken)
  flush taken := (.ok (), taken)
  close taken := (.ok (), taken)

/-- What a copy of `bytes` brings to a destination that never fails. -/
def delivered (size : Int) (bytes : Bytes) : Bytes :=
  (run collector [] true (reads size bytes)).destination.reverse.flatten

end Pump

end CommandShell
