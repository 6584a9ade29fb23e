import CommandShell.Pump

/-! The calls that a copy makes on its two ends. A destination of any kind is made to keep a log,
which changes nothing in what the copy does; the log then shows which pieces were taken, which
were flushed too, where a fault put an end to the copy, and that both ends are closed in order
whatever happened before. -/
namespace CommandShell.Pump

inductive Call where
  | write (piece : Bytes) (outcome : Except Fault Unit)
  | flush (outcome : Except Fault Unit)
  | close (stream : StreamEnd) (outcome : Except Fault Unit)

def Call.accepted? : Call → Option Bytes
  | .write piece (.ok ()) => some piece
  | .write _ (.error _) | .flush _ | .close _ _ => none

def Call.closed? : Call → Option StreamEnd
  | .close stream _ => some stream
  | .write _ _ | .flush _ => none

def Call.outcome : Call → Except Fault Unit
  | .write _ outcome | .flush outcome | .close _ outcome => outcome

def Call.AnsweredBy (outlet : Outlet δ) : Call → Prop
  | .write piece outcome => ∃ state, (outlet.write state piece).1 = outcome
  | .flush outcome => ∃ state, (outlet.flush state).1 = outcome
  | .close .destination outcome => ∃ state, (outlet.close state).1 = outcome
  | .close .source outcome => ∃ state, (outlet.closeSource state).1 = outcome

def logged (outlet : Outlet δ) : Outlet (δ × List Call) where
  write state piece :=
    let (outcome, next) := outlet.write state.1 piece
    (outcome, next, state.2 ++ [.write piece outcome])
  flush state :=
    let (outcome, next) := outlet.flush state.1
    (outcome, next, state.2 ++ [.flush outcome])
  close state :=
    let (outcome, next) := outlet.close state.1
    (outcome, next, state.2 ++ [.close .destination outcome])
  closeSource state :=
    let (outcome, next) := outlet.closeSource state.1
    (outcome, next, state.2 ++ [.close .source outcome])

def forget (copied : Copy (δ × List Call)) : Copy δ :=
  { copied with destination := copied.destination.1 }

def yielded : List (Except Fault Bytes) → List Bytes
  | .ok (b :: more) :: rest => (b :: more) :: yielded rest
  | .ok [] :: _ | .error _ :: _ | [] => []

def accepted (calls : List Call) : List Bytes :=
  calls.filterMap Call.accepted?

/-- The pieces that were taken and flushed right after. -/
def settled : List Call → List Bytes
  | .write piece (.ok ()) :: .flush (.ok ()) :: rest => piece :: settled rest
  | _ :: rest => settled rest
  | [] => []

def closings (calls : List Call) : List StreamEnd :=
  calls.filterMap Call.closed?

/-- How a copy goes: the calls that it makes until it ends, the pieces that it moved, and the fault
that ended it. A fault of a read, a write or a flush is the last thing that happens. -/
inductive Copies : List (Except Fault Bytes) → List Call → List Bytes → Option Fault → Prop
  | exhausted : Copies [] [] [] none
  | ended (later : List (Except Fault Bytes)) : Copies (.ok [] :: later) [] [] none
  | unread (fault : Fault) (later : List (Except Fault Bytes)) :
      Copies (.error fault :: later) [] [] (some fault)
  | unwritten {piece : Bytes} (filled : piece ≠ []) (fault : Fault)
      (later : List (Except Fault Bytes)) :
      Copies (.ok piece :: later) [.write piece (.error fault)] [] (some fault)
  | unflushed {piece : Bytes} (filled : piece ≠ []) (fault : Fault)
      (later : List (Except Fault Bytes)) :
      Copies (.ok piece :: later) [.write piece (.ok ()), .flush (.error fault)] [] (some fault)
  | moved {piece : Bytes} {later : List (Except Fault Bytes)} {calls : List Call}
      {pieces : List Bytes} {fault : Option Fault} (filled : piece ≠ [])
      (rest : Copies later calls pieces fault) :
      Copies (.ok piece :: later) (.write piece (.ok ()) :: .flush (.ok ()) :: calls)
        (piece :: pieces) fault

namespace Copies

variable {reads : List (Except Fault Bytes)} {calls : List Call} {pieces : List Bytes}
  {fault : Option Fault}

/-- Pieces are taken whole, in order, and from the first one on. -/
theorem accepted_prefix (copies : Copies reads calls pieces fault) :
    accepted calls <+: yielded reads := by
  induction copies with
  | exhausted => exact List.nil_prefix
  | ended => exact List.nil_prefix
  | unread => exact List.nil_prefix
  | unwritten => exact List.nil_prefix
  | unflushed filled =>
    obtain ⟨b, more, rfl⟩ := List.exists_cons_of_ne_nil filled
    exact List.cons_prefix_cons.mpr ⟨rfl, List.nil_prefix⟩
  | moved filled _ ih =>
    obtain ⟨b, more, rfl⟩ := List.exists_cons_of_ne_nil filled
    exact List.cons_prefix_cons.mpr ⟨rfl, ih⟩

/-- What is moved is what is both taken and flushed. -/
theorem settled_append (copies : Copies reads calls pieces fault) (after : List Call) :
    settled (calls ++ after) = pieces ++ settled after := by
  induction copies with
  | exhausted => rfl
  | ended => rfl
  | unread => rfl
  | unwritten => rfl
  | unflushed => rfl
  | moved _ _ ih => simp [settled, ih]

theorem closings_eq_nil (copies : Copies reads calls pieces fault) : closings calls = [] := by
  induction copies with
  | exhausted => rfl
  | ended => rfl
  | unread => rfl
  | unwritten => rfl
  | unflushed => rfl
  | moved _ _ ih => exact ih

end Copies

/-- What a copy with a log comes to: without the log it is the copy as it was, and the log has the
calls of a copy that goes its way. -/
structure LogsCopy (outlet : Outlet δ) (state : Copy (δ × List Call))
    (reads : List (Except Fault Bytes)) (calls : List Call) (pieces : List Bytes)
    (fault : Option Fault) : Prop where
  copies : Copies reads calls pieces fault
  same : forget (copy (logged outlet) state reads) = copy outlet (forget state) reads
  log : (copy (logged outlet) state reads).destination.2 = state.destination.2 ++ calls
  total : (copy (logged outlet) state reads).total = state.total + pieces.flatten.length
  count : (copy (logged outlet) state reads).reads = state.reads + pieces.length + 1
  fault : (copy (logged outlet) state reads).fault = fault
  answered : ∀ call ∈ calls, call.AnsweredBy outlet

theorem exists_logsCopy (outlet : Outlet δ) (reads : List (Except Fault Bytes))
    (state : Copy (δ × List Call)) (free : state.fault = none) :
    ∃ calls pieces fault, LogsCopy outlet state reads calls pieces fault := by
  induction reads generalizing state with
  | nil => exact ⟨[], [], none, .exhausted, rfl, by simp [copy], rfl, rfl, free, by simp⟩
  | cons read later ih =>
    cases read with
    | error fault =>
      exact ⟨[], [], some fault, .unread fault later, rfl, by simp [copy], rfl, rfl, rfl, by simp⟩
    | ok piece =>
      cases piece with
      | nil => exact ⟨[], [], none, .ended later, rfl, by simp [copy], rfl, rfl, free, by simp⟩
      | cons b more =>
        have filled : b :: more ≠ [] := List.cons_ne_nil b more
        rcases written : outlet.write state.destination.1 (b :: more) with ⟨fault | _, next⟩
        · have refused : Call.AnsweredBy outlet (.write (b :: more) (.error fault)) :=
            ⟨_, congrArg Prod.fst written⟩
          refine ⟨_, _, _, .unwritten filled fault later, ?_, ?_, ?_, ?_, ?_,
            by simpa using refused⟩
          all_goals simp [copy, logged, forget, written]
        · have wrote : Call.AnsweredBy outlet (.write (b :: more) (.ok ())) :=
            ⟨_, congrArg Prod.fst written⟩
          rcases flushed : outlet.flush next with ⟨fault | _, last⟩
          · have stuck : Call.AnsweredBy outlet (.flush (.error fault)) :=
              ⟨_, congrArg Prod.fst flushed⟩
            refine ⟨_, _, _, .unflushed filled fault later, ?_, ?_, ?_, ?_, ?_,
              by simpa using ⟨wrote, stuck⟩⟩
            all_goals simp [copy, logged, forget, written, flushed]
          · let after : Copy (δ × List Call) := { state with
              destination := (last, state.destination.2 ++
                [.write (b :: more) (.ok ()), .flush (.ok ())])
              total := state.total + (b :: more).length
              reads := state.reads + 1 }
            have step : copy (logged outlet) state (.ok (b :: more) :: later) =
                copy (logged outlet) after later := by
              simp [copy, logged, written, flushed, after]
            have plain : copy outlet (forget state) (.ok (b :: more) :: later) =
                copy outlet (forget after) later := by
              simp [copy, forget, written, flushed, after]
            obtain ⟨calls, pieces, fault, copies, same, log, total, count, ended, answered⟩ :=
              ih after free
            refine ⟨_, _, fault, .moved filled copies, ?_, ?_, ?_, ?_, ?_, ?_⟩
            · rw [step, plain, same]
            · rw [step, log]
              simp [after]
            · rw [step, total]
              simp only [after, List.flatten_cons, List.length_append]
              omega
            · rw [step, count]
              simp only [after, List.length_cons]
              omega
            · rw [step, ended]
            · have passed : Call.AnsweredBy outlet (.flush (.ok ())) :=
                ⟨_, congrArg Prod.fst flushed⟩
              simpa using ⟨wrote, passed, answered⟩

structure ClosesQuietly (outlet : Outlet δ) : Prop where
  destination : ∀ state fault, (outlet.close state).1 = .error fault → fault.isStreamFault = true
  source : ∀ state fault, (outlet.closeSource state).1 = .error fault → fault.isStreamFault = true

theorem closingFault_eq_none {outcome : Except Fault Unit}
    (stream : ∀ fault, outcome = .error fault → fault.isStreamFault = true) :
    closingFault outcome = none := by
  cases outcome with
  | ok _ => rfl
  | error fault => simp [closingFault, quiet, stream fault rfl]

/-- The log does not change what a copy does, up to the closing of its ends. -/
theorem forget_run (outlet : Outlet δ) (destination : δ) (closeDestination : Bool)
    (reads : List (Except Fault Bytes)) :
    forget (run (logged outlet) (destination, []) closeDestination reads) =
      run outlet destination closeDestination reads := by
  obtain ⟨calls, pieces, fault, logs⟩ :=
    exists_logsCopy outlet reads { destination := (destination, []) } rfl
  have same : copy outlet { destination } reads =
      forget (copy (logged outlet) { destination := (destination, []) } reads) := logs.same.symm
  rw [run, run, same]
  generalize copy (logged outlet) { destination := (destination, []) } reads = copied
  simp only [forget, logged]
  cases closingFault (outlet.closeSource copied.destination.1).1 with
  | some fault => rfl
  | none =>
    cases closeDestination with
    | true => rfl
    | false => rfl

/-- If both ends close quietly, both are closed whatever the copy came to. -/
theorem run_closes {outlet : Outlet δ} (closes : ClosesQuietly outlet) (destination : δ)
    (closeDestination : Bool) (reads : List (Except Fault Bytes)) :
    let copied := copy outlet { destination } reads
    let released := (outlet.closeSource copied.destination).2
    run outlet destination closeDestination reads = { copied with
      destination := if closeDestination then (outlet.close released).2 else released
      fault := quiet copied.fault
      closed := .source :: if closeDestination then [.destination] else [] } := by
  intro copied released
  have source := closingFault_eq_none (closes.source copied.destination)
  have destination := closingFault_eq_none (closes.destination released)
  cases closeDestination with
  | true => simp [run, copied, source, destination, released]
  | false => simp [run, copied, source, released]

theorem ClosesQuietly.logged {outlet : Outlet δ} (closes : ClosesQuietly outlet) :
    ClosesQuietly (logged outlet) :=
  ⟨fun state => closes.destination state.1, fun state => closes.source state.1⟩

def closingCalls (closeDestination : Bool) (first second : Except Fault Unit) : List Call :=
  .close .source first :: if closeDestination then [.close .destination second] else []

theorem accepted_closed (calls : List Call) (closeDestination : Bool)
    (first second : Except Fault Unit) :
    accepted (calls ++ closingCalls closeDestination first second) = accepted calls := by
  simp only [accepted, List.filterMap_append]
  cases closeDestination with
  | true => simp [closingCalls, Call.accepted?]
  | false => simp [closingCalls, Call.accepted?]

/-- The log of a whole run is that of the copy, and then the ends are closed. -/
theorem exists_log {outlet : Outlet δ} (closes : ClosesQuietly outlet) (destination : δ)
    (closeDestination : Bool) (reads : List (Except Fault Bytes)) :
    let recorded := run (logged outlet) (destination, []) closeDestination reads
    ∃ calls pieces fault first second, Copies reads calls pieces fault ∧
      recorded.destination.2 = calls ++ closingCalls closeDestination first second ∧
      recorded.total = pieces.flatten.length ∧ recorded.reads = pieces.length + 1 ∧
      recorded.fault = quiet fault ∧ ∀ call ∈ calls, call.AnsweredBy outlet := by
  intro recorded
  obtain ⟨calls, pieces, fault, copies, -, log, total, count, left, answered⟩ :=
    exists_logsCopy outlet reads { destination := (destination, []) } rfl
  have closed : recorded = _ := run_closes closes.logged (destination, []) closeDestination reads
  generalize copy (logged outlet) { destination := (destination, []) } reads = copied at *
  let released := outlet.closeSource copied.destination.1
  refine ⟨calls, pieces, fault, released.1, (outlet.close released.2).1, copies, ?_, ?_, ?_, ?_,
    answered⟩
  · rw [closed]
    cases closeDestination with
    | true => simp [logged, closingCalls, log, released]
    | false => simp [logged, closingCalls, log, released]
  · rw [closed]
    simpa using total
  · rw [closed]
    simpa using count
  · rw [closed]
    exact congrArg quiet left

/-- A copy is safe whatever fails. With any source, and a destination that may refuse any write,
flush or close: the destination takes whole pieces, in order and from the first one on; the total
counts the pieces that were taken and flushed; a fault of a read, a write or a flush is the end of
the copy, and only one that is not of a stream is seen outside; and on every path the source is
closed once, and then the destination once if that was asked for. -/
theorem copy_safe_under_faults {outlet : Outlet δ} (closes : ClosesQuietly outlet)
    (destination : δ) (closeDestination : Bool) (reads : List (Except Fault Bytes)) :
    let result := run outlet destination closeDestination reads
    let recorded := run (logged outlet) (destination, []) closeDestination reads
    let log := recorded.destination.2
    forget recorded = result ∧
    accepted log <+: yielded reads ∧
    result.total = (settled log).flatten.length ∧
    (∃ calls pieces fault first second, Copies reads calls pieces fault ∧
      log = calls ++ closingCalls closeDestination first second ∧
      result.fault = fault.filter fun fault => !fault.isStreamFault) ∧
    closings log = .source :: (if closeDestination then [.destination] else []) ∧
    result.closed = closings log := by
  intro result recorded log
  have same : forget recorded = result := forget_run outlet destination closeDestination reads
  obtain ⟨calls, pieces, fault, first, second, copies, written, total, -, left, -⟩ :=
    exists_log closes destination closeDestination reads
  have ends : closings log = .source :: (if closeDestination then [.destination] else []) := by
    simp only [log, recorded, written, closings, List.filterMap_append]
    rw [← closings, copies.closings_eq_nil]
    cases closeDestination with
    | true => rfl
    | false => rfl
  refine ⟨same, ?_, ?_, ⟨calls, pieces, fault, first, second, copies, written, ?_⟩, ends, ?_⟩
  · have taken : accepted log = accepted calls := by
      simp only [log, recorded, written, accepted_closed]
    rw [taken]
    exact copies.accepted_prefix
  · have moved : settled log = pieces := by
      simp only [log, recorded, written, copies.settled_append]
      cases closeDestination with
      | true => simp [closingCalls, settled]
      | false => simp [closingCalls, settled]
    rw [moved, ← total, ← same]
    rfl
  · rw [← same]
    exact left
  · rw [ends]
    simp only [result, run_closes closes]

/-- A destination whose second flush fails with a fault that is not of a stream; neither end can be
closed properly. The state counts the flushes. -/
def brokenEnds : Outlet Nat where
  write flushes _ := (.ok (), flushes)
  flush flushes := if flushes = 1 then (.error (.runtime "x"), flushes) else (.ok (), flushes + 1)
  close flushes := (.error (.device "x"), flushes)
  closeSource flushes := (.error .closedStream, flushes)

/-- The second of three pieces is taken but does not count, the third one is never read, and both
ends are closed although the fault goes on. -/
theorem copy_safe_under_faults_unflushed :
    let reads : List (Except Fault Bytes) := [.ok [97, 98], .ok [99], .ok [100]]
    let result := run brokenEnds 0 true reads
    let log := (run (logged brokenEnds) (0, []) true reads).destination.2
    ClosesQuietly brokenEnds ∧ [[97, 98], [99]] <+: yielded reads ∧ result.total = 2 ∧
      result.fault = some (.runtime "x") ∧ closings log = [.source, .destination] := by
  intro reads result log
  have closes : ClosesQuietly brokenEnds := by
    constructor
    · intro state fault failed
      cases failed
      rfl
    · intro state fault failed
      cases failed
      rfl
  obtain ⟨-, taken, total, -, closed, -⟩ := copy_safe_under_faults closes 0 true reads
  exact ⟨closes, taken, total, rfl, closed⟩

end CommandShell.Pump
