import CommandShell.Proofs.CopyCalls
import CommandShell.Settings

/-! Copying a stream that is held in memory. Its reads are those of a stream that gives up a piece
at a time, so a copy makes at most one read more than there are bytes. All bytes arrive unless the
size of the pieces is zero, in which case the first read already looks like the end, or is beyond
what a read accepts. The size may come from the environment, where nothing rules this out. -/
namespace CommandShell.Pump

def readPiece (size : Int) (bytes : Bytes) : Except Fault (Bytes × Bytes) :=
  if size < -sizeBound || sizeBound ≤ size then .error .sizeTooLarge
  else if size < 0 then .ok (bytes, [])
  else .ok (bytes.take size.toNat, bytes.drop size.toNat)

def Accepts (size : Int) : Prop :=
  -sizeBound ≤ size ∧ size < sizeBound

instance (size : Int) : Decidable (Accepts size) :=
  inferInstanceAs (Decidable (_ ∧ _))

theorem not_accepts_iff {size : Int} :
    (size < -sizeBound || sizeBound ≤ size) = true ↔ ¬ Accepts size := by
  simp only [Accepts, Bool.or_eq_true, decide_eq_true_eq]
  omega

/-- Reading a stream that holds `bytes` to its end, or to a fault, comes to these reads. -/
inductive Yields (size : Int) : Bytes → List (Except Fault Bytes) → Prop
  | refused {bytes : Bytes} {fault : Fault} (read : readPiece size bytes = .error fault) :
      Yields size bytes [.error fault]
  | ended {bytes rest : Bytes} {reads : List (Except Fault Bytes)}
      (read : readPiece size bytes = .ok ([], rest)) (last : reads = [] ∨ reads = [.ok []]) :
      Yields size bytes reads
  | more {bytes piece rest : Bytes} {reads : List (Except Fault Bytes)}
      (read : readPiece size bytes = .ok (piece, rest)) (filled : piece ≠ [])
      (later : Yields size rest reads) : Yields size bytes (.ok piece :: reads)

section Pieces

variable {size : Int} {bytes piece rest : Bytes}

theorem readPiece_refused (beyond : ¬ Accepts size) (bytes : Bytes) :
    readPiece size bytes = .error .sizeTooLarge := by
  rw [readPiece, if_pos (not_accepts_iff.mpr beyond)]

theorem readPiece_accepted (accepts : Accepts size) (bytes : Bytes) :
    readPiece size bytes =
      .ok (if size < 0 then (bytes, []) else (bytes.take size.toNat, bytes.drop size.toNat)) := by
  rw [readPiece, if_neg (fun beyond => not_accepts_iff.mp beyond accepts)]
  split
  · rfl
  · rfl

theorem accepts_of_readPiece (read : readPiece size bytes = .ok (piece, rest)) : Accepts size := by
  by_cases accepts : Accepts size
  · exact accepts
  · rw [readPiece_refused accepts] at read
    cases read

/-- A read takes a piece off the front. -/
theorem readPiece_append (read : readPiece size bytes = .ok (piece, rest)) :
    piece ++ rest = bytes := by
  rw [readPiece_accepted (accepts_of_readPiece read)] at read
  split at read
  · cases read
    exact List.append_nil bytes
  · cases read
    exact List.take_append_drop size.toNat bytes

/-- An empty read is the end of the stream only if something was asked for. -/
theorem readPiece_nil (read : readPiece size bytes = .ok ([], rest)) (nonzero : size ≠ 0) :
    bytes = [] := by
  rw [readPiece_accepted (accepts_of_readPiece read)] at read
  split at read
  · cases read
    rfl
  · simp only [Except.ok.injEq, Prod.mk.injEq, List.take_eq_nil_iff] at read
    exact read.1.resolve_left (by omega)

theorem readPiece_zero (bytes : Bytes) : readPiece 0 bytes = .ok ([], bytes) := by
  rw [readPiece_accepted (by decide)]
  simp

end Pieces

def readFault? : List (Except Fault Bytes) → Option Fault
  | .ok (_ :: _) :: rest => readFault? rest
  | .error fault :: _ => some fault
  | .ok [] :: _ | [] => none

namespace Yields

variable {size : Int} {bytes : Bytes} {reads : List (Except Fault Bytes)}

theorem last_yielded (last : reads = [] ∨ reads = [.ok []]) :
    yielded reads = [] ∧ readFault? reads = none := by
  rcases last with rfl | rfl
  · exact ⟨rfl, rfl⟩
  · exact ⟨rfl, rfl⟩

/-- Every piece holds a byte, so there are not more pieces than bytes. -/
theorem length_le (yields : Yields size bytes reads) : (yielded reads).length ≤ bytes.length := by
  induction yields with
  | refused => exact Nat.zero_le _
  | ended _ last =>
    rw [(last_yielded last).1]
    exact Nat.zero_le _
  | more read filled _ ih =>
    obtain ⟨b, tail, rfl⟩ := List.exists_cons_of_ne_nil filled
    have whole := congrArg List.length (readPiece_append read)
    simp only [List.length_append, List.length_cons] at whole
    simp only [yielded, List.length_cons]
    omega

theorem readFault?_eq (yields : Yields size bytes reads) :
    readFault? reads = if Accepts size then none else some .sizeTooLarge := by
  induction yields with
  | refused read =>
    by_cases accepts : Accepts size
    · rw [readPiece_accepted accepts] at read
      cases read
    · rw [readPiece_refused accepts] at read
      cases read
      simp [readFault?, accepts]
  | ended read last =>
    rw [(last_yielded last).2, if_pos (accepts_of_readPiece read)]
  | more read filled _ ih =>
    obtain ⟨b, tail, rfl⟩ := List.exists_cons_of_ne_nil filled
    exact ih

/-- Pieces of a size that is not zero make up the whole stream. -/
theorem flatten_yielded (yields : Yields size bytes reads) (accepts : Accepts size)
    (nonzero : size ≠ 0) : (yielded reads).flatten = bytes := by
  induction yields with
  | refused read =>
    rw [readPiece_accepted accepts] at read
    cases read
  | ended read last =>
    rw [(last_yielded last).1, readPiece_nil read nonzero]
    rfl
  | more read filled _ ih =>
    obtain ⟨b, tail, rfl⟩ := List.exists_cons_of_ne_nil filled
    rw [yielded, List.flatten_cons, ih, readPiece_append read]

/-- A read of nothing is taken for the end. -/
theorem yielded_eq_nil (yields : Yields size bytes reads) (idle : size = 0 ∨ ¬ Accepts size) :
    yielded reads = [] := by
  cases yields with
  | refused => rfl
  | ended _ last => exact (last_yielded last).1
  | more read filled =>
    rcases idle with rfl | beyond
    · rw [readPiece_zero] at read
      cases read
      exact absurd rfl filled
    · exact absurd (accepts_of_readPiece read) beyond

theorem flatten_yielded_eq (yields : Yields size bytes reads) :
    (yielded reads).flatten = if Accepts size ∧ size ≠ 0 then bytes else [] := by
  by_cases fits : Accepts size ∧ size ≠ 0
  · rw [if_pos fits]
    exact yields.flatten_yielded fits.1 fits.2
  · have idle : size = 0 ∨ ¬ Accepts size := by
      by_cases zero : size = 0
      · exact .inl zero
      · exact .inr fun accepts => fits ⟨accepts, zero⟩
    rw [if_neg fits, yields.yielded_eq_nil idle]
    rfl

end Yields

theorem readPiece_split {size : Int} (accepts : Accepts size) (natural : ¬ size < 0)
    (bytes : Bytes) :
    readPiece size bytes = .ok (bytes.take size.toNat, bytes.drop size.toNat) := by
  rw [readPiece_accepted accepts, if_neg natural]

/-- The pieces that are cut off the stream are those that its reads give. -/
theorem exists_cut_yields {size : Int} (accepts : Accepts size) (natural : ¬ size < 0)
    (done : List Bytes) (bytes : Bytes) :
    ∃ pieces, cut size.toNat done bytes = done.reverse ++ pieces ∧
      Yields size bytes (pieces.map .ok) := by
  fun_induction cut size.toNat done bytes with
  | case1 done bytes stopped =>
    have nothing : bytes.take size.toNat = [] := by
      simpa [List.take_eq_nil_iff] using stopped
    have read := readPiece_split accepts natural bytes
    rw [nothing] at read
    exact ⟨[], by simp, .ended read (.inl rfl)⟩
  | case2 done bytes more ih =>
    obtain ⟨pieces, same, yields⟩ := ih
    have filled : bytes.take size.toNat ≠ [] := by
      simpa [List.take_eq_nil_iff] using more
    exact ⟨bytes.take size.toNat :: pieces, by simp [same],
      .more (readPiece_split accepts natural bytes) filled yields⟩

/-- The reads of a stream in memory come from reading it piece by piece. -/
theorem yields_reads (size : Int) (bytes : Bytes) : Yields size bytes (reads size bytes) := by
  by_cases accepts : Accepts size
  · rw [reads, if_neg (fun beyond => not_accepts_iff.mp beyond accepts)]
    split
    next negative =>
      have read := readPiece_accepted accepts bytes
      rw [if_pos negative] at read
      by_cases empty : bytes = []
      · subst empty
        exact .ended read (.inr rfl)
      · have finished := readPiece_accepted accepts []
        rw [if_pos negative] at finished
        exact .more read empty (.ended finished (.inl rfl))
    next natural =>
      obtain ⟨pieces, same, yields⟩ := exists_cut_yields accepts natural [] bytes
      rwa [same]
  · rw [reads, if_pos (not_accepts_iff.mpr accepts)]
    exact .refused (readPiece_refused accepts bytes)

structure Reliable (outlet : Outlet δ) : Prop where
  write : ∀ state piece, (outlet.write state piece).1 = .ok ()
  flush : ∀ state, (outlet.flush state).1 = .ok ()
  close : ∀ state, (outlet.close state).1 = .ok ()
  closeSource : ∀ state, (outlet.closeSource state).1 = .ok ()

namespace Reliable

variable {outlet : Outlet δ} (reliable : Reliable outlet)

include reliable

theorem closesQuietly : ClosesQuietly outlet := by
  constructor
  · intro state fault failed
    rw [reliable.close] at failed
    cases failed
  · intro state fault failed
    rw [reliable.closeSource] at failed
    cases failed

theorem outcome_eq_ok {call : Call} (answered : call.AnsweredBy outlet) :
    call.outcome = .ok () := by
  cases call with
  | write piece outcome =>
    obtain ⟨state, rfl⟩ := answered
    exact reliable.write state piece
  | flush outcome =>
    obtain ⟨state, rfl⟩ := answered
    exact reliable.flush state
  | close stream outcome =>
    cases stream with
    | source =>
      obtain ⟨state, rfl⟩ := answered
      exact reliable.closeSource state
    | destination =>
      obtain ⟨state, rfl⟩ := answered
      exact reliable.close state

end Reliable

/-- If no call fails, all that the source yields is moved, and only a read can end the copy. -/
theorem Copies.of_ok {reads : List (Except Fault Bytes)} {calls : List Call} {pieces : List Bytes}
    {fault : Option Fault} (copies : Copies reads calls pieces fault)
    (fine : ∀ call ∈ calls, call.outcome = .ok ()) :
    pieces = yielded reads ∧ accepted calls = yielded reads ∧ fault = readFault? reads := by
  induction copies with
  | exhausted => exact ⟨rfl, rfl, rfl⟩
  | ended => exact ⟨rfl, rfl, rfl⟩
  | unread => exact ⟨rfl, rfl, rfl⟩
  | unwritten => simp [Call.outcome] at fine
  | unflushed => simp [Call.outcome] at fine
  | moved filled _ ih =>
    obtain ⟨b, more, rfl⟩ := List.exists_cons_of_ne_nil filled
    obtain ⟨pieces, taken, fault⟩ := ih fun call member => fine call (by simp [member])
    refine ⟨by rw [pieces, yielded], ?_, fault⟩
    rw [yielded, ← taken]
    rfl

theorem run_reliable {outlet : Outlet δ} (reliable : Reliable outlet) (destination : δ)
    (closeDestination : Bool) (reads : List (Except Fault Bytes)) :
    let recorded := run (logged outlet) (destination, []) closeDestination reads
    accepted recorded.destination.2 = yielded reads ∧
      recorded.total = (yielded reads).flatten.length ∧
      recorded.reads = (yielded reads).length + 1 ∧ recorded.fault = quiet (readFault? reads) := by
  intro recorded
  obtain ⟨calls, pieces, fault, first, second, copies, log, total, count, left, answered⟩ :=
    exists_log reliable.closesQuietly destination closeDestination reads
  obtain ⟨rfl, taken, rfl⟩ :=
    copies.of_ok fun call member => reliable.outcome_eq_ok (answered call member)
  refine ⟨?_, total, count, left⟩
  rw [← taken, ← accepted_closed calls closeDestination first second, ← log]

theorem chosenSize_eq_zero_iff {requested : Option Int} {configured : Int} :
    chosenSize requested configured = 0 ↔
      (requested = none ∨ requested = some 0) ∧ configured = 0 := by
  cases requested with
  | none => simp [chosenSize]
  | some size =>
    by_cases zero : size = 0
    · simp [chosenSize, zero]
    · simp [chosenSize, zero]

/-- What a copy of a stream in memory comes to, by the size of its pieces. -/
theorem run_memory {outlet : Outlet δ} (reliable : Reliable outlet) (destination : δ)
    (closeDestination : Bool) (size : Int) (bytes : Bytes) :
    let result := run outlet destination closeDestination (reads size bytes)
    let recorded := run (logged outlet) (destination, []) closeDestination (reads size bytes)
    let arrived := (accepted recorded.destination.2).flatten
    arrived = (if Accepts size ∧ size ≠ 0 then bytes else []) ∧ result.total = arrived.length ∧
      result.reads ≤ bytes.length + 1 ∧
      result.fault = if Accepts size then none else some .sizeTooLarge := by
  intro result recorded arrived
  have same : forget recorded = result := forget_run outlet destination closeDestination _
  have yields : Yields size bytes (reads size bytes) := yields_reads size bytes
  obtain ⟨taken, total, count, left⟩ :=
    run_reliable reliable destination closeDestination (reads size bytes)
  have arrives : arrived = (yielded (reads size bytes)).flatten := congrArg List.flatten taken
  rw [← same]
  refine ⟨arrives.trans yields.flatten_yielded_eq, ?_, ?_, ?_⟩
  · rw [arrives]
    exact total
  · calc recorded.reads
      _ = (yielded (reads size bytes)).length + 1 := count
      _ ≤ bytes.length + 1 := Nat.succ_le_succ yields.length_le
  · refine left.trans ?_
    rw [yields.readFault?_eq]
    split
    · rfl
    · rfl

/-- A stream in memory arrives whole at a destination that never fails exactly if the size of the
pieces is one that a read accepts and is not zero, or there is nothing to copy; and the size is the
one that is asked for, or else the one in the environment. With a size of zero nothing is copied and
nothing is reported; a size beyond the bounds ends the copy with a fault. In any case the copy ends,
after at most one read more than there are bytes. -/
theorem memory_copied_iff_size_fits {outlet : Outlet δ} (reliable : Reliable outlet)
    (destination : δ) (closeDestination : Bool) (requested : Option Int)
    (environment : Environment) (bytes : Bytes) :
    let configured := (Settings.ofEnvironment environment).pumpSize
    let size := chosenSize requested configured
    let result := run outlet destination closeDestination (reads size bytes)
    let recorded := run (logged outlet) (destination, []) closeDestination (reads size bytes)
    let arrived := (accepted recorded.destination.2).flatten
    forget recorded = result ∧ Yields size bytes (reads size bytes) ∧
    result.reads ≤ bytes.length + 1 ∧
    (arrived = bytes ∧ result.total = bytes.length ∧ result.fault = none ↔
      Accepts size ∧ (size ≠ 0 ∨ bytes = [])) ∧
    (size = 0 ↔ (requested = none ∨ requested = some 0) ∧ configured = 0) ∧
    (size = 0 → arrived = [] ∧ result.total = 0 ∧ result.fault = none) ∧
    (¬ Accepts size → arrived = [] ∧ result.total = 0 ∧ result.fault = some .sizeTooLarge) := by
  intro configured size result recorded arrived
  obtain ⟨arrives, total, bounded, faults⟩ :=
    run_memory reliable destination closeDestination size bytes
  have same : forget recorded = result := forget_run outlet destination closeDestination _
  refine ⟨same, yields_reads size bytes, bounded, ⟨?_, ?_⟩, chosenSize_eq_zero_iff, ?_, ?_⟩
  · rintro ⟨whole, -, unfaulted⟩
    have accepts : Accepts size := by
      by_cases accepts : Accepts size
      · exact accepts
      · rw [faults, if_neg accepts] at unfaulted
        cases unfaulted
    refine ⟨accepts, ?_⟩
    by_cases zero : size = 0
    · rw [if_neg fun fits => fits.2 zero] at arrives
      exact .inr (whole.symm.trans arrives)
    · exact .inl zero
  · rintro ⟨accepts, asked⟩
    have whole : arrived = bytes := by
      refine arrives.trans ?_
      split
      next => rfl
      next idle =>
        exact (asked.resolve_left fun nonzero => idle ⟨accepts, nonzero⟩).symm
    exact ⟨whole, total.trans (congrArg List.length whole), faults.trans (if_pos accepts)⟩
  · intro zero
    have nothing : arrived = [] := arrives.trans (if_neg fun fits => fits.2 zero)
    have accepts : Accepts size := by
      rw [zero]
      decide
    exact ⟨nothing, total.trans (congrArg List.length nothing), faults.trans (if_pos accepts)⟩
  · intro beyond
    have nothing : arrived = [] := arrives.trans (if_neg fun fits => beyond fits.1)
    exact ⟨nothing, total.trans (congrArg List.length nothing), faults.trans (if_neg beyond)⟩

theorem collector_reliable : Reliable collector :=
  ⟨fun _ _ => rfl, fun _ => rfl, fun _ => rfl, fun _ => rfl⟩

/-- Three bytes in pieces of two, a size that the environment gives with a blank before it. -/
theorem memory_copied_iff_size_fits_pieces :
    let size := chosenSize none (Settings.ofEnvironment [("PIPESHELL_PUMP_BUFFER", " 2")]).pumpSize
    let recorded := run (logged collector) ([], []) true (reads size [97, 98, 99])
    Reliable collector ∧ Accepts size ∧ size ≠ 0 ∧
      (accepted recorded.destination.2).flatten = [97, 98, 99] ∧
      (run collector [] true (reads size [97, 98, 99])).total = 3 ∧
      (run collector [] true (reads size [97, 98, 99])).reads ≤ 4 := by
  intro size recorded
  have two : size = 2 := by decide +kernel
  have accepts : Accepts size := by
    rw [two]
    decide
  have nonzero : size ≠ 0 := by
    rw [two]
    decide
  obtain ⟨-, -, bounded, whole, -⟩ := memory_copied_iff_size_fits collector_reliable [] true none
    [("PIPESHELL_PUMP_BUFFER", " 2")] [97, 98, 99]
  obtain ⟨arrived, total, -⟩ := whole.mpr ⟨accepts, .inl nonzero⟩
  exact ⟨collector_reliable, accepts, nonzero, arrived, total, bounded⟩

/-- A size of zero in the environment makes a copy end before its first byte, as if the stream were
empty. -/
theorem memory_lost_at_size_zero :
    let size := chosenSize none (Settings.ofEnvironment [("PIPESHELL_PUMP_BUFFER", "0")]).pumpSize
    let result := run collector [] true (reads size [97, 98, 99])
    Reliable collector ∧ result.destination.reverse.flatten ≠ [97, 98, 99] ∧
      result.destination = [] ∧ result.total = 0 ∧ result.fault = none := by
  intro size result
  have zero : size = 0 := by decide +kernel
  have nothing : result.destination = [] ∧ result.total = 0 ∧ result.fault = none := by
    simp only [result, zero]
    decide +kernel
  refine ⟨collector_reliable, ?_, nothing⟩
  rw [nothing.1]
  decide

end CommandShell.Pump
