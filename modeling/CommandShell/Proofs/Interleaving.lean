import CommandShell.Builtin.Basic
import CommandShell.Proofs.StreamProgram

/-! Programs that run side by side, each reading what the one before it writes, and the last
one writing to a screen. A schedule says which of them acts next and how much a read brings; a
pipe takes any number of bytes, since a bound would only rule schedules out. Whatever the
schedule, every program sees a beginning of one and the same stream, and all of it where it
sees the end. -/
namespace CommandShell

open Stream' (Seq)

inductive Phase (σ : Type) where
  | running (state : σ)
  | finished (status : Int)
  | broken

namespace Phase

def ended : Phase σ → Bool
  | .running _ => false
  | .finished _ | .broken => true

def status? : Phase σ → Option Int
  | .running _ => none
  | .finished status => some status
  | .broken => some brokenPipeStatus

end Phase

/-- A segment at work, with the pipe that it reads: the bytes that wait there, and whether the
segment still holds the read end of it and the write end of the next one. -/
structure Worker where
  segment : Segment
  phase : Phase segment.State := .running segment.start
  inbox : Bytes := []
  reading : Bool := true
  writing : Bool := true

/-- What a worker can be told to do: its next move, with the number of bytes that a read
brings, or to let go of a stream once it has ended. -/
inductive Act where
  | move (count : Nat)
  | closeInput
  | closeOutput

namespace Worker

/-- Does what it is told, where that is possible, and tells which byte it wrote. `ended` is
whether nobody writes to its inbox any more, `gone` whether nobody reads what it writes. -/
def perform (worker : Worker) (ended gone : Bool) (act : Act) : Option (Worker × Option UInt8) :=
  match act with
  | .move count =>
    match worker.phase with
    | .running state =>
      match worker.segment.move state with
      | .read limit next =>
        if worker.inbox = [] then
          if ended then some ({ worker with phase := .running (next []) }, none) else none
        else if Takes limit (worker.inbox.take count) then
          some ({ worker with
            phase := .running (next (worker.inbox.take count))
            inbox := worker.inbox.drop count }, none)
        else none
      | .write byte next =>
        if gone then some ({ worker with phase := .broken }, none)
        else some ({ worker with phase := .running next }, some byte)
      | .finish status => some ({ worker with phase := .finished status }, none)
    | .finished _ | .broken => none
  | .closeInput =>
    if worker.phase.ended then some ({ worker with reading := false }, none) else none
  | .closeOutput =>
    if worker.phase.ended then some ({ worker with writing := false }, none) else none

inductive Acts (worker : Worker) (ended gone : Bool) : Worker → Option UInt8 → Prop
  | read {state limit next piece rest} (phase : worker.phase = .running state)
      (move : worker.segment.move state = .read limit next) (inbox : worker.inbox = piece ++ rest)
      (takes : Takes limit piece) :
      Acts worker ended gone { worker with phase := .running (next piece), inbox := rest } none
  | readEnd {state limit next} (phase : worker.phase = .running state)
      (move : worker.segment.move state = .read limit next) (inbox : worker.inbox = [])
      (stopped : ended = true) :
      Acts worker ended gone { worker with phase := .running (next []) } none
  | write {state byte next} (phase : worker.phase = .running state)
      (move : worker.segment.move state = .write byte next) (heard : gone = false) :
      Acts worker ended gone { worker with phase := .running next } (some byte)
  | breakOff {state byte next} (phase : worker.phase = .running state)
      (move : worker.segment.move state = .write byte next) (unheard : gone = true) :
      Acts worker ended gone { worker with phase := .broken } none
  | finish {state status} (phase : worker.phase = .running state)
      (move : worker.segment.move state = .finish status) :
      Acts worker ended gone { worker with phase := .finished status } none
  | closeInput (phase : worker.phase.ended = true) :
      Acts worker ended gone { worker with reading := false } none
  | closeOutput (phase : worker.phase.ended = true) :
      Acts worker ended gone { worker with writing := false } none

theorem perform_acts {worker after : Worker} {ended gone : Bool} {act : Act} {byte : Option UInt8}
    (performed : worker.perform ended gone act = some (after, byte)) :
    worker.Acts ended gone after byte := by
  cases act with
  | move count =>
    cases phase : worker.phase with
    | running state =>
      cases move : worker.segment.move state with
      | read limit next =>
        simp only [perform, phase, move] at performed
        split at performed
        case isTrue inbox =>
          split at performed
          case isTrue stopped => cases performed; exact .readEnd phase move inbox stopped
          case isFalse => cases performed
        case isFalse =>
          split at performed
          case isTrue takes =>
            cases performed
            exact .read phase move (List.take_append_drop count _).symm takes
          case isFalse => cases performed
      | write byte next =>
        simp only [perform, phase, move] at performed
        split at performed
        case isTrue unheard => cases performed; exact .breakOff phase move unheard
        case isFalse heard => cases performed; exact .write phase move (Bool.eq_false_iff.mpr heard)
      | finish status =>
        simp only [perform, phase, move] at performed
        cases performed
        exact .finish phase move
    | finished | broken => simp [perform, phase] at performed
  | closeInput =>
    simp only [perform] at performed
    split at performed
    case isTrue stopped => cases performed; exact .closeInput stopped
    case isFalse => cases performed
  | closeOutput =>
    simp only [perform] at performed
    split at performed
    case isTrue stopped => cases performed; exact .closeOutput stopped
    case isFalse => cases performed

theorem Acts.segment {worker after : Worker} {ended gone : Bool} {byte : Option UInt8}
    (acts : worker.Acts ended gone after byte) : after.segment = worker.segment := by
  cases acts <;> rfl

end Worker

/-- How a phase comes about when the segment is run on the input stream by itself. A segment
that broke off had one more byte to write. -/
def Phase.Explained (segment : Segment) (input : Seq UInt8) (gone : Bool) (taken written : Bytes) :
    Phase segment.State → Prop
  | .running state => segment.Reaches input taken written state
  | .finished status =>
    ∃ state, segment.Reaches input taken written state ∧ segment.move state = .finish status
  | .broken => gone = true ∧ ∃ byte, segment.Emits input (written ++ [byte])

namespace Worker

variable {worker after : Worker} {input : Seq UInt8} {received taken written : Bytes}
  {ended gone : Bool}

/-- A worker that sees `input`, of which it has `received` a part so far. -/
structure Tracks (worker : Worker) (input : Seq UInt8) (received : Bytes) (ended gone : Bool)
    (taken written : Bytes) : Prop where
  received_eq : received = taken ++ worker.inbox
  begins : Begins input received
  all : ended = true → worker.reading = true → input = Seq.ofList received
  holding : worker.phase.ended = false → worker.reading = true ∧ worker.writing = true
  explained : worker.phase.Explained worker.segment input gone taken written

namespace Tracks

theorem running {state : worker.segment.State}
    (tracks : worker.Tracks input received ended gone taken written)
    (phase : worker.phase = .running state) :
    worker.segment.Reaches input taken written state ∧ worker.reading = true ∧
      worker.writing = true := by
  have explained := tracks.explained
  have holding := tracks.holding
  rw [phase] at explained holding
  exact ⟨explained, holding rfl⟩

/-- A worker that has ended, and whose reader is still there, wrote the whole of its output. -/
theorem output_whole (tracks : worker.Tracks input received ended gone taken written)
    (stopped : worker.phase.ended = true) (heard : gone = false) :
    worker.segment.transform input = Seq.ofList written := by
  have explained := tracks.explained
  cases phase : worker.phase with
  | running state => simp [phase, Phase.ended] at stopped
  | finished status =>
    rw [phase] at explained
    exact Segment.transform_of_ends ⟨taken, explained⟩
  | broken =>
    rw [phase] at explained
    exact absurd explained.1 (by simp [heard])

/-- A pump that has ended, and whose reader is still there, has seen the end of its source. -/
theorem pump {size : Int} (tracks : worker.Tracks input received ended false taken written)
    (copies : worker.segment = Pump.segment size) (stopped : worker.phase.ended = true) :
    input = Seq.ofList written ∧ written <+: received := by
  obtain ⟨segment, phase, inbox, reading, writing⟩ := worker
  cases copies
  have explained := tracks.explained
  cases phase with
  | running state => cases stopped
  | broken => cases explained.1
  | finished status =>
    obtain ⟨state, reaches, finish⟩ := explained
    obtain ⟨rfl, -⟩ := Pump.move_finish finish
    obtain ⟨copied, -, all⟩ := Pump.reaches_copied reaches
    refine ⟨all rfl, inbox, ?_⟩
    simpa [copied] using tracks.received_eq.symm

theorem gone_mono {later : Bool} (tracks : worker.Tracks input received ended gone taken written)
    (stays : gone = true → later = true) :
    worker.Tracks input received ended later taken written where
  received_eq := tracks.received_eq
  begins := tracks.begins
  all := tracks.all
  holding := tracks.holding
  explained := by
    have explained := tracks.explained
    revert explained
    cases worker.phase with
    | running | finished => exact id
    | broken => exact fun ⟨gone, more⟩ => ⟨stays gone, more⟩

end Tracks

/-- Whatever a worker does, it keeps to what its segment does on the whole stream. -/
theorem Acts.tracks {byte : Option UInt8} (acts : worker.Acts ended gone after byte)
    (tracks : worker.Tracks input received ended gone taken written) :
    ∃ taken, after.Tracks input received ended gone taken (written ++ byte.toList) := by
  cases acts with
  | @read state limit next piece rest phase move inbox takes =>
    obtain ⟨reaches, held⟩ := tracks.running phase
    have received_eq : received = (taken ++ piece) ++ rest := by
      rw [tracks.received_eq, inbox, List.append_assoc]
    have begins : Begins input (taken ++ piece) :=
      tracks.begins.of_isPrefix ⟨rest, received_eq.symm⟩
    rw [Option.toList_none, List.append_nil]
    exact ⟨taken ++ piece, received_eq, tracks.begins, tracks.all, fun _ => held,
      reaches.read move takes begins⟩
  | readEnd phase move inbox stopped =>
    obtain ⟨reaches, held⟩ := tracks.running phase
    have all : input = Seq.ofList taken := by
      have whole := tracks.all stopped held.1
      rwa [tracks.received_eq, inbox, List.append_nil] at whole
    rw [Option.toList_none, List.append_nil]
    exact ⟨taken, tracks.received_eq, tracks.begins, tracks.all, fun _ => held,
      reaches.readEnd move all⟩
  | write phase move =>
    obtain ⟨reaches, held⟩ := tracks.running phase
    exact ⟨taken, tracks.received_eq, tracks.begins, tracks.all, fun _ => held,
      reaches.write move⟩
  | breakOff phase move unheard =>
    obtain ⟨reaches, -⟩ := tracks.running phase
    rw [Option.toList_none, List.append_nil]
    exact ⟨taken, tracks.received_eq, tracks.begins, tracks.all, nofun,
      unheard, _, _, _, reaches.write move⟩
  | finish phase move =>
    obtain ⟨reaches, -⟩ := tracks.running phase
    rw [Option.toList_none, List.append_nil]
    exact ⟨taken, tracks.received_eq, tracks.begins, tracks.all, nofun, _, reaches, move⟩
  | closeInput stopped =>
    rw [Option.toList_none, List.append_nil]
    refine ⟨taken, tracks.received_eq, tracks.begins, nofun, ?_, tracks.explained⟩
    exact fun running => absurd stopped (by simp [running])
  | closeOutput stopped =>
    rw [Option.toList_none, List.append_nil]
    refine ⟨taken, tracks.received_eq, tracks.begins, tracks.all, ?_, tracks.explained⟩
    exact fun running => absurd stopped (by simp [running])

end Worker

/-- Workers in a row; the last one writes to the screen, which is always read. -/
inductive Chain where
  | screen (shown : Bytes)
  | link (worker : Worker) (rest : Chain)

namespace Chain

def reading : Chain → Bool
  | .screen _ => true
  | .link worker _ => worker.reading

def give (byte : UInt8) : Chain → Chain
  | .screen shown => .screen (shown ++ [byte])
  | .link worker rest => .link { worker with inbox := worker.inbox ++ [byte] } rest

/-- The worker at position `n` acts. `ended` is whether nobody writes to the chain any more. -/
def step (act : Act) : Nat → Bool → Chain → Option Chain
  | _, _, .screen _ => none
  | 0, ended, .link worker rest =>
    match worker.perform ended (!rest.reading) act with
    | none => none
    | some (worker, none) => some (.link worker rest)
    | some (worker, some byte) => some (.link worker (rest.give byte))
  | n + 1, _, .link worker rest => (step act n (!worker.writing) rest).map (.link worker)

/-- Carries out a schedule on a chain that nobody writes to any more; nothing where an act is
not possible. -/
def run (chain : Chain) : List (Nat × Act) → Option Chain
  | [] => some chain
  | (n, act) :: later =>
    match chain.step act n true with
    | none => none
    | some chain => chain.run later

def shown : Chain → Bytes
  | .screen shown => shown
  | .link _ rest => rest.shown

def lastStatus? : Chain → Option Int
  | .link worker (.link _ (.screen _)) => worker.phase.status?
  | .link _ rest => rest.lastStatus?
  | .screen _ => none

def segments : Chain → List Segment
  | .screen _ => []
  | .link worker rest => worker.segment :: rest.segments

def complete : Chain → Bool
  | .screen _ => true
  | .link worker rest => worker.phase.ended && rest.complete

def fresh : Bytes → List Segment → Chain
  | inbox, [] => .screen inbox
  | inbox, segment :: rest => .link { segment, inbox } (fresh [] rest)

theorem segments_fresh (inbox : Bytes) (segments : List Segment) :
    (fresh inbox segments).segments = segments := by
  induction segments generalizing inbox with
  | nil => rfl
  | cons segment rest ih => exact congrArg (segment :: ·) (ih [])

theorem exists_link {chain : Chain} {segment : Segment} {others : List Segment}
    (segments : chain.segments = segment :: others) :
    ∃ worker rest, chain = .link worker rest ∧ worker.segment = segment ∧
      rest.segments = others := by
  cases chain with
  | screen shown => cases segments
  | link worker rest => exact ⟨worker, rest, rfl, List.cons.inj segments⟩

theorem exists_screen {chain : Chain} (segments : chain.segments = []) :
    ∃ shown, chain = .screen shown := by
  cases chain with
  | screen shown => exact ⟨shown, rfl⟩
  | link worker rest => cases segments

theorem lastStatus?_link {worker : Worker} {rest : Chain} (long : 2 ≤ rest.segments.length) :
    (Chain.link worker rest).lastStatus? = rest.lastStatus? := by
  match rest, long with
  | .screen _, long => cases long
  | .link _ (.screen _), long => simp [segments] at long
  | .link _ (.link _ _), _ => rfl

theorem reading_give (byte : UInt8) (chain : Chain) :
    (chain.give byte).reading = chain.reading := by
  cases chain <;> rfl

theorem segments_give (byte : UInt8) (chain : Chain) :
    (chain.give byte).segments = chain.segments := by
  cases chain <;> rfl

inductive Steps : Bool → Chain → Chain → Prop
  | act {worker after rest ended} (acts : worker.Acts ended (!rest.reading) after none) :
      Steps ended (.link worker rest) (.link after rest)
  | write {worker after rest ended byte}
      (acts : worker.Acts ended (!rest.reading) after (some byte)) :
      Steps ended (.link worker rest) (.link after (rest.give byte))
  | later {worker rest next ended} (steps : Steps (!worker.writing) rest next) :
      Steps ended (.link worker rest) (.link worker next)

theorem step_steps {act : Act} {n : Nat} {ended : Bool} {chain next : Chain}
    (stepped : chain.step act n ended = some next) : Steps ended chain next := by
  induction chain generalizing n ended next with
  | screen shown => simp [step] at stepped
  | link worker rest ih =>
    cases n with
    | zero =>
      rw [step] at stepped
      split at stepped
      · cases stepped
      case h_2 performed => cases stepped; exact .act (Worker.perform_acts performed)
      case h_3 performed => cases stepped; exact .write (Worker.perform_acts performed)
    | succ n =>
      rw [step, Option.map_eq_some_iff] at stepped
      obtain ⟨later, stepped, rfl⟩ := stepped
      exact .later (ih stepped)

namespace Steps

variable {chain next : Chain} {ended : Bool}

theorem segments (steps : Steps ended chain next) : next.segments = chain.segments := by
  induction steps with
  | act acts => exact congrArg (· :: _) acts.segment
  | write acts => exact congrArg₂ List.cons acts.segment (segments_give _ _)
  | later _ ih => exact congrArg (_ :: ·) ih

/-- A reader that has gone does not come back. -/
theorem reading (steps : Steps ended chain next) (gone : chain.reading = false) :
    next.reading = false := by
  cases steps with
  | act acts | write acts => cases acts <;> first | exact gone | rfl
  | later => exact gone

end Steps

/-- A chain that sees `input`, of which it has `received` a part so far: every worker sees the
stream that the segments before it make of the input. -/
def Follows : Seq UInt8 → Bytes → Bool → Chain → Prop
  | input, received, ended, .screen shown =>
    shown = received ∧ (ended = true → input = Seq.ofList received)
  | input, received, ended, .link worker rest =>
    ∃ taken written, worker.Tracks input received ended (!rest.reading) taken written ∧
      rest.Follows (worker.segment.transform input) written (!worker.writing)

namespace Follows

variable {chain next : Chain} {input : Seq UInt8} {received : Bytes} {ended : Bool}

theorem fresh {segments : List Segment} (begins : Begins input received)
    (all : ended = true → input = Seq.ofList received) :
    (fresh received segments).Follows input received ended := by
  induction segments generalizing input received ended with
  | nil => exact ⟨rfl, all⟩
  | cons segment rest ih =>
    exact ⟨[], [], ⟨rfl, begins, fun stopped _ => all stopped, fun _ => ⟨rfl, rfl⟩, .start⟩,
      ih (.nil _) nofun⟩

theorem give {byte : UInt8} (follows : chain.Follows input received false)
    (begins : Begins input (received ++ [byte])) :
    (chain.give byte).Follows input (received ++ [byte]) false := by
  cases chain with
  | screen shown => exact ⟨congrArg (· ++ [byte]) follows.1, nofun⟩
  | link worker rest =>
    obtain ⟨taken, written, tracks, later⟩ := follows
    refine ⟨taken, written, ⟨?_, begins, nofun, tracks.holding, tracks.explained⟩, later⟩
    rw [tracks.received_eq, List.append_assoc]

/-- Nobody writes to the chain from now on. -/
theorem close (follows : chain.Follows input received ended)
    (all : chain.reading = true → input = Seq.ofList received) :
    chain.Follows input received true := by
  cases chain with
  | screen shown => exact ⟨follows.1, fun _ => all rfl⟩
  | link worker rest =>
    obtain ⟨taken, written, tracks, later⟩ := follows
    exact ⟨taken, written, ⟨tracks.received_eq, tracks.begins, fun _ => all, tracks.holding,
      tracks.explained⟩, later⟩

/-- The rest of a chain after the first worker did something. -/
theorem after_act {worker after : Worker} {rest : Chain} {taken written : Bytes}
    {byte : Option UInt8} (acts : worker.Acts ended (!rest.reading) after byte)
    (tracks : worker.Tracks input received ended (!rest.reading) taken written)
    (later : rest.Follows (worker.segment.transform input) written (!worker.writing)) :
    (byte.elim rest rest.give).Follows (after.segment.transform input) (written ++ byte.toList)
      (!after.writing) := by
  cases acts with
  | write phase move =>
    obtain ⟨reaches, -, holding⟩ := tracks.running phase
    have begins := Segment.transform_begins ⟨taken, _, reaches.write move⟩
    simp only [holding, Bool.not_true] at later ⊢
    exact later.give begins
  | closeOutput stopped =>
    rw [Option.toList_none, List.append_nil]
    refine later.close fun heard => tracks.output_whole stopped ?_
    rw [heard, Bool.not_true]
  | read | readEnd | breakOff | finish | closeInput =>
    rw [Option.toList_none, List.append_nil]
    exact later

theorem step (steps : Steps ended chain next) (follows : chain.Follows input received ended) :
    next.Follows input received ended := by
  induction steps generalizing input received with
  | act acts =>
    obtain ⟨taken, written, tracks, later⟩ := follows
    obtain ⟨taken', after⟩ := acts.tracks tracks
    exact ⟨taken', _, after, after_act acts tracks later⟩
  | write acts =>
    obtain ⟨taken, written, tracks, later⟩ := follows
    obtain ⟨taken', after⟩ := acts.tracks tracks
    refine ⟨taken', _, ?_, after_act acts tracks later⟩
    rwa [reading_give]
  | later steps ih =>
    obtain ⟨taken, written, tracks, later⟩ := follows
    refine ⟨taken, written, tracks.gone_mono fun gone => ?_, ih later⟩
    simp only [Bool.not_eq_true'] at gone ⊢
    exact steps.reading gone

theorem run {schedule : List (Nat × Act)} (ran : chain.run schedule = some next)
    (follows : chain.Follows input received true) :
    next.Follows input received true ∧ next.segments = chain.segments := by
  induction schedule generalizing chain with
  | nil =>
    cases ran
    exact ⟨follows, rfl⟩
  | cons turn later ih =>
    rw [Chain.run] at ran
    split at ran
    · cases ran
    case h_2 stepped =>
      have steps := step_steps stepped
      obtain ⟨after, segments⟩ := ih ran (follows.step steps)
      exact ⟨after, segments.trans steps.segments⟩

/-- A complete chain of two workers, of which the second is a pump. -/
theorem last_worker {worker pump : Worker} {shown : Bytes} {size : Int}
    (copies : pump.segment = Pump.segment size)
    (follows : (Chain.link worker (.link pump (.screen shown))).Follows input received ended)
    (complete : (Chain.link worker (.link pump (.screen shown))).complete = true) :
    ∃ status, worker.phase.status? = some status ∧ worker.segment.Ends input shown status := by
  obtain ⟨taken, written, tracks, taken', written', pumped, rfl, -⟩ := follows
  simp only [Chain.complete, Bool.and_true, Bool.and_eq_true] at complete
  obtain ⟨whole, first⟩ := pumped.pump copies complete.2
  have explained := tracks.explained
  cases phase : worker.phase with
  | running state => simp [phase, Phase.ended] at complete
  | finished status =>
    rw [phase] at explained
    have ends : worker.segment.Ends input written status := ⟨taken, explained⟩
    have same : written = shown :=
      Seq.ofList_injective ((Segment.transform_of_ends ends).symm.trans whole)
    exact ⟨status, rfl, same ▸ ends⟩
  | broken =>
    -- The pump saw the end of the stream, so no byte was left to write.
    rw [phase] at explained
    obtain ⟨-, byte, emits⟩ := explained
    have begins := Segment.transform_begins emits
    rw [whole, Begins.ofList_iff] at begins
    have longer := (begins.trans first).length_le
    exact absurd longer (by simp)

/-- What a complete chain has shown, and the status of its last segment. -/
theorem result {earlier : List Segment} {last : Segment} {size : Int}
    (segments : chain.segments = earlier ++ [last, Pump.segment size])
    (follows : chain.Follows input received ended) (complete : chain.complete = true) :
    ∃ status, chain.lastStatus? = some status ∧
      last.Ends (Segment.through earlier input) chain.shown status := by
  induction earlier generalizing chain input received ended with
  | nil =>
    obtain ⟨worker, rest, rfl, rfl, afterLast⟩ := exists_link segments
    obtain ⟨pump, rest, rfl, copies, afterPump⟩ := exists_link afterLast
    obtain ⟨shown, rfl⟩ := exists_screen afterPump
    exact last_worker copies follows complete
  | cons segment earlier ih =>
    obtain ⟨worker, rest, rfl, rfl, others⟩ := exists_link segments
    obtain ⟨taken, written, -, later⟩ := follows
    simp only [Chain.complete, Bool.and_eq_true] at complete
    obtain ⟨status, known, ends⟩ := ih others later complete.2
    refine ⟨status, ?_, ends⟩
    rw [lastStatus?_link (by simp [others]), known]

end Follows

end Chain

end CommandShell
