import Mathlib.Data.List.Forall2
import CommandShell.Proofs.Interleaving
import CommandShell.Proofs.Running
import CommandShell.Proofs.WholeCopy

/-! What a pipeline shows does not depend on how its commands and pumps take turns. It is what
comes of running the commands one after the other, each on all that the one before it writes,
and that is how the shell runs them. -/
namespace CommandShell

open Stream' (Seq)

namespace Pump

theorem copy_collector (state : Copy (List Bytes)) (reads : List (Except Fault Bytes)) :
    (copy collector state reads).destination = (yielded reads).reverse ++ state.destination := by
  induction reads generalizing state with
  | nil => rfl
  | cons read rest ih =>
    rcases read with fault | piece
    · rfl
    · cases piece with
      | nil => rfl
      | cons byte more =>
        simp only [copy, collector, yielded]
        rw [← collector, ih]
        simp

/-- A pump brings all of its source to a destination that never fails. -/
theorem delivered_eq {size : Int} (nonzero : size ≠ 0)
    (bounded : -sizeBound ≤ size ∧ size < sizeBound) (bytes : Bytes) :
    delivered size bytes = bytes := by
  have copied :
      (copy collector { destination := [] } (reads size bytes)).destination.reverse.flatten =
        bytes := by
    rw [copy_collector, List.append_nil, List.reverse_reverse]
    exact (yields_reads size bytes).flatten_yielded bounded nonzero
  exact copied

theorem between_snoc (size : Int) (earlier : List Segment) (last : Segment) :
    between size (earlier ++ [last]) =
      (earlier.flatMap fun other => [segment size, other]) ++
        [segment size] ++ [last, segment size] := by
  induction earlier with
  | nil => rfl
  | cons first rest ih => simp [between, ih]

/-- Pumps do not show in the stream that comes out. -/
theorem through_pumps {size : Int} (nonzero : size ≠ 0) (earlier : List Segment)
    (input : Seq UInt8) :
    Segment.through ((earlier.flatMap fun other => [segment size, other]) ++ [segment size]) input =
      Segment.through earlier input := by
  induction earlier generalizing input with
  | nil => exact transform_segment nonzero input
  | cons first rest ih =>
    have tail := ih (first.transform input)
    simpa [Segment.through, transform_segment nonzero] using tail

end Pump

/-- Every segment would finish on all that comes out of those before it. -/
def Segment.Settle : List Segment → Seq UInt8 → Prop
  | [], _ => True
  | first :: rest, input =>
    (∃ output status, first.Ends input output status) ∧ Settle rest (first.transform input)

namespace Pipeline

/-- The command is the segment, whatever the other commands do to the machine. -/
structure RunsAs (toolbox : Toolbox) (session : Session) (handle : Handle) (segment : Segment) :
    Prop where
  accepted : refusal? handle = none
  same : ∀ {machine input output status finished}, segment.Ends (Seq.ofList input) output status →
    runSegment toolbox session handle machine input = .ok finished →
      finished.out.bytes = output ∧ finished.status = status

variable {toolbox : Toolbox} {handle : Handle} {segment last : Segment}
  {progress : Progress} {output : Bytes} {status : Int}

theorem unrefused {session : Session} {handles : List Handle} {segments : List Segment}
    (runs : List.Forall₂ (RunsAs toolbox session) handles segments) :
    handles.findSome? refusal? = none := by
  induction runs with
  | nil => rfl
  | cons first _ ih => rw [List.findSome?_cons, first.accepted, ih]

theorem deliver_err_out (state : ShellState) (data : Bytes) :
    (state.deliver .err data).streams.out = state.streams.out := by
  simp only [ShellState.deliver]
  split <;> rfl

theorem advance_runsAs (progress : Progress) (nonzero : toolbox.pumpSize ≠ 0)
    (bounded : -Pump.sizeBound ≤ toolbox.pumpSize ∧ toolbox.pumpSize < Pump.sizeBound)
    (runs : RunsAs toolbox progress.state.session handle segment)
    (ends : segment.Ends (Seq.ofList progress.output) output status) :
    ∃ next, advance toolbox progress handle = .ok next ∧ next.output = output ∧
      next.status = status ∧ next.state.streams.out = progress.state.streams.out := by
  obtain ⟨finished, ran⟩ := runSegment_ok toolbox runs.accepted progress.state.session
    progress.state.machine progress.output
  obtain ⟨rfl, rfl⟩ := runs.same ends ran
  refine ⟨_, by simp only [advance, ran]; rfl, ?_, rfl, deliver_err_out _ _⟩
  exact Pump.delivered_eq nonzero bounded _

/-- After the first command, the rest of the segments are left to run on its output. -/
theorem advance_settle (progress : Progress) (nonzero : toolbox.pumpSize ≠ 0)
    (bounded : -Pump.sizeBound ≤ toolbox.pumpSize ∧ toolbox.pumpSize < Pump.sizeBound)
    (runs : RunsAs toolbox progress.state.session handle segment) {earlier : List Segment}
    (settle : Segment.Settle (segment :: earlier) (Seq.ofList progress.output))
    (ends : last.Ends (Segment.through (segment :: earlier) (Seq.ofList progress.output))
      output status) :
    ∃ next, advance toolbox progress handle = .ok next ∧
      Segment.Settle earlier (Seq.ofList next.output) ∧
      last.Ends (Segment.through earlier (Seq.ofList next.output)) output status ∧
      next.state.streams.out = progress.state.streams.out := by
  obtain ⟨⟨middle, _, finishes⟩, settle⟩ := settle
  obtain ⟨next, advanced, rfl, -, kept⟩ := advance_runsAs progress nonzero bounded runs finishes
  rw [Segment.transform_of_ends finishes] at settle
  rw [Segment.through, List.foldl_cons, Segment.transform_of_ends finishes] at ends
  exact ⟨next, advanced, settle, ends, kept⟩

/-- The commands one after the other give what the segments give. -/
theorem advanceAll_runsAs (nonzero : toolbox.pumpSize ≠ 0)
    (bounded : -Pump.sizeBound ≤ toolbox.pumpSize ∧ toolbox.pumpSize < Pump.sizeBound)
    {handles : List Handle} {earlier : List Segment}
    (isolated : ∀ handle ∈ handles, handle.Isolated)
    (runs : List.Forall₂ (RunsAs toolbox progress.state.session) handles (earlier ++ [last]))
    (settle : Segment.Settle earlier (Seq.ofList progress.output))
    (ends : last.Ends (Segment.through earlier (Seq.ofList progress.output)) output status) :
    ∃ next, advanceAll toolbox progress handles = .ok next ∧ next.output = output ∧
      next.status = status ∧ next.state.streams.out = progress.state.streams.out := by
  induction earlier generalizing handles progress with
  | nil =>
    obtain ⟨handle, _, first, rest, rfl⟩ := List.forall₂_cons_right_iff.mp runs
    cases rest
    obtain ⟨next, advanced, result⟩ := advance_runsAs progress nonzero bounded first ends
    exact ⟨next, by simp only [advanceAll, advanced], result⟩
  | cons segment earlier ih =>
    obtain ⟨handle, others, first, rest, rfl⟩ := List.forall₂_cons_right_iff.mp runs
    obtain ⟨next, advanced, settle, ends, kept⟩ :=
      advance_settle progress nonzero bounded first settle ends
    rw [List.forall_mem_cons] at isolated
    rw [← advance_session isolated.1 advanced] at rest
    obtain ⟨final, reached, out, code, sink⟩ := ih isolated.2 rest settle ends
    exact ⟨final, by simp only [advanceAll, advanced, reached], out, code, sink.trans kept⟩

/-- The pipeline of the shell is made of these segments, and the bytes are what it is given to
read. -/
structure MadeOf (toolbox : Toolbox) (words : List (List String)) (state : ShellState)
    (stdin : Bytes) (segments : List Segment) : Prop where
  bounded : -Pump.sizeBound ≤ toolbox.pumpSize ∧ toolbox.pumpSize < Pump.sizeBound
  given : ∃ source, state.streams.stdin = .given source ∧
    stdin = if source.closed then [] else source.rest
  commands : ∃ handles, handles? toolbox state false words = some handles ∧
    List.Forall₂ (RunsAs toolbox state.session) handles segments

def Progress.takenUp (progress : Progress) (first : Handle) (stdin : Stdin) : Progress :=
  { progress with
    state := { progress.state with
      streams := { progress.state.streams with stdin := leftInput first progress.unread stdin } } }

theorem runPipeline_advance {words : List (List String)} {state : ShellState} {first : Handle}
    {rest : List Handle} {next final : Progress}
    (found : handles? toolbox state (isTerminal state.streams.stdin) words = some (first :: rest))
    (accepted : (first :: rest).findSome? refusal? = none)
    (advanced : advance toolbox
      { state, output := firstInput toolbox first state.streams.stdin } first = .ok next)
    (finished : advanceAll toolbox (next.takenUp first state.streams.stdin) rest = .ok final) :
    runPipeline toolbox words state =
      (.ok final.status, final.state.deliver .out final.output) := by
  rw [Progress.takenUp] at finished
  rw [runPipeline, found]
  simp only [accepted, advanced, finished]

/-- The shell runs a pipeline as its segments, one after the other. -/
theorem runPipeline_madeOf {words : List (List String)} {state : ShellState} {stdin : Bytes}
    {earlier : List Segment} (nonzero : toolbox.pumpSize ≠ 0)
    (made : MadeOf toolbox words state stdin (earlier ++ [last]))
    (settle : Segment.Settle earlier (Seq.ofList stdin))
    (ends : last.Ends (Segment.through earlier (Seq.ofList stdin)) output status) :
    ∃ before : ShellState, before.streams.out = state.streams.out ∧
      runPipeline toolbox words state = (.ok status, before.deliver .out output) := by
  obtain ⟨source, given, bytes⟩ := made.given
  obtain ⟨handles, found, runs⟩ := made.commands
  have terminal : isTerminal state.streams.stdin = false := by rw [given]; rfl
  rw [← terminal] at found
  have read (first : Handle) : firstInput toolbox first state.streams.stdin = stdin := by
    rw [given, bytes, firstInput, Pump.delivered_eq nonzero made.bounded]
  cases earlier with
  | nil =>
    obtain ⟨first, _, runsFirst, rest, rfl⟩ := List.forall₂_cons_right_iff.mp runs
    cases rest
    obtain ⟨next, advanced, rfl, rfl, kept⟩ :=
      advance_runsAs { state, output := stdin } nonzero made.bounded runsFirst ends
    rw [← read first] at advanced
    exact ⟨(next.takenUp first state.streams.stdin).state, kept,
      runPipeline_advance found (unrefused runs) advanced rfl⟩
  | cons segment earlier =>
    obtain ⟨first, rest, runsFirst, runsRest, rfl⟩ := List.forall₂_cons_right_iff.mp runs
    obtain ⟨next, advanced, settle, ends, kept⟩ :=
      advance_settle { state, output := stdin } nonzero made.bounded runsFirst settle ends
    obtain ⟨isolated, others⟩ := List.forall_mem_cons.mp (handles?_isolated found)
    have session : (next.takenUp first state.streams.stdin).state.session = state.session :=
      advance_session isolated advanced
    rw [← session] at runsRest
    obtain ⟨final, reached, rfl, rfl, sink⟩ :=
      advanceAll_runsAs nonzero made.bounded others runsRest settle ends
    rw [← read first] at advanced
    exact ⟨_, sink.trans kept, runPipeline_advance found (unrefused runs) advanced reached⟩

end Pipeline

abbrev announcer (text : Bytes) (status : Int) : StreamProgram where
  State := Bytes
  start := text
  move
    | [] => .finish status
    | byte :: rest => .write byte rest

namespace announcer

variable {text written : Bytes} {status : Int} {input : Seq UInt8}

theorem reaches_text {taken : Bytes} {state : (announcer text status).State}
    (reaches : (announcer text status).Reaches input taken written state) :
    written ++ state = text := by
  induction reaches with
  | start => rfl
  | @read _ _ _ state _ _ _ move | @readEnd _ _ state _ _ _ move =>
    cases state <;> cases move
  | @write _ _ state _ _ _ move ih =>
    cases state with
    | nil => cases move
    | cons byte rest =>
      cases move
      simpa using ih

theorem ends_text {code : Int} (ends : (announcer text status).Ends input written code) :
    written = text ∧ code = status := by
  obtain ⟨taken, state, reaches, move⟩ := ends
  cases state with
  | nil =>
    cases move
    exact ⟨by simpa using reaches_text reaches, rfl⟩
  | cons byte rest => cases move

theorem ends (text : Bytes) (status : Int) (input : Seq UInt8) :
    (announcer text status).Ends input text status := by
  have reaches (done rest : Bytes) (split : done ++ rest = text) :
      (announcer text status).Reaches input [] done rest := by
    induction done using List.reverseRecOn generalizing rest with
    | nil => exact split ▸ .start
    | append_singleton done byte ih => exact (ih (byte :: rest) (by simpa using split)).write rfl
  exact ⟨[], [], reaches text [] (by simp), rfl⟩

def segment (text : Bytes) (status : Int) : Segment where
  toStreamProgram := announcer text status
  agree := by
    rintro input one other ⟨_, _, reaches⟩ ⟨_, _, also⟩
    exact List.prefix_or_prefix_of_prefix ⟨_, reaches_text reaches⟩ ⟨_, reaches_text also⟩
  whole := by
    rintro input output part code ends ⟨_, _, reaches⟩
    obtain ⟨rfl, -⟩ := ends_text ends
    exact ⟨_, reaches_text reaches⟩
  one_status ends also := (ends_text ends).2.trans (ends_text also).2.symm

theorem transform_segment (text : Bytes) (status : Int) (input : Seq UInt8) :
    (segment text status).transform input = Seq.ofList text :=
  Segment.transform_of_ends (ends text status input)

end announcer

namespace Pipeline

/-- The command `echo` in a pipeline. -/
theorem echo_runsAs (toolbox : Toolbox) (session forked : Session) (arguments : List String) :
    RunsAs toolbox session (.builtin "echo" Builtin.echo arguments (some forked))
      (announcer.segment (Text.encodeText (" ".intercalate arguments ++ "\n")) 0) where
  accepted := rfl
  same {machine input output status finished} ends ran := by
    obtain ⟨rfl, rfl⟩ := announcer.ends_text ends
    cases ran
    exact ⟨by simp [Frame.setSink, Sink.bytes], rfl⟩

def copying : Spawn := fun _ process =>
  .ok (.exited 0, { process with input := [], out := .memory [process.input] })

theorem copying_runsAs {toolbox : Toolbox} (spawn : toolbox.spawn = copying) (session : Session)
    {invocation : Invocation} (accepted : invocation.refusal? = none) (size : Int) :
    RunsAs toolbox session (.external invocation false) (Pump.segment size) where
  accepted := accepted
  same {machine input output status finished} ends ran := by
    obtain ⟨whole, rfl⟩ := Pump.ends_ofList ends
    obtain rfl := Seq.ofList_injective whole
    simp only [runSegment, Handle.run, accepted, spawn, copying] at ran
    cases ran
    exact ⟨by simp [Sink.bytes], rfl⟩

def plainToolbox : Toolbox :=
  { commands := Builtin.table [], spawn := copying, pumpSize := 2 }

def givenInput : ShellState where
  machine :=
    { files := ⟨[(["bin"], .directory), (["bin", "cat"], .file [] true)]⟩, directory := "/" }
  session := { cwd := "/", environment := [("PATH", "/bin")] }
  streams := { stdin := .given ⟨[105, 110], false⟩ }

def threeSegments : List Segment :=
  [announcer.segment (Text.encodeText "x\n") 0, announcer.segment (Text.encodeText "hi\n") 0] ++
    [Pump.segment (-1)]

/-- The second command ends first and closes its input, so that the first one and the pumps
around it break off. -/
def earlyExit : List (Nat × Act) :=
  [(3, .move 0), (3, .move 0), (3, .move 0), (3, .move 0), (3, .closeInput), (3, .closeOutput),
    (1, .move 0), (2, .move 1), (2, .move 0), (2, .closeInput), (2, .closeOutput),
    (1, .move 0), (1, .closeInput), (1, .closeOutput),
    (0, .move 2), (0, .move 0), (0, .closeInput), (0, .closeOutput),
    (4, .move 2), (4, .move 0), (5, .move 1), (4, .move 0), (5, .move 0), (4, .move 1),
    (4, .move 0), (4, .move 0), (4, .move 0), (4, .closeInput), (4, .closeOutput),
    (5, .move 2), (5, .move 0), (5, .move 0), (5, .move 0), (5, .move 0), (5, .closeOutput),
    (6, .move 2), (6, .move 0), (6, .move 0), (6, .move 2), (6, .move 0), (6, .move 0),
    (6, .move 0)]

theorem earlyExit_completes :
    ((Chain.fresh [105, 110] (Pump.between 2 threeSegments)).run earlyExit).any Chain.complete =
      true := by
  rfl

theorem threeSegments_madeOf :
    MadeOf plainToolbox [["echo", "x"], ["echo", "hi"], ["cat"]] givenInput [105, 110]
      threeSegments where
  bounded := by decide
  given := ⟨_, rfl, rfl⟩
  commands := ⟨_, rfl, .cons (echo_runsAs _ _ _ ["x"]) <| .cons (echo_runsAs _ _ _ ["hi"]) <|
    .cons (copying_runsAs rfl _ (by decide +kernel) _) .nil⟩

end Pipeline

end CommandShell
