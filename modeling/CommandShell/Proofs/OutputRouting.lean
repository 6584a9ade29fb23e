import Mathlib.Data.List.Nodup
import Mathlib.Data.List.Pairwise
import CommandShell.FileTree.System
import CommandShell.Proofs.OpenedTargets
import CommandShell.Proofs.Running

/-! Where the output of a command goes. A stream that is redirected fills its file from the end of
what was there, one that is not redirected reaches the stream of the shell, and neither gets what
was written to the other. -/
namespace CommandShell

def writtenTo (stream : OutputStream) (writes : List (OutputStream × Bytes)) : Bytes :=
  (writes.filter (·.1 = stream)).flatMap (·.2)

theorem writtenTo_append (stream : OutputStream) (first second : List (OutputStream × Bytes)) :
    writtenTo stream (first ++ second) = writtenTo stream first ++ writtenTo stream second := by
  simp [writtenTo]

theorem writtenTo_single (stream target : OutputStream) (data : Bytes) :
    writtenTo stream [(target, data)] = if stream = target then data else [] := by
  by_cases same : stream = target <;> simp [writtenTo, same, eq_comm]

theorem overwrite_end (content data : Bytes) :
    overwrite content content.length data = content ++ data := by
  simp [overwrite]

namespace Sink

def places : Sink → List Location
  | .file target => target.places
  | .memory _ | .terminal _ | .broken | .closed => []

def content? (files : FileTree) : Sink → Option Bytes
  | .memory written => some (Sink.memory written).bytes
  | .terminal written => some (Sink.terminal written).bytes
  | .file (.regular location _ _) => some (files.contentAt location)
  | .file (.device _) | .broken | .closed => none

/-- The stream takes whatever is written to it; in a file it stands at the end. -/
def Ready (files : FileTree) : Sink → Prop
  | .memory _ | .terminal _ | .file (.device .null) => True
  | .file (.regular location offset append) => location ≠ [] ∧
    ∃ content executable, files.get? location = some (.file content executable) ∧
      (append = false → offset = content.length)
  | .file (.device .full) | .broken | .closed => False

theorem places_of_collects {sink : Sink} (collects : sink.collects = true) : sink.places = [] := by
  cases sink with
  | memory written | terminal written => rfl
  | file target | broken | closed => cases collects

theorem ready_of_collects {sink : Sink} (collects : sink.collects = true) (files : FileTree) :
    sink.Ready files ∧ sink.content? files = some sink.bytes := by
  cases sink with
  | memory written | terminal written => exact ⟨trivial, rfl⟩
  | file target | broken | closed => cases collects

theorem eq_file_of_places {sink : Sink} {location : Location} (places : sink.places = [location]) :
    ∃ offset append, sink = .file (.regular location offset append) := by
  cases sink with
  | memory written | terminal written | broken | closed => cases places
  | file target =>
    cases target with
    | device device => cases places
    | regular place offset append =>
      cases places
      exact ⟨offset, append, rfl⟩

theorem bytes_of_content? {sink : Sink} {files : FileTree} {content : Bytes}
    (places : sink.places = []) (holds : sink.content? files = some content) :
    sink.bytes = content := by
  cases sink with
  | memory written | terminal written => exact Option.some.inj holds
  | broken | closed => cases holds
  | file target =>
    cases target with
    | device device => cases holds
    | regular place offset append => cases places

namespace Ready

variable {files later : FileTree} {sink : Sink}

/-- What is written comes after all that was there. -/
theorem write (ready : sink.Ready files) (data : Bytes) :
    ∃ next after, sink.write data files = .ok (next, after) ∧ next.Ready after ∧
      next.places = sink.places ∧
      next.content? after = (sink.content? files).map (· ++ data) ∧
      FileTree.ChangedAt sink.places files after := by
  cases sink with
  | memory written | terminal written =>
    exact ⟨_, files, rfl, trivial, rfl, by simp [content?, bytes], .refl files⟩
  | broken | closed => exact ready.elim
  | file target =>
    cases target with
    | device device =>
      cases device with
      | null => exact ⟨_, files, rfl, trivial, rfl, rfl, .refl files⟩
      | full => exact ready.elim
    | regular location offset append =>
      obtain ⟨proper, content, executable, present, stands⟩ := ready
      -- A file that is not opened for appending is at its end all the same: nothing was in it.
      have joined : (if append then content ++ data else overwrite content offset data) =
          content ++ data := by
        cases append with
        | true => rfl
        | false => simp [stands rfl, overwrite_end]
      refine ⟨.file (.regular location (offset + data.length) append),
        files.set location (.file (content ++ data) executable), ?_, ⟨proper, ?_⟩, rfl, ?_,
        FileTree.changedAt_set proper _⟩
      · simp [Sink.write, OpenFile.write, present, joined]
      · refine ⟨content ++ data, executable, by simp [FileTree.get_set _ _ _ _ proper], ?_⟩
        intro overwrites
        simp [stands overwrites]
      · have before : files.contentAt location = content := by
          simp [FileTree.contentAt, present]
        simp [content?, FileTree.contentAt_set _ _ _ _ proper, before]

/-- What changes elsewhere does not reach the stream. -/
theorem kept (ready : sink.Ready files) {places : List Location}
    (changed : FileTree.ChangedAt places files later)
    (apart : ∀ location ∈ sink.places, location ∉ places) :
    sink.Ready later ∧ sink.content? later = sink.content? files := by
  cases sink with
  | memory written | terminal written => exact ⟨trivial, rfl⟩
  | broken | closed => exact ready.elim
  | file target =>
    cases target with
    | device device =>
      cases device with
      | null => exact ⟨trivial, rfl⟩
      | full => exact ready.elim
    | regular location offset append =>
      have outside := apart location (by simp [Sink.places, OpenFile.places])
      obtain ⟨proper, content, executable, present, stands⟩ := ready
      refine ⟨⟨proper, content, executable, changed.kept outside present, stands⟩, ?_⟩
      simp [content?, changed.contentAt outside]

end Ready

end Sink

namespace Frame

def Apart (frame : Frame) : Prop :=
  ∀ first second, first ≠ second →
    ∀ location ∈ (frame.sink first).places, location ∉ (frame.sink second).places

/-- `frame` is `start` after the writes: each stream holds what it held, and then its own part of
them. -/
structure Wrote (start : Frame) (writes : List (OutputStream × Bytes)) (frame : Frame) : Prop where
  ready : ∀ stream, (frame.sink stream).Ready frame.machine.files
  content : ∀ stream, (frame.sink stream).content? frame.machine.files =
    ((start.sink stream).content? start.machine.files).map (· ++ writtenTo stream writes)
  places : ∀ stream, (frame.sink stream).places = (start.sink stream).places
  changed : Machine.ChangedAt (start.out.places ++ start.err.places) start.machine frame.machine

theorem wrote_nothing {frame : Frame}
    (ready : ∀ stream, (frame.sink stream).Ready frame.machine.files) : Wrote frame [] frame where
  ready := ready
  content stream := by simp [writtenTo]
  places _ := rfl
  changed := (Machine.ChangedAt.refl frame.machine).mono (by simp)

section Write

variable (frame : Frame) (files : FileTree) (stream : OutputStream) (sink : Sink)

theorem sink_written (other : OutputStream) :
    (({ frame with machine := { frame.machine with files } }).setSink stream sink).sink other =
      if other = stream then sink else frame.sink other := by
  cases stream <;> cases other <;> rfl

theorem machine_written :
    (({ frame with machine := { frame.machine with files } }).setSink stream sink).machine =
      { frame.machine with files } := by
  cases stream <;> rfl

end Write

/-- A write reaches its own stream and leaves the other alone. -/
theorem wrote_one {frame : Frame}
    (ready : ∀ stream, (frame.sink stream).Ready frame.machine.files) (apart : frame.Apart)
    (stream : OutputStream) (data : Bytes) :
    ∃ next, frame.write stream data = .ok next ∧ Wrote frame [(stream, data)] next := by
  obtain ⟨sink, files, written, taken, places, content, changed⟩ := (ready stream).write data
  -- The other stream stands at other places, so that the write does not reach it.
  have others (other : OutputStream) (different : other ≠ stream) :=
    (ready other).kept changed (apart other stream different)
  refine ⟨_, by rw [Frame.write, written], ⟨fun other => ?_, fun other => ?_, fun other => ?_, ?_⟩⟩
  · rw [sink_written, machine_written]
    split
    · exact taken
    next different => exact (others other different).1
  · rw [sink_written, machine_written, writtenTo_single]
    by_cases same : other = stream
    · rw [if_pos same, if_pos same, content, same]
    · rw [if_neg same, if_neg same, (others other same).2]
      simp
  · rw [sink_written]
    split
    next same => rw [places, same]
    · rfl
  · have step : Machine.ChangedAt (frame.sink stream).places frame.machine
        { frame.machine with files } := ⟨rfl, rfl, rfl, changed⟩
    rw [machine_written]
    apply step.mono
    cases stream <;> simp [Frame.sink]

namespace Wrote

variable {start middle frame : Frame} {first second : List (OutputStream × Bytes)}

theorem apart (wrote : Wrote start first middle) (apart : start.Apart) : middle.Apart := by
  intro one other different location inside
  rw [wrote.places] at inside ⊢
  exact apart one other different location inside

theorem trans (early : Wrote start first middle) (late : Wrote middle second frame) :
    Wrote start (first ++ second) frame where
  ready := late.ready
  content stream := by
    rw [late.content, early.content, Option.map_map, writtenTo_append]
    congr 1
    funext content
    exact List.append_assoc content _ _
  places stream := (late.places stream).trans (early.places stream)
  changed := by
    have out : middle.out.places = start.out.places := early.places .out
    have err : middle.err.places = start.err.places := early.places .err
    have later := late.changed
    rw [out, err] at later
    exact (early.changed.trans later).mono (by simp)

theorem write (wrote : Wrote start first middle) (apart : start.Apart) (stream : OutputStream)
    (data : Bytes) :
    ∃ next, middle.write stream data = .ok next ∧
      Wrote start (first ++ [(stream, data)]) next := by
  obtain ⟨next, written, one⟩ := wrote_one wrote.ready (wrote.apart apart) stream data
  exact ⟨next, written, wrote.trans one⟩

theorem report (wrote : Wrote start first middle) (apart : start.Apart) (text : String) :
    Wrote start (first ++ [(.err, Text.encodeText text)]) (middle.report text) := by
  obtain ⟨next, written, wrote⟩ := wrote.write apart .err (Text.encodeText text)
  rw [Frame.report, written]
  exact wrote

end Wrote

end Frame

namespace CommandM

def putAll : List (OutputStream × Bytes) → CommandM Unit
  | [] => pure ()
  | (stream, data) :: rest => do
    put stream data
    putAll rest

theorem run_putAll {start frame : Frame} {done : List (OutputStream × Bytes)}
    (wrote : start.Wrote done frame) (apart : start.Apart)
    (writes : List (OutputStream × Bytes)) :
    ∃ next, (putAll writes).run frame = (.ok (), next) ∧ start.Wrote (done ++ writes) next := by
  induction writes generalizing frame done with
  | nil => exact ⟨frame, rfl, by simpa using wrote⟩
  | cons first rest ih =>
    obtain ⟨stream, data⟩ := first
    obtain ⟨middle, written, wrote⟩ := wrote.write apart stream data
    obtain ⟨next, ran, wrote⟩ := ih wrote
    refine ⟨next, ?_, by simpa using wrote⟩
    rw [putAll, run_bind, run_put, written]
    exact ran

end CommandM

/-- What a command does that only writes, and how it ends. -/
structure Performance where
  writes : List (OutputStream × Bytes)
  outcome : Except Fault (Option Int)
  uninterrupted : ∀ message, outcome ≠ .error (.interrupt message)

namespace Performance

def act (performance : Performance) : CommandM (Option Int) := do
  CommandM.putAll performance.writes
  match performance.outcome with
  | .ok status => pure status
  | .error fault => throw fault

def status (performance : Performance) : Int :=
  match performance.outcome with
  | .ok status => status.getD 0
  | .error (.brokenPipe _) => 141
  | .error (.shell e) => e.status
  | .error _ => 1

def complaint (performance : Performance) (name : String) : List (OutputStream × Bytes) :=
  match performance.outcome with
  | .ok _ | .error (.brokenPipe _) => []
  | .error (.shell e) => [(.err, Text.encodeText (e.message ++ "\n"))]
  | .error fault => [(.err, Text.encodeText (name ++ ": " ++ fault.message ++ "\n"))]

theorem run_act (performance : Performance) {start : Frame} (wrote : start.Wrote [] start)
    (apart : start.Apart) :
    ∃ next, performance.act.run start = (performance.outcome, next) ∧
      start.Wrote performance.writes next := by
  obtain ⟨next, ran, wrote⟩ := CommandM.run_putAll wrote apart performance.writes
  refine ⟨next, ?_, by simpa using wrote⟩
  rw [act, CommandM.run_bind, ran]
  cases performance.outcome <;> rfl

theorem runBuiltin_eq (performance : Performance) {command : Command} {arguments : List String}
    (performs : command arguments = performance.act) (name : String) {start : Frame}
    (wrote : start.Wrote [] start) (apart : start.Apart) :
    ∃ next, runBuiltin name command arguments start = (.ok performance.status, next) ∧
      start.Wrote (performance.writes ++ performance.complaint name) next := by
  obtain ⟨next, ran, wrote⟩ := performance.run_act wrote apart
  rw [runBuiltin, performs, ran, status, complaint]
  cases ended : performance.outcome with
  | ok status => exact ⟨next, rfl, by simpa using wrote⟩
  | error fault =>
    cases fault with
    | brokenPipe message => exact ⟨next, rfl, by simpa using wrote⟩
    | interrupt message => exact absurd ended (performance.uninterrupted message)
    | _ => exact ⟨_, rfl, wrote.report apart _⟩

end Performance

def Streams.sink (streams : Streams) : OutputStream → Sink
  | .out => streams.out
  | .err => streams.err

namespace Rerouting

def sink? (rerouting : Rerouting) : OutputStream → Option Sink
  | .out => rerouting.out
  | .err => rerouting.err

theorem sink?_set (rerouting : Rerouting) (stream other : OutputStream) (sink : Sink) :
    (rerouting.set stream sink).sink? other =
      if other = stream then some sink else rerouting.sink? other := by
  cases stream <;> cases other <;> rfl

theorem sink?_setAll_of_not_mem {redirections : List Redirection} {stream : OutputStream}
    (absent : stream ∉ redirections.map Redirection.stream) (rerouting : Rerouting)
    (files : List OpenFile) :
    (rerouting.setAll redirections files).sink? stream = rerouting.sink? stream := by
  induction redirections generalizing rerouting files with
  | nil => cases files <;> rfl
  | cons redirection rest ih =>
    rw [List.map_cons, List.mem_cons, not_or] at absent
    cases files with
    | nil => rfl
    | cons file files => rw [setAll, ih absent.2, sink?_set, if_neg absent.1]

/-- A stream that is redirected once goes to its file. -/
theorem sink?_setAll_of_mem {redirections : List Redirection} {redirection : Redirection}
    {file : OpenFile} {files : List OpenFile}
    (once : (redirections.map Redirection.stream).Nodup)
    (member : (redirection, file) ∈ redirections.zip files) (rerouting : Rerouting) :
    (rerouting.setAll redirections files).sink? redirection.stream = some (.file file) := by
  induction redirections generalizing rerouting files with
  | nil => cases member
  | cons first rest ih =>
    cases files with
    | nil => cases member
    | cons head files =>
      rw [List.map_cons, List.nodup_cons] at once
      rw [List.zip_cons_cons, List.mem_cons] at member
      rw [setAll]
      rcases member with here | there
      · cases here
        rw [sink?_setAll_of_not_mem once.1, sink?_set, if_pos rfl]
      · exact ih once.2 there _

end Rerouting

namespace ShellState

theorem frame_sink (state : ShellState) (rerouting : Rerouting) (stream : OutputStream) :
    (state.frame rerouting).sink stream =
      (rerouting.sink? stream).getD (state.streams.sink stream) := by
  cases stream <;> rfl

theorem after_sink (state : ShellState) (rerouting : Rerouting) (frame : Frame)
    (stream : OutputStream) :
    (state.after rerouting frame).streams.sink stream =
      if (rerouting.sink? stream).isSome then state.streams.sink stream else frame.sink stream := by
  cases stream <;> rfl

end ShellState

/-- The targets of a command are open, at different places; none is the device that takes nothing,
and each stream that is not redirected is collected. -/
structure Prepared (state : ShellState) (redirections : List Redirection) (files : List OpenFile)
    (reached : Machine) : Prop where
  opening : OpensInTurn state.session state.machine redirections files none reached
  once : (redirections.map Redirection.stream).Nodup
  distinct : (files.flatMap OpenFile.places).Nodup
  accepting : OpenFile.device .full ∉ files
  collected : ∀ stream, stream ∉ redirections.map Redirection.stream →
    (state.streams.sink stream).collects = true

/-- The writes went where they should. Each target has its earlier bytes, if they were to be kept,
and then those of its own stream; what was not redirected was collected by the shell. -/
structure Routed (state : ShellState) (redirections : List Redirection) (files : List OpenFile)
    (writes : List (OutputStream × Bytes)) (final : ShellState) : Prop where
  targets : ∀ redirection location offset append,
    (redirection, OpenFile.regular location offset append) ∈ redirections.zip files →
      ∃ executable, final.machine.files.get? location = some (.file
        ((if redirection.append then state.machine.files.contentAt location else []) ++
          writtenTo redirection.stream writes) executable)
  redirected : ∀ redirection ∈ redirections,
    final.streams.sink redirection.stream = state.streams.sink redirection.stream
  direct : ∀ stream, stream ∉ redirections.map Redirection.stream →
    (final.streams.sink stream).bytes =
      (state.streams.sink stream).bytes ++ writtenTo stream writes
  elsewhere : Machine.ChangedAt (files.flatMap OpenFile.places) state.machine final.machine

namespace Prepared

variable {state : ShellState} {redirections : List Redirection} {files : List OpenFile}
  {reached : Machine}

def frame (_ : Prepared state redirections files reached) : Frame :=
  ShellState.frame { state with machine := reached } (({} : Rerouting).setAll redirections files)

variable (prepared : Prepared state redirections files reached)

theorem sink_of_target {redirection : Redirection} {file : OpenFile}
    (member : (redirection, file) ∈ redirections.zip files) :
    prepared.frame.sink redirection.stream = .file file := by
  rw [frame, ShellState.frame_sink, Rerouting.sink?_setAll_of_mem prepared.once member]
  rfl

theorem sink_of_direct {stream : OutputStream}
    (absent : stream ∉ redirections.map Redirection.stream) :
    prepared.frame.sink stream = state.streams.sink stream := by
  rw [frame, ShellState.frame_sink, Rerouting.sink?_setAll_of_not_mem absent]
  cases stream <;> rfl

/-- Each stream goes to one of the files, or is collected. -/
theorem sink_cases (stream : OutputStream) :
    (∃ redirection file, redirection.stream = stream ∧
        (redirection, file) ∈ redirections.zip files ∧ prepared.frame.sink stream = .file file) ∨
      stream ∉ redirections.map Redirection.stream ∧
        prepared.frame.sink stream = state.streams.sink stream := by
  by_cases present : stream ∈ redirections.map Redirection.stream
  · obtain ⟨redirection, member, rfl⟩ := List.mem_map.mp present
    obtain ⟨file, paired⟩ := prepared.opening.exists_file member
    exact .inl ⟨redirection, file, rfl, paired, prepared.sink_of_target paired⟩
  · exact .inr ⟨present, prepared.sink_of_direct present⟩

theorem wrote_nothing : prepared.frame.Wrote [] prepared.frame := by
  apply Frame.wrote_nothing
  intro stream
  rcases prepared.sink_cases stream with ⟨redirection, file, rfl, paired, sink⟩ | ⟨absent, sink⟩
  · rw [sink]
    have member := (List.of_mem_zip paired).2
    cases file with
    | device device =>
      cases device with
      | null => trivial
      | full => exact absurd member prepared.accepting
    | regular location offset append =>
      obtain ⟨rfl, rfl, holds⟩ := prepared.opening.contents prepared.distinct paired
      obtain ⟨executable, content⟩ := holds.content
      refine ⟨holds.proper, _, executable, content, fun empties => ?_⟩
      simp [empties]
  · rw [sink]
    exact (Sink.ready_of_collects (prepared.collected stream absent) _).1

theorem places_subset (stream : OutputStream) :
    (prepared.frame.sink stream).places ⊆ files.flatMap OpenFile.places := by
  rcases prepared.sink_cases stream with ⟨redirection, file, rfl, paired, sink⟩ | ⟨absent, sink⟩
  · rw [sink]
    exact fun location inside => List.mem_flatMap.mpr ⟨file, (List.of_mem_zip paired).2, inside⟩
  · rw [sink, Sink.places_of_collects (prepared.collected stream absent)]
    exact List.nil_subset _

theorem files_apart (prepared : Prepared state redirections files reached)
    {first second : Redirection × OpenFile} (one : first ∈ redirections.zip files)
    (other : second ∈ redirections.zip files) (different : first ≠ second) :
    first.2.places.Disjoint second.2.places := by
  have distinct := prepared.distinct
  rw [← List.map_snd_zip (Nat.le_of_eq prepared.opening.length_eq), List.flatMap_map,
    List.nodup_flatMap] at distinct
  have symmetric : Std.Symm (Function.onFun List.Disjoint
      fun pair : Redirection × OpenFile => pair.2.places) := ⟨fun _ _ => List.disjoint_symm⟩
  exact distinct.2.forall one other different

theorem apart : prepared.frame.Apart := by
  intro first second different location inside again
  rcases prepared.sink_cases first with ⟨one, file, rfl, paired, sink⟩ | ⟨absent, sink⟩
  · rcases prepared.sink_cases second with
      ⟨two, other, rfl, pairedToo, sinkToo⟩ | ⟨absent, sinkToo⟩
    · rw [sink] at inside
      rw [sinkToo] at again
      have others : (one, file) ≠ (two, other) := by
        intro same
        cases same
        exact different rfl
      exact prepared.files_apart paired pairedToo others inside again
    · rw [sinkToo, Sink.places_of_collects (prepared.collected second absent)] at again
      cases again
  · rw [sink, Sink.places_of_collects (prepared.collected first absent)] at inside
    cases inside

section Routed

variable {writes : List (OutputStream × Bytes)} {left : Frame}

theorem target_holds (wrote : prepared.frame.Wrote writes left) {redirection : Redirection}
    {location : Location} {offset : Nat} {append : Bool}
    (member : (redirection, OpenFile.regular location offset append) ∈ redirections.zip files) :
    ∃ executable, left.machine.files.get? location = some (.file
      ((if redirection.append then state.machine.files.contentAt location else []) ++
        writtenTo redirection.stream writes) executable) := by
  obtain ⟨-, -, holds⟩ := prepared.opening.contents prepared.distinct member
  obtain ⟨executable, opened⟩ := holds.content
  have places := wrote.places redirection.stream
  have content := wrote.content redirection.stream
  have ready := wrote.ready redirection.stream
  rw [prepared.sink_of_target member] at places content
  obtain ⟨offset, append, sink⟩ := Sink.eq_file_of_places places
  rw [sink] at content ready
  obtain ⟨-, bytes, executable, present, -⟩ := ready
  have before : prepared.frame.machine.files.contentAt location =
      if redirection.append then state.machine.files.contentAt location else [] := by
    rw [FileTree.contentAt, show prepared.frame.machine = reached from rfl, opened]
  have after : left.machine.files.contentAt location = bytes := by
    rw [FileTree.contentAt, present]
  refine ⟨executable, ?_⟩
  simp only [Sink.content?, before, after, Option.map_some, Option.some.injEq] at content
  rw [present, content]

theorem direct_holds (wrote : prepared.frame.Wrote writes left) {stream : OutputStream}
    (absent : stream ∉ redirections.map Redirection.stream) :
    (left.sink stream).bytes = (state.streams.sink stream).bytes ++ writtenTo stream writes := by
  have collects := prepared.collected stream absent
  have places := wrote.places stream
  have content := wrote.content stream
  rw [prepared.sink_of_direct absent, Sink.places_of_collects collects] at places
  rw [prepared.sink_of_direct absent, (Sink.ready_of_collects collects _).2] at content
  exact Sink.bytes_of_content? places content

theorem routed (wrote : prepared.frame.Wrote writes left) :
    Routed state redirections files writes
      (ShellState.after { state with machine := reached }
        (({} : Rerouting).setAll redirections files) left) where
  targets _ _ _ _ member := prepared.target_holds wrote member
  redirected redirection member := by
    obtain ⟨file, paired⟩ := prepared.opening.exists_file member
    rw [ShellState.after_sink, Rerouting.sink?_setAll_of_mem prepared.once paired]
    rfl
  direct stream absent := by
    rw [ShellState.after_sink, Rerouting.sink?_setAll_of_not_mem absent]
    cases stream with
    | out => exact prepared.direct_holds wrote absent
    | err => exact prepared.direct_holds wrote absent
  elsewhere := by
    refine (prepared.opening.changed.trans wrote.changed).mono ?_
    have out := prepared.places_subset .out
    have err := prepared.places_subset .err
    simp only [List.append_subset]
    exact ⟨fun _ inside => inside, out, err⟩

end Routed

/-- What runs in the frame of the command ends with the same status, and its writes are routed. -/
theorem runCommand_routed {toolbox : Toolbox} {words : List String} {status : Int}
    {writes : List (OutputStream × Bytes)} {left : Frame}
    (ran : runWords toolbox state.streams.stdin words prepared.frame = (.ok status, left))
    (wrote : prepared.frame.Wrote writes left) :
    ∃ final, runCommand toolbox words redirections state = (.ok status, final) ∧
      Routed state redirections files writes final := by
  refine ⟨_, ?_, prepared.routed wrote⟩
  have opened := prepared.opening.openRedirections_eq {}
  rw [frame] at ran
  rw [runCommand_opened opened, ran]

end Prepared

def failingReport : Performance where
  writes := [(.out, Text.encodeText "one"), (.err, Text.encodeText "two "),
    (.out, Text.encodeText "three")]
  outcome := .error (.shell (.failure "report: failed"))
  uninterrupted _ := by simp

def reportingShell : ShellState where
  machine := {
    files := FileTree.system.set ["tmp", "errors"] (.file (Text.encodeText "old ") false)
    directory := "/tmp" }
  session := { cwd := "/tmp" }
  streams := { stdin := .terminal [] }

def reportTargets : List Redirection :=
  [⟨"log", .out, false⟩, ⟨"errors", .err, true⟩]

def reportFiles : List OpenFile :=
  [.regular ["tmp", "log"] 0 false, .regular ["tmp", "errors"] 0 true]

def reportToolbox (commands : CommandTable) : Toolbox where
  commands := commands
  spawn _ _ := .error .noEntry

end CommandShell
