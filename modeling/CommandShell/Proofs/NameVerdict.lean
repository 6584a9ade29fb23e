import CommandShell.Proofs.HistoryFiles
import CommandShell.Proofs.ProgramStart

/-! What `type` says of a name against what becomes of the name when it is run, alone on its line
or as a part of a pipeline. Writing the answers never changes them, even when they go to a file
on the search path. -/
namespace CommandShell

def Node.shape : Node → Node
  | .file _ executable => .file [] executable
  | node => node

def Node.isFile : Node → Bool
  | .file _ _ | .program _ => true
  | _ => false

def Node.isExecutable : Node → Bool
  | .file _ executable => executable
  | .directory | .program _ => true
  | _ => false

namespace Machine

theorem isFile_eq (machine : Machine) (path : String) :
    machine.isFile path = (machine.find? path).any Node.isFile := by
  rw [isFile]
  rcases machine.find? path with _ | node
  · rfl
  · cases node <;> rfl

theorem isExecutable_eq (machine : Machine) (path : String) :
    machine.isExecutable path = (machine.find? path).any Node.isExecutable := by
  rw [isExecutable]
  rcases machine.find? path with _ | node
  · rfl
  · cases node <;> rfl

/-- The machines differ at most in the bytes of their files. -/
structure Resembles (first second : Machine) : Prop where
  environment : second.environment = first.environment
  account : second.accountHome = first.accountHome
  found : ∀ path, (second.find? path).map Node.shape = (first.find? path).map Node.shape

theorem Resembles.refl (machine : Machine) : machine.Resembles machine :=
  ⟨rfl, rfl, fun _ => rfl⟩

theorem resembles_set {machine : Machine} {place : Location} {old : Bytes} {executable : Bool}
    (held : machine.files.get? place = some (.file old executable)) (content : Bytes) :
    machine.Resembles
      { machine with files := machine.files.set place (.file content executable) } := by
  have file : machine.files.HoldsFile place := .inr ⟨old, executable, held⟩
  have alike := FileTree.alike_set file.leaf content executable
  refine ⟨rfl, rfl, fun path => ?_⟩
  rw [find?, find?]
  by_cases nul : Path.hasNul path = true
  · rw [if_pos nul, if_pos nul]
  rw [if_neg nul, if_neg nul]
  cases before : machine.lookup .reach path with
  | error e =>
    cases after : Machine.lookup { machine with
        files := machine.files.set place (.file content executable) } .reach path with
    | error e => rfl
    | ok reached =>
      obtain ⟨node, found⟩ := lookup_alike alike.symm after
      rw [before] at found
      cases found
  | ok reached =>
    obtain ⟨node, found⟩ := lookup_alike alike before
    have earlier := lookup_node before
    have later := lookup_node found
    rw [FileTree.get_set _ _ _ _ file.proper] at later
    rw [found]
    by_cases here : reached.location = place
    · simp_all [Node.shape]
    · simp_all

end Machine

theorem OpenFile.write_resembles {machine : Machine} {file next : OpenFile} {data : Bytes}
    {files : FileTree} (written : file.write data machine.files = .ok (next, files)) :
    machine.Resembles { machine with files } := by
  cases file with
  | device kind =>
    cases kind with
    | null =>
      cases written
      exact .refl machine
    | full =>
      simp only [OpenFile.write] at written
      split at written
      · cases written
        exact .refl machine
      · cases written
  | regular location offset append =>
    simp only [OpenFile.write] at written
    split at written
    next held =>
      cases written
      exact Machine.resembles_set held _
    · cases written
      exact .refl machine

theorem Sink.write_resembles {machine : Machine} {sink next : Sink} {data : Bytes}
    {files : FileTree} (written : sink.write data machine.files = .ok (next, files)) :
    machine.Resembles { machine with files } := by
  cases sink with
  | memory | terminal =>
    cases written
    exact .refl machine
  | closed => cases written
  | broken =>
    simp only [Sink.write] at written
    split at written
    · cases written
      exact .refl machine
    · cases written
  | file target =>
    simp only [Sink.write] at written
    split at written
    next stored =>
      cases written
      exact OpenFile.write_resembles stored
    · cases written

theorem Frame.write_resembles {frame next : Frame} {stream : OutputStream} {data : Bytes}
    (written : frame.write stream data = .ok next) : frame.machine.Resembles next.machine := by
  rw [Frame.write] at written
  split at written
  next stored =>
    cases written
    cases stream <;> exact Sink.write_resembles stored
  · cases written

namespace Machine

variable {first second : Machine}

theorem Resembles.view (alike : first.Resembles second) (view : Option Node → α)
    (blind : ∀ node, view (some node.shape) = view (some node)) (path : String) :
    view (second.find? path) = view (first.find? path) := by
  have shown (found : Option Node) : view (found.map Node.shape) = view found := by
    cases found with
    | none => rfl
    | some node => exact blind node
  rw [← shown, alike.found, shown]

theorem Resembles.isDirectory (alike : first.Resembles second) (path : String) :
    second.isDirectory path = first.isDirectory path :=
  alike.view (· == some .directory) (by rintro (_ | _) <;> rfl) path

theorem Resembles.isFile (alike : first.Resembles second) (path : String) :
    second.isFile path = first.isFile path := by
  rw [isFile_eq, isFile_eq]
  exact alike.view (Option.any Node.isFile) (by rintro (_ | _) <;> rfl) path

theorem Resembles.isExecutable (alike : first.Resembles second) (path : String) :
    second.isExecutable path = first.isExecutable path := by
  rw [isExecutable_eq, isExecutable_eq]
  exact alike.view (Option.any Node.isExecutable) (by rintro (_ | _) <;> rfl) path

/-- Programs are found by what files are, not by what they hold. -/
theorem Resembles.which (alike : first.Resembles second) (session : Session) (name : String) :
    session.which second name = session.which first name := by
  have home : session.home second = session.home first := by
    unfold Session.home Session.processHome
    rw [alike.environment, alike.account]
  have resolved : session.resolve second name = session.resolve first name := by
    unfold Session.resolve Session.expand
    rw [home]
  unfold Session.which
  simp only [resolved, alike.isFile, alike.isExecutable, alike.isDirectory]

end Machine

inductive Verdict where
  | builtin
  | program (path : String)
  | unknown
  deriving DecidableEq, Repr

def Verdict.line (name : String) : Verdict → OutputStream × String
  | .builtin => (.out, name ++ " is a shell builtin\n")
  | .program path => (.out, name ++ " is " ++ path ++ "\n")
  | .unknown => (.err, name ++ ": not found\n")

def verdictLines (verdict : String → Verdict) : List String → List (OutputStream × String)
  | [] => [(.err, "type: missing argument\n")]
  | names => names.map fun name => (verdict name).line name

def verdictStatus (verdict : String → Verdict) (names : List String) : Int :=
  if names = [] ∨ .unknown ∈ names.map verdict then 1 else 0

namespace Frame

def writeAll (frame : Frame) : List (OutputStream × String) → Except Fault Unit × Frame
  | [] => (.ok (), frame)
  | (stream, text) :: rest =>
    match frame.write stream (Text.encodeText text) with
    | .ok frame => frame.writeAll rest
    | .error fault => (.error fault, frame)

def sent (stream : OutputStream) (lines : List (OutputStream × String)) : List Bytes :=
  (lines.filter (·.1 = stream)).map fun line => Text.encodeText line.2

/-- Memory takes everything. -/
theorem writeAll_memory (frame : Frame) (lines : List (OutputStream × String))
    (out err : List Bytes) :
    { frame with out := .memory out, err := .memory err }.writeAll lines =
      (.ok (), { frame with out := .memory ((sent .out lines).reverse ++ out)
                            err := .memory ((sent .err lines).reverse ++ err) }) := by
  induction lines generalizing out err with
  | nil => rfl
  | cons line rest ih =>
    obtain ⟨stream, text⟩ := line
    cases stream with
    | out =>
      rw [writeAll, write]
      simp [sink, Sink.write, setSink, ih, sent]
    | err =>
      rw [writeAll, write]
      simp [sink, Sink.write, setSink, ih, sent]

end Frame

namespace Builtin

def verdict (isBuiltin : String → Bool) (session : Session) (machine : Machine) (name : String) :
    Verdict :=
  if isBuiltin name then .builtin
  else
    match session.which machine name with
    | some path => .program path
    | none => .unknown

theorem verdict_resembles {first second : Machine} (alike : first.Resembles second)
    (isBuiltin : String → Bool) (session : Session) :
    verdict isBuiltin session second = verdict isBuiltin session first := by
  funext name
  rw [verdict, verdict, alike.which]

theorem typeOne_run (isBuiltin : String → Bool) (name : String) (frame : Frame) :
    (typeOne isBuiltin name).run frame =
      let said := verdict isBuiltin frame.session frame.machine name
      match frame.write (said.line name).1 (Text.encodeText (said.line name).2) with
      | .ok next => (.ok (decide (said ≠ .unknown)), next)
      | .error fault => (.error fault, frame) := by
  have emitted (stream : OutputStream) (text : String) (found : Bool) :
      (CommandM.emit stream text >>= fun _ => pure found).run frame =
        match frame.write stream (Text.encodeText text) with
        | .ok next => (.ok found, next)
        | .error fault => (.error fault, frame) := by
    rw [CommandM.run_bind, CommandM.run_emit]
    cases frame.write stream (Text.encodeText text) <;> rfl
  rw [typeOne, CommandM.run_get_bind, verdict]
  split
  · exact emitted _ _ true
  · cases frame.session.which frame.machine name with
    | some path => exact emitted _ _ true
    | none => exact emitted _ _ false

/-- The verdicts are those on the machine as it was before the first of them was written. -/
theorem typeAll_run (isBuiltin : String → Bool) (names : List String) (frame : Frame) :
    (typeAll isBuiltin names).run frame =
      let verdict := verdict isBuiltin frame.session frame.machine
      let written := frame.writeAll (names.map fun name => (verdict name).line name)
      (written.1.map fun _ => decide (.unknown ∉ names.map verdict), written.2) := by
  induction names generalizing frame with
  | nil => rfl
  | cons name names ih =>
    rw [typeAll, CommandM.run_bind, typeOne_run]
    simp only [List.map_cons, Frame.writeAll]
    cases written : frame.write _ _ with
    | error fault => rfl
    | ok next =>
      have same : verdict isBuiltin next.session next.machine =
          verdict isBuiltin frame.session frame.machine := by
        rw [Frame.write_session written, verdict_resembles (Frame.write_resembles written)]
      have both (said : Verdict) (others : List Verdict) :
          (decide (said ≠ .unknown) && decide (.unknown ∉ others)) =
            decide (.unknown ∉ said :: others) := by
        simp [eq_comm]
      simp only [CommandM.run_bind, ih, same, ← both]
      cases (next.writeAll _).1 <;> rfl

theorem type_run (isBuiltin : String → Bool) (names : List String) (frame : Frame) :
    (type isBuiltin names).run frame =
      let verdict := verdict isBuiltin frame.session frame.machine
      let written := frame.writeAll (verdictLines verdict names)
      (written.1.map fun _ => some (verdictStatus verdict names), written.2) := by
  cases names with
  | nil =>
    simp only [type, List.isEmpty_nil, if_true, CommandM.run_bind, CommandM.error,
      CommandM.run_emit, verdictLines, Frame.writeAll]
    cases frame.write .err (Text.encodeText "type: missing argument\n") <;> rfl
  | cons name names =>
    have opened : type isBuiltin (name :: names) = (typeAll isBuiltin (name :: names) >>=
        fun found => pure (some (if found then 0 else 1))) := rfl
    have status (verdict : String → Verdict) :
        verdictStatus verdict (name :: names) =
          if decide (.unknown ∉ (name :: names).map verdict) then 0 else 1 := by
      by_cases known : .unknown ∈ (name :: names).map verdict
      · rw [verdictStatus, if_pos (.inr known), decide_eq_false (fun absent => absent known)]
        rfl
      · rw [verdictStatus, if_neg (by simpa using known), decide_eq_true known]
        rfl
    rw [opened, CommandM.run_bind, typeAll_run]
    simp only [status, verdictLines]
    cases (frame.writeAll _).1 <;> rfl

/-- The names that `type` takes for built in are those that are. -/
theorem table_lookup_isSome (extra : CommandTable) (name : String) :
    ((table extra).lookup name).isSome = decide (name ∈ standardNames ++ extra.names) := by
  have names : standardNames ++ extra.names = (table extra).map (·.1) := by
    simp [table, CommandTable.names, standardNames, standard]
  rw [Bool.eq_iff_iff, decide_eq_true_iff, names, List.lookup_isSome_iff]
  simp

end Builtin

namespace Toolbox

variable (toolbox : Toolbox) (machine : Machine) (session : Session) (name : String)

/-- How a line of the name and some arguments behaves in the live session, once all its
redirections are open and the machine is as given. -/
def RunsAs (conduct : Stdin → List String → Frame → Except Fault Int × Frame) : Prop :=
  ∀ (state : ShellState) (arguments : List String) (redirections : List Redirection)
      (rerouting : Rerouting),
    state.session = session →
    openRedirections session state.machine {} redirections = (.ok rerouting, machine) →
      let opened := { state with machine }
      let ran := conduct state.streams.stdin arguments (opened.frame rerouting)
      runCommand toolbox (name :: arguments) redirections state =
        (ran.1, opened.after rerouting ran.2)

def MakesHandle (handle : Bool → List String → Handle) : Prop :=
  ∀ inheritsInput arguments,
    Handle.make toolbox machine session inheritsInput name arguments =
      handle inheritsInput arguments

/-- The verdict is what becomes of the name, alone and in a pipeline. -/
structure Confirms (verdict : Verdict) : Prop where
  builtin : verdict = .builtin ↔ ∃ command, toolbox.commands.lookup name = some command ∧
    toolbox.RunsAs machine session name (fun _ => runBuiltin name command) ∧
    toolbox.MakesHandle machine session name
      (fun _ arguments => .builtin name command arguments (some session.fork))
  program : ∀ path, verdict = .program path ↔
    toolbox.RunsAs machine session name (runProgram toolbox · path name) ∧
    toolbox.MakesHandle machine session name
      (fun inheritsInput arguments =>
        .external (invocationFor session path (name :: arguments)) inheritsInput)
  unknown : verdict = .unknown ↔
    ∃ error : ShellError, error.message = name ++ ": command not found" ∧ error.status = 127 ∧
      toolbox.RunsAs machine session name
        (fun _ _ frame => (.ok error.status, frame.report (error.message ++ "\n"))) ∧
      toolbox.MakesHandle machine session name (fun _ _ => Handle.failing name error)

variable {toolbox machine session name}

/-- A line does what its first word stands for. -/
theorem runsAs_dispatch {conduct : Stdin → List String → Frame → Except Fault Int × Frame}
    (dispatched : ∀ stdin arguments frame, frame.machine = machine → frame.session = session →
      runWords toolbox stdin (name :: arguments) frame = conduct stdin arguments frame) :
    toolbox.RunsAs machine session name conduct := by
  rintro state arguments redirections rerouting rfl opened
  rw [runCommand_opened opened, dispatched _ _ _ rfl rfl]

theorem confirms_builtin {command : Command} (found : toolbox.commands.lookup name = some command) :
    toolbox.Confirms machine session name .builtin := by
  have dispatched (machine : Machine) (session : Session) :
      toolbox.dispatch machine session name = .builtin command := by
    rw [dispatch, found]
  have made : toolbox.MakesHandle machine session name
      (fun _ arguments => .builtin name command arguments (some session.fork)) :=
    fun _ _ => by rw [Handle.make, dispatched]
  refine ⟨⟨fun _ => ⟨command, found, runsAs_dispatch ?_, made⟩, fun _ => rfl⟩, ?_, ?_⟩
  · intro stdin arguments frame _ _
    simp only [runWords, dispatched]
  · intro path
    refine ⟨fun same => (by cases same), ?_⟩
    rintro ⟨-, other⟩
    cases (made false []).symm.trans (other false [])
  · refine ⟨fun same => (by cases same), ?_⟩
    rintro ⟨error, -, -, -, other⟩
    -- a failing handle drops the arguments
    cases (made false [""]).symm.trans (other false [""])

theorem confirms_program {path : String} (foreign : toolbox.commands.lookup name = none)
    (found : session.which machine name = some path) :
    toolbox.Confirms machine session name (.program path) := by
  have dispatched : toolbox.dispatch machine session name = .program path := by
    rw [dispatch, foreign]
    simp only [found]
  have made : toolbox.MakesHandle machine session name (fun inheritsInput arguments =>
      .external (invocationFor session path (name :: arguments)) inheritsInput) :=
    fun _ _ => by rw [Handle.make, dispatched]
  refine ⟨⟨fun same => (by cases same), ?_⟩, fun other => ⟨?_, ?_⟩,
    ⟨fun same => (by cases same), ?_⟩⟩
  · rintro ⟨command, listed, -⟩
    cases foreign.symm.trans listed
  · rintro ⟨rfl⟩
    refine ⟨runsAs_dispatch ?_, made⟩
    rintro stdin arguments frame rfl rfl
    simp only [runWords, dispatched]
  · rintro ⟨-, same⟩
    cases (made false []).symm.trans (same false [])
    rfl
  · rintro ⟨error, -, -, -, other⟩
    cases (made false []).symm.trans (other false [])

theorem confirms_unknown (foreign : toolbox.commands.lookup name = none)
    (missing : session.which machine name = none) :
    toolbox.Confirms machine session name .unknown := by
  have dispatched : toolbox.dispatch machine session name = .unknown := by
    rw [dispatch, foreign]
    simp only [missing]
  have made : toolbox.MakesHandle machine session name
      (fun _ _ => Handle.failing name (.commandNotFound name)) :=
    fun _ _ => by rw [Handle.make, dispatched]
  refine ⟨⟨fun same => (by cases same), ?_⟩, fun path => ⟨fun same => (by cases same), ?_⟩,
    ⟨fun _ => ⟨.commandNotFound name, rfl, rfl, runsAs_dispatch ?_, made⟩, fun _ => rfl⟩⟩
  · rintro ⟨command, listed, -⟩
    cases foreign.symm.trans listed
  · rintro ⟨-, other⟩
    cases (made false []).symm.trans (other false [])
  · rintro stdin arguments frame rfl rfl
    simp only [runWords, dispatched]

end Toolbox

/-- A name on the search path, the same file by its path, a directory and no name at all. -/
example :
    let frame := twoTools "bin"
    ["echo", "tool", "./bin/../bin/tool", "./sub", ""].map
        (Builtin.verdict (· ∈ Builtin.standardNames) frame.session frame.machine) =
      [.builtin, .program "bin/tool", .program "/w/bin/tool", .unknown, .unknown] := by
  decide +kernel

end CommandShell
