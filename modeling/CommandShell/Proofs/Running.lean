import CommandShell.Builtin.Standard
import CommandShell.Proofs.Escape

/-! What running a line can do to the live session, said once for all commands. Commands of a
pipeline never reach it, and only `exit` ends it. -/
namespace CommandShell

theorem Frame.write_session {frame next : Frame} {stream : OutputStream} {data : Bytes}
    (written : frame.write stream data = .ok next) : next.session = frame.session := by
  rw [Frame.write] at written
  split at written
  · cases written
    cases stream <;> rfl
  · cases written

theorem Frame.report_session (frame : Frame) (text : String) :
    (frame.report text).session = frame.session := by
  rw [Frame.report]
  split
  case h_1 written => exact Frame.write_session written
  case h_2 => rfl

theorem Sink.write_fault {sink : Sink} {data : Bytes} {files : FileTree} {fault : Fault}
    (failed : sink.write data files = .error fault) (error : ShellError) :
    fault ≠ .shell error := by
  rintro rfl
  cases sink with
  | memory | terminal | closed => cases failed
  | file target =>
    simp only [Sink.write] at failed
    split at failed <;> cases failed
  | broken =>
    simp only [Sink.write] at failed
    split at failed <;> cases failed

/-- All that a command alone on its line can do to the session, with the status it ends in. -/
inductive SessionChange (session : Session) : List String → Except Fault Int → Session → Prop
  | kept {words : List String} {status : Except Fault Int}
      (failed : words.head? = some "cd" → status ≠ .ok 0) :
      SessionChange session words status session
  | moved (arguments : List String) (cwd : String) :
      SessionChange session ("cd" :: arguments) (.ok 0)
        { session with cwd, environment := session.environment.set "PWD" cwd }
  | stopped (arguments : List String) (code : Int) :
      SessionChange session ("exit" :: arguments) (.ok code) (session.stop code)
  | transferred {flag : String} (asked : (Builtin.historyTransfer? flag).isSome = true)
      (arguments : List String) (status : Except Fault Int) (history : History) :
      SessionChange session ("history" :: flag :: arguments) status { session with history }

theorem SessionChange.running {session next : Session} {words : List String}
    {status : Except Fault Int} (change : SessionChange session words status next) :
    next.running = session.running ∨ words.head? = some "exit" := by
  cases change with
  | kept | moved | transferred => exact .inl rfl
  | stopped => exact .inr rfl

namespace CommandM

def Leaves (act : CommandM α) : Prop :=
  ∀ frame : Frame, (act.run frame).2.session = frame.session

theorem leaves_pure (value : α) : Leaves (pure value : CommandM α) := fun _ => rfl

theorem leaves_get : Leaves (get : CommandM Frame) := fun _ => rfl

theorem run_bind (act : CommandM α) (next : α → CommandM β) (frame : Frame) :
    (act >>= next).run frame =
      match act.run frame with
      | (.ok value, left) => (next value).run left
      | (.error fault, left) => (.error fault, left) := by
  change ExceptT.bindCont next (act.run frame).1 (act.run frame).2 = _
  rcases act.run frame with ⟨result, left⟩
  cases result <;> rfl

theorem run_get_bind (next : Frame → CommandM α) (frame : Frame) :
    (get >>= next : CommandM α).run frame = (next frame).run frame := rfl

theorem leaves_bind {act : CommandM α} {next : α → CommandM β} (first : Leaves act)
    (second : ∀ value, Leaves (next value)) : Leaves (act >>= next) := by
  intro frame
  have before := first frame
  rw [run_bind]
  rcases ran : act.run frame with ⟨result, left⟩
  rw [ran] at before
  cases result with
  | ok value => exact (second value left).trans before
  | error fault => exact before

def put (stream : OutputStream) (data : Bytes) : CommandM Unit := do
  match (← get).write stream data with
  | .ok frame => set frame
  | .error fault => throw fault

theorem run_put (stream : OutputStream) (data : Bytes) (frame : Frame) :
    (put stream data).run frame =
      match frame.write stream data with
      | .ok next => (.ok (), next)
      | .error fault => (.error fault, frame) := by
  rw [put, run_get_bind]
  cases frame.write stream data <;> rfl

theorem run_emit (stream : OutputStream) (text : String) (frame : Frame) :
    (emit stream text).run frame =
      match frame.write stream (Text.encodeText text) with
      | .ok next => (.ok (), next)
      | .error fault => (.error fault, frame) :=
  run_put stream (Text.encodeText text) frame

theorem leaves_emit (stream : OutputStream) (text : String) : Leaves (emit stream text) := by
  intro frame
  rw [run_emit]
  split
  case h_1 written => exact Frame.write_session written
  case h_2 => rfl

end CommandM

/-- What no report touches is after a command as the command itself left it. -/
theorem runBuiltin_view (view : Frame → α)
    (kept : ∀ frame text, view (Frame.report frame text) = view frame) (name : String)
    (command : Command) (arguments : List String) (frame : Frame) :
    view (runBuiltin name command arguments frame).2 = view ((command arguments).run frame).2 := by
  unfold runBuiltin
  split
  case h_1 ran => rw [ran]
  case h_2 ran => rw [ran]
  case h_3 ran =>
    rw [ran]
    exact kept _ _
  case h_4 ran => rw [ran]
  case h_5 ran =>
    rw [ran]
    exact kept _ _

theorem runBuiltin_session (name : String) (command : Command) (arguments : List String)
    (frame : Frame) :
    (runBuiltin name command arguments frame).2.session =
      ((command arguments).run frame).2.session :=
  runBuiltin_view Frame.session Frame.report_session name command arguments frame

namespace Builtin

open CommandM

theorem help_leaves (arguments : List String) : Leaves (help arguments) :=
  leaves_bind (leaves_emit _ _) fun _ => leaves_pure _

theorem echo_leaves (arguments : List String) : Leaves (echo arguments) :=
  leaves_bind (leaves_emit _ _) fun _ => leaves_pure _

theorem pwd_leaves (arguments : List String) : Leaves (pwd arguments) :=
  leaves_bind leaves_get fun _ => leaves_bind (leaves_emit _ _) fun _ => leaves_pure _

theorem typeOne_leaves (isBuiltin : String → Bool) (name : String) :
    Leaves (typeOne isBuiltin name) := by
  refine leaves_bind leaves_get fun frame => ?_
  split
  · exact leaves_bind (leaves_emit _ _) fun _ => leaves_pure _
  · split
    · exact leaves_bind (leaves_emit _ _) fun _ => leaves_pure _
    · exact leaves_bind (leaves_emit _ _) fun _ => leaves_pure _

theorem typeAll_leaves (isBuiltin : String → Bool) (names : List String) :
    Leaves (typeAll isBuiltin names) := by
  induction names with
  | nil => exact leaves_pure _
  | cons name names ih =>
    exact leaves_bind (typeOne_leaves isBuiltin name) fun _ =>
      leaves_bind ih fun _ => leaves_pure _

theorem type_leaves (isBuiltin : String → Bool) (arguments : List String) :
    Leaves (type isBuiltin arguments) := by
  unfold type
  split
  · exact leaves_bind (leaves_emit _ _) fun _ => leaves_pure _
  · exact leaves_bind (typeAll_leaves isBuiltin arguments) fun _ => leaves_pure _

theorem showHistory_leaves (count : Option Int) : Leaves (showHistory count) :=
  leaves_bind leaves_get fun _ => leaves_bind (leaves_emit _ _) fun _ => leaves_pure _

/-- A message that cannot be written costs the command its status, but not in favour of
success. -/
theorem runBuiltin_complaint (name text : String) (arguments : List String) (frame : Frame) :
    (runBuiltin name (fun _ => error text >>= fun _ => pure (some 1)) arguments frame).1 ≠
      .ok 0 := by
  have ran : (error text >>= fun _ => pure (some 1) : CommandM (Option Int)).run frame =
      match frame.write .err (Text.encodeText text) with
      | .ok next => (.ok (some 1), next)
      | .error fault => (.error fault, frame) := by
    rw [run_bind, error, run_emit]
    cases frame.write .err (Text.encodeText text) <;> rfl
  rw [runBuiltin, ran]
  cases written : frame.write .err (Text.encodeText text) with
  | ok next => simp
  | error fault =>
    have foreign (e : ShellError) : fault ≠ .shell e := by
      rw [Frame.write] at written
      split at written
      · cases written
      case h_2 refused =>
        cases written
        exact Sink.write_fault refused e
    cases fault with
    | shell e => exact absurd rfl (foreign e)
    | brokenPipe => simp [brokenPipeStatus]
    | _ => simp

theorem cd_found {arguments : List String} {frame : Frame} {path : String}
    (target : frame.session.resolve frame.machine (arguments.head?.getD "~") = path)
    (found : frame.machine.isDirectory path = true) :
    (cd arguments).run frame = (.ok (some 0), { frame with session := { frame.session with
      cwd := frame.machine.canonical path
      environment := frame.session.environment.set "PWD" (frame.machine.canonical path) } }) := by
  subst target
  rw [cd, run_bind]
  change (if frame.machine.isDirectory
    (frame.session.resolve frame.machine (arguments.head?.getD "~")) = true then _ else _ :
      CommandM (Option Int)).run frame = _
  rw [if_pos found]
  rfl

theorem cd_missing {arguments : List String} {frame : Frame}
    (missing : ¬ frame.machine.isDirectory
      (frame.session.resolve frame.machine (arguments.head?.getD "~")) = true) :
    (cd arguments).run frame = (error ("cd: " ++ arguments.head?.getD "~" ++
      ": No such file or directory\n") >>= fun _ => pure (some 1)).run frame := by
  rw [cd, run_bind]
  change (if frame.machine.isDirectory
    (frame.session.resolve frame.machine (arguments.head?.getD "~")) = true then _ else _ :
      CommandM (Option Int)).run frame = _
  rw [if_neg missing]

theorem cd_change (arguments : List String) (frame : Frame) :
    SessionChange frame.session ("cd" :: arguments) (runBuiltin "cd" cd arguments frame).1
      (runBuiltin "cd" cd arguments frame).2.session := by
  by_cases found : frame.machine.isDirectory
      (frame.session.resolve frame.machine (arguments.head?.getD "~")) = true
  · rw [runBuiltin, cd_found rfl found]
    exact .moved arguments _
  · have same := cd_missing found
    have kept : ((cd arguments).run frame).2.session = frame.session := by
      rw [same]
      exact leaves_bind (leaves_emit _ _) (fun _ => leaves_pure _) frame
    rw [runBuiltin_session, kept]
    refine .kept fun _ => ?_
    have failed := runBuiltin_complaint "cd"
      ("cd: " ++ arguments.head?.getD "~" ++ ": No such file or directory\n") arguments frame
    rw [runBuiltin, ← same] at failed
    rw [runBuiltin]
    exact failed

/-- The session after a transfer has the history that the transfer gives, or else its own. -/
theorem transferHistory_session (transfer : HistoryTransfer) (target : String) (frame : Frame) :
    ((transferHistory transfer target).run frame).2.session =
      match (transfer.run frame.session.history frame.machine
        (frame.session.resolve frame.machine target)).1 with
      | .ok history => { frame.session with history }
      | .error _ => frame.session := by
  rw [transferHistory, run_get_bind]
  cases transfer.run frame.session.history frame.machine
      (frame.session.resolve frame.machine target) with
  | mk result machine =>
    cases result with
    | ok history => rfl
    | error fault =>
      have complains (text : String) :
          ((error text >>= fun _ => pure (some 1) : CommandM (Option Int)).run
            { frame with machine }).2.session = frame.session :=
        leaves_bind (leaves_emit _ _) (fun _ => leaves_pure _) { frame with machine }
      cases fault with
      | shell e =>
        cases e with
        | historyFile path reason => exact complains _
        | _ => rfl
      | _ => rfl

theorem history_change (arguments : List String) (frame : Frame) :
    SessionChange frame.session ("history" :: arguments)
      (runBuiltin "history" history arguments frame).1
      (runBuiltin "history" history arguments frame).2.session := by
  rw [runBuiltin_session]
  have kept {arguments : List String} {status : Except Fault Int} {act : CommandM (Option Int)}
      (leaves : Leaves act) :
      SessionChange frame.session ("history" :: arguments) status (act.run frame).2.session := by
    rw [leaves frame]
    exact .kept (by simp)
  cases arguments with
  | nil => exact kept (showHistory_leaves none)
  | cons first rest =>
    cases asked : historyTransfer? first with
    | some transfer =>
      cases rest with
      | nil =>
        refine kept ?_
        simp only [history, asked]
        exact leaves_bind (leaves_emit _ _) fun _ => leaves_pure _
      | cons target others =>
        simp only [history, asked, transferHistory_session]
        split
        case h_1 log _ => exact .transferred (by rw [asked]; rfl) _ _ log
        case h_2 => exact .kept (by simp)
    | none =>
      refine kept ?_
      simp only [history, asked]
      split
      · exact showHistory_leaves _
      · exact leaves_bind (leaves_emit _ _) fun _ => leaves_pure _

theorem standard_change {isBuiltin : String → Bool} {name : String} {command : Command}
    (found : (standard isBuiltin).lookup name = some command) (arguments : List String)
    (frame : Frame) :
    SessionChange frame.session (name :: arguments) (runBuiltin name command arguments frame).1
      (runBuiltin name command arguments frame).2.session := by
  have kept {name : String} {command : Command} (leaves : Leaves (command arguments))
      (other : name ≠ "cd") : SessionChange frame.session (name :: arguments)
      (runBuiltin name command arguments frame).1
      (runBuiltin name command arguments frame).2.session := by
    rw [runBuiltin_session, leaves frame]
    exact .kept (by simp [other])
  obtain ⟨before, after, split, -⟩ := List.lookup_eq_some_iff.mp found
  have member : (name, command) ∈ standard isBuiltin := by rw [split]; simp
  simp only [standard, List.mem_cons, Prod.mk.injEq, List.not_mem_nil, or_false] at member
  rcases member with ⟨rfl, rfl⟩ | ⟨rfl, rfl⟩ | ⟨rfl, rfl⟩ | ⟨rfl, rfl⟩ | ⟨rfl, rfl⟩ | ⟨rfl, rfl⟩ |
    ⟨rfl, rfl⟩
  · exact cd_change arguments frame
  · exact kept (echo_leaves arguments) (by decide)
  · exact .stopped arguments (exitCode arguments)
  · exact kept (help_leaves arguments) (by decide)
  · exact history_change arguments frame
  · exact kept (pwd_leaves arguments) (by decide)
  · exact kept (type_leaves isBuiltin arguments) (by decide)

end Builtin

theorem runProgram_session (toolbox : Toolbox) (stdin : Stdin) (path name : String)
    (arguments : List String) (frame : Frame) :
    (runProgram toolbox stdin path name arguments frame).2.session = frame.session := by
  unfold runProgram
  dsimp only
  split
  · rfl
  · split
    · exact Frame.report_session _ _
    · rfl

/-- Words that stand for no built-in command leave the session alone. -/
theorem runWords_foreign {toolbox : Toolbox} {name : String}
    (foreign : toolbox.commands.lookup name = none) (arguments : List String) (stdin : Stdin)
    (frame : Frame) :
    (runWords toolbox stdin (name :: arguments) frame).2.session = frame.session := by
  simp only [runWords, Toolbox.dispatch, foreign]
  cases frame.session.which frame.machine name with
  | some path => exact runProgram_session toolbox stdin path name arguments frame
  | none => exact Frame.report_session _ _

theorem runWords_change {toolbox : Toolbox} (standard : toolbox.commands = Builtin.table [])
    (words : List String) (stdin : Stdin) (frame : Frame) :
    SessionChange frame.session words (runWords toolbox stdin words frame).1
      (runWords toolbox stdin words frame).2.session := by
  cases words with
  | nil => exact .kept (by simp)
  | cons name arguments =>
    cases found : toolbox.commands.lookup name with
    | some command =>
      simp only [runWords, Toolbox.dispatch, found]
      rw [standard, Builtin.table, List.append_nil] at found
      exact Builtin.standard_change found arguments frame
    | none =>
      rw [runWords_foreign found]
      refine .kept fun moves => ?_
      obtain rfl : name = "cd" := by simpa using moves
      rw [standard] at found
      cases found

theorem runCommand_change {toolbox : Toolbox} (standard : toolbox.commands = Builtin.table [])
    (words : List String) (redirections : List Redirection) (state : ShellState) :
    SessionChange state.session words (runCommand toolbox words redirections state).1
      (runCommand toolbox words redirections state).2.session := by
  cases opened : openRedirections state.session state.machine {} redirections with
  | mk result machine =>
    cases result with
    | error fault =>
      rw [runCommand_unopened opened]
      exact .kept fun _ => nofun
    | ok rerouting =>
      rw [runCommand_opened opened]
      exact runWords_change standard words state.streams.stdin
        (ShellState.frame { state with machine } rerouting)

theorem ShellState.deliver_session (state : ShellState) (stream : OutputStream) (data : Bytes) :
    (state.deliver stream data).session = state.session := by
  unfold deliver
  dsimp only
  split
  · rfl
  · rfl

def Handle.Isolated (handle : Handle) : Prop :=
  ∀ ⦃spawn live machine input out err finished⦄,
    handle.run spawn live machine input out err = .ok finished → finished.session = live

namespace Handle

theorem isolated_copy (name : String) (command : Command) (arguments : List String)
    (copy : Session) : (Handle.builtin name command arguments (some copy)).Isolated := by
  intro _ _ _ _ _ _ _ ran
  cases ran
  rfl

theorem isolated_external (invocation : Invocation) (inheritsInput : Bool) :
    (Handle.external invocation inheritsInput).Isolated := by
  intro _ _ _ _ _ _ _ ran
  simp only [run] at ran
  split at ran
  · cases ran
  · split at ran <;> cases ran
    rfl

/-- A command that only reports an error works on the live session, but does not touch it. -/
theorem isolated_failing (name : String) (error : ShellError) : (failing name error).Isolated := by
  intro _ _ _ _ _ _ _ ran
  cases ran
  exact (runBuiltin_session name (failingCommand error) [] _).trans
    (CommandM.leaves_bind (CommandM.leaves_emit _ _) (fun _ => CommandM.leaves_pure _) _)

theorem isolated_make (toolbox : Toolbox) (machine : Machine) (session : Session)
    (inheritsInput : Bool) (name : String) (arguments : List String) :
    (make toolbox machine session inheritsInput name arguments).Isolated := by
  rw [make]
  cases toolbox.dispatch machine session name with
  | builtin command => exact isolated_copy name command arguments session.fork
  | program path => exact isolated_external _ _
  | unknown => exact isolated_failing name _

end Handle

namespace Pipeline

variable {toolbox : Toolbox} {progress next : Progress}

theorem handles?_isolated {state : ShellState} {inheritsInput : Bool}
    {segments : List (List String)} {handles : List Handle}
    (made : handles? toolbox state inheritsInput segments = some handles) :
    ∀ handle ∈ handles, handle.Isolated := by
  induction segments generalizing inheritsInput handles with
  | nil => cases made; simp
  | cons words rest ih =>
    cases words with
    | nil => cases made
    | cons name arguments =>
      rw [handles?, Option.map_eq_some_iff] at made
      obtain ⟨others, before, rfl⟩ := made
      rw [List.forall_mem_cons]
      exact ⟨Handle.isolated_make toolbox state.machine state.session inheritsInput name arguments,
        ih before⟩

theorem runSegment_session {live : Session} {handle : Handle} {machine : Machine} {input : Bytes}
    {finished : Handle.Finished} (isolated : handle.Isolated)
    (ran : runSegment toolbox live handle machine input = .ok finished) :
    finished.session = live := by
  rw [runSegment] at ran
  split at ran
  case h_1 error _ => exact Handle.isolated_failing handle.name error ran
  case h_2 => exact isolated ran

theorem advance_session {handle : Handle} (isolated : handle.Isolated)
    (advanced : advance toolbox progress handle = .ok next) :
    next.state.session = progress.state.session := by
  simp only [advance] at advanced
  split at advanced
  · cases advanced
  case h_2 ran =>
    cases advanced
    exact (ShellState.deliver_session _ _ _).trans (runSegment_session isolated ran)

theorem advanceAll_session {handles : List Handle} (isolated : ∀ handle ∈ handles, handle.Isolated)
    (advanced : advanceAll toolbox progress handles = .ok next) :
    next.state.session = progress.state.session := by
  induction handles generalizing progress with
  | nil => cases advanced; rfl
  | cons handle rest ih =>
    rw [List.forall_mem_cons] at isolated
    rw [advanceAll] at advanced
    split at advanced
    · cases advanced
    case h_2 first => exact (ih isolated.2 advanced).trans (advance_session isolated.1 first)

end Pipeline

/-- A pipeline never touches the live session. -/
theorem runPipeline_session (toolbox : Toolbox) (segments : List (List String))
    (state : ShellState) : (runPipeline toolbox segments state).2.session = state.session := by
  unfold runPipeline
  split
  · rfl
  · rfl
  case h_3 made =>
    obtain ⟨first, others⟩ := List.forall_mem_cons.mp (Pipeline.handles?_isolated made)
    split
    · rfl
    · dsimp only
      split
      · rfl
      case h_2 progress advanced =>
        have kept := Pipeline.advance_session first advanced
        split
        · exact kept
        case h_2 last rest =>
          exact (ShellState.deliver_session _ _ _).trans
            ((Pipeline.advanceAll_session others rest).trans kept)

theorem runParsed_running {toolbox : Toolbox} (standard : toolbox.commands = Builtin.table [])
    (line : CommandLine) (state : ShellState) :
    (runParsed toolbox line state).2.session.running = state.session.running ∨
      line.isExit = true := by
  obtain ⟨segments, redirections⟩ := line
  match segments with
  | [] => exact .inl rfl
  | [words] =>
    refine (runCommand_change standard words redirections state).running.imp_right fun exits => ?_
    obtain ⟨rest, rfl⟩ := List.head?_eq_some_iff.mp exits
    rfl
  | first :: second :: rest =>
    exact .inl (congrArg Session.running (runPipeline_session toolbox _ state))

/-- An interrupt does not stop the session either, unless the line has. -/
theorem Interruption.state_running {toolbox : Toolbox}
    (standard : toolbox.commands = Builtin.table []) (interruption : Interruption)
    (line : CommandLine) (before : ShellState) :
    (interruption.state toolbox line before).session.running = before.session.running ∨
      line.isExit = true := by
  have whole := runParsed_running standard line before
  cases late : interruption.late with
  | true => simpa [Interruption.state, late] using whole
  | false => simp [Interruption.state, late]

/-- A line stops the session only by running `exit` in it. -/
theorem runLine_running {toolbox : Toolbox} (standard : toolbox.commands = Builtin.table [])
    (text : String) (state : ShellState) :
    (runLine toolbox text state).2.session.running = state.session.running ∨
      ∃ line, CommandLine.parse text = .ok line ∧ line.isExit = true := by
  have ran : (runText toolbox text state).2.session.running = state.session.running ∨
      ∃ line, CommandLine.parse text = .ok line ∧ line.isExit = true := by
    rw [runText]
    split
    · exact .inl rfl
    case h_2 line parsed =>
      rw [runInterruptibly]
      split
      case h_1 interruption _ =>
        exact (interruption.state_running standard line state).imp_right
          fun exits => ⟨line, parsed, exits⟩
      case h_2 =>
        exact (runParsed_running standard line state).imp_right fun exits => ⟨line, parsed, exits⟩
  rw [runLine]
  split
  case h_1 reported =>
    rw [reported] at ran
    exact ran.imp_left (congrArg Session.running (ShellState.deliver_session _ _ _)).trans
  case h_2 => exact ran

end CommandShell
