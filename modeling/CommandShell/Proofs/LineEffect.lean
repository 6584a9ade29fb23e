import CommandShell.Proofs.HistoryFiles
import CommandShell.Proofs.LiveSession

/-! What a line does to the part of the session that the read loop works with: the lines of the
history, whether the session goes on, and its exit code. Only `history -r` brings lines in, and
only an `exit` that gets to run in the live session ends it. -/
namespace CommandShell

/-- The arguments of the `exit` that the line runs in the live session. One in a pipeline or with
a redirection that cannot be opened is none. -/
def CommandLine.exit? (line : CommandLine) (state : ShellState) : Option (List String) :=
  match line.segments with
  | [name :: arguments] =>
    if name = "exit" ∧
        (openRedirections state.session state.machine {} line.redirections).1.isOk = true then
      some arguments
    else none
  | _ => none

def readsHistory (text : String) : Bool :=
  match CommandLine.parse text with
  | .ok ⟨[words], _⟩ => ["history", "-r"].isPrefixOf words
  | _ => false

structure Call where
  line : String
  state : ShellState

/-- The arguments of the `exit` that ends the session with this call. An interrupt may come
before the `exit` does. -/
def Call.exit? (toolbox : Toolbox) (call : Call) : Option (List String) :=
  match CommandLine.parse call.line with
  | .error _ => none
  | .ok line =>
    match toolbox.interruption? line call.state with
    | some interruption => if interruption.late then line.exit? call.state else none
    | none => line.exit? call.state

/-- What the read loop finds in a session after a line, with the arguments of the `exit` that the
line has run: the history is the same, and an `exit` stops the session and gives its code. -/
structure Session.Follows (before : Session) (exit? : Option (List String)) (after : Session) :
    Prop where
  lines : after.history.lines = before.history.lines
  running : after.running = (before.running && exit?.isNone)
  exitCode : after.exitCode = (exit?.map Builtin.exitCode).getD before.exitCode

namespace Session.Follows

theorem refl (session : Session) : session.Follows none session :=
  ⟨rfl, by simp, rfl⟩

theorem trans {before between after : Session} {exit? : Option (List String)}
    (first : before.Follows exit? between) (second : between.Follows none after) :
    before.Follows exit? after :=
  ⟨second.lines.trans first.lines, by rw [second.running, first.running]; simp,
    second.exitCode.trans first.exitCode⟩

end Session.Follows

/-- An interrupt comes before the line has changed anything that the read loop looks at, or after
it has made all its changes to that. -/
def Toolbox.Atomic (toolbox : Toolbox) : Prop :=
  ∀ line state interruption, toolbox.interruption? line state = some interruption →
    let reached := if interruption.late then (runParsed toolbox line state).2 else state
    reached.session.Follows none (interruption.state toolbox line state).session

namespace Builtin

open CommandM

theorem transfer_lines {transfer : HistoryTransfer} {history next : History} {machine : Machine}
    {path : String} (outward : transfer ≠ .read)
    (done : (transfer.run history machine path).1 = .ok next) : next.lines = history.lines := by
  cases transfer with
  | read => exact absurd rfl outward
  | write =>
    cases saved : history.save machine path 0 with
    | mk result left =>
      simp only [HistoryTransfer.run, saved] at done
      subst done
      obtain ⟨rfl, -⟩ := History.save_ok saved
      rfl
  | append =>
    cases appended : history.appendTo machine path with
    | mk result left =>
      simp only [HistoryTransfer.run, appended] at done
      cases result with
      | error fault => cases done
      | ok new =>
        cases done
        obtain ⟨marked, -⟩ := History.appendTo_ok appended
        change new.2.lines = history.lines
        rw [marked]
        rfl

theorem transferHistory_lines {transfer : HistoryTransfer} (outward : transfer ≠ .read)
    (target : String) (frame : Frame) :
    ((transferHistory transfer target).run frame).2.session.history.lines =
      frame.session.history.lines := by
  rw [transferHistory_session]
  split
  case h_1 done => exact transfer_lines outward done
  case h_2 => rfl

theorem history_lines {arguments : List String} (unread : arguments.head? ≠ some "-r")
    (frame : Frame) :
    (runBuiltin "history" history arguments frame).2.session.history.lines =
      frame.session.history.lines := by
  have change := history_change arguments frame
  by_cases same : (runBuiltin "history" history arguments frame).2.session.history =
      frame.session.history
  · rw [same]
  obtain ⟨flag, rest, words, asked⟩ := change.history same
  obtain ⟨-, rfl⟩ := List.cons.inj words
  obtain ⟨transfer, found⟩ := Option.isSome_iff_exists.mp asked
  have outward : transfer ≠ .read := by
    rintro rfl
    unfold historyTransfer? at found
    split at found
    · exact unread rfl
    all_goals cases found
  rw [runBuiltin_session]
  cases rest with
  | nil =>
    simp only [history, found]
    exact congrArg (·.history.lines) (leaves_bind (leaves_emit _ _) (fun _ => leaves_pure _) frame)
  | cons target others =>
    simp only [history, found]
    exact transferHistory_lines outward target frame

end Builtin

section

variable {toolbox : Toolbox}

theorem runWords_follows (standard : toolbox.commands = Builtin.table []) {words : List String}
    (other : words.head? ≠ some "exit")
    (unread : ∀ arguments, words ≠ "history" :: "-r" :: arguments) (stdin : Stdin)
    (frame : Frame) :
    frame.session.Follows none (runWords toolbox stdin words frame).2.session := by
  have change := runWords_change standard words stdin frame
  have running : (runWords toolbox stdin words frame).2.session.running = frame.session.running :=
    Decidable.byContradiction fun changed => other (change.exit (.inl changed))
  have exitCode : (runWords toolbox stdin words frame).2.session.exitCode =
      frame.session.exitCode :=
    Decidable.byContradiction fun changed => other (change.exit (.inr changed))
  refine ⟨?_, by simpa using running, exitCode⟩
  by_cases asked : words.head? = some "history"
  · obtain ⟨arguments, rfl⟩ := List.head?_eq_some_iff.mp asked
    have found : toolbox.commands.lookup "history" = some Builtin.history := by
      rw [standard]
      rfl
    simp only [runWords, Toolbox.dispatch, found]
    refine Builtin.history_lines (fun reads => ?_) frame
    obtain ⟨rest, rfl⟩ := List.head?_eq_some_iff.mp reads
    exact unread rest rfl
  · have same : (runWords toolbox stdin words frame).2.session.history = frame.session.history := by
      refine Decidable.byContradiction fun changed => ?_
      obtain ⟨flag, arguments, rfl, -⟩ := change.history changed
      exact asked rfl
    rw [same]

theorem runWords_exit (standard : toolbox.commands = Builtin.table []) (arguments : List String)
    (stdin : Stdin) (frame : Frame) :
    (runWords toolbox stdin ("exit" :: arguments) frame).2.session =
      frame.session.stop (Builtin.exitCode arguments) := by
  have found : toolbox.commands.lookup "exit" = some Builtin.exit := by
    rw [standard]
    rfl
  simp only [runWords, Toolbox.dispatch, found]
  rfl

theorem runCommand_follows (standard : toolbox.commands = Builtin.table []) (words : List String)
    (redirections : List Redirection) (state : ShellState)
    (unread : ∀ arguments, words ≠ "history" :: "-r" :: arguments) :
    state.session.Follows (CommandLine.exit? ⟨[words], redirections⟩ state)
      (runCommand toolbox words redirections state).2.session := by
  cases opened : openRedirections state.session state.machine {} redirections with
  | mk result machine =>
    cases result with
    | error fault =>
      have unreached : CommandLine.exit? ⟨[words], redirections⟩ state = none := by
        cases words <;> simp [CommandLine.exit?, opened, Except.isOk, Except.toBool]
      rw [unreached, runCommand_unopened opened]
      exact .refl _
    | ok rerouting =>
      rw [runCommand_opened opened]
      by_cases exits : words.head? = some "exit"
      · obtain ⟨arguments, rfl⟩ := List.head?_eq_some_iff.mp exits
        have reached : CommandLine.exit? ⟨["exit" :: arguments], redirections⟩ state =
            some arguments := by
          simp [CommandLine.exit?, opened, Except.isOk, Except.toBool]
        rw [reached, ShellState.after, runWords_exit standard]
        exact ⟨rfl, by simp [Session.stop], rfl⟩
      · have none : CommandLine.exit? ⟨[words], redirections⟩ state = none := by
          cases words with
          | nil => rfl
          | cons name arguments => simp_all [CommandLine.exit?]
        rw [none]
        exact runWords_follows standard exits unread state.streams.stdin
          (ShellState.frame { state with machine } rerouting)

theorem runParsed_follows (standard : toolbox.commands = Builtin.table []) (line : CommandLine)
    (state : ShellState) (unread : ∀ arguments, line.segments ≠ ["history" :: "-r" :: arguments]) :
    state.session.Follows (line.exit? state) (runParsed toolbox line state).2.session := by
  obtain ⟨segments, redirections⟩ := line
  match segments with
  | [] => exact .refl _
  | [words] =>
    refine runCommand_follows standard words redirections state fun arguments same => ?_
    exact unread arguments (by rw [same])
  | first :: second :: rest =>
    have kept : (runParsed toolbox ⟨first :: second :: rest, redirections⟩ state).2.session =
        state.session := runPipeline_session toolbox _ state
    have apart : CommandLine.exit? ⟨first :: second :: rest, redirections⟩ state = none := by
      cases first <;> rfl
    rw [kept, apart]
    exact .refl _

/-- A line that runs keeps the history and stops the session just by its `exit`, also when it is
interrupted. -/
theorem runLine_follows (standard : toolbox.commands = Builtin.table []) (atomic : toolbox.Atomic)
    {text : String} {state : ShellState}
    (unread : readsHistory text = false) :
    state.session.Follows (Call.exit? toolbox ⟨text, state⟩)
      (runLine toolbox text state).2.session := by
  have ran : state.session.Follows (Call.exit? toolbox ⟨text, state⟩)
      (runText toolbox text state).2.session := by
    rw [runText, Call.exit?]
    cases parsed : CommandLine.parse text with
    | error e => exact .refl _
    | ok line =>
      have whole : state.session.Follows (line.exit? state)
          (runParsed toolbox line state).2.session := by
        refine runParsed_follows standard line state fun arguments single => ?_
        obtain ⟨segments, redirections⟩ := line
        subst single
        simp [readsHistory, parsed] at unread
      simp only [runInterruptibly]
      cases interrupted : toolbox.interruption? line state with
      | none => exact whole
      | some interruption =>
        have after := atomic line state interruption interrupted
        cases late : interruption.late with
        | true =>
          simp only [late, if_true] at after ⊢
          exact whole.trans after
        | false =>
          simp only [late, Bool.false_eq_true, if_false] at after ⊢
          exact after
  rw [runLine]
  split
  case h_1 reported =>
    rw [reported] at ran
    rw [ShellState.report, ShellState.deliver_session]
    exact ran
  case h_2 => exact ran

end

end CommandShell
