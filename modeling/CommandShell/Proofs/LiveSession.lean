import CommandShell.Proofs.FileTree
import CommandShell.Proofs.Running

/-! Which lines reach the live session: `cd`, `exit` and the exchange of history files, each
alone on its line. Everything else leaves it as it was. -/
namespace CommandShell

theorem Environment.get?_set (environment : Environment) (name value other : String) :
    (environment.set name value).get? other =
      if other = name then some value else environment.get? other := by
  induction environment with
  | nil => simp only [Environment.set, Environment.get?, lookup_cons_if]
  | cons entry rest ih =>
    obtain ⟨key, old⟩ := entry
    simp only [Environment.get?, Environment.set] at ih ⊢
    by_cases same : key = name
    · subst same
      rw [if_pos rfl, lookup_cons_if, lookup_cons_if]
      split <;> rfl
    · rw [if_neg same, lookup_cons_if, lookup_cons_if, ih]
      by_cases here : other = key
      · have apart : other ≠ name := fun named => same (here.symm.trans named)
        rw [if_pos here, if_pos here, if_neg apart]
      · rw [if_neg here, if_neg here]

namespace SessionChange

variable {session next : Session} {words : List String} {status : Except Fault Int}

theorem directory (change : SessionChange session words status next)
    (changed : next.cwd ≠ session.cwd ∨
      next.environment.get? "PWD" ≠ session.environment.get? "PWD") :
    words.head? = some "cd" := by
  cases change with
  | kept | stopped | transferred => simp [Session.stop] at changed
  | moved => rfl

theorem exit (change : SessionChange session words status next)
    (changed : next.running ≠ session.running ∨ next.exitCode ≠ session.exitCode) :
    words.head? = some "exit" := by
  cases change with
  | kept | moved | transferred => simp at changed
  | stopped => rfl

theorem history (change : SessionChange session words status next)
    (changed : next.history ≠ session.history) :
    ∃ flag arguments, words = "history" :: flag :: arguments ∧
      (Builtin.historyTransfer? flag).isSome = true := by
  cases change with
  | kept | moved | stopped => exact absurd rfl changed
  | transferred asked arguments => exact ⟨_, arguments, rfl, asked⟩

theorem environment (change : SessionChange session words status next) {name : String}
    (other : name ≠ "PWD") : next.environment.get? name = session.environment.get? name := by
  cases change with
  | kept | stopped | transferred => rfl
  | moved _ cwd => rw [Environment.get?_set, if_neg other]

theorem cd (change : SessionChange session words status next)
    (named : words.head? = some "cd") :
    (status = .ok 0 → next.environment.get? "PWD" = some next.cwd) ∧
      (status ≠ .ok 0 → next = session) := by
  cases change with
  | kept failed => exact ⟨fun success => absurd success (failed named), fun _ => rfl⟩
  | stopped | transferred => simp at named
  | moved _ cwd =>
    exact ⟨fun _ => by rw [Environment.get?_set, if_pos rfl], fun failed => absurd rfl failed⟩

end SessionChange

theorem openRedirections_shell {session : Session} {machine : Machine} {rerouting : Rerouting}
    {redirections : List Redirection} {error : ShellError}
    (failed : (openRedirections session machine rerouting redirections).1 = .error (.shell error)) :
    error.status = 1 := by
  induction redirections generalizing machine rerouting with
  | nil => cases failed
  | cons redirection rest ih =>
    rw [openRedirections] at failed
    cases opened : openRedirection session machine redirection with
    | mk result next =>
      rw [opened] at failed
      cases result with
      | ok sink => exact ih failed
      | error refusal =>
        cases failed
        rw [openRedirection] at opened
        split at opened
        · rename_i fault _ refused
          cases fault with
          | system e => cases opened; rfl
          | shell inner =>
            -- Opening a file is refused by the machine, or never gets there.
            exfalso
            have refused := congrArg Prod.fst refused
            by_cases nul : machine.seesNul (session.resolve machine redirection.path) = true
            · rw [Machine.openBelow_nul nul] at refused
              cases refused
            · obtain ⟨e, wrong⟩ := Machine.openBelow_clean (Bool.eq_false_iff.mpr nul) refused
              cases wrong
          | _ => cases opened
        · cases opened

theorem runWords_shell {toolbox : Toolbox} {stdin : Stdin} {words : List String} {frame : Frame}
    (error : ShellError) : (runWords toolbox stdin words frame).1 ≠ .error (.shell error) := by
  intro failed
  cases words with
  | nil => cases failed
  | cons name arguments =>
    cases refusal : programRefusal? toolbox frame.machine frame.session (name :: arguments) with
    | none =>
      have contained : Contained (runWords toolbox stdin (name :: arguments) frame).1 :=
        runWords_contained (by simp) refusal
      rw [failed] at contained
      exact contained
    | some fault =>
      rw [runWords_refused refusal] at failed
      cases failed
      rw [programRefusal?] at refusal
      split at refusal
      · rw [Invocation.refusal?] at refusal
        split at refusal
        · cases refusal
        · split at refusal <;> cases refusal
      · cases refusal
      · cases refusal

/-- An error of the shell itself comes before the command runs, and is no success. -/
theorem runCommand_shell {toolbox : Toolbox} {words : List String}
    {redirections : List Redirection} {state : ShellState} {error : ShellError}
    (failed : (runCommand toolbox words redirections state).1 = .error (.shell error)) :
    error.status = 1 ∧
      (runCommand toolbox words redirections state).2.session = state.session := by
  cases opened : openRedirections state.session state.machine {} redirections with
  | mk result machine =>
    cases result with
    | error fault =>
      rw [runCommand_unopened opened] at failed ⊢
      cases failed
      exact ⟨openRedirections_shell (congrArg Prod.fst opened), rfl⟩
    | ok rerouting =>
      rw [runCommand_opened opened] at failed
      exact absurd failed (runWords_shell error)

section Lines

variable {toolbox : Toolbox} {text : String}

theorem runLine_alone (standard : toolbox.commands = Builtin.table [])
    (calm : ∀ line state, toolbox.interruption? line state = none) {words : List String}
    {redirections : List Redirection}
    (parsed : CommandLine.parse text = .ok ⟨[words], redirections⟩) (state : ShellState) :
    SessionChange state.session words (runLine toolbox text state).1
      (runLine toolbox text state).2.session := by
  have ran : runText toolbox text state = runCommand toolbox words redirections state := by
    simp only [runText, parsed, runInterruptibly, calm, runParsed]
  have change := runCommand_change standard words redirections state
  rw [runLine, ran]
  split
  case h_1 error next failed =>
    obtain ⟨one, kept⟩ := runCommand_shell (congrArg Prod.fst failed)
    rw [failed] at kept
    have same : (next.report (programName ++ ": " ++ error.message)).session = state.session :=
      (ShellState.deliver_session _ _ _).trans kept
    rw [same]
    refine .kept fun _ => ?_
    simp [one]
  case h_2 => exact change

theorem runLine_apart (calm : ∀ line state, toolbox.interruption? line state = none)
    (apart : ∀ words redirections, CommandLine.parse text ≠ .ok ⟨[words], redirections⟩)
    (state : ShellState) : (runLine toolbox text state).2.session = state.session := by
  have ran : (runText toolbox text state).2.session = state.session := by
    rw [runText]
    split
    case h_1 => rfl
    case h_2 line parsed =>
      simp only [runInterruptibly, calm]
      obtain ⟨_ | ⟨words, _ | ⟨second, rest⟩⟩, redirections⟩ := line
      · rfl
      · exact absurd parsed (apart words redirections)
      · exact runPipeline_session toolbox _ state
  rw [runLine]
  split
  case h_1 reported =>
    rw [reported] at ran
    exact (ShellState.deliver_session _ _ _).trans ran
  case h_2 => exact ran

def RunsAlone (text : String) (words : List String) : Prop :=
  ∃ redirections, CommandLine.parse text = .ok ⟨[words], redirections⟩

/-- Every line changes the session as a command alone on it may, or not at all. -/
theorem runLine_session (standard : toolbox.commands = Builtin.table [])
    (calm : ∀ line state, toolbox.interruption? line state = none) (text : String)
    (state : ShellState) :
    (∃ words, RunsAlone text words ∧
      SessionChange state.session words (runLine toolbox text state).1
        (runLine toolbox text state).2.session) ∨
    (∀ words, ¬ RunsAlone text words) ∧
      (runLine toolbox text state).2.session = state.session := by
  by_cases alone : ∃ words, RunsAlone text words
  · obtain ⟨words, redirections, parsed⟩ := alone
    exact .inl ⟨words, ⟨redirections, parsed⟩, runLine_alone standard calm parsed state⟩
  · refine .inr ⟨fun words runs => alone ⟨words, runs⟩, ?_⟩
    exact runLine_apart calm (fun words redirections parsed => alone ⟨words, redirections, parsed⟩)
      state

end Lines

inductive Detached (toolbox : Toolbox) (text : String) (state : ShellState) : Prop
  | blank (blank : Text.isBlankText text = true)
  | wordless (redirections : List Redirection)
      (parsed : CommandLine.parse text = .ok ⟨[], redirections⟩)
  | unreadable (error : LineError) (refused : CommandLine.parse text = .error error)
  | unopened (words : List String) (redirections : List Redirection) (fault : Fault)
      (machine : Machine) (parsed : CommandLine.parse text = .ok ⟨[words], redirections⟩)
      (failed : openRedirections state.session state.machine {} redirections =
        (.error fault, machine))
  | foreign (name : String) (arguments : List String)
      (alone : RunsAlone text (name :: arguments)) (foreign : toolbox.isBuiltin name = false)
  | pipeline (first second : List String) (rest : List (List String))
      (redirections : List Redirection)
      (parsed : CommandLine.parse text = .ok ⟨first :: second :: rest, redirections⟩)

theorem Detached.session {toolbox : Toolbox} {text : String} {state : ShellState}
    (detached : Detached toolbox text state)
    (calm : ∀ line state, toolbox.interruption? line state = none) :
    (runLine toolbox text state).2.session = state.session := by
  cases detached with
  | blank blank =>
    refine runLine_apart calm (fun words redirections parsed => ?_) state
    rw [CommandLine.parse, scan_blank true blank] at parsed
    cases parsed
  | wordless _ parsed | unreadable _ parsed | pipeline _ _ _ _ parsed =>
    refine runLine_apart calm (fun words redirections alone => ?_) state
    rw [parsed] at alone
    cases alone
  | unopened words redirections fault machine parsed failed =>
    simp only [runLine, runText, parsed, runInterruptibly, calm, runParsed,
      runCommand_unopened failed]
    cases fault with
    | shell error => exact ShellState.deliver_session _ _ _
    | _ => rfl
  | foreign name arguments alone foreign =>
    obtain ⟨redirections, parsed⟩ := alone
    have missing : toolbox.commands.lookup name = none := by
      simpa [Toolbox.isBuiltin] using foreign
    have ran : (runCommand toolbox (name :: arguments) redirections state).2.session =
        state.session := by
      cases opened : openRedirections state.session state.machine {} redirections with
      | mk result machine =>
        cases result with
        | error fault => rw [runCommand_unopened opened]
        | ok rerouting =>
          rw [runCommand_opened opened]
          exact runWords_foreign missing arguments state.streams.stdin
            (ShellState.frame { state with machine } rerouting)
    simp only [runLine, runText, parsed, runInterruptibly, calm, runParsed]
    split
    case h_1 failed =>
      rw [failed] at ran
      exact (ShellState.deliver_session _ _ _).trans ran
    case h_2 => exact ran

/-- Whenever the segment runs, beside whatever session and on whatever machine and input it finds
then, that session is out of its reach: it works on a fork of `live`, or on the session itself
but leaves it as it got it. -/
def Handle.Spares (handle : Handle) (toolbox : Toolbox) (live : Session) : Prop :=
  ((∃ name command arguments, handle = .builtin name command arguments (some live.fork)) ∨
    (∃ name error, handle = .failing name error) ∨
    ∃ invocation inheritsInput, handle = .external invocation inheritsInput) ∧
  ∀ session machine input finished,
    Pipeline.runSegment toolbox session handle machine input = .ok finished →
      finished.session = session

theorem Handle.make_spares (toolbox : Toolbox) (machine : Machine) (live : Session)
    (inheritsInput : Bool) (name : String) (arguments : List String) :
    (make toolbox machine live inheritsInput name arguments).Spares toolbox live := by
  have isolated : (make toolbox machine live inheritsInput name arguments).Isolated :=
    isolated_make toolbox machine live inheritsInput name arguments
  refine ⟨?_, fun _ _ _ _ ran => Pipeline.runSegment_session isolated ran⟩
  rw [make]
  cases toolbox.dispatch machine live name with
  | builtin command => exact .inl ⟨name, command, arguments, rfl⟩
  | unknown => exact .inr (.inl ⟨name, _, rfl⟩)
  | program path => exact .inr (.inr ⟨_, _, rfl⟩)

theorem Pipeline.handles?_spare {toolbox : Toolbox} {state : ShellState} {inheritsInput : Bool}
    {segments : List (List String)} {handles : List Handle}
    (made : handles? toolbox state inheritsInput segments = some handles) :
    ∀ handle ∈ handles, handle.Spares toolbox state.session := by
  induction segments generalizing inheritsInput handles with
  | nil => cases made; simp
  | cons words rest ih =>
    cases words with
    | nil => cases made
    | cons name arguments =>
      rw [handles?, Option.map_eq_some_iff] at made
      obtain ⟨others, before, rfl⟩ := made
      intro handle member
      rcases List.mem_cons.mp member with rfl | later
      · exact Handle.make_spares toolbox state.machine state.session inheritsInput name arguments
      · exact ih before handle later

/-- Only `cd`, `exit` and an exchange of history files, alone on their line, touch the live
session; a pipeline does not, in whatever order its segments run. -/
theorem runLine_touches_session_only_by (spawn : Spawn) (pumpSize : Int) (text : String)
    (state : ShellState) :
    let toolbox : Toolbox := { commands := Builtin.table [], spawn, pumpSize }
    let status := (runLine toolbox text state).1
    let before := state.session
    let after := (runLine toolbox text state).2.session
    (after.cwd ≠ before.cwd ∨ after.environment.get? "PWD" ≠ before.environment.get? "PWD" →
      ∃ arguments, RunsAlone text ("cd" :: arguments)) ∧
    (after.running ≠ before.running ∨ after.exitCode ≠ before.exitCode →
      ∃ arguments, RunsAlone text ("exit" :: arguments)) ∧
    (after.history ≠ before.history →
      ∃ flag arguments, flag ∈ ["-r", "-w", "-a"] ∧
        RunsAlone text ("history" :: flag :: arguments)) ∧
    (∀ name, name ≠ "PWD" →
      after.environment.get? name = before.environment.get? name) ∧
    (∀ arguments, RunsAlone text ("cd" :: arguments) →
      (status = .ok 0 → after.environment.get? "PWD" = some after.cwd) ∧
        (status ≠ .ok 0 → after = before)) ∧
    (Detached toolbox text state → after = before) ∧
    ∀ segments redirections handles,
      CommandLine.parse text = .ok ⟨segments, redirections⟩ → 2 ≤ segments.length →
      Pipeline.handles? toolbox state (Pipeline.isTerminal state.streams.stdin) segments =
        some handles →
      ∀ handle ∈ handles, handle.Spares toolbox before := by
  intro toolbox status before after
  have standard : toolbox.commands = Builtin.table [] := rfl
  have calm : ∀ line state, toolbox.interruption? line state = none := fun _ _ => rfl
  have session := runLine_session standard calm text state
  refine ⟨?_, ?_, ?_, ?_, ?_, fun detached => detached.session calm, ?_⟩
  · intro changed
    rcases session with ⟨words, alone, change⟩ | ⟨-, same⟩
    · obtain ⟨arguments, rfl⟩ := List.head?_eq_some_iff.mp (change.directory changed)
      exact ⟨arguments, alone⟩
    · simp [after, before, same] at changed
  · intro changed
    rcases session with ⟨words, alone, change⟩ | ⟨-, same⟩
    · obtain ⟨arguments, rfl⟩ := List.head?_eq_some_iff.mp (change.exit changed)
      exact ⟨arguments, alone⟩
    · simp [after, before, same] at changed
  · intro changed
    rcases session with ⟨words, alone, change⟩ | ⟨-, same⟩
    · obtain ⟨flag, arguments, rfl, asked⟩ := change.history changed
      refine ⟨flag, arguments, ?_, alone⟩
      unfold Builtin.historyTransfer? at asked
      split at asked <;> simp_all
    · exact absurd (congrArg Session.history same) changed
  · intro name other
    rcases session with ⟨words, -, change⟩ | ⟨-, same⟩
    · exact change.environment other
    · simp only [after, before, same]
  · rintro arguments ⟨redirections, parsed⟩
    exact (runLine_alone standard calm parsed state).cd rfl
  · intro segments redirections handles _ _ made
    exact Pipeline.handles?_spare made

def atHome : ShellState where
  machine :=
    { files := ⟨[(["home"], .directory), (["home", "inner"], .directory)]⟩, directory := "/home" }
  session := { cwd := "/home", environment := [("HOME", "/home"), ("PWD", "/home")] }
  streams := { stdin := .terminal [] }

def bareToolbox : Toolbox :=
  { commands := Builtin.table [], spawn := fun _ _ => .error .noEntry }

/-- The same commands move the session, or leave it alone when they are piped. -/
theorem cd_touches_session_unless_piped :
    (runLine bareToolbox "cd inner" atHome).2.session.cwd = "/home/inner" ∧
    (runLine bareToolbox "cd inner" atHome).2.session.environment.get? "PWD" =
      some "/home/inner" ∧
    (runLine bareToolbox "cd inner | exit 3" atHome).2.session = atHome.session := by
  have moved : (runLine bareToolbox "cd inner" atHome).2.session.cwd = "/home/inner" := by
    decide +kernel
  have success : (runLine bareToolbox "cd inner" atHome).1 = .ok 0 := by
    have shown : (runLine bareToolbox "cd inner" atHome).1.toOption = some 0 := by decide +kernel
    cases status : (runLine bareToolbox "cd inner" atHome).1 with
    | error fault => simp [status, Except.toOption] at shown
    | ok value => simpa [status, Except.toOption] using shown
  have alone := runLine_touches_session_only_by bareToolbox.spawn bareToolbox.pumpSize
    "cd inner" atHome
  have piped := runLine_touches_session_only_by bareToolbox.spawn bareToolbox.pumpSize
    "cd inner | exit 3" atHome
  refine ⟨moved, ?_, ?_⟩
  · exact ((alone.2.2.2.2.1 ["inner"] ⟨[], rfl⟩).1 success).trans (congrArg some moved)
  · exact piped.2.2.2.2.2.1 (.pipeline ["cd", "inner"] ["exit", "3"] [] [] rfl)

end CommandShell
