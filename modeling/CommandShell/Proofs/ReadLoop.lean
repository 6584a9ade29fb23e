import CommandShell.Proofs.Cleanup
import CommandShell.Proofs.Running
import CommandShell.Proofs.UnencodableLines
import CommandShell.Shell

/-! The read loop on plain input. It goes on from line to line until `exit` or the end of
the input, and what can end it otherwise is a text that cannot be handed to the machine. -/
namespace CommandShell.Shell

/-- The line that the next turn of the loop runs. A blank line is passed over. -/
def nextLine? (shell : Shell) : Option String :=
  match shell.input with
  | .plain (.line text :: _) =>
    let line := String.ofList (Text.dropLineEnd text.toList)
    if text = "" ∨ Text.isBlankText line = true then none else some line
  | _ => none

def atEnd (shell : Shell) : Bool :=
  match shell.input with
  | .plain [] => true
  | .plain (.line text :: _) => text = ""
  | _ => false

variable {toolbox : Toolbox} {empty : Sink} {prompt : String}

theorem emit_state (shell : Shell) (channel : Channel) (bytes : Bytes) :
    (shell.emit channel bytes).state = shell.state := by
  unfold emit
  split <;> rfl

theorem emit_input (shell : Shell) (channel : Channel) (bytes : Bytes) :
    (shell.emit channel bytes).input = shell.input := by
  unfold emit
  split <;> rfl

theorem emitText_state (shell : Shell) (channel : Channel) (text : String) :
    (shell.emitText channel text).state = shell.state :=
  shell.emit_state channel _

theorem emitText_input (shell : Shell) (channel : Channel) (text : String) :
    (shell.emitText channel text).input = shell.input :=
  shell.emit_input channel _

theorem collectOutput_session (shell : Shell) (empty : Sink) :
    (shell.collectOutput empty).session = shell.session := by
  simp [collectOutput, session, emit_state]

theorem collectOutput_input (shell : Shell) (empty : Sink) :
    (shell.collectOutput empty).input = shell.input := by
  simp [collectOutput, emit_input]

/-- All that one turn of the loop can do on plain input. -/
inductive Turn (toolbox : Toolbox) (shell next : Shell) : Except Fault Bool → Prop where
  | ended (final : shell.atEnd = true) (kept : next.session = shell.session) :
    Turn toolbox shell next (.ok false)
  | passed {event : PlainEvent} {rest : List PlainEvent}
    (before : shell.input = .plain (event :: rest)) (after : next.input = .plain rest)
    (nothing : shell.nextLine? = none) (kept : next.session = shell.session) :
    Turn toolbox shell next (.ok true)
  | ran {event : PlainEvent} {rest : List PlainEvent} {line : String} {status : Int}
    (before : shell.input = .plain (event :: rest)) (after : next.input = .plain rest)
    (reads : shell.nextLine? = some line)
    (result : (CommandShell.runLine toolbox line (shell.record line).state).1 = .ok status)
    (left : next.session =
      { (CommandShell.runLine toolbox line (shell.record line).state).2.session with
        lastStatus := status }) :
    Turn toolbox shell next (.ok true)
  | interrupted {event : PlainEvent} {rest : List PlainEvent} {line message : String}
    (before : shell.input = .plain (event :: rest)) (after : next.input = .plain rest)
    (reads : shell.nextLine? = some line)
    (result : (CommandShell.runLine toolbox line (shell.record line).state).1 =
      .error (.interrupt message))
    (left : next.session =
      { (CommandShell.runLine toolbox line (shell.record line).state).2.session with
        lastStatus := interruptedStatus }) :
    Turn toolbox shell next (.ok true)
  | escaped {line : String} {fault : Fault} (reads : shell.nextLine? = some line)
    (escape : escape? toolbox line (shell.record line).state = some fault) :
    Turn toolbox shell next (.error fault)

theorem step_plain {shell : Shell} {events : List PlainEvent}
    (plain : shell.input = .plain events) :
    shell.step toolbox empty prompt =
      ({ shell with input := .plain (Editor.readPlain events).2 }.emitText .prompt prompt).act
        toolbox empty (Editor.readPlain events).1 := by
  simp only [step, plain, Editor.refresh, Editor.readLine]

/-- How a line that runs on plain input leaves the shell. -/
theorem runLine_plain (toolbox : Toolbox) (empty : Sink) {shell : Shell}
    {events : List PlainEvent} (line : String) (plain : shell.input = .plain events) :
    (shell.runLine toolbox empty line).2.input = .plain events ∧
    match (CommandShell.runLine toolbox line shell.state).1 with
    | .ok status => (shell.runLine toolbox empty line).1 = .ok () ∧
      (shell.runLine toolbox empty line).2.session =
        { (CommandShell.runLine toolbox line shell.state).2.session with lastStatus := status }
    | .error (.interrupt _) => (shell.runLine toolbox empty line).1 = .ok () ∧
      (shell.runLine toolbox empty line).2.session =
        { (CommandShell.runLine toolbox line shell.state).2.session with
          lastStatus := interruptedStatus }
    | .error fault => (shell.runLine toolbox empty line).1 = .error fault := by
  have lent : shell.lend = shell.state := by simp [lend, plain]
  have taken (state : ShellState) : shell.takeBack state = { shell with state } := by
    simp [takeBack, plain]
  cases ran : CommandShell.runLine toolbox line shell.state with
  | mk result state =>
    have session : ({ shell with state }.collectOutput empty).session = state.session :=
      collectOutput_session _ _
    have input : ({ shell with state }.collectOutput empty).input = .plain events :=
      (collectOutput_input _ _).trans plain
    simp only [Shell.runLine, lent, ran, taken]
    cases result with
    | ok status => exact ⟨input, rfl, by rw [← session]; rfl⟩
    | error fault =>
      cases fault with
      | interrupt message =>
        refine ⟨(emitText_input _ _ _).trans input, rfl, ?_⟩
        rw [Shell.session, emitText_state, ← session]
        rfl
      | _ => exact ⟨input, rfl⟩

theorem record_state {shell other : Shell} (same : other.state = shell.state) (line : String) :
    (other.record line).state = (shell.record line).state := by
  simp only [record, setSession, session, same]

/-- Acting on a line that is not blank is a turn of the shell that read it. -/
theorem act_line {shell read : Shell} {event : PlainEvent} {rest : List PlainEvent} {line : String}
    (before : shell.input = .plain (event :: rest)) (reads : shell.nextLine? = some line)
    (input : read.input = .plain rest) (same : read.state = shell.state)
    (nonblank : Text.isBlankText line = false) :
    Turn toolbox shell (read.act toolbox empty (.line line)).2
      (read.act toolbox empty (.line line)).1 := by
  have kept : (read.record line).input = .plain rest := input
  have ran := runLine_plain toolbox empty line kept
  rw [record_state same line] at ran
  obtain ⟨after, left⟩ := ran
  simp only [act, nonblank, Bool.false_eq_true, if_false]
  generalize (read.record line).runLine toolbox empty line = outcome at after left
  obtain ⟨ended, next⟩ := outcome
  cases escape : escape? toolbox line (shell.record line).state with
  | some fault =>
    rw [runLine_escape escape] at left
    have failed : ended = .error fault := by
      rcases escape?_unpassable escape with rfl | rfl <;> exact left
    rw [failed]
    exact .escaped reads escape
  | none =>
    have contained := runLine_contained escape
    cases result : (CommandShell.runLine toolbox line (shell.record line).state).1 with
    | ok status =>
      rw [result] at left
      obtain ⟨rfl, session⟩ := left
      exact .ran before after reads result session
    | error fault =>
      rw [result] at left contained
      cases fault with
      | interrupt message =>
        obtain ⟨rfl, session⟩ := left
        exact .interrupted before after reads result session
      | _ => exact contained.elim

theorem step_turn (toolbox : Toolbox) (empty : Sink) (prompt : String) {shell : Shell}
    {events : List PlainEvent} (plain : shell.input = .plain events) :
    Turn toolbox shell (shell.step toolbox empty prompt).2
      (shell.step toolbox empty prompt).1 := by
  rw [step_plain plain]
  have state (rest : List PlainEvent) :
      ({ shell with input := .plain rest }.emitText .prompt prompt).state = shell.state :=
    emitText_state _ _ _
  have input (rest : List PlainEvent) :
      ({ shell with input := .plain rest }.emitText .prompt prompt).input = .plain rest :=
    emitText_input _ _ _
  match events with
  | [] => exact .ended (by simp [atEnd, plain]) (congrArg ShellState.session (state []))
  | .interrupt :: rest =>
    refine .passed plain ((emitText_input _ _ _).trans (input rest)) (by simp [nextLine?, plain]) ?_
    exact congrArg ShellState.session ((emitText_state _ _ _).trans (state rest))
  | .line text :: rest =>
    by_cases final : text = ""
    · simp only [Editor.readPlain, final, if_true]
      exact .ended (by simp [atEnd, plain, final]) (congrArg ShellState.session (state rest))
    · simp only [Editor.readPlain, final, if_false]
      cases blank : Text.isBlankText (String.ofList (Text.dropLineEnd text.toList)) with
      | true =>
        simp only [act, blank, if_true]
        exact .passed plain (input rest) (by simp [nextLine?, plain, blank])
          (congrArg ShellState.session (state rest))
      | false =>
        have reads : shell.nextLine? = some (String.ofList (Text.dropLineEnd text.toList)) := by
          simp [nextLine?, plain, blank, final]
        exact act_line plain reads (input rest) (state rest) blank

theorem turn_of_step {shell next : Shell} {events : List PlainEvent} {result : Except Fault Bool}
    (plain : shell.input = .plain events)
    (step : shell.step toolbox empty prompt = (result, next)) :
    Turn toolbox shell next result := by
  have turn := step_turn toolbox empty prompt plain
  rw [step] at turn
  exact turn

theorem Turn.goesOn {shell next : Shell} (turn : Turn toolbox shell next (.ok true)) :
    ∃ event rest, shell.input = .plain (event :: rest) ∧ next.input = .plain rest := by
  cases turn with
  | passed before after => exact ⟨_, _, before, after⟩
  | ran before after => exact ⟨_, _, before, after⟩
  | interrupted before after => exact ⟨_, _, before, after⟩

theorem Turn.takes {shell next : Shell} {events : List PlainEvent}
    (turn : Turn toolbox shell next (.ok true)) (plain : shell.input = .plain events) :
    ∃ event rest, events = event :: rest ∧ next.input = .plain rest := by
  obtain ⟨event, rest, before, after⟩ := turn.goesOn
  rw [plain] at before
  exact ⟨event, rest, LineInput.plain.inj before, after⟩

theorem nextLine?_of_atEnd {shell : Shell} (final : shell.atEnd = true) :
    shell.nextLine? = none := by
  unfold atEnd at final
  unfold nextLine?
  split at final
  case h_1 input => simp [input]
  case h_2 text rest input =>
    have nothing : text = "" := by simpa using final
    simp [input, nothing]
  case h_3 => cases final

/-- A line from which a fault gets out leaves nothing else for its turn to do. -/
theorem Turn.of_escape {shell next : Shell} {result : Except Fault Bool} {line : String}
    {fault : Fault} (turn : Turn toolbox shell next result) (reads : shell.nextLine? = some line)
    (escape : escape? toolbox line (shell.record line).state = some fault) :
    result = .error fault := by
  have failed := runLine_escape escape
  cases turn with
  | ended final =>
    rw [nextLine?_of_atEnd final] at reads
    cases reads
  | passed _ _ nothing =>
    rw [nothing] at reads
    cases reads
  | ran _ _ found status =>
    rw [found] at reads
    cases reads
    rw [status] at failed
    cases failed
  | interrupted _ _ found stopped =>
    rw [found] at reads
    cases reads
    rw [stopped] at failed
    cases failed
    rcases escape?_unpassable escape with shown | shown <;> cases shown
  | escaped found other =>
    rw [found] at reads
    cases reads
    rw [escape] at other
    cases other
    rfl

/-- The loop comes from one shell to another by turns that leave more to do. -/
inductive Reaches (toolbox : Toolbox) (empty : Sink) (prompt : String) : Shell → Shell → Prop where
  | refl (shell : Shell) : Reaches toolbox empty prompt shell shell
  | turn {shell next last : Shell} (running : shell.session.running = true)
    (step : shell.step toolbox empty prompt = (.ok true, next))
    (rest : Reaches toolbox empty prompt next last) : Reaches toolbox empty prompt shell last

inductive Ends (toolbox : Toolbox) (last : Shell) : Except Fault Unit × Shell → Prop where
  | stopped (exited : last.session.running = false) : Ends toolbox last (.ok (), last)
  | endOfInput {final : Shell} (finished : last.atEnd = true)
    (kept : final.session = last.session) : Ends toolbox last (.ok (), final)
  | escaped {final : Shell} {line : String} {fault : Fault}
    (running : last.session.running = true) (reads : last.nextLine? = some line)
    (escape : escape? toolbox line (last.record line).state = some fault) :
    Ends toolbox last (.error fault, final)

theorem Reaches.plain {shell last : Shell} {events : List PlainEvent}
    (reaches : Reaches toolbox empty prompt shell last) (plain : shell.input = .plain events) :
    ∃ rest, last.input = .plain rest := by
  induction reaches generalizing events with
  | refl shell => exact ⟨events, plain⟩
  | turn running step rest ih =>
    obtain ⟨event, left, -, after⟩ := (turn_of_step plain step).takes plain
    exact ih after

theorem loop_ends (toolbox : Toolbox) (empty : Sink) (prompt : String) {shell : Shell}
    {events : List PlainEvent} {fuel : Nat} (plain : shell.input = .plain events)
    (enough : events.length < fuel) :
    ∃ last, Reaches toolbox empty prompt shell last ∧
      Ends toolbox last (shell.loop toolbox empty prompt fuel) := by
  induction fuel generalizing shell events with
  | zero => exact absurd enough (Nat.not_lt_zero _)
  | succ fuel ih =>
    rw [loop]
    cases running : shell.session.running with
    | false => exact ⟨shell, .refl shell, .stopped running⟩
    | true =>
      cases step : shell.step toolbox empty prompt with
      | mk result next =>
        have turn := turn_of_step plain step
        match result with
        | .ok true =>
          obtain ⟨event, rest, rfl, after⟩ := turn.takes plain
          obtain ⟨last, reaches, ends⟩ := ih after (Nat.lt_of_succ_lt_succ enough)
          exact ⟨last, .turn running step reaches, ends⟩
        | .ok false =>
          cases turn with
          | ended finished kept => exact ⟨shell, .refl shell, .endOfInput finished kept⟩
        | .error fault =>
          cases turn with
          | escaped reads escape => exact ⟨shell, .refl shell, .escaped running reads escape⟩

theorem loop_escapes {shell last : Shell} {events : List PlainEvent} {fuel : Nat} {line : String}
    {fault : Fault} (reaches : Reaches toolbox empty prompt shell last)
    (plain : shell.input = .plain events) (enough : events.length < fuel)
    (running : last.session.running = true) (reads : last.nextLine? = some line)
    (escape : escape? toolbox line (last.record line).state = some fault) :
    ∃ final, shell.loop toolbox empty prompt fuel = (.error fault, final) := by
  induction reaches generalizing events fuel with
  | refl shell =>
    obtain ⟨fuel, rfl⟩ := Nat.exists_eq_succ_of_ne_zero (Nat.ne_zero_of_lt enough)
    cases step : shell.step toolbox empty prompt with
    | mk result final =>
      obtain rfl := (turn_of_step plain step).of_escape reads escape
      exact ⟨final, by simp [loop, running, step]⟩
  | turn going step rest ih =>
    obtain ⟨fuel, rfl⟩ := Nat.exists_eq_succ_of_ne_zero (Nat.ne_zero_of_lt enough)
    obtain ⟨event, left, rfl, after⟩ := (turn_of_step plain step).takes plain
    obtain ⟨final, ended⟩ := ih after (Nat.lt_of_succ_lt_succ enough) running reads escape
    exact ⟨final, by simp [loop, going, step, ended]⟩

theorem loadHistory_error {shell : Shell} {file : Option String} {fault : Fault}
    (failed : shell.loadHistory file = .error fault) :
    ∃ path, file = some path ∧ Path.hasNul path = true := by
  cases file with
  | none => cases failed
  | some path =>
    refine ⟨path, rfl, ?_⟩
    cases clean : Path.hasNul path with
    | true => rfl
    | false =>
      rw [loadHistory, History.loadAtStart] at failed
      cases loaded : shell.session.history.load shell.state.machine path with
      | ok history => simp [loaded] at failed
      | error refusal =>
        obtain ⟨error, rfl⟩ := History.load_clean clean loaded
        simp [loaded] at failed

theorem loadHistory_nul {shell : Shell} {path : String} (nul : Path.hasNul path = true) :
    shell.loadHistory (some path) = .error .nulByte := by
  simp [loadHistory, History.loadAtStart, History.load, Machine.readFile, nul, History.fileFault]

theorem takeHistory_input (shell : Shell) (action : String) (history : History)
    (warning? : Option ShellError) :
    (shell.takeHistory action history warning?).input = shell.input := by
  cases warning? with
  | none => rfl
  | some error => exact emitText_input _ _ _

theorem takeHistory_state (shell : Shell) (action : String) (history : History)
    (warning? : Option ShellError) :
    (shell.takeHistory action history warning?).state =
      { shell.state with session := { shell.session with history } } := by
  cases warning? with
  | none => rfl
  | some error => exact emitText_state _ _ _

theorem loadHistory_input {shell next : Shell} {file : Option String}
    (loaded : shell.loadHistory file = .ok next) : next.input = shell.input := by
  rw [loadHistory] at loaded
  split at loaded
  · cases loaded
    exact takeHistory_input _ _ _ _
  · cases loaded

theorem prepare_error_iff (shell : Shell) (settings : Settings) (file : Option String) :
    (∃ fault, (shell.prepare settings file).1 = .error fault) ↔
      (∃ fault, (Logging.setup settings shell.state.machine none none).1 = .error fault) ∨
        ∃ path, file = some path ∧ Path.hasNul path = true := by
  rw [prepare]
  cases Logging.setup settings shell.state.machine none none with
  | mk logging machine =>
    cases logging with
    | error fault => simp
    | ok logging =>
      simp only [reduceCtorEq, exists_false, false_or]
      constructor
      · rintro ⟨fault, failed⟩
        split at failed
        case h_1 refused => exact loadHistory_error refused
        case h_2 => cases failed
      · rintro ⟨path, rfl, nul⟩
        exact ⟨.nulByte, by simp [loadHistory_nul nul]⟩

theorem prepare_input (shell : Shell) (settings : Settings) (file : Option String) :
    (shell.prepare settings file).2.input = shell.input := by
  rw [prepare]
  dsimp only
  split
  · rfl
  · split
    · rfl
    case h_2 loaded =>
      have kept := loadHistory_input loaded
      exact kept

theorem saveAtEnd_clean (history : History) (machine : Machine) {file : Option String}
    (clean : ∀ path, file = some path → Path.hasNul path = false) (limit : Int) :
    ∃ next warning?, (history.saveAtEnd machine limit file).1 = .ok (next, warning?) := by
  cases file with
  | none => exact ⟨history, none, rfl⟩
  | some path =>
    rw [History.saveAtEnd]
    cases saved : history.save machine path limit with
    | mk result left =>
      cases result with
      | ok next => exact ⟨next, none, rfl⟩
      | error fault =>
        obtain ⟨error, rfl⟩ := History.save_clean (clean path rfl) (congrArg Prod.fst saved)
        exact ⟨history, some error, rfl⟩

theorem saveHistory_clean (shell : Shell) {file : Option String}
    (clean : ∀ path, file = some path → Path.hasNul path = false) (limit : Int) :
    ∃ next, shell.saveHistory limit file = (.ok (), next) ∧
      next.session.exitCode = shell.session.exitCode := by
  obtain ⟨history, warning?, saved⟩ :=
    saveAtEnd_clean shell.session.history shell.state.machine clean limit
  simp only [saveHistory, saved]
  exact ⟨_, rfl, congrArg (·.session.exitCode) (takeHistory_state _ _ _ _)⟩

/-- In the end the children decide, and then how the loop ended. -/
theorem finish_clean (shell : Shell) {file : Option String}
    (clean : ∀ path, file = some path → Path.hasNul path = false) (toolbox : Toolbox)
    (settings : Settings) (ended : Except Fault Unit) :
    (shell.finish toolbox settings file ended).1 =
        ((cleanUp cleanupTimeout toolbox.children).bind fun _ =>
          ended.map fun _ => shell.session.exitCode) ∧
      (shell.finish toolbox settings file ended).2.session.exitCode = shell.session.exitCode := by
  obtain ⟨next, saved, kept⟩ := shell.saveHistory_clean clean settings.historyLimit
  rw [finish, saved]
  cases cleanUp cleanupTimeout toolbox.children with
  | error fault => exact ⟨rfl, kept⟩
  | ok killed =>
    cases ended with
    | error fault => exact ⟨rfl, kept⟩
    | ok => exact ⟨congrArg Except.ok kept, kept⟩

/-- A turn that leaves more to do takes one event of the input. A line that it runs gives
its status, and stops the session only as `exit`. -/
structure Orderly (toolbox : Toolbox) (shell next : Shell) : Prop where
  consumes : ∃ event rest, shell.input = .plain (event :: rest) ∧ next.input = .plain rest
  passes : shell.nextLine? = none → next.session = shell.session
  status : ∀ line, shell.nextLine? = some line →
    (CommandShell.runLine toolbox line (shell.record line).state).1 =
        .ok next.session.lastStatus ∨
      (∃ message, (CommandShell.runLine toolbox line (shell.record line).state).1 =
        .error (.interrupt message)) ∧ next.session.lastStatus = 130
  running : next.session.running = shell.session.running ∨
    ∃ line command, shell.nextLine? = some line ∧ CommandLine.parse line = .ok command ∧
      command.isExit = true

theorem Turn.orderly {shell next : Shell} (standard : toolbox.commands = Builtin.table [])
    (turn : Turn toolbox shell next (.ok true)) : Orderly toolbox shell next := by
  have consumes := turn.goesOn
  have stops {line : String} {status : Int} (reads : shell.nextLine? = some line)
      (left : next.session =
        { (CommandShell.runLine toolbox line (shell.record line).state).2.session with
          lastStatus := status }) :
      next.session.running = shell.session.running ∨
        ∃ line command, shell.nextLine? = some line ∧ CommandLine.parse line = .ok command ∧
          command.isExit = true := by
    rw [left]
    exact (runLine_running standard line (shell.record line).state).imp_right
      fun ⟨command, parsed, exits⟩ => ⟨line, command, reads, parsed, exits⟩
  cases turn with
  | passed _ _ nothing kept =>
    refine ⟨consumes, fun _ => kept, fun line reads => ?_, .inl (by rw [kept])⟩
    rw [nothing] at reads
    cases reads
  | ran _ _ reads result left =>
    refine ⟨consumes, fun nothing => ?_, fun line found => .inl ?_, stops reads left⟩
    · rw [nothing] at reads
      cases reads
    · rw [reads] at found
      cases found
      rw [result, left]
  | interrupted _ _ reads result left =>
    refine ⟨consumes, fun nothing => ?_, fun line found => .inr ?_, stops reads left⟩
    · rw [nothing] at reads
      cases reads
    · rw [reads] at found
      cases found
      exact ⟨⟨_, result⟩, by rw [left]; rfl⟩

section Run

variable {settings : Settings} {historyFile : Option String} {shell started : Shell}
  {events : List PlainEvent}

theorem run_unprepared {fault : Fault}
    (failed : shell.prepare settings (historyPath settings historyFile) = (.error fault, started)) :
    shell.run toolbox empty settings historyFile = (.error fault, started) := by
  simp [run, failed]

/-- A session that starts ends as its loop does, unless a child gets in the way. -/
theorem run_prepared (toolbox : Toolbox) (empty : Sink) (plain : shell.input = .plain events)
    (prepared : shell.prepare settings (historyPath settings historyFile) = (.ok (), started)) :
    ∃ ended final, started.loop toolbox empty settings.prompt (events.length + 2) = (ended, final) ∧
      (shell.run toolbox empty settings historyFile).1 =
        ((cleanUp cleanupTimeout toolbox.children).bind fun _ =>
          ended.map fun _ => final.session.exitCode) ∧
      (shell.run toolbox empty settings historyFile).2.session.exitCode =
        final.session.exitCode := by
  have clean (path : String) (named : historyPath settings historyFile = some path) :
      Path.hasNul path = false := by
    cases nul : Path.hasNul path with
    | false => rfl
    | true =>
      obtain ⟨fault, failed⟩ := (prepare_error_iff shell settings _).mpr (.inr ⟨path, named, nul⟩)
      rw [prepared] at failed
      cases failed
  have input : started.input = .plain events := by
    rw [← plain, ← prepare_input shell settings (historyPath settings historyFile), prepared]
  cases looped : started.loop toolbox empty settings.prompt (events.length + 2) with
  | mk ended final =>
    refine ⟨ended, final, rfl, ?_⟩
    simp only [run, prepared, input, LineInput.size, looped]
    exact final.finish_clean clean toolbox settings ended

theorem prepared_input (plain : shell.input = .plain events) (settings : Settings)
    (file : Option String) : (shell.prepare settings file).2.input = .plain events := by
  rw [prepare_input, plain]

theorem run_escapes {reached : Shell} {line : String} {fault : Fault}
    (plain : shell.input = .plain events)
    (prepared : shell.prepare settings (historyPath settings historyFile) = (.ok (), started))
    (reaches : Reaches toolbox empty settings.prompt started reached)
    (running : reached.session.running = true) (reads : reached.nextLine? = some line)
    (escape : escape? toolbox line (reached.record line).state = some fault) :
    (shell.run toolbox empty settings historyFile).1 =
      (cleanUp cleanupTimeout toolbox.children).bind fun _ => .error fault := by
  have input := prepared_input plain settings (historyPath settings historyFile)
  rw [prepared] at input
  obtain ⟨ended, final, looped, outcome, -⟩ := run_prepared toolbox empty plain prepared
  have enough : events.length < events.length + 2 := by omega
  obtain ⟨left, escaped⟩ := loop_escapes reaches input enough running reads escape
  rw [looped] at escaped
  cases escaped
  exact outcome

theorem run_error_iff (toolbox : Toolbox) (empty : Sink) (settings : Settings)
    (historyFile : Option String) (plain : shell.input = .plain events) :
    (∃ fault, (shell.run toolbox empty settings historyFile).1 = .error fault) ↔
      (∃ fault, (shell.prepare settings (historyPath settings historyFile)).1 = .error fault) ∨
      (∃ fault, cleanUp cleanupTimeout toolbox.children = .error fault) ∨
      ∃ reached line fault, Reaches toolbox empty settings.prompt
          (shell.prepare settings (historyPath settings historyFile)).2 reached ∧
        reached.session.running = true ∧ reached.nextLine? = some line ∧
        escape? toolbox line (reached.record line).state = some fault := by
  have input := prepared_input plain settings (historyPath settings historyFile)
  cases prepared : shell.prepare settings (historyPath settings historyFile) with
  | mk result started =>
    rw [prepared] at input
    cases result with
    | error fault => simp [run_unprepared prepared]
    | ok =>
      obtain ⟨ended, final, looped, outcome, -⟩ := run_prepared toolbox empty plain prepared
      have enough : events.length < events.length + 2 := by omega
      cases cleaned : cleanUp cleanupTimeout toolbox.children with
      | error fault => simp [outcome, cleaned, Except.bind]
      | ok killed =>
        rw [outcome, cleaned]
        constructor
        · rintro ⟨fault, failed⟩
          obtain ⟨last, reaches, ends⟩ := loop_ends toolbox empty settings.prompt input enough
          rw [looped] at ends
          cases ends with
          | stopped | endOfInput => cases failed
          | escaped running reads escape =>
            exact .inr (.inr ⟨last, _, _, reaches, running, reads, escape⟩)
        · rintro (⟨fault, failed⟩ | ⟨fault, failed⟩ |
            ⟨reached, line, fault, reaches, running, reads, escape⟩)
          · cases failed
          · cases failed
          · have ended := run_escapes plain prepared reaches running reads escape
            rw [outcome, cleaned] at ended
            exact ⟨fault, ended⟩

theorem run_ok {code : Int} (plain : shell.input = .plain events)
    (success : (shell.run toolbox empty settings historyFile).1 = .ok code) :
    code = (shell.run toolbox empty settings historyFile).2.session.exitCode ∧
      ∃ last, Reaches toolbox empty settings.prompt
          (shell.prepare settings (historyPath settings historyFile)).2 last ∧
        (last.session.running = false ∨ last.atEnd = true) ∧ last.session.exitCode = code := by
  have input := prepared_input plain settings (historyPath settings historyFile)
  cases prepared : shell.prepare settings (historyPath settings historyFile) with
  | mk result started =>
    rw [prepared] at input
    cases result with
    | error fault =>
      rw [run_unprepared prepared] at success
      cases success
    | ok =>
      obtain ⟨ended, final, looped, outcome, kept⟩ := run_prepared toolbox empty plain prepared
      have enough : events.length < events.length + 2 := by omega
      obtain ⟨last, reaches, ends⟩ := loop_ends toolbox empty settings.prompt input enough
      rw [looped] at ends
      have success : ended.map (fun _ => final.session.exitCode) = .ok code := by
        rw [outcome] at success
        cases cleaned : cleanUp cleanupTimeout toolbox.children with
        | error fault =>
          rw [cleaned] at success
          cases success
        | ok killed =>
          rw [cleaned] at success
          exact success
      cases ends with
      | stopped exited =>
        cases success
        exact ⟨kept.symm, final, reaches, .inl exited, rfl⟩
      | endOfInput finished same =>
        cases success
        exact ⟨kept.symm, last, reaches, .inr finished, by rw [same]⟩
      | escaped => cases success

end Run

def twoLines (first second : String) : Shell :=
  .new (toolboxFor {} []) { files := ⟨[(["home"], .directory)]⟩, directory := "/home" }
    { cwd := "/home" } { stdin := .terminal [] } (.plain [.line first, .line second])

end CommandShell.Shell
