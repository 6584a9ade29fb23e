import CommandShell.Proofs.HistoryReload
import CommandShell.Proofs.LineEffect
import CommandShell.Proofs.ReadLoop

/-! Which lines a session runs. Every call of the read loop is one of the lines of its script that
are not blank, in order and none twice, with the history that has the line as its last; the calls
end with the script or with the first `exit` that gets to run. -/
namespace CommandShell

/-- The lines that a script has up to the end of the input. A prompt that is interrupted gives
none, and neither does a blank line. -/
def acceptedLines : List PlainEvent → List String
  | [] => []
  | .interrupt :: rest => acceptedLines rest
  | .line text :: rest =>
    if text = "" then []
    else
      let line := String.ofList (Text.dropLineEnd text.toList)
      if Text.isBlankText line then acceptedLines rest else line :: acceptedLines rest

def loadedLines (machine : Machine) : Option String → List String
  | none => []
  | some path =>
    match (machine.readFile path).toOption.bind Text.decodeStrict? with
    | none => []
    | some text => History.fileLines text

namespace History

theorem load_lines {history next : History} {machine : Machine} {path : String}
    (loaded : history.load machine path = .ok next) :
    next.lines = history.lines ++ loadedLines machine (some path) := by
  rw [load] at loaded
  split at loaded
  · cases loaded
  next bytes read =>
    split at loaded
    · cases loaded
    next text decoded =>
      cases loaded
      simp [loadedLines, read, Except.toOption, decoded, extend, lines, Function.comp_def,
        Recorded.ofText]

theorem load_error {history : History} {machine : Machine} {path : String} {fault : Fault}
    (failed : history.load machine path = .error fault) :
    loadedLines machine (some path) = [] := by
  rw [load] at failed
  split at failed
  next read => simp [loadedLines, read, Except.toOption]
  next bytes read =>
    split at failed
    next invalid => simp [loadedLines, read, Except.toOption, invalid]
    · cases failed

theorem loadAtStart_lines {history next : History} {machine : Machine} {file : Option String}
    {warning? : Option ShellError}
    (loaded : history.loadAtStart machine file = .ok (next, warning?)) :
    next.lines = history.lines ++ loadedLines machine file := by
  cases file with
  | none =>
    cases loaded
    simp [loadedLines]
  | some path =>
    rw [loadAtStart] at loaded
    split at loaded
    next read =>
      cases loaded
      exact load_lines read
    next failed =>
      cases loaded
      rw [load_error failed, List.append_nil]
    · cases loaded

theorem lines_add (history : History) (line : String) :
    (history.add line).lines = history.lines ++ [line] := by
  simp [add, addAll, extend, lines]

end History

/-- What is written to the path stays there. It leads to a regular file, to a program, which a file
takes the place of, or to nothing yet. -/
def Machine.isStorable (machine : Machine) (path : String) : Bool :=
  !Path.hasNul path &&
    match machine.lookup .write path with
    | .ok ⟨_, none⟩ | .ok ⟨_, some (.file _ _)⟩ | .ok ⟨_, some (.program _)⟩ => true
    | _ => false

theorem Machine.openFile_storable {machine : Machine} {path : String}
    (storable : machine.isStorable path = true) :
    Path.hasNul path = false ∧
    ∃ place node executable, machine.lookup .write path = .ok ⟨place, node⟩ ∧
      machine.files.HoldsLeaf place ∧
      machine.openFile path false = .ok (.regular place 0 false,
        { machine with files := machine.files.set place (.file [] executable) }) := by
  rw [isStorable, Bool.and_eq_true, Bool.not_eq_true'] at storable
  obtain ⟨clean, keeps⟩ := storable
  refine ⟨clean, ?_⟩
  rw [openFile, clean]
  cases found : machine.lookup .write path with
  | error e => simp [found] at keeps
  | ok reached =>
    obtain ⟨place, node⟩ := reached
    have present : node = machine.files.get? place := lookup_node found
    have leaf (closed : ∀ other, node = some other →
        other ≠ .directory ∧ ∀ target, other ≠ .link target) : machine.files.HoldsLeaf place :=
      fun other here => closed other (present.trans here)
    rw [found] at keeps
    rcases node with _ | node
    · exact ⟨place, none, false, rfl, leaf (by simp), rfl⟩
    · cases node with
      | directory | link | device => cases keeps
      | file content executable =>
        exact ⟨place, _, executable, rfl, leaf (by rintro _ ⟨rfl⟩; simp), rfl⟩
      | program name => exact ⟨place, _, false, rfl, leaf (by rintro _ ⟨rfl⟩; simp), rfl⟩

/-- A history is saved to any such path, and the file holds its last lines. -/
theorem History.save_storable {machine : Machine} {path : String}
    (storable : machine.isStorable path = true) (history : History) (limit : Int) :
    ∃ written, history.save machine path limit = (.ok (history.setMark path), written) ∧
      written.readFile path = .ok (Text.encode (writtenText (latest limit history.lines))) := by
  obtain ⟨clean, place, node, executable, found, leaf, opened⟩ :=
    Machine.openFile_storable storable
  let content := fileText (lastOrAll limit history.lines)
  let written := { machine with files := machine.files.set place (.file content executable) }
  have stored :
      writeLines machine path false (lastOrAll limit history.lines) = (.ok (), written) := by
    simp [writeLines, opened, encodeLines_texts, OpenFile.write,
      FileTree.get_set _ _ _ _ leaf.proper, FileTree.set_set, overwrite_nil, written, content]
  have read : written.readFile path = .ok content := by
    obtain ⟨after, again⟩ :=
      Machine.lookup_alike (FileTree.alike_set leaf content executable) found
    have present := Machine.lookup_node again
    rw [FileTree.get_set _ _ _ _ leaf.proper, if_pos rfl] at present
    have reached := Machine.lookup_reach again
    simp only at present
    simp [Machine.readFile, clean, written, reached, present]
  refine ⟨written, by rw [save, stored]; rfl, ?_⟩
  rw [read, ← lastOrAll_eq_latest, ← fileText_eq_encode]

/-- Saving keeps the lines, and a file that can be written holds the last of them. -/
theorem History.saveAtEnd_lines {history next : History} {machine written : Machine} {limit : Int}
    {file : Option String} {warning? : Option ShellError}
    (saved : history.saveAtEnd machine limit file = (.ok (next, warning?), written)) :
    next.lines = history.lines ∧
      ∀ path, file = some path → machine.isStorable path = true →
        written.readFile path = .ok (Text.encode (writtenText (latest limit history.lines))) := by
  cases file with
  | none =>
    cases saved
    exact ⟨rfl, fun path named => by cases named⟩
  | some path =>
    rw [saveAtEnd] at saved
    split at saved
    next stored =>
      cases saved
      obtain ⟨rfl, -⟩ := save_ok stored
      refine ⟨rfl, ?_⟩
      rintro _ ⟨rfl⟩ storable
      obtain ⟨written, again, holds⟩ := save_storable storable history limit
      cases stored.symm.trans again
      exact holds
    next failed =>
      cases saved
      refine ⟨rfl, ?_⟩
      rintro _ ⟨rfl⟩ storable
      obtain ⟨written, again, -⟩ := save_storable storable history limit
      cases failed.symm.trans again
    · cases saved

/-- The calls of a session that has these lines to run, from the session before them to the one
after them. -/
structure Transcript (toolbox : Toolbox) (accepted : List String) (before after : Session)
    (calls : List Call) : Prop where
  history : after.history.lines = before.history.lines ++ calls.map Call.line
  recorded : ∀ (k : Nat) (call : Call), calls[k]? = some call →
    call.state.session.history.lines =
      before.history.lines ++ (calls.take (k + 1)).map Call.line
  ending :
    (calls.map Call.line = accepted ∧ (∀ call ∈ calls, call.exit? toolbox = none) ∧
      after.exitCode = before.exitCode) ∨
    ∃ earlier last arguments, calls = earlier ++ [last] ∧ calls.map Call.line <+: accepted ∧
      (∀ call ∈ earlier, call.exit? toolbox = none) ∧ last.exit? toolbox = some arguments ∧
      after.exitCode = Builtin.exitCode arguments

namespace Transcript

variable {toolbox : Toolbox} {accepted : List String} {before between after : Session}
  {call : Call} {calls : List Call}

theorem nil (same : after = before) : Transcript toolbox [] before after [] := by
  subst same
  exact ⟨by simp, by simp, .inl ⟨rfl, by simp, rfl⟩⟩

/-- The call that ends the session. -/
theorem exit {arguments : List String} (accepted : List String)
    (exits : call.exit? toolbox = some arguments)
    (seen : call.state.session.history.lines = before.history.lines ++ [call.line])
    (lines : after.history.lines = call.state.session.history.lines)
    (code : after.exitCode = Builtin.exitCode arguments) :
    Transcript toolbox (call.line :: accepted) before after [call] := by
  refine ⟨lines.trans seen, ?_, .inr ⟨[], call, arguments, rfl, ?_, by simp, exits, code⟩⟩
  · intro k other found
    obtain ⟨rfl, rfl⟩ : k = 0 ∧ call = other := by simpa [List.getElem?_singleton] using found
    exact seen
  · exact ⟨accepted, rfl⟩

/-- A call after which the session goes on. -/
theorem cons (stays : call.exit? toolbox = none)
    (seen : call.state.session.history.lines = before.history.lines ++ [call.line])
    (lines : between.history.lines = call.state.session.history.lines)
    (code : between.exitCode = before.exitCode)
    (rest : Transcript toolbox accepted between after calls) :
    Transcript toolbox (call.line :: accepted) before after (call :: calls) := by
  have shared : between.history.lines = before.history.lines ++ [call.line] := lines.trans seen
  refine ⟨?_, ?_, ?_⟩
  · rw [rest.history, shared]
    simp
  · intro k other found
    cases k with
    | zero =>
      obtain rfl : call = other := by simpa using found
      exact seen
    | succ k =>
      rw [rest.recorded k other (by simpa using found), shared]
      simp
  · rcases rest.ending with ⟨whole, stay, kept⟩ | ⟨earlier, last, arguments, split, part, stay,
      exits, kept⟩
    · refine .inl ⟨by rw [List.map_cons, whole], ?_, kept.trans code⟩
      rintro other (_ | ⟨_, member⟩)
      · exact stays
      · exact stay other member
    · refine .inr ⟨call :: earlier, last, arguments, by rw [split, List.cons_append], ?_, ?_, exits,
        kept⟩
      · rw [List.map_cons, List.cons_prefix_cons]
        exact ⟨rfl, part⟩
      · rintro other (_ | ⟨_, member⟩)
        · exact stays
        · exact stay other member

end Transcript

namespace Shell

def callFor (shell : Shell) : ReadResult → Option Call
  | .interrupted | .endOfInput => none
  | .line line =>
    if Text.isBlankText line then none else some ⟨line, (shell.record line).lend⟩

def call? (prompt : String) (shell : Shell) : Option Call :=
  match shell.editor.refresh shell.state.machine shell.session.path shell.input with
  | .error _ => none
  | .ok editor =>
    let (result, editor, input, text) :=
      editor.readLine shell.session.history.lines prompt shell.input
    ({ shell with editor, input }.emitText .prompt text).callFor result

def calls (toolbox : Toolbox) (empty : Sink) (prompt : String) (fuel : Nat) (shell : Shell) :
    List Call :=
  match fuel with
  | 0 => []
  | fuel + 1 =>
    if shell.session.running then
      (shell.call? prompt).toList ++
        match shell.step toolbox empty prompt with
        | (.ok true, next) => next.calls toolbox empty prompt fuel
        | _ => []
    else []

/-- The call is all that happens between the two states. It finds its line recorded and everything
else as it was; after it, its status is remembered. -/
structure Runs (toolbox : Toolbox) (call : Call) (before after : ShellState) : Prop where
  found : call.state.machine = before.machine
  recorded : call.state.session =
    { before.session with history := before.session.history.add call.line }
  machine : after.machine = (CommandShell.runLine toolbox call.line call.state).2.machine
  session : ∃ status, after.session =
    { (CommandShell.runLine toolbox call.line call.state).2.session with lastStatus := status }

def Advances (toolbox : Toolbox) (before after : ShellState) : Option Call → Prop
  | some call => Runs toolbox call before after
  | none => after = before

theorem lend_kept (shell : Shell) :
    shell.lend.machine = shell.state.machine ∧ shell.lend.session = shell.session := by
  rw [lend]
  split <;> exact ⟨rfl, rfl⟩

theorem takeBack_state (shell : Shell) (state : ShellState) :
    (shell.takeBack state).state = state := by
  rw [takeBack]
  split <;> rfl

theorem collectOutput_machine (shell : Shell) (empty : Sink) :
    (shell.collectOutput empty).state.machine = shell.state.machine := by
  simp [collectOutput, emit_state]

theorem runLine_runs (toolbox : Toolbox) (empty : Sink) (shell : Shell) (line : String) :
    Runs toolbox ⟨line, (shell.record line).lend⟩ shell.state
      ((shell.record line).runLine toolbox empty line).2.state := by
  obtain ⟨machine, session⟩ := (shell.record line).lend_kept
  rw [Shell.runLine]
  cases ran : CommandShell.runLine toolbox line (shell.record line).lend with
  | mk status state =>
    let left := ((shell.record line).takeBack state).collectOutput empty
    have kept : left.state.machine = state.machine :=
      (collectOutput_machine _ _).trans (congrArg (·.machine) (takeBack_state _ _))
    have same : left.session = state.session :=
      (collectOutput_session _ _).trans (congrArg (·.session) (takeBack_state _ _))
    have runs (after : ShellState) (status : Int) (files : after.machine = left.state.machine)
        (changed : after.session = { left.session with lastStatus := status }) :
        Runs toolbox ⟨line, (shell.record line).lend⟩ shell.state after :=
      ⟨machine, session, by rw [ran]; exact files.trans kept, status, by rw [ran, ← same, changed]⟩
    cases status with
    | ok status => exact runs _ status rfl rfl
    | error fault =>
      cases fault with
      | interrupt message =>
        refine runs _ interruptedStatus ?_ ?_
        · rw [emitText_state]
          rfl
        · rw [emitText_state]
          rfl
      | _ => exact runs _ left.session.lastStatus rfl rfl

/-- Acting on what was read makes its call and does nothing else. -/
theorem act_advances (toolbox : Toolbox) (empty : Sink) (shell : Shell) (result : ReadResult) :
    Advances toolbox shell.state (shell.act toolbox empty result).2.state
      (shell.callFor result) := by
  cases result with
  | interrupted => exact emitText_state _ _ _
  | endOfInput => rfl
  | line line =>
    cases blank : Text.isBlankText line with
    | true => simp [Advances, callFor, act, blank]
    | false =>
      have ran := runLine_runs toolbox empty shell line
      simp only [callFor, act, blank, Bool.false_eq_true, if_false, Advances]
      split
      next left => rwa [left] at ran
      next left => rwa [left] at ran

theorem step_advances (toolbox : Toolbox) (empty : Sink) (prompt : String) (shell : Shell) :
    Advances toolbox shell.state (shell.step toolbox empty prompt).2.state
      (shell.call? prompt) := by
  rw [step, call?]
  cases shell.editor.refresh shell.state.machine shell.session.path shell.input with
  | error fault => rfl
  | ok editor =>
    dsimp only
    rcases editor.readLine shell.session.history.lines prompt shell.input with
      ⟨result, editor, input, text⟩
    have read : ({ shell with editor, input }.emitText .prompt text).state = shell.state :=
      emitText_state _ _ _
    have acted := act_advances toolbox empty ({ shell with editor, input }.emitText .prompt text)
      result
    rwa [read] at acted

variable {toolbox : Toolbox} {empty : Sink} {prompt : String} {shell next : Shell}
  {events rest : List PlainEvent}

/-- Commands do not share a plain input with the shell. -/
theorem lend_plain (plain : shell.input = .plain events) : shell.lend = shell.state := by
  rw [lend, plain]

theorem call?_plain (plain : shell.input = .plain events) :
    shell.call? prompt = shell.nextLine?.map fun line => ⟨line, (shell.record line).state⟩ := by
  simp only [call?, plain, Editor.refresh, Editor.readLine, nextLine?]
  rcases events with _ | ⟨text | _, rest⟩
  · rfl
  · by_cases final : text = ""
    · simp [Editor.readPlain, final, callFor]
    · simp only [Editor.readPlain, final, if_false, callFor, false_or]
      split
      · rfl
      · have input (line : String) : (({ shell with input := .plain rest }.emitText .prompt
            prompt).record line).input = .plain rest := emitText_input _ _ _
        rw [lend_plain (input _), record_state (emitText_state _ _ _)]
        rfl
  · rfl

/-- The input is at its end where it is empty or has an empty line next. -/
theorem events_atEnd (plain : shell.input = .plain events) (final : shell.atEnd = true) :
    events = [] ∨ ∃ rest, events = .line "" :: rest := by
  rcases events with _ | ⟨text | _, rest⟩
  · exact .inl rfl
  · obtain rfl : text = "" := by simpa [atEnd, plain] using final
    exact .inr ⟨rest, rfl⟩
  · simp [atEnd, plain] at final

theorem step_atEnd (toolbox : Toolbox) (empty : Sink) (prompt : String)
    (plain : shell.input = .plain events) (final : shell.atEnd = true) :
    (shell.step toolbox empty prompt).1 = .ok false := by
  rw [step_plain plain]
  rcases events_atEnd plain final with rfl | ⟨rest, rfl⟩ <;> rfl

theorem acceptedLines_atEnd (plain : shell.input = .plain events) (final : shell.atEnd = true) :
    acceptedLines events = [] := by
  rcases events_atEnd plain final with rfl | ⟨rest, rfl⟩ <;> rfl

theorem acceptedLines_next {event : PlainEvent} (plain : shell.input = .plain (event :: rest))
    (more : shell.atEnd = false) :
    acceptedLines (event :: rest) = shell.nextLine?.toList ++ acceptedLines rest := by
  cases event with
  | interrupt => simp [acceptedLines, nextLine?, plain]
  | line text =>
    have given : text ≠ "" := by simpa [atEnd, plain] using more
    simp only [acceptedLines, nextLine?, plain, given, if_false, false_or]
    split <;> rfl

theorem calls_stopped (stopped : shell.session.running = false) (fuel : Nat) :
    shell.calls toolbox empty prompt fuel = [] ∧
      shell.loop toolbox empty prompt fuel = (.ok (), shell) := by
  cases fuel with
  | zero => exact ⟨rfl, rfl⟩
  | succ fuel => simp [calls, loop, stopped]

/-- A step puts its call before those of the steps that follow. -/
theorem step_transcript (standard : toolbox.commands = Builtin.table []) (atomic : toolbox.Atomic)
    {event : PlainEvent} {after : Session} {later : List Call}
    (step : shell.step toolbox empty prompt = (.ok true, next))
    (plain : shell.input = .plain (event :: rest)) (running : shell.session.running = true)
    (unread : ∀ call ∈ shell.call? prompt, readsHistory call.line = false)
    (goesOn : next.session.running = true →
      Transcript toolbox (acceptedLines rest) next.session after later)
    (stops : next.session.running = false → after = next.session ∧ later = []) :
    Transcript toolbox (acceptedLines (event :: rest)) shell.session after
      ((shell.call? prompt).toList ++ later) := by
  have more : shell.atEnd = false := by
    refine Bool.eq_false_iff.mpr fun final => ?_
    cases (step_atEnd toolbox empty prompt plain final).symm.trans (congrArg Prod.fst step)
  have advances := shell.step_advances toolbox empty prompt
  have accepted : acceptedLines (event :: rest) =
      ((shell.call? prompt).map Call.line).toList ++ acceptedLines rest := by
    rw [acceptedLines_next plain more, call?_plain plain]
    cases shell.nextLine? <;> rfl
  rw [accepted]
  rw [step] at advances
  cases made : shell.call? prompt with
  | none =>
    rw [made] at advances
    have kept : next.session = shell.session := congrArg ShellState.session advances
    rw [kept] at goesOn
    exact goesOn running
  | some call =>
    rw [made] at advances
    have alive : call.state.session.running = true := by
      rw [advances.recorded]
      exact running
    have seen : call.state.session.history.lines =
        shell.session.history.lines ++ [call.line] := by
      rw [advances.recorded]
      exact History.lines_add _ _
    obtain ⟨status, left⟩ := advances.session
    have follows : call.state.session.Follows (call.exit? toolbox) next.session := by
      have ran : call.state.session.Follows (call.exit? toolbox)
          (CommandShell.runLine toolbox call.line call.state).2.session :=
        runLine_follows standard atomic (unread call made)
      rw [Shell.session, left]
      exact ⟨ran.lines, ran.running, ran.exitCode⟩
    cases exits : call.exit? toolbox with
    | some arguments =>
      rw [exits] at follows
      obtain ⟨rfl, rfl⟩ := stops (by rw [follows.running]; simp)
      exact .exit (acceptedLines rest) exits seen follows.lines follows.exitCode
    | none =>
      rw [exits] at follows
      have code : next.session.exitCode = shell.session.exitCode := by
        rw [follows.exitCode, advances.recorded]
        rfl
      exact .cons exits seen follows.lines code (goesOn (by rw [follows.running, alive]; rfl))

/-- What the loop runs of a script, by induction on the events that are left to read. -/
theorem loop_transcript (standard : toolbox.commands = Builtin.table []) (atomic : toolbox.Atomic)
    {fuel : Nat} (plain : shell.input = .plain events) (enough : events.length < fuel)
    (running : shell.session.running = true)
    (success : (shell.loop toolbox empty prompt fuel).1 = .ok ())
    (unread : ∀ call ∈ shell.calls toolbox empty prompt fuel, readsHistory call.line = false) :
    Transcript toolbox (acceptedLines events) shell.session
      (shell.loop toolbox empty prompt fuel).2.session
      (shell.calls toolbox empty prompt fuel) := by
  induction fuel generalizing shell events with
  | zero => exact absurd enough (Nat.not_lt_zero _)
  | succ fuel ih =>
    rw [loop, if_pos running] at success ⊢
    rw [calls, if_pos running] at unread ⊢
    cases step : shell.step toolbox empty prompt with
    | mk result next =>
      have turn := turn_of_step plain step
      rw [step] at success unread
      rcases result with fault | _ | _
      · cases success
      · cases turn with
        | ended final kept =>
          rw [acceptedLines_atEnd plain final, call?_plain plain, nextLine?_of_atEnd final]
          exact .nil kept
      · -- more to do: the induction takes over unless the line has stopped the session
        obtain ⟨event, rest, rfl, after⟩ := turn.takes plain
        refine step_transcript standard atomic step plain running ?_ (fun going => ?_)
          (fun stopped => ?_)
        · intro call made
          exact unread call (by simp [Option.mem_def.mp made])
        · exact ih after (Nat.lt_of_succ_lt_succ enough) going success
            fun call member => unread call (by simp [member])
        · obtain ⟨none, looped⟩ := next.calls_stopped stopped fuel
          exact ⟨congrArg (·.2.session) looped, none⟩

/-- The sessions differ in nothing but their history. -/
theorem loadHistory_lines {file : Option String} (loaded : shell.loadHistory file = .ok next) :
    (∃ history, next.session = { shell.session with history }) ∧
      next.session.history.lines =
        shell.session.history.lines ++ loadedLines shell.state.machine file := by
  rw [loadHistory] at loaded
  split at loaded
  next history warning? read =>
    cases loaded
    rw [session, takeHistory_state]
    exact ⟨⟨history, rfl⟩, History.loadAtStart_lines read⟩
  · cases loaded

theorem prepare_lines {settings : Settings} {file : Option String} {started : Shell}
    (prepared : shell.prepare settings file = (.ok (), started)) :
    (∃ history, started.session = { shell.session with history }) ∧
      started.session.history.lines = shell.session.history.lines ++
        loadedLines (Logging.setup settings shell.state.machine none none).2 file := by
  rw [prepare] at prepared
  dsimp only at prepared
  split at prepared
  · cases prepared
  · split at prepared
    · cases prepared
    next loaded =>
      cases prepared
      exact loadHistory_lines loaded

theorem saveHistory_lines {limit : Int} {file : Option String}
    (saved : shell.saveHistory limit file = (.ok (), next)) :
    next.session.history.lines = shell.session.history.lines ∧
      next.session.exitCode = shell.session.exitCode ∧
      ∀ path, file = some path → shell.state.machine.isStorable path = true →
        next.state.machine.readFile path = .ok (Text.encode
          (History.writtenText (History.latest limit shell.session.history.lines))) := by
  rw [saveHistory] at saved
  cases stored : shell.session.history.saveAtEnd shell.state.machine limit file with
  | mk result written =>
    rw [stored] at saved
    cases result with
    | error fault => cases saved
    | ok result =>
      cases saved
      obtain ⟨lines, holds⟩ := History.saveAtEnd_lines stored
      simp only [session, takeHistory_state]
      exact ⟨lines, rfl, holds⟩

section Run

variable {settings : Settings} {historyFile : Option String} {code : Int}

theorem finish_ok {file : Option String} {ended : Except Fault Unit}
    (success : (shell.finish toolbox settings file ended).1 = .ok code) :
    ended = .ok () ∧
      shell.saveHistory settings.historyLimit file =
        (.ok (), (shell.finish toolbox settings file ended).2) ∧
      code = (shell.finish toolbox settings file ended).2.session.exitCode := by
  rw [finish] at success ⊢
  cases saved : shell.saveHistory settings.historyLimit file with
  | mk result final =>
    rw [saved] at success
    cases result with
    | error fault => cases success
    | ok =>
      cases cleaned : cleanUp cleanupTimeout toolbox.children with
      | error fault =>
        rw [cleaned] at success
        cases success
      | ok killed =>
        rw [cleaned] at success
        cases ended with
        | error fault => cases success
        | ok =>
          cases success
          exact ⟨rfl, rfl, rfl⟩

/-- The stages of a session that comes to its end without a fault. -/
theorem run_stages (plain : shell.input = .plain events)
    (success : (shell.run toolbox empty settings historyFile).1 = .ok code) :
    ∃ started last, shell.prepare settings (historyPath settings historyFile) = (.ok (), started) ∧
      started.loop toolbox empty settings.prompt (events.length + 2) = (.ok (), last) ∧
      last.saveHistory settings.historyLimit (historyPath settings historyFile) =
        (.ok (), (shell.run toolbox empty settings historyFile).2) ∧
      code = (shell.run toolbox empty settings historyFile).2.session.exitCode := by
  cases prepared : shell.prepare settings (historyPath settings historyFile) with
  | mk result started =>
    cases result with
    | error fault =>
      rw [run_unprepared prepared] at success
      cases success
    | ok =>
      have input : started.input = .plain events := by
        rw [← plain, ← shell.prepare_input settings (historyPath settings historyFile), prepared]
      cases looped : started.loop toolbox empty settings.prompt (events.length + 2) with
      | mk ended last =>
        have whole : shell.run toolbox empty settings historyFile =
            last.finish toolbox settings (historyPath settings historyFile) ended := by
          simp only [run, prepared, input, LineInput.size, looped]
        rw [whole] at success ⊢
        obtain ⟨rfl, saved, exitCode⟩ := finish_ok success
        exact ⟨started, last, rfl, looped, saved, exitCode⟩

end Run

/-- A session that no fault ends runs the lines of its script that are not blank, in order and
each once, up to the end of the input or the first `exit` that gets to run. When a line is run the
history ends with it, and no step does anything but run its line. In the end the history has the
lines that it started with, those of the history file and those that were run; a history file that
can be written holds the last of them, and the exit code is that of the `exit`, or else what it
was. -/
theorem run_executes_accepted_lines (spawn : Spawn) (pumpSize : Int)
    (interruption? : CommandLine → ShellState → Option Interruption)
    (abandoned : List Handle → Machine × Stdin → Machine × Stdin)
    (children : Option (List Child)) (empty : Sink) (settings : Settings)
    (historyFile : Option String) (machine : Machine) (session : Session) (streams : Streams)
    (events : List PlainEvent) :
    let toolbox : Toolbox :=
      { commands := Builtin.table [], spawn, pumpSize, interruption?, abandoned, children }
    let shell := Shell.new toolbox machine session streams (.plain events)
    let file := historyPath settings historyFile
    let started := (shell.prepare settings file).2
    let calls := started.calls toolbox empty settings.prompt (events.length + 2)
    let last := (started.loop toolbox empty settings.prompt (events.length + 2)).2
    let outcome := shell.run toolbox empty settings historyFile
    let known := session.history.lines ++
      loadedLines (Logging.setup settings machine none none).2 file
    (∀ reached : Shell, Advances toolbox reached.state
      (reached.step toolbox empty settings.prompt).2.state (reached.call? settings.prompt)) ∧
    ∀ code, outcome.1 = .ok code → session.running = true → toolbox.Atomic →
      (∀ call ∈ calls, readsHistory call.line = false) →
      ((calls.map Call.line = acceptedLines events ∧ (∀ call ∈ calls, call.exit? toolbox = none) ∧
          code = session.exitCode) ∨
        ∃ earlier final arguments, calls = earlier ++ [final] ∧
          calls.map Call.line <+: acceptedLines events ∧
          (∀ call ∈ earlier, call.exit? toolbox = none) ∧
          final.exit? toolbox = some arguments ∧ code = Builtin.exitCode arguments) ∧
      (∀ (k : Nat) (call : Call), calls[k]? = some call →
        call.state.session.history.lines = known ++ (calls.take (k + 1)).map Call.line) ∧
      outcome.2.session.history.lines = known ++ calls.map Call.line ∧
      ∀ path, file = some path → last.state.machine.isStorable path = true →
        outcome.2.state.machine.readFile path = .ok (Text.encode (History.writtenText
          (History.latest settings.historyLimit (known ++ calls.map Call.line)))) := by
  intro toolbox shell file started calls last outcome known
  refine ⟨fun reached => reached.step_advances toolbox empty settings.prompt, ?_⟩
  intro code success running atomic unread
  have plain : shell.input = .plain events := rfl
  obtain ⟨ready, final, prepared, looped, saved, exitCode⟩ := run_stages plain success
  obtain rfl : started = ready := congrArg Prod.snd prepared
  obtain rfl : last = final := congrArg Prod.snd looped
  obtain ⟨⟨history, changed⟩, lines⟩ := prepare_lines prepared
  have transcript : Transcript toolbox (acceptedLines events) started.session last.session calls :=
    loop_transcript rfl atomic (prepared_input plain settings file) (by omega)
      (by rw [changed]; exact running) (congrArg Prod.fst looped) unread
  obtain ⟨kept, sameCode, holds⟩ := saveHistory_lines saved
  have recorded : last.session.history.lines = known ++ calls.map Call.line := by
    rw [transcript.history, lines]
    rfl
  refine ⟨?_, ?_, kept.trans recorded, ?_⟩
  · have unchanged : started.session.exitCode = session.exitCode := by
      rw [changed]
      rfl
    rcases transcript.ending with ⟨whole, stay, same⟩ | ⟨earlier, final, arguments, split, part,
      stay, exits, same⟩
    · exact .inl ⟨whole, stay, exitCode.trans (sameCode.trans (same.trans unchanged))⟩
    · exact .inr ⟨earlier, final, arguments, split, part, stay, exits,
        exitCode.trans (sameCode.trans same)⟩
  · intro k call found
    rw [transcript.recorded k call found, lines]
    rfl
  · intro path named storable
    rw [← recorded]
    exact holds path named storable

/-- Prompts that are interrupted, a blank line, a line that is interrupted, an `exit` in a pipeline
and one whose target is a directory, up to an `exit` that ends the session. -/
def stubbornScript : List PlainEvent :=
  [.interrupt, .line " \n", .line "echo slow\n", .line "exit 3 | echo hi\r\n", .interrupt,
    .line "exit 4 > /home\n", .line "exit 7 8\n", .line "echo later\n"]

def loggedHome : Machine :=
  { files := ⟨[(["home"], .directory),
      (["home", "log"], .file (Text.encodeText "old\n") false)]⟩
    directory := "/home" }

def logSettings : Settings := { historyFile := some "log", historyLimit := 4 }

def begunSession : Session :=
  { cwd := "/home", history := .ofLines ["begun"], exitCode := 9 }

def interruptSlow (line : CommandLine) (state : ShellState) : Option Interruption :=
  if line.segments = [["echo", "slow"]] then some ⟨state, false⟩ else none

def stubbornTools : Toolbox :=
  { commands := Builtin.table [], spawn := Program.launch, interruption? := interruptSlow }

def stubborn : Shell :=
  .new stubbornTools loggedHome begunSession { stdin := .terminal [] } (.plain stubbornScript)

def stubbornStarted : Shell :=
  (stubborn.prepare logSettings (historyPath logSettings none)).2

theorem stubbornTools_atomic : stubbornTools.Atomic := by
  intro line state interruption interrupted
  have here : interruptSlow line state = some interruption := interrupted
  rw [interruptSlow] at here
  split at here
  · cases here
    exact .refl _
  · cases here

theorem run_executes_accepted_lines_stubborn :
    (stubborn.run stubbornTools .empty logSettings none).1 = .ok 7 ∧
      (stubbornStarted.calls stubbornTools .empty logSettings.prompt
        (stubbornScript.length + 2)).map Call.line =
          ["echo slow", "exit 3 | echo hi", "exit 4 > /home", "exit 7 8"] ∧
      (stubborn.run stubbornTools .empty logSettings none).2.session.history.lines =
        ["begun", "old", "echo slow", "exit 3 | echo hi", "exit 4 > /home", "exit 7 8"] ∧
      (stubborn.run stubbornTools .empty logSettings none).2.state.machine.readFile "log" =
        .ok (Text.encodeText "echo slow\nexit 3 | echo hi\nexit 4 > /home\nexit 7 8\n") := by
  have success : (stubborn.run stubbornTools .empty logSettings none).1 = .ok 7 :=
    eq_ok_of_toOption (by decide +kernel)
  have made : (stubbornStarted.calls stubbornTools .empty logSettings.prompt
      (stubbornScript.length + 2)).map Call.line =
        ["echo slow", "exit 3 | echo hi", "exit 4 > /home", "exit 7 8"] := by decide +kernel
  have unread : (stubbornStarted.calls stubbornTools .empty logSettings.prompt
      (stubbornScript.length + 2)).all (fun call => !readsHistory call.line) = true := by
    decide +kernel
  have known : begunSession.history.lines ++ loadedLines
      (Logging.setup logSettings loggedHome none none).2 (historyPath logSettings none) =
        ["begun", "old"] := by decide +kernel
  have storable : (stubbornStarted.loop stubbornTools .empty logSettings.prompt
      (stubbornScript.length + 2)).2.state.machine.isStorable "log" = true := by decide +kernel
  obtain ⟨-, -, history, stored⟩ := (run_executes_accepted_lines Program.launch 8192
    interruptSlow (fun _ world => world) (some []) .empty logSettings none loggedHome begunSession
    { stdin := .terminal [] } stubbornScript).2 7 success rfl stubbornTools_atomic
    (fun call member => by simpa using List.all_eq_true.mp unread call member)
  have lines := congrArg₂ (· ++ ·) known made
  refine ⟨success, made, history.trans lines, (stored "log" rfl storable).trans ?_⟩
  refine congrArg Except.ok ?_
  exact (congrArg (fun lines => Text.encode (History.writtenText (History.latest 4 lines)))
    lines).trans (by decide +kernel)

end Shell

end CommandShell
