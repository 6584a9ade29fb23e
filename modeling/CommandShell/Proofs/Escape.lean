import CommandShell.Execution.RunLine
import CommandShell.Proofs.NulPaths
import CommandShell.Proofs.Rendering

/-! The faults that get out of a line. Every error of the shell, of a built-in command and
of a program is turned into a status, except for texts that cannot be handed to the
machine. -/
namespace CommandShell

theorem eq_ok_of_toOption {result : Except ε α} {value : α}
    (shown : result.toOption = some value) : result = .ok value := by
  cases result with
  | error fault => simp [Except.toOption] at shown
  | ok other => simpa [Except.toOption] using shown

def Settled : Except Fault Int → Prop
  | .ok _ | .error (.shell _) | .error (.interrupt _) => True
  | .error _ => False

def Contained : Except Fault Int → Prop
  | .ok _ | .error (.interrupt _) => True
  | .error _ => False

/-- The machine sees a NUL of one of the targets; those before it are opened. -/
def targetsEscape (session : Session) (machine : Machine) : List Redirection → Bool
  | [] => false
  | redirection :: rest =>
    machine.seesNul (session.resolve machine redirection.path) ||
      match openRedirection session machine redirection with
      | (.ok _, machine) => targetsEscape session machine rest
      | (.error _, _) => false

def programRefusal? (toolbox : Toolbox) (machine : Machine) (session : Session) :
    List String → Option Fault
  | [] => none
  | name :: arguments =>
    match toolbox.dispatch machine session name with
    | .program path => (invocationFor session path (name :: arguments)).refusal?
    | .builtin _ | .unknown => none

def CommandLine.escape? (line : CommandLine) (toolbox : Toolbox) (state : ShellState) :
    Option Fault :=
  match line.segments with
  | [] => none
  | [words] =>
    if targetsEscape state.session state.machine line.redirections then some .nulByte
    else
      match openRedirections state.session state.machine {} line.redirections with
      | (.ok _, machine) => programRefusal? toolbox machine state.session words
      | (.error _, _) => none
  | segments => segments.findSome? (programRefusal? toolbox state.machine state.session)

/-- The fault that gets out of a line as it was typed, when no interrupt comes first. -/
def escape? (toolbox : Toolbox) (text : String) (state : ShellState) : Option Fault :=
  match CommandLine.parse text with
  | .error _ => none
  | .ok line =>
    match toolbox.interruption? line state with
    | some _ => none
    | none => line.escape? toolbox state

theorem openRedirections_escape {session : Session} {machine : Machine}
    {redirections : List Redirection} (rerouting : Rerouting)
    (escape : targetsEscape session machine redirections = true) :
    (openRedirections session machine rerouting redirections).1 = .error .nulByte := by
  induction redirections generalizing machine rerouting with
  | nil => cases escape
  | cons redirection rest ih =>
    rw [targetsEscape, Bool.or_eq_true] at escape
    rw [openRedirections]
    cases opened : openRedirection session machine redirection with
    | mk result next =>
      rcases escape with nul | later
      · have failed := openRedirection_nul nul
        rw [opened] at failed
        cases failed
        rfl
      · rw [opened] at later
        cases result with
        | ok sink => exact ih _ later
        | error fault => cases later

theorem openRedirections_settled {session : Session} {machine : Machine}
    {redirections : List Redirection} {rerouting : Rerouting} {fault : Fault}
    (hidden : targetsEscape session machine redirections = false)
    (failed : (openRedirections session machine rerouting redirections).1 = .error fault) :
    ∃ error, fault = .shell error := by
  induction redirections generalizing machine rerouting with
  | nil => cases failed
  | cons redirection rest ih =>
    rw [targetsEscape, Bool.or_eq_false_iff] at hidden
    rw [openRedirections] at failed
    cases opened : openRedirection session machine redirection with
    | mk result next =>
      rw [opened] at failed hidden
      cases result with
      | ok sink => exact ih hidden.2 failed
      | error refusal =>
        cases failed
        exact openRedirection_clean hidden.1 (congrArg Prod.fst opened)

theorem runBuiltin_contained (name : String) (command : Command) (arguments : List String)
    (frame : Frame) : Contained (runBuiltin name command arguments frame).1 := by
  unfold runBuiltin
  split <;> exact trivial

theorem runProgram_refused {toolbox : Toolbox} {stdin : Stdin} {path name : String}
    {arguments : List String} {frame : Frame} {fault : Fault}
    (refused : (invocationFor frame.session path (name :: arguments)).refusal? = some fault) :
    (runProgram toolbox stdin path name arguments frame).1 = .error fault := by
  simp [runProgram, refused]

theorem runProgram_contained {toolbox : Toolbox} {stdin : Stdin} {path name : String}
    {arguments : List String} {frame : Frame}
    (accepted : (invocationFor frame.session path (name :: arguments)).refusal? = none) :
    Contained (runProgram toolbox stdin path name arguments frame).1 := by
  unfold runProgram
  simp only [accepted]
  split <;> exact trivial

theorem runWords_refused {toolbox : Toolbox} {stdin : Stdin} {words : List String} {frame : Frame}
    {fault : Fault}
    (refused : programRefusal? toolbox frame.machine frame.session words = some fault) :
    (runWords toolbox stdin words frame).1 = .error fault := by
  cases words with
  | nil => cases refused
  | cons name arguments =>
    rw [programRefusal?] at refused
    rw [runWords]
    cases stands : toolbox.dispatch frame.machine frame.session name with
    | builtin command => simp [stands] at refused
    | program path => exact runProgram_refused (by simpa [stands] using refused)
    | unknown => simp [stands] at refused

theorem runWords_contained {toolbox : Toolbox} {stdin : Stdin} {words : List String}
    {frame : Frame} (named : words ≠ [])
    (accepted : programRefusal? toolbox frame.machine frame.session words = none) :
    Contained (runWords toolbox stdin words frame).1 := by
  cases words with
  | nil => exact absurd rfl named
  | cons name arguments =>
    rw [programRefusal?] at accepted
    rw [runWords]
    cases stands : toolbox.dispatch frame.machine frame.session name with
    | builtin command => exact runBuiltin_contained name command arguments frame
    | program path => exact runProgram_contained (by simpa [stands] using accepted)
    | unknown => exact trivial

theorem Contained.settled {result : Except Fault Int} (contained : Contained result) :
    Settled result := by
  cases result with
  | ok status => trivial
  | error fault => cases fault <;> trivial

/-- What is opened and then closed is not held any more. -/
theorem Streams.close_hold (streams : Streams) (files : List OpenFile) :
    (streams.hold files).close files = streams := by
  have closed : files.foldl List.erase (files ++ streams.held) = streams.held := by
    induction files with
    | nil => rfl
    | cons file rest ih => rw [List.foldl_cons, List.cons_append, List.erase_cons_head, ih]
  rw [close, hold, closed]

theorem runCommand_opened {toolbox : Toolbox} {words : List String}
    {redirections : List Redirection} {state : ShellState} {rerouting : Rerouting}
    {machine : Machine}
    (opened : openRedirections state.session state.machine {} redirections =
      (.ok rerouting, machine)) :
    runCommand toolbox words redirections state =
      ((runWords toolbox state.streams.stdin words
          (ShellState.frame { state with machine } rerouting)).1,
        ShellState.after { state with machine } rerouting
          (runWords toolbox state.streams.stdin words
            (ShellState.frame { state with machine } rerouting)).2) := by
  have closed (frame : Frame) := (ShellState.after { state with machine } rerouting frame).streams
    |>.close_hold (openedFiles state.session state.machine redirections)
  simp only [runCommand, opened]
  exact Prod.ext rfl (congrArg (ShellState.mk _ _) (closed _))

theorem runCommand_unopened {toolbox : Toolbox} {words : List String}
    {redirections : List Redirection} {state : ShellState} {fault : Fault} {machine : Machine}
    (failed : openRedirections state.session state.machine {} redirections =
      (.error fault, machine)) :
    runCommand toolbox words redirections state = (.error fault, { state with machine }) := by
  simp [runCommand, failed, Streams.close_hold]

theorem runCommand_escape {toolbox : Toolbox} {words : List String}
    {redirections : List Redirection} {state : ShellState} {fault : Fault}
    (escape : CommandLine.escape? ⟨[words], redirections⟩ toolbox state = some fault) :
    (runCommand toolbox words redirections state).1 = .error fault := by
  simp only [CommandLine.escape?] at escape
  cases opened : openRedirections state.session state.machine {} redirections with
  | mk result machine =>
    rw [opened] at escape
    split at escape
    case isTrue targets =>
      cases escape
      have failed := openRedirections_escape {} targets
      rw [opened] at failed
      cases failed
      rw [runCommand_unopened opened]
    case isFalse =>
      cases result with
      | error refusal => cases escape
      | ok rerouting =>
        rw [runCommand_opened opened]
        exact runWords_refused escape

theorem runCommand_settled {toolbox : Toolbox} {words : List String}
    {redirections : List Redirection} {state : ShellState} (named : words ≠ [])
    (inside : CommandLine.escape? ⟨[words], redirections⟩ toolbox state = none) :
    Settled (runCommand toolbox words redirections state).1 := by
  simp only [CommandLine.escape?] at inside
  cases opened : openRedirections state.session state.machine {} redirections with
  | mk result machine =>
    rw [opened] at inside
    split at inside
    case isTrue => cases inside
    case isFalse targets =>
      cases result with
      | error refusal =>
        obtain ⟨error, rfl⟩ := openRedirections_settled (Bool.eq_false_iff.mpr targets)
          (congrArg Prod.fst opened)
        rw [runCommand_unopened opened]
        exact trivial
      | ok rerouting =>
        rw [runCommand_opened opened]
        exact Contained.settled (runWords_contained named inside)

namespace Pipeline

theorem refusal?_make (toolbox : Toolbox) (machine : Machine) (session : Session)
    (inheritsInput : Bool) (name : String) (arguments : List String) :
    refusal? (Handle.make toolbox machine session inheritsInput name arguments) =
      programRefusal? toolbox machine session (name :: arguments) := by
  rw [Handle.make, programRefusal?]
  cases toolbox.dispatch machine session name <;> rfl

theorem handles?_some {toolbox : Toolbox} {state : ShellState} {segments : List (List String)}
    (named : ∀ words ∈ segments, words ≠ []) (inheritsInput : Bool) :
    ∃ handles, handles? toolbox state inheritsInput segments = some handles ∧
      handles.length = segments.length ∧
      handles.findSome? refusal? =
        segments.findSome? (programRefusal? toolbox state.machine state.session) := by
  induction segments generalizing inheritsInput with
  | nil => exact ⟨[], rfl, rfl, rfl⟩
  | cons words rest ih =>
    cases words with
    | nil => exact absurd rfl (named [] (by simp))
    | cons name arguments =>
      obtain ⟨handles, made, count, refusals⟩ :=
        ih (fun words member => named words (by simp [member])) false
      refine ⟨Handle.make toolbox state.machine state.session inheritsInput name arguments ::
        handles, by rw [handles?, made]; rfl, by simp [count], ?_⟩
      rw [List.findSome?_cons, List.findSome?_cons, refusal?_make, refusals]

theorem runSegment_ok (toolbox : Toolbox) {handle : Handle} (accepted : refusal? handle = none)
    (session : Session) (machine : Machine) (input : Bytes) :
    ∃ finished, runSegment toolbox session handle machine input = .ok finished := by
  unfold runSegment
  cases handle with
  | builtin name command arguments forked => exact ⟨_, rfl⟩
  | external invocation inheritsInput =>
    have accepted : invocation.refusal? = none := accepted
    cases started : toolbox.spawn invocation { machine, input, out := .empty, err := .empty } with
    | ok result => exact ⟨_, by simp [Handle.run, accepted, started]; rfl⟩
    | error e => exact ⟨_, by simp [Handle.run, accepted, started, Handle.failing]; rfl⟩

theorem advance_ok (toolbox : Toolbox) {handle : Handle} (accepted : refusal? handle = none)
    (progress : Progress) : ∃ next, advance toolbox progress handle = .ok next := by
  obtain ⟨finished, ran⟩ := runSegment_ok toolbox accepted progress.state.session
    progress.state.machine progress.output
  exact ⟨_, by simp [advance, ran]; rfl⟩

theorem advanceAll_ok (toolbox : Toolbox) {handles : List Handle}
    (accepted : ∀ handle ∈ handles, refusal? handle = none) (progress : Progress) :
    ∃ last, advanceAll toolbox progress handles = .ok last := by
  induction handles generalizing progress with
  | nil => exact ⟨progress, rfl⟩
  | cons handle rest ih =>
    obtain ⟨next, advanced⟩ := advance_ok toolbox (accepted handle (by simp)) progress
    obtain ⟨last, finished⟩ := ih (fun handle member => accepted handle (by simp [member])) next
    exact ⟨last, by simp [advanceAll, advanced, finished]⟩

end Pipeline

theorem runPipeline_escape {toolbox : Toolbox} {segments : List (List String)} {state : ShellState}
    {fault : Fault} (named : ∀ words ∈ segments, words ≠ [])
    (escape : segments.findSome? (programRefusal? toolbox state.machine state.session) =
      some fault) :
    (runPipeline toolbox segments state).1 = .error fault := by
  obtain ⟨handles, made, -, refusals⟩ :=
    Pipeline.handles?_some named (Pipeline.isTerminal state.streams.stdin)
  rw [escape] at refusals
  cases handles with
  | nil => cases refusals
  | cons first rest => simp [runPipeline, made, refusals]

theorem runPipeline_ok {toolbox : Toolbox} {segments : List (List String)} {state : ShellState}
    (present : segments ≠ []) (named : ∀ words ∈ segments, words ≠ [])
    (inside : segments.findSome? (programRefusal? toolbox state.machine state.session) = none) :
    ∃ status, (runPipeline toolbox segments state).1 = .ok status := by
  obtain ⟨handles, made, count, refusals⟩ :=
    Pipeline.handles?_some named (Pipeline.isTerminal state.streams.stdin)
  rw [inside] at refusals
  cases handles with
  | nil => exact absurd (List.eq_nil_of_length_eq_zero count.symm) present
  | cons first rest =>
    have accepted := List.findSome?_eq_none_iff.mp refusals
    obtain ⟨progress, advanced⟩ := Pipeline.advance_ok toolbox (accepted first (by simp))
      { state, output := Pipeline.firstInput toolbox first state.streams.stdin }
    have others : ∀ handle ∈ rest, Pipeline.refusal? handle = none :=
      fun handle member => accepted handle (by simp [member])
    simp only [runPipeline, made, refusals, advanced]
    split
    case h_1 failed =>
      obtain ⟨last, finished⟩ := Pipeline.advanceAll_ok toolbox others _
      rw [failed] at finished
      cases finished
    case h_2 last finished => exact ⟨last.status, rfl⟩

theorem runParsed_escape {toolbox : Toolbox} {line : CommandLine} {state : ShellState}
    {fault : Fault} (named : ∀ words ∈ line.segments, words ≠ [])
    (escape : line.escape? toolbox state = some fault) :
    (runParsed toolbox line state).1 = .error fault := by
  obtain ⟨segments, redirections⟩ := line
  match segments with
  | [] => cases escape
  | [words] => exact runCommand_escape escape
  | first :: second :: rest => exact runPipeline_escape named escape

theorem runParsed_settled {toolbox : Toolbox} {line : CommandLine} {state : ShellState}
    (named : ∀ words ∈ line.segments, words ≠ []) (inside : line.escape? toolbox state = none) :
    Settled (runParsed toolbox line state).1 := by
  obtain ⟨segments, redirections⟩ := line
  match segments with
  | [] => exact trivial
  | [words] => exact runCommand_settled (named words (by simp)) inside
  | first :: second :: rest =>
    obtain ⟨status, ran⟩ := runPipeline_ok (by simp) named inside
    rw [runParsed, ran]
    exact trivial

theorem named_of_parse {text : String} {line : CommandLine}
    (parsed : CommandLine.parse text = .ok line) : ∀ words ∈ line.segments, words ≠ [] := by
  intro words member
  have present : line.segments ≠ [] := by
    rintro none
    simp [none] at member
  exact ((CommandLine.parse_wellFormed text line parsed present).segments words member).1

def Fault.Unpassable (fault : Fault) : Prop :=
  fault = .nulByte ∨ fault = .value "illegal environment variable name"

theorem programRefusal?_unpassable {toolbox : Toolbox} {machine : Machine} {session : Session}
    {words : List String} {fault : Fault}
    (refused : programRefusal? toolbox machine session words = some fault) : fault.Unpassable := by
  cases words with
  | nil => cases refused
  | cons name arguments =>
    rw [programRefusal?] at refused
    split at refused
    · rw [Invocation.refusal?] at refused
      split at refused
      · cases refused; exact .inr rfl
      · split at refused
        · cases refused; exact .inl rfl
        · cases refused
    · cases refused
    · cases refused

theorem escape?_unpassable {toolbox : Toolbox} {text : String} {state : ShellState} {fault : Fault}
    (escape : escape? toolbox text state = some fault) : fault.Unpassable := by
  rw [escape?] at escape
  split at escape
  · cases escape
  · split at escape
    · cases escape
    · rw [CommandLine.escape?] at escape
      split at escape
      · cases escape
      · split at escape
        · cases escape; exact .inl rfl
        · split at escape
          · exact programRefusal?_unpassable escape
          · cases escape
      · obtain ⟨words, -, refused⟩ := List.exists_of_findSome?_eq_some escape
        exact programRefusal?_unpassable refused

theorem runText_escape {toolbox : Toolbox} {text : String} {state : ShellState} {fault : Fault}
    (escape : escape? toolbox text state = some fault) :
    (runText toolbox text state).1 = .error fault := by
  rw [escape?] at escape
  rw [runText]
  cases parsed : CommandLine.parse text with
  | error e => simp [parsed] at escape
  | ok line =>
    simp only [parsed] at escape
    change (runInterruptibly toolbox line state).1 = .error fault
    rw [runInterruptibly]
    cases interruption : toolbox.interruption? line state with
    | some left => simp [interruption] at escape
    | none =>
      simp only [interruption] at escape
      exact runParsed_escape (named_of_parse parsed) escape

theorem runText_settled {toolbox : Toolbox} {text : String} {state : ShellState}
    (inside : escape? toolbox text state = none) : Settled (runText toolbox text state).1 := by
  rw [escape?] at inside
  rw [runText]
  cases parsed : CommandLine.parse text with
  | error e => exact trivial
  | ok line =>
    simp only [parsed] at inside
    change Settled (runInterruptibly toolbox line state).1
    rw [runInterruptibly]
    cases interruption : toolbox.interruption? line state with
    | some left => exact trivial
    | none =>
      simp only [interruption] at inside
      exact runParsed_settled (named_of_parse parsed) inside

/-- A text that cannot be handed to the machine ends the line with a fault. -/
theorem runLine_escape {toolbox : Toolbox} {text : String} {state : ShellState} {fault : Fault}
    (escape : escape? toolbox text state = some fault) :
    (runLine toolbox text state).1 = .error fault := by
  have failed := runText_escape escape
  rw [runLine]
  split
  case h_1 reported =>
    rw [reported] at failed
    cases failed
    rcases escape?_unpassable escape with shown | shown <;> cases shown
  case h_2 => exact failed

/-- Nothing else gets out of a line but an interrupt. -/
theorem runLine_contained {toolbox : Toolbox} {text : String} {state : ShellState}
    (inside : escape? toolbox text state = none) :
    Contained (runLine toolbox text state).1 := by
  have settled := runText_settled inside
  rw [runLine]
  split
  case h_1 => exact trivial
  case h_2 unreported =>
    cases ran : runText toolbox text state with
    | mk result next =>
      rw [ran] at settled
      cases result with
      | ok status => exact trivial
      | error fault =>
        cases fault with
        | interrupt message => exact trivial
        | shell error => exact absurd ran (unreported error next)
        | _ => exact settled.elim

end CommandShell
