import Mathlib.Data.List.Perm.Subperm
import CommandShell.FileTree.System
import CommandShell.Proofs.CompletedLine
import CommandShell.Proofs.Escape
import CommandShell.Proofs.OpenedTargets

/-! Lines that end before anything of them runs: the line cannot be read, or one of its targets
cannot be opened. The error is reported on the stream of the shell, with a status of its own, and
nothing else is left of the line but what the targets before the failing one needed. A target
whose NUL gets as far as the machine is the only one that is not reported. -/
namespace CommandShell

namespace Path

theorem hasNul_of_join {base path : String} (nul : hasNul (join base path) = true) :
    hasNul base = true ∨ hasNul path = true := by
  have slash : hasNul "/" = false := by decide
  rw [join] at nul
  split at nul
  · exact .inr nul
  · split at nul
    · rwa [hasNul_append, Bool.or_eq_true] at nul
    · simpa [hasNul_append, slash] using nul

/-- Normalising makes no name up. -/
theorem mem_pushPieces {rooted : Bool} {pieces stack : List String} {name : String}
    (member : name ∈ pieces.foldl (pushPiece rooted) stack) : name ∈ pieces ∨ name ∈ stack := by
  induction pieces generalizing stack with
  | nil => exact .inr member
  | cons piece rest ih =>
    rcases ih member with later | pushed
    · exact .inl (List.mem_cons_of_mem _ later)
    · have origin : name = piece ∨ name ∈ stack := by
        unfold pushPiece at pushed
        grind
      rcases origin with rfl | old
      · exact .inl List.mem_cons_self
      · exact .inr old

theorem hasNul_of_normalize {path : String} (nul : hasNul (normalize path) = true) :
    hasNul path = true := by
  rw [normalize, hasNul_ofNames, List.any_eq_true] at nul
  obtain ⟨name, member, nul⟩ := nul
  rw [List.mem_reverse] at member
  have piece : name ∈ pieces path := (mem_pushPieces member).resolve_right (by simp)
  have named : name ≠ "" := by
    rintro rfl
    cases nul
  rw [← hasNul_components, List.any_eq_true]
  exact ⟨name, List.mem_filter.mpr ⟨piece, by simpa using named⟩, nul⟩

end Path

namespace Session

theorem hasNul_of_expand {session : Session} {machine : Machine} {path : String}
    (nul : Path.hasNul (session.expand machine path) = true) :
    Path.hasNul (session.home machine) = true ∨ Path.hasNul path = true := by
  rw [expand] at nul
  split at nul
  · exact .inl nul
  next rest spelled =>
    rw [Path.hasNul_append, Bool.or_eq_true] at nul
    refine nul.imp_right fun inside => ?_
    rw [Path.hasNul_iff] at inside ⊢
    rw [spelled]
    exact List.mem_cons_of_mem _ (by simpa using inside)
  · exact .inr nul

/-- The NUL of a target comes from the target, or from the directories that it is seen from. -/
theorem hasNul_of_resolve {session : Session} {machine : Machine} {path : String}
    (nul : Path.hasNul (session.resolve machine path) = true) :
    Path.hasNul session.cwd = true ∨ Path.hasNul (session.home machine) = true ∨
      Path.hasNul path = true := by
  rw [resolve] at nul
  exact (Path.hasNul_of_join (Path.hasNul_of_normalize nul)).imp_right hasNul_of_expand

theorem home_changed {session : Session} {places : List Location} {before after : Machine}
    (changed : Machine.ChangedAt places before after) :
    session.home after = session.home before := by
  rw [home, home, processHome, processHome, changed.environment, changed.account]

end Session

/-- The characters of a word are those of the line. -/
theorem mem_of_mem_scan (splitPipes : Bool) {text : String} {word : Word} {c : Char}
    (member : word ∈ (scan splitPipes text).flatten) (inside : c ∈ word.text.toList) :
    c ∈ text.toList := by
  have gathered := Scanner.run_occurrences splitPipes text.toList {} c
  rw [← Scanner.finish_occurrences] at gathered
  have found : c ∈ ((scan splitPipes text).flatten.flatMap (·.text.toList)) :=
    List.mem_flatMap.mpr ⟨word, member, inside⟩
  have counted : 0 < ((scan splitPipes text).flatten.flatMap (·.text.toList)).count c :=
    List.count_pos_iff.mpr found
  have none : Scanner.occurrences {} c = 0 := by
    simp [Scanner.occurrences, Scanner.gathered, Scanner.made]
  rw [none, Nat.zero_add] at gathered
  exact List.count_pos_iff.mp (Nat.lt_of_lt_of_le counted gathered)

theorem hasNul_of_target {text : String} {line : CommandLine} {redirection : Redirection}
    (read : CommandLine.parse text = .ok line) (member : redirection ∈ line.redirections)
    (nul : Path.hasNul redirection.path = true) : Path.hasNul text = true := by
  rw [CommandLine.parse] at read
  split at read
  · cases read
    cases member
  next words scanned =>
    have texts : ∀ word ∈ words, Path.hasNul word.text = true → Path.hasNul text = true := by
      intro word inside nul
      rw [Path.hasNul_iff] at nul ⊢
      exact mem_of_mem_scan true (by simpa [scanned] using inside) nul
    cases taken : parseRedirections words with
    | error e => simp [taken] at read
    | ok result =>
      have paths := takeRedirections_paths
        (P := fun path => Path.hasNul path = true → Path.hasNul text = true) texts (by simp) taken
      obtain ⟨arguments, redirections⟩ := result
      cases arguments with
      | nil => simp [taken] at read
      | cons name arguments =>
        simp only [taken, Except.ok.injEq] at read
        subst read
        exact paths redirection member nul
  · split at read
    · cases read
    · cases read
      cases member

/-- A NUL that gets as far as the machine comes from a target, or from the directories that the
targets are seen from. -/
theorem hasNul_of_targetsEscape {session : Session} {machine : Machine}
    {redirections : List Redirection}
    (escape : targetsEscape session machine redirections = true) :
    Path.hasNul session.cwd = true ∨ Path.hasNul (session.home machine) = true ∨
      ∃ redirection ∈ redirections, Path.hasNul redirection.path = true := by
  induction redirections generalizing machine with
  | nil => cases escape
  | cons redirection rest ih =>
    rw [targetsEscape, Bool.or_eq_true] at escape
    rcases escape with nul | later
    · rw [Machine.seesNul, Bool.and_eq_true] at nul
      rcases Session.hasNul_of_resolve nul.1 with cwd | home | path
      · exact .inl cwd
      · exact .inr (.inl home)
      · exact .inr (.inr ⟨redirection, by simp, path⟩)
    · rw [openRedirection] at later
      split at later
      next opened =>
        split at opened
        · cases opened
        next tried =>
          cases opened
          -- Opening the target leaves the home directory that the later ones are seen from.
          rw [← Session.home_changed (Machine.openBelow_opened tried).1]
          rcases ih later with cwd | home | ⟨target, member, path⟩
          · exact .inl cwd
          · exact .inr (.inl home)
          · exact .inr (.inr ⟨target, List.mem_cons_of_mem _ member, path⟩)
      · cases later

namespace OpensInTurn

variable {session : Session} {machine left : Machine} {redirections : List Redirection}
  {files : List OpenFile} {failing : Redirection} {fault : Fault}

/-- Unless the machine gets to see a NUL, what it answers is an error of its own. -/
theorem refused_by_system
    (opening : OpensInTurn session machine redirections files (some (failing, fault)) left)
    (hidden : targetsEscape session machine redirections = false) : ∃ e, fault = .system e := by
  generalize refusal : some (failing, fault) = refusal? at opening
  induction opening with
  | done machine => cases refusal
  | refused tried =>
    cases refusal
    rw [targetsEscape, Bool.or_eq_false_iff] at hidden
    exact Machine.openBelow_clean hidden.1 (congrArg Prod.fst tried)
  | opened tried _ ih =>
    rw [targetsEscape, Bool.or_eq_false_iff] at hidden
    refine ih ?_ refusal
    simpa [openRedirection, tried] using hidden.2

/-- One of the targets was not opened. -/
theorem length_lt_of_refused
    (opening : OpensInTurn session machine redirections files (some (failing, fault)) left) :
    files.length < redirections.length := by
  generalize refusal : some (failing, fault) = refusal? at opening
  induction opening with
  | done machine => cases refusal
  | refused tried => simp
  | opened tried _ ih => simpa using ih refusal

end OpensInTurn

def targetsOf (text : String) : List Redirection :=
  match CommandLine.parse text with
  | .error _ => []
  | .ok line => line.redirections

def FailsEarly (text : String) (state : ShellState) : Prop :=
  (∃ e, CommandLine.parse text = .error e) ∨
    ∃ files failing fault left,
      OpensInTurn state.session state.machine (targetsOf text) files (some (failing, fault)) left

def startsUp (text : String) (state : ShellState) : Bool :=
  (CommandLine.parse text).isOk &&
    (openRedirections state.session state.machine {} (targetsOf text)).1.isOk

theorem failsEarly_iff (text : String) (state : ShellState) :
    FailsEarly text state ↔ startsUp text state = false := by
  obtain ⟨files, refusal?, left, opening⟩ :=
    OpensInTurn.exists_opening state.session state.machine (targetsOf text)
  rw [startsUp, Bool.and_eq_false_iff]
  apply or_congr
  · cases CommandLine.parse text <;> simp [Except.isOk, Except.toBool]
  · constructor
    · rintro ⟨files, failing, fault, left, refused⟩
      rw [refused.openRedirections_eq]
      rfl
    · intro refused
      rw [opening.openRedirections_eq] at refused
      cases refusal? with
      | none => cases refused
      | some refusal => exact ⟨files, refusal.1, refusal.2, left, opening⟩

instance (text : String) (state : ShellState) : Decidable (FailsEarly text state) :=
  decidable_of_iff _ (failsEarly_iff text state).symm

/-- The status and the message with which a line ends before anything of it runs, the files that
were open by then, and the machine as the targets left it. -/
inductive EndsEarly (text : String) (state : ShellState) :
    Int → String → List OpenFile → Machine → Prop
  | unread {e : LineError} (refused : CommandLine.parse text = .error e) :
      EndsEarly text state 2 e.message [] state.machine
  | unopened {files : List OpenFile} {failing : Redirection} {e : SystemError} {left : Machine}
      (opening : OpensInTurn state.session state.machine (targetsOf text) files
        (some (failing, .system e)) left) :
      EndsEarly text state 1 (failing.path ++ ": " ++ e.text) files left

/-- Between the two states nothing happened but that the machine became `left`, and `data` was
written to the error stream of the shell: once, and if the stream takes it. No file is open that
was not open before. -/
structure OnlyReported (state : ShellState) (left : Machine) (data : Bytes) (final : ShellState) :
    Prop where
  session : final.session = state.session
  stdin : final.streams.stdin = state.streams.stdin
  out : final.streams.out = state.streams.out
  held : final.streams.held = state.streams.held
  err : match state.streams.err.write data left.files with
    | .ok (sink, files) => final.streams.err = sink ∧ final.machine = { left with files }
    | .error _ => final.streams.err = state.streams.err ∧ final.machine = left
  collected : state.streams.err.collects = true →
    final.streams.err.bytes = state.streams.err.bytes ++ data ∧ final.machine = left

theorem deliver_onlyReported (state : ShellState) (left : Machine) (data : Bytes) :
    OnlyReported state left data (ShellState.deliver { state with machine := left } .err data) := by
  cases taken : state.streams.err.write data left.files with
  | error fault =>
    have same : ShellState.deliver { state with machine := left } .err data =
        { state with machine := left } := by
      simp [ShellState.deliver, taken]
    rw [same]
    refine ⟨rfl, rfl, rfl, rfl, by simp [taken], fun collects => ?_⟩
    obtain ⟨next, written, -⟩ := Sink.write_collects collects data left.files
    cases taken.symm.trans written
  | ok result =>
    obtain ⟨sink, files⟩ := result
    have same : ShellState.deliver { state with machine := left } .err data =
        ⟨{ left with files }, state.session, { state.streams with err := sink }⟩ := by
      simp [ShellState.deliver, taken]
    rw [same]
    refine ⟨rfl, rfl, rfl, rfl, by simp [taken], fun collects => ?_⟩
    obtain ⟨next, written, -, bytes⟩ := Sink.write_collects collects data left.files
    cases taken.symm.trans written
    exact ⟨bytes, rfl⟩

/-- Only a single command has targets. -/
theorem single_of_targets {text : String} (redirected : targetsOf text ≠ []) :
    ∃ words, CommandLine.parse text = .ok ⟨[words], targetsOf text⟩ := by
  cases read : CommandLine.parse text with
  | error e => simp [targetsOf, read] at redirected
  | ok line =>
    obtain ⟨segments, redirections⟩ := line
    have targets : targetsOf text = redirections := by simp [targetsOf, read]
    rw [targets] at redirected ⊢
    have nonblank : segments ≠ [] := by
      rintro rfl
      rw [CommandLine.parse] at read
      split at read
      · cases read
        exact redirected rfl
      next words _ => split at read <;> cases read
      next several =>
        split at read
        · cases read
        · simp only [Except.ok.injEq, CommandLine.mk.injEq] at read
          exact redirected read.2.symm
    have valid := CommandLine.parse_wellFormed text ⟨segments, redirections⟩ read nonblank
    obtain ⟨words, single⟩ := List.length_eq_one_iff.mp (valid.single redirected)
    exact ⟨words, by rw [show segments = [words] from single]⟩

/-- What runs does not get as far as a command. -/
theorem EndsEarly.runLine_eq {text : String} {state : ShellState} {status : Int} {message : String}
    {files : List OpenFile} {left : Machine}
    (ends : EndsEarly text state status message files left) {toolbox : Toolbox}
    (calm : ∀ line, toolbox.interruption? line state = none) :
    runLine toolbox text state =
      (.ok status, ShellState.deliver { state with machine := left } .err
        (Text.encodeText ("pipeshell: " ++ message ++ "\n"))) := by
  cases ends with
  | unread refused =>
    simp [runLine, runText, refused, ShellError.status, ShellError.message, ShellState.report,
      programName]
  | unopened opening =>
    have redirected : targetsOf text ≠ [] := by
      intro none
      have shorter := opening.length_lt_of_refused
      simp [none] at shorter
    obtain ⟨words, read⟩ := single_of_targets redirected
    have failed := opening.openRedirections_eq {}
    simp [runLine, runText, read, runInterruptibly, calm, runParsed, runCommand_unopened failed,
      Redirection.fault, ShellError.status, ShellError.message, ShellState.report, programName]

theorem targetsOf_streams (text : String) : ((targetsOf text).map Redirection.stream).Nodup := by
  by_cases redirected : targetsOf text = []
  · simp [redirected]
  · obtain ⟨words, read⟩ := single_of_targets redirected
    exact (CommandLine.parse_wellFormed text _ read (by simp)).streams

/-- A line has one target for each stream, so at most one was opened before another failed. -/
theorem distinct_of_refused {text : String} {session : Session} {machine left : Machine}
    {files : List OpenFile} {failing : Redirection} {fault : Fault}
    (opening : OpensInTurn session machine (targetsOf text) files (some (failing, fault)) left) :
    (files.flatMap OpenFile.places).Nodup := by
  have two : (targetsOf text).length ≤ 2 := by
    have among : (targetsOf text).map Redirection.stream ⊆ [.out, .err] :=
      fun stream _ => by cases stream <;> simp
    simpa using (List.subperm_of_subset (targetsOf_streams text) among).length_le
  have fewer := opening.length_lt_of_refused
  rcases files with _ | ⟨file, _ | ⟨second, rest⟩⟩
  · simp
  · cases file <;> simp [OpenFile.places]
  · simp only [List.length_cons] at fewer
    omega

/-- All that the targets of the line did to the files: those that were opened are held, the
regular ones with their earlier bytes at most, and elsewhere directories are made. -/
structure OnlyOpened (text : String) (state : ShellState) (files : List OpenFile)
    (left : Machine) : Prop where
  held : openedFiles state.session state.machine (targetsOf text) = files
  contents : ∀ redirection location offset append,
    (redirection, OpenFile.regular location offset append) ∈ (targetsOf text).zip files →
      Machine.HoldsOpened state.machine left redirection.append location
  elsewhere : Machine.ChangedAt (files.flatMap OpenFile.places) state.machine left

theorem EndsEarly.onlyOpened {text : String} {state : ShellState} {status : Int} {message : String}
    {files : List OpenFile} {left : Machine}
    (ends : EndsEarly text state status message files left) :
    OnlyOpened text state files left := by
  cases ends with
  | unread refused =>
    have none : targetsOf text = [] := by simp [targetsOf, refused]
    exact ⟨by rw [none]; rfl, by simp, .refl _⟩
  | unopened opening =>
    exact ⟨opening.openedFiles_eq,
      fun _ _ _ _ member => (opening.contents (distinct_of_refused opening) member).2.2,
      opening.changed⟩

/-- Nothing in the line or in the directories of the session holds a NUL, so that whatever refuses
a target is the machine. -/
theorem targetsEscape_eq_false {text : String} {state : ShellState}
    (line : Path.hasNul text = false) (cwd : Path.hasNul state.session.cwd = false)
    (home : Path.hasNul (state.session.home state.machine) = false) :
    targetsEscape state.session state.machine (targetsOf text) = false := by
  rw [Bool.eq_false_iff]
  intro escape
  rcases hasNul_of_targetsEscape escape with nul | nul | ⟨redirection, member, nul⟩
  · simp [cwd] at nul
  · simp [home] at nul
  · obtain ⟨words, read⟩ := single_of_targets (List.ne_nil_of_mem member)
    simp [hasNul_of_target read member nul] at line

theorem FailsEarly.endsEarly {text : String} {state : ShellState} (fails : FailsEarly text state)
    (hidden : targetsEscape state.session state.machine (targetsOf text) = false) :
    ∃ status message files left, EndsEarly text state status message files left := by
  rcases fails with ⟨e, refused⟩ | ⟨files, failing, fault, left, opening⟩
  · exact ⟨2, e.message, [], state.machine, .unread refused⟩
  · obtain ⟨e, rfl⟩ := opening.refused_by_system hidden
    exact ⟨1, _, files, left, .unopened opening⟩

def attendedShell : ShellState where
  machine := { files := .system, directory := "/tmp" }
  session := { cwd := "/tmp", environment := [("HOME", "/root")] }
  streams := { stdin := .terminal [], err := .terminal [] }

end CommandShell
