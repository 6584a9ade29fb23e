import CommandShell.Program.Launch
import CommandShell.Proofs.LiveSession
import CommandShell.Proofs.ProgramLookup

/-! Which file a program that was found is started from. The search sees relative directories from
the working directory of the process, the program sees its path from that of the session; only
an absolute path means the same file to both. -/
namespace CommandShell

namespace Path

theorem isAbsolute_ofNames {leading : Nat} (rooted : 0 < leading) (names : List String) :
    isAbsolute (ofNames leading names) = true := by
  obtain ⟨rest, rfl⟩ : ∃ rest, leading = rest + 1 := ⟨leading - 1, by omega⟩
  have text : slashes (rest + 1) ++ "/".intercalate names ≠ "" := by
    intro empty
    simpa [slashes] using congrArg String.toList empty
  rw [ofNames, if_neg text, isAbsolute]
  simp [slashes, List.replicate_succ]

theorem isAbsolute_normalize {path : String} (absolute : isAbsolute path = true) :
    isAbsolute (normalize path) = true := by
  rw [normalize]
  refine isAbsolute_ofNames ?_ _
  obtain ⟨rest, text⟩ := List.head?_eq_some_iff.mp (beq_iff_eq.mp absolute)
  rw [leadingSlashes, text]
  split <;> simp_all

theorem isAbsolute_join_left {base : String} (absolute : isAbsolute base = true) (path : String) :
    isAbsolute (join base path) = true := by
  rw [join]
  split
  · assumption
  · obtain ⟨rest, text⟩ := List.head?_eq_some_iff.mp (beq_iff_eq.mp absolute)
    split <;> simp [isAbsolute, text]

theorem slash_of_isAbsolute {path : String} (absolute : isAbsolute path = true) :
    '/' ∈ path.toList :=
  List.mem_of_head? (beq_iff_eq.mp absolute)

end Path

namespace Machine

theorem lookupFrom_absolute (machine : Machine) {path : String}
    (absolute : Path.isAbsolute path = true) (base other : Location) (purpose : FileTree.Purpose) :
    machine.lookupFrom base purpose path = machine.lookupFrom other purpose path := by
  simp [lookupFrom, absolute]

theorem isAbsolute_canonical (machine : Machine) {path : String}
    (absolute : Path.isAbsolute path = true) : Path.isAbsolute (machine.canonical path) = true := by
  rw [canonical]
  split
  · exact Path.isAbsolute_ofNames (by decide) _
  · exact absolute

end Machine

def Node.runs : Node → Bool
  | .file _ executable => executable
  | .program _ => true
  | _ => false

/-- What becomes of a program that is started: `run` takes the file that was reached, with the
directory it is started in, the path and the arguments, and `interpret` the text of a script. -/
structure Loader where
  accepts : Invocation → Prop
  run : Location → Environment → String → List String → Process → Node →
    Except SystemError (Ending × Process)
  isScript : Machine → Location → Bytes → Prop
  interpret : String → Bytes → List String → Location → Environment → Process → Ending × Process

/-- What is assumed of the machine. A path with a slash is followed from the directory of the
program, and the interpreter of a script reads it again at its path. -/
structure Loader.Describes (loader : Loader) (spawn : Spawn) : Prop where
  executable : ∀ (invocation : Invocation) (process : Process) (base place : Location)
      (node : Node), '/' ∈ invocation.executable.toList →
    process.machine.lookup .reach invocation.directory = .ok ⟨base, some .directory⟩ →
    loader.accepts invocation →
    process.machine.lookupFrom base .reach invocation.executable = .ok ⟨place, some node⟩ →
      spawn invocation process = loader.run base invocation.environment invocation.executable
        invocation.arguments process node
  script : ∀ (base : Location) (environment : Environment) (path : String)
      (arguments : List String) (process : Process) (content text : Bytes),
    Path.isAbsolute path = true → loader.isScript process.machine base content →
    process.machine.readFile path = .ok text →
      loader.run base environment path arguments process (.file content true) =
        .ok (loader.interpret path text arguments.tail base environment process)

namespace Program

/-- Starts a node, with `path` as the name that an interpreter is given for it. -/
def runNode (spawn : Spawn) (interpreters : Nat) (base : Location) (environment : Environment)
    (path : String) (arguments : List String) (process : Process) :
    Node → Except SystemError (Ending × Process)
  | .link _ => .error .noEntry
  | .directory | .device _ | .file _ false => .error .accessDenied
  | .program name => .ok (runNamed spawn name (Path.ofNames 1 base) environment arguments process)
  | .file content true =>
    match interpreter? content with
    | none => .error .badFormat
    | some (program, argument) =>
      match interpreters with
      | 0 => .error .tooManyLinks
      | interpreters + 1 =>
        runFile spawn interpreters base environment (Script.toText program)
          (Script.toText program :: (argument.map Script.toText).toList ++ path :: arguments.tail)
          process

theorem runFile_node (spawn : Spawn) (interpreters : Nat) {base : Location}
    (environment : Environment) {path : String} (arguments : List String) {process : Process}
    {place : FileTree.Place} {node : Node}
    (reached : process.machine.lookupFrom base .reach path = .ok place)
    (found : place.node = some node) :
    runFile spawn interpreters base environment path arguments process =
      runNode spawn interpreters base environment path arguments process node := by
  obtain ⟨location, _⟩ := place
  subst found
  rw [runFile.eq_def, reached]
  cases node with
  | file content executable => cases executable <;> rfl
  | _ => rfl

theorem runFirst_single (run : String → Except SystemError (Ending × Process))
    (last : SystemError) (candidate : String) :
    runFirst run none last [candidate] = run candidate := by
  rw [runFirst]
  cases ran : run candidate with
  | ok result => rfl
  | error e => simp [runFirst]

theorem shell_path (spawn : Spawn) (name : String) {directory : String}
    (environment : Environment) {path : String} (rest : List String) {process : Process}
    {content : Bytes} (other : path ≠ "-c")
    (text : process.machine.readFile (Path.join directory path) = .ok content) :
    shell spawn name directory environment (path :: rest) process =
      interpret spawn (Script.ofText path) (Script.ofBytes content) (rest.map Script.ofText)
        directory environment process := by
  unfold shell
  split
  · exact absurd (List.cons.inj ‹_›).1 other
  next same =>
    obtain ⟨rfl, rfl⟩ := List.cons.inj same
    rw [text]
  · contradiction

def loader (spawn : Spawn) : Loader where
  accepts invocation := isTooLong invocation = false
  run := runNode spawn maxInterpreters
  isScript machine base content := ∃ program place, interpreter? content = some (program, none) ∧
    machine.lookupFrom base .reach (Script.toText program) = .ok ⟨place, some (.program "sh")⟩
  interpret path text arguments base environment process :=
    interpret spawn (Script.ofText path) (Script.ofBytes text) (arguments.map Script.ofText)
      (Path.ofNames 1 base) environment process

theorem loader_describes (spawn : Spawn) : (loader spawn).Describes (launchWith spawn) where
  executable invocation process base place node slash entered short reached := by
    have accepted : isTooLong invocation = false := short
    have single : candidates invocation = [invocation.executable] := by simp [candidates, slash]
    rw [launchWith, entered]
    simp only [accepted, single, runFirst_single]
    exact runFile_node spawn maxInterpreters _ _ reached rfl
  script base environment path arguments process content text absolute script read := by
    obtain ⟨program, place, line, shell⟩ := script
    have whole : Path.join (Path.ofNames 1 base) path = path := by rw [Path.join, if_pos absolute]
    have other : path ≠ "-c" := by
      rintro rfl
      exact absurd absolute (by decide)
    simp only [loader, maxInterpreters, runNode, line]
    rw [runFile_node spawn _ environment _ shell rfl]
    exact congrArg Except.ok (shell_path spawn _ environment _ other (whole.symm ▸ read))

end Program

namespace Session

/-- Starting `path` for the session runs `node`, whatever the arguments and the streams are. -/
def Starts (session : Session) (spawn : Spawn) (loader : Loader) (machine : Machine)
    (path : String) (node : Node) : Prop :=
  ∀ (arguments : List String) (process : Process) (base : Location),
    process.machine = machine →
    machine.lookup .reach session.cwd = .ok ⟨base, some .directory⟩ →
    loader.accepts (invocationFor session path arguments) →
      spawn (invocationFor session path arguments) process =
        loader.run base session.environment path arguments process node

def StartsScript (session : Session) (spawn : Spawn) (loader : Loader) (machine : Machine)
    (path : String) (content : Bytes) : Prop :=
  ∀ (arguments : List String) (process : Process) (base : Location),
    process.machine = machine →
    machine.lookup .reach session.cwd = .ok ⟨base, some .directory⟩ →
    loader.accepts (invocationFor session path arguments) →
    loader.isScript machine base content →
      spawn (invocationFor session path arguments) process =
        .ok (loader.interpret path content arguments.tail base session.environment process)

section Start

variable {session : Session} {spawn : Spawn} {loader : Loader} {machine : Machine} {path : String}

/-- A path with a slash starts what it leads to from the working directory of the session. -/
theorem starts_from {node : Node} (described : loader.Describes spawn) (slash : '/' ∈ path.toList)
    (reached : ∀ base, machine.lookup .reach session.cwd = .ok ⟨base, some .directory⟩ →
      ∃ place, machine.lookupFrom base .reach path = .ok ⟨place, some node⟩) :
    session.Starts spawn loader machine path node := by
  intro arguments process base same entered accepted
  subst same
  obtain ⟨place, found⟩ := reached base entered
  exact described.executable (invocationFor session path arguments) process base place node slash
    entered accepted found

/-- An absolute path starts what it leads to, from wherever it is started. -/
theorem starts_absolute {node : Node} (described : loader.Describes spawn)
    (absolute : Path.isAbsolute path = true) (found : machine.find? path = some node) :
    session.Starts spawn loader machine path node := by
  obtain ⟨-, ⟨location, _⟩, reached, rfl⟩ := Machine.find_some found
  refine starts_from described (Path.slash_of_isAbsolute absolute) fun base _ => ⟨location, ?_⟩
  rw [machine.lookupFrom_absolute absolute base (Path.components machine.directory)]
  exact reached

theorem startsScript_absolute {content : Bytes} (described : loader.Describes spawn)
    (absolute : Path.isAbsolute path = true)
    (found : machine.find? path = some (.file content true)) :
    session.StartsScript spawn loader machine path content := by
  intro arguments process base same entered accepted script
  rw [starts_absolute described absolute found arguments process base same entered accepted]
  subst same
  obtain ⟨clean, ⟨location, _⟩, reached, rfl⟩ := Machine.find_some found
  have read : process.machine.readFile path = .ok content := by
    simp [Machine.readFile, clean, reached]
  exact described.script base session.environment path arguments process content content absolute
    script read

end Start

theorem isAbsolute_resolve {session : Session} (rooted : Path.isAbsolute session.cwd = true)
    (machine : Machine) (path : String) :
    Path.isAbsolute (session.resolve machine path) = true :=
  Path.isAbsolute_normalize (Path.isAbsolute_join_left rooted _)

theorem which_path {session : Session} {machine : Machine} {name path : String}
    (slash : '/' ∈ name.toList) (found : session.which machine name = some path) :
    path = session.resolve machine name ∧ machine.isExecutable path = true ∧
      machine.isDirectory path = false := by
  rw [which, if_pos (by simpa using slash)] at found
  dsimp only at found
  split at found
  next runs =>
    cases found
    rw [Bool.and_eq_true] at runs
    exact ⟨rfl, runs.2, Machine.isDirectory_of_isFile runs.1⟩
  · cases found

/-- What is found is a file that can be started. -/
theorem which_runs {session : Session} {machine : Machine} {name path : String}
    (found : session.which machine name = some path) :
    ∃ node, machine.find? path = some node ∧ node.runs = true := by
  have runs : machine.isExecutable path = true ∧ machine.isDirectory path = false := by
    by_cases slash : '/' ∈ name.toList
    · exact (which_path slash found).2
    · obtain ⟨_, _, _, executable, inner⟩ := which_some slash found
      exact ⟨executable, inner⟩
  obtain ⟨executable, inner⟩ := runs
  rw [Machine.isExecutable] at executable
  split at executable
  next reached => exact ⟨_, reached, executable⟩
  next reached => simp [Machine.isDirectory, reached] at inner
  next reached => exact ⟨_, reached, rfl⟩
  · cases executable

/-- A name that is a path is found under an absolute path; any other name just when the directory
that it is found in is absolute. -/
theorem which_isAbsolute {session : Session} {machine : Machine} {name path : String}
    (rooted : Path.isAbsolute session.cwd = true)
    (found : session.which machine name = some path) :
    Path.isAbsolute path = true ↔ '/' ∈ name.toList ∨
      ∃ directory ∈ searchPath session.path,
        Path.isAbsolute directory = true ∧ path = Path.join directory name := by
  by_cases slash : '/' ∈ name.toList
  · obtain ⟨rfl, -⟩ := which_path slash found
    simp [slash, isAbsolute_resolve rooted]
  · simp only [slash, false_or]
    constructor
    · intro absolute
      obtain ⟨directory, member, rfl, -⟩ := which_some slash found
      have relative := Path.isAbsolute_name slash
      have given : directory ≠ "" := by
        rintro rfl
        simp [Path.join, relative] at absolute
      exact ⟨directory, member, Path.isAbsolute_join given relative ▸ absolute, rfl⟩
    · rintro ⟨directory, -, absolute, rfl⟩
      exact Path.isAbsolute_join_left absolute name

end Session

namespace Frame

theorem write_directory {frame next : Frame} {stream : OutputStream} {data : Bytes}
    (written : frame.write stream data = .ok next) :
    next.machine.directory = frame.machine.directory := by
  rw [write] at written
  split at written
  · cases written
    cases stream <;> rfl
  · cases written

theorem report_directory (frame : Frame) (text : String) :
    (frame.report text).machine.directory = frame.machine.directory := by
  rw [report]
  split
  next written => exact write_directory written
  · rfl

def afterMoves (frame : Frame) (moves : List (List String)) : Frame :=
  moves.foldl (fun frame arguments => (runBuiltin "cd" Builtin.cd arguments frame).2) frame

/-- The session may have moved to another directory, but to none that is named relatively. The
process has not moved, and programs are searched where they were. -/
structure MovedFrom (start frame : Frame) : Prop where
  rooted : Path.isAbsolute frame.session.cwd = true
  path : frame.session.path = start.session.path
  directory : frame.machine.directory = start.machine.directory

/-- A `cd` that finds no directory leaves all but the streams as it was. -/
theorem cd_missing_kept {arguments : List String} {frame : Frame}
    (missing : ¬ frame.machine.isDirectory
      (frame.session.resolve frame.machine (arguments.head?.getD "~")) = true) :
    (runBuiltin "cd" Builtin.cd arguments frame).2.session = frame.session ∧
      (runBuiltin "cd" Builtin.cd arguments frame).2.machine.directory =
        frame.machine.directory := by
  rw [runBuiltin_session, runBuiltin_view (·.machine.directory) report_directory,
    Builtin.cd_missing missing, CommandM.run_bind, CommandM.error, CommandM.run_emit]
  cases written : frame.write .err (Text.encodeText
      ("cd: " ++ arguments.head?.getD "~" ++ ": No such file or directory\n")) with
  | ok next => exact ⟨write_session written, write_directory written⟩
  | error fault => exact ⟨rfl, rfl⟩

theorem MovedFrom.cd {start frame : Frame} (moved : MovedFrom start frame)
    (arguments : List String) :
    MovedFrom start (runBuiltin "cd" Builtin.cd arguments frame).2 := by
  by_cases found : frame.machine.isDirectory
      (frame.session.resolve frame.machine (arguments.head?.getD "~")) = true
  · have rooted := frame.machine.isAbsolute_canonical
      (Session.isAbsolute_resolve moved.rooted frame.machine (arguments.head?.getD "~"))
    rw [runBuiltin, Builtin.cd_found rfl found]
    refine ⟨rooted, Eq.trans ?_ moved.path, moved.directory⟩
    rw [Session.path, Environment.get?_set, if_neg (by decide), Session.path]
  · obtain ⟨session, directory⟩ := cd_missing_kept found
    exact ⟨session ▸ moved.rooted, session ▸ moved.path, directory.trans moved.directory⟩

theorem afterMoves_movedFrom {frame : Frame} (rooted : Path.isAbsolute frame.session.cwd = true)
    (moves : List (List String)) : MovedFrom frame (frame.afterMoves moves) := by
  have run (last : Frame) (moved : MovedFrom frame last) :
      MovedFrom frame (last.afterMoves moves) := by
    induction moves generalizing last with
    | nil => exact moved
    | cons arguments moves ih => exact ih _ (moved.cd arguments)
  exact run frame ⟨rooted, rfl, rfl⟩

end Frame

theorem Builtin.typeOne_found {isBuiltin : String → Bool} {frame : Frame} {name path : String}
    (foreign : isBuiltin name = false)
    (found : frame.session.which frame.machine name = some path) :
    (Builtin.typeOne isBuiltin name).run frame =
      (CommandM.write (name ++ " is " ++ path ++ "\n") >>= fun _ => pure true).run frame := by
  rw [Builtin.typeOne, CommandM.run_get_bind]
  simp only [foreign, found]
  rfl

/-- What is found after any number of `cd` commands is a file that can be started, and the path
is what `type` tells. The path is absolute just when the name is itself a path or was found in an
absolute directory of the search path, and then it is that file that is started, and that text
which is interpreted. A relative path leads from the directory of the process to the file that
was found, but from the directory of the session to the one that is started. -/
theorem found_program_is_started {spawn : Spawn} {loader : Loader} {frame : Frame}
    {moves : List (List String)} {name path : String} (described : loader.Describes spawn)
    (rooted : Path.isAbsolute frame.session.cwd = true)
    (found : (frame.afterMoves moves).session.which (frame.afterMoves moves).machine name =
      some path) :
    let after := frame.afterMoves moves
    after.machine.directory = frame.machine.directory ∧
    (Path.isAbsolute path = true ↔ '/' ∈ name.toList ∨
      ∃ directory ∈ Session.searchPath frame.session.path,
        Path.isAbsolute directory = true ∧ path = Path.join directory name) ∧
    (∀ isBuiltin, isBuiltin name = false → (Builtin.typeOne isBuiltin name).run after =
      (CommandM.write (name ++ " is " ++ path ++ "\n") >>= fun _ => pure true).run after) ∧
    ∃ node, after.machine.find? path = some node ∧ node.runs = true ∧
      (Path.isAbsolute path = true → after.session.Starts spawn loader after.machine path node ∧
        ∀ content, node = .file content true →
          after.session.StartsScript spawn loader after.machine path content) ∧
      (Path.isAbsolute path = false → '/' ∈ path.toList → ∀ base place other,
        after.machine.lookup .reach after.session.cwd = .ok ⟨base, some .directory⟩ →
        after.machine.lookupFrom base .reach path = .ok ⟨place, some other⟩ →
          after.session.Starts spawn loader after.machine path other) := by
  intro after
  have moved := Frame.afterMoves_movedFrom rooted moves
  obtain ⟨node, reached, runs⟩ := Session.which_runs found
  refine ⟨moved.directory, ?_, fun isBuiltin foreign => Builtin.typeOne_found foreign found,
    node, reached, runs, fun absolute => ⟨Session.starts_absolute described absolute reached, ?_⟩,
    fun _ slash base place other entered leads =>
      Session.starts_from described slash fun again same => ?_⟩
  · rw [← moved.path]
    exact Session.which_isAbsolute moved.rooted found
  · rintro content rfl
    exact Session.startsScript_absolute described absolute reached
  · obtain ⟨rfl, -⟩ := FileTree.Place.mk.inj (Except.ok.inj (same.symm.trans entered))
    exact ⟨place, leads⟩

def twoTools (path : String) : Frame :=
  { machine :=
      { files := ⟨[(["w"], .directory), (["w", "bin"], .directory),
          (["w", "bin", "tool"], .program "true"), (["w", "sub"], .directory),
          (["w", "sub", "bin"], .directory), (["w", "sub", "bin", "tool"], .program "false")]⟩
        directory := "/w" }
    session := { cwd := "/w", environment := [("PATH", path)] } }

/-- With a relative directory on the search path another program is started than was found. -/
theorem found_program_differs_after_cd :
    let after := (twoTools "bin").afterMoves [["sub"]]
    Path.isAbsolute (twoTools "bin").session.cwd = true ∧
      after.session.which after.machine "tool" = some "bin/tool" ∧
      Path.isAbsolute "bin/tool" = false ∧
      after.machine.find? "bin/tool" = some (.program "true") ∧
      ∀ spawn, Program.launchWith spawn (invocationFor after.session "bin/tool" ["tool"])
        { machine := after.machine } = .ok (.exited 1, { machine := after.machine }) := by
  intro after
  have session : after.session =
      { cwd := "/w/sub", environment := [("PATH", "bin"), ("PWD", "/w/sub")] } := by
    decide +kernel
  have machine : after.machine = (twoTools "bin").machine := by decide +kernel
  have entered : (twoTools "bin").machine.lookup .reach "/w/sub" =
      .ok ⟨["w", "sub"], some .directory⟩ := eq_ok_of_toOption (by decide +kernel)
  have reached : (twoTools "bin").machine.lookupFrom ["w", "sub"] .reach "bin/tool" =
      .ok ⟨["w", "sub", "bin", "tool"], some (.program "false")⟩ :=
    eq_ok_of_toOption (by decide +kernel)
  have starts (spawn : Spawn) : after.session.Starts (Program.launchWith spawn)
      (Program.loader spawn) (twoTools "bin").machine "bin/tool" (.program "false") := by
    refine Session.starts_from (Program.loader_describes spawn) (by decide +kernel)
      fun base same => ?_
    rw [session, entered] at same
    cases same
    exact ⟨_, reached⟩
  rw [machine]
  refine ⟨by decide +kernel, by decide +kernel, by decide +kernel, by decide +kernel, ?_⟩
  intro spawn
  have short : Program.isTooLong (invocationFor after.session "bin/tool" ["tool"]) = false := by
    decide +kernel
  rw [starts spawn ["tool"] { machine := (twoTools "bin").machine } ["w", "sub"] rfl
    (by rw [session, entered]) short]
  rfl

theorem found_program_is_started_rooted :
    let after := (twoTools "/w/bin").afterMoves [["sub"]]
    Path.isAbsolute (twoTools "/w/bin").session.cwd = true ∧
      after.session.which after.machine "tool" = some "/w/bin/tool" ∧
      after.session.Starts Program.launch (Program.loader (Program.launchAt 19)) after.machine
        "/w/bin/tool" (.program "true") := by
  have rooted : Path.isAbsolute (twoTools "/w/bin").session.cwd = true := by decide +kernel
  have found : ((twoTools "/w/bin").afterMoves [["sub"]]).session.which
      ((twoTools "/w/bin").afterMoves [["sub"]]).machine "tool" = some "/w/bin/tool" := by
    decide +kernel
  have here : ((twoTools "/w/bin").afterMoves [["sub"]]).machine.find? "/w/bin/tool" =
      some (.program "true") := by decide +kernel
  obtain ⟨-, -, -, node, reached, -, starts, -⟩ :=
    found_program_is_started (Program.loader_describes (Program.launchAt 19)) rooted found
  cases here.symm.trans reached
  exact ⟨rooted, found, (starts (by decide +kernel)).1⟩

end CommandShell
