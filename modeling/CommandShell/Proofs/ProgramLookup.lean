import CommandShell.Proofs.NameIndex
import CommandShell.Proofs.NulPaths
import CommandShell.Proofs.PathWalk

/-! Completion and command lookup find the same programs: one lists the directories of the search
path, the other tries a single name in each of them. -/
namespace CommandShell

theorem mem_programsIn {machine : Machine} {directory name : String} :
    name ∈ programsIn machine directory ↔
      (∃ names, machine.list? directory = some names ∧ name ∈ names) ∧
        machine.isFile (Path.join directory name) = true ∧
        machine.isExecutable (Path.join directory name) = true := by
  rw [programsIn]
  cases machine.list? directory <;> simp

theorem programsOn_eq (machine : Machine) (path : String) :
    programsOn machine path =
      if Path.hasNul path then .error .nulByte
      else .ok (((Session.searchPath path).filter (· ≠ "")).flatMap (programsIn machine)) := by
  rw [programsOn, Session.searchPath, Path.hasNul_cutText (by decide)]

namespace Machine

theorem find_of_isFile {machine : Machine} {path : String} (file : machine.isFile path = true) :
    ∃ node, machine.find? path = some node ∧ node ≠ .directory := by
  rw [isFile] at file
  split at file
  next found => exact ⟨_, found, by simp⟩
  next found => exact ⟨_, found, by simp⟩
  · cases file

theorem isDirectory_of_isFile {machine : Machine} {path : String}
    (file : machine.isFile path = true) : machine.isDirectory path = false := by
  obtain ⟨node, found, inner⟩ := find_of_isFile file
  simp [isDirectory, found, inner]

end Machine

namespace Session

/-- Where a name without a slash is found: in a directory of the search path. -/
theorem which_some {session : Session} {machine : Machine} {name path : String}
    (free : '/' ∉ name.toList) (found : session.which machine name = some path) :
    ∃ directory ∈ searchPath session.path, path = Path.join directory name ∧
      machine.isExecutable path = true ∧ machine.isDirectory path = false := by
  rw [which, if_neg (by simpa using free)] at found
  split at found
  · cases found
  · have runs := List.find?_some found
    obtain ⟨directory, member, rfl⟩ := List.mem_map.mp (List.mem_of_find?_eq_some found)
    simp only [Bool.and_eq_true, Bool.not_eq_true'] at runs
    exact ⟨directory, member, rfl, runs⟩

theorem which_isSome {session : Session} {machine : Machine} {directory name : String}
    (free : '/' ∉ name.toList) (member : directory ∈ searchPath session.path)
    (given : directory ≠ "")
    (executable : machine.isExecutable (Path.join directory name) = true)
    (inner : machine.isDirectory (Path.join directory name) = false) :
    (session.which machine name).isSome = true := by
  have searched : session.path ≠ "" := by
    intro empty
    rw [empty] at member
    exact given (by simpa [searchPath, Text.cutText, Text.cut] using member)
  rw [which, if_neg (by simpa using free), if_neg searched, List.find?_isSome]
  exact ⟨_, List.mem_map.mpr ⟨directory, member, rfl⟩, by simp [executable, inner]⟩

end Session

/-- A program that a directory of the search path lists is found under its name. -/
theorem which_of_mem_programsIn {machine : Machine} {session : Session} {directory name : String}
    (valid : machine.files.WellFormed) (member : directory ∈ Session.searchPath session.path)
    (given : directory ≠ "") (program : name ∈ programsIn machine directory) :
    (session.which machine name).isSome = true := by
  obtain ⟨⟨names, listed, inside⟩, file, executable⟩ := mem_programsIn.mp program
  have free : '/' ∉ name.toList := by
    rw [Machine.list?] at listed
    split at listed
    · cases listed
      exact valid.free (FileTree.mem_namesIn.mp inside)
    · cases listed
  exact Session.which_isSome free member given executable (Machine.isDirectory_of_isFile file)

/-- A file that is found in a named directory of the search path is listed there. -/
theorem mem_programsIn_of_which {machine : Machine} {session : Session} {name path : String}
    (valid : machine.WellFormed) (given : ∀ directory ∈ Session.searchPath session.path,
      directory ≠ "") (free : '/' ∉ name.toList)
    (found : session.which machine name = some path) (file : machine.isFile path = true) :
    ∃ directory ∈ Session.searchPath session.path, name ∈ programsIn machine directory := by
  obtain ⟨directory, member, rfl, executable, -⟩ := Session.which_some free found
  obtain ⟨node, reached, inner⟩ := Machine.find_of_isFile file
  exact ⟨directory, member, mem_programsIn.mpr
    ⟨Machine.mem_list_of_find valid (given directory member) free reached inner, file, executable⟩⟩

/-- A refresh fails only for a NUL in the search path. After any other, a name that is completed
is a built-in command or is found on the search path, and a file that is found in a named
directory of the search path is completed. -/
theorem completion_agrees_with_lookup (machine : Machine) (valid : machine.WellFormed)
    (completer : Completer) (session : Session) :
    (Path.hasNul session.path = true ∧
        completer.refresh machine session.path = .error .nulByte) ∨
      ∃ after, completer.refresh machine session.path = .ok after ∧
        (∀ name, after.index.contains name = true →
          name ∈ completer.builtins ∨ (session.which machine name).isSome = true) ∧
        (∀ buffer, ∀ name ∈ (after.complete buffer).names,
          name ∈ completer.builtins ∨ (session.which machine name).isSome = true) ∧
        ((∀ directory ∈ Session.searchPath session.path, directory ≠ "") →
          ∀ name path, '/' ∉ name.toList → session.which machine name = some path →
            machine.isFile path = true → after.index.contains name = true) := by
  by_cases nul : Path.hasNul session.path = true
  · exact .inl ⟨nul, by simp [Completer.refresh, programsOn_eq, nul]⟩
  refine .inr ⟨_, by rw [Completer.refresh, programsOn_eq, if_neg nul], ?_⟩
  have known {name : String} : name ∈
      ((Session.searchPath session.path).filter (· ≠ "")).flatMap (programsIn machine) ++
        completer.builtins →
      name ∈ completer.builtins ∨ (session.which machine name).isSome = true := by
    intro member
    rcases List.mem_append.mp member with program | builtin
    · obtain ⟨directory, searched, inside⟩ := List.mem_flatMap.mp program
      simp only [List.mem_filter, decide_eq_true_eq] at searched
      exact .inr (which_of_mem_programsIn valid.files searched.1 searched.2 inside)
    · exact .inl builtin
  refine ⟨fun name held => known ((NameIndex.contains_ofNames _ _).mp held), ?_, ?_⟩
  · intro buffer name offered
    exact known ((NameIndex.mem_matching _ _ _).mp (Completer.complete_names _ buffer offered)).1
  · intro given name path free found file
    obtain ⟨directory, member, inside⟩ := mem_programsIn_of_which valid given free found file
    refine (NameIndex.contains_ofNames _ _).mpr (List.mem_append_left _ ?_)
    exact List.mem_flatMap.mpr ⟨directory, by simp [member, given directory member], inside⟩

def linkedPrograms : Machine :=
  { files := ⟨[(["opt"], .directory), (["opt", "tool"], .file [] true), (["w"], .directory),
      (["w", "bin"], .link "../opt/")]⟩
    directory := "/w" }

theorem linkedPrograms_wellFormed : linkedPrograms.WellFormed := by
  refine ⟨by decide +kernel, fun place node above found => ?_⟩
  have start : Path.components linkedPrograms.directory = ["w"] := by decide +kernel
  rw [start] at above
  rcases List.prefix_cons_iff.mp above with rfl | ⟨rest, rfl, inside⟩
  · exact (Option.some.inj found).symm
  · rw [List.prefix_nil.mp inside] at found
    exact (Option.some.inj found).symm

theorem completion_agrees_with_lookup_linked :
    linkedPrograms.WellFormed ∧
      ∃ after, (Completer.ofBuiltins ["cd"]).refresh linkedPrograms "bin:/usr/bin" = .ok after ∧
        after.index.contains "tool" = true := by
  refine ⟨linkedPrograms_wellFormed, ?_⟩
  let session : Session := { cwd := "/w", environment := [("PATH", "bin:/usr/bin")] }
  rcases completion_agrees_with_lookup linkedPrograms linkedPrograms_wellFormed
    (Completer.ofBuiltins ["cd"]) session with ⟨nul, -⟩ | ⟨after, refreshed, -, -, completed⟩
  · exact absurd nul (by decide +kernel)
  · exact ⟨after, refreshed, completed (by decide +kernel) "tool" "bin/tool" (by decide +kernel)
      (by decide +kernel) (by decide +kernel)⟩

end CommandShell
