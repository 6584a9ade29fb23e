import CommandShell.FileTree.Basic

/-! The files that a machine has before anyone uses it. -/
namespace CommandShell.FileTree

def systemDirectories : List Location :=
  [["boot"], ["dev"], ["etc"], ["home"], ["media"], ["mnt"], ["opt"], ["proc"], ["root"],
    ["run"], ["srv"], ["sys"], ["tmp"], ["usr"], ["usr", "bin"], ["usr", "lib"],
    ["usr", "local"], ["usr", "local", "bin"], ["usr", "sbin"], ["usr", "share"], ["var"],
    ["var", "tmp"]]

def systemLinks : List (Location × String) :=
  [(["bin"], "usr/bin"), (["lib"], "usr/lib"), (["sbin"], "usr/sbin")]

def systemPrograms : List String :=
  ["cat", "false", "sh", "sleep", "true"]

def system : FileTree :=
  ⟨systemDirectories.map (·, .directory) ++
    systemLinks.map (fun (location, target) => (location, .link target)) ++
    [(["dev", "null"], .device .null), (["dev", "full"], .device .full)] ++
    systemPrograms.map fun name => (["usr", "bin", name], .program name)⟩

end CommandShell.FileTree
