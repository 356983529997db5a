/-!
# Words that completion knows
-/
namespace LineEdit.Vocabulary

def gitCommands : List String :=
  ["add", "am", "archive", "bisect", "branch", "bundle", "checkout", "cherry-pick", "citool",
    "clean", "clone", "commit", "describe", "diff", "fetch", "format-patch", "gc", "grep", "gui",
    "init", "log", "merge", "mv", "notes", "pull", "push", "rebase", "reset", "revert", "rm",
    "shortlog", "show", "stash", "status", "submodule", "tag"]

/-- The long options of `git checkout`. One that takes a value goes up to its equals sign. -/
def gitCheckoutOptions : List String :=
  ["--quiet", "--ours", "--theirs", "--no-track", "--merge", "--conflict=", "--orphan", "--patch"]

def shellBuiltins : List String :=
  ["assoc", "break", "bcdedit", "call", "cd", "chdir", "cls", "color", "copy", "date", "del",
    "dir", "echo", "endlocal", "erase", "exit", "for", "ftype", "goto", "graftabl", "if", "md",
    "mkdir", "mklink", "move", "path", "pause", "popd", "prompt", "pushd", "rd", "rem", "ren",
    "rename", "rmdir", "set", "setlocal", "shift", "start", "time", "title", "type", "ver",
    "verify", "vol"]

end LineEdit.Vocabulary
