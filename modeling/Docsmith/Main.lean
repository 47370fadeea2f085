import Docsmith.Cli.Command

/-!
# The program

Reads the files below the working directory, and below each argument that names a
directory, runs the command on them, and puts back what has changed.
-/

namespace Docsmith

/-- Adds all files below a directory to a tree. -/
partial def snapshot (directory : String) (t : FileTree) : IO FileTree := do
  let root ← IO.FS.realPath directory
  let mut tree := t.addDirectory (Path.ofText root.toString).names
  for e in ← root.readDir do
    let name := e.path.toString
    if ← e.path.isDir then
      if e.fileName ≠ ".git" then tree ← snapshot name tree
    else
      let bytes ← IO.FS.readBinFile name
      tree := tree.addFile (Path.ofText name).names bytes.toList
  return tree

def putBack (before after : FileTree) : IO Unit :=
  for (place, entry) in after.entries do
    if before.entry? place ≠ some entry then
      let name := (Path.mk true place).text.toString
      match entry with
      | .directory => IO.FS.createDirAll name
      | .file bytes => IO.FS.writeBinFile name ⟨bytes.toArray⟩

end Docsmith

open Docsmith in
def main (args : List String) : IO UInt32 := do
  let here ← IO.FS.realPath "."
  let mut tree ← snapshot "." ⟨[]⟩
  for a in args do
    if ← (here / a).isDir then tree ← snapshot a tree
  -- log files show the milliseconds of the machine's clock
  let time := Text.ofNat (← IO.monoMsNow)
  let w : Workspace := { cwd := Path.ofText here.toString, tree := tree, time := time }
  let (result, after) := (Cli.run (args.map Text.ofString)).run w
  putBack tree after.tree
  match result with
  | .ok answer =>
      IO.print answer.out.toString
      IO.eprint answer.err.toString
      return answer.exit.toUInt32
  | .error f =>
      IO.eprint after.console.toString
      IO.eprintln f.message.toString
      return 1
