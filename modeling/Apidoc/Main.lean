import Apidoc.CommandLine.Program
import Apidoc.Files.Change

/-!
# `Apidoc.Main`: the program on a disk

The files below the working directory are read into a tree, the run works on the tree, and what it has
changed is brought back to the disk. There is no network, so other sites count as out of reach.
-/

set_option autoImplicit false

namespace Apidoc

open Apidoc.CommandLine (Run)
open Apidoc.Files (Change Entry Location Tree)

/-- The path of a location. -/
def diskPath (l : Location) : String := "/" ++ "/".intercalate l

/-- Reads what is below a directory. -/
partial def readBelow (l : Location) : IO (List (Location × Entry)) := do
  let directory ← IO.FS.realPath (diskPath l)
  let mut found := []
  for entry in ← directory.readDir do
    let below := l ++ [entry.fileName]
    if ← entry.path.isDir then
      found := (below, .directory) :: found ++ (← readBelow below)
    else
      let content ← IO.FS.readBinFile (diskPath below)
      found := (below, .file content.toList) :: found
  return found

/-- Reads the tree below the working directory. -/
def readTree : IO Tree := do
  let here := Files.resolve [] (.ofString (toString (← IO.currentDir)))
  let above := (List.range here.length).map fun n => (here.take (n + 1), Entry.directory)
  return ⟨above ++ (← readBelow here), here⟩

/-- Brings a change to the disk. -/
def perform : Change → IO Unit
  | .removeFile l => IO.FS.removeFile (diskPath l)
  | .removeDirectory l => IO.FS.removeDirAll (diskPath l)
  | .makeDirectory l => IO.FS.createDirAll (diskPath l)
  | .write l content => IO.FS.writeBinFile (diskPath l) ⟨content.toArray⟩

/-- The environment variables with settings. -/
def readVariables : IO Settings.Variables := do
  let mut found := []
  for name in ["SOURCES", "SAMPLE", "OUTPUT", "EXTERNAL_DOCS", "REPOSITORY", "FETCH_TIMEOUT"] do
    let full := Settings.Variables.lead ++ name
    if let some value ← IO.getEnv full then found := (full, value) :: found
  return found

end Apidoc

open Apidoc in
/-- Runs the program on the words of its command line. -/
def main (words : List String) : IO UInt32 := do
  let files ← readTree
  let (ending, r) := CommandLine.Run.ofWords (← readVariables) words files .unreachable
  (Files.Change.between files r.files).forM perform
  for entry in Log.shownFrom r.consoleLevel r.log do
    IO.eprintln entry.text
  if let some (.usage line) := r.complaint then IO.eprintln line
  IO.print r.output
  match ending with
  | .exit code => return code.toUInt32
  | .escape failure =>
    IO.eprintln failure.message
    return 1
