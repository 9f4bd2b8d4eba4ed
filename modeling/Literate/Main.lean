import Literate.CommandLine.Run

/-!
# The program

Runs `CommandLine.livedoc` on the files below the current directory: reads them, prints what the command
prints, and writes the files that it changed.
-/

namespace Literate

/-- Adds the files below a directory, to which a route leads. -/
partial def collectFiles (files : Files) (route : Route) : IO Files := do
  let directory := route.foldl (fun path name => path / name) (← IO.currentDir)
  let mut files := files
  for entry in ← directory.readDir do
    let route := route ++ [entry.fileName]
    if ← entry.path.isDir then files ← collectFiles files route
    else files := files.put route (← IO.FS.readBinFile entry.path).toList
  return files

end Literate

def main (arguments : List String) : IO UInt32 := do
  let files ← Literate.collectFiles .empty []
  let outcome := Literate.CommandLine.livedoc files arguments
  IO.print outcome.output
  IO.eprint outcome.errors
  for (route, bytes) in outcome.files.changedSince files do
    let path := route.foldl (fun path name => path / name) (← IO.currentDir)
    IO.FS.writeBinFile path ⟨bytes.toArray⟩
  return UInt32.ofNat outcome.code
