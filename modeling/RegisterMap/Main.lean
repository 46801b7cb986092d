import RegisterMap.CommandLine
import RegisterMap.Generation

/-!
# Main program

Reads a description from a file, and writes the header and, if asked for, the reduced description
into a directory.
-/

open RegisterMap

/-- Writes what a run made of a description. -/
def writeGeneration (s : Settings) (path : String) (g : Generation) : IO Unit := do
  IO.FS.createDirAll (s.outputDir.getD ".")
  IO.FS.writeFile (CommandLine.outputPath s path "h") g.header
  match s.descriptionFormat, g.description with
  | some f, some text => IO.FS.writeFile (CommandLine.outputPath s path f.extension) text
  | _, _ => return

def main (args : List String) : IO UInt32 := do
  match CommandLine.run args with
  | .error complaint =>
    IO.eprintln complaint.message
    return 2
  | .ok (path, s) =>
    let (warnings, result) := generate s (← IO.FS.readFile path)
    for w in warnings do
      IO.eprintln w.message
    match result with
    | .ok g =>
      writeGeneration s path g
      return 0
    | .error f =>
      IO.eprintln f.message
      return 1
