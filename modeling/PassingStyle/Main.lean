import PassingStyle.CommandLine

/-!
# The program

The outer layer: it fetches the files that the command line names, takes the
input if it is needed, and hands everything to the command line. A script is a
list of steps; a file has no form for them, so a script that is named on the
command line of the program is one that cannot be read.
-/

namespace PassingStyle

open CommandLine

/-- The files that the options name. -/
def CommandLine.Options.namedFiles (o : Options) : List Text :=
  o.configFiles ++ o.inputFiles ++ if o.scriptFile.isEmpty then [] else [o.scriptFile]

/-- The input is needed: neither samples nor files are to be converted. -/
def CommandLine.Options.needsInput (o : Options) : Bool :=
  !o.wantsSamples && o.inputFiles.isEmpty

/-- The content of a file under its name, if it can be had. -/
def fetchFile (name : Text) : IO (Option (Text × Text)) := do
  try
    let content ← IO.FS.readBinFile name.toString
    return some (name, content.toList)
  catch _ => return none

/-- All that comes in until the input ends. -/
partial def readAllInput (input : IO.FS.Stream) (sofar : ByteArray) : IO Text := do
  let chunk ← input.read 65536
  if chunk.isEmpty then return sofar.toList else readAllInput input (sofar ++ chunk)

/-- Writing a text as it is. -/
def writeText (stream : IO.FS.Stream) (t : Text) : IO Unit := do
  stream.write (ByteArray.mk t.toArray)
  stream.flush

/-- The program with everything it needs. -/
def runProgram (words : List Text) : IO Exit := do
  match commands.run words {} with
  | (.error _, _) => return run words [] [] []
  | (.ok (), o) =>
    let files := (← o.namedFiles.mapM fetchFile).filterMap id
    let scripts := files.map fun f => (f.1, [Step.malformed])
    let input ← if o.needsInput then readAllInput (← IO.getStdin) .empty else pure []
    return run words files scripts input

end PassingStyle

open PassingStyle in
/-- Runs the program. -/
def main (args : List String) : IO UInt32 := do
  let exit ← runProgram (args.map Text.ofString)
  writeText (← IO.getStdout) exit.stdout
  writeText (← IO.getStderr) exit.stderr
  return exit.code.toUInt32
