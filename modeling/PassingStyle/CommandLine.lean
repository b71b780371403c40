import PassingStyle.Command.Variable
import PassingStyle.Config
import PassingStyle.Dialogue
import PassingStyle.Log.Flags
import PassingStyle.Samples
import PassingStyle.Script

/-!
# The command line

The words of a command line set variables; then the settings are loaded and the
script is fetched, and only then the work begins. Anything wrong up to that point
ends the program with a plain message. What goes wrong during the work is logged.

The work is to convert the samples, or files, or both in this order; if neither is
asked for, lines are taken from the input. A script, if there is one, sees every
expression after its conversion.
-/

namespace PassingStyle

open Text

namespace CommandLine

/-! ## Options -/

/-- The variables that words can set. -/
def flags : List Variable := [
  ⟨"-config", .collection .text⟩,
  ⟨"-halt", .single .text⟩,
  ⟨"-alpha", .switch⟩,
  ⟨"-strict", .switch⟩,
  ⟨"-script", .single .text⟩,
  ⟨"-demo", .switch⟩,
  ⟨"-file", .collection .text⟩]

/-- What the words of a command line have set. -/
structure Options where
  /-- The values of the variables. -/
  values : Variables := flags.map Variable.entry
  /-- The level of the log. -/
  level : Level := .info
  deriving DecidableEq, Repr

namespace Options

/-- Changing the variables. -/
def onValues (f : Variables → Variables) (o : Options) : Options :=
  { o with values := f o.values }

/-- Setting the level of the log. -/
def setLevel (l : Level) (o : Options) : Options :=
  { o with level := l }

/-- The configuration files. -/
def configFiles (o : Options) : List Text := o.values.texts "-config"

/-- The files to convert. -/
def inputFiles (o : Options) : List Text := o.values.texts "-file"

/-- The file of the script, or nothing. -/
def scriptFile (o : Options) : Text := o.values.text "-script"

/-- The samples are to be converted. -/
def wantsSamples (o : Options) : Bool := o.values.isOn "-demo"

/-- The settings, where the options override what was loaded. -/
def override (o : Options) (s : Settings) : Settings where
  halt := if (o.values.text "-halt").isEmpty then s.halt else o.values.text "-halt"
  primitives := s.primitives
  alphatize := o.values.isOn "-alpha" || s.alphatize
  strict := o.values.isOn "-strict" || s.strict

end Options

/-- **The commands of the command line**; asking for the usage is the only way in
which one of them fails. -/
def commands : Commands Options Unit :=
  ((Commands.standard ()).defineAll
    (flags.flatMap (·.commands Options.onValues) ++ Level.commands Options.setLevel)).1

/-! ## The work -/

/-- **What the work goes on with**: the compiler, what was shown so far, and the
log. -/
structure Desk where
  /-- The compiler. -/
  compiler : Compiler
  /-- What was shown. -/
  shown : Text := []
  /-- The log. -/
  log : Log := {}

/-- A script under the name of its file. -/
abbrev NamedScript := Text × Script

/-- Work that may fail; what was done before stays done. -/
abbrev Work := ExceptT Failure (StateM Desk)

/-- Showing a text. -/
def display (t : Text) : Work Unit :=
  modify fun d => { d with shown := d.shown ++ t }

/-- Changing the log. -/
def logging (f : Log → Log) : Work Unit :=
  modify fun d => { d with log := f d.log }

/-- The records of the compiler go to the log. -/
def Desk.flush (d : Desk) : Desk :=
  { d with log := d.log.writeAll d.compiler.log, compiler := { d.compiler with log := [] } }

/-- Work of the compiler. -/
def compiling (action : Compile α) : Work α := do
  let d ← get
  let (result, compiler) := StateT.run (ExceptT.run action) d.compiler
  set { d with compiler }.flush
  ExceptT.mk (pure result)

/-- Beginning a span outside of any other. -/
def beginSpan (name : Text) : Work Context := do
  let d ← get
  let (context, log) := d.log.beginSpan {} name
  set { d with log }
  return context

/-- **The hook that a script makes**; what the script prints is shown. -/
def scriptHook (script : Option NamedScript) : Hook Text := fun source converted =>
  match script with
  | none => pure ()
  | some (file, script) => do
    let (compiler, output) ← get
    let (error, r) := Runner.runHook file script source converted
      { compiler, output, logs := true }
    set (r.compiler, r.output)
    match error with
    | none => pure ()
    | some e => throw e.toFailure

/-- Running the script on a conversion. -/
def runHook (script : Option NamedScript) (source converted : Sexp) : Work Unit := do
  let d ← get
  let (result, (compiler, shown)) :=
    StateT.run (ExceptT.run (scriptHook script source converted)) (d.compiler, d.shown)
  set { d with compiler, shown }.flush
  ExceptT.mk (pure result)

/-- A failure of the work is marked with the file it belongs to. -/
def within (name : Text) (action : Work α) : Work α :=
  ExceptT.mk do return (← action.run).mapError (.inFile name)

/-- A failure of the script is marked with the file of the script. -/
def withinScript (script : Option NamedScript) (action : Work α) : Work α :=
  match script with
  | none => action
  | some (file, _) => within file action

/-- The record of the settings. -/
def settingsRecord (s : Settings) : Record where
  level := .debug
  message := "settings"
  attributes := [
    ("halt", s.halt),
    ("primitives", "[" ++ join " " s.primitives ++ "]"),
    ("alphatize", if s.alphatize then "true" else "false"),
    ("strict", if s.strict then "true" else "false")]

/-- What is shown for a sample. -/
def sampleText (s : Sample) (converted : Sexp) : Text :=
  ";; " ++ s.name ++ "\n" ++ s.source ++ "\n=> " ++ converted.print ++ "\n\n"

/-- The conversion of a sample with a fresh table of names; nothing if it is
refused, which is logged. -/
def convertSample (context : Context) (s : Sample) (program : Sexp) : Work (Option Sexp) := do
  modify fun d => { d with compiler := { d.compiler with names := .empty } }
  try
    return some (← compiling (Compiler.convert program))
  catch f =>
    logging fun log => log.write {} context {
      level := .warn
      message := "sample failed"
      attributes := [("program", s.name), ("error", f.message)] }
    return none

/-- **Converting the samples.** A sample that is refused is passed over. -/
def convertSamples (script : Option NamedScript) : Work Unit := do
  let context ← beginSpan "demo"
  Sample.all.forM fun s => do
    match s.program with
    | .error e => throw (.unreadable e)
    | .ok program =>
      match ← convertSample context s program with
      | none => pure ()
      | some converted =>
        display (sampleText s converted)
        runHook script program converted

/-- **Converting a file.** -/
def convertFile (files : Files) (script : Option NamedScript) (name : Text) : Work Unit := do
  let context ← beginSpan name
  let es ← compiling (Compiler.load files name)
  logging fun log => log.write {} context {
    level := .info
    message := "converting"
    attributes := [("file", name), ("expressions", ofNat es.length)] }
  es.forM fun e => do
    let converted ← within name (compiling (Compiler.convert e))
    display (converted.print ++ "\n")
    withinScript script (runHook script e converted)

/-- Taking lines from the input, one after the other, until the dialogue is
over. -/
def converse (script : Option NamedScript) : List Arrival → Session Text → Log → Desk
  | [], s, log => { compiler := s.compiler, shown := s.hookState, log }
  | a :: rest, s, log =>
    let (reaction, s) := Dialogue.react (scriptHook script) a s
    let log := log.writeAll s.compiler.log
    let s := { s with compiler := { s.compiler with log := [] } }
    match reaction with
    | .stop _ => { compiler := s.compiler, shown := s.hookState, log }
    | reaction =>
      let added := Dialogue.Reaction.transcript reaction
      converse script rest { s with hookState := s.hookState ++ added.stdout }
        (log.append added.stderr)

/-- The dialogue as work. -/
def dialogue (script : Option NamedScript) (input : Text) : Work Unit :=
  modify fun d => converse script (Dialogue.arrivals input)
    { compiler := d.compiler, hookState := d.shown } d.log

/-- **The whole work.** -/
def work (o : Options) (s : Settings) (files : Files) (script : Option NamedScript)
    (input : Text) : Work Unit := do
  logging fun log => log.write {} {} (settingsRecord s)
  if o.wantsSamples then convertSamples script
  o.inputFiles.forM (convertFile files script)
  if !o.wantsSamples && o.inputFiles.isEmpty then dialogue script input

/-! ## The program -/

/-- **What a program leaves behind.** -/
structure Exit where
  /-- The exit code. -/
  code : Nat
  /-- What was shown. -/
  stdout : Text := []
  /-- What was complained about and logged. -/
  stderr : Text := []
  deriving DecidableEq, Repr

/-- The end of a program that did not come to its work. -/
def Exit.refuse (message : Text) : Exit :=
  { code := 2, stderr := message ++ "\n" }

/-- The script of a file, if a file is named. -/
def fetchScript (scripts : List NamedScript) (file : Text) :
    Except Failure (Option NamedScript) :=
  if file.isEmpty then .ok none
  else
    match scripts.lookup file with
    | some script => .ok (some (file, script))
    | none => .error (.missingFile file)

/-- The compiler of the program. -/
def compilerOf (s : Settings) : Compiler :=
  { settings := s, logsConversions := true, logsGaps := true }

/-- The record of a failure that ends the work. -/
def failureRecord (f : Failure) : Record where
  level := .error
  message := "cpsc"
  attributes := [("error", f.message)]

/-- The end of the work. -/
def finish : Except Failure Unit × Desk → Exit
  | (.ok (), d) => { code := 0, stdout := d.shown, stderr := d.log.text }
  | (.error f, d) =>
    { code := 1, stdout := d.shown, stderr := (d.log.write {} {} (failureRecord f)).text }

/-- **The program**, given its words, the files and scripts that exist, and its
input. -/
def run (words : List Text) (files : Files) (scripts : List NamedScript) (input : Text) : Exit :=
  match commands.run words {} with
  | (.error (.failed ()), _) => { code := 0, stdout := commands.usage }
  | (.error e, _) => .refuse (e.message fun _ => [])
  | (.ok (), o) =>
    match Settings.load files o.configFiles with
    | .error e => .refuse e.message
    | .ok loaded =>
      match fetchScript scripts o.scriptFile with
      | .error f => .refuse f.message
      | .ok script =>
        let settings := o.override loaded
        finish (StateT.run (ExceptT.run (work o settings files script input))
          { compiler := compilerOf settings, log := { threshold := o.level } })

end CommandLine

end PassingStyle
