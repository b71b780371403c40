import PassingStyle.Failure
import PassingStyle.Log.Record
import PassingStyle.Settings

/-!
# The compiler

The compiler reads a text and converts every expression in it, one after the
other. What one conversion leaves behind for the next is the table of fresh
names; an expression that is refused leaves behind the names it has drawn so far.
A compiler can keep a log of the gaps it skipped and of every conversion, before
and after.
-/

namespace PassingStyle

/-- **A compiler**: its settings, what it logs, the names it has used and what
it has logged. -/
structure Compiler where
  /-- How programs are converted. -/
  settings : Settings := {}
  /-- Conversions are logged. -/
  logsConversions : Bool := false
  /-- Skipped gaps are logged. -/
  logsGaps : Bool := false
  /-- The table of fresh names. -/
  names : NameTable := .empty
  /-- The log so far. -/
  log : List Record := []
  deriving DecidableEq, Repr

/-- The work of a compiler, which may fail; what it did before stays done. -/
abbrev Compile := ExceptT Failure (StateM Compiler)

namespace Compiler

/-- How the compiler reads. -/
def reader (c : Compiler) : Reader := { strict := c.settings.strict }

/-- Adding a record to the log. -/
def record (r : Record) : Compile Unit :=
  modify fun c => { c with log := c.log ++ [r] }

/-- The record of a skipped gap. -/
def gapRecord (g : Gap) : Record where
  level := .warn
  message := "skipping unmatched input"
  attributes := [("text", g.text), ("span", g.span.print)]

/-- The record of a conversion. -/
def conversionRecord (message : Text) (before after : Sexp) : Record where
  level := .debug
  message := message
  attributes := [("input", before.print), ("output", after.print)]

/-- The end of reading: the gaps are logged, and the result is taken. -/
def endReading (gaps : List Gap) (result : Except Failure α) : Compile α := do
  if (← get).logsGaps then
    gaps.forM fun g => record (gapRecord g)
  ExceptT.mk (pure result)

/-- **The first expression of a text.** -/
def read (text : Text) : Compile Sexp := do
  let (gaps, result) := (← get).reader.read text
  endReading gaps (result.mapError .unreadable)

/-- **All expressions of a text.** -/
def readAll (text : Text) : Compile (List Sexp) := do
  let (gaps, result) := (← get).reader.readAll text
  endReading gaps (result.mapError .unreadable)

/-- **All expressions of a file.** -/
def load (files : Files) (name : Text) : Compile (List Sexp) := do
  let (gaps, result) := (← get).reader.load files name
  endReading gaps result

/-- A step that draws names from the compiler's table. -/
def drawing (action : FreshExcept α) : Compile α := do
  let c ← get
  let (result, names) := StateT.run (ExceptT.run action) c.names
  set { c with names }
  ExceptT.mk (pure (result.mapError .refused))

/-- Logging a conversion, for which there must be expressions to show. -/
def logConversion (message : Text) (before after : Sexp) : Compile Unit := do
  if (← get).logsConversions then
    if before = .absent ∨ after = .absent then throw .nothingToShow
    record (conversionRecord message before after)

/-- Renaming the bound variables of an expression, if the settings ask for
it. -/
def prepare (e : Sexp) : Compile Sexp := do
  if (← get).settings.alphatize then
    let renamed ← drawing (alphatize e)
    logConversion "alphatized" e renamed
    return renamed
  else
    return e

/-- **Converting one expression.** -/
def convert (e : Sexp) : Compile Sexp := do
  let e ← prepare e
  let settings := (← get).settings
  let out ← drawing (Convert.program settings.primitives.contains e settings.finalCont)
  logConversion "transformed" e out
  return out

/-- Converting several expressions; the first failure ends the work. -/
def convertAll (es : List Sexp) : Compile (List Sexp) :=
  es.mapM convert

/-- **Compiling the first expression of a text.** -/
def compile (text : Text) : Compile Sexp := do
  convert (← read text)

/-- **Compiling all expressions of a text.** -/
def compileAll (text : Text) : Compile (List Sexp) := do
  convertAll (← readAll text)

/-- A failure of the action is marked with the file it belongs to. -/
def within (name : Text) (action : Compile α) : Compile α :=
  ExceptT.mk do return (← action.run).mapError (.inFile name)

/-- **Compiling all expressions of a file.** -/
def compileFile (files : Files) (name : Text) : Compile (List Sexp) := do
  let es ← load files name
  within name (convertAll es)

end Compiler

end PassingStyle
