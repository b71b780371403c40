import PassingStyle.Compiler
import PassingStyle.Script.Value

/-!
# Scripts in any language

The language of scripts is not part of this development. What is used of it is what a
`ScriptLanguage` holds: how a function of a script takes its only argument, how a
function on texts becomes one of a script, and what the terms and the scripts do.

A runner offers its scripts four functions, which read, print, convert and normalize
programs. The first three take their argument apart themselves. The last one is a
function on texts, which may fail, and it is left to the language what a script gets
to see of its answer.

Besides these functions and what the language itself provides a script sees the values
it is given, and a value that is given under a name hides what is always there under
it.
-/

namespace PassingStyle

open Text

/-! ## What can go wrong -/

/-- **Why a script does not come to its end.** -/
inductive ScriptError where
  /-- The script is not accepted. -/
  | refused
  /-- A step failed. -/
  | failed (cause : Failure)
  /-- Something looked at a place without a value. -/
  | hole
  /-- An expression that the script is to see has no value. -/
  | unrepresentable
  /-- A function was given a value of a kind, here by name, that it does not even
  know how to refuse. -/
  | foreign (kind : Text)
  deriving DecidableEq, Repr

namespace ScriptError

/-- The message of an error. -/
def message : ScriptError → Text
  | refused => "invalid script"
  | failed cause => cause.message
  | hole => "no value"
  | unrepresentable => "cannot convert lisp.dotAtom to starlark"
  | foreign kind => "unsupported type " ++ kind

/-- What went wrong, for someone who only knows that a hook failed. -/
def toFailure : ScriptError → Failure
  | failed cause => cause
  | e => .other e.message

end ScriptError

/-! ## Runners -/

/-- **What runs scripts**: a compiler, what was printed so far, and whether runs
are logged. -/
structure Runner where
  /-- The compiler that the functions use. -/
  compiler : Compiler := {}
  /-- What was printed. -/
  output : Text := []
  /-- Runs are logged. -/
  logs : Bool := false

/-- The work of a script, which may fail; what it did before stays done. -/
abbrev Scripting := ExceptT ScriptError (StateM Runner)

/-- The work of a runner that no script needs to know of. It fails only where the
compiler does. -/
abbrev Running := ExceptT Failure (StateM Runner)

/-- **A function of a script**: what it does with its arguments and keyword
arguments. -/
abbrev Function := List Value → Names → Scripting Value

namespace Runner

/-- A step that fails with a message. -/
def complain (message : Text) : Scripting α :=
  throw (.failed (.other message))

/-- Work of the compiler. -/
def working (action : Compile α) : Running α := do
  let r ← get
  let (result, compiler) := StateT.run (ExceptT.run action) r.compiler
  set { r with compiler }
  ExceptT.mk (pure result)

/-- Work of the compiler inside a script. -/
def compiling (action : Compile α) : Scripting α :=
  (working action).adapt .failed

/-- Printing a line. -/
def printLine (line : Text) : Scripting Unit :=
  modify fun r => { r with output := r.output ++ line ++ "\n" }

/-- The expression of a value. -/
def expression (v : Value) : Scripting Sexp :=
  match v.toSexp with
  | .ok e => return e
  | .error .hole => throw .hole
  | .error e => complain e.message

/-- The value of an expression. -/
def valueOf (e : Sexp) : Scripting Value :=
  match Value.ofSexp? e with
  | some v => return v
  | none => throw .unrepresentable

/-- **Normalizing**: reading a text and printing it again. -/
def normalize (text : Text) : Running Text := do
  return (← working (Compiler.read text)).print

/-- The record of a run. -/
def runRecord (file : Text) : Record where
  level := .debug
  message := "run script"
  attributes := [("file", file)]

/-- A run of a script is logged, if runs are. -/
def logRun (file : Text) (r : Runner) : Runner :=
  if r.logs then
    { r with compiler := { r.compiler with log := r.compiler.log ++ [runRecord file] } }
  else r

end Runner

/-- **What a script reaches of its runner**: where it prints, and the functions that
it is offered. -/
structure Host where
  /-- Printing a line. -/
  print : Text → Scripting Unit
  /-- The functions. -/
  offers : Offered → Function

/-! ## Languages -/

/-- **A script language**, as far as runners depend on it. -/
structure ScriptLanguage where
  /-- The terms, which denote values. -/
  Term : Type
  /-- The scripts. -/
  Script : Type
  /-- The term that spells out a string. -/
  literal : Text → Term
  /-- The term that calls what a name stands for with one argument. -/
  apply : Text → Term → Term
  /-- The argument of a function, here by name, whose only parameter, again by name, is a
  string. -/
  textArgument : Text → Text → List Value → Names → Scripting Text
  /-- The argument of a function, here by name, whose only parameter, again by name, is any
  value. -/
  valueArgument : Text → Text → List Value → Names → Scripting Value
  /-- The function of a script, under a name, that a function on texts becomes. -/
  makeFunction : Text → (Text → Running Text) → Function
  /-- The value of a term in a script that binds nothing and is given nothing. -/
  eval : Host → Term → Scripting Value
  /-- A script from a file with the values that it is given: what it bound, what went wrong
  and what it left behind. -/
  exec : Host → Text → Script → Names → Runner → (Names × Option ScriptError) × Runner

namespace ScriptLanguage

open Runner

variable (L : ScriptLanguage)

/-! ### The functions that are offered -/

/-- Reading the first expression of a text. -/
def read : Function := fun arguments keywords => do
  valueOf (← compiling (Compiler.read
    (← L.textArgument Offered.read.name "text" arguments keywords)))

/-- The expression that a function is given as its only argument. -/
def treeArgument (function : Offered) (arguments : List Value) (keywords : Names) :
    Scripting Sexp := do
  expression (← L.valueArgument function.name "tree" arguments keywords)

/-- Printing an expression. -/
def display : Function := fun arguments keywords => do
  return .string (← L.treeArgument .display arguments keywords).print

/-- Converting an expression. -/
def transform : Function := fun arguments keywords => do
  valueOf (← compiling (Compiler.convert (← L.treeArgument .transform arguments keywords)))

/-- Normalizing a text, as a script sees it. -/
def normalize : Function :=
  L.makeFunction Offered.normalize.name Runner.normalize

/-- What a script reaches of its runner. -/
def host : Host where
  print := printLine
  offers
    | .read => L.read
    | .display => L.display
    | .transform => L.transform
    | .normalize => L.normalize

/-- The term that calls a function with one argument. -/
def call (f : Offered) (t : L.Term) : L.Term :=
  L.apply f.name t

/-- The value of a term. -/
def value (t : L.Term) : Scripting Value :=
  L.eval L.host t

/-! ### Running scripts -/

/-- **Running a script** with the values that it is given; the result is what it
bound, and what went wrong. -/
def run (file : Text) (script : L.Script) (given : Names) (r : Runner) :
    (Names × Option ScriptError) × Runner :=
  L.exec L.host file script given (r.logRun file)

/-- **Running a script on a conversion**: it sees the expression, its conversion
and the printed form of that. -/
def runHook (file : Text) (script : L.Script) (source converted : Sexp) (r : Runner) :
    Option ScriptError × Runner :=
  match Value.ofSexp? source, Value.ofSexp? converted with
  | some s, some t =>
    let ((_, error), r) := L.run file script
      [("source", s), ("tree", t), ("text", .string converted.print)] r
    (error, r)
  | _, _ => (some .unrepresentable, r)

end ScriptLanguage

end PassingStyle
