import PassingStyle.Compiler

/-!
# Sessions

A session is fed line by line. Lines are collected until they make up complete
expressions; then these are converted, and the collection starts anew. While an
expression is open the session is *pending*: the text so far is read again with
the next line, and nothing has been converted, so no name has been drawn.

A hook sees every expression after its conversion and may object to it. It works
with the session's compiler, and may keep a state of its own.
-/

namespace PassingStyle

/-- **A hook**: what is done with an expression and its conversion. -/
abbrev Hook (σ : Type) := Sexp → Sexp → ExceptT Failure (StateM (Compiler × σ)) Unit

/-- The hook that does nothing. -/
def Hook.none : Hook Unit := fun _ _ => pure ()

/-- **A session**: its compiler, the lines that are not complete yet, and the
state of its hook. -/
structure Session (σ : Type) where
  /-- The compiler that reads and converts. -/
  compiler : Compiler
  /-- The lines of the open expression, or nothing. -/
  buffer : Text := []
  /-- The state of the hook. -/
  hookState : σ

/-- **What feeding a line gave**: the conversions, whether more lines are
expected, and what went wrong. -/
structure Fed where
  /-- The converted expressions, up to a failure. -/
  out : List Sexp := []
  /-- An expression is still open. -/
  pending : Bool := false
  /-- What went wrong. -/
  failure : Option Failure := none
  deriving DecidableEq, Repr

namespace Session

/-- Converting expressions one by one, each with the hook after it, up to the
first failure. -/
def convertEach (hook : Hook σ) : List Sexp → Compiler × σ →
    (List Sexp × Option Failure) × (Compiler × σ)
  | [], state => (([], none), state)
  | e :: es, (compiler, hookState) =>
    match StateT.run (ExceptT.run (Compiler.convert e)) compiler with
    | (.error f, compiler) => (([], some f), (compiler, hookState))
    | (.ok converted, compiler) =>
      match StateT.run (ExceptT.run (hook e converted)) (compiler, hookState) with
      | (.error f, state) => (([], some f), state)
      | (.ok (), state) =>
        let ((out, failure), state) := convertEach hook es state
        ((converted :: out, failure), state)

/-- The collected text with one more line. -/
def extended (s : Session σ) (line : Text) : Text :=
  if s.buffer.isEmpty then line else s.buffer ++ Text.byte '\n' :: line

/-- **Feeding a line.** -/
def feed (hook : Hook σ) (line : Text) (s : Session σ) : Fed × Session σ :=
  let text := s.extended line
  match StateT.run (ExceptT.run (Compiler.readAll text)) s.compiler with
  | (.error f, compiler) =>
    if f.isIncomplete then ({ pending := true }, { s with compiler, buffer := text })
    else ({ failure := some f }, { s with compiler, buffer := [] })
  | (.ok es, compiler) =>
    let ((out, failure), (compiler, hookState)) := convertEach hook es (compiler, s.hookState)
    ({ out, failure }, { compiler, hookState })

/-- An expression is still open. -/
def isPending (s : Session σ) : Bool :=
  !s.buffer.isEmpty

/-- The session without the lines of the open expression. -/
def reset (s : Session σ) : Session σ :=
  { s with buffer := [] }

end Session

end PassingStyle
