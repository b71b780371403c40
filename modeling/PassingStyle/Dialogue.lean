import PassingStyle.Dialogue.Draft
import PassingStyle.Session

/-!
# The dialogue with a user

Lines come in one at a time, and after each one the conversions are shown, then
what went wrong, then a prompt that tells whether the expression is still open. An
interrupt drops an open expression, and ends the dialogue when there is none. The
end of the input ends it as well, and so does a failure of the input itself. An
empty line between expressions does nothing at all.
-/

namespace PassingStyle

open Text

/-- **What comes in** when a line is awaited. -/
inductive Arrival where
  /-- A line. -/
  | line (text : Text)
  /-- A key that the user hits makes the terminal write something. -/
  | signal (text : Text)
  /-- The user interrupts. -/
  | interrupt
  /-- The input has ended. -/
  | ended
  /-- The input has failed. -/
  | broken (message : Text)
  deriving DecidableEq, Repr

/-- **How a session reacts** to what comes in. -/
inductive Reaction where
  /-- The dialogue is over, possibly because the input failed. -/
  | stop (failure : Option Text)
  /-- Nothing happens. -/
  | ignore
  /-- Something is written that is none of the conversions. -/
  | signal (text : Text)
  /-- The open expression is dropped. -/
  | drop
  /-- The line is fed. -/
  | fed (result : Fed)
  deriving DecidableEq, Repr

namespace Fed

/-- The conversions, one a line. -/
def shown (r : Fed) : Text :=
  r.out.flatMap fun e => e.print ++ "\n"

/-- What went wrong, as a line. -/
def complaint (r : Fed) : Text :=
  match r.failure with
  | none => []
  | some f => "error: " ++ f.message ++ "\n"

end Fed

namespace Dialogue

/-- The prompt between expressions. -/
def prompt : Text := "cps> "

/-- The prompt inside an open expression. -/
def morePrompt : Text := "...  "

/-- The reaction of a session, and the session afterwards. -/
def react (hook : Hook σ) (a : Arrival) (s : Session σ) : Reaction × Session σ :=
  match a with
  | .interrupt => if s.isPending then (.drop, s.reset) else (.stop none, s)
  | .signal text => (.signal text, s)
  | .ended => (.stop none, s)
  | .broken message => (.stop (some message), s)
  | .line text =>
    if text.isEmpty && !s.isPending then (.ignore, s)
    else
      let (result, s) := s.feed hook text
      (.fed result, s)

/-- **What a dialogue leaves behind.** -/
structure Transcript where
  /-- What was shown. -/
  stdout : Text := []
  /-- What was complained about. -/
  stderr : Text := []
  /-- The prompts that were set. -/
  prompts : List Text := []
  /-- How many arrivals were taken. -/
  consumed : Nat := 0
  /-- Why the input failed. -/
  failure : Option Text := none
  deriving DecidableEq, Repr

/-- The transcript of a dialogue that goes on after one arrival: `before` is
what that arrival added. -/
def Transcript.after (before rest : Transcript) : Transcript where
  stdout := before.stdout ++ rest.stdout
  stderr := before.stderr ++ rest.stderr
  prompts := before.prompts ++ rest.prompts
  consumed := before.consumed + 1 + rest.consumed
  failure := rest.failure

/-- What one reaction adds to the transcript. -/
def Reaction.transcript : Reaction → Transcript
  | .stop failure => { consumed := 1, failure }
  | .ignore => {}
  | .signal text => { stdout := text }
  | .drop => { prompts := [prompt] }
  | .fed r => {
      stdout := r.shown
      stderr := r.complaint
      prompts := [if r.pending then morePrompt else prompt] }

/-- **A whole dialogue**, which ends at the latest when nothing more comes
in. -/
def run (hook : Hook σ) : List Arrival → Session σ → Transcript × Session σ
  | [], s => ({}, s)
  | a :: rest, s =>
    match react hook a s with
    | (.stop failure, s) => (Reaction.transcript (.stop failure), s)
    | (reaction, s) =>
      let (later, s) := run hook rest s
      ((Reaction.transcript reaction).after later, s)

/-! ## Keys in place of lines -/

/-- What keys bring in, given the line that is open. What follows the last line end is
a line only if there is something. -/
def arrivalsOf : Draft → List Glyph → List Arrival
  | draft, [] => if draft.isEmpty then [] else [.line draft.text]
  | draft, g :: gs =>
    match draft.press g with
    | .typing draft => arrivalsOf draft gs
    | .signal text draft => .signal text :: arrivalsOf draft gs
    | .entered => .line draft.text :: arrivalsOf draft.next gs
    | .interrupted => .interrupt :: arrivalsOf draft.next gs
    | .ended => [.ended]

/-- **What a text brings in** that is given in place of a user. -/
def arrivals (input : Text) : List Arrival :=
  arrivalsOf {} input.glyphs

end Dialogue

end PassingStyle
