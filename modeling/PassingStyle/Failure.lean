import PassingStyle.Form
import PassingStyle.Reader

/-!
# Failures

What can go wrong between a text and its converted program, in one type: the
text cannot be read, an expression is refused, a file is missing, or a hook that
sees every converted expression objects. A failure that belongs to a file says so
in front of its message.
-/

namespace PassingStyle

open Text

/-- **A failure** of the compiler or of something it calls. -/
inductive Failure where
  /-- The text cannot be read. -/
  | unreadable (e : SyntaxError)
  /-- An expression is refused. -/
  | refused (e : FormError)
  /-- There is no such file. -/
  | missingFile (name : Text)
  /-- The failure belongs to a file. -/
  | inFile (name : Text) (cause : Failure)
  /-- A conversion is to be logged, but there is no expression to show. -/
  | nothingToShow
  /-- Some other failure, described by its message. -/
  | other (message : Text)
  deriving DecidableEq, Repr

namespace Failure

/-- The message of a failure. -/
def message : Failure → Text
  | unreadable e => e.message
  | refused e => e.message
  | missingFile name => "open " ++ name ++ ": no such file or directory"
  | inFile name cause => name ++ ": " ++ cause.message
  | nothingToShow => "no expression"
  | other text => text

/-- The failure itself, without the file it belongs to. -/
def cause : Failure → Failure
  | inFile _ f => f.cause
  | f => f

/-- More input could mend the failure. -/
def isIncomplete (f : Failure) : Bool :=
  match f.cause with
  | unreadable e => e.incomplete
  | _ => false

end Failure

/-- **The files that exist**, by name, each with its content. -/
abbrev Files := List (Text × Text)

/-- The content of a file. -/
def Files.read (files : Files) (name : Text) : Except Failure Text :=
  match files.lookup name with
  | some content => .ok content
  | none => .error (.missingFile name)

namespace Reader

/-- **All expressions of a file**, and the gaps that were skipped. -/
def load (r : Reader) (files : Files) (name : Text) :
    List Gap × Except Failure (List Sexp) :=
  match files.read name with
  | .error f => ([], .error f)
  | .ok text =>
    let (gaps, result) := r.readAll text
    (gaps, result.mapError fun e => .inFile name (.unreadable e))

end Reader

end PassingStyle
