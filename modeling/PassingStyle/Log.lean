import PassingStyle.Log.Record

/-!
# Logs

A log is a text to which records are written line by line, if they are important
enough. A *logger* puts attributes of its own in front of those of a record, and
gathers the record's attributes in groups. A *span* is a piece of work; records
written during it are tagged with it, so that the lines of one piece of work can
be told from others.

A span is known by a number, which it gets when it first appears in the log.
-/

namespace PassingStyle

open Text

/-- **A span**, by the order in which spans were begun. -/
abbrev SpanId := Nat

/-- **Where a record comes from**: the span that is going on, if any. -/
structure Context where
  /-- The innermost span. -/
  span : Option SpanId := none
  deriving DecidableEq, Repr

/-- **A logger**: what it puts in front of the attributes of a record, and the
groups in which it puts these. -/
structure Logger where
  /-- Its own attributes, as they stand in a line. -/
  before : Text := []
  /-- The names of the open groups, each with a dot after it. -/
  groups : Text := []
  deriving DecidableEq, Repr

namespace Logger

/-- The logger with more attributes of its own, which lie in the groups that are
open now. -/
def withAttributes (l : Logger) (attributes : List Attribute) : Logger :=
  { l with before := l.before ++ attributes.flatMap (Record.pair l.groups) }

/-- The logger with one more open group; a group without a name is none. -/
def withGroup (l : Logger) (name : Text) : Logger :=
  if name.isEmpty then l else { l with groups := l.groups ++ name ++ "." }

/-- The line of a record. -/
def line (l : Logger) (r : Record) : Text :=
  r.line l.before l.groups

end Logger

/-- **A log.** -/
structure Log where
  /-- Records below this level are not written. -/
  threshold : Level := .info
  /-- How many spans were begun. -/
  begun : Nat := 0
  /-- The spans that appear in the text, in the order of their first
  appearance. -/
  appeared : List SpanId := []
  /-- What was written. -/
  text : Text := []
  deriving DecidableEq, Repr

namespace Log

/-- A record of this level is written. -/
def shows (log : Log) (l : Level) : Bool :=
  log.threshold.rank ≤ l.rank

/-- The log with one more span in its text, if it is not there already. -/
def mention (log : Log) (s : SpanId) : Log :=
  if log.appeared.contains s then log else { log with appeared := log.appeared ++ [s] }

/-- The name of a span that appears in the text. -/
def spanName (log : Log) (s : SpanId) : Text :=
  "SPAN" ++ ofNat (log.appeared.idxOf s + 1)

/-- The tag of a record that was written during a span. -/
def tag (log : Log) (c : Context) : List Attribute :=
  match c.span with
  | none => []
  | some s => [("logs.span", log.spanName s)]

/-- The log after its text has mentioned the span of a context. -/
def enter (log : Log) (c : Context) : Log :=
  match c.span with
  | none => log
  | some s => log.mention s

/-- **Writing a record.** The tag comes after its attributes. -/
def write (logger : Logger) (c : Context) (r : Record) (log : Log) : Log :=
  if log.shows r.level then
    let log := log.enter c
    let tagged := { r with attributes := r.attributes ++ log.tag c }
    { log with text := log.text ++ logger.line tagged }
  else log

/-- Writing records that belong to no span. -/
def writeAll (rs : List Record) (log : Log) : Log :=
  rs.foldl (fun log r => log.write {} {} r) log

/-- The record of a new span, which names the one it lies in. -/
def spanRecord (log : Log) (c : Context) (name : Text) : Record where
  level := .debug
  message := "new span"
  attributes := ("name", name) :: match c.span with
    | none => []
    | some s => [("parent", log.spanName s)]

/-- **Beginning a span** inside another one or none; the context in which it goes
on is returned as well. -/
def beginSpan (c : Context) (name : Text) (log : Log) : Context × Log :=
  let inner : Context := { span := some log.begun }
  let log := { log with begun := log.begun + 1 }
  let log := if log.shows .debug then log.enter c else log
  (inner, log.write {} inner (log.spanRecord c name))

/-- Text that is no record. -/
def append (t : Text) (log : Log) : Log :=
  { log with text := log.text ++ t }

end Log

end PassingStyle
