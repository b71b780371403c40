import PassingStyle.Number.Literal
import PassingStyle.Sexp
import PassingStyle.Token

/-!
# Reading expressions

A sequence of tokens is read by a machine with a stack of open constructs: a
list that awaits its closing parenthesis, or a quoting mark that awaits its
expression. Every token either completes an expression, which goes to the
construct on top of the stack, or opens or closes a construct. At the end of
the input the stack has to be empty.

Since the machine looks at one token at a time and never back, reading a
sequence that continues another one starts in the state that the first one
left behind, and an error cannot be undone by what follows. The exception is
the error that reports an open construct at the end of the input: it is marked
*incomplete*, because more input may close the construct.

Dots are collected like elements and judged when their list is closed. A dot
is allowed before the last element only, and then disappears: improper lists are
not represented, so the last element is kept as an element, or dropped if it is
the empty list.

Gaps are no tokens. A strict reader stops at the first one; any other reader
skips it and reports it.

Tokens need not come from the usual rules. A caller who makes up rules can have
numbers that are spelled like none, kinds without a meaning, and string literals
that are too short to have two quotes. The last ones are no syntax errors: the
reader *breaks down* at them.
-/

namespace PassingStyle

open Text

/-- **A number that cannot be had**: its text, and why. -/
structure NumberError where
  /-- The text. -/
  text : Text
  /-- Whether it spells no number, or one that is out of range. -/
  reason : LiteralError
  deriving DecidableEq, Repr

/-- **What is wrong** with a text that cannot be read. -/
inductive SyntaxFault where
  /-- A strict reader met a gap. -/
  | gap (g : Gap)
  /-- A parenthesis lacks its partner. -/
  | unbalanced
  /-- A dot is not followed by exactly one element and the end of its list. -/
  | misplacedDot
  /-- The input ends where an expression is expected. -/
  | endOfInput
  /-- A dot stands outside of a list. -/
  | strayDot
  /-- A number is none, or out of the range of what can be represented. -/
  | numberRange (e : NumberError)
  /-- A token of this kind starts no expression. -/
  | unexpected (kind : TokenKind)
  deriving DecidableEq, Repr

/-- What is reported about a fault. -/
def SyntaxFault.message : SyntaxFault → Text
  | .gap g => g.message
  | .unbalanced => "unbalanced parentheses"
  | .misplacedDot => "too many items in CDR position"
  | .endOfInput => "unexpected end of input"
  | .strayDot => "unexpected '.' outside of a list"
  | .numberRange e =>
    "strconv.ParseFloat: parsing " ++ e.text.quoted ++ ": " ++ e.reason.message
  | .unexpected kind => "unexpected token " ++ kind.name

/-- **A syntax error**: what is wrong, where, and whether more input could
mend it. A reader that breaks down has no error to report, but ends here as well. -/
structure SyntaxError where
  /-- What is wrong. -/
  fault : SyntaxFault
  /-- Where it is. -/
  span : Span
  /-- The offending text, or nothing. -/
  text : Text := []
  /-- More input could make the text readable. -/
  incomplete : Bool := false
  /-- The reader breaks down. -/
  breaks : Bool := false
  deriving DecidableEq, Repr

/-- The message of a syntax error. -/
def SyntaxError.message (e : SyntaxError) : Text :=
  let about := "syntax error at " ++ e.span.print ++ ": " ++ e.fault.message
  if e.text.isEmpty then about else about ++ ": " ++ e.text

/-! ## The machine -/

/-- **An open construct.** -/
inductive Frame where
  /-- A list opened at position `start`, with its elements so far, the last one
  first. -/
  | list (start : Nat) (items : List Sexp)
  /-- A quoting mark. -/
  | quote
  deriving DecidableEq, Repr

/-- **The state of the machine.** -/
structure Reading where
  /-- The open constructs, the innermost first. -/
  frames : List Frame
  /-- The complete expressions, the last one first. -/
  done : List Sexp
  /-- The position after the last token. -/
  stop : Nat
  deriving DecidableEq, Repr

namespace Reading

/-- Nothing is read and nothing is open. -/
def start : Reading := ⟨[], [], 0⟩

/-- The list that a quoting mark makes of an expression. -/
def quoteForm (e : Sexp) : Sexp :=
  .list [.ofName "quote", e]

/-- **A complete expression** goes to the innermost open construct; a quoting
mark is thereby complete as well. -/
def deliver (e : Sexp) : List Frame → List Sexp → List Frame × List Sexp
  | [], done => ([], e :: done)
  | .list start items :: frames, done => (.list start (e :: items) :: frames, done)
  | .quote :: frames, done => deliver (quoteForm e) frames done

/-- The state after a complete expression. -/
def complete (r : Reading) (e : Sexp) : Reading :=
  let (frames, done) := deliver e r.frames r.done
  { r with frames, done }

/-- **The elements of a closed list**, its dots resolved; nothing if a dot is
misplaced. -/
def resolveDots? : List Sexp → Option (List Sexp)
  | [] => some []
  | [.dot] => none
  | [.dot, .dot] => none
  | [.dot, .nil] => some []
  | [.dot, e] => some [e]
  | .dot :: _ :: _ :: _ => none
  | e :: rest => (resolveDots? rest).map (e :: ·)

/-- **The content of a string literal**, without its first and last byte; nothing if there
are no two. -/
def content? : Text → Option Text
  | [] | [_] => none
  | _ :: b :: rest => some (b :: rest).dropLast

/-- One token. -/
def step (r : Reading) (t : Token) : Except SyntaxError Reading :=
  let r := { r with stop := t.span.stop }
  match t.kind with
  | .nil => .ok (r.complete .nil)
  | .true => .ok (r.complete (.bool true))
  | .false => .ok (r.complete (.bool false))
  | .symbol => .ok (r.complete (.symbol t.text))
  | .number =>
    match Literal.fraction .double t.text with
    | .ok x => .ok (r.complete (.number x))
    | .error reason => .error {
        fault := .numberRange ⟨t.text, reason⟩
        span := t.span
        text := t.text }
  | .string =>
    match content? t.text with
    | some s => .ok (r.complete (.str s))
    | none => .error {
        fault := .unexpected t.kind
        span := t.span
        text := t.text
        breaks := true }
  | .quote => .ok { r with frames := .quote :: r.frames }
  | .lparen => .ok { r with frames := .list t.span.start [] :: r.frames }
  | .rparen =>
    match r.frames with
    | .list start items :: frames =>
      match resolveDots? items.reverse with
      | some elements => .ok ({ r with frames }.complete (.list elements))
      | none => .error {
          fault := .misplacedDot
          span := ⟨start, t.span.stop⟩
          text := (Sexp.list items.reverse).print }
    | _ => .error { fault := .unbalanced, span := t.span, text := "unexpected ')'" }
  | .dot =>
    match r.frames with
    | .list start items :: frames =>
      .ok { r with frames := .list start (.dot :: items) :: frames }
    | _ => .error { fault := .strayDot, span := t.span }
  | .whitespace | .other _ =>
    .error { fault := .unexpected t.kind, span := t.span, text := t.text }

/-- The end of the input. -/
def finish (r : Reading) : Except SyntaxError (List Sexp) :=
  match r.frames with
  | [] => .ok r.done.reverse
  | .quote :: _ => .error {
      fault := .endOfInput
      span := ⟨r.stop, r.stop⟩
      incomplete := true }
  | .list start _ :: _ => .error {
      fault := .unbalanced
      span := ⟨start, r.stop⟩
      text := "missing ')'"
      incomplete := true }

/-- **The rest of the input**: the gaps that are skipped on the way, and what
is read. -/
def run (strict : Bool) : List Item → Reading → List Gap × Except SyntaxError (List Sexp)
  | [], r => ([], r.finish)
  | .gap g :: rest, r =>
    if strict then ([], .error { fault := .gap g, span := g.span, text := g.text })
    else
      let (gaps, result) := run strict rest r
      (g :: gaps, result)
  | .token t :: rest, r =>
    match r.step t with
    | .error e => ([], .error e)
    | .ok r => run strict rest r

end Reading

/-! ## Readers -/

/-- **A reader**: how it cuts a text into tokens, and whether it stops at a
gap. -/
structure Reader where
  /-- How the text is cut into tokens. -/
  tokenizer : Tokenizer := .standard
  /-- Whether a gap is an error. -/
  strict : Bool := false
  deriving DecidableEq, Repr

namespace Reader

/-- The reader with the usual rules, which skips gaps. -/
def standard : Reader := {}

/-- **All expressions of a text that is cut in some way**, by rules or otherwise, and the
gaps that were skipped. -/
def readCut (cut : Text → List Item) (strict : Bool) (text : Text) :
    List Gap × Except SyntaxError (List Sexp) :=
  Reading.run strict (cut text) .start

/-- **All expressions of a text**, and the gaps that were skipped. -/
def readAll (r : Reader) (text : Text) : List Gap × Except SyntaxError (List Sexp) :=
  readCut r.tokenizer.scan r.strict text

/-- The first of the expressions that were read. -/
def first : List Sexp → Except SyntaxError Sexp
  | [] => .error { fault := .endOfInput, span := ⟨0, 0⟩, text := "empty input" }
  | e :: _ => .ok e

/-- **The first expression of a text**, all of which must be readable. -/
def read (r : Reader) (text : Text) : List Gap × Except SyntaxError Sexp :=
  let (gaps, result) := r.readAll text
  (gaps, result >>= first)

end Reader

end PassingStyle
