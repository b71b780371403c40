import PassingStyle.Config.Numeral
import PassingStyle.Text.Glyph
import PassingStyle.Text.Letter

/-!
# Tokens of documents and paths

The texts of documents, and the paths that lead into them, are made of the same
tokens: words, numbers, strings, and a few signs. Blanks between tokens mean
nothing, and a comment goes from two slashes to the end of its line.

The end of a line stands for a comma if it comes after a token that can end a value,
and the next token is neither a comma nor a colon. A comment after such a token
stands for a comma as well, whatever follows it.

The reading of tokens looks at one character at a time. It never looks back, so its
whole state is a mode.
-/

namespace PassingStyle

open Text Letter

namespace Document

/-- **A token.** -/
inductive Mark where
  /-- The start of an object. -/
  | openObject
  /-- The end of an object. -/
  | closeObject
  /-- The start of a list, or of a place in a path. -/
  | openList
  /-- The end of a list, or of a place in a path. -/
  | closeList
  /-- What separates a name from its value. -/
  | colon
  /-- What separates elements. -/
  | comma
  /-- The end of a line that stands for a comma. -/
  | lineEnd
  /-- What separates the steps of a path. -/
  | dot
  /-- A sign in front of a number. -/
  | sign (negative : Bool)
  /-- A word. -/
  | word (name : Text)
  /-- A number without its sign. -/
  | number (value : Document)
  /-- A string. -/
  | string (content : Text)

namespace Mark

/-- The mark that may stand before the first character of a text. -/
def byteOrderMark : Text := [0xef, 0xbb, 0xbf]

/-- The characters of a text, without the mark before the first one. There are none
if the text holds stray bytes, null characters, or the mark anywhere else. -/
def characters? (t : Text) : Option (List Char) :=
  (glyphs ((t.dropHead? byteOrderMark).getD t)).mapM fun
    | .char c => if c.toNat = 0 ∨ c.toNat = 0xfeff then none else some c
    | .stray _ => none

/-- The text of characters that were collected backwards. -/
def textOf (sofar : List Char) : Text :=
  sofar.reverse.flatMap String.utf8EncodeChar

/-! ## Words and numbers -/

/-- A character that a word may start with. -/
def startsWord (c : Char) : Bool :=
  isLetter c || c == '_' || c == '$' || c == '#'

/-- A character that a word may go on with, given what there is of it, backwards. -/
def continuesWord (sofar : List Char) (c : Char) : Bool :=
  isLetter c || isDecimal c || c == '_' || c == '$' || (c == '#' && sofar == ['_'])

/-- A character that a number may start with. -/
def startsNumber (c : Char) : Bool :=
  '0' ≤ c && c ≤ '9'

/-- A character that belongs to a number, given what there is of it, backwards: a
sign does so right after the mark of an exponent. -/
def continuesNumber (sofar : List Char) (c : Char) : Bool :=
  c.isAlphanum || c == '_' || c == '.'
    || ((c == '+' || c == '-') && (sofar.head? == some 'e' || sofar.head? == some 'E')
      && !sofar.contains 'x')

/-! ## Escapes in strings -/

/-- The character that an escape of one letter stands for. -/
def escape? (c : Char) : Option Char :=
  [('"', '"'), ('\\', '\\'), ('/', '/'), ('a', '\x07'), ('b', '\x08'), ('f', '\x0c'),
   ('n', '\n'), ('r', '\r'), ('t', '\t'), ('v', '\x0b')].lookup c

/-- The value of a hexadecimal digit. -/
def hexDigit? (c : Char) : Option Nat :=
  if c.toNat < 0x80 then Literal.digit? true c.toUInt8 else none

/-- The character with a code; a half of a pair is none. -/
def character? (n : Nat) : Option Char :=
  if h : n.isValidChar then some (Char.ofNatAux n h) else none

/-! ## Modes -/

/-- **Where the reading of tokens is.** What is in the making is kept backwards. -/
inductive Mode where
  /-- Between two tokens, the first of which can end a value or cannot. -/
  | between (ends : Bool)
  /-- After the end of a line that may stand for a comma. -/
  | lineEnd
  /-- After a slash; the token before it can end a value or cannot. -/
  | slash (ends : Bool)
  /-- Inside a comment. -/
  | comment
  /-- After a point. -/
  | dot
  /-- Inside a word. -/
  | word (sofar : List Char)
  /-- Inside a number. -/
  | number (sofar : List Char)
  /-- Inside a string. -/
  | string (sofar : List Char)
  /-- After a backslash in a string. -/
  | escape (sofar : List Char)
  /-- Inside an escape by code: how many digits are still to come, what they are
  worth so far, and the first half of a pair if this is the second one. -/
  | code (sofar : List Char) (left value : Nat) (high : Option Nat)
  /-- After the first half of a pair. -/
  | half (sofar : List Char) (high : Nat)
  /-- After the first half of a pair and a backslash. -/
  | halfEscape (sofar : List Char) (high : Nat)

/-- What a step of reading yields. -/
abbrev Found := Option (List Mark × Mode)

/-- One more token, before the others. -/
def Found.after (m : Mark) (found : Found) : Found :=
  found.map fun (marks, mode) => (m :: marks, mode)

/-- The token of a sign character, and whether it can end a value. -/
def sign? : Char → Option (Mark × Bool)
  | '\x7b' => some (openObject, false)
  | '\x7d' => some (closeObject, true)
  | '[' => some (openList, false)
  | ']' => some (closeList, true)
  | ':' => some (colon, false)
  | ',' => some (comma, false)
  | '+' => some (sign false, false)
  | '-' => some (sign true, false)
  | _ => none

/-- What a character between two tokens does. -/
def start (ends : Bool) (c : Char) : Found :=
  if c = ' ' ∨ c = '\t' ∨ c = '\r' then some ([], .between ends)
  else if c = '\n' then some ([], if ends then .lineEnd else .between false)
  else if c = '"' then some ([], .string [])
  else if c = '.' then some ([], .dot)
  else if c = '/' then some ([], .slash ends)
  else if startsNumber c then some ([], .number [c])
  else if startsWord c then some ([], .word [c])
  else (sign? c).map fun (m, ends) => ([m], .between ends)

/-- What a character after the end of a line does. -/
def startLine (c : Char) : Found :=
  if c = ' ' ∨ c = '\t' ∨ c = '\r' ∨ c = '\n' then some ([], .lineEnd)
  else if c = ',' ∨ c = ':' then start false c
  else Found.after lineEnd (start false c)

/-- What the last digit of an escape by code does to the string. -/
def endCode (sofar : List Char) (value : Nat) : Option Nat → Option Mode
  | some high =>
    if 0xdc00 ≤ value ∧ value < 0xe000 then
      (character? (0x10000 + (high - 0xd800) * 0x400 + (value - 0xdc00))).map fun c =>
        .string (c :: sofar)
    else none
  | none =>
    if 0xd800 ≤ value ∧ value < 0xdc00 then some (.half sofar value)
    else (character? value).map fun c => .string (c :: sofar)

/-- **What a character does.** -/
def next (mode : Mode) (c : Char) : Found :=
  match mode with
  | .between ends => start ends c
  | .lineEnd => startLine c
  | .slash ends => if c = '/' then some (if ends then [lineEnd] else [], .comment) else none
  | .comment => some ([], if c = '\n' then .between false else .comment)
  | .dot => if startsNumber c then some ([], .number [c, '.']) else Found.after dot (start false c)
  | .word sofar =>
    if continuesWord sofar c then some ([], .word (c :: sofar))
    else Found.after (word (textOf sofar)) (start true c)
  | .number sofar =>
    if continuesNumber sofar c then some ([], .number (c :: sofar))
    else
      match Numeral.parse? (textOf sofar) with
      | some n => Found.after (number n) (start true c)
      | none => none
  | .string sofar =>
    if c = '"' then some ([string (textOf sofar)], .between true)
    else if c = '\\' then some ([], .escape sofar)
    else if c = '\n' ∨ c = '\r' then none
    else some ([], .string (c :: sofar))
  | .escape sofar =>
    if c = 'u' then some ([], .code sofar 4 0 none)
    else if c = 'U' then some ([], .code sofar 8 0 none)
    else (escape? c).map fun d => ([], .string (d :: sofar))
  | .code sofar left value high =>
    match hexDigit? c with
    | none => none
    | some d =>
      if left ≤ 1 then (endCode sofar (16 * value + d) high).map fun m => ([], m)
      else some ([], .code sofar (left - 1) (16 * value + d) high)
  | .half sofar high => if c = '\\' then some ([], .halfEscape sofar high) else none
  | .halfEscape sofar high =>
    if c = 'u' then some ([], .code sofar 4 0 (some high)) else none

/-- What the end of the text does. -/
def finish : Mode → Option (List Mark)
  | .between _ | .comment => some []
  | .lineEnd => some [lineEnd]
  | .dot => some [dot]
  | .word sofar => some [word (textOf sofar)]
  | .number sofar => (Numeral.parse? (textOf sofar)).map fun n => [number n]
  | _ => none

/-- The tokens of a sequence of characters, read from some mode on. -/
def scan (mode : Mode) : List Char → Option (List Mark)
  | [] => finish mode
  | c :: rest =>
    match next mode c with
    | none => none
    | some (marks, mode) => (scan mode rest).map (marks ++ ·)

/-- **The tokens of a text.** -/
def read? (t : Text) : Option (List Mark) :=
  (characters? t).bind (scan (.between false))

end Mark

end Document

end PassingStyle
