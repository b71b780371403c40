import PassingStyle.Text.Quoted

/-!
# Tokens and gaps

A program text is cut into tokens by an ordered list of rules. At a position
the first rule that matches decides, and how far it reaches; if none matches,
the bytes up to the next position where one does are a *gap*. The result is the
sequence of tokens and gaps in the order of the text, each with the bytes it
covers. Tokens of an ignored kind are left out, but the bytes they cover are no
gap.

Which rules there are is up to the caller, who may also declare a rule that can
match nothing. Such a match makes no progress, so it turns one byte into a gap.
-/

namespace PassingStyle

open Text

/-- **The kinds of tokens.** -/
inductive TokenKind where
  /-- The empty list, by name or quoted. -/
  | nil
  /-- Truth. -/
  | true
  /-- Falsehood. -/
  | false
  /-- A natural number. -/
  | number
  /-- A string literal. -/
  | string
  /-- The dot of a dotted pair. -/
  | dot
  /-- The mark that quotes the next expression. -/
  | quote
  /-- An opening parenthesis. -/
  | lparen
  /-- A closing parenthesis. -/
  | rparen
  /-- A symbol. -/
  | symbol
  /-- White space. -/
  | whitespace
  /-- A kind that a caller has numbered, by how far its number is beyond that of white
  space. Numbers are bytes. -/
  | other (beyond : Fin 245)
  deriving DecidableEq, Repr

namespace TokenKind

/-- All kinds with a name, in the order in which their rules are tried. -/
def all : List TokenKind :=
  [nil, true, false, number, string, dot, quote, lparen, rparen, symbol, whitespace]

/-- What a kind without a name is called. -/
def numbered (n : Nat) : Text :=
  "TokenKind(" ++ Text.ofNat n ++ ")"

/-- The name of a kind. -/
def name : TokenKind → Text
  | nil => "NIL"
  | true => "TRUE"
  | false => "FALSE"
  | number => "NUMBER"
  | string => "STRING"
  | dot => "DOT"
  | quote => "QUOTE"
  | lparen => "LPAREN"
  | rparen => "RPAREN"
  | symbol => "SYMBOL"
  | whitespace => "WHITESPACE"
  | other beyond => numbered (11 + beyond)

/-- The name of the kind with a given number; a number beyond the last kind is
named by itself. -/
def nameAt (n : Nat) : Text :=
  match all[n]? with
  | some k => k.name
  | none => numbered n

/-- The kind with a given name. -/
def ofName? (name : Text) : Option TokenKind :=
  all.find? fun k => k.name == name

end TokenKind

/-- **A span** of positions, the end excluded. -/
structure Span where
  /-- The position of the first byte. -/
  start : Nat
  /-- The position after the last byte. -/
  stop : Nat
  deriving DecidableEq, Repr

/-- The text of a span in messages. -/
def Span.print (s : Span) : Text :=
  ofNat s.start ++ ":" ++ ofNat s.stop

/-- **A token**: its kind, its bytes and where they stand. -/
structure Token where
  /-- Which kind of token it is. -/
  kind : TokenKind
  /-- The bytes it covers. -/
  text : Text
  /-- Where they stand. -/
  span : Span
  deriving DecidableEq, Repr

/-- **A gap**: bytes that belong to no token. -/
structure Gap where
  /-- The bytes it covers. -/
  text : Text
  /-- Where they stand. -/
  span : Span
  deriving DecidableEq, Repr

/-- What is reported about a gap. -/
def Gap.message (g : Gap) : Text :=
  "no token rule matches: " ++ g.text.quoted ++ " at " ++ g.span.print

/-- A piece of a scanned text. -/
inductive Item where
  /-- A token. -/
  | token (t : Token)
  /-- Bytes between tokens that no rule accounts for. -/
  | gap (g : Gap)
  deriving DecidableEq, Repr

/-- The bytes that an item covers. -/
def Item.text : Item → Text
  | .token t => t.text
  | .gap g => g.text

/-- Where an item stands. -/
def Item.span : Item → Span
  | .token t => t.span
  | .gap g => g.span

/-! ## Rules -/

/-- **What a rule matches** at the start of a text. -/
inductive Lexeme where
  /-- The first of some fixed spellings that the text begins with. -/
  | spelled (words : List Text)
  /-- One digit or more. -/
  | digits
  /-- A string literal with its two quotes. -/
  | quoted
  /-- One character or more that can stand in a symbol. -/
  | word
  /-- One blank or more. -/
  | blanks
  /-- Any number of digits, also none. -/
  | optionalDigits
  /-- Nothing, because the rule itself is not well formed. -/
  | illFormed
  deriving DecidableEq, Repr

namespace Lexeme

/-- A byte that can stand in a symbol: visible ASCII apart from parentheses and
the quoting mark. -/
def isWordByte (b : UInt8) : Bool :=
  (0x21 ≤ b && b ≤ 0x26) || (0x2a ≤ b && b ≤ 0x7e)

/-- A byte that is a blank. -/
def isBlankByte (b : UInt8) : Bool :=
  b == byte '\t' || b == byte '\n' || b == 0x0c || b == byte '\r' || b == byte ' '

/-- The number of bytes from the inside of a string literal to its closing
quote, that quote included. A backslash takes the next byte with it, so that it
does not close the literal, unless that byte ends the line or no quote would be
left to close the literal. -/
def closing? : Text → Option Nat
  | [] => none
  | b :: rest =>
    if b = byte '"' then some 1
    else if b = byte '\\' then
      match rest with
      | [] => none
      | c :: after =>
        if c ≠ byte '\n' ∧ byte '"' ∈ after then (closing? after).map (· + 2)
        else (closing? (c :: after)).map (· + 1)
    else (closing? rest).map (· + 1)

/-- The length of the run at the start of the text, if it is not empty. -/
def run? (p : UInt8 → Bool) (t : Text) : Option Nat :=
  match (t.takeWhile p).length with
  | 0 => none
  | n + 1 => some (n + 1)

/-- **How far a rule matches** at the start of the text, if it does. -/
def length? : Lexeme → Text → Option Nat
  | spelled words, t => (words.find? t.startsWith).map List.length
  | digits, t => run? isDigit t
  | quoted, t =>
    match t with
    | [] => none
    | b :: rest => if b = byte '"' then (closing? rest).map (· + 1) else none
  | word, t => run? isWordByte t
  | blanks, t => run? isBlankByte t
  | optionalDigits, t => some (t.takeWhile isDigit).length
  | illFormed, _ => none

end Lexeme

/-- **A rule**: tokens of this kind are spelled this way. -/
structure Rule where
  /-- The kind of token it makes. -/
  kind : TokenKind
  /-- What it matches. -/
  lexeme : Lexeme
  deriving DecidableEq, Repr

namespace Rule

/-- The usual spelling of each kind. A kind without a name has none. -/
def standard : TokenKind → Rule
  | .nil => ⟨.nil, .spelled ["nil", "'()"]⟩
  | .true => ⟨.true, .spelled ["true", "#t"]⟩
  | .false => ⟨.false, .spelled ["false", "#f"]⟩
  | .number => ⟨.number, .digits⟩
  | .string => ⟨.string, .quoted⟩
  | .dot => ⟨.dot, .spelled ["."]⟩
  | .quote => ⟨.quote, .spelled ["'"]⟩
  | .lparen => ⟨.lparen, .spelled ["("]⟩
  | .rparen => ⟨.rparen, .spelled [")"]⟩
  | .symbol => ⟨.symbol, .word⟩
  | .whitespace => ⟨.whitespace, .blanks⟩
  | .other beyond => ⟨.other beyond, .spelled []⟩

/-- The usual rules, in the order in which they are tried. -/
def allStandard : List Rule :=
  TokenKind.all.map standard

/-- A rule for numbers that also matches nothing. -/
def optionalNumber : Rule := ⟨.number, .optionalDigits⟩

/-- A rule for symbols that is not well formed. -/
def illFormedSymbol : Rule := ⟨.symbol, .illFormed⟩

end Rule

/-- **Why a list of rules is refused.** -/
inductive RuleError where
  /-- There is no rule. -/
  | none
  /-- The rule for this kind is not well formed. -/
  | illFormed (kind : TokenKind)
  deriving DecidableEq, Repr

/-- What is reported about a refused list of rules. -/
def RuleError.message : RuleError → Text
  | .none => "no token rules"
  | .illFormed k => "rule " ++ k.name ++ ": error parsing regexp: missing closing ): `(`"

/-! ## Scanning -/

/-- **A tokenizer**: the rules in the order in which they are tried, and the
kinds whose tokens are left out. -/
structure Tokenizer where
  /-- The rules, the first that matches decides. -/
  rules : List Rule
  /-- The kinds whose tokens are left out. -/
  ignored : List TokenKind
  deriving DecidableEq, Repr

/-- A match found in a text: how many bytes come before it, which kind of token
it makes and how many bytes it covers. -/
structure Found where
  /-- The bytes before the match. -/
  skipped : Nat
  /-- The kind of its rule. -/
  kind : TokenKind
  /-- The bytes it covers. -/
  length : Nat
  deriving DecidableEq, Repr

namespace Tokenizer

/-- All the usual rules, without white space among the tokens. -/
def standard : Tokenizer := ⟨Rule.allStandard, [.whitespace]⟩

/-- The tokenizer with these rules, unless there are none or one of them is
not well formed. -/
def ofRules (rules : List Rule) (ignored : List TokenKind) : Except RuleError Tokenizer :=
  if rules.isEmpty then .error .none
  else
    match rules.find? fun r => r.lexeme == .illFormed with
    | some r => .error (.illFormed r.kind)
    | none => .ok ⟨rules, ignored⟩

/-- The first rule that matches at the start of the text. -/
def here? (t : Tokenizer) (text : Text) : Option (TokenKind × Nat) :=
  t.rules.findSome? fun r => (r.lexeme.length? text).map fun n => (r.kind, n)

/-- The first match at any position of the text. -/
def search? (t : Tokenizer) : Text → Option Found
  | [] => none
  | b :: rest =>
    match t.here? (b :: rest) with
    | some (kind, n) => some ⟨0, kind, n⟩
    | none => (t.search? rest).map fun f => { f with skipped := f.skipped + 1 }

/-- The gap that covers the first `n` bytes of a text, if `n` is not zero. -/
def gapItems (pos n : Nat) (text : Text) : List Item :=
  if n = 0 then [] else [.gap ⟨text.take n, ⟨pos, pos + n⟩⟩]

/-- The token of a match, if its kind is not ignored. The text starts where the
search did. -/
def tokenItems (t : Tokenizer) (pos : Nat) (f : Found) (text : Text) : List Item :=
  if f.kind ∈ t.ignored then []
  else [.token ⟨f.kind, (text.drop f.skipped).take f.length,
    ⟨pos + f.skipped, pos + f.skipped + f.length⟩⟩]

/-- The items of a text that stands at position `pos`, the first `covered`
bytes of which belong to items already reported. -/
def scanFrom (t : Tokenizer) (pos covered : Nat) : Text → List Item
  | [] => []
  | b :: rest =>
    match covered with
    | c + 1 => t.scanFrom (pos + 1) c rest
    | 0 =>
      match t.search? (b :: rest) with
      | none => gapItems pos (rest.length + 1) (b :: rest)
      | some f =>
        match f.length with
        | 0 => gapItems pos (f.skipped + 1) (b :: rest) ++ t.scanFrom (pos + 1) f.skipped rest
        | n + 1 =>
          gapItems pos f.skipped (b :: rest) ++ t.tokenItems pos f (b :: rest)
            ++ t.scanFrom (pos + 1) (f.skipped + n) rest

/-- **The tokens and gaps of a text**, in order. -/
def scan (t : Tokenizer) (text : Text) : List Item :=
  t.scanFrom 0 0 text

/-- The tokens before the first gap, and that gap if there is one. -/
def untilGap : List Item → List Token × Option Gap
  | [] => ([], none)
  | .gap g :: _ => ([], some g)
  | .token t :: rest =>
    let (ts, g) := untilGap rest
    (t :: ts, g)

end Tokenizer

end PassingStyle
