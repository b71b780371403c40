import PassingStyle.Sexp

/-!
# The core language

A program is an expression of the core language: a constant or a variable, a
function, a branch, a sequence, an assignment, a recursive binding, a call of a
primitive or of any other function. Analysing an s-expression decides which of
these it is, by the keyword at its head and by its shape, and refuses everything
else.

A form keeps no copy of the expression that it was made from, because it does
not need one: writing it back as an s-expression gives that expression again.
Bodies are never empty, so they are a first form and the ones after it.
-/

namespace PassingStyle

open Text

/-! ## Keywords -/

/-- **The keywords** of the core language. -/
inductive Keyword where
  /-- Data that is not evaluated. -/
  | quote
  /-- A function. -/
  | lambda
  /-- A branch. -/
  | branch
  /-- A sequence. -/
  | sequence
  /-- An assignment. -/
  | assign
  /-- A recursive binding. -/
  | letrec
  deriving DecidableEq, Repr

namespace Keyword

/-- All keywords. -/
def all : List Keyword := [quote, lambda, branch, sequence, assign, letrec]

/-- How a keyword is spelled. -/
def name : Keyword → Text
  | quote => "quote"
  | lambda => "lambda"
  | branch => "if"
  | sequence => "begin"
  | assign => "set!"
  | letrec => "letrec"

/-- A keyword as an expression. -/
def sexp (k : Keyword) : Sexp := .symbol k.name

/-- The keyword that an expression is, if it is one. -/
def of? : Sexp → Option Keyword
  | .symbol s => all.find? fun k => k.name == s
  | _ => none

end Keyword

/-! ## Forms -/

/-- **A form** of the core language. -/
inductive Form where
  /-- A variable, a literal or quoted data. -/
  | constant (value : Sexp)
  /-- A function, by its parameters and its body. -/
  | lambda (params : List Text) (first : Form) (rest : List Form)
  /-- A branch. -/
  | branch (test yes no : Form)
  /-- A sequence. -/
  | sequence (first : Form) (rest : List Form)
  /-- An assignment. -/
  | assign (name : Text) (value : Form)
  /-- A recursive binding: the names with their values, and the body. -/
  | letrec (bindings : List (Text × Form)) (first : Form) (rest : List Form)
  /-- A call of a primitive. -/
  | primitive (op : Text) (args : List Form)
  /-- A call of any other function. -/
  | call (fn : Form) (args : List Form)
  deriving Repr

namespace Form

instance : Inhabited Form := ⟨constant .absent⟩

/-- **Atomic**: evaluating the form needs no step that could be ordered before
or after another. -/
def isAtomic : Form → Bool
  | constant _ => true
  | lambda .. => true
  | _ => false

/-- Several forms as one. -/
def body (first : Form) (rest : List Form) : Form :=
  if rest.isEmpty then first else sequence first rest

mutual

/-- **The expression that a form was made from.** -/
def toSexp : Form → Sexp
  | constant e => e
  | lambda params first rest =>
    .list (Keyword.lambda.sexp :: .list (params.map .symbol) :: first.toSexp :: toSexps rest)
  | branch test yes no => .list [Keyword.branch.sexp, test.toSexp, yes.toSexp, no.toSexp]
  | sequence first rest => .list (Keyword.sequence.sexp :: first.toSexp :: toSexps rest)
  | assign name value => .list [Keyword.assign.sexp, .symbol name, value.toSexp]
  | letrec bindings first rest =>
    .list (Keyword.letrec.sexp :: .list (bindingsToSexps bindings)
      :: first.toSexp :: toSexps rest)
  | primitive op args => .list (.symbol op :: toSexps args)
  | call fn args => .list (fn.toSexp :: toSexps args)

/-- The expressions of several forms. -/
def toSexps : List Form → List Sexp
  | [] => []
  | f :: fs => f.toSexp :: toSexps fs

/-- The expressions of the bindings of a recursive binding. -/
def bindingsToSexps : List (Text × Form) → List Sexp
  | [] => []
  | (name, init) :: bs => .list [.symbol name, init.toSexp] :: bindingsToSexps bs

end

end Form

/-! ## Refusals -/

/-- **What kind of refusal** an expression meets. -/
inductive Refusal where
  /-- An atomic expression is required. -/
  | notAtomic
  /-- The expression has no form at all. -/
  | unsupported
  /-- A keyword is used in a way that it does not allow. -/
  | malformed
  deriving DecidableEq, Repr

/-- How a message about a refusal begins. -/
def Refusal.message : Refusal → Text
  | .notAtomic => "expected atomic expression"
  | .unsupported => "unsupported expression shape"
  | .malformed => "malformed special form"

/-- **Why an expression is refused.** -/
inductive FormError where
  /-- The expression is not atomic. -/
  | notAtomic (e : Sexp)
  /-- A name is bound recursively to an expression that is not atomic. -/
  | initializer (e : Sexp)
  /-- The expression has no form. -/
  | unsupported (e : Sexp)
  /-- The form of a keyword does not have the right shape. -/
  | malformed (e : Sexp)
  /-- A parameter of the function `e` is not a symbol. -/
  | parameter (p e : Sexp)
  /-- A parameter to be renamed is not a symbol. -/
  | renamedParameter (p : Sexp)
  /-- A function has the same parameter twice. -/
  | repeatedParameter (name : Text)
  /-- A name is bound twice at the same place. -/
  | repeatedBinding (name : Text)
  deriving DecidableEq, Repr

namespace FormError

/-- The kind of refusal. -/
def refusal : FormError → Refusal
  | notAtomic _ | initializer _ => .notAtomic
  | unsupported _ => .unsupported
  | malformed _ | parameter .. | renamedParameter _ | repeatedParameter _
  | repeatedBinding _ => .malformed

/-- What is refused. -/
def about : FormError → Text
  | notAtomic e => e.printInMessage
  | initializer e => "letrec initializer " ++ e.printInMessage
  | unsupported e => e.printInMessage
  | malformed e => e.printInMessage
  | parameter p e => "parameter " ++ p.printInMessage ++ " is not a symbol in " ++ e.printInMessage
  | renamedParameter p => "function parameter is not a symbol: " ++ p.printInMessage
  | repeatedParameter s => "duplicate function parameter: " ++ s
  | repeatedBinding s => "duplicate letrec binding: " ++ s

/-- The message of a refusal. -/
def message (e : FormError) : Text :=
  e.refusal.message ++ ": " ++ e.about

end FormError

/-! ## Analysis -/

namespace Form

/-- The parameters of the function `e`, which have to be symbols. -/
def parameters (e : Sexp) : List Sexp → Except FormError (List Text)
  | [] => .ok []
  | .symbol s :: ps => return s :: (← parameters e ps)
  | p :: _ => .error (.parameter p e)

mutual

/-- **The form of an expression**, given which names are primitives. The first
fault from left to right decides, where the shape of a form is judged before its
parts. -/
def analyse (isPrimitive : Text → Bool) : Sexp → Except FormError Form
  | .list [] => .error (.unsupported (.list []))
  | .list (head :: args) =>
    let whole := Sexp.list (head :: args)
    match Keyword.of? head with
    | some .quote =>
      match args with
      | [_] => .ok (constant whole)
      | _ => .error (.malformed whole)
    | some .lambda =>
      match args with
      | .list params :: bodies => do
        let names ← parameters whole params
        match bodies with
        | [] => throw (.malformed whole)
        | first :: rest =>
          return lambda names (← analyse isPrimitive first) (← analyseAll isPrimitive rest)
      | _ => .error (.malformed whole)
    | some .branch =>
      match args with
      | [test, yes, no] =>
        return branch (← analyse isPrimitive test) (← analyse isPrimitive yes)
          (← analyse isPrimitive no)
      | _ => .error (.malformed whole)
    | some .sequence =>
      match args with
      | [] => .error (.malformed whole)
      | first :: rest =>
        return sequence (← analyse isPrimitive first) (← analyseAll isPrimitive rest)
    | some .assign =>
      match args with
      | [.symbol name, value] => return assign name (← analyse isPrimitive value)
      | _ => .error (.malformed whole)
    | some .letrec =>
      match args with
      | .list bindings :: first :: rest =>
        return letrec (← analyseBindings isPrimitive whole bindings)
          (← analyse isPrimitive first) (← analyseAll isPrimitive rest)
      | _ => .error (.malformed whole)
    | none =>
      match head with
      | .symbol op =>
        if isPrimitive op then return primitive op (← analyseAll isPrimitive args)
        else return call (constant (.symbol op)) (← analyseAll isPrimitive args)
      | fn => return call (← analyse isPrimitive fn) (← analyseAll isPrimitive args)
  | e => .ok (constant e)

/-- The forms of several expressions. -/
def analyseAll (isPrimitive : Text → Bool) : List Sexp → Except FormError (List Form)
  | [] => .ok []
  | x :: xs => return (← analyse isPrimitive x) :: (← analyseAll isPrimitive xs)

/-- The bindings of the recursive binding `whole`: names with atomic values. -/
def analyseBindings (isPrimitive : Text → Bool) (whole : Sexp) :
    List Sexp → Except FormError (List (Text × Form))
  | [] => .ok []
  | .list [.symbol name, init] :: bs => do
    let value ← analyse isPrimitive init
    if !value.isAtomic then throw (.initializer init)
    return (name, value) :: (← analyseBindings isPrimitive whole bs)
  | _ :: _ => .error (.malformed whole)

end

end Form

end PassingStyle
