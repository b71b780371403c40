import PassingStyle.Form
import PassingStyle.NameTable

/-!
# Conversion to continuation-passing style

A converted program never returns. Every function takes one more parameter, the
continuation, and hands its result to it; every call is the last thing that
happens. The conversion of a form therefore depends on what is to be done with its
value, and there are two ways to say that. An *object continuation* is an
expression that will receive the value when the program runs. A *builder* is a
function of the conversion itself: given the expression that holds the value, it
builds the rest of the program. Builders keep the output small, since an atomic
value is put in its place at once, without a function that only passes it on.

A form that is not atomic needs an object continuation. Where it is given a
builder, that one is first written down as a function of a fresh variable.
The continuation of a branch is used twice, so it is bound to a fresh variable
and never copied.

Fresh variables come from a table of names, and the order in which they are drawn
is the order in which the continuations are built.
-/

namespace PassingStyle

open Text

/-- Computations that draw fresh names. -/
abbrev Fresh := StateM NameTable

/-- The namespace of all names that programs contain. -/
def programNames : Text := "cps"

/-- **A fresh variable** with this base. -/
def freshName (base : Text) : Fresh Text := fun table =>
  table.next base programNames

/-- Keeping fresh variables apart from all symbols of the expressions. -/
def reserveSymbols (es : List Sexp) : Fresh Unit :=
  modify fun table => table.reserve programNames (Sexp.symbolsList es)

/-! ## The pieces of converted programs -/

namespace Target

/-- A function. -/
def lambda (params : List Text) (body : Sexp) : Sexp :=
  .list [Keyword.lambda.sexp, .list (params.map .symbol), body]

/-- Handing a value to a continuation. -/
def pass (cont value : Sexp) : Sexp :=
  .list [cont, value]

/-- A branch. -/
def branch (test yes no : Sexp) : Sexp :=
  .list [Keyword.branch.sexp, test, yes, no]

/-- An assignment, after which the continuation receives the undefined
value. -/
def assign (name : Text) (value cont : Sexp) : Sexp :=
  .list [.ofName "set-then!", .symbol name, value, pass cont (.ofName "undef")]

/-- A recursive binding. -/
def letrec (bindings : List Sexp) (body : Sexp) : Sexp :=
  .list [Keyword.letrec.sexp, .list bindings, body]

/-- A call, the continuation last. -/
def call (fn : Sexp) (args : List Sexp) (cont : Sexp) : Sexp :=
  .list (fn :: args ++ [cont])

/-- A primitive as a function that takes a continuation. -/
def primitive (op : Text) : Sexp :=
  .list [.ofName "cps", .symbol op]

end Target

/-! ## Continuations -/

/-- **What is to be done with the value of a form.** -/
inductive Cont where
  /-- The program hands it to this expression. -/
  | object (cont : Sexp)
  /-- The conversion goes on with the expression that holds it. -/
  | builder (rest : Sexp → Fresh Sexp)

namespace Cont

/-- Handing over an atomic value. -/
def plug : Cont → Sexp → Fresh Sexp
  | object c, value => pure (Target.pass c value)
  | builder k, value => k value

/-- The continuation as an expression. -/
def reify : Cont → Fresh Sexp
  | object c => pure c
  | builder k => do
    let rv ← freshName "rv"
    return Target.lambda [rv] (← k (.symbol rv))

end Cont

/-! ## The conversion -/

namespace Form

mutual

/-- **The conversion of a form**, given what is to be done with its value. -/
def convert : Form → Cont → Fresh Sexp
  | constant e, κ => κ.plug e
  | lambda params first rest, κ => do
    let k ← freshName "k"
    let body ← first.convert (sequel rest (.symbol k))
    κ.plug (Target.lambda (params ++ [k]) body)
  | branch test yes no, κ => do
    let c ← κ.reify
    let k ← freshName "k"
    let body ← test.convert (.builder fun t => do
      let y ← yes.convert (.object (.symbol k))
      let n ← no.convert (.object (.symbol k))
      return Target.branch t y n)
    return Target.pass (Target.lambda [k] body) c
  | sequence first rest, κ => do
    let c ← κ.reify
    first.convert (sequel rest c)
  | assign name value, κ => do
    let c ← κ.reify
    value.convert (.builder fun v => return Target.assign name v c)
  | letrec bindings first rest, κ => do
    let c ← κ.reify
    let bs ← convertBindings bindings
    return Target.letrec bs (← first.convert (sequel rest c))
  | primitive op args, κ => do
    let c ← κ.reify
    convertAll args fun vs => return Target.call (Target.primitive op) vs c
  | call fn args, κ => do
    let c ← κ.reify
    fn.convert (.builder fun f => convertAll args fun vs => return Target.call f vs c)

/-- The continuation that runs some more forms and then hands the value of the
last one to `c`; with no more forms, `c` itself. -/
def sequel : List Form → Sexp → Cont
  | [], c => .object c
  | next :: rest, c => .builder fun _ => next.convert (sequel rest c)

/-- Several forms from left to right, each inside the continuation of the one
before it. -/
def convertAll : List Form → (List Sexp → Fresh Sexp) → Fresh Sexp
  | [], k => k []
  | f :: fs, k => f.convert (.builder fun v => convertAll fs fun vs => k (v :: vs))

/-- The bindings of a recursive binding, whose values are atomic. -/
def convertBindings : List (Text × Form) → Fresh (List Sexp)
  | [] => pure []
  | (name, init) :: bs => do
    let value ← init.convert (.builder pure)
    return .list [.symbol name, value] :: (← convertBindings bs)

end

/-- An atomic form as an expression that holds its value. -/
def convertAtom (f : Form) : Fresh Sexp :=
  f.convert (.builder pure)

/-- **A whole program**: a function is converted by itself, and anything else
hands its value to `halt`. -/
def convertProgram (f : Form) (halt : Text) : Fresh Sexp :=
  match f with
  | lambda .. => f.convertAtom
  | _ => f.convert (.object (.symbol halt))

end Form

end PassingStyle
