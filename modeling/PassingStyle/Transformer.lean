import PassingStyle.Alpha

/-!
# Transformers

A transformer holds what the conversion of one expression leaves to the next: the
table of fresh names, and the registry of primitives. Both may be missing. Without
a registry the usual operators are primitives, and a missing table is made when
names are first needed, even if the expression is then refused; but a table or a
registry that is not there can neither be reset nor added to.
-/

namespace PassingStyle

open Text

/-- The operators that are primitives unless others are named. -/
def defaultPrimitives : List Text := ["+", "-", "*", "/"]

namespace Convert

/-- The form of an expression, as a step of a conversion. -/
def analyse (isPrimitive : Text → Bool) (e : Sexp) : FreshExcept Form :=
  match Form.analyse isPrimitive e with
  | .ok f => return f
  | .error err => throw err

/-- The forms of several expressions. -/
def analyseAll (isPrimitive : Text → Bool) (es : List Sexp) : FreshExcept (List Form) :=
  match Form.analyseAll isPrimitive es with
  | .ok fs => return fs
  | .error err => throw err

/-- **A program** that hands its value to `halt`. -/
def program (isPrimitive : Text → Bool) (e : Sexp) (halt : Text) : FreshExcept Sexp := do
  reserveSymbols [e, .symbol halt]
  (← analyse isPrimitive e).convertProgram halt

/-- An atomic expression by itself. -/
def atom (isPrimitive : Text → Bool) (e : Sexp) : FreshExcept Sexp := do
  reserveSymbols [e]
  let f ← analyse isPrimitive e
  if f.isAtomic then f.convertAtom else throw (.notAtomic e)

/-- An expression whose value goes to the expression `cont`. -/
def withObject (isPrimitive : Text → Bool) (e cont : Sexp) : FreshExcept Sexp := do
  reserveSymbols [e, cont]
  (← analyse isPrimitive e).convert (.object cont)

/-- An expression with whose value the conversion goes on. -/
def withBuilder (isPrimitive : Text → Bool) (e : Sexp) (k : Sexp → Fresh Sexp) :
    FreshExcept Sexp := do
  reserveSymbols [e]
  (← analyse isPrimitive e).convert (.builder k)

/-- Several expressions with whose values the conversion goes on. -/
def allWithBuilder (isPrimitive : Text → Bool) (es : List Sexp)
    (k : List Sexp → Fresh Sexp) : FreshExcept Sexp := do
  reserveSymbols es
  Form.convertAll (← analyseAll isPrimitive es) k

end Convert

/-- **A transformer.** -/
structure Transformer where
  /-- The table of fresh names, once there is one. -/
  names : Option NameTable
  /-- The registry of primitives, if there is one. -/
  primitives : Option (List Text)
  deriving DecidableEq, Repr

namespace Transformer

/-- A transformer with an empty table and the usual primitives. -/
def standard : Transformer := ⟨some .empty, some defaultPrimitives⟩

/-- A transformer with neither a table nor a registry. -/
def bare : Transformer := ⟨none, none⟩

/-- The name is a primitive. -/
def isPrimitive (t : Transformer) (name : Text) : Bool :=
  (t.primitives.getD defaultPrimitives).contains name

/-- **One conversion**: its result, and the transformer afterwards. -/
def run (t : Transformer) (action : FreshExcept α) : Except FormError α × Transformer :=
  let (result, names) := StateT.run (ExceptT.run action) (t.names.getD .empty)
  (result, { t with names := some names })

/-- The registered primitives in ascending order. -/
def registered (t : Transformer) : List Text :=
  sorted (t.primitives.getD []).eraseDups

/-- The name is registered. -/
def isRegistered (t : Transformer) (name : Text) : Bool :=
  (t.primitives.getD []).contains name

/-- The transformer with more primitives; nothing, if it has no registry. -/
def register? (t : Transformer) (more : List Text) : Option Transformer :=
  t.primitives.map fun ps => { t with primitives := some (ps ++ more) }

/-- The transformer with all names free again; nothing, if it has no table. -/
def reset? (t : Transformer) : Option Transformer :=
  t.names.map fun _ => { t with names := some .empty }

/-- A copy whose names go on from here; nothing, if there is no table. -/
def fork? (t : Transformer) : Option Transformer :=
  t.names.map fun _ => t

end Transformer

end PassingStyle
