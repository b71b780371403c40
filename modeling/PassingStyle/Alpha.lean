import PassingStyle.Conversion
import PassingStyle.Renaming

/-!
# Renaming bound variables apart

Conversion moves a continuation into the scope of a recursive binding, where a
name in the continuation could be captured. Renaming every bound variable to a
fresh name beforehand rules that out: afterwards no name is bound twice, and none
that is bound is also free.

The walk follows the scopes of a program, which are those of functions and of
recursive bindings. Quoted data is left as it is. A list that starts like a
scoping form but does not have its shape opens no scope and is renamed element by
element; analysing it will refuse it. In a recursive binding all names are in
scope of all values.
-/

namespace PassingStyle

/-- Computations that draw fresh names and may refuse their input. The names
drawn before a refusal stay taken. -/
abbrev FreshExcept := ExceptT FormError Fresh

namespace Alpha

/-- Binding `s` to a fresh name in a scope. The name is drawn even if the scope
binds `s` already. -/
def bindFresh (s : Text) (scope : Scope) : Fresh (Text × Option Scope) := do
  let renamed ← freshName s
  return (renamed, scope.bind? s renamed)

/-- The fresh parameters of a function, and its scope. -/
def bindParameters : List Sexp → Scope → FreshExcept (List Sexp × Scope)
  | [], scope => return ([], scope)
  | .symbol s :: ps, scope => do
    let (renamed, extended) ← bindFresh s scope
    match extended with
    | none => throw (.repeatedParameter s)
    | some scope =>
      let (rest, scope) ← bindParameters ps scope
      return (.symbol renamed :: rest, scope)
  | p :: _, _ => throw (.renamedParameter p)

/-- The scope of the recursive binding `whole`. -/
def bindNames (whole : Sexp) : List Sexp → Scope → FreshExcept Scope
  | [], scope => return scope
  | .list [.symbol s, _] :: bs, scope => do
    let (_, extended) ← bindFresh s scope
    match extended with
    | none => throw (.repeatedBinding s)
    | some scope => bindNames whole bs scope
  | _ :: _, _ => throw (.malformed whole)

mutual

/-- **Renaming** an expression inside the given scopes. -/
def rename (r : Renaming) : Sexp → FreshExcept Sexp
  | .symbol s => return .symbol (r.apply s)
  | .list (head :: args) =>
    let elements : FreshExcept Sexp := do
      return .list ((← rename r head) :: (← renameAll r args))
    match Keyword.of? head with
    | some .quote =>
      match args with
      | [_] => return .list (head :: args)
      | _ => elements
    | some .lambda =>
      match args with
      | .list params :: bodies => do
        let (renamed, scope) ← bindParameters params []
        return .list (head :: .list renamed :: (← renameAll (scope :: r) bodies))
      | _ => elements
    | some .letrec =>
      match args with
      | .list bindings :: first :: rest => do
        let scope ← bindNames (.list (head :: args)) bindings []
        let renamed ← renameBindings (scope :: r) bindings
        let body ← rename (scope :: r) first
        return .list (head :: .list renamed :: body :: (← renameAll (scope :: r) rest))
      | _ => elements
    | _ => elements
  | e => return e

/-- Renaming several expressions from left to right. -/
def renameAll (r : Renaming) : List Sexp → FreshExcept (List Sexp)
  | [] => return []
  | x :: xs => return (← rename r x) :: (← renameAll r xs)

/-- Renaming the bindings of a recursive binding. -/
def renameBindings (r : Renaming) : List Sexp → FreshExcept (List Sexp)
  | .list [.symbol s, init] :: bs => do
    let value ← rename r init
    return .list [.symbol (r.apply s), value] :: (← renameBindings r bs)
  | _ => return []

end

end Alpha

/-- **Renaming all bound variables** of a program to fresh names, which avoid
every symbol of the program. -/
def alphatize (e : Sexp) : FreshExcept Sexp := do
  reserveSymbols [e]
  Alpha.rename [] e

end PassingStyle
