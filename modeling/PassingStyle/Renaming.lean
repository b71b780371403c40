import PassingStyle.Text

/-!
# Renamings

A renaming says by which name a bound variable is called inside its scope.
Scopes are nested: a name is looked up in the innermost scope that binds it,
and a name that no scope binds keeps its spelling.

Two views of the nesting are given. While a program is walked, the scopes
around a place are all that matters, and a *renaming* is simply their list. Where
scopes are shared – several inner scopes in one outer scope, to which names are
still being added – they live in a *store* and point to the scope around them.
-/

namespace PassingStyle

/-- **A scope**: the names bound there, each with its new name. -/
abbrev Scope := List (Text × Text)

namespace Scope

/-- The new name of `s`, if the scope binds it. -/
def find? (scope : Scope) (s : Text) : Option Text :=
  scope.lookup s

/-- The scope with one more name, unless it binds that name already. -/
def bind? (scope : Scope) (s renamed : Text) : Option Scope :=
  match scope.find? s with
  | some _ => none
  | none => some ((s, renamed) :: scope)

end Scope

/-- **A renaming**: the scopes around a place, the innermost first. -/
abbrev Renaming := List Scope

/-- The name by which `s` is called at the place. -/
def Renaming.apply (r : Renaming) (s : Text) : Text :=
  (r.findSome? fun scope => scope.find? s).getD s

/-! ## Shared scopes -/

/-- A scope in a store, with the number of the scope around it; zero if there
is none. -/
structure StoredScope where
  /-- The number of the scope around it. -/
  outer : Nat
  /-- The names bound in it. -/
  names : Scope
  deriving DecidableEq, Repr

/-- **A store of scopes**, the newest first. Scopes are numbered from one in
the order in which they were made. -/
abbrev ScopeStore := List StoredScope

namespace ScopeStore

/-- The store with a new scope inside the given one; its number is the size of
the store. -/
def extend (store : ScopeStore) (outer : Nat) : ScopeStore :=
  ⟨outer, []⟩ :: store

/-- The name by which `s` is called in a scope. A scope lies inside older ones
only, so each step of the search leaves the newest scope behind. -/
def lookup (s : Text) : ScopeStore → Nat → Text
  | [], _ => s
  | scope :: older, e =>
    if e = older.length + 1 then
      match scope.names.find? s with
      | some renamed => renamed
      | none => lookup s older scope.outer
    else lookup s older e

/-- Binding a name in a scope: the store afterwards, and whether the name was
free there. Nothing, if there is no such scope. -/
def bind? (s renamed : Text) : ScopeStore → Nat → Option (Bool × ScopeStore)
  | [], _ => none
  | scope :: older, e =>
    if e = older.length + 1 then
      match scope.names.bind? s renamed with
      | some names => some (true, { scope with names } :: older)
      | none => some (false, scope :: older)
    else (bind? s renamed older e).map fun (fresh, older) => (fresh, scope :: older)

end ScopeStore

end PassingStyle
