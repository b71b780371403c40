import Mathlib.Data.List.Forall2
import Mathlib.Logic.Function.Basic
import PassingStyle.Form

/-!
# Stores

Programs and converted programs run on the same kind of store, so that the two can be
compared cell by cell. A *location* is a name together with a number: the variable `x`
that is bound for the `n`-th time since the program was started lives at the location
`x` number `n`, and number zero is the location of the global variable `x`. An
environment therefore only says, for every name, which of its bindings is meant.

What programs share with the world around them are *data*: constants, external
procedures and the undefined value. A world gives the global variables their first
values, says what primitives do, and answers the calls of external procedures. These
calls are all that can be seen of a program while it runs, and they are kept in a trace.
-/

namespace PassingStyle

/-- **A value that is no closure.** -/
inductive Datum where
  /-- A constant, which is itself. -/
  | constant (e : Sexp)
  /-- An external procedure. -/
  | external (name : Text)
  /-- The undefined value. -/
  | undefined

/-- Everything but `#f` counts as true. -/
def Datum.isTrue : Datum → Bool
  | constant (.bool false) => false
  | _ => true

/-- If data belong to nothing else than to themselves, the same is true of lists of
data. -/
theorem Datum.forall₂_iff {V : Type} {R : Datum → V → Prop} {inject : Datum → V}
    (h : ∀ d v, R d v ↔ v = inject d) {ds : List Datum} {vs : List V} :
    List.Forall₂ R ds vs ↔ vs = ds.map inject := by
  induction ds generalizing vs with
  | nil => rw [List.forall₂_nil_left_iff, List.map_nil]
  | cons d ds ih =>
    rw [List.forall₂_cons_left_iff, List.map_cons]
    constructor
    · rintro ⟨v, vs', hv, hvs, rfl⟩
      rw [(h d v).1 hv, ih.1 hvs]
    · rintro rfl
      exact ⟨_, _, (h d _).2 rfl, ih.2 rfl, rfl⟩

/-- The same the other way round. -/
theorem Datum.forall₂_flip_iff {V : Type} {R : V → Datum → Prop} {inject : Datum → V}
    (h : ∀ d v, R v d ↔ v = inject d) {ds : List Datum} {vs : List V} :
    List.Forall₂ R vs ds ↔ vs = ds.map inject :=
  ⟨fun hvs => (forall₂_iff h).1 hvs.flip, fun hvs => ((forall₂_iff h).2 hvs).flip⟩

/-- **A call of an external procedure**: its name and its arguments. -/
abbrev Event := Text × List Datum

/-- **The world** in which programs run. -/
structure World where
  /-- The global variables. -/
  globals : Text → Datum
  /-- The primitives, which may refuse their arguments. -/
  delta : Text → List Datum → Option Datum
  /-- The answer to a call of an external procedure after the given calls, if there
  ever is one. -/
  oracle : List Event → Event → Option Datum

/-- **An environment**: for every name, which of its bindings is meant. -/
abbrev Env := Text → Nat

/-- The global variable whose value an assignment has. -/
def undefinedName : Text := Text.ofString "undef"

/-- The environment of whole programs, in which all names are global. -/
def Env.global : Env := fun _ => 0

/-- **A store** of values, with the trace so far. -/
structure Store (V : Type) where
  /-- The content of every location. -/
  cell : Text → Nat → V
  /-- How often every name was bound so far. -/
  bound : Text → Nat
  /-- The calls of external procedures so far. -/
  trace : List Event

/-- **What is seen of a program that has come to its end.** Closures are not looked
into. -/
structure Observation where
  /-- Its value, if it is no closure. -/
  result : Option Datum
  /-- The calls of external procedures. -/
  trace : List Event
  /-- The values that its global variables have in the end. -/
  globals : List (Option Datum)

namespace Store

variable {V : Type}

/-- Changing the content of a location. -/
def write (m : Store V) (x : Text) (n : Nat) (v : V) : Store V :=
  { m with cell := fun y k => if y = x ∧ k = n then v else m.cell y k }

/-- The number that the next binding of a name gets. -/
def fresh (m : Store V) (x : Text) : Nat := m.bound x + 1

/-- One more binding of a name. -/
def push (m : Store V) (x : Text) (v : V) : Store V :=
  { m.write x (m.fresh x) v with bound := Function.update m.bound x (m.fresh x) }

/-- One more call of an external procedure. -/
def record (m : Store V) (event : Event) : Store V :=
  { m with trace := m.trace ++ [event] }

/-- What is seen of the store in the end, given the global variables that are looked at
and what is seen of a value. -/
def observe (m : Store V) (look : V → Option Datum) (xs : List Text) (v : V) : Observation where
  result := look v
  trace := m.trace
  globals := xs.map fun x => look (m.cell x 0)

/-- **Binding names** to values, one after the other: the environment inside, and the
store. -/
def bindAll : List Text → List V → Env → Store V → Env × Store V
  | x :: xs, v :: vs, ρ, m => bindAll xs vs (Function.update ρ x (m.fresh x)) (m.push x v)
  | _, _, ρ, m => (ρ, m)

/-- **Assigning values** to variables, one after the other. -/
def assignAll : List Text → List V → Env → Store V → Store V
  | x :: xs, v :: vs, ρ, m => assignAll xs vs ρ (m.write x (ρ x) v)
  | _, _, _, m => m

/-- **Binding names recursively**: they are bound first, to `unset`, and then get the
values that are found inside. -/
def bindRec (xs : List Text) (unset : V) (values : Env → Store V → List V) (ρ : Env)
    (m : Store V) : Env × Store V :=
  let inside := bindAll xs (xs.map fun _ => unset) ρ m
  (inside.1, assignAll xs (values inside.1 inside.2) inside.1 inside.2)

@[simp] theorem write_cell_self (m : Store V) (x : Text) (n : Nat) (v : V) :
    (m.write x n v).cell x n = v := if_pos ⟨rfl, rfl⟩

theorem write_cell_of_ne (m : Store V) {x y : Text} {n k : Nat} (v : V)
    (h : ¬ (y = x ∧ k = n)) : (m.write x n v).cell y k = m.cell y k := if_neg h

@[simp] theorem push_bound_self (m : Store V) (x : Text) (v : V) :
    (m.push x v).bound x = m.bound x + 1 := Function.update_self ..

theorem push_bound_of_ne (m : Store V) {x y : Text} (v : V) (h : y ≠ x) :
    (m.push x v).bound y = m.bound y := Function.update_of_ne h ..

@[simp] theorem push_cell_self (m : Store V) (x : Text) (v : V) :
    (m.push x v).cell x (m.fresh x) = v := m.write_cell_self x _ v

/-- A variable that was just bound has its value. -/
theorem push_cell_env (m : Store V) (x : Text) (v : V) (ρ : Env) :
    (m.push x v).cell x (Function.update ρ x (m.fresh x) x) = v := by
  rw [Function.update_self, push_cell_self]

theorem push_cell_of_ne (m : Store V) {x y : Text} {k : Nat} (v : V)
    (h : ¬ (y = x ∧ k = m.fresh x)) : (m.push x v).cell y k = m.cell y k :=
  m.write_cell_of_ne v h

/-- Binding leaves the names alone that are not bound. -/
theorem bindAll_env_of_not_mem {xs : List Text} {x : Text} (h : x ∉ xs) (vs : List V) (ρ : Env)
    (m : Store V) : (bindAll xs vs ρ m).1 x = ρ x := by
  induction xs generalizing vs ρ m with
  | nil => rfl
  | cons y xs ih =>
    rw [List.mem_cons, not_or] at h
    cases vs with
    | nil => rfl
    | cons v vs => rw [bindAll, ih h.2, Function.update_of_ne h.1]

/-- A variable that is bound, or was local before, is local. -/
theorem bindAll_env_ne_zero {xs : List Text} {vs : List V} (hlength : xs.length = vs.length)
    {x : Text} {ρ : Env} (h : x ∉ xs → ρ x ≠ 0) (m : Store V) : (bindAll xs vs ρ m).1 x ≠ 0 := by
  induction xs generalizing vs ρ m with
  | nil => exact h List.not_mem_nil
  | cons y xs ih =>
    cases vs with
    | nil => cases hlength
    | cons v vs =>
      refine ih (Nat.succ.inj hlength) (fun hx => ?_) _
      by_cases hxy : x = y
      · rw [hxy, Function.update_self]
        exact Nat.succ_ne_zero _
      · rw [Function.update_of_ne hxy]
        exact h (List.not_mem_cons_of_ne_of_not_mem hxy hx)

/-- Binding two lists of names, one after the other. -/
theorem bindAll_append {xs ys : List Text} {vs ws : List V} (h : xs.length = vs.length) (ρ : Env)
    (m : Store V) :
    bindAll (xs ++ ys) (vs ++ ws) ρ m =
      bindAll ys ws (bindAll xs vs ρ m).1 (bindAll xs vs ρ m).2 := by
  induction xs generalizing vs ρ m with
  | nil =>
    cases vs with
    | nil => rfl
    | cons v vs => cases h
  | cons x xs ih =>
    cases vs with
    | nil => cases h
    | cons v vs => exact ih (Nat.succ.inj h) _ _

end Store

end PassingStyle
