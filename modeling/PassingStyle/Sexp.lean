import PassingStyle.Number.Decimal

/-!
# S-expressions

One type of trees serves as source, as core language and as converted program.
Besides the atoms that a program text can hold it has two that no text
denotes: the marker that stands for a dot while a list is being read, and the
absent expression, which is what a caller hands over who has no expression at
all. Both can occur inside a tree, so every function on trees says what it does
with them.

Two trees are *equal* when they have the same shape and the same atoms, where
numbers are compared by value. That is not the identity of trees: it takes the
two zeros for one number, and a value that is no number equals nothing, not even
itself. An equal tree is therefore not always an identical one, and conversely.
-/

namespace PassingStyle

/-- **An s-expression.** -/
inductive Sexp where
  /-- No expression at all. -/
  | absent
  /-- A symbol, by its name. -/
  | symbol (name : Text)
  /-- A number. -/
  | number (value : Number)
  /-- A string literal, by its content without the quotes. -/
  | str (content : Text)
  /-- A truth value. -/
  | bool (value : Bool)
  /-- The atom that stands for the empty list. -/
  | nil
  /-- The dot of a dotted pair that is still being read. -/
  | dot
  /-- A list of expressions, possibly empty. -/
  | list (items : List Sexp)
  deriving Repr

namespace Sexp

instance : Inhabited Sexp := ⟨absent⟩

mutual

/-- Whether two trees are identical. -/
def decEq : (a b : Sexp) → Decidable (a = b)
  | absent, absent => isTrue rfl
  | symbol s, symbol t => decidable_of_iff (s = t) (by simp)
  | number x, number y => decidable_of_iff (x = y) (by simp)
  | str s, str t => decidable_of_iff (s = t) (by simp)
  | bool x, bool y => decidable_of_iff (x = y) (by simp)
  | nil, nil => isTrue rfl
  | dot, dot => isTrue rfl
  | list xs, list ys =>
    match decEqList xs ys with
    | isTrue h => isTrue (by rw [h])
    | isFalse h => isFalse (by intro e; injection e; contradiction)
  | absent, symbol _ | absent, number _ | absent, str _ | absent, bool _
  | absent, nil | absent, dot | absent, list _
  | symbol _, absent | symbol _, number _ | symbol _, str _ | symbol _, bool _
  | symbol _, nil | symbol _, dot | symbol _, list _
  | number _, absent | number _, symbol _ | number _, str _ | number _, bool _
  | number _, nil | number _, dot | number _, list _
  | str _, absent | str _, symbol _ | str _, number _ | str _, bool _
  | str _, nil | str _, dot | str _, list _
  | bool _, absent | bool _, symbol _ | bool _, number _ | bool _, str _
  | bool _, nil | bool _, dot | bool _, list _
  | nil, absent | nil, symbol _ | nil, number _ | nil, str _ | nil, bool _
  | nil, dot | nil, list _
  | dot, absent | dot, symbol _ | dot, number _ | dot, str _ | dot, bool _
  | dot, nil | dot, list _
  | list _, absent | list _, symbol _ | list _, number _ | list _, str _
  | list _, bool _ | list _, nil | list _, dot => isFalse (by simp)

/-- Whether two lists of trees are identical. -/
def decEqList : (xs ys : List Sexp) → Decidable (xs = ys)
  | [], [] => isTrue rfl
  | [], _ :: _ => isFalse (by simp)
  | _ :: _, [] => isFalse (by simp)
  | x :: xs, y :: ys =>
    match decEq x y with
    | isFalse h => isFalse (by intro e; injection e; contradiction)
    | isTrue h =>
      match decEqList xs ys with
      | isTrue h' => isTrue (by rw [h, h'])
      | isFalse h' => isFalse (by intro e; injection e; contradiction)

end

instance : DecidableEq Sexp := decEq

/-- The symbol with this name. -/
abbrev ofName (name : String) : Sexp := symbol (Text.ofString name)

/-- The expression is a list. -/
def isList : Sexp → Bool
  | list _ => true
  | _ => false

/-- The expression is the symbol with this name. -/
def isSymbol (name : Text) : Sexp → Bool
  | symbol s => s == name
  | _ => false

/-- The first element of a non-empty list. -/
def head? : Sexp → Option Sexp
  | list (x :: _) => some x
  | _ => none

/-- The list followed by more elements; nothing, if it is no list. -/
def append? (items : List Sexp) : Sexp → Option Sexp
  | list xs => some (list (xs ++ items))
  | _ => none

mutual

/-- **Equality of expressions**, numbers compared by value. -/
def equal : Sexp → Sexp → Bool
  | absent, absent => true
  | symbol s, symbol t => s == t
  | number x, number y => x.same y
  | str s, str t => s == t
  | bool x, bool y => x == y
  | nil, nil => true
  | dot, dot => true
  | list xs, list ys => equalList xs ys
  | _, _ => false

/-- Equality of expressions, element by element. -/
def equalList : List Sexp → List Sexp → Bool
  | [], [] => true
  | x :: xs, y :: ys => equal x y && equalList xs ys
  | _, _ => false

end

mutual

/-- **The symbols of an expression**, from left to right, as often as they
occur. -/
def symbols : Sexp → List Text
  | symbol s => [s]
  | list xs => symbolsList xs
  | _ => []

/-- The symbols of several expressions. -/
def symbolsList : List Sexp → List Text
  | [] => []
  | x :: xs => symbols x ++ symbolsList xs

end

/-! ## The printed form -/

mutual

/-- **The printed form** of an expression. String literals are shown between
quotes with their content as it is, and an absent expression has no text. -/
def print : Sexp → Text
  | absent => []
  | symbol s => s
  | number x => x.print
  | str s => Text.byte '"' :: s ++ [Text.byte '"']
  | bool true => "#t"
  | bool false => "#f"
  | nil => "'()"
  | dot => "."
  | list xs => Text.byte '(' :: printList xs ++ [Text.byte ')']

/-- The printed elements of a list, one space between neighbours. -/
def printList : List Sexp → Text
  | [] => []
  | [x] => print x
  | x :: y :: rest => print x ++ Text.byte ' ' :: printList (y :: rest)

end

/-- The printed form inside a message, which names the missing expression
where there is none. -/
def printInMessage : Sexp → Text
  | absent => "%!s(<nil>)"
  | e => e.print

end Sexp

end PassingStyle
