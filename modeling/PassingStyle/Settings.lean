import PassingStyle.Transformer

/-!
# Settings

What a user can choose about the conversion of programs.
-/

namespace PassingStyle

/-- **Settings** of a compiler. -/
structure Settings where
  /-- The continuation of a whole program. -/
  halt : Text := "halt"
  /-- The primitives. -/
  primitives : List Text := defaultPrimitives
  /-- Bound variables are renamed apart before the conversion. -/
  alphatize : Bool := false
  /-- A gap in the text is an error. -/
  strict : Bool := false
  deriving DecidableEq, Repr

/-- The continuation of a whole program; an empty name stands for the usual
one. -/
def Settings.finalCont (s : Settings) : Text :=
  if s.halt.isEmpty then "halt" else s.halt

end PassingStyle
