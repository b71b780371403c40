import PassingStyle.Reader

/-!
# Sample programs

A small collection of programs, one for each rule of the conversion, in the order
of their names.
-/

namespace PassingStyle

/-- **A sample program.** -/
structure Sample where
  /-- Its name. -/
  name : Text
  /-- Its text. -/
  source : Text
  deriving DecidableEq, Repr

namespace Sample

/-- All samples, in the order of their names. -/
def all : List Sample := [
  ⟨"01-call", "(g a)"⟩,
  ⟨"02-begin", "(begin (print \"A\") (print \"B\") (print \"C\"))"⟩,
  ⟨"03-lambda-body", "(lambda (x)\n  (begin (print \"A\") (print \"B\") (print \"C\")))"⟩,
  ⟨"04-application", "((lambda (x y) (print x) (print y)) 5 3)"⟩,
  ⟨"05-arithmetic", "((lambda (x y)\n   (sqrt (+ (* x x) (* y y))))\n 2 3)"⟩,
  ⟨"06-letrec", "(letrec ((a 42)\n         (b (lambda (x) x)))\n  (+ a b))"⟩,
  ⟨"07-letrec-capture", "(lambda (x) (print x (letrec ((x 3)) x)))"⟩,
  ⟨"08-if-tail", "(lambda (x)\n  (if (even? x) (print \"even\") (print \"odd\")))"⟩,
  ⟨"09-if-argument", "(lambda (x)\n  (print (if (even? x) \"even\" \"odd\")))"⟩]

/-- The sample with this name. -/
def find? (name : Text) : Option Sample :=
  all.find? fun s => s.name == name

/-- The program of a sample. -/
def program (s : Sample) : Except SyntaxError Sexp :=
  (Reader.standard.read s.source).2

end Sample

end PassingStyle
