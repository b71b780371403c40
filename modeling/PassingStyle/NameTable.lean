import PassingStyle.Text

/-!
# Fresh names

A table hands out names that were never used: a base followed by a number. It
remembers, per namespace, the names that are taken – handed out before, or
reserved because a program already contains them – and for each base the number
after the last one it used, so that the search for a free name starts there.
Two bases can spell the same name (`x1` with `0` and `x` with `10`), which is
why a name is looked up among all that are taken and not only under its base.

The search ends: the candidates for one base are pairwise different, so after
as many of them as there are taken names one is free.
-/

namespace PassingStyle

/-- **A table of names.** -/
structure NameTable where
  /-- For each base and namespace in use, the number to try next. -/
  counters : List ((Text × Text) × Nat)
  /-- The names that are taken, each with its namespace. -/
  taken : List (Text × Text)
  deriving DecidableEq, Repr

namespace NameTable

/-- The table in which every name is free. -/
def empty : NameTable := ⟨[], []⟩

instance : Inhabited NameTable := ⟨empty⟩

/-- The name is taken in the namespace. -/
def isTaken (t : NameTable) (ns name : Text) : Bool :=
  t.taken.contains (name, ns)

/-- The number at which the search for a name with this base starts. -/
def counter (t : NameTable) (base ns : Text) : Nat :=
  (t.counters.lookup (base, ns)).getD 0

/-- The name with this base and number. -/
def nameOf (base : Text) (n : Nat) : Text :=
  base ++ Text.ofNat n

/-- The first number from `n` on that is not refused, among the next `fuel`
ones; the number after them if they all are. -/
def firstFree (refused : Nat → Bool) : (fuel n : Nat) → Nat
  | 0, n => n
  | fuel + 1, n => if refused n then firstFree refused fuel (n + 1) else n

/-- The number of the next name with this base. -/
def nextNumber (t : NameTable) (base ns : Text) : Nat :=
  firstFree (fun n => t.isTaken ns (nameOf base n)) t.taken.length
    (t.counter base ns)

/-- **The next name** with this base, which is taken from then on. -/
def next (t : NameTable) (base ns : Text) : Text × NameTable :=
  let n := t.nextNumber base ns
  let key := (base, ns)
  (nameOf base n,
    { counters := (key, n + 1) :: t.counters.filter fun entry => entry.1 != key
      taken := (nameOf base n, ns) :: t.taken })

/-- **Reserving names**: they are taken from then on. -/
def reserve (t : NameTable) (ns : Text) (names : List Text) : NameTable :=
  { t with taken := names.foldl (fun taken name =>
      if taken.contains (name, ns) then taken else (name, ns) :: taken) t.taken }

end NameTable

end PassingStyle
