import Mathlib.Order.Bounds.Basic
import PassingStyle.Proofs.FreshName

/-!
# The least unused name

A table does not start its search for a free name at zero but at the number after the
last one that it used for the same base. That saves time and changes nothing: every
number below is taken, so the first free number from there on is the least free number
of all. The reason is an invariant of a single table, and it survives whatever several
tables do to each other, because the only thing that one table ever gets from another is
all that the other one knows.

The history of several tables is a list of *events*, which say what was done and, where a
name was handed out, which one. From the events alone it follows which names a table has
used since it was last emptied; a copy has used what its original had used when it was
copied. `Run.next_isLeast` says that each name in the history of a run is the
least one that its table had not used before.
-/

namespace PassingStyle

namespace NameTable

/-! ## The search finds the least free number -/

/-- **The search skips refused numbers only.** -/
theorem refused_of_lt_firstFree {refused : Nat → Bool} {fuel n m : Nat} (hn : n ≤ m)
    (hm : m < firstFree refused fuel n) : refused m = true := by
  induction fuel generalizing n with
  | zero =>
    rw [firstFree] at hm
    omega
  | succ fuel ih =>
    rw [firstFree] at hm
    split at hm
    · next hrefused =>
      rcases Nat.eq_or_lt_of_le hn with rfl | hlt
      · exact hrefused
      · exact ih hlt hm
    · omega

/-- Entries of another key do not matter to a look-up. -/
theorem lookup_filter_ne {key other : Text × Text} (h : other ≠ key)
    (entries : List ((Text × Text) × Nat)) :
    (entries.filter fun entry => entry.1 != key).lookup other = entries.lookup other := by
  induction entries with
  | nil => rfl
  | cons entry entries ih =>
    obtain ⟨k, n⟩ := entry
    by_cases hk : k = key
    · rw [List.filter_cons_of_neg (by simp [hk]), ih, List.lookup_cons, hk, beq_false_of_ne h]
    · rw [List.filter_cons_of_pos (by simp [hk]), List.lookup_cons, List.lookup_cons, ih]

/-- Handing out a name moves one counter, behind the number that was used. -/
theorem counter_next (t : NameTable) (base ns base' ns' : Text) :
    (t.next base ns).2.counter base' ns' =
      if (base', ns') = (base, ns) then t.nextNumber base ns + 1 else t.counter base' ns' := by
  unfold counter next
  dsimp only
  split
  next heq =>
    rw [heq, List.lookup_cons_self]
    rfl
  next hne =>
    rw [List.lookup_cons, beq_false_of_ne hne]
    exact congrArg (Option.getD · 0) (lookup_filter_ne hne t.counters)

/-- **A table that knows the names**: they are those that are taken, and its counters are
not ahead of them, so that a search that starts at a counter skips no free number. -/
structure Knows (t : NameTable) (names : List (Text × Text)) : Prop where
  /-- The names are those that are taken. -/
  mem_taken : ∀ p, p ∈ t.taken ↔ p ∈ names
  /-- What a counter has passed is among them. -/
  counted : ∀ base ns n, n < t.counter base ns → (nameOf base n, ns) ∈ names

namespace Knows

variable {t : NameTable} {names : List (Text × Text)}

/-- An empty table knows no name. -/
theorem empty : NameTable.empty.Knows [] :=
  ⟨fun _ => Iff.rfl, fun _ _ _ h => absurd h (Nat.not_lt_zero _)⟩

/-- **The next number is the least one** whose name is not known. -/
theorem nextNumber_isLeast (h : t.Knows names) (base ns : Text) :
    IsLeast {n | (nameOf base n, ns) ∉ names} (t.nextNumber base ns) := by
  have hfree : (nameOf base (t.nextNumber base ns), ns) ∉ t.taken := by
    rw [← isTaken_iff, Bool.not_eq_true]
    exact t.next_not_taken base ns
  refine ⟨fun hin => hfree ((h.mem_taken _).2 hin), fun n hn => ?_⟩
  by_contra hlt
  rw [Nat.not_le] at hlt
  refine hn ?_
  rcases Nat.lt_or_ge n (t.counter base ns) with hcounted | hsearched
  · exact h.counted base ns n hcounted
  · exact (h.mem_taken _).1 (isTaken_iff.1 (refused_of_lt_firstFree hsearched hlt))

/-- Handing out a name adds that name. -/
theorem next (h : t.Knows names) (base ns : Text) :
    (t.next base ns).2.Knows (((t.next base ns).1, ns) :: names) where
  mem_taken p := by
    rw [next_taken, List.mem_cons, List.mem_cons, h.mem_taken]
  counted base' ns' n hn := by
    rw [counter_next] at hn
    rw [List.mem_cons]
    split at hn
    next heq =>
      cases heq
      rcases Nat.eq_or_lt_of_le (Nat.le_of_lt_succ hn) with rfl | hlt
      · exact Or.inl rfl
      · by_contra hnot
        have := (h.nextNumber_isLeast base ns).2 fun hin => hnot (Or.inr hin)
        omega
    · exact Or.inr (h.counted base' ns' n hn)

/-- Reserving names adds those names. -/
theorem reserve (h : t.Knows names) (ns : Text) (more : List Text) :
    (t.reserve ns more).Knows (more.map (·, ns) ++ names) where
  mem_taken p := by
    rw [mem_taken_reserve, List.mem_append, h.mem_taken, List.mem_map, or_comm]
    refine or_congr_left ⟨fun ⟨hns, hp⟩ => ⟨p.1, hp, Prod.ext rfl hns.symm⟩, ?_⟩
    rintro ⟨x, hx, rfl⟩
    exact ⟨rfl, hx⟩
  counted base ns' n hn := List.mem_append_right _ (h.counted base ns' n hn)

end Knows

/-! ## Several tables -/

/-- **What happens to tables**, which are numbered in the order in which they were
made. -/
inductive Event where
  /-- An empty table is made. -/
  | create (table : Nat)
  /-- A table hands out a name with this base. -/
  | next (table : Nat) (base ns name : Text)
  /-- Names are reserved in a table. -/
  | reserve (table : Nat) (ns : Text) (names : List Text)
  /-- A table is copied. -/
  | fork (original copy : Nat)
  /-- A table is emptied. -/
  | reset (table : Nat)
  deriving DecidableEq, Repr

/-- The event hands out no name but only reserves some. -/
def Event.isReserve : Event → Bool
  | reserve .. => true
  | _ => false

/-- **The names that a table has used** since it was last emptied, each with its
namespace, according to a history with the last event first. A copy starts with the names
that its original had used by then. -/
def used : List Event → Nat → List (Text × Text)
  | [], _ => []
  | .create new :: past, i => if i = new then [] else used past i
  | .next j _ ns name :: past, i => if i = j then (name, ns) :: used past i else used past i
  | .reserve j ns names :: past, i =>
    if i = j then names.map (·, ns) ++ used past i else used past i
  | .fork old new :: past, i => used past (if i = new then old else i)
  | .reset j :: past, i => if i = j then [] else used past i

/-- **The names that a table has handed out** since it was last emptied, itself or as the
table that it is a copy of. -/
def handedOut (history : List Event) (i : Nat) : List (Text × Text) :=
  used (history.filter fun event => !event.isReserve) i

/-- **A run** over any number of tables: its history, the last event first, and the
tables at its end. -/
inductive Run : List Event → List NameTable → Prop
  /-- No table has been made. -/
  | start : Run [] []
  /-- An empty table is made. -/
  | create {past : List Event} {tables : List NameTable} :
      Run past tables → Run (.create tables.length :: past) (tables ++ [.empty])
  /-- A table hands out the next name. -/
  | next {past : List Event} {tables : List NameTable} {i : Nat} {t : NameTable}
      (base ns : Text) : Run past tables → tables[i]? = some t →
      Run (.next i base ns (t.next base ns).1 :: past) (tables.set i (t.next base ns).2)
  /-- Names are reserved. -/
  | reserve {past : List Event} {tables : List NameTable} {i : Nat} {t : NameTable}
      (ns : Text) (names : List Text) : Run past tables → tables[i]? = some t →
      Run (.reserve i ns names :: past) (tables.set i (t.reserve ns names))
  /-- A table is copied. -/
  | fork {past : List Event} {tables : List NameTable} {i : Nat} {t : NameTable} :
      Run past tables → tables[i]? = some t →
      Run (.fork i tables.length :: past) (tables ++ [t])
  /-- A table is emptied. -/
  | reset {past : List Event} {tables : List NameTable} {i : Nat} {t : NameTable} :
      Run past tables → tables[i]? = some t → Run (.reset i :: past) (tables.set i .empty)

/-- What has been handed out has been used. -/
theorem handedOut_subset_used (history : List Event) (i : Nat) :
    handedOut history i ⊆ used history i := by
  unfold handedOut
  induction history generalizing i with
  | nil => exact List.Subset.refl _
  | cons event past ih =>
    cases event with
    | create new | reset j =>
      rw [List.filter_cons_of_pos rfl, used, used]
      split
      · exact List.Subset.refl _
      · exact ih i
    | next j base ns name =>
      rw [List.filter_cons_of_pos rfl, used, used]
      split
      · exact List.cons_subset_cons _ (ih i)
      · exact ih i
    | reserve j ns names =>
      rw [List.filter_cons_of_neg Bool.false_ne_true, used]
      split
      · exact List.subset_append_of_subset_right _ (ih i)
      · exact ih i
    | fork old new =>
      rw [List.filter_cons_of_pos rfl, used, used]
      exact ih _

/-- A table that was put in the place of another one is found there. -/
theorem eq_of_getElem?_set {tables : List NameTable} {i j : Nat} {new t : NameTable}
    (h : (tables.set j new)[i]? = some t) :
    (i = j ∧ t = new) ∨ (i ≠ j ∧ tables[i]? = some t) := by
  rw [List.getElem?_set] at h
  grind

/-- A table that was added is found at the end. -/
theorem eq_of_getElem?_push {tables : List NameTable} {i : Nat} {new t : NameTable}
    (h : (tables ++ [new])[i]? = some t) :
    (i = tables.length ∧ t = new) ∨ (i ≠ tables.length ∧ tables[i]? = some t) := by
  rw [List.getElem?_append] at h
  grind

namespace Run

variable {history : List Event} {tables : List NameTable}

/-- **Every table knows the names that it has used**, at the end of every run. -/
theorem knows (h : Run history tables) {i : Nat} {t : NameTable} (ht : tables[i]? = some t) :
    t.Knows (used history i) := by
  induction h generalizing i t with
  | start => exact absurd ht (by simp)
  | create _ ih =>
    rw [used]
    rcases eq_of_getElem?_push ht with ⟨hi, rfl⟩ | ⟨hi, ht⟩
    · rw [if_pos hi]
      exact .empty
    · rw [if_neg hi]
      exact ih ht
  | next base ns _ hj ih =>
    rw [used]
    rcases eq_of_getElem?_set ht with ⟨rfl, rfl⟩ | ⟨hi, ht⟩
    · rw [if_pos rfl]
      exact (ih hj).next base ns
    · rw [if_neg hi]
      exact ih ht
  | reserve ns names _ hj ih =>
    rw [used]
    rcases eq_of_getElem?_set ht with ⟨rfl, rfl⟩ | ⟨hi, ht⟩
    · rw [if_pos rfl]
      exact (ih hj).reserve ns names
    · rw [if_neg hi]
      exact ih ht
  | fork _ hj ih =>
    rw [used]
    rcases eq_of_getElem?_push ht with ⟨hi, rfl⟩ | ⟨hi, ht⟩
    · rw [if_pos hi]
      exact ih hj
    · rw [if_neg hi]
      exact ih ht
  | reset _ _ ih =>
    rw [used]
    rcases eq_of_getElem?_set ht with ⟨hi, rfl⟩ | ⟨hi, ht⟩
    · rw [if_pos hi]
      exact .empty
    · rw [if_neg hi]
      exact ih ht

/-- What happened before an event was a run as well. -/
theorem before {future past : List Event} {event : Event}
    (h : Run (future ++ event :: past) tables) : ∃ tables', Run (event :: past) tables' := by
  induction future generalizing tables with
  | nil => exact ⟨tables, h⟩
  | cons e future ih => cases h <;> exact ih ‹_›

/-- A name is handed out by a table that there is. -/
theorem of_next {past : List Event} {i : Nat} {base ns name : Text}
    (h : Run (.next i base ns name :: past) tables) :
    ∃ tables' t, Run past tables' ∧ tables'[i]? = some t ∧ name = (t.next base ns).1 := by
  cases h with
  | next base ns hpast ht => exact ⟨_, _, hpast, ht, rfl⟩

/-- What a table hands out is new to it. -/
theorem not_mem_used {past : List Event} {i : Nat} {base ns name : Text}
    (h : Run (.next i base ns name :: past) tables) : (name, ns) ∉ used past i := by
  obtain ⟨_, t, hpast, ht, rfl⟩ := h.of_next
  exact ((hpast.knows ht).nextNumber_isLeast base ns).1

/-- **No table hands out a name twice** before it is emptied. -/
theorem nodup_handedOut (h : Run history tables) (i : Nat) : (handedOut history i).Nodup := by
  unfold handedOut
  induction h generalizing i with
  | start => exact List.nodup_nil
  | create _ ih =>
    rw [List.filter_cons_of_pos rfl, used]
    split
    · exact List.nodup_nil
    · exact ih i
  | @next past _ j _ base ns hpast hj ih =>
    rw [List.filter_cons_of_pos rfl, used]
    split
    next hi =>
      refine List.nodup_cons.2 ⟨fun hin => ?_, ih i⟩
      rw [hi] at hin
      exact (hpast.next base ns hj).not_mem_used (handedOut_subset_used past j hin)
    · exact ih i
  | reserve ns names _ _ ih =>
    rw [List.filter_cons_of_neg (by simp [Event.isReserve])]
    exact ih i
  | fork _ _ ih =>
    rw [List.filter_cons_of_pos rfl, used]
    exact ih _
  | reset _ _ ih =>
    rw [List.filter_cons_of_pos rfl, used]
    split
    · exact List.nodup_nil
    · exact ih i

/-- **Every table hands out the least unused name.** In a run over any number of tables
every table that is asked for a name hands one out; whenever a name was handed out, it
was the given base with the least number whose name the table had not used in that
namespace since it was last emptied; and so no table has handed out a name twice. -/
theorem next_isLeast (h : Run history tables) :
    (∀ i < tables.length, ∀ base ns, ∃ name tables',
      Run (.next i base ns name :: history) tables') ∧
    (∀ future i base ns name past, history = future ++ .next i base ns name :: past →
      ∃ n, name = nameOf base n ∧ IsLeast {m | (nameOf base m, ns) ∉ used past i} n) ∧
    ∀ i, (handedOut history i).Nodup := by
  refine ⟨fun i hi base ns => ⟨_, _, h.next base ns (List.getElem?_eq_getElem hi)⟩, ?_,
    h.nodup_handedOut⟩
  rintro future i base ns name past rfl
  obtain ⟨_, hevent⟩ := h.before
  obtain ⟨_, t, hpast, ht, rfl⟩ := hevent.of_next
  exact ⟨t.nextNumber base ns, rfl, (hpast.knows ht).nextNumber_isLeast base ns⟩

/-- The names `x0` and `x2` are reserved, `x1` is handed out with the base `x` and `x3` with
the same base by a copy of the table, from which the table itself learns nothing: it
hands out `x3` as well. -/
theorem next_isLeast_copied : ∃ n, ("x3" : Text) = nameOf "x" n ∧
    IsLeast {m | (nameOf "x" m, ("cps" : Text)) ∉ used [.next 1 "x" "cps" "x3", .fork 0 1,
      .next 0 "x" "cps" "x1", .reserve 0 "cps" ["x0", "x2"], .create 0] 0} n := by
  have hreserved := Run.start.create.reserve (i := 0) "cps" ["x0", "x2"] rfl
  have hcopied := (hreserved.next (i := 0) "x" "cps" rfl).fork (i := 0) rfl
  have hrun := (hcopied.next (i := 1) "x" "cps" rfl).next (i := 0) "x" "cps" rfl
  exact hrun.next_isLeast.2.1 [] 0 "x" "cps" "x3" _ rfl

end Run

end NameTable

end PassingStyle
