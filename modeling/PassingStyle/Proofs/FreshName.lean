import Mathlib.Data.Finset.Card
import Mathlib.Data.List.Nodup
import PassingStyle.Conversion

/-!
# Fresh names are fresh

A table hands out a name that is not taken. The search for it tries as many
candidates as there are taken names and then takes one more on trust; that is
enough, because the candidates of one base are pairwise different and so cannot
all be taken. This holds of every table, whatever its history.

`Draws t names t'` says what a computation that draws names may do to a table:
the names are new, no two of them agree, and they are the only ones that are
taken afterwards and were not before. Such steps compose, which is all that the
conversion of programs needs to know about tables.

`Issued t issued` follows the history of a table: `issued` are the names that it
has handed out since it was last emptied. They are taken, so whatever a
computation draws is none of them.
-/

namespace PassingStyle

/-! ## Numerals -/

namespace Text

/-- The code of a digit is that of its byte, between those of `0` and `9`. -/
theorem toNat_toUInt8 {c : Char} (h : c.isDigit) :
    c.toUInt8.toNat = c.toNat ∧ 48 ≤ c.toNat ∧ c.toNat ≤ 57 := by
  obtain ⟨h0, h9⟩ := Char.isDigit_iff_toNat.1 h
  have hc : c.toNat ≤ 57 := h9
  refine ⟨?_, h0, h9⟩
  show c.toNat % 256 = c.toNat
  exact Nat.mod_eq_of_lt (by omega)

/-- Different numbers have different numerals. -/
theorem ofNat_injective : Function.Injective ofNat := by
  intro m n h
  have back : ∀ k : Nat, ((ofNat k).map fun b => Char.ofNat b.toNat) = Nat.toDigits 10 k := by
    intro k
    unfold ofNat
    rw [List.map_map]
    refine (List.map_congr_left (fun c hc => ?_)).trans (List.map_id _)
    have hd := Nat.isDigit_of_mem_toDigits (by decide) (by decide) hc
    rw [Function.comp_apply, (toNat_toUInt8 hd).1]
    exact Char.ofNat_toNat c
  have hd : Nat.toDigits 10 m = Nat.toDigits 10 n := by
    rw [← back m, ← back n, h]
  rw [← Nat.ofDigitChars_ten_toDigits (n := m), hd, Nat.ofDigitChars_ten_toDigits]

/-- All bytes of a numeral are digits. -/
theorem isDigit_of_mem_ofNat {n : Nat} {b : UInt8} (h : b ∈ ofNat n) : isDigit b = true := by
  obtain ⟨c, hc, rfl⟩ := List.mem_map.1 h
  have hd := Nat.isDigit_of_mem_toDigits (by decide) (by decide) hc
  obtain ⟨hb, h0, h9⟩ := toNat_toUInt8 hd
  unfold isDigit
  rw [Bool.and_eq_true, decide_eq_true_eq, decide_eq_true_eq, UInt8.le_iff_toNat_le,
    UInt8.le_iff_toNat_le, hb]
  exact ⟨h0, h9⟩

/-- A numeral has at least one digit. -/
theorem ofNat_ne_nil (n : Nat) : ofNat n ≠ [] := by
  unfold ofNat
  rw [Ne, List.map_eq_nil_iff]
  exact Nat.toDigits_ne_nil

end Text

/-! ## The search for a free name -/

namespace NameTable

/-- Different numbers give a base different names. -/
theorem nameOf_injective (base : Text) : Function.Injective (nameOf base) := by
  intro m n h
  exact Text.ofNat_injective (List.append_cancel_left h)

/-- A fresh name ends in a digit. -/
theorem nameOf_getLast? (base : Text) (n : Nat) :
    ∃ b, (nameOf base n).getLast? = some b ∧ Text.isDigit b = true := by
  unfold nameOf
  rw [List.getLast?_append_of_ne_nil _ (Text.ofNat_ne_nil n),
    List.getLast?_eq_some_getLast (Text.ofNat_ne_nil n)]
  exact ⟨_, rfl, Text.isDigit_of_mem_ofNat (List.getLast_mem _)⟩

/-- **The search finds a free number** if there is one among those it looks
at. -/
theorem firstFree_not_refused {refused : Nat → Bool} {fuel n : Nat}
    (h : ∃ m, n ≤ m ∧ m ≤ n + fuel ∧ refused m = false) :
    refused (firstFree refused fuel n) = false := by
  induction fuel generalizing n with
  | zero =>
    obtain ⟨m, hn, hm, hr⟩ := h
    have : m = n := by omega
    rw [firstFree, ← this]
    exact hr
  | succ fuel ih =>
    rw [firstFree]
    by_cases hn : refused n = true
    · rw [if_pos hn]
      refine ih ?_
      obtain ⟨m, hle, hm, hr⟩ := h
      have hne : m ≠ n := by
        intro e
        rw [e, hn] at hr
        exact Bool.noConfusion hr
      exact ⟨m, by omega, by omega, hr⟩
    · rw [if_neg hn]
      exact Bool.eq_false_iff.2 hn

/-- Among one more candidates than there are taken names, one is free. -/
theorem exists_not_taken (t : NameTable) (base ns : Text) (n : Nat) :
    ∃ m, n ≤ m ∧ m ≤ n + t.taken.length ∧ t.isTaken ns (nameOf base m) = false := by
  by_contra hall
  have htaken : ∀ i ∈ Finset.range (t.taken.length + 1),
      (nameOf base (n + i), ns) ∈ t.taken.toFinset := by
    intro i hi
    rw [Finset.mem_range] at hi
    rw [List.mem_toFinset]
    by_contra hfree
    refine hall ⟨n + i, by omega, by omega, ?_⟩
    unfold isTaken
    rw [Bool.eq_false_iff, Ne, List.contains_iff_mem]
    exact hfree
  have hinj : Set.InjOn (fun i => (nameOf base (n + i), ns))
      (Finset.range (t.taken.length + 1)) := by
    intro i _ j _ hij
    have := nameOf_injective base (congrArg Prod.fst hij)
    omega
  have hcard := Finset.card_le_card_of_injOn _ htaken hinj
  rw [Finset.card_range] at hcard
  have := t.taken.toFinset_card_le
  omega

/-- **A table hands out a name that is not taken.** -/
theorem next_not_taken (t : NameTable) (base ns : Text) :
    t.isTaken ns (t.next base ns).1 = false :=
  firstFree_not_refused (t.exists_not_taken base ns (t.counter base ns))

/-- The name that was handed out is the only one taken in addition. -/
theorem next_taken (t : NameTable) (base ns : Text) :
    (t.next base ns).2.taken = ((t.next base ns).1, ns) :: t.taken := rfl

/-- What is taken, as membership. -/
theorem isTaken_iff {t : NameTable} {ns name : Text} :
    t.isTaken ns name = true ↔ (name, ns) ∈ t.taken := by
  unfold isTaken
  exact List.contains_iff_mem

/-- **Reserving takes exactly the given names** in addition. -/
theorem mem_taken_reserve {t : NameTable} {ns : Text} {names : List Text} {p : Text × Text} :
    p ∈ (t.reserve ns names).taken ↔ p ∈ t.taken ∨ (p.2 = ns ∧ p.1 ∈ names) := by
  unfold reserve
  dsimp only
  generalize t.taken = taken
  induction names generalizing taken with
  | nil => simp
  | cons name names ih =>
    rw [List.foldl_cons, ih, List.mem_cons]
    obtain ⟨x, ns'⟩ := p
    by_cases hin : taken.contains (name, ns) = true
    · rw [if_pos hin]
      rw [List.contains_iff_mem] at hin
      grind
    · rw [if_neg hin, List.mem_cons, Prod.mk.injEq]
      grind

/-! ## The history of a table -/

/-- **The names that a table has handed out** since it was last emptied, each
with its namespace. An emptied table starts again with none, and a copy of a table
has the history of its original. -/
inductive Issued : NameTable → List (Text × Text) → Prop
  /-- An empty table has handed out nothing. -/
  | empty : Issued .empty []
  /-- Handing out one more name. -/
  | next {t : NameTable} {issued : List (Text × Text)} (base ns : Text) :
      Issued t issued → Issued (t.next base ns).2 (((t.next base ns).1, ns) :: issued)
  /-- Reserving names hands out none. -/
  | reserve {t : NameTable} {issued : List (Text × Text)} (ns : Text) (names : List Text) :
      Issued t issued → Issued (t.reserve ns names) issued

/-- **A name that was handed out stays taken.** -/
theorem Issued.mem_taken {t : NameTable} {issued : List (Text × Text)} (h : Issued t issued)
    {p : Text × Text} (hp : p ∈ issued) : p ∈ t.taken := by
  induction h with
  | empty => exact absurd hp List.not_mem_nil
  | next base ns _ ih =>
    rw [next_taken]
    rcases List.mem_cons.1 hp with rfl | hp
    · exact List.mem_cons_self
    · exact List.mem_cons_of_mem _ (ih hp)
  | reserve ns names _ ih => exact mem_taken_reserve.2 (Or.inl (ih hp))

end NameTable

/-! ## Computations that draw names -/

/-- **The name ends in a digit**, as every name does that a table hands out. No
keyword does, nor any of the names with a fixed meaning. -/
def Text.EndsInDigit (name : Text) : Prop :=
  ∃ b, name.getLast? = some b ∧ Text.isDigit b = true

/-- Such a name is none that ends in another byte. -/
theorem Text.EndsInDigit.ne {x y : Text} {b : UInt8} (h : x.EndsInDigit)
    (hlast : y.getLast? = some b) (hb : Text.isDigit b = false) : x ≠ y := by
  rintro rfl
  obtain ⟨d, hd, hdigit⟩ := h
  rw [hlast] at hd
  cases hd
  exact Bool.noConfusion (hb.symm.trans hdigit)

/-- **Drawing names**: from the table `t` the names were drawn, in some order, and
`t'` is the table afterwards. -/
structure Draws (t : NameTable) (names : List Text) (t' : NameTable) : Prop where
  /-- None of them was taken. -/
  fresh : ∀ x ∈ names, (x, programNames) ∉ t.taken
  /-- No name was drawn twice. -/
  nodup : names.Nodup
  /-- Each of them ends in a digit. -/
  numbered : ∀ x ∈ names, x.EndsInDigit
  /-- They are what is taken in addition. -/
  taken : t'.taken.Perm (names.map (·, programNames) ++ t.taken)

namespace Draws

/-- Drawing no name. -/
theorem nil (t : NameTable) : Draws t [] t :=
  ⟨fun _ h => absurd h List.not_mem_nil, List.nodup_nil,
    fun _ h => absurd h List.not_mem_nil, List.Perm.refl _⟩

/-- Drawing one name. -/
theorem single (base : Text) (t : NameTable) :
    Draws t [(freshName base t).1] (freshName base t).2 where
  fresh := by
    intro x hx
    rw [List.mem_singleton.1 hx, ← NameTable.isTaken_iff, Bool.not_eq_true]
    exact t.next_not_taken base programNames
  nodup := List.nodup_singleton _
  numbered := by
    intro x hx
    rw [List.mem_singleton.1 hx]
    exact NameTable.nameOf_getLast? base _
  taken := List.Perm.refl _

variable {t t₁ t₂ : NameTable} {names names₁ names₂ : List Text}

/-- A name that was drawn is taken afterwards. -/
theorem mem_taken (h : Draws t names t₁) {x : Text} (hx : x ∈ names) :
    (x, programNames) ∈ t₁.taken :=
  h.taken.mem_iff.2 (List.mem_append_left _ (List.mem_map_of_mem hx))

/-- What was taken stays taken. -/
theorem taken_subset (h : Draws t names t₁) {p : Text × Text} (hp : p ∈ t.taken) :
    p ∈ t₁.taken :=
  h.taken.mem_iff.2 (List.mem_append_right _ hp)

/-- The order in which the names are listed does not matter. -/
theorem perm (h : Draws t names t₁) (hp : names.Perm names₁) : Draws t names₁ t₁ where
  fresh x hx := h.fresh x (hp.mem_iff.2 hx)
  nodup := hp.nodup_iff.1 h.nodup
  numbered x hx := h.numbered x (hp.mem_iff.2 hx)
  taken := h.taken.trans ((hp.map _).append_right _)

/-- **Drawing composes.** What the second step draws is new to the first one,
since the first one has taken its own names. -/
theorem append (h₁ : Draws t names₁ t₁) (h₂ : Draws t₁ names₂ t₂) :
    Draws t (names₁ ++ names₂) t₂ where
  fresh x hx := by
    rcases List.mem_append.1 hx with hx | hx
    · exact h₁.fresh x hx
    · exact fun hin => h₂.fresh x hx (h₁.taken_subset hin)
  nodup := by
    refine List.nodup_append.2 ⟨h₁.nodup, h₂.nodup, ?_⟩
    intro x hx y hy hxy
    exact h₂.fresh y hy (hxy ▸ h₁.mem_taken hx)
  numbered x hx := by
    rcases List.mem_append.1 hx with hx | hx
    · exact h₁.numbered x hx
    · exact h₂.numbered x hx
  taken := by
    refine h₂.taken.trans ?_
    refine (h₁.taken.append_left _).trans ?_
    rw [List.map_append, ← List.append_assoc]
    exact List.perm_append_comm.append_right _

/-- Drawing around another step: some names before it and some after it. -/
theorem around {t' : NameTable} {before after : List Text} (h₁ : Draws t before t₁)
    (h : Draws t₁ names t₂) (h₂ : Draws t₂ after t') :
    Draws t (before ++ after ++ names) t' := by
  refine (h₁.append (h.append h₂)).perm ?_
  rw [List.append_assoc]
  exact List.perm_append_comm.append_left before

end Draws

end PassingStyle
