import PassingStyle.Proofs.Leaves
import PassingStyle.Proofs.RoundTrip

/-!
# Atoms that no quote may follow

Whether a printed expression reads back depends on the order of its atoms in one respect only.
Two kinds of atoms are what they are because no quote follows. One is a symbol that begins with
a quote: with another quote somewhere behind it, it would be the beginning of a string literal.
The other is a string literal whose closing quote comes after a backslash: that quote closes the
literal because none is left to do so. Such atoms are called *unclosed* here.

`legible_iff` puts the legibility of an expression in terms of its leaves: each of them is
legible by itself, and no quote is printed behind an unclosed one.
-/

namespace PassingStyle

open Text Lexeme Tokenizer

/-! ## Literals that end in a backslash -/

namespace Lexeme

/-- **The closing quote is escaped**: the content of a string literal ends in a backslash that
no other backslash before it takes away. -/
def escapesEnd : Text → Bool
  | [] => false
  | [b] => b == byte '\\'
  | b :: c :: rest =>
    if b = byte '\\' ∧ c ≠ byte '\n' then escapesEnd rest else escapesEnd (c :: rest)

/-- **A literal in front of a text with a quote** ends as it should if its closing quote is not
escaped, and if it ends so in front of any text. -/
theorem closing?_iff_escapesEnd {later : Text} (hq : byte '"' ∈ later) : ∀ content : Text,
    closing? (content ++ byte '"' :: later) = some (content.length + 1) ↔
      closing? (content ++ [byte '"']) = some (content.length + 1) ∧ escapesEnd content = false
  | [] => ⟨fun _ => ⟨closing?_quote [], rfl⟩, fun _ => closing?_quote later⟩
  | [b] => by
    rw [closing?_singleton_iff, closing?_singleton_iff, escapesEnd, beq_eq_false_iff_ne]
    exact ⟨fun h => ⟨⟨h.1, fun _ => List.not_mem_nil⟩, fun hs => h.2 hs hq⟩,
      fun h => ⟨h.1.1, fun hs => absurd hs h.2⟩⟩
  | b :: c :: content => by
    rw [closing?_cons_cons_iff, closing?_cons_cons_iff, escapesEnd, and_assoc, and_congr_right_iff]
    intro _
    split_ifs
    · exact closing?_iff_escapesEnd hq content
    · exact closing?_iff_escapesEnd hq (c :: content)

end Lexeme

namespace Tokenizer

/-- A spelling is that of a string literal if the literal ends with it. -/
theorem spelled_string_iff {s : Text} {later : Prop} :
    Spelled .string (byte '"' :: s ++ [byte '"']) later ↔
      ∃ rest, (later → byte '"' ∈ rest) ∧
        closing? (s ++ byte '"' :: rest) = some (s.length + 1) := by
  constructor
  · rintro ⟨_, rest, hq, hhere⟩
    obtain ⟨content, hcontent, hclosing⟩ := eq_quoted_of_here? hhere
    obtain rfl : s = content := List.append_cancel_right (List.cons.inj hcontent).2
    exact ⟨rest, hq, hclosing⟩
  · rintro ⟨rest, hq, hclosing⟩
    exact ⟨by simp, rest, hq, here?_string hclosing⟩

end Tokenizer

/-! ## Unclosed atoms -/

namespace Sexp

/-- **Unclosed**: a symbol that begins with a quote, or a string literal whose closing quote is
escaped. -/
def isUnclosed : Sexp → Bool
  | symbol s => s.head? == some (byte '"')
  | str s => escapesEnd s
  | _ => false

/-- A symbol is legible before a quote if it is legible at all and does not begin with one. -/
theorem legible_symbol_iff {s : Text} {later : Prop} :
    Legible later (symbol s) ↔ Legible False (symbol s) ∧ (later → (symbol s).isUnclosed = false) := by
  constructor
  · intro h
    refine ⟨h.anti False.elim, fun hl => ?_⟩
    obtain ⟨_, rest, hq, hhere⟩ := h
    rw [isUnclosed, beq_eq_false_iff_ne]
    intro hhead
    cases s with
    | nil => cases hhead
    | cons b s =>
      obtain rfl : b = byte '"' := Option.some.inj hhead
      -- the rule for string literals comes first
      exact (here?_symbol_iff.1 hhere).2.2.2 rfl (List.mem_append_right s (hq hl))
  · rintro ⟨⟨hne, rest, _, hhere⟩, hclosed⟩
    by_cases hl : later
    · refine ⟨hne, [byte ' ', byte '"'], fun _ => by decide, ?_⟩
      refine here?_symbol_congr hne hhere (Reading.delimited_cons (by decide)) fun hhead => ?_
      have := hclosed hl
      rw [isUnclosed, beq_eq_false_iff_ne] at this
      exact absurd hhead this
    · exact ⟨hne, rest, fun h => absurd h hl, hhere⟩

/-- A string literal is legible before a quote if it is legible at all and its closing quote is
not escaped. -/
theorem legible_str_iff {s : Text} {later : Prop} :
    Legible later (str s) ↔ Legible False (str s) ∧ (later → (str s).isUnclosed = false) := by
  have hnil : ∀ {p : Prop}, byte '"' ∈ ([] : Text) → p := fun h => absurd h List.not_mem_nil
  simp only [Legible, spelled_string_iff, isUnclosed]
  constructor
  · rintro ⟨rest, hq, hclosing⟩
    exact ⟨⟨[], nofun, closing?_congr hnil s hclosing⟩, fun hl =>
      ((closing?_iff_escapesEnd (hq hl) s).1 hclosing).2⟩
  · rintro ⟨⟨rest, _, hclosing⟩, hclosed⟩
    by_cases hl : later
    · refine ⟨[byte '"'], fun _ => List.mem_singleton_self _, ?_⟩
      exact (closing?_iff_escapesEnd (List.mem_singleton_self _) s).2
        ⟨closing?_congr hnil s hclosing, hclosed hl⟩
    · exact ⟨rest, fun h => absurd h hl, hclosing⟩

/-- **An atom before a quote** is legible if it is legible at all and not unclosed. -/
theorem legible_atom_iff {e : Sexp} {later : Prop} (h : e.isList = false) :
    Legible later e ↔ Legible False e ∧ (later → e.isUnclosed = false) := by
  cases e with
  | symbol s => exact legible_symbol_iff
  | str s => exact legible_str_iff
  | list xs => cases h
  | _ => exact ⟨fun h => ⟨h, fun _ => rfl⟩, fun h => h.1⟩

/-! ## The leaves of expressions -/

mutual

/-- The quotes of a printed expression are in its leaves. -/
theorem quote_mem_print : ∀ {e : Sexp},
    byte '"' ∈ e.print ↔ ∃ a ∈ e.leaves, byte '"' ∈ a.print
  | list xs => by rw [quote_mem_print_list, leaves_list, quote_mem_leavesAll]
  | absent | symbol _ | number _ | str _ | bool _ | nil | dot => by
    rw [leaves_atom rfl]
    simp

theorem quote_mem_leavesAll : ∀ {xs : List Sexp},
    byte '"' ∈ printList xs ↔ ∃ a ∈ leavesAll xs, byte '"' ∈ a.print
  | [] => by simp [printList]
  | x :: xs => by
    have hxs := @quote_mem_leavesAll xs
    have hx := @quote_mem_print x
    rw [quote_mem_printList] at hxs ⊢
    simp only [List.exists_mem_cons_iff, hx, hxs, leavesAll_cons, List.mem_append, or_and_right,
      exists_or]

end

/-- The atom `b` may be printed behind the atom `a`. -/
def MayFollow (a b : Sexp) : Prop :=
  a.isUnclosed = true → byte '"' ∉ b.print

instance : DecidableRel MayFollow := fun a b =>
  inferInstanceAs (Decidable (a.isUnclosed = true → byte '"' ∉ b.print))

/-- **Well ordered leaves**, before a text that has a quote if `later` says so: they are
legible one by one, and no quote comes behind an unclosed one. -/
structure WellOrdered (later : Prop) (leaves : List Sexp) : Prop where
  legible : ∀ a ∈ leaves, Legible False a
  ordered : leaves.Pairwise MayFollow
  closed : later → ∀ a ∈ leaves, a.isUnclosed = false

/-- Leaves in two parts. -/
theorem wellOrdered_append {later : Prop} {as bs : List Sexp} :
    WellOrdered later (as ++ bs) ↔
      WellOrdered (later ∨ ∃ b ∈ bs, byte '"' ∈ b.print) as ∧ WellOrdered later bs := by
  constructor
  · rintro ⟨hlegible, hordered, hclosed⟩
    obtain ⟨has, hbs, hacross⟩ := List.pairwise_append.1 hordered
    obtain ⟨hlas, hlbs⟩ := List.forall_mem_append.1 hlegible
    refine ⟨⟨hlas, has, ?_⟩, hlbs, hbs, fun hl b hb => hclosed hl b (List.mem_append_right _ hb)⟩
    rintro (hl | ⟨b, hb, hq⟩) a ha
    · exact hclosed hl a (List.mem_append_left _ ha)
    · exact Bool.eq_false_iff.2 fun hunclosed => hacross a ha b hb hunclosed hq
  · rintro ⟨⟨hlas, has, hcas⟩, hlbs, hbs, hcbs⟩
    refine ⟨List.forall_mem_append.2 ⟨hlas, hlbs⟩, List.pairwise_append.2 ⟨has, hbs, ?_⟩,
      fun hl => List.forall_mem_append.2 ⟨hcas (Or.inl hl), hcbs hl⟩⟩
    intro a ha b hb hunclosed hq
    rw [hcas (Or.inr ⟨b, hb, hq⟩) a ha] at hunclosed
    cases hunclosed

mutual

/-- **Legibility by leaves.** -/
theorem legible_iff {later : Prop} : ∀ {e : Sexp}, Legible later e ↔ WellOrdered later e.leaves
  | list xs => by rw [leaves_list, Legible, legibleList_iff]
  | absent | symbol _ | number _ | str _ | bool _ | nil | dot => by
    rw [leaves_atom rfl, legible_atom_iff rfl]
    constructor
    · rintro ⟨hlegible, hclosed⟩
      exact ⟨List.forall_mem_singleton.2 hlegible, List.pairwise_singleton _ _,
        fun hl => List.forall_mem_singleton.2 (hclosed hl)⟩
    · rintro ⟨hlegible, _, hclosed⟩
      exact ⟨hlegible _ List.mem_cons_self, fun hl => hclosed hl _ List.mem_cons_self⟩

theorem legibleList_iff {later : Prop} :
    ∀ {xs : List Sexp}, LegibleList later xs ↔ WellOrdered later (leavesAll xs)
  | [] => ⟨fun _ => ⟨nofun, List.Pairwise.nil, fun _ => nofun⟩, fun _ => trivial⟩
  | x :: xs => by
    rw [LegibleList, leavesAll_cons, wellOrdered_append, legible_iff, legibleList_iff,
      quote_mem_leavesAll]

end

end Sexp

end PassingStyle
