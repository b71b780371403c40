import Mathlib.Algebra.Group.Nat.Even
import Mathlib.Data.List.DropRight
import PassingStyle.Proofs.NextLine

/-!
# Tokens stand alone

A token is judged with the text behind it, and how far it reaches can depend on that text: a
string literal ends at an escaped quote only because no other quote follows, and an opening quote
is part of a symbol for the same reason. Both are conditions on what is *not* behind the token. A
word or a number, too, ends where the next byte does not go on with it, and every fixed spelling
is a token by itself. So a token that is taken out of its text, with nothing behind it, is the same
token (`Tokenizer.here?_alone`), whatever stood around it.

The converse is no such matter: behind a token that stands alone not every text may be put.
-/

namespace PassingStyle

open Text

namespace Lexeme

/-! ## Backslashes at the end -/

/-- The last elements that have a property, when one more element comes first. -/
theorem rtakeWhile_cons {α : Type} (p : α → Bool) (a : α) (as : List α) :
    (a :: as).rtakeWhile p = if as.all p ∧ p a then a :: as else as.rtakeWhile p := by
  rw [List.rtakeWhile, List.reverse_cons, List.takeWhile_append]
  by_cases has : ∀ b ∈ as, p b = true
  · have hall : as.reverse.takeWhile p = as.reverse :=
      List.takeWhile_eq_self_iff.2 fun b hb => has b (List.mem_reverse.1 hb)
    rw [hall, if_pos rfl, List.rtakeWhile_eq_self_iff.2 has]
    by_cases ha : p a = true
    · rw [if_pos ⟨List.all_eq_true.2 has, ha⟩]
      simp [ha]
    · rw [if_neg fun h => ha h.2]
      simp [ha]
  · have hlength : (as.reverse.takeWhile p).length ≠ as.reverse.length := fun h =>
      has fun b hb => List.takeWhile_eq_self_iff.1
        ((List.takeWhile_prefix p).eq_of_length h) b (List.mem_reverse.2 hb)
    rw [if_neg hlength, if_neg fun h => has (List.all_eq_true.1 h.1), List.rtakeWhile]

/-- **A closing quote is escaped** if the number of backslashes before it is odd. -/
theorem escapesEnd_iff_odd (content : Text) :
    escapesEnd content = true ↔ Odd (content.rtakeWhile (· == byte '\\')).length := by
  fun_induction escapesEnd content with
  | case1 => simp
  | case2 b =>
    rw [rtakeWhile_cons]
    by_cases hb : b = byte '\\' <;> simp [hb]
  | case3 b c rest h ih =>
    -- the pair in front does not change whether the run at the end is odd
    rw [ih, rtakeWhile_cons, rtakeWhile_cons]
    by_cases hrest : (rest.all fun d => d == byte '\\') = true
    · have hself := List.rtakeWhile_eq_self_iff.2 (List.all_eq_true.1 hrest)
      by_cases hc : c = byte '\\'
      · simp [h.1, hc, hrest, hself, Nat.odd_add, parity_simps]
      · simp [h.1, hc, hrest, hself]
    · simp [hrest]
  | case4 b c rest h ih =>
    rw [ih, rtakeWhile_cons _ b]
    refine iff_of_eq (congrArg (fun t : Text => Odd t.length) (if_neg ?_).symm)
    rintro ⟨hall, hb⟩
    have hc : c = byte '\\' := by simpa using List.all_eq_true.1 hall c List.mem_cons_self
    exact h ⟨by simpa using hb, hc ▸ by decide⟩

/-- What a rule with fixed spellings matches is one of them. -/
theorem mem_of_spelled_length? {words : List Text} {w rest : Text}
    (h : (Lexeme.spelled words).length? (w ++ rest) = some w.length) : w ∈ words := by
  obtain ⟨word, hword, hlength⟩ := Option.map_eq_some_iff.1 h
  have hstarts : (w ++ rest).startsWith word = true := List.find?_some hword
  have hprefix : word <+: w ++ rest := List.isPrefixOf_iff_prefix.1 hstarts
  have hw : word = w := by
    rw [List.prefix_iff_eq_take, hlength, List.take_left] at hprefix
    exact hprefix
  exact hw ▸ List.mem_of_find?_eq_some hword

end Lexeme

namespace Tokenizer

open Lexeme

/-! ## Nothing behind a token -/

/-- Every fixed spelling is a token of its kind by itself. -/
theorem here?_of_mem_spellings {k : TokenKind} {words : List Text}
    (hwords : (Rule.standard k).lexeme = .spelled words) :
    ∀ w ∈ words, standard.here? w = some (k, w.length) := by
  cases k with
  | nil | true | false | dot | quote | lparen | rparen =>
    cases hwords
    decide +kernel
  | other =>
    cases hwords
    exact List.forall_mem_nil _
  | number | string | symbol | whitespace => exact nomatch hwords

/-- **What is a token in front of some text is a token of the same kind in front of nothing.** -/
theorem here?_alone {k : TokenKind} {w rest : Text}
    (h : standard.here? (w ++ rest) = some (k, w.length)) :
    standard.here? w = some (k, w.length) := by
  have hne : w ≠ [] := List.length_pos_iff.1 (here?_standard_bounds h).1
  have hlength := (here?_standard_iff.1 h).1
  have hnothing : Delimited [] := nofun
  cases k with
  | symbol =>
    have halone := here?_symbol_congr hne h hnothing fun _ hin => absurd hin List.not_mem_nil
    rwa [List.append_nil] at halone
  | string =>
    have halone := here?_string_congr h fun hin => absurd hin List.not_mem_nil
    rwa [List.append_nil] at halone
  | number =>
    have halone := here?_number hne (run?_mem hlength) hnothing
    rwa [List.append_nil] at halone
  | whitespace =>
    obtain ⟨b, w, rfl⟩ := List.exists_cons_of_ne_nil hne
    have hblanks := run?_mem hlength
    rw [here?_blank (hblanks b List.mem_cons_self), List.takeWhile_eq_self_iff.2 hblanks]
  | nil | true | false | dot | quote | lparen | rparen | other =>
    exact here?_of_mem_spellings rfl w (mem_of_spelled_length? hlength)

/-- **A token by itself** is the only item of its text. -/
theorem scan_of_here? {k : TokenKind} {w : Text} (hne : w ≠ []) (hk : k ≠ .whitespace)
    (h : standard.here? w = some (k, w.length)) :
    standard.scan w = [.token ⟨k, w, ⟨0, w.length⟩⟩] := by
  have hreported : k ∉ standard.ignored := by simpa [standard] using hk
  have hscan := @scanFrom_token standard 0 w [] k hne (by rwa [List.append_nil]) hreported
  rwa [List.append_nil, Nat.zero_add] at hscan

/-- **Tokens delimit themselves.** The text of a token that the usual rules find in some text is,
taken by itself, that one token and nothing else. In particular no second quote is part of a symbol
that begins with one, and a string literal whose closing quote is escaped has no quote behind it in
the text where it was found. -/
theorem scan_token_alone {x : Text} {m : Token} (hmem : .token m ∈ standard.scan x) :
    standard.scan m.text = [.token ⟨m.kind, m.text, ⟨0, m.text.length⟩⟩] ∧
    (m.kind = .symbol → m.text.head? = some (byte '"') → byte '"' ∉ m.text.tail) ∧
    (m.kind = .string → ∃ content, m.text = byte '"' :: content ++ [byte '"'] ∧
      (Odd (content.rtakeWhile (· == byte '\\')).length → byte '"' ∉ x.drop m.span.stop)) := by
  obtain ⟨hfull, hreports⟩ := mem_scan.1 hmem
  obtain ⟨u, rest, htext, hspan, hne, hhere⟩ := (standard.cuts_scan x).split hfull
  obtain ⟨k, w, span⟩ := m
  dsimp only [Item.text, Item.span] at htext hne hspan ⊢
  have hrest : x.drop span.stop = rest := by
    rw [htext, hspan, Nat.zero_add, ← List.length_append, ← List.append_assoc, List.drop_left]
  refine ⟨scan_of_here? hne ?_ (here?_alone hhere), ?_, ?_⟩
  · rintro rfl
    exact nomatch hreports
  · rintro rfl hhead
    obtain ⟨b, w, rfl⟩ := List.exists_cons_of_ne_nil hne
    obtain rfl : b = byte '"' := Option.some.inj hhead
    exact fun hin => (here?_symbol_iff.1 hhere).2.2.2 rfl (List.mem_append_left rest hin)
  · rintro rfl
    obtain ⟨content, rfl, -⟩ := eq_quoted_of_here? hhere
    refine ⟨content, rfl, fun hodd => ?_⟩
    rw [hrest]
    refine not_mem_of_isUnclosed hne hhere ?_
    rw [Token.isUnclosed_string]
    simpa using (escapesEnd_iff_odd content).2 hodd

/-- A literal that ends at an escaped quote, behind a word that is cut in two, and a symbol that
begins with a quote. -/
theorem scan_token_alone_unclosed :
    Item.token ⟨.string, "\"a\\\"", ⟨7, 11⟩⟩ ∈ standard.scan "(nilly \"a\\\")" ∧
    standard.scan "\"a\\\"" = [.token ⟨.string, "\"a\\\"", ⟨0, 4⟩⟩] ∧
    byte '"' ∉ Text.ofString ")" ∧
    Item.token ⟨.symbol, "\"a", ⟨3, 5⟩⟩ ∈ standard.scan "(f \"a b)" ∧
    standard.scan "\"a" = [.token ⟨.symbol, "\"a", ⟨0, 2⟩⟩] ∧
    byte '"' ∉ Text.ofString "a" := by
  have hstring : Item.token ⟨.string, "\"a\\\"", ⟨7, 11⟩⟩ ∈ standard.scan "(nilly \"a\\\")" := by
    decide +kernel
  have hsymbol : Item.token ⟨.symbol, "\"a", ⟨3, 5⟩⟩ ∈ standard.scan "(f \"a b)" := by
    decide +kernel
  obtain ⟨halone, -, hescaped⟩ := scan_token_alone hstring
  obtain ⟨content, hcontent, hodd⟩ := hescaped rfl
  obtain rfl : content = Text.ofString "a\\" :=
    (List.append_cancel_right (List.cons.inj hcontent).2).symm
  obtain ⟨halone', hquote, -⟩ := scan_token_alone hsymbol
  exact ⟨hstring, halone, hodd (by decide), hsymbol, halone', hquote rfl (by decide)⟩

/-- With a quote behind it, the same literal goes on to that quote. -/
example : standard.scan "\"a\\\" \"" = [.token ⟨.string, "\"a\\\" \"", ⟨0, 6⟩⟩] := by
  decide +kernel

end Tokenizer

end PassingStyle
