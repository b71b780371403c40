import PassingStyle.Proofs.Cuts
import PassingStyle.Proofs.Derivation
import PassingStyle.Proofs.Unclosed

/-!
# A text and the line after it

A token ends where a line ends, except for one kind of token: a literal may contain the end of
a line. So the scan of a text that goes on after a newline is the scan of the text, followed by
the scan of the rest, unless a quote in the rest turns an unclosed atom of the text into the
beginning of a literal. That literal swallows what stood after the atom, and ends at the first
quote of the rest that no backslash takes away; the tokens before the atom stay as they are,
because the text behind them had a quote already.

`Scans` is scanning without the end: which items a text begins with, judged with the text that
remains. `Scans.next` and `Tokenizer.here?_reopened` are the two cases.
-/

namespace PassingStyle

open Text

/-! ## Tokens that a quote reopens -/

/-- **An unclosed token**: the token of an unclosed atom. -/
def Token.isUnclosed (t : Token) : Bool :=
  t.atom?.any Sexp.isUnclosed

/-- An unclosed symbol begins with a quote. -/
theorem Token.isUnclosed_symbol (w : Text) (span : Span) :
    Token.isUnclosed ⟨.symbol, w, span⟩ = (w.head? == some (byte '"')) := rfl

/-- The closing quote of an unclosed literal is escaped. -/
theorem Token.isUnclosed_string (b c : UInt8) (content : Text) (span : Span) :
    Token.isUnclosed ⟨.string, b :: content ++ [c], span⟩ = Lexeme.escapesEnd content := by
  rw [isUnclosed, atom?, Reading.content?_quoted]
  rfl

/-- Only symbols and literals are unclosed. -/
theorem Token.kind_of_isUnclosed {t : Token} (h : t.isUnclosed = true) :
    t.kind = .symbol ∨ t.kind = .string := by
  obtain ⟨k, w, span⟩ := t
  cases k with
  | symbol => exact Or.inl rfl
  | string => exact Or.inr rfl
  | number =>
    simp [isUnclosed, atom?, Option.any_map, Sexp.isUnclosed] at h
  | nil | true | false | dot | quote | lparen | rparen | whitespace | other => cases h

namespace Lexeme

variable {y : Text}

/-! ## Rules before a newline -/

/-- A run without newlines ends where the line does. -/
theorem run?_newline {p : UInt8 → Bool} (hp : p (byte '\n') = false) (t y : Text) :
    run? p (t ++ byte '\n' :: y) = run? p t := by
  have htake : (t ++ byte '\n' :: y).takeWhile p = t.takeWhile p := by
    induction t with
    | nil => rw [List.nil_append, List.takeWhile_cons_of_neg (by simp [hp]), List.takeWhile_nil]
    | cons b t ih => rw [List.cons_append, List.takeWhile_cons, List.takeWhile_cons, ih]
  rw [run?, run?, htake]

/-- A spelling without newlines ends where the line does. -/
theorem startsWith_newline {word : Text} (h : byte '\n' ∉ word) (t y : Text) :
    (t ++ byte '\n' :: y).startsWith word = t.startsWith word := by
  induction t generalizing word with
  | nil =>
    cases word with
    | nil => rfl
    | cons b word =>
      have hb : (b == byte '\n') = false :=
        beq_eq_false_iff_ne.2 fun heq => h (heq ▸ List.mem_cons_self)
      simp [Text.startsWith, List.isPrefixOf, hb]
  | cons c t ih =>
    cases word with
    | nil => rfl
    | cons b word =>
      have := ih fun hin => h (List.mem_cons_of_mem b hin)
      simp only [Text.startsWith] at this
      simp only [Text.startsWith, List.cons_append, List.isPrefixOf, this]

/-- **Tokens end where the line does**, apart from literals and white space. -/
theorem length?_newline {k : TokenKind} (hstring : k ≠ .string) (hwhite : k ≠ .whitespace)
    (t y : Text) : k.length? (t ++ byte '\n' :: y) = k.length? t := by
  have hspelled : ∀ words : List Text, (∀ word ∈ words, byte '\n' ∉ word) →
      (Lexeme.spelled words).length? (t ++ byte '\n' :: y) = (Lexeme.spelled words).length? t := by
    intro words hwords
    have hfind : words.find? (t ++ byte '\n' :: y).startsWith = words.find? t.startsWith := by
      induction words with
      | nil => rfl
      | cons word words ih =>
        obtain ⟨hword, hwords⟩ := List.forall_mem_cons.1 hwords
        rw [List.find?_cons, List.find?_cons, startsWith_newline hword, ih hwords]
    rw [length?, length?, hfind]
  cases k with
  | string => exact absurd rfl hstring
  | whitespace => exact absurd rfl hwhite
  | number | symbol => exact run?_newline (by decide) t y
  | nil | true | false | dot | quote | lparen | rparen | other => exact hspelled _ (by decide)

/-- No literal comes about after a newline if no quote opens one or none follows. -/
theorem string_length?_newline {t : Text} (hne : t ≠ [])
    (h : TokenKind.length? .string t = none) (hq : t.head? = some (byte '"') → byte '"' ∉ y) :
    TokenKind.length? .string (t ++ byte '\n' :: y) = none := by
  obtain ⟨b, t, rfl⟩ := List.exists_cons_of_ne_nil hne
  change Lexeme.quoted.length? (b :: t) = none at h
  change Lexeme.quoted.length? (b :: (t ++ byte '\n' :: y)) = none
  rw [quoted_length?_eq_none_iff] at h ⊢
  rintro rfl hin
  rcases List.mem_append.1 hin with hin | hin
  · exact h rfl hin
  · exact hq rfl ((List.mem_cons.1 hin).resolve_left (by decide))

/-! ## Literals across lines -/

/-- A newline is taken by nothing. -/
theorem closing?_newline (y : Text) :
    closing? (byte '\n' :: y) = (closing? y).map (· + 1) := by
  rw [closing?.eq_def]
  dsimp only
  rw [if_neg (by decide), if_neg (by decide)]

/-- **A literal goes on over a line without quotes.** -/
theorem closing?_over_line (hy : byte '"' ∈ y) : ∀ {s : Text}, byte '"' ∉ s →
    closing? (s ++ byte '\n' :: y) = (closing? y).map (· + (s.length + 1))
  | [], _ => closing?_newline y
  | [b], hs => by
    have hb : b ≠ byte '"' := fun h => hs (h ▸ List.mem_cons_self)
    rw [List.singleton_append, closing?, if_neg hb]
    by_cases hslash : b = byte '\\'
    · rw [if_pos hslash, if_neg fun h => h.1 rfl, closing?_newline, Option.map_map]
      rfl
    · rw [if_neg hslash, closing?_newline, Option.map_map]
      rfl
  | b :: c :: s, hs => by
    have hb : b ≠ byte '"' := fun h => hs (h ▸ List.mem_cons_self)
    have hcs : byte '"' ∉ c :: s := fun h => hs (List.mem_cons_of_mem b h)
    have hlater : byte '"' ∈ s ++ byte '\n' :: y :=
      List.mem_append_right s (List.mem_cons_of_mem _ hy)
    rw [List.cons_append, List.cons_append, closing?, if_neg hb]
    by_cases hslash : b = byte '\\'
    · rw [if_pos hslash]
      by_cases hc : c = byte '\n'
      · rw [if_neg fun h => h.1 hc, ← List.cons_append, closing?_over_line hy hcs, Option.map_map]
        rfl
      · rw [if_pos ⟨hc, hlater⟩, closing?_over_line hy fun h => hcs (List.mem_cons_of_mem c h),
          Option.map_map]
        rfl
    · rw [if_neg hslash, ← List.cons_append, closing?_over_line hy hcs, Option.map_map]
      rfl

/-- **A literal whose closing quote is escaped** goes on as soon as there is another quote. -/
theorem closing?_over_escaped {rest : Text} (hrest : byte '"' ∈ rest) : ∀ {content : Text},
    escapesEnd content = true → closing? (content ++ [byte '"']) = some (content.length + 1) →
    closing? (content ++ byte '"' :: rest) = (closing? rest).map (· + (content.length + 1))
  | [], hend, _ => nomatch hend
  | [b], hend, _ => by
    obtain rfl : b = byte '\\' := beq_iff_eq.1 hend
    rw [List.singleton_append, closing?, if_neg (by decide), if_pos rfl,
      if_pos ⟨by decide, hrest⟩]
    rfl
  | b :: c :: content, hend, hclosing => by
    obtain ⟨hb, hclosing⟩ := closing?_cons_cons_iff.1 hclosing
    rw [escapesEnd] at hend
    have hlater : byte '"' ∈ content ++ byte '"' :: rest :=
      List.mem_append_right content List.mem_cons_self
    rw [List.cons_append, List.cons_append, closing?, if_neg hb]
    split_ifs at hend hclosing with htakes
    · rw [if_pos htakes.1, if_pos ⟨htakes.2, hlater⟩, closing?_over_escaped hrest hend hclosing,
        Option.map_map]
      rfl
    · have hgoes := closing?_over_escaped hrest hend hclosing
      rw [List.cons_append] at hgoes
      by_cases hslash : b = byte '\\'
      · rw [if_pos hslash, if_neg fun h => htakes ⟨hslash, h.1⟩, hgoes, Option.map_map]
        rfl
      · rw [if_neg hslash, hgoes, Option.map_map]
        rfl

end Lexeme

namespace Tokenizer

open Lexeme

variable {y : Text}

/-! ## Tokens before a newline -/

/-- **A token stays what it is** in front of a newline, unless a quote comes behind an
unclosed one that had none behind it. -/
theorem here?_newline {t : Token} {rest : Text} (hne : t.text ≠ [])
    (hwhite : t.kind ≠ .whitespace)
    (h : standard.here? (t.text ++ rest) = some (t.kind, t.text.length))
    (hq : byte '"' ∈ y → byte '"' ∈ rest ∨ t.isUnclosed = false) :
    standard.here? (t.text ++ (rest ++ byte '\n' :: y)) = some (t.kind, t.text.length) := by
  obtain ⟨k, w, span⟩ := t
  dsimp only at hne hwhite h ⊢
  by_cases hstring : k = .string
  · subst hstring
    obtain ⟨content, rfl, hclosing⟩ := eq_quoted_of_here? h
    refine here?_string ?_
    have hold : byte '"' ∈ rest ∨
        Token.isUnclosed ⟨.string, byte '"' :: content ++ [byte '"'], span⟩ = false →
        closing? (content ++ byte '"' :: (rest ++ byte '\n' :: y)) = some (content.length + 1) := by
      rintro (hrest | hclosed)
      · exact closing?_congr (fun _ => hrest) content hclosing
      · by_cases hin : byte '"' ∈ rest ++ byte '\n' :: y
        · refine (closing?_iff_escapesEnd hin content).2
            ⟨closing?_congr (fun h => absurd h List.not_mem_nil) content hclosing, ?_⟩
          rw [Token.isUnclosed_string] at hclosed
          exact hclosed
        · exact closing?_congr (fun h => absurd h hin) content hclosing
    by_cases hy : byte '"' ∈ y
    · exact hold (hq hy)
    · refine closing?_congr (fun hin => ?_) content hclosing
      exact (List.mem_append.1 hin).resolve_right fun h =>
        hy ((List.mem_cons.1 h).resolve_left (by decide))
  · rw [here?_standard_iff] at h ⊢
    rw [← List.append_assoc]
    refine ⟨(length?_newline hstring hwhite _ y).trans h.1, fun k' hk' => ?_⟩
    by_cases hstring' : k' = .string
    · subst hstring'
      refine string_length?_newline (List.append_ne_nil_of_left_ne_nil hne rest) (h.2 _ hk') ?_
      intro hhead hy
      obtain ⟨b, w, rfl⟩ := List.exists_cons_of_ne_nil hne
      obtain rfl : b = byte '"' := Option.some.inj hhead
      have hnone := h.2 _ hk'
      rw [List.cons_append] at hnone
      have hrest : byte '"' ∉ w ++ rest := quoted_length?_eq_none_iff.1 hnone rfl
      -- of the kinds that are tried after literals only symbols begin with a quote
      cases k with
      | symbol =>
        rcases hq hy with hin | hclosed
        · exact hrest (List.mem_append_right w hin)
        · rw [Token.isUnclosed_symbol] at hclosed
          cases hclosed
      | string => exact hstring rfl
      | whitespace => exact hwhite rfl
      | nil | true | false | number => exact absurd hk' (by decide)
      | dot | quote | lparen | rparen | other => exact nomatch h.1
    · have hwhite' : k' ≠ .whitespace := by
        rintro rfl
        exact TokenKind.whitespace_not_mem_earlier h.1 hk'
      exact (length?_newline hstring' hwhite' _ y).trans (h.2 k' hk')

/-- No quote comes behind an unclosed token. -/
theorem not_mem_of_isUnclosed {t : Token} {rest : Text} (hne : t.text ≠ [])
    (h : standard.here? (t.text ++ rest) = some (t.kind, t.text.length))
    (ht : t.isUnclosed = true) : byte '"' ∉ rest := by
  obtain ⟨k, w, span⟩ := t
  dsimp only at hne h
  rcases Token.kind_of_isUnclosed ht with hk | hk
  · obtain rfl : k = .symbol := hk
    obtain ⟨b, w, rfl⟩ := List.exists_cons_of_ne_nil hne
    obtain rfl : b = byte '"' := Option.some.inj (beq_iff_eq.1 ht)
    exact fun hin => (here?_symbol_iff.1 h).2.2.2 rfl (List.mem_append_right w hin)
  · obtain rfl : k = .string := hk
    obtain ⟨content, rfl, hclosing⟩ := eq_quoted_of_here? h
    rw [Token.isUnclosed_string] at ht
    intro hin
    have := ((closing?_iff_escapesEnd hin content).1 hclosing).2
    simp [this] at ht

/-- An unclosed token has a quote. -/
theorem quote_mem_of_isUnclosed {t : Token} {rest : Text}
    (h : standard.here? (t.text ++ rest) = some (t.kind, t.text.length))
    (ht : t.isUnclosed = true) : byte '"' ∈ t.text := by
  obtain ⟨k, w, span⟩ := t
  rcases Token.kind_of_isUnclosed ht with hk | hk
  · obtain rfl : k = .symbol := hk
    exact List.mem_of_mem_head? (beq_iff_eq.1 ht)
  · obtain rfl : k = .string := hk
    obtain ⟨content, hcontent, _⟩ := eq_quoted_of_here? h
    dsimp only at hcontent
    rw [hcontent]
    exact List.mem_cons_self

/-- **An unclosed token begins a literal** that contains the rest of its line and ends at the
first quote of what follows. -/
theorem here?_reopened {t : Token} {rest content after : Text} (hne : t.text ≠ [])
    (h : standard.here? (t.text ++ rest) = some (t.kind, t.text.length))
    (ht : t.isUnclosed = true)
    (hclosing : closing? (content ++ byte '"' :: after) = some (content.length + 1)) :
    standard.here? ((t.text ++ rest ++ byte '\n' :: (content ++ [byte '"'])) ++ after) =
      some (.string, (t.text ++ rest ++ byte '\n' :: (content ++ [byte '"'])).length) := by
  have hrest := not_mem_of_isUnclosed hne h ht
  obtain ⟨k, w, span⟩ := t
  dsimp only at hne h ⊢
  have hlater : byte '"' ∈ content ++ byte '"' :: after := by simp
  have hline := closing?_over_line hlater hrest
  rw [hclosing] at hline
  rcases Token.kind_of_isUnclosed ht with hk | hk
  · obtain rfl : k = .symbol := hk
    obtain ⟨b, w, rfl⟩ := List.exists_cons_of_ne_nil hne
    obtain rfl : b = byte '"' := Option.some.inj (beq_iff_eq.1 ht)
    have hw : byte '"' ∉ w ++ rest := (here?_symbol_iff.1 h).2.2.2 rfl
    have hwhole := closing?_over_line hlater hw
    rw [hclosing] at hwhole
    have hstring := @here?_string (w ++ rest ++ byte '\n' :: content) after
      (by simpa [Nat.add_assoc, Nat.add_comm, Nat.add_left_comm] using hwhole)
    simpa using hstring
  · obtain rfl : k = .string := hk
    obtain ⟨inner, rfl, hinner⟩ := eq_quoted_of_here? h
    rw [Token.isUnclosed_string] at ht
    have hrest' : byte '"' ∈ rest ++ byte '\n' :: (content ++ byte '"' :: after) := by simp
    have hwhole := closing?_over_escaped hrest' (by simpa using ht)
      (closing?_congr (fun h => absurd h List.not_mem_nil) inner hinner)
    rw [hline] at hwhole
    have hstring := @here?_string (inner ++ byte '"' :: (rest ++ byte '\n' :: content)) after
      (by simpa [Nat.add_assoc, Nat.add_comm, Nat.add_left_comm] using hwhole)
    simpa using hstring

end Tokenizer

namespace Tokenizer

open Lexeme

/-! ## Bytes that begin no token -/

/-- **A stray byte**: no token begins with it, and it is no blank. -/
def isStray (b : UInt8) : Bool :=
  !(isWordByte b || isBlankByte b || b == byte '\'' || b == byte '(' || b == byte ')')

/-- **No rule matches at a stray byte**, and at every other byte one does. -/
theorem here?_eq_none_iff {b : UInt8} {rest : Text} :
    standard.here? (b :: rest) = none ↔ isStray b = true := by
  have hrules : standard.here? (b :: rest) = none ↔
      ∀ k : TokenKind, k.length? (b :: rest) = none := by
    rw [here?_eq_none]
    constructor
    · intro h k
      refine Option.eq_none_iff_forall_ne_some.2 fun n hn => ?_
      exact nomatch hn.symm.trans (h _ (List.mem_map_of_mem (TokenKind.mem_all hn)))
    · intro h r hr
      obtain ⟨k, _, rfl⟩ := List.mem_map.1 hr
      exact h k
  have hone : ∀ c : UInt8, (Lexeme.spelled [[c]]).length? (b :: rest) = none ↔ b ≠ c := by
    intro c
    rw [spelled_length?_eq_none_iff, List.forall_mem_singleton]
    change (c == b && true) = false ↔ b ≠ c
    rw [Bool.and_true, beq_eq_false_iff_ne, ne_comm]
  rw [hrules]
  simp only [isStray, Bool.not_eq_true', Bool.or_eq_false_iff, beq_eq_false_iff_ne]
  constructor
  · intro h
    exact ⟨⟨⟨⟨run?_eq_none_iff.1 (h .symbol), run?_eq_none_iff.1 (h .whitespace)⟩,
      (hone _).1 (h .quote)⟩, (hone _).1 (h .lparen)⟩, (hone _).1 (h .rparen)⟩
  · rintro ⟨⟨⟨⟨hword, hblank⟩, hquote⟩, hlparen⟩, hrparen⟩ k
    have hfixed : ∀ words : List Text,
        (∀ word ∈ words, ∃ c ∈ word.head?, isWordByte c = true ∨ c = byte '\'') →
        (Lexeme.spelled words).length? (b :: rest) = none := by
      intro words hwords
      rw [spelled_length?_eq_none_iff]
      intro word hmem
      obtain ⟨c, hc, hcase⟩ := hwords word hmem
      rw [Bool.eq_false_iff]
      intro hs
      obtain rfl := head?_of_startsWith hs hc
      rcases hcase with hcase | hcase
      · exact Bool.noConfusion (hcase.symm.trans hword)
      · exact hquote hcase
    cases k with
    | symbol => exact run?_eq_none_iff.2 hword
    | whitespace => exact run?_eq_none_iff.2 hblank
    | lparen => exact (hone _).2 hlparen
    | rparen => exact (hone _).2 hrparen
    | number =>
      refine run?_eq_none_iff.2 (Bool.eq_false_iff.2 fun h => ?_)
      exact Bool.noConfusion ((isWordByte_of_isDigit h).symm.trans hword)
    | string =>
      refine quoted_length?_eq_none_iff.2 fun h => ?_
      subst h
      exact absurd hword (by decide)
    | nil | true | false | dot | quote | other => exact hfixed _ (by decide)

/-- No rule matches among stray bytes. -/
theorem passes_stray {g : Text} (hg : ∀ b ∈ g, isStray b = true) (rest : Text) :
    standard.Passes g rest := by
  intro v hne hv
  obtain ⟨b, v, rfl⟩ := List.exists_cons_of_ne_nil hne
  exact here?_eq_none_iff.2 (hg b (hv.mem List.mem_cons_self))

/-- **Stray bytes are a gap**, as far as they go. -/
theorem scanFrom_stray {g rest : Text} (pos : Nat) (hne : g ≠ [])
    (hg : ∀ b ∈ g, isStray b = true) (hrest : ∀ b ∈ rest.head?, isStray b = false) :
    standard.scanFrom pos 0 (g ++ rest) =
      .gap ⟨g, ⟨pos, pos + g.length⟩⟩ :: standard.scanFrom (pos + g.length) 0 rest := by
  cases rest with
  | nil =>
    rw [List.append_nil]
    exact scanFrom_last hne (passes_stray hg [])
  | cons b rest =>
    cases hhere : standard.here? (b :: rest) with
    | none => exact Bool.noConfusion ((here?_eq_none_iff.1 hhere).symm.trans (hrest b rfl))
    | some found =>
      exact scanFrom_gap hne (passes_stray hg _) (List.cons_ne_nil b rest)
        (here?_standard_bounds hhere).1 hhere

/-! ## Scanning a part of a text -/

/-- **Items that a text begins with.** The bytes `w` from position `pos` on make these items,
when the text `rest` comes behind them. -/
inductive Scans : Nat → Text → List Item → Text → Prop
  /-- Nothing is scanned. -/
  | nil (pos : Nat) (rest : Text) : Scans pos [] [] rest
  /-- A blank. -/
  | blank {pos : Nat} {b : UInt8} {w rest : Text} {items : List Item}
      (hb : isBlankByte b = true) : Scans (pos + 1) w items rest → Scans pos (b :: w) items rest
  /-- A gap, as long as possible. -/
  | gap {pos : Nat} {g w rest : Text} {items : List Item} (hne : g ≠ [])
      (hg : ∀ b ∈ g, isStray b = true) (hend : ∀ b ∈ (w ++ rest).head?, isStray b = false) :
      Scans (pos + g.length) w items rest →
      Scans pos (g ++ w) (.gap ⟨g, ⟨pos, pos + g.length⟩⟩ :: items) rest
  /-- A token. -/
  | token {pos : Nat} {u w rest : Text} {k : TokenKind} {items : List Item} (hne : u ≠ [])
      (hk : k ≠ .whitespace)
      (hhere : standard.here? (u ++ (w ++ rest)) = some (k, u.length)) :
      Scans (pos + u.length) w items rest →
      Scans pos (u ++ w) (.token ⟨k, u, ⟨pos, pos + u.length⟩⟩ :: items) rest

namespace Scans

variable {pos : Nat} {w rest y : Text} {items : List Item}

/-- **What is scanned** comes before the scan of what remains. -/
theorem scanFrom_eq (h : Scans pos w items rest) :
    standard.scanFrom pos 0 (w ++ rest) =
      items ++ standard.scanFrom (pos + w.length) 0 rest := by
  induction h with
  | nil => rfl
  | blank hb _ ih =>
    rw [List.cons_append, scanFrom_blank _ hb, ih, List.length_cons, Nat.add_assoc,
      Nat.add_comm 1]
  | gap hne hg hend _ ih =>
    rw [List.append_assoc, scanFrom_stray _ hne hg hend, ih, List.length_append, Nat.add_assoc]
    rfl
  | @token _ _ _ _ k _ hne hk hhere _ ih =>
    have hkind : k ∉ standard.ignored := fun h => hk (List.mem_singleton.1 h)
    rw [List.append_assoc, scanFrom_token hne hhere hkind, ih, List.length_append, Nat.add_assoc]
    rfl

/-- Blanks are passed over. -/
theorem blanks {u : Text} (hu : ∀ b ∈ u, isBlankByte b = true)
    (h : Scans (pos + u.length) w items rest) : Scans pos (u ++ w) items rest := by
  induction u generalizing pos with
  | nil => exact h
  | cons b u ih =>
    obtain ⟨hb, hu⟩ := List.forall_mem_cons.1 hu
    refine .blank hb (ih hu ?_)
    rw [Nat.add_assoc, Nat.add_comm 1]
    exact h

/-- Where no rule matches, there are stray bytes only. -/
theorem stray_of_passes {g : Text} (h : standard.Passes g rest) : ∀ b ∈ g, isStray b = true := by
  intro b hb
  obtain ⟨u, v, rfl⟩ := List.append_of_mem hb
  exact here?_eq_none_iff.1 (h (b :: v) (List.cons_ne_nil b v) (List.suffix_append u _))

/-- **What a cut is made of** is scanned, apart from white space. -/
theorem of_cuts (h : standard.Cuts pos w items) :
    Scans pos w (items.filter standard.reports) [] := by
  induction h with
  | nil pos => exact .nil pos []
  | @cons pos item rest items hne hspan hexplains _ ih =>
    cases item with
    | gap g =>
      obtain ⟨g, span⟩ := g
      obtain rfl : span = ⟨pos, pos + g.length⟩ := hspan
      rcases hexplains with ⟨hpasses, hend⟩ | ⟨_, b, k, _, _, hempty⟩
      · refine .gap hne (stray_of_passes hpasses) ?_ ih
        rintro b hb
        obtain ⟨v, rfl⟩ : ∃ v, rest = b :: v := by
          cases rest <;> simp_all
        obtain hnil | ⟨k, n, _, hhere⟩ := hend
        · exact nomatch hnil
        · refine Bool.eq_false_iff.2 fun hstray => ?_
          exact nomatch hhere.symm.trans (here?_eq_none_iff.2 hstray)
      · exact absurd (here?_standard_bounds hempty).1 (Nat.lt_irrefl 0)
    | token t =>
      obtain ⟨k, u, span⟩ := t
      obtain rfl : span = ⟨pos, pos + u.length⟩ := hspan
      by_cases hk : k = .whitespace
      · subst hk
        exact blanks (run?_mem (here?_standard_iff.1 hexplains).1) ih
      · have hreports : standard.reports (.token ⟨k, u, ⟨pos, pos + u.length⟩⟩) = true := by
          simp [reports, standard, hk]
        rw [List.filter_cons_of_pos hreports]
        exact .token hne hk (by rw [List.append_nil]; exact hexplains) ih

/-- **The items of a text** are scanned. -/
theorem scan (x : Text) : Scans 0 x (standard.scan x) [] := by
  rw [scan_eq_filter]
  exact of_cuts (standard.cuts_scan x)

/-- **A line is scanned alike with another one behind it**, unless a quote comes behind an
unclosed token that had none behind it. -/
theorem next (h : Scans pos w items rest)
    (hq : byte '"' ∈ y → byte '"' ∈ rest ∨ ∀ t, .token t ∈ items → t.isUnclosed = false) :
    Scans pos w items (rest ++ byte '\n' :: y) := by
  induction h with
  | nil => exact .nil _ _
  | blank hb _ ih => exact .blank hb (ih hq)
  | @gap pos g w rest items hne hg hend _ ih =>
    refine .gap hne hg ?_ (ih fun hy => (hq hy).imp_right fun hall t ht =>
      hall t (List.mem_cons_of_mem _ ht))
    rw [← List.append_assoc]
    cases hw : w ++ rest with
    | nil =>
      intro b hb
      cases hb
      decide
    | cons c after =>
      rw [hw] at hend
      exact hend
  | @token pos u w rest k items hne hk hhere _ ih =>
    refine .token hne hk ?_ (ih fun hy => (hq hy).imp_right fun hall t ht =>
      hall t (List.mem_cons_of_mem _ ht))
    rw [← List.append_assoc w]
    refine @here?_newline y ⟨k, u, ⟨pos, pos + u.length⟩⟩ _ hne hk hhere fun hy => ?_
    exact (hq hy).imp (List.mem_append_right w) fun hall => hall _ List.mem_cons_self

/-- **What is scanned before a token**, and the token itself. -/
theorem split {before after : List Item} {t : Token}
    (h : Scans pos w (before ++ .token t :: after) rest) :
    ∃ w₁ w₂, w = w₁ ++ (t.text ++ w₂) ∧ Scans pos w₁ before (t.text ++ (w₂ ++ rest)) ∧
      t.text ≠ [] ∧ standard.here? (t.text ++ (w₂ ++ rest)) = some (t.kind, t.text.length) := by
  generalize hitems : before ++ .token t :: after = items at h
  induction h generalizing before with
  | nil => exact absurd hitems (by simp)
  | @blank pos b w rest items hb _ ih =>
    obtain ⟨w₁, w₂, rfl, hscans, ht⟩ := ih hitems
    exact ⟨b :: w₁, w₂, rfl, .blank hb hscans, ht⟩
  | @gap pos g w rest items hne hg hend _ ih =>
    cases before with
    | nil => cases hitems
    | cons item before =>
      obtain ⟨rfl, hrest⟩ := List.cons.inj hitems
      obtain ⟨w₁, w₂, rfl, hscans, ht⟩ := ih hrest
      refine ⟨g ++ w₁, w₂, by rw [List.append_assoc], .gap hne hg ?_ hscans, ht⟩
      rw [List.append_assoc, List.append_assoc] at hend
      exact hend
  | @token pos u w rest k items hne hk hhere hscans ih =>
    cases before with
    | nil =>
      cases hitems
      exact ⟨[], w, rfl, .nil _ _, hne, hhere⟩
    | cons item before =>
      obtain ⟨rfl, hrest⟩ := List.cons.inj hitems
      obtain ⟨w₁, w₂, rfl, hscans, ht⟩ := ih hrest
      refine ⟨u ++ w₁, w₂, by rw [List.append_assoc], .token hne hk ?_ hscans, ht⟩
      rw [List.append_assoc, List.append_assoc] at hhere
      exact hhere

end Scans

/-! ## Two lines -/

/-- **The scan of two texts with a newline between them** is that of the first one and then that
of the second one, unless the second one has a quote and the first one an unclosed token. -/
theorem scan_newline {x y : Text}
    (hq : byte '"' ∈ y → ∀ t, .token t ∈ standard.scan x → t.isUnclosed = false) :
    standard.scan (x ++ byte '\n' :: y) =
      standard.scan x ++ standard.scanFrom (x.length + 1) 0 y := by
  have hnext := ((Scans.scan x).next fun hy => Or.inr (hq hy)).scanFrom_eq
  rw [List.nil_append, scanFrom_blank _ (by decide), Nat.zero_add] at hnext
  exact hnext

/-- **A quote reopens an unclosed token.** What is scanned before the token stays; the token and
all that follows it in the first text are the beginning of a literal, which ends at the first
quote of the second one that no backslash takes away. -/
theorem scan_reopened {x : Text} (content after : Text) {before behind : List Item} {t : Token}
    (hx : standard.scan x = before ++ .token t :: behind) (ht : t.isUnclosed = true)
    (hclosing : closing? (content ++ byte '"' :: after) = some (content.length + 1)) :
    ∃ (literal : Token) (s : Text), literal.atom? = some (.str s) ∧
      standard.scan (x ++ byte '\n' :: (content ++ byte '"' :: after)) =
        before ++ .token literal :: standard.scanFrom literal.span.stop 0 after := by
  obtain ⟨w₁, w₂, hw, hbefore, hne, hhere⟩ := (hx ▸ Scans.scan x).split
  rw [List.append_nil] at hbefore hhere
  -- the tokens before had a quote behind them already
  have hold := (hbefore.next (y := content ++ byte '"' :: after)
    fun _ => Or.inl (List.mem_append_left _ (quote_mem_of_isUnclosed hhere ht))).scanFrom_eq
  have hliteral := here?_reopened hne hhere ht hclosing
  have hscan := @scanFrom_token standard (0 + w₁.length) _ _ _
    (List.append_ne_nil_of_left_ne_nil (List.append_ne_nil_of_left_ne_nil hne w₂) _) hliteral
    (by decide)
  have htext : t.text ++ w₂ ++ byte '\n' :: (content ++ byte '"' :: after) =
      (t.text ++ w₂ ++ byte '\n' :: (content ++ [byte '"'])) ++ after := by simp
  rw [htext, hscan, ← htext, ← List.append_assoc, ← hw] at hold
  obtain ⟨s, hquoted, -⟩ := eq_quoted_of_here? hliteral
  refine ⟨_, s, ?_, hold⟩
  rw [Token.atom?]
  dsimp only
  rw [hquoted, Reading.content?_quoted]
  rfl

end Tokenizer

end PassingStyle
