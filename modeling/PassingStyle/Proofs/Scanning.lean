import Mathlib.Data.List.Basic
import PassingStyle.Token

/-!
# Where tokens end

Scanning depends on what follows. A word goes on as long as it can, a string
literal may end at one of several quotes, and an opening quote that nothing
closes is an ordinary byte of a word. A token that was found in one text may
therefore look different in another one. This file says what has to be the same.

Two things are enough. The text after the token must be *delimited*: no byte that
can stand in a word comes first. And it must not bring in a quote: if it has one,
so had the text after the token before. `Spelled` is the resulting notion, a
spelling that was a token of its kind in front of some text, and `Spelled.here?`
shows that it is one in front of every other text of that kind.

The first half of the file holds of every list of rules: the scan of a text is
that of its first token followed by that of the rest.
-/

namespace PassingStyle

open Text

/-! ## Runs of bytes -/

namespace Lexeme

/-- **No word goes on** at the start of the text. -/
def Delimited (t : Text) : Prop :=
  ∀ b ∈ t.head?, isWordByte b = false

/-- A run that is found is not empty, and is as long as possible. -/
theorem run?_eq_some_iff {p : UInt8 → Bool} {t : Text} {n : Nat} :
    run? p t = some n ↔ 0 < n ∧ (t.takeWhile p).length = n := by
  unfold run?
  split <;> simp <;> omega

/-- A run ends where the next byte does not belong to it. -/
theorem run?_append {p : UInt8 → Bool} {w rest : Text} (hne : w ≠ []) (hw : ∀ b ∈ w, p b = true)
    (hrest : ∀ b ∈ rest.head?, p b = false) : run? p (w ++ rest) = some w.length := by
  rw [run?_eq_some_iff]
  refine ⟨List.length_pos_iff.2 hne, ?_⟩
  rw [List.takeWhile_append_of_pos hw]
  cases rest with
  | nil => simp
  | cons b rest => simp [hrest b rfl]

/-- There is no run where the first byte does not belong to it. -/
theorem run?_eq_none_iff {p : UInt8 → Bool} {b : UInt8} {t : Text} :
    run? p (b :: t) = none ↔ p b = false := by
  unfold run?
  cases hb : p b <;> simp [hb]

/-- The bytes of a run. -/
theorem run?_mem {p : UInt8 → Bool} {w rest : Text} (h : run? p (w ++ rest) = some w.length) :
    ∀ b ∈ w, p b = true := by
  obtain ⟨-, hlen⟩ := run?_eq_some_iff.1 h
  have hw : (w ++ rest).takeWhile p = w := by
    have hprefix := List.takeWhile_prefix p (l := w ++ rest)
    rw [List.prefix_iff_eq_take, hlen, List.take_left] at hprefix
    exact hprefix
  intro b hb
  rw [← hw] at hb
  exact List.all_eq_true.1 List.all_takeWhile b hb

/-- Digits can stand in words. -/
theorem isWordByte_of_isDigit {b : UInt8} (h : isDigit b = true) : isWordByte b = true := by
  unfold isDigit at h
  unfold isWordByte
  rw [Bool.and_eq_true, decide_eq_true_eq, decide_eq_true_eq, UInt8.le_iff_toNat_le,
    UInt8.le_iff_toNat_le] at h
  have h0 : 48 ≤ b.toNat := h.1
  have h9 : b.toNat ≤ 57 := h.2
  rw [Bool.or_eq_true, Bool.and_eq_true, Bool.and_eq_true]
  refine .inr ⟨decide_eq_true (UInt8.le_iff_toNat_le.2 ?_), decide_eq_true
    (UInt8.le_iff_toNat_le.2 ?_)⟩
  · exact Nat.le_trans (by decide) h0
  · exact Nat.le_trans h9 (by decide)

/-! ## The end of a string literal -/

/-- A literal can be closed as long as there is a quote. -/
theorem closing?_eq_none_iff {t : Text} : closing? t = none ↔ byte '"' ∉ t := by
  fun_induction closing? t with
  | case1 => simp
  | case2 => simp
  | case3 h => simp [Ne.symm h]
  | case4 c after hc _ ih => simp [ih, hc.2]
  | case5 c after hc h ih => simp [ih, Ne.symm h]
  | case6 b rest hb hbackslash ih => simp [ih, Ne.symm hb]

/-- A literal ends with a quote. -/
theorem exists_of_closing? {t : Text} {n : Nat} (h : closing? t = some n) :
    ∃ content rest, t = content ++ byte '"' :: rest ∧ n = content.length + 1 := by
  fun_induction closing? t generalizing n with
  | case1 => exact nomatch h
  | case2 rest => exact ⟨[], rest, rfl, (Option.some.inj h).symm⟩
  | case3 => exact nomatch h
  | case4 c after hc hq ih =>
    obtain ⟨m, hm, rfl⟩ := Option.map_eq_some_iff.1 h
    obtain ⟨content, rest, rfl, rfl⟩ := ih hm
    exact ⟨byte '\\' :: c :: content, rest, rfl, rfl⟩
  | case5 c after hc hq ih =>
    obtain ⟨m, hm, rfl⟩ := Option.map_eq_some_iff.1 h
    obtain ⟨content, rest, e, rfl⟩ := ih hm
    exact ⟨byte '\\' :: content, rest, by rw [e]; rfl, rfl⟩
  | case6 b rest hb hbackslash ih =>
    obtain ⟨m, hm, rfl⟩ := Option.map_eq_some_iff.1 h
    obtain ⟨content, rest', rfl, rfl⟩ := ih hm
    exact ⟨b :: content, rest', rfl, rfl⟩

/-- A quote closes the literal at once. -/
theorem closing?_quote (t : Text) : closing? (byte '"' :: t) = some 1 := by
  rw [closing?.eq_def]
  exact if_pos rfl

/-- A literal as a whole: a quote, the content and another quote. -/
theorem quoted_length?_eq_some {b : UInt8} {t : Text} {n : Nat}
    (h : Lexeme.quoted.length? (b :: t) = some n) :
    b = byte '"' ∧ ∃ content rest, t = content ++ byte '"' :: rest ∧ n = content.length + 2 ∧
      closing? t = some (content.length + 1) := by
  rw [length?] at h
  split_ifs at h with hb
  obtain ⟨m, hm, rfl⟩ := Option.map_eq_some_iff.1 h
  obtain ⟨content, rest, rfl, rfl⟩ := exists_of_closing? hm
  exact ⟨hb, content, rest, rfl, rfl, hm⟩

/-- There is no literal where no quote opens it or none closes it. -/
theorem quoted_length?_eq_none_iff {b : UInt8} {t : Text} :
    Lexeme.quoted.length? (b :: t) = none ↔ (b = byte '"' → byte '"' ∉ t) := by
  rw [length?]
  split_ifs with hb
  · rw [Option.map_eq_none_iff, closing?_eq_none_iff]
    exact ⟨fun h _ => h, fun h => h hb⟩
  · simp [hb]

/-- A literal with one byte: it is no quote, and a backslash only if no quote is left. -/
theorem closing?_singleton_iff {b : UInt8} {rest : Text} :
    closing? ([b] ++ byte '"' :: rest) = some ([b].length + 1) ↔
      b ≠ byte '"' ∧ (b = byte '\\' → byte '"' ∉ rest) := by
  rw [List.singleton_append, closing?]
  by_cases hb : b = byte '"'
  · simp [hb]
  rw [if_neg hb]
  by_cases hs : b = byte '\\'
  · rw [if_pos hs]
    by_cases hmem : byte '"' ∈ rest
    · rw [if_pos ⟨by decide, hmem⟩]
      refine ⟨fun h => ?_, fun h => absurd hmem (h.2 hs)⟩
      obtain ⟨n, hn, he⟩ := Option.map_eq_some_iff.1 h
      obtain ⟨_, _, _, rfl⟩ := exists_of_closing? hn
      simp at he
    · rw [if_neg fun h => hmem h.2, closing?_quote]
      exact ⟨fun _ => ⟨hb, fun _ => hmem⟩, fun _ => rfl⟩
  · rw [if_neg hs, closing?_quote]
    exact ⟨fun _ => ⟨hb, fun h => absurd h hs⟩, fun _ => rfl⟩

/-- A literal with two bytes or more: the first one is no quote, and a backslash takes the
second one with it. -/
theorem closing?_cons_cons_iff {b c : UInt8} {content rest : Text} :
    closing? (b :: c :: content ++ byte '"' :: rest) = some ((b :: c :: content).length + 1) ↔
      b ≠ byte '"' ∧ if b = byte '\\' ∧ c ≠ byte '\n'
        then closing? (content ++ byte '"' :: rest) = some (content.length + 1)
        else closing? (c :: content ++ byte '"' :: rest) = some ((c :: content).length + 1) := by
  have hmem : byte '"' ∈ content ++ byte '"' :: rest := by simp
  rw [List.cons_append, List.cons_append, closing?]
  by_cases hb : b = byte '"'
  · simp [hb]
  rw [if_neg hb]
  rw [and_iff_right hb]
  by_cases hs : b = byte '\\'
  · by_cases hc : c = byte '\n'
    · simp [hs, hc]
    · simp [hs, hc, hmem]
  · simp [hs]

/-- **A literal ends at the same quote** in front of a text that brings in no
quote. Only a literal whose content ends in a backslash depends on that: its last
quote closes it because there is no other. -/
theorem closing?_congr {later rest : Text} (hq : byte '"' ∈ rest → byte '"' ∈ later) :
    ∀ content : Text, closing? (content ++ byte '"' :: later) = some (content.length + 1) →
      closing? (content ++ byte '"' :: rest) = some (content.length + 1)
  | [], _ => closing?_quote rest
  | [b], h => by
    obtain ⟨hb, hlater⟩ := closing?_singleton_iff.1 h
    exact closing?_singleton_iff.2 ⟨hb, fun hs hmem => hlater hs (hq hmem)⟩
  | b :: c :: content, h => by
    obtain ⟨hb, h⟩ := closing?_cons_cons_iff.1 h
    refine closing?_cons_cons_iff.2 ⟨hb, ?_⟩
    split_ifs at h ⊢
    · exact closing?_congr hq content h
    · exact closing?_congr hq (c :: content) h

/-! ## How far rules reach -/

/-- No rule matches beyond the end of the text. -/
theorem length?_le {l : Lexeme} {text : Text} {n : Nat} (h : l.length? text = some n) :
    n ≤ text.length := by
  have hrun : ∀ p, run? p text = some n → n ≤ text.length := by
    intro p hp
    obtain ⟨-, rfl⟩ := run?_eq_some_iff.1 hp
    exact (List.takeWhile_prefix p).length_le
  cases l with
  | digits | word | blanks => exact hrun _ h
  | spelled words =>
    obtain ⟨word, hword, rfl⟩ := Option.map_eq_some_iff.1 h
    have hstarts : text.startsWith word = true := List.find?_some hword
    exact (List.isPrefixOf_iff_prefix.1 hstarts).length_le
  | quoted =>
    cases text with
    | nil => exact nomatch h
    | cons b rest =>
      obtain ⟨-, content, after, rfl, rfl, -⟩ := quoted_length?_eq_some h
      simp
  | optionalDigits =>
    cases h
    exact (List.takeWhile_prefix isDigit).length_le
  | illFormed => exact nomatch h

/-- **The rule matches one byte or more** wherever it matches. -/
def isProper : Lexeme → Bool
  | .spelled words => words.all fun word => !word.isEmpty
  | .optionalDigits => false
  | _ => true

/-- What a proper rule matches is not empty. -/
theorem length?_pos {l : Lexeme} {text : Text} {n : Nat} (hl : l.isProper = true)
    (h : l.length? text = some n) : 0 < n := by
  cases l with
  | digits | word | blanks => exact (run?_eq_some_iff.1 h).1
  | spelled words =>
    obtain ⟨word, hword, rfl⟩ := Option.map_eq_some_iff.1 h
    have hword := List.all_eq_true.1 hl word (List.mem_of_find?_eq_some hword)
    exact List.length_pos_iff.2 (by simpa using hword)
  | quoted =>
    cases text with
    | nil => exact nomatch h
    | cons b rest =>
      obtain ⟨-, content, -, -, rfl, -⟩ := quoted_length?_eq_some h
      exact Nat.succ_pos _
  | optionalDigits => exact nomatch hl
  | illFormed => exact nomatch h

end Lexeme

/-! ## Scanning piece by piece -/

namespace Tokenizer

variable {t : Tokenizer} {pos : Nat} {w rest text : Text} {k : TokenKind}

/-- Bytes that belong to an item already reported are passed over. -/
theorem scanFrom_covered (t : Tokenizer) (pos covered : Nat) (text : Text) :
    t.scanFrom pos covered text = t.scanFrom (pos + covered) 0 (text.drop covered) := by
  induction text generalizing pos covered with
  | nil => rw [List.drop_nil]; rfl
  | cons b rest ih =>
    cases covered with
    | zero => rfl
    | succ c =>
      rw [scanFrom, ih, List.drop_succ_cons, Nat.add_right_comm, Nat.add_assoc]

/-- The search is over at once where a rule matches. -/
theorem search?_of_here? {n : Nat} (hne : text ≠ []) (h : t.here? text = some (k, n)) :
    t.search? text = some ⟨0, k, n⟩ := by
  cases text with
  | nil => exact absurd rfl hne
  | cons b rest => rw [search?, h]

/-- The scan after a search: what was skipped, the match, and the scan of the
rest. -/
theorem scanFrom_of_search? {f : Found} (h : t.search? text = some f) (hf : 0 < f.length) :
    t.scanFrom pos 0 text = gapItems pos f.skipped text ++ (t.tokenItems pos f text
      ++ t.scanFrom (pos + f.skipped + f.length) 0 (text.drop (f.skipped + f.length))) := by
  cases text with
  | nil => exact nomatch h
  | cons b rest =>
    obtain ⟨n, hn⟩ : ∃ n, f.length = n + 1 := ⟨f.length - 1, by omega⟩
    rw [scanFrom, h]
    simp only [hn]
    rw [scanFrom_covered, List.append_assoc, ← Nat.add_assoc f.skipped, List.drop_succ_cons,
      show pos + f.skipped + (n + 1) = pos + 1 + (f.skipped + n) by omega]

/-- **The scan of a text that begins with a match**: the token, and the scan of
the rest. -/
theorem scanFrom_of_here? (hne : w ≠ []) (h : t.here? (w ++ rest) = some (k, w.length)) :
    t.scanFrom pos 0 (w ++ rest)
      = (if k ∈ t.ignored then [] else [.token ⟨k, w, ⟨pos, pos + w.length⟩⟩])
        ++ t.scanFrom (pos + w.length) 0 rest := by
  have hsearch := search?_of_here? (List.append_ne_nil_of_left_ne_nil hne rest) h
  rw [scanFrom_of_search? hsearch (List.length_pos_iff.2 hne)]
  simp [gapItems, tokenItems]

/-- A match that may be reported. -/
theorem scanFrom_token (hne : w ≠ []) (h : t.here? (w ++ rest) = some (k, w.length))
    (hk : k ∉ t.ignored) :
    t.scanFrom pos 0 (w ++ rest)
      = .token ⟨k, w, ⟨pos, pos + w.length⟩⟩ :: t.scanFrom (pos + w.length) 0 rest := by
  rw [scanFrom_of_here? hne h, if_neg hk]
  rfl

/-- A match of an ignored kind. -/
theorem scanFrom_ignored (hne : w ≠ []) (h : t.here? (w ++ rest) = some (k, w.length))
    (hk : k ∈ t.ignored) : t.scanFrom pos 0 (w ++ rest) = t.scanFrom (pos + w.length) 0 rest := by
  rw [scanFrom_of_here? hne h, if_pos hk]
  rfl

end Tokenizer

/-! ## The usual rules -/

namespace TokenKind

/-- How far a token of this kind reaches at the start of the text, if one stands
there. -/
abbrev length? (k : TokenKind) (text : Text) : Option Nat :=
  (Rule.standard k).lexeme.length? text

/-- The kinds whose rules are tried before. -/
def earlier (k : TokenKind) : List TokenKind :=
  all.takeWhile (· ≠ k)

/-- A kind whose rule matches is one of those with a name. -/
theorem mem_all {k : TokenKind} {text : Text} {n : Nat} (h : k.length? text = some n) :
    k ∈ all := by
  cases k with
  | other beyond => exact nomatch h
  | nil | true | false | number | string | dot | quote | lparen | rparen | symbol | whitespace =>
    decide

/-- White space is tried last. -/
theorem whitespace_not_mem_earlier {k : TokenKind} {text : Text} {n : Nat}
    (h : k.length? text = some n) : whitespace ∉ k.earlier := by
  cases k with
  | other beyond => exact nomatch h
  | nil | true | false | number | string | dot | quote | lparen | rparen | symbol | whitespace =>
    decide

/-- The first kind that matches, among some of them. -/
theorem findSome?_length? {ks : List TokenKind} {text : Text} {k : TokenKind} {n : Nat} :
    (ks.map Rule.standard).findSome? (fun r => (r.lexeme.length? text).map fun n => (r.kind, n))
        = some (k, n) ↔
      k ∈ ks ∧ k.length? text = some n ∧
        ∀ k' ∈ ks.takeWhile (· ≠ k), k'.length? text = none := by
  have hkind : ∀ k, (Rule.standard k).kind = k := by
    intro k
    cases k <;> rfl
  induction ks with
  | nil => simp
  | cons a ks ih =>
    rw [List.map_cons, List.findSome?_cons, hkind]
    by_cases hak : a = k
    · subst hak
      cases hlen : a.length? text with
      | some m => simp [hlen]
      | none =>
        simp only [Option.map_none, ih, hlen]
        simp
    · cases hlen : a.length? text with
      | some m => simp [hlen, hak]
      | none =>
        simp only [Option.map_none, ih, hlen]
        simp [hak, hlen, Ne.symm hak]

end TokenKind

namespace Tokenizer

open Lexeme

/-- **The rule that decides**: it matches, and no earlier one does. -/
theorem here?_standard_iff {text : Text} {k : TokenKind} {n : Nat} :
    standard.here? text = some (k, n) ↔
      k.length? text = some n ∧ ∀ k' ∈ k.earlier, k'.length? text = none := by
  show (TokenKind.all.map Rule.standard).findSome? _ = _ ↔ _
  rw [TokenKind.findSome?_length?]
  exact and_iff_right_of_imp fun h => TokenKind.mem_all h.1

/-- A token is not empty and does not reach beyond the end. -/
theorem here?_standard_bounds {text : Text} {k : TokenKind} {n : Nat}
    (h : standard.here? text = some (k, n)) : 0 < n ∧ n ≤ text.length := by
  have hproper : (Rule.standard k).lexeme.isProper = true := by
    cases k <;> rfl
  have hlength := (here?_standard_iff.1 h).1
  exact ⟨length?_pos hproper hlength, length?_le hlength⟩

/-- **A spelling that is a token** of its kind in front of a text, which has a
quote if `later` says so. -/
def Spelled (k : TokenKind) (w : Text) (later : Prop) : Prop :=
  w ≠ [] ∧ ∃ rest, (later → byte '"' ∈ rest) ∧ standard.here? (w ++ rest) = some (k, w.length)

/-- A spelling needs less where fewer quotes follow. -/
theorem Spelled.anti {k : TokenKind} {w : Text} {later later' : Prop} (h : Spelled k w later)
    (hl : later' → later) : Spelled k w later' := by
  obtain ⟨hne, rest, hq, hhere⟩ := h
  exact ⟨hne, rest, fun hl' => hq (hl hl'), hhere⟩

/-- A text begins with the first byte of a spelling that it begins with. -/
theorem head?_of_startsWith {b c : UInt8} {t word : Text} (h : Text.startsWith (c :: t) word = true)
    (hb : b ∈ word.head?) : b = c := by
  cases word with
  | nil => exact nomatch hb
  | cons b' word =>
    cases hb
    exact (List.cons_prefix_cons.1 (List.isPrefixOf_iff_prefix.1 h)).1

/-- A fixed spelling that a text does not begin with, where the first word of the
text is known, is not there in front of another text either. The spelling is a word
itself, or begins with a byte that no word has. -/
theorem startsWith_congr {w rest rest' word : Text} (hne : w ≠ [])
    (hw : ∀ b ∈ w, isWordByte b = true) (hd : Delimited rest')
    (hword : (∀ b ∈ word, isWordByte b = true) ∨ ∃ b ∈ word.head?, isWordByte b = false)
    (h : (w ++ rest).startsWith word = false) : (w ++ rest').startsWith word = false := by
  rw [Bool.eq_false_iff] at h ⊢
  intro hs
  have hprefix : word <+: w ++ rest' := List.isPrefixOf_iff_prefix.1 hs
  rcases hword with hall | ⟨b, hb, hfalse⟩
  · refine h (List.isPrefixOf_iff_prefix.2 (List.IsPrefix.trans ?_ (List.prefix_append w rest)))
    rcases List.prefix_or_prefix_of_prefix hprefix (List.prefix_append w rest') with hle | ⟨r, rfl⟩
    · exact hle
    · cases r with
      | nil => simp
      | cons b r =>
        obtain ⟨after, rfl⟩ := (List.prefix_append_right_inj w).1 hprefix
        exact Bool.noConfusion ((hd b rfl).symm.trans (hall b (by simp)))
  · cases w with
    | nil => exact hne rfl
    | cons c w =>
      rw [head?_of_startsWith hs hb, hw c (by simp)] at hfalse
      exact nomatch hfalse

/-- Digits at the end of a word make no fixed spelling of it, since those have none. -/
theorem startsWith_digits {w rest d word : Text} (hd : ∀ b ∈ d, isDigit b = true)
    (hword : ∀ b ∈ word, isDigit b = false) (h : (w ++ rest).startsWith word = false) :
    (w ++ d).startsWith word = false := by
  rw [Bool.eq_false_iff] at h ⊢
  intro hs
  have hprefix : word <+: w ++ d := List.isPrefixOf_iff_prefix.1 hs
  refine h (List.isPrefixOf_iff_prefix.2 (List.IsPrefix.trans ?_ (List.prefix_append w rest)))
  rcases List.prefix_or_prefix_of_prefix hprefix (List.prefix_append w d) with hle | ⟨r, rfl⟩
  · exact hle
  · cases r with
    | nil => simp
    | cons b r =>
      obtain ⟨after, rfl⟩ := (List.prefix_append_right_inj w).1 hprefix
      exact Bool.noConfusion ((hd b (by simp)).symm.trans (hword b (by simp)))

/-- The fixed spellings of tokens. -/
def fixedSpellings : List Text :=
  ["nil", "'()", "true", "#t", "false", "#f", ".", "'", "(", ")"]

/-- No fixed spelling of a kind is there. -/
theorem spelled_length?_eq_none_iff {words : List Text} {text : Text} :
    (Lexeme.spelled words).length? text = none ↔ ∀ word ∈ words, text.startsWith word = false := by
  rw [length?, Option.map_eq_none_iff, List.find?_eq_none]
  simp only [Bool.not_eq_true]

/-- **A symbol** is a word that goes no further, where no other token stands at its
beginning. -/
theorem here?_symbol_iff {b : UInt8} {w rest : Text} :
    standard.here? (b :: w ++ rest) = some (.symbol, (b :: w).length) ↔
      run? isWordByte (b :: w ++ rest) = some (b :: w).length ∧
      (∀ word ∈ fixedSpellings, Text.startsWith (b :: w ++ rest) word = false) ∧
      isDigit b = false ∧ (b = byte '"' → byte '"' ∉ w ++ rest) := by
  have hearlier : TokenKind.earlier .symbol =
      [.nil, .true, .false, .number, .string, .dot, .quote, .lparen, .rparen] := by decide
  rw [here?_standard_iff, hearlier]
  refine and_congr_right fun _ => ?_
  rw [List.cons_append, ← run?_eq_none_iff (p := isDigit) (t := w ++ rest),
    ← quoted_length?_eq_none_iff]
  -- the kinds before the symbol are those with fixed spellings, numbers and string literals
  simp only [List.forall_mem_cons, List.not_mem_nil, false_implies, implies_true, and_true,
    TokenKind.length?, Rule.standard, spelled_length?_eq_none_iff, fixedSpellings]
  constructor
  · rintro ⟨⟨hnil, hnil'⟩, ⟨htrue, htrue'⟩, ⟨hfalse, hfalse'⟩, hnumber, hstring, hmarks⟩
    exact ⟨⟨hnil, hnil', htrue, htrue', hfalse, hfalse', hmarks⟩, hnumber, hstring⟩
  · rintro ⟨⟨hnil, hnil', htrue, htrue', hfalse, hfalse', hmarks⟩, hnumber, hstring⟩
    exact ⟨⟨hnil, hnil'⟩, ⟨htrue, htrue'⟩, ⟨hfalse, hfalse'⟩, hnumber, hstring, hmarks⟩

/-- **A symbol stays a symbol** in front of a delimited text, which must not bring in a
quote if the symbol begins with one. -/
theorem here?_symbol_congr {w rest rest' : Text} (hne : w ≠ [])
    (h : standard.here? (w ++ rest) = some (.symbol, w.length)) (hd : Delimited rest')
    (hq : w.head? = some (byte '"') → byte '"' ∈ rest' → byte '"' ∈ rest) :
    standard.here? (w ++ rest') = some (.symbol, w.length) := by
  obtain ⟨b, w, rfl⟩ := List.exists_cons_of_ne_nil hne
  rw [here?_symbol_iff] at h ⊢
  obtain ⟨hrun, hfixed, hdigit, hquote⟩ := h
  have hw := run?_mem hrun
  refine ⟨run?_append hne hw hd, fun word hword => ?_, hdigit, fun hb => ?_⟩
  · have hform : ∀ word ∈ fixedSpellings,
        (∀ b ∈ word, isWordByte b = true) ∨ ∃ b ∈ word.head?, isWordByte b = false := by
      decide +kernel
    exact startsWith_congr hne hw hd (hform word hword) (hfixed word hword)
  · rw [List.mem_append] at hquote ⊢
    exact fun hmem => hquote hb (hmem.imp_right (hq (congrArg some hb)))

/-- **A symbol stays a symbol with digits behind it.** -/
theorem here?_symbol_digits {w rest d : Text} (hne : w ≠ [])
    (h : standard.here? (w ++ rest) = some (.symbol, w.length))
    (hd : ∀ b ∈ d, isDigit b = true) :
    standard.here? (w ++ d) = some (.symbol, (w ++ d).length) := by
  obtain ⟨b, w, rfl⟩ := List.exists_cons_of_ne_nil hne
  obtain ⟨hrun, hfixed, hdigit, hquote⟩ := here?_symbol_iff.1 h
  have hwords : ∀ c ∈ b :: (w ++ d), isWordByte c = true :=
    List.forall_mem_append.2 ⟨run?_mem hrun, fun c hc => isWordByte_of_isDigit (hd c hc)⟩
  have hsplit : b :: w ++ d = b :: (w ++ d) ++ [] := (List.append_nil _).symm
  have hiff := @here?_symbol_iff b (w ++ d) []
  rw [← hsplit] at hiff
  refine hiff.2 ⟨?_, fun word hword => ?_, hdigit, fun hb hmem => ?_⟩
  · rw [hsplit]
    exact run?_append (List.cons_ne_nil b _) hwords nofun
  · have hdigits : ∀ word ∈ fixedSpellings, ∀ b ∈ word, isDigit b = false := by decide +kernel
    exact startsWith_digits hd (hdigits word hword) (hfixed word hword)
  · rw [List.append_nil, List.mem_append] at hmem
    rcases hmem with hmem | hmem
    · exact hquote hb (List.mem_append_left _ hmem)
    · exact absurd (hd _ hmem) (by decide)

/-- A quote opens a string literal if the literal ends as it should. -/
theorem here?_string {content rest : Text}
    (h : closing? (content ++ byte '"' :: rest) = some (content.length + 1)) :
    standard.here? ((byte '"' :: content ++ [byte '"']) ++ rest)
      = some (.string, (byte '"' :: content ++ [byte '"']).length) := by
  rw [here?_standard_iff, List.append_assoc, List.cons_append, List.singleton_append]
  constructor
  · show (if byte '"' = byte '"' then _ else none) = _
    rw [if_pos rfl, h]
    simp
  · intro k hk
    have hearlier : TokenKind.earlier .string = [.nil, .true, .false, .number] := by decide
    rw [hearlier] at hk
    simp only [List.mem_cons, List.not_mem_nil, or_false] at hk
    rcases hk with rfl | rfl | rfl | rfl <;> rfl

/-- The bytes of a string literal. -/
theorem eq_quoted_of_here? {w rest : Text}
    (h : standard.here? (w ++ rest) = some (.string, w.length)) :
    ∃ content, w = byte '"' :: content ++ [byte '"'] ∧
      closing? (content ++ byte '"' :: rest) = some (content.length + 1) := by
  have hlen := (here?_standard_iff.1 h).1
  cases w with
  | nil => exact absurd (here?_standard_bounds h).1 (Nat.lt_irrefl 0)
  | cons b w =>
    rw [TokenKind.length?, Rule.standard, List.cons_append] at hlen
    obtain ⟨rfl, content, after, ht, hn, hclosing⟩ := quoted_length?_eq_some hlen
    have hsplit : w ++ rest = (content ++ [byte '"']) ++ after := by rw [ht]; simp
    obtain ⟨rfl, rfl⟩ := List.append_inj hsplit (by simp at hn ⊢; exact hn)
    exact ⟨content, rfl, by rw [← ht]; exact hclosing⟩

/-- **A string literal stays one** in front of a text that brings in no quote. -/
theorem here?_string_congr {w rest rest' : Text}
    (h : standard.here? (w ++ rest) = some (.string, w.length))
    (hq : byte '"' ∈ rest' → byte '"' ∈ rest) :
    standard.here? (w ++ rest') = some (.string, w.length) := by
  obtain ⟨content, rfl, hclosing⟩ := eq_quoted_of_here? h
  exact here?_string (closing?_congr hq content hclosing)

/-- Digits are a number in front of a delimited text. -/
theorem here?_number {w rest : Text} (hne : w ≠ []) (hw : ∀ b ∈ w, isDigit b = true)
    (hd : Delimited rest) : standard.here? (w ++ rest) = some (.number, w.length) := by
  rw [here?_standard_iff]
  constructor
  · refine run?_append hne hw fun b hb => ?_
    rw [Bool.eq_false_iff]
    exact fun h => Bool.eq_false_iff.1 (hd b hb) (isWordByte_of_isDigit h)
  · intro k hk
    have hearlier : TokenKind.earlier .number = [.nil, .true, .false] := by decide
    rw [hearlier] at hk
    simp only [List.mem_cons, List.not_mem_nil, or_false] at hk
    cases w with
    | nil => exact absurd rfl hne
    | cons b w =>
      have hspelled : ∀ words : List Text, (∀ word ∈ words, ∃ c ∈ word.head?, isDigit c = false) →
          (Lexeme.spelled words).length? (b :: w ++ rest) = none := by
        intro words hwords
        rw [length?, Option.map_eq_none_iff, List.find?_eq_none]
        intro word hmem hs
        obtain ⟨c, hc, hfalse⟩ := hwords word hmem
        rw [head?_of_startsWith hs hc, hw b (by simp)] at hfalse
        exact nomatch hfalse
      rcases hk with rfl | rfl | rfl <;> exact hspelled _ (by decide)

/-- **A symbol or a string literal stays what it is** in front of every delimited
text that has a quote only if `later` says so. -/
theorem Spelled.here? {k : TokenKind} {w rest : Text} {later : Prop} (h : Spelled k w later)
    (hk : k = .symbol ∨ k = .string) (hd : Delimited rest) (hq : byte '"' ∈ rest → later) :
    standard.here? (w ++ rest) = some (k, w.length) := by
  obtain ⟨hne, before, hbefore, hhere⟩ := h
  rcases hk with rfl | rfl
  · exact here?_symbol_congr hne hhere hd fun _ h => hbefore (hq h)
  · exact here?_string_congr hhere fun h => hbefore (hq h)

/-- No token of another kind begins with a blank. -/
theorem here?_blank {b : UInt8} (hb : isBlankByte b = true) (text : Text) :
    standard.here? (b :: text)
      = some (.whitespace, ((b :: text).takeWhile isBlankByte).length) := by
  rw [here?_standard_iff]
  refine ⟨run?_eq_some_iff.2 ⟨?_, rfl⟩, ?_⟩
  · rw [List.takeWhile_cons_of_pos hb]
    exact Nat.succ_pos _
  · intro k hk
    simp only [isBlankByte, Bool.or_eq_true, beq_iff_eq] at hb
    cases k with
    | whitespace => exact absurd hk (by decide)
    | other beyond => rfl
    | nil | true | false | number | string | dot | quote | lparen | rparen | symbol =>
      rcases hb with (((rfl | rfl) | rfl) | rfl) | rfl <;> rfl

/-- White space is passed over. -/
theorem scanFrom_blanks (pos : Nat) {b : UInt8} (hb : isBlankByte b = true) (text : Text) :
    standard.scanFrom pos 0 (b :: text)
      = standard.scanFrom (pos + ((b :: text).takeWhile isBlankByte).length) 0
        ((b :: text).dropWhile isBlankByte) := by
  have hhere := here?_blank hb text
  nth_rewrite 1 [← List.takeWhile_append_dropWhile (p := isBlankByte) (l := b :: text)] at hhere ⊢
  refine scanFrom_ignored ?_ hhere (by decide)
  rw [List.takeWhile_cons_of_pos hb]
  exact List.cons_ne_nil _ _

/-- **A blank is passed over**, also if it is only the first one of several. -/
theorem scanFrom_blank (pos : Nat) {b : UInt8} (hb : isBlankByte b = true) (text : Text) :
    standard.scanFrom pos 0 (b :: text) = standard.scanFrom (pos + 1) 0 text := by
  rw [scanFrom_blanks pos hb, List.takeWhile_cons_of_pos hb, List.dropWhile_cons_of_pos hb]
  cases text with
  | nil => rfl
  | cons c text =>
    by_cases hc : isBlankByte c = true
    · rw [scanFrom_blanks (pos + 1) hc, List.length_cons, Nat.add_assoc, Nat.add_comm 1]
    · rw [List.takeWhile_cons_of_neg hc, List.dropWhile_cons_of_neg hc]
      rfl

end Tokenizer

end PassingStyle
