import Mathlib.Data.List.Forall2
import PassingStyle.Proofs.Cuts
import PassingStyle.Proofs.NextLine

/-!
# What gaps do

A gap is no token, and what happens at it is up to the reader: a strict one stops at the first gap,
any other one reports it and goes on. Two things are shown here. What a lenient reader reports and
reads tells what the strict one does. And, with the usual rules, skipping the gaps of a text is the
same as overwriting them with spaces.

The second is no matter of course, since a token is judged with the text behind it, and that text
changes. The search for the closing quote of a string literal runs over the gaps that follow, and a
backslash on the way takes the next byte with it, whatever it is. What saves the tokens is that gaps
consist of *stray* bytes, with which no token begins and no word goes on, and that neither they nor
spaces are quotes, backslashes or ends of lines. So no rule but the one for white space tells a
stray byte from a space (`Tokenizer.Blanks.length?_eq`).
-/

namespace PassingStyle

open Text

/-- The token that an item is. -/
def Item.token? : Item → Option Token
  | .token t => some t
  | .gap _ => none

/-- The gap that an item is. -/
def Item.gap? : Item → Option Gap
  | .token _ => none
  | .gap g => some g

/-! ## Strict readers -/

/-- **The error of a strict reader** at a gap. -/
def SyntaxError.ofGap (g : Gap) : SyntaxError :=
  { fault := .gap g, span := g.span, text := g.text }

namespace Reading

/-- **What a strict reader makes of the rest of its input**, if a lenient one reports these gaps
and this result: the first gap is an error, and otherwise there is no difference. -/
def stopAtGap : List Gap × Except SyntaxError (List Sexp) →
    List Gap × Except SyntaxError (List Sexp)
  | ([], result) => ([], result)
  | (g :: _, _) => ([], .error (.ofGap g))

/-- A strict machine stops at the first gap that the lenient one reports. -/
theorem run_strict (items : List Item) (r : Reading) :
    run true items r = stopAtGap (run false items r) := by
  induction items generalizing r with
  | nil => rfl
  | cons item items ih =>
    cases item with
    | gap g => rfl
    | token t =>
      rw [run, run]
      cases r.step t with
      | error e => rfl
      | ok r => exact ih r

/-- **Without the gaps** every machine reads what the lenient one does. -/
theorem run_filterMap_token? (strict : Bool) (items : List Item) (r : Reading) :
    run strict ((items.filterMap Item.token?).map .token) r = ([], (run false items r).2) := by
  induction items generalizing r with
  | nil => rfl
  | cons item items ih =>
    cases item with
    | gap g => exact ih r
    | token t =>
      show run strict (.token t :: (items.filterMap Item.token?).map .token) r = _
      rw [run, run]
      cases r.step t with
      | error e => rfl
      | ok r => exact ih r

/-- The strict reading succeeds if the lenient one does without a gap. -/
theorem stopAtGap_eq_ok_iff {read : List Gap × Except SyntaxError (List Sexp)} {es : List Sexp} :
    (stopAtGap read).2 = .ok es ↔ read = ([], .ok es) := by
  obtain ⟨gaps, result⟩ := read
  cases gaps with
  | nil => simp [stopAtGap]
  | cons g gaps => simp [stopAtGap]

end Reading

/-- **Strict and lenient reading agree**, whichever way texts are cut into tokens and gaps.
The strict reader does what the lenient one does if that meets no gap, and fails at the first
gap that it reports otherwise. So it succeeds exactly if the lenient one succeeds without a
gap. -/
theorem Reader.readAll_strict (cut : Text → List Item) (text : Text) :
    readCut cut true text =
      (match readCut cut false text with
        | ([], result) => ([], result)
        | (g :: _, _) => ([], .error { fault := .gap g, span := g.span, text := g.text })) ∧
    ∀ es, (readCut cut true text).2 = .ok es ↔ readCut cut false text = ([], .ok es) := by
  have hstrict : readCut cut true text = Reading.stopAtGap (readCut cut false text) :=
    Reading.run_strict _ _
  refine ⟨?_, fun es => ?_⟩
  · rw [hstrict]
    rfl
  · rw [hstrict]
    exact Reading.stopAtGap_eq_ok_iff

/-! ## Overwriting gaps -/

/-- **The text with spaces in place of the gaps.** It stands at position `pos`. -/
def blanked (gaps : List Gap) (pos : Nat) (text : Text) : Text :=
  text.mapIdx fun i b => if gaps.any fun g => g.span.Contains (pos + i) then byte ' ' else b

section Blanked

variable {gaps gaps' : List Gap} {pos : Nat} {u w : Text}

@[simp] theorem length_blanked : (blanked gaps pos w).length = w.length :=
  List.length_mapIdx

/-- A byte of the overwritten text. -/
theorem getElem_blanked {i : Nat} (h : i < (blanked gaps pos w).length) (hw : i < w.length) :
    (blanked gaps pos w)[i] =
      if gaps.any fun g => g.span.Contains (pos + i) then byte ' ' else w[i] :=
  List.getElem_mapIdx

/-- A text is overwritten part by part. -/
theorem blanked_append :
    blanked gaps pos (u ++ w) = blanked gaps pos u ++ blanked gaps (pos + u.length) w := by
  rw [blanked, List.mapIdx_append]
  simp only [blanked, Nat.add_assoc, Nat.add_comm u.length]

/-- Gaps that stand elsewhere do not matter. -/
theorem blanked_congr
    (h : ∀ i, pos ≤ i → ((∃ g ∈ gaps, g.span.Contains i) ↔ ∃ g ∈ gaps', g.span.Contains i)) :
    blanked gaps pos w = blanked gaps' pos w := by
  refine List.ext_getElem (by simp) fun i hi hi' => ?_
  have hw : i < w.length := length_blanked ▸ hi
  have hany : (gaps.any fun g => g.span.Contains (pos + i)) =
      gaps'.any fun g => g.span.Contains (pos + i) := by
    rw [Bool.eq_iff_iff, List.any_eq_true, List.any_eq_true]
    simpa using h (pos + i) (Nat.le_add_right pos i)
  rw [getElem_blanked hi hw, getElem_blanked hi' hw, hany]

/-- What stands before all gaps stays as it is. -/
theorem blanked_before (h : ∀ g ∈ gaps, pos + u.length ≤ g.span.start) :
    blanked gaps pos u = u := by
  refine List.ext_getElem (by simp) fun i hi hi' => ?_
  have hnone : ¬ (gaps.any fun g => g.span.Contains (pos + i)) = true := by
    rw [List.any_eq_true]
    rintro ⟨g, hg, hi⟩
    have hstart : g.span.start ≤ pos + i := (of_decide_eq_true hi).1
    exact Nat.not_lt.2 ((h g hg).trans hstart) (Nat.add_lt_add_left hi' pos)
  rw [getElem_blanked hi hi', if_neg hnone]

/-- A gap becomes as many spaces as it has bytes. -/
theorem blanked_gap {g : Gap} (hg : g ∈ gaps) (h : g.span = ⟨pos, pos + u.length⟩) :
    blanked gaps pos u = List.replicate u.length (byte ' ') := by
  refine List.ext_getElem (by simp) fun i hi hi' => ?_
  have hlt : i < u.length := length_blanked ▸ hi
  have hany : (gaps.any fun g => g.span.Contains (pos + i)) = true := by
    refine List.any_eq_true.2 ⟨g, hg, decide_eq_true ?_⟩
    rw [h]
    exact ⟨Nat.le_add_right _ _, Nat.add_lt_add_left hlt pos⟩
  rw [getElem_blanked hi hlt, if_pos hany, List.getElem_replicate]

end Blanked

/-! ## Stray bytes and spaces -/

namespace Tokenizer

open Lexeme

/-- **A solid byte** is neither stray nor a space. -/
def isSolid (b : UInt8) : Bool :=
  !isStray b && b != byte ' '

/-- **A byte is kept, or a stray one becomes a space.** -/
def KeptOrBlanked (b b' : UInt8) : Prop :=
  b' = b ∨ isStray b = true ∧ b' = byte ' '

/-- **Some stray bytes become spaces**, and all other bytes are kept. -/
abbrev Blanks (w w' : Text) : Prop :=
  List.Forall₂ KeptOrBlanked w w'

namespace KeptOrBlanked

variable {b b' c : UInt8}

/-- A solid byte is there as often as before. -/
theorem eq_iff (h : KeptOrBlanked b b') (hc : isSolid c = true) : b' = c ↔ b = c := by
  rcases h with rfl | ⟨hstray, rfl⟩
  · rfl
  · refine iff_of_false ?_ ?_
    all_goals
      rintro rfl
      simp [isSolid, hstray] at hc

/-- A property that neither stray bytes nor spaces have is kept. -/
theorem congr {p : UInt8 → Bool} (h : KeptOrBlanked b b')
    (hstray : ∀ b, isStray b = true → p b = false) (hspace : p (byte ' ') = false) :
    p b' = p b := by
  rcases h with rfl | ⟨hb, rfl⟩
  · rfl
  · rw [hspace, hstray b hb]

end KeptOrBlanked

namespace Blanks

variable {w w' : Text}

protected theorem refl (w : Text) : Blanks w w :=
  List.forall₂_same.2 fun _ _ => .inl rfl

/-- All bytes of a gap become spaces. -/
theorem replicate (hw : ∀ b ∈ w, isStray b = true) :
    Blanks w (List.replicate w.length (byte ' ')) := by
  induction w with
  | nil => exact .nil
  | cons b w ih =>
    obtain ⟨hb, hw⟩ := List.forall_mem_cons.1 hw
    exact .cons (.inr ⟨hb, rfl⟩) (ih hw)

/-- There are as many quotes, at the same places. -/
theorem quote_mem_iff (h : Blanks w w') : byte '"' ∈ w' ↔ byte '"' ∈ w := by
  induction h with
  | nil => rfl
  | cons hb _ ih =>
    rw [List.mem_cons, List.mem_cons, ih, eq_comm, hb.eq_iff (by decide), eq_comm]

/-- Runs are as long. -/
theorem run?_eq {p : UInt8 → Bool} (h : Blanks w w')
    (hstray : ∀ b, isStray b = true → p b = false) (hspace : p (byte ' ') = false) :
    run? p w' = run? p w := by
  have hlength : (w'.takeWhile p).length = (w.takeWhile p).length := by
    induction h with
    | nil => rfl
    | cons hb _ ih =>
      rw [List.takeWhile_cons, List.takeWhile_cons, hb.congr hstray hspace]
      split
      · rw [List.length_cons, List.length_cons, ih]
      · rfl
  rw [run?, hlength, run?]

/-- A spelling of solid bytes is there or not. -/
theorem startsWith_eq {word : Text} (h : Blanks w w') (hword : word.all isSolid = true) :
    w'.startsWith word = w.startsWith word := by
  induction word generalizing w w' with
  | nil => rfl
  | cons c word ih =>
    rw [List.all_cons, Bool.and_eq_true] at hword
    obtain ⟨hc, hword⟩ := hword
    cases h with
    | nil => rfl
    | @cons b b' w w' hb h =>
      show (c == b' && Text.startsWith w' word) = (c == b && Text.startsWith w word)
      have heq : (c == b') = (c == b) := by
        rw [Bool.eq_iff_iff, beq_iff_eq, beq_iff_eq, eq_comm, hb.eq_iff hc, eq_comm]
      rw [heq, ih h hword]

/-- Of spellings of solid bytes, the same one is there. -/
theorem spelled_length?_eq {words : List Text} (h : Blanks w w')
    (hwords : ∀ word ∈ words, word.all isSolid = true) :
    (Lexeme.spelled words).length? w' = (Lexeme.spelled words).length? w := by
  induction words with
  | nil => rfl
  | cons word words ih =>
    obtain ⟨hword, hwords⟩ := List.forall_mem_cons.1 hwords
    have ih := ih hwords
    rw [length?, length?] at ih ⊢
    rw [List.find?_cons, List.find?_cons, h.startsWith_eq hword]
    split
    · rfl
    · exact ih

/-- **A string literal is closed at the same place**, since neither quotes nor backslashes nor
ends of lines are stray bytes. -/
theorem closing?_eq (h : Blanks w w') : closing? w' = closing? w := by
  fun_induction closing? w generalizing w' with
  | case1 =>
    cases h
    rfl
  | case2 rest =>
    cases h with
    | cons hb h => rw [(hb.eq_iff (by decide)).2 rfl, closing?_quote]
  | case3 hquote =>
    cases h with
    | cons hb h =>
      cases h
      rw [(hb.eq_iff (by decide)).2 rfl]
      rfl
  | case4 c after hc hquote ih =>
    cases h with
    | cons hb h =>
      cases h with
      | @cons _ c' _ after' hc' h =>
        have hkept : c' ≠ byte '\n' ∧ byte '"' ∈ after' :=
          ⟨mt (hc'.eq_iff (by decide)).1 hc.1, (quote_mem_iff h).2 hc.2⟩
        rw [(hb.eq_iff (by decide)).2 rfl, closing?, if_neg hquote, if_pos rfl, if_pos hkept, ih h]
  | case5 c after hc hquote ih =>
    cases h with
    | cons hb h =>
      have ih := ih h
      cases h with
      | @cons _ c' _ after' hc' h =>
        have hkept : ¬ (c' ≠ byte '\n' ∧ byte '"' ∈ after') := fun h' =>
          hc ⟨mt (hc'.eq_iff (by decide)).2 h'.1, (quote_mem_iff h).1 h'.2⟩
        rw [(hb.eq_iff (by decide)).2 rfl, closing?, if_neg hquote, if_pos rfl, if_neg hkept, ih]
  | case6 b rest hquote hbackslash ih =>
    cases h with
    | @cons _ b' _ rest' hb h =>
      have hquote' : b' ≠ byte '"' := mt (hb.eq_iff (by decide)).1 hquote
      have hbackslash' : b' ≠ byte '\\' := mt (hb.eq_iff (by decide)).1 hbackslash
      rw [closing?.eq_def]
      dsimp only
      rw [if_neg hquote', if_neg hbackslash', ih h]

/-- **No rule but the one for white space** tells a stray byte from a space. -/
theorem length?_eq {k : TokenKind} (hk : k ≠ .whitespace) (h : Blanks w w') :
    k.length? w' = k.length? w := by
  have hnoWord : ∀ b, isStray b = true → isWordByte b = false := by
    intro b hb
    simp only [isStray, Bool.not_eq_true', Bool.or_eq_false_iff] at hb
    exact hb.1.1.1.1
  cases k with
  | whitespace => exact absurd rfl hk
  | symbol => exact h.run?_eq hnoWord (by decide)
  | number =>
    refine h.run?_eq (fun b hb => Bool.eq_false_iff.2 fun hdigit => ?_) (by decide)
    exact Bool.noConfusion ((hnoWord b hb).symm.trans (isWordByte_of_isDigit hdigit))
  | string =>
    cases h with
    | nil => rfl
    | cons hb h =>
      show (if _ then _ else _) = if _ then _ else _
      rw [closing?_eq h]
      exact if_congr (hb.eq_iff (by decide)) rfl rfl
  | nil | true | false | dot | quote | lparen | rparen | other =>
    exact h.spelled_length?_eq (by decide)

/-- **A token that is not white space** stays a token. -/
theorem here?_eq {k : TokenKind} {n : Nat} (hk : k ≠ .whitespace) (h : Blanks w w')
    (hhere : standard.here? w = some (k, n)) : standard.here? w' = some (k, n) := by
  rw [here?_standard_iff] at hhere ⊢
  refine ⟨(h.length?_eq hk).trans hhere.1, fun k' hk' => ?_⟩
  have hwhite : k' ≠ .whitespace := by
    rintro rfl
    exact TokenKind.whitespace_not_mem_earlier hhere.1 hk'
  rw [h.length?_eq hwhite]
  exact hhere.2 k' hk'

end Blanks

/-! ## Scanning an overwritten text -/

namespace Scans

variable {pos : Nat} {u w rest rest' : Text} {items : List Item}

/-- Gaps stand where the text does. -/
theorem le_start (h : Scans pos w items rest) :
    ∀ g ∈ items.filterMap Item.gap?, pos ≤ g.span.start := by
  induction h with
  | nil => simp
  | blank _ _ ih => exact fun g hg => Nat.le_of_succ_le (ih g hg)
  | gap _ _ _ _ ih =>
    exact List.forall_mem_cons.2 ⟨Nat.le_refl _, fun g hg => Nat.le_of_add_right_le (ih g hg)⟩
  | token _ _ _ _ ih => exact fun g hg => Nat.le_of_add_right_le (ih g hg)

/-- **An overwritten text has the same tokens** in the same places, and no gaps. -/
theorem overwritten (h : Scans pos w items rest) (hrest : Blanks rest rest') :
    Blanks w (blanked (items.filterMap Item.gap?) pos w) ∧
      Scans pos (blanked (items.filterMap Item.gap?) pos w)
        ((items.filterMap Item.token?).map .token) rest' := by
  induction h with
  | nil pos => exact ⟨.nil, .nil pos rest'⟩
  | @blank pos b w _ items hb h ih =>
    have hkept : blanked (items.filterMap Item.gap?) pos [b] = [b] :=
      blanked_before h.le_start
    rw [← List.singleton_append, blanked_append, hkept]
    exact ⟨.cons (.inl rfl) (ih hrest).1, .blank hb (ih hrest).2⟩
  | @gap pos g w _ items hne hg _ h ih =>
    have hlater : blanked (⟨g, ⟨pos, pos + g.length⟩⟩ :: items.filterMap Item.gap?)
        (pos + g.length) w = blanked (items.filterMap Item.gap?) (pos + g.length) w :=
      blanked_congr fun i hi => by
        rw [List.exists_mem_cons_iff]
        exact or_iff_right fun hin => Nat.not_lt.2 hi hin.2
    show Blanks _ (blanked (_ :: items.filterMap Item.gap?) pos _) ∧
      Scans pos (blanked (_ :: items.filterMap Item.gap?) pos _) _ _
    have hspaces : ∀ b ∈ List.replicate g.length (byte ' '), isBlankByte b = true := fun b hb => by
      rw [List.eq_of_mem_replicate hb]
      decide
    rw [blanked_append, hlater, blanked_gap List.mem_cons_self rfl]
    refine ⟨List.rel_append (Blanks.replicate hg) (ih hrest).1, blanks hspaces ?_⟩
    rw [List.length_replicate]
    exact (ih hrest).2
  | @token pos u w _ k items hne hk hhere h ih =>
    have hkept : blanked (items.filterMap Item.gap?) pos u = u :=
      blanked_before h.le_start
    show Blanks _ (blanked (items.filterMap Item.gap?) pos _) ∧
      Scans pos (blanked (items.filterMap Item.gap?) pos _) (_ :: _) _
    rw [blanked_append, hkept]
    have hw := (ih hrest).1
    have hhere' := Blanks.here?_eq hk
      (List.rel_append (Blanks.refl u) (List.rel_append hw hrest)) hhere
    exact ⟨List.rel_append (Blanks.refl u) hw, .token hne hk hhere' (ih hrest).2⟩

end Scans

/-- **The text with all its gaps overwritten** by spaces. -/
def blankGaps (x : Text) : Text :=
  blanked ((standard.scan x).filterMap Item.gap?) 0 x

/-- A gap of two bytes; the same two bytes in a string literal are none. -/
example : blankGaps "(a\u00e9 \"\u00e9\")" = "(a   \"\u00e9\")" := by decide +kernel

/-- **Skipping gaps is the same as blanking them.** With its gaps overwritten by spaces, a text has
the tokens that it had before, in the same places, and no gap. So every reader with the usual rules
reads in it what the lenient one read before, or meets the same error. -/
theorem scan_blankGaps (x : Text) :
    standard.scan (blankGaps x) = ((standard.scan x).filterMap Item.token?).map .token ∧
    ∀ strict, Reader.readAll ⟨standard, strict⟩ (blankGaps x)
      = ([], (Reader.readAll ⟨standard, false⟩ x).2) := by
  have hscan : standard.scan (blankGaps x) =
      ((standard.scan x).filterMap Item.token?).map .token := by
    have h := ((Scans.scan x).overwritten .nil).2.scanFrom_eq
    rw [List.append_nil, scanFrom, List.append_nil] at h
    exact h
  refine ⟨hscan, fun strict => ?_⟩
  show Reading.run strict (standard.scan (blankGaps x)) .start = _
  rw [hscan]
  exact Reading.run_filterMap_token? strict _ _

end Tokenizer

end PassingStyle
