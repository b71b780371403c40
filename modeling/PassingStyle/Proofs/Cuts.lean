import Mathlib.Data.List.Pairwise
import PassingStyle.Proofs.Scanning

/-!
# Scanning loses nothing

A scan walks through a text in steps of different lengths: over a match, over the bytes before
the next match, or over all bytes up to one where a rule matches nothing. Matches of ignored
kinds leave no trace in the result. Whatever the rules are, the steps follow one another without
overlap and without a hole, and end at the end of the text.

To see that, the two things that a scan does are taken apart. A *cut* divides the whole text into
matches and gaps, each judged with the text behind it, and no rule can be ignored in it. There is
exactly one cut of a text (`cuts_iff`). The scan is the cut without the matches of ignored kinds
(`scan_eq_filter`). What is said about positions, bytes and gaps is then read off a single piece
of the cut, and needs no further look at the way in which the scan moves.
-/

namespace PassingStyle

open Text

/-! ## Positions -/

namespace Span

/-- **The span contains a position.** -/
def Contains (s : Span) (i : Nat) : Prop :=
  s.start ≤ i ∧ i < s.stop

instance (s : Span) (i : Nat) : Decidable (s.Contains i) :=
  inferInstanceAs (Decidable (s.start ≤ i ∧ i < s.stop))

/-- The bytes of a text that the span covers. -/
def slice (s : Span) (text : Text) : Text :=
  (text.take s.stop).drop s.start

end Span

namespace Tokenizer

variable {t : Tokenizer} {pos : Nat} {u w rest text : Text} {k : TokenKind} {items : List Item}

/-- No match reaches beyond the end of the text. -/
theorem here?_le {n : Nat} (h : t.here? text = some (k, n)) : n ≤ text.length := by
  obtain ⟨r, _, hr⟩ := List.exists_of_findSome?_eq_some h
  obtain ⟨m, hm, heq⟩ := Option.map_eq_some_iff.1 hr
  cases heq
  exact Lexeme.length?_le hm

/-- There is no match where no rule matches. -/
theorem here?_eq_none {text : Text} :
    t.here? text = none ↔ ∀ r ∈ t.rules, r.lexeme.length? text = none := by
  rw [here?, List.findSome?_eq_none_iff]
  simp only [Option.map_eq_none_iff]

/-! ## Searching -/

/-- **No rule matches inside of `u`**, when `rest` comes behind it. -/
def Passes (t : Tokenizer) (u rest : Text) : Prop :=
  ∀ v, v ≠ [] → v <:+ u → t.here? (v ++ rest) = none

theorem passes_nil : t.Passes [] rest :=
  fun _ hne hv => absurd (List.suffix_nil.1 hv) hne

theorem passes_cons {b : UInt8} :
    t.Passes (b :: u) rest ↔ t.here? (b :: u ++ rest) = none ∧ t.Passes u rest := by
  constructor
  · intro h
    exact ⟨h _ (List.cons_ne_nil b u) (List.suffix_refl _), fun v hne hv =>
      h v hne (hv.trans (List.suffix_cons b u))⟩
  · rintro ⟨hhere, h⟩ v hne hv
    rcases List.suffix_cons_iff.1 hv with rfl | hv
    · exact hhere
    · exact h v hne hv

/-- A search finds what comes behind bytes where no rule matches. -/
theorem search?_of_passes {n : Nat} (hu : t.Passes u rest) (hne : rest ≠ [])
    (hhere : t.here? rest = some (k, n)) : t.search? (u ++ rest) = some ⟨u.length, k, n⟩ := by
  induction u with
  | nil => exact search?_of_here? hne hhere
  | cons b u ih =>
    obtain ⟨hb, hu⟩ := passes_cons.1 hu
    rw [List.cons_append] at hb ⊢
    rw [search?, hb, ih hu]
    rfl

/-- A search finds nothing where no rule matches. -/
theorem search?_eq_none_iff : t.search? text = none ↔ t.Passes text [] := by
  induction text with
  | nil => exact ⟨fun _ => passes_nil, fun _ => rfl⟩
  | cons b text ih =>
    rw [passes_cons, List.append_nil, ← ih, search?]
    cases t.here? (b :: text) with
    | none => simp
    | some found => simp

/-- **What a search finds** comes behind bytes where no rule matches. -/
theorem passes_of_search? {f : Found} (h : t.search? text = some f) :
    ∃ u rest, text = u ++ rest ∧ u.length = f.skipped ∧ rest ≠ [] ∧ t.Passes u rest ∧
      t.here? rest = some (f.kind, f.length) := by
  induction text generalizing f with
  | nil => exact nomatch h
  | cons b text ih =>
    rw [search?] at h
    cases hb : t.here? (b :: text) with
    | some found =>
      rw [hb] at h
      cases h
      exact ⟨[], b :: text, rfl, rfl, List.cons_ne_nil _ _, passes_nil, hb⟩
    | none =>
      rw [hb] at h
      obtain ⟨g, hg, rfl⟩ := Option.map_eq_some_iff.1 h
      obtain ⟨u, rest, rfl, hlength, hne, hu, hhere⟩ := ih hg
      exact ⟨b :: u, rest, rfl, by rw [List.length_cons, hlength], hne, passes_cons.2 ⟨hb, hu⟩,
        hhere⟩

/-! ## Steps over gaps -/

/-- A gap at the end of the text. -/
theorem scanFrom_last (hne : text ≠ []) (h : t.Passes text []) :
    t.scanFrom pos 0 text = [.gap ⟨text, ⟨pos, pos + text.length⟩⟩] := by
  obtain ⟨b, text, rfl⟩ := List.exists_cons_of_ne_nil hne
  rw [scanFrom, search?_eq_none_iff.2 h]
  simp [gapItems]

/-- A gap before a match. -/
theorem scanFrom_gap {n : Nat} (hne : u ≠ []) (hu : t.Passes u rest) (hrest : rest ≠ [])
    (hn : 0 < n) (hhere : t.here? rest = some (k, n)) :
    t.scanFrom pos 0 (u ++ rest) =
      .gap ⟨u, ⟨pos, pos + u.length⟩⟩ :: t.scanFrom (pos + u.length) 0 rest := by
  have hlength : u.length ≠ 0 := mt List.eq_nil_of_length_eq_zero hne
  rw [scanFrom_of_search? (search?_of_passes hu hrest hhere) hn,
    scanFrom_of_search? (search?_of_here? hrest hhere) hn]
  simp [gapItems, tokenItems, hlength]

/-- A gap up to a byte where a rule matches nothing. -/
theorem scanFrom_stuck {b : UInt8} (hu : t.Passes u (b :: rest))
    (hhere : t.here? (b :: rest) = some (k, 0)) :
    t.scanFrom pos 0 (u ++ b :: rest) =
      .gap ⟨u ++ [b], ⟨pos, pos + (u ++ [b]).length⟩⟩ ::
        t.scanFrom (pos + (u ++ [b]).length) 0 rest := by
  have hsearch := search?_of_passes hu (List.cons_ne_nil b rest) hhere
  have hsplit : u ++ b :: rest = (u ++ [b]) ++ rest := by simp
  obtain ⟨c, tail, htail⟩ : ∃ c tail, u ++ b :: rest = c :: tail := by
    cases u with
    | nil => exact ⟨b, rest, rfl⟩
    | cons c u => exact ⟨c, u ++ b :: rest, rfl⟩
  have htake : (c :: tail).take (u.length + 1) = u ++ [b] := by
    rw [← htail, hsplit]
    exact List.take_left' (by simp)
  have hdrop : tail.drop u.length = rest := by
    rw [← List.drop_succ_cons (a := c), ← htail, hsplit]
    exact List.drop_left' (by simp)
  rw [htail] at hsearch ⊢
  rw [scanFrom, hsearch]
  dsimp only
  rw [scanFrom_covered, hdrop, gapItems, if_neg (Nat.succ_ne_zero _), htake]
  simp [Nat.add_assoc, Nat.add_comm 1]

/-! ## Cuts -/

/-- **The rules explain an item** in front of a text: a token is a match, and a gap goes up to
the next one, or up to a byte where a rule matches nothing. -/
def Explains (t : Tokenizer) (rest : Text) : Item → Prop
  | .token m => t.here? (m.text ++ rest) = some (m.kind, m.text.length)
  | .gap g =>
    (t.Passes g.text rest ∧ (rest = [] ∨ ∃ k n, 0 < n ∧ t.here? rest = some (k, n))) ∨
      ∃ u b k, g.text = u ++ [b] ∧ t.Passes u (b :: rest) ∧ t.here? (b :: rest) = some (k, 0)

/-- **A cut of a text** that stands at position `pos` into items, none of which is left out. -/
inductive Cuts (t : Tokenizer) : Nat → Text → List Item → Prop
  /-- Nothing is left to be cut. -/
  | nil (pos : Nat) : Cuts t pos [] []
  /-- The first item, and a cut of the rest. -/
  | cons {pos : Nat} {item : Item} {rest : Text} {items : List Item} (hne : item.text ≠ [])
      (hspan : item.span = ⟨pos, pos + item.text.length⟩) (h : t.Explains rest item) :
      Cuts t (pos + item.text.length) rest items →
      Cuts t pos (item.text ++ rest) (item :: items)

/-- The tokenizer reports an item: it is a gap, or a token of a kind that is not ignored. -/
def reports (t : Tokenizer) : Item → Bool
  | .token m => m.kind ∉ t.ignored
  | .gap _ => true

/-- **The tokenizer with the same rules that ignores nothing.** -/
def full (t : Tokenizer) : Tokenizer :=
  { t with ignored := [] }

/-- Without ignored kinds every item is reported. -/
theorem full_reports (t : Tokenizer) (item : Item) : t.full.reports item = true := by
  cases item with
  | token m => simp [full, reports]
  | gap g => rfl

/-- **The scan of a text is its cut** without the tokens of ignored kinds. -/
theorem Cuts.scanFrom_eq (h : t.Cuts pos text items) :
    t.scanFrom pos 0 text = items.filter t.reports := by
  induction h with
  | nil => rfl
  | @cons pos item rest items hne hspan h _ ih =>
    cases item with
    | token m =>
      obtain ⟨kind, w, span⟩ := m
      obtain rfl : span = ⟨pos, pos + w.length⟩ := hspan
      rw [scanFrom_of_here? hne h, ih, List.filter_cons]
      by_cases hk : kind ∈ t.ignored <;> simp [reports, hk, Item.text]
    | gap g =>
      obtain ⟨w, span⟩ := g
      obtain rfl : span = ⟨pos, pos + w.length⟩ := hspan
      rw [List.filter_cons_of_pos rfl, ← ih]
      rcases h with ⟨hpasses, rfl | ⟨k, n, hn, hhere⟩⟩ | ⟨u, b, k, hw, hpasses, hhere⟩
      · rw [List.append_nil, scanFrom_last hne hpasses]
        rfl
      · have hrest : rest ≠ [] := by
          rintro rfl
          exact absurd (here?_le hhere) (Nat.not_le.2 hn)
        exact scanFrom_gap hne hpasses hrest hn hhere
      · obtain rfl : w = u ++ [b] := hw
        rw [show (Item.gap ⟨u ++ [b], _⟩).text ++ rest = u ++ b :: rest from
          List.append_assoc u [b] rest, scanFrom_stuck hpasses hhere]
        rfl

/-- A match at the beginning of a text is cut off. -/
theorem exists_token {n : Nat} (hn : 0 < n) (hhere : t.here? text = some (k, n))
    (h : ∃ items, t.Cuts (pos + n) (text.drop n) items) : ∃ items, t.Cuts pos text items := by
  obtain ⟨items, h⟩ := h
  have hlength : (text.take n).length = n := List.length_take_of_le (here?_le hhere)
  have hcuts := @Cuts.cons t pos (.token ⟨k, text.take n, ⟨pos, pos + (text.take n).length⟩⟩)
    (text.drop n) items (List.ne_nil_of_length_pos (hlength.symm ▸ hn)) rfl
    (show t.here? (text.take n ++ text.drop n) = some (k, (text.take n).length) by
      rw [List.take_append_drop, hlength]
      exact hhere)
    (show t.Cuts (pos + (text.take n).length) _ _ from hlength.symm ▸ h)
  have hsplit : text.take n ++ text.drop n = text := List.take_append_drop n text
  exact ⟨_, hsplit ▸ hcuts⟩

/-- **Every text has a cut.** -/
theorem exists_cuts (t : Tokenizer) (pos : Nat) (text : Text) : ∃ items, t.Cuts pos text items := by
  -- the induction is on the length of the text, since an item may cover any part of it
  induction hn : text.length using Nat.strongRecOn generalizing pos text with
  | _ n ih =>
    subst hn
    by_cases hne : text = []
    · subst hne
      exact ⟨[], .nil pos⟩
    cases hsearch : t.search? text with
    | none =>
      have hcuts := @Cuts.cons t pos (.gap ⟨text, ⟨pos, pos + text.length⟩⟩) [] [] hne rfl
        (Or.inl ⟨search?_eq_none_iff.1 hsearch, Or.inl rfl⟩) (.nil _)
      exact ⟨_, List.append_nil text ▸ hcuts⟩
    | some f =>
      obtain ⟨u, rest, rfl, hskipped, hrest, hpasses, hhere⟩ := passes_of_search? hsearch
      rcases Nat.eq_zero_or_pos f.length with hzero | hpos
      · obtain ⟨b, rest, rfl⟩ := List.exists_cons_of_ne_nil hrest
        rw [hzero] at hhere
        obtain ⟨items, h⟩ := ih rest.length (by simp; omega) (pos + (u ++ [b]).length) rest rfl
        have hcuts := @Cuts.cons t pos (.gap ⟨u ++ [b], ⟨pos, pos + (u ++ [b]).length⟩⟩) rest items
          (by simp [Item.text]) rfl (Or.inr ⟨u, b, f.kind, rfl, hpasses, hhere⟩) h
        have hsplit : (u ++ [b]) ++ rest = u ++ b :: rest := by simp
        exact ⟨_, hsplit ▸ hcuts⟩
      · have htoken : ∀ pos, ∃ items, t.Cuts pos rest items := fun pos =>
          exists_token hpos hhere (ih _ (by
            have := List.length_pos_iff.2 hrest
            rw [List.length_drop, List.length_append]
            omega) _ _ rfl)
        by_cases hu : u = []
        · subst hu
          exact htoken pos
        · obtain ⟨items, h⟩ := htoken (pos + u.length)
          exact ⟨_, @Cuts.cons t pos (.gap ⟨u, ⟨pos, pos + u.length⟩⟩) rest items hu rfl
            (Or.inl ⟨hpasses, Or.inr ⟨f.kind, f.length, hpos, hhere⟩⟩) h⟩

/-- **There is exactly one cut**: the scan that ignores nothing. -/
theorem cuts_iff : t.Cuts pos text items ↔ items = t.full.scanFrom pos 0 text := by
  have hfull : ∀ items, t.Cuts pos text items → t.full.scanFrom pos 0 text = items := by
    intro items h
    have hcuts : t.full.Cuts pos text items := by
      induction h with
      | nil pos => exact .nil pos
      | cons hne hspan h _ ih => exact .cons hne hspan h ih
    rw [hcuts.scanFrom_eq, List.filter_eq_self]
    exact fun item _ => t.full_reports item
  constructor
  · exact fun h => (hfull items h).symm
  · rintro rfl
    obtain ⟨items, h⟩ := t.exists_cuts pos text
    rw [hfull items h]
    exact h

/-- **The scan leaves out the tokens of ignored kinds**, and nothing else. -/
theorem scan_eq_filter (t : Tokenizer) (text : Text) :
    t.scan text = (t.full.scan text).filter t.reports :=
  Cuts.scanFrom_eq (cuts_iff.2 rfl)

/-! ## Pieces of a cut -/

namespace Cuts

variable {item item' : Item} {i : Nat}

/-- **Where a piece stands**, and what comes before it and behind it. -/
theorem split (h : t.Cuts pos w items) (hmem : item ∈ items) :
    ∃ u rest, w = u ++ (item.text ++ rest) ∧
      item.span = ⟨pos + u.length, pos + u.length + item.text.length⟩ ∧ item.text ≠ [] ∧
      t.Explains rest item := by
  induction h with
  | nil => exact nomatch hmem
  | @cons pos first rest items hne hspan h _ ih =>
    rcases List.mem_cons.1 hmem with rfl | hmem
    · exact ⟨[], rest, rfl, hspan, hne, h⟩
    · obtain ⟨u, rest, rfl, hspan, hne, h⟩ := ih hmem
      refine ⟨first.text ++ u, rest, (List.append_assoc _ _ _).symm, ?_, hne, h⟩
      rw [hspan, List.length_append, Nat.add_assoc pos]

/-- The pieces make up the text. -/
theorem flatMap_text (h : t.Cuts pos w items) : items.flatMap Item.text = w := by
  induction h with
  | nil => rfl
  | cons _ _ _ _ ih => rw [List.flatMap_cons, ih]

/-- There are no more pieces than bytes. -/
theorem length_le (h : t.Cuts pos w items) : items.length ≤ w.length := by
  induction h with
  | nil => exact Nat.le_refl 0
  | cons hne _ _ _ ih =>
    have := List.length_pos_iff.2 hne
    rw [List.length_cons, List.length_append]
    omega

/-- **The pieces stand one behind the other.** -/
theorem pairwise (h : t.Cuts pos w items) :
    items.Pairwise fun a b => a.span.stop ≤ b.span.start := by
  induction h with
  | nil => exact .nil
  | cons hne hspan _ hrest ih =>
    refine .cons (fun item hmem => ?_) ih
    obtain ⟨u, _, _, hitem, _, _⟩ := hrest.split hmem
    rw [hspan, hitem]
    exact Nat.le_add_right _ _

/-- **Every position lies in a piece.** -/
theorem exists_contains (h : t.Cuts pos w items) (hle : pos ≤ i) (hlt : i < pos + w.length) :
    ∃ item ∈ items, item.span.Contains i := by
  induction h with
  | nil pos => exact absurd hle (Nat.not_le.2 hlt)
  | @cons pos first rest items hne hspan h _ ih =>
    rcases Nat.lt_or_ge i (pos + first.text.length) with hin | hout
    · exact ⟨first, List.mem_cons_self, hspan ▸ ⟨hle, hin⟩⟩
    · rw [List.length_append, ← Nat.add_assoc] at hlt
      obtain ⟨item, hmem, hi⟩ := ih hout hlt
      exact ⟨item, List.mem_cons_of_mem _ hmem, hi⟩

/-- **No position lies in two pieces.** -/
theorem eq_of_contains (h : t.Cuts pos w items) (hmem : item ∈ items) (hmem' : item' ∈ items)
    (hi : item.span.Contains i) (hi' : item'.span.Contains i) : item = item' := by
  have hsymm : Std.Symm fun a b : Item =>
      a.span.stop ≤ b.span.start ∨ b.span.stop ≤ a.span.start := ⟨fun _ _ => Or.symm⟩
  have hapart : items.Pairwise fun a b =>
      a.span.stop ≤ b.span.start ∨ b.span.stop ≤ a.span.start := h.pairwise.imp Or.inl
  by_contra hne
  have := hapart.forall hmem hmem' hne
  unfold Span.Contains at hi hi'
  omega

end Cuts

/-! ## What a scan says about the text -/

/-- **The scan accounts for a text**: every byte is reported once and where it stands, unless it
belongs to a match of an ignored kind. -/
structure Accounts (t : Tokenizer) (text : Text) : Prop where
  /-- There are no more items than bytes. -/
  length_le : (t.scan text).length ≤ text.length
  /-- An item stands somewhere in the text, and is not empty. -/
  inside : ∀ item ∈ t.scan text, item.span.start < item.span.stop ∧ item.span.stop ≤ text.length
  /-- It has the bytes of its span. -/
  bytes : ∀ item ∈ t.scan text, item.text = item.span.slice text
  /-- The items stand one behind the other. -/
  ordered : (t.scan text).Pairwise fun a b => a.span.stop ≤ b.span.start
  /-- A token is what the rules match where it stands, also if its kind is ignored. -/
  isMatch : ∀ m, .token m ∈ t.full.scan text →
    t.here? (text.drop m.span.start) = some (m.kind, m.span.stop - m.span.start)
  /-- Items leave out the matches of ignored kinds, and nothing else. -/
  uncovered : ∀ i < text.length, (∀ item ∈ t.scan text, ¬ item.span.Contains i) ↔
    ∃ m, .token m ∈ t.full.scan text ∧ m.kind ∈ t.ignored ∧ m.span.Contains i
  /-- Without ignored kinds, the items make up the text. -/
  lossless : t.ignored = [] → (t.scan text).flatMap Item.text = text

/-- **The gaps of a text are tight**: they are as long as they can be and hide nothing. -/
structure TightGaps (t : Tokenizer) (text : Text) : Prop where
  /-- No rule matches inside of a gap. -/
  silent : ∀ g, .gap g ∈ t.scan text → ∀ i, g.span.Contains i →
    ∀ r ∈ t.rules, r.lexeme.length? (text.drop i) = none
  /-- No gap begins where another one ends. -/
  apart : ∀ g g', .gap g ∈ t.scan text → .gap g' ∈ t.scan text → g.span.stop ≠ g'.span.start

/-- The scan that ignores nothing is a cut. -/
theorem cuts_scan (t : Tokenizer) (text : Text) : t.Cuts 0 text (t.full.scan text) :=
  cuts_iff.2 rfl

/-- The items of a scan are pieces of the cut. -/
theorem mem_scan {item : Item} :
    item ∈ t.scan text ↔ item ∈ t.full.scan text ∧ t.reports item = true := by
  rw [scan_eq_filter, List.mem_filter]

/-- **Every scan accounts for its text**, whatever the rules are. -/
theorem accounts (t : Tokenizer) (text : Text) : t.Accounts text where
  length_le := by
    rw [scan_eq_filter]
    exact Nat.le_trans (List.length_filter_le _ _) (t.cuts_scan text).length_le
  inside item hmem := by
    obtain ⟨u, rest, htext, hspan, hne, -⟩ := (t.cuts_scan text).split (mem_scan.1 hmem).1
    have := List.length_pos_iff.2 hne
    rw [hspan, htext]
    simp
    omega
  bytes item hmem := by
    obtain ⟨u, rest, htext, hspan, -, -⟩ := (t.cuts_scan text).split (mem_scan.1 hmem).1
    rw [hspan, htext, Span.slice]
    simp [List.take_append]
  ordered := by
    rw [scan_eq_filter]
    exact (t.cuts_scan text).pairwise.filter _
  isMatch m hmem := by
    obtain ⟨u, rest, htext, hspan, -, h⟩ := (t.cuts_scan text).split hmem
    obtain ⟨kind, w, span⟩ := m
    obtain rfl : span = ⟨0 + u.length, 0 + u.length + w.length⟩ := hspan
    rw [htext, Nat.zero_add, List.drop_left, Nat.add_sub_cancel_left]
    exact h
  uncovered i hi := by
    constructor
    · intro hnone
      obtain ⟨item, hmem, hitem⟩ := (t.cuts_scan text).exists_contains (Nat.zero_le i) (by simpa)
      have hskipped : ¬ t.reports item = true := fun h => hnone item (mem_scan.2 ⟨hmem, h⟩) hitem
      cases item with
      | token m => exact ⟨m, hmem, by simpa [reports] using hskipped, hitem⟩
      | gap g => exact absurd rfl hskipped
    · rintro ⟨m, hmem, hkind, hm⟩ item hitem hi
      obtain ⟨hitem, hreports⟩ := mem_scan.1 hitem
      obtain rfl := (t.cuts_scan text).eq_of_contains hmem hitem hm hi
      exact absurd hkind (of_decide_eq_true hreports)
  lossless hnil := by
    have hfull : t.full = t := by rw [full, ← hnil]
    rw [← hfull]
    exact (t.cuts_scan text).flatMap_text

/-- Proper rules match nothing empty. -/
theorem here?_pos {n : Nat} (hproper : ∀ r ∈ t.rules, r.lexeme.isProper = true)
    (h : t.here? text = some (k, n)) : 0 < n := by
  obtain ⟨r, hr, hmatch⟩ := List.exists_of_findSome?_eq_some h
  obtain ⟨m, hm, heq⟩ := Option.map_eq_some_iff.1 hmatch
  cases heq
  exact Lexeme.length?_pos (hproper r hr) hm

/-- **The gaps of proper rules** have no match in them, and end where the text does or where a
match begins. -/
theorem exists_of_gap {g : Gap} (hproper : ∀ r ∈ t.rules, r.lexeme.isProper = true)
    (hmem : .gap g ∈ t.scan text) :
    ∃ u rest, text = u ++ (g.text ++ rest) ∧
      g.span = ⟨u.length, u.length + g.text.length⟩ ∧ t.Passes g.text rest ∧
      (rest = [] ∨ t.here? rest ≠ none) := by
  obtain ⟨u, rest, htext, hspan, -, h⟩ := (t.cuts_scan text).split (mem_scan.1 hmem).1
  rw [Nat.zero_add] at hspan
  rcases h with ⟨hpasses, hrest⟩ | ⟨_, b, k, _, _, hempty⟩
  · refine ⟨u, rest, htext, hspan, hpasses, hrest.imp_right ?_⟩
    rintro ⟨k, n, _, hhere⟩ hnone
    exact nomatch hnone.symm.trans hhere
  · exact absurd (here?_pos hproper hempty) (Nat.lt_irrefl 0)

/-- No rule matches at a position of a gap. -/
theorem here?_of_gap {g : Gap} {i : Nat} (hproper : ∀ r ∈ t.rules, r.lexeme.isProper = true)
    (hmem : .gap g ∈ t.scan text) (hi : g.span.Contains i) : t.here? (text.drop i) = none := by
  obtain ⟨u, rest, htext, hspan, hpasses, -⟩ := exists_of_gap hproper hmem
  rw [hspan] at hi
  obtain ⟨j, rfl⟩ := Nat.exists_eq_add_of_le hi.1
  have hj : j < g.text.length := Nat.lt_of_add_lt_add_left hi.2
  have hdrop : text.drop (u.length + j) = g.text.drop j ++ rest := by
    rw [htext, ← List.drop_drop, List.drop_left, List.drop_append_of_le_length (Nat.le_of_lt hj)]
  rw [hdrop]
  exact hpasses _ (List.drop_eq_nil_iff.not.2 (Nat.not_le.2 hj)) (List.drop_suffix j _)

/-- **The gaps of proper rules are tight.** -/
theorem tightGaps (hproper : ∀ r ∈ t.rules, r.lexeme.isProper = true) (text : Text) :
    t.TightGaps text where
  silent g hmem i hi := here?_eq_none.1 (here?_of_gap hproper hmem hi)
  apart g g' hmem hmem' heq := by
    obtain ⟨hlt, hle⟩ := (t.accounts text).inside _ hmem'
    obtain ⟨u, rest, htext, hspan, -, hend⟩ := exists_of_gap hproper hmem
    have hstop : g.span.stop = (u ++ g.text).length := by
      rw [hspan, List.length_append]
    have hrest : text.drop g'.span.start = rest := by
      rw [← heq, hstop, htext, ← List.append_assoc, List.drop_left]
    -- the second gap begins with `rest`, where the first one saw a match
    have hnone := here?_of_gap hproper hmem' ⟨Nat.le_refl _, hlt⟩
    rw [hrest] at hnone
    rcases hend with rfl | hsome
    · have hlast : text.length = g.span.stop := by
        rw [hstop, htext, List.append_nil]
      exact absurd (Nat.lt_of_lt_of_le hlt hle) (by
        show ¬ g'.span.start < text.length
        omega)
    · exact hsome hnone

/-- Usual rules are proper, and well formed. -/
theorem isProper_of_mem_allStandard : ∀ r ∈ Rule.allStandard,
    r.lexeme.isProper = true ∧ (r.lexeme == .illFormed) = false := by
  decide

/-- **Scanning loses nothing.** For any non-empty list of usual rules, in any order and with or
without rules that also match nothing, there is a tokenizer, and it accounts for every text. If
all rules are usual ones, its gaps are tight. -/
theorem scan_lossless {rules : List Rule} (hne : rules ≠ [])
    (hrules : ∀ r ∈ rules, r ∈ Rule.allStandard ∨ r.lexeme = .optionalDigits)
    (ignored : List TokenKind) (text : Text) :
    ofRules rules ignored = .ok ⟨rules, ignored⟩ ∧ Accounts ⟨rules, ignored⟩ text ∧
      ((∀ r ∈ rules, r.lexeme ≠ .optionalDigits) → TightGaps ⟨rules, ignored⟩ text) := by
  refine ⟨?_, accounts _ text, fun hproper => tightGaps (fun r hr => ?_) text⟩
  · have hformed : rules.find? (fun r => r.lexeme == .illFormed) = none := by
      rw [List.find?_eq_none]
      intro r hr
      rcases hrules r hr with hstandard | hoptional
      · simp [(isProper_of_mem_allStandard r hstandard).2]
      · simp [hoptional]
    have hsome : rules.isEmpty = false := by simpa using hne
    rw [ofRules, hsome, hformed]
    rfl
  · exact (isProper_of_mem_allStandard r ((hrules r hr).resolve_right (hproper r hr))).1

/-- A blank is left out between two gaps, and a rule that matches nothing makes a byte a gap. -/
theorem scan_lossless_blank :
    Accounts ⟨[Rule.standard .whitespace, Rule.optionalNumber], [.whitespace]⟩ "7 ab" ∧
    TightGaps ⟨[Rule.standard .whitespace, Rule.standard .number], [.whitespace]⟩ "a b7" ∧
    scan ⟨[Rule.standard .whitespace, Rule.optionalNumber], [.whitespace]⟩ "7 ab"
      = [.token ⟨.number, "7", ⟨0, 1⟩⟩, .gap ⟨"a", ⟨2, 3⟩⟩, .gap ⟨"b", ⟨3, 4⟩⟩] ∧
    scan ⟨[Rule.standard .whitespace, Rule.standard .number], [.whitespace]⟩ "a b7"
      = [.gap ⟨"a", ⟨0, 1⟩⟩, .gap ⟨"b", ⟨2, 3⟩⟩, .token ⟨.number, "7", ⟨3, 4⟩⟩] := by
  refine ⟨?_, ?_, by decide +kernel, by decide +kernel⟩
  · exact (scan_lossless (by decide) (by decide) _ _).2.1
  · exact (scan_lossless (by decide) (by decide) _ _).2.2 (by decide)

end Tokenizer

end PassingStyle
