import Mathlib.Data.List.TakeWhile
import Mathlib.Data.Nat.Digits.Defs
import PassingStyle.Number.Decimal
import PassingStyle.Number.Literal
import PassingStyle.Proofs.FreshName

/-!
# Printed numbers read back

A number that was read from digits is a whole number, though perhaps not the one that the
digits denote: it is the nearest one that has a representation. Its printed form shows the
fewest digits that read back, filled up with zeros, and these need not be the digits of
the number either. What has to be shown is that such a number is printed without a point,
and that its printed form is read as the same number.

Both hold because a whole number in the format is read back from its own digits
(`Format.round?_whole`). The search for the fewest digits therefore ends, at the latest, at
the grid of the whole numbers, and does not come to the grids with digits after the point.
-/

namespace PassingStyle

/-! ## Fractions -/

namespace Format

/-- A fraction divided by a power: one of the two powers is one. -/
theorem scaleDown_eq (b n d : Nat) (e : Int) :
    scaleDown b n d e = (n * b ^ (-e).toNat, d * b ^ e.toNat) := by
  unfold scaleDown
  by_cases he : 0 ≤ e
  · have hzero : (-e).toNat = 0 := by omega
    rw [if_pos he, hzero, Nat.pow_zero, Nat.mul_one]
    rfl
  · have hzero : e.toNat = 0 := by omega
    rw [if_neg he, hzero, Nat.pow_zero, Nat.mul_one]
    rfl

/-- A whole number is not changed by rounding. -/
theorem roundDiv_mul (q : Nat) {d : Nat} (hd : 0 < d) : roundDiv (q * d) d = q := by
  unfold roundDiv
  simp only [Nat.mul_mod_left, Nat.mul_div_cancel q hd]
  exact if_pos (by omega)

/-- Rounding goes to one of the two neighbours. -/
theorem roundDiv_bounds (n d : Nat) : n / d ≤ roundDiv n d ∧ roundDiv n d ≤ n / d + 1 := by
  unfold roundDiv
  dsimp only
  split
  · omega
  · split
    · omega
    · have := Nat.mod_lt (n / d) (show 0 < 2 by decide)
      omega

/-! ## Whole numbers in the format -/

/-- A number with `k + 1` binary digits, moved so that `p + 1` digits stand before the
point. -/
theorem shifted_bounds {n k : Nat} (p : Nat) (hk : 2 ^ k ≤ n ∧ n < 2 ^ (k + 1)) {e : Int}
    (he : e = (k : Int) - p) :
    2 ^ p ≤ n * 2 ^ (-e).toNat / (1 * 2 ^ e.toNat) ∧
      n * 2 ^ (-e).toNat / (1 * 2 ^ e.toNat) < 2 ^ (p + 1) := by
  have hpos : 0 < 1 * 2 ^ e.toNat := by rw [Nat.one_mul]; exact Nat.two_pow_pos _
  have hup : 0 < 2 ^ (-e).toNat := Nat.two_pow_pos _
  have hbalance : p + e.toNat = k + (-e).toNat := by omega
  constructor
  · rw [Nat.le_div_iff_mul_le hpos, Nat.one_mul, ← Nat.pow_add, hbalance, Nat.pow_add]
    exact Nat.mul_le_mul_right _ hk.1
  · rw [Nat.div_lt_iff_lt_mul hpos, Nat.one_mul, ← Nat.pow_add]
    have hsum : p + 1 + e.toNat = k + 1 + (-e).toNat := by omega
    rw [hsum, Nat.pow_add]
    exact Nat.mul_lt_mul_of_pos_right hk.2 hup

/-- The exponent of a whole number: its mantissa gets all bits. -/
theorem exponentOf_whole {n k : Nat} (hk : 2 ^ k ≤ n ∧ n < 2 ^ (k + 1)) :
    double.exponentOf n 1 = (k : Int) - 52 := by
  have hn : n ≠ 0 := by
    rintro rfl
    have : 0 < 2 ^ k := Nat.two_pow_pos _
    omega
  have hlog : n.log2 = k := (Nat.log2_eq_iff hn).2 hk
  have hone : Nat.log2 1 = 0 := by decide
  unfold exponentOf
  simp only [scaleDown_eq, hlog, hone]
  obtain ⟨hlow, _⟩ := shifted_bounds 53 hk (e := (k : Int) - (0 : Nat) - (53 : Nat)) (by omega)
  have hnot : ¬ n * 2 ^ (-((k : Int) - (0 : Nat) - (53 : Nat))).toNat /
      (1 * 2 ^ ((k : Int) - (0 : Nat) - (53 : Nat)).toNat) < Nat.pow 2 double.precision := by
    rw [Nat.not_lt]
    exact hlow
  rw [show double.precision = 53 from rfl] at hnot ⊢
  rw [if_neg hnot]
  show max (-1074 : Int) _ = _
  omega

/-- **A whole number in the format**: `m · 2^e` is the natural number `v`, and the
mantissa has all its bits. -/
structure IsWhole (m : Nat) (e : Int) (v : Nat) : Prop where
  /-- The first bit of the mantissa is set. -/
  full : 2 ^ 52 ≤ m
  /-- The mantissa has no more bits than the format allows. -/
  below : m < 2 ^ 53
  /-- The exponent is not too large. -/
  bounded : e ≤ 971
  /-- The two are the same number. -/
  value : v * 2 ^ (-e).toNat = m * 2 ^ e.toNat

/-- The size of a whole number is given by its exponent. -/
theorem IsWhole.size {m v : Nat} {e : Int} (h : IsWhole m e v) :
    ∃ k : Nat, (k : Int) = 52 + e ∧ 2 ^ k ≤ v ∧ v < 2 ^ (k + 1) := by
  have hup : 0 < 2 ^ (-e).toNat := Nat.two_pow_pos _
  have hdown : 0 < 2 ^ e.toNat := Nat.two_pow_pos _
  have hlow : 2 ^ (52 + e.toNat) ≤ v * 2 ^ (-e).toNat := by
    rw [h.value, Nat.pow_add]
    exact Nat.mul_le_mul_right _ h.full
  have hhigh : v * 2 ^ (-e).toNat < 2 ^ (53 + e.toNat) := by
    rw [h.value, Nat.pow_add]
    exact Nat.mul_lt_mul_of_pos_right h.below hdown
  -- a number below one would have no whole value
  have hexponent : -52 ≤ e := by
    by_contra hsmall
    have hv : v ≠ 0 := by
      rintro rfl
      have : 0 < 2 ^ (52 + e.toNat) := Nat.two_pow_pos _
      omega
    have hpow : 2 ^ (53 + e.toNat) ≤ 2 ^ (-e).toNat := Nat.pow_le_pow_right (by decide) (by omega)
    have := Nat.le_mul_of_pos_left (2 ^ (-e).toNat) (Nat.pos_of_ne_zero hv)
    omega
  refine ⟨(52 + e).toNat, by omega, ?_, ?_⟩
  · refine Nat.le_of_mul_le_mul_right ?_ hup
    rw [← Nat.pow_add, show (52 + e).toNat + (-e).toNat = 52 + e.toNat by omega]
    exact hlow
  · refine Nat.lt_of_mul_lt_mul_right (a := 2 ^ (-e).toNat) ?_
    rw [← Nat.pow_add, show (52 + e).toNat + 1 + (-e).toNat = 53 + e.toNat by omega]
    exact hhigh

/-- It is not zero. -/
theorem IsWhole.ne_zero {m v : Nat} {e : Int} (h : IsWhole m e v) : v ≠ 0 := by
  obtain ⟨k, _, hlow, _⟩ := h.size
  have := Nat.two_pow_pos k
  omega

/-- **A whole number in the format is read back from its own value.** -/
theorem round?_whole {m v : Nat} {e : Int} (h : IsWhole m e v) :
    double.round? false v 1 = some (.finite false m e) := by
  obtain ⟨k, hk, hsize⟩ := h.size
  have hv := h.ne_zero
  have hexponent : double.exponentOf v 1 = e := by
    rw [exponentOf_whole hsize]
    omega
  have hround : roundDiv (v * 2 ^ (-e).toNat) (1 * 2 ^ e.toNat) = m := by
    rw [h.value, Nat.one_mul, roundDiv_mul m (Nat.two_pow_pos _)]
  have hbelow := h.below
  have hfull := h.full
  have hbounded := h.bounded
  unfold round?
  simp only [if_neg hv, hexponent, scaleDown_eq, hround]
  have hcarry : m ≠ Nat.pow 2 double.precision := by
    show m ≠ 2 ^ 53
    omega
  have hgreatest : ¬ double.greatest < e := by
    show ¬ (971 : Int) < e
    omega
  rw [if_neg hcarry]
  show (if m = 0 then _ else if double.greatest < e then _ else _) = _
  rw [if_neg (by omega), if_neg hgreatest]

/-- **What is read from digits is a whole number**, if it is not zero. -/
theorem exists_whole {n : Nat} {x : Number} (hn : n ≠ 0)
    (h : double.round? false n 1 = some x) :
    ∃ m e v, x = .finite false m e ∧ IsWhole m e v := by
  have hsize : 2 ^ n.log2 ≤ n ∧ n < 2 ^ (n.log2 + 1) := ⟨Nat.log2_self_le hn, Nat.lt_log2_self⟩
  generalize n.log2 = k at hsize
  have hexponent := exponentOf_whole hsize
  unfold round? at h
  simp only [if_neg hn, hexponent, scaleDown_eq] at h
  generalize he : (k : Int) - 52 = e at h
  obtain ⟨hlow, hhigh⟩ := shifted_bounds 52 hsize he.symm
  obtain ⟨hround, hround'⟩ := roundDiv_bounds (n * 2 ^ (-e).toNat) (1 * 2 ^ e.toNat)
  have hexact : e < 0 → roundDiv (n * 2 ^ (-e).toNat) (1 * 2 ^ e.toNat) = n * 2 ^ (-e).toNat ∧
      n * 2 ^ (-e).toNat < 2 ^ 53 := by
    intro hneg
    have hone : 1 * 2 ^ e.toNat = 1 := by rw [show e.toNat = 0 by omega, Nat.pow_zero, Nat.one_mul]
    have hdiv := roundDiv_mul (n * 2 ^ (-e).toNat) (d := 1) (by decide)
    rw [Nat.mul_one] at hdiv
    rw [hone] at hhigh ⊢
    rw [Nat.div_one] at hhigh
    exact ⟨hdiv, hhigh⟩
  generalize roundDiv (n * 2 ^ (-e).toNat) (1 * 2 ^ e.toNat) = m at *
  rw [show double.precision = 53 from rfl, show double.greatest = 971 from rfl] at h
  by_cases hcarry : m = Nat.pow 2 53
  -- the mantissa was rounded up to one more bit
  · rw [if_pos hcarry] at h
    simp only at h
    rw [if_neg (by decide)] at h
    split at h
    · cases h
    next hbounded =>
      cases h
      have hpos : 0 ≤ e := by
        by_contra hneg
        obtain ⟨hm, hlt⟩ := hexact (by omega)
        rw [← hm, hcarry] at hlt
        exact absurd hlt (Nat.lt_irrefl _)
      refine ⟨_, _, 2 ^ 52 * 2 ^ (e + 1).toNat, rfl, Nat.le_refl _, by decide, by omega, ?_⟩
      rw [show (-(e + 1)).toNat = 0 by omega, Nat.pow_zero, Nat.mul_one]
      rfl
  · rw [if_neg hcarry] at h
    simp only at h
    rw [if_neg (by omega)] at h
    split at h
    · cases h
    next hbounded =>
      cases h
      have hlt : m < 2 ^ 53 := by
        have hne : m ≠ 2 ^ 53 := hcarry
        omega
      by_cases hneg : e < 0
      · obtain ⟨hm, _⟩ := hexact hneg
        refine ⟨m, e, n, rfl, by omega, hlt, by omega, ?_⟩
        rw [hm, show e.toNat = 0 by omega, Nat.pow_zero, Nat.mul_one]
      · refine ⟨m, e, m * 2 ^ e.toNat, rfl, by omega, hlt, by omega, ?_⟩
        rw [show (-e).toNat = 0 by omega, Nat.pow_zero, Nat.mul_one]

end Format

/-! ## Digits -/

namespace Text

/-- The digits of a number denote it. -/
theorem digitsValue_ofNat (n : Nat) : digitsValue (ofNat n) = n := by
  have hfold : ∀ (cs : List Char), (∀ c ∈ cs, c.isDigit = true) → ∀ start : Nat,
      (cs.map Char.toUInt8).foldl (fun n b => 10 * n + (b - byte '0').toNat) start =
        Nat.ofDigitChars 10 cs start := by
    intro cs
    induction cs with
    | nil => exact fun _ _ => rfl
    | cons c cs ih =>
      intro hdigits start
      obtain ⟨hc, hcs⟩ := List.forall_mem_cons.1 hdigits
      obtain ⟨hbyte, hlow, _⟩ := toNat_toUInt8 hc
      have hdigit : (c.toUInt8 - byte '0').toNat = c.toNat - '0'.toNat := by
        rw [UInt8.toNat_sub_of_le _ _ (UInt8.le_iff_toNat_le.2 (by rw [hbyte]; exact hlow)), hbyte]
        rfl
      rw [List.map_cons, List.foldl_cons, hdigit]
      exact ih hcs _
  have hdigits : ∀ c ∈ Nat.toDigits 10 n, c.isDigit = true := fun c hc =>
    Nat.isDigit_of_mem_toDigits (by decide) (by decide) hc
  unfold digitsValue ofNat
  rw [hfold _ hdigits 0, Nat.ofDigitChars_ten_toDigits]

/-- So many zeros. -/
abbrev zeros (n : Nat) : Text := List.replicate n (byte '0')

/-- A text is what is left of it without the zeros at its end, and these zeros. -/
theorem exists_zeros (t : Text) :
    ∃ n, t = (t.reverse.dropWhile (· == byte '0')).reverse ++ zeros n := by
  have hzeros : t.reverse.takeWhile (· == byte '0') =
      zeros (t.reverse.takeWhile (· == byte '0')).length := by
    refine List.eq_replicate_iff.2 ⟨rfl, fun b hb => ?_⟩
    exact beq_iff_eq.1 (List.all_eq_true.1 List.all_takeWhile b hb)
  refine ⟨(t.reverse.takeWhile (· == byte '0')).length, ?_⟩
  calc t = (t.reverse.takeWhile (· == byte '0')
          ++ t.reverse.dropWhile (· == byte '0')).reverse := by
        rw [List.takeWhile_append_dropWhile, List.reverse_reverse]
    _ = _ := by
        rw [List.reverse_append, hzeros, List.reverse_replicate, ← hzeros]

/-- Zeros after a number multiply it by a power of ten. -/
theorem digitsValue_zeros (digits : Text) (n : Nat) :
    digitsValue (digits ++ zeros n) = digitsValue digits * 10 ^ n := by
  unfold digitsValue
  rw [List.foldl_append]
  generalize digits.foldl _ 0 = start
  induction n generalizing start with
  | zero => rw [Nat.pow_zero, Nat.mul_one]; rfl
  | succ n ih =>
    rw [zeros, List.replicate_succ, List.foldl_cons, ih]
    show (10 * start + 0) * 10 ^ n = _
    rw [Nat.add_zero, Nat.pow_succ, Nat.mul_comm 10 start, Nat.mul_assoc, Nat.mul_comm 10]

end Text

namespace Decimal

/-- **A decimal without a point** is written with the digits of its coefficient, and
zeros. -/
theorem positional_ofScaled {c : Nat} (hc : c ≠ 0) (j : Nat) :
    (ofScaled c j).positional = Text.ofNat c ++ Text.zeros j := by
  have hne := Text.ofNat_ne_nil c
  generalize hall : Text.ofNat c = digits at hne
  obtain ⟨n, hsplit⟩ := Text.exists_zeros digits
  generalize hkept : (digits.reverse.dropWhile (· == Text.byte '0')).reverse = kept at hsplit
  have hpos : 0 < digits.length := List.length_pos_iff.2 hne
  have hlength : digits.length = kept.length + n := by
    rw [hsplit, List.length_append, List.length_replicate]
  have hscaled : ofScaled c j = ⟨kept, ((j + digits.length : Nat) : Int)⟩ := by
    unfold ofScaled
    rw [if_neg hc, hall]
    simp only [hkept]
    rfl
  have hpoint : ¬ ((j + digits.length : Nat) : Int) ≤ 0 := by omega
  have htake : kept.take (j + digits.length) = kept := List.take_of_length_le (by omega)
  have hdrop : kept.drop (j + digits.length) = [] := List.drop_of_length_le (by omega)
  have hfraction : (-((j + digits.length : Nat) : Int)).toNat = 0 := by omega
  rw [hscaled]
  unfold positional
  simp only [Int.toNat_natCast, hpoint, if_false, htake, hdrop, hfraction, List.replicate_zero,
    List.append_nil, List.isEmpty_nil, true_or, if_true]
  have hzeros : j + digits.length - kept.length = n + j := by omega
  rw [hzeros]
  conv_rhs => rw [hsplit, List.append_assoc, List.replicate_append_replicate]

/-! ## The shortest decimal -/

variable {f : Format} {x : Number}

/-- What is found on a grid reads back. -/
theorem ofDecimal?_of_onGrid? {n d c : Nat} {k : Int} (h : onGrid? f x n d k = some c) :
    f.ofDecimal? false c k = some x := by
  unfold onGrid? at h
  dsimp only at h
  split at h
  · split at h
    next hreads =>
      cases h
      exact beq_iff_eq.1 hreads
    · cases h
  · split at h
    · cases h
    next hbelow _ =>
      cases h
      exact beq_iff_eq.1 hbelow
    next _ habove =>
      cases h
      exact beq_iff_eq.1 habove
    next hbelow habove =>
      -- whichever of the two neighbours is taken, it reads back
      have hboth : c = (Format.scaleDown 10 n d k).1 / (Format.scaleDown 10 n d k).2 ∨
          c = (Format.scaleDown 10 n d k).1 / (Format.scaleDown 10 n d k).2 + 1 := by
        have hif := Option.some.inj h
        split at hif
        · exact Or.inl hif.symm
        · split at hif
          · exact Or.inr hif.symm
          · omega
      rcases hboth with rfl | rfl
      · exact beq_iff_eq.1 hbelow
      · exact beq_iff_eq.1 habove

/-- A decimal without a point is a natural number. -/
theorem ofDecimal?_natCast (c j : Nat) :
    f.ofDecimal? false c (j : Int) = f.round? false (c * 10 ^ j) 1 := by
  unfold Format.ofDecimal?
  rw [Format.scaleDown_eq, Int.neg_neg, Int.toNat_natCast, show (-(j : Int)).toNat = 0 by omega]
  rfl

/-- On the grid of the whole numbers a whole number finds itself. -/
theorem onGrid?_zero {v d : Nat} (hd : 0 < d) (h : f.round? false v 1 = some x) :
    onGrid? f x (v * d) d 0 = some v := by
  have hscale : Format.scaleDown 10 (v * d) d 0 = (v * d, d) := by
    rw [Format.scaleDown_eq]
    simp
  have hreads : (f.ofDecimal? false v 0 == some x) = true := by
    rw [beq_iff_eq, ← h]
    have hnat := ofDecimal?_natCast (f := f) v 0
    rw [Nat.pow_zero, Nat.mul_one] at hnat
    exact hnat
  unfold onGrid?
  simp only [hscale, Nat.mul_mod_left, Nat.mul_div_cancel v hd, hreads, if_true]

/-- **The first hit in a search by numbers** comes no later than any other. -/
theorem exists_first {α : Type} {n : Nat} {hit : Nat → Option α} {a : α}
    (h : (List.range n).findSome? hit = some a) :
    ∃ i, hit i = some a ∧ ∀ j, hit j ≠ none → i ≤ j := by
  induction n with
  | zero => cases h
  | succ n ih =>
    rw [List.range_succ, List.findSome?_append] at h
    cases hfirst : (List.range n).findSome? hit with
    | some b =>
      rw [hfirst] at h
      exact ih (hfirst.trans h)
    | none =>
      rw [hfirst, Option.none_or, List.findSome?_singleton] at h
      refine ⟨n, h, fun j hj => Nat.le_of_not_lt fun hlt => hj ?_⟩
      exact List.findSome?_eq_none_iff.1 hfirst j (List.mem_range.2 hlt)

/-- A whole number has as many digits before the point as it has digits. -/
theorem magnitude_whole {v d : Nat} (hv : v ≠ 0) (hd : 0 < d) :
    magnitude (v * d) d = (Text.ofNat v).length := by
  unfold magnitude
  rw [if_pos (Nat.le_mul_of_pos_left _ (Nat.pos_of_ne_zero hv)), Nat.mul_div_cancel v hd]

/-- A whole number with a negative exponent has few digits. -/
theorem length_ofNat_le {m v : Nat} {e : Int} (h : Format.IsWhole m e v) (hneg : e < 0) :
    (Text.ofNat v).length ≤ 17 := by
  have hvalue := h.value
  rw [show e.toNat = 0 by omega, Nat.pow_zero, Nat.mul_one] at hvalue
  have hbelow := h.below
  have hle : v ≤ v * 2 ^ (-e).toNat := Nat.le_mul_of_pos_right v (Nat.two_pow_pos _)
  unfold Text.ofNat
  rw [List.length_map]
  exact Nat.toDigits_length 10 v 17 (by decide) (by omega)

/-- **The shortest decimal of a whole number has no point**, and it reads back. -/
theorem shortest_whole {m v : Nat} {e : Int} (h : Format.IsWhole m e v) :
    ∃ c j : Nat, shortest .double m e = ofScaled c j ∧
      Format.double.round? false (c * 10 ^ j) 1 = some (.finite false m e) := by
  have hread := Format.round?_whole h
  have hm : m ≠ 0 := by
    have := h.full
    omega
  have hd := Nat.two_pow_pos (-e).toNat
  have hscale : Format.scaleDown 2 m 1 (-e) = (v * 2 ^ (-e).toNat, 2 ^ (-e).toNat) := by
    rw [Format.scaleDown_eq, Int.neg_neg, ← h.value, Nat.one_mul]
  have hpos : 0 < (Text.ofNat v).length := List.length_pos_iff.2 (Text.ofNat_ne_nil v)
  have hshort := length_ofNat_le h
  unfold shortest
  rw [if_neg hm]
  simp only [hscale, magnitude_whole h.ne_zero hd]
  generalize (Text.ofNat v).length = size at hpos hshort
  generalize hsearch : (fun i : Nat => (onGrid? .double (.finite false m e) (v * 2 ^ (-e).toNat)
    (2 ^ (-e).toNat) ((size : Int) - (i + 1 : Nat))).map
      fun c => ofScaled c ((size : Int) - (i + 1 : Nat))) = hit
  -- the grid of the whole numbers has a hit, if the search comes to it
  have hhit : hit (size - 1) ≠ none := by
    rw [← hsearch]
    dsimp only
    rw [show (size : Int) - (size - 1 + 1 : Nat) = 0 by omega, onGrid?_zero hd hread]
    exact nofun
  cases hfound : (List.range 17).findSome? hit with
  | some decimal =>
    obtain ⟨i, hi, hfirst⟩ := exists_first hfound
    have hle := hfirst _ hhit
    rw [← hsearch] at hi
    obtain ⟨c, hc, rfl⟩ := Option.map_eq_some_iff.1 hi
    have hread := ofDecimal?_of_onGrid? hc
    obtain ⟨j, hj⟩ : ∃ j : Nat, (size : Int) - (i + 1 : Nat) = j := ⟨size - (i + 1), by omega⟩
    rw [hj] at hread ⊢
    exact ⟨c, j, rfl, (ofDecimal?_natCast c j).symm.trans hread⟩
  | none =>
    -- the search did not come to the grid of the whole numbers
    have hlarge : 17 ≤ size - 1 := Nat.le_of_not_lt fun hsmall =>
      hhit (List.findSome?_eq_none_iff.1 hfound _ (List.mem_range.2 hsmall))
    have he : 0 ≤ e := by
      by_contra hneg
      have := hshort (by omega)
      omega
    have hvalue := h.value
    rw [show (-e).toNat = 0 by omega, Nat.pow_zero, Nat.mul_one] at hvalue
    rw [Option.getD_none, if_pos he]
    refine ⟨v, 0, ?_, by rw [Nat.pow_zero, Nat.mul_one]; exact hread⟩
    rw [hvalue]
    rfl

end Decimal

/-! ## Digits alone -/

namespace Literal

open Text

variable {w : Text}

/-- Digits have no sign in front. -/
theorem splitSign_of_digits (hw : ∀ b ∈ w, isDigit b = true) : splitSign w = (false, w) := by
  cases w with
  | nil => rfl
  | cons b w =>
    have hb : isDigit b = true := hw b List.mem_cons_self
    have hminus : b ≠ byte '-' := by rintro rfl; exact absurd hb (by decide)
    have hplus : b ≠ byte '+' := by rintro rfl; exact absurd hb (by decide)
    rw [splitSign, if_neg hminus, if_neg hplus]

/-- Digits have no case. -/
theorem lower_of_digits (hw : ∀ b ∈ w, isDigit b = true) : lower w = w := by
  refine (List.map_congr_left fun b hb => ?_).trans (List.map_id w)
  have hdigit := hw b hb
  refine if_neg fun h => ?_
  simp only [isDigit, Bool.and_eq_true, decide_eq_true_eq] at h hdigit
  exact absurd (UInt8.le_trans h.1 hdigit.2) (by decide)

/-- Digits are not a word in which a byte is none. -/
theorem ne_of_digits (hw : ∀ b ∈ w, isDigit b = true) {b : UInt8} {word : Text} (hb : b ∈ word)
    (hfalse : isDigit b = false) : w ≠ word := by
  rintro rfl
  exact Bool.noConfusion ((hw b hb).symm.trans hfalse)

/-- Digits name no value. -/
theorem named?_of_digits (hw : ∀ b ∈ w, isDigit b = true) : named? w = none := by
  have hi : ∀ word : Text, byte 'n' ∈ word → w ≠ word := fun word h => ne_of_digits hw h (by decide)
  rw [named?, splitSign_of_digits hw]
  dsimp only
  rw [lower_of_digits hw, if_neg, if_neg (hi _ (by decide))]
  rintro (h | h)
  · exact hi _ (by decide) h
  · exact hi _ (by decide) h

/-- Each digit stands for itself. -/
theorem digit?_of_isDigit {b : UInt8} (hb : isDigit b = true) (hexadecimal : Bool) :
    digit? hexadecimal b = some (b - byte '0').toNat :=
  if_pos hb

/-- A run of digits is all of them, without a point or an exponent. -/
theorem splitPoint_of_digits (hw : ∀ b ∈ w, isDigit b = true) :
    splitPoint false w = (w, [], []) := by
  have hspan : spanDigits false w = (w, []) := by
    rw [spanDigits, List.span_eq_takeWhile_dropWhile, List.takeWhile_eq_self_iff.2,
      List.dropWhile_eq_nil_iff.2]
    all_goals
      intro b hb
      rw [digit?_of_isDigit (hw b hb)]
      rfl
  rw [splitPoint, hspan]

/-- Where there is no separator, none is misplaced. -/
theorem separated_of_digits (hw : ∀ b ∈ w, isDigit b = true) (hexadecimal before : Bool) :
    separated hexadecimal before w = true := by
  induction w generalizing before with
  | nil => rfl
  | cons b w ih =>
    obtain ⟨hb, hw⟩ := List.forall_mem_cons.1 hw
    have hmark : b ≠ byte '_' := by rintro rfl; exact absurd hb (by decide)
    rw [separated, if_neg hmark]
    exact ih hw _

/-- The number that digits denote. -/
theorem runValue_of_digits (hw : ∀ b ∈ w, isDigit b = true) :
    runValue false w = digitsValue w := by
  have hrun : runDigits false w = w.map fun b => (b - byte '0').toNat := by
    rw [runDigits, ← List.filterMap_eq_map]
    exact List.filterMap_congr fun b hb => digit?_of_isDigit (hw b hb) false
  rw [runValue, hrun, List.foldl_map]
  rfl

/-- Digits are a fraction without a scale. -/
theorem decimal?_of_digits (hne : w ≠ []) (hw : ∀ b ∈ w, isDigit b = true) :
    decimal? w = some (digitsValue w, 0) := by
  have hrun : (runDigits false w).isEmpty = false := by
    obtain ⟨b, w, rfl⟩ := List.exists_cons_of_ne_nil hne
    rw [runDigits, List.filterMap_cons_some (digit?_of_isDigit (hw b List.mem_cons_self) false)]
    rfl
  rw [decimal?, splitPoint_of_digits hw]
  dsimp only
  rw [List.append_nil, hrun, separated_of_digits hw, runValue_of_digits hw]
  rfl

/-- **Digits are a number unless it is too large.** -/
theorem fraction_of_digits (f : Format) (hne : w ≠ []) (hw : ∀ b ∈ w, isDigit b = true) :
    fraction f w =
      match f.round? false (digitsValue w) 1 with
      | some x => .ok x
      | none => .error .outOfRange := by
  have hmark : (decide (w.length > 2) && lower (w.take 2) == "0x") = false := by
    have htake : ∀ b ∈ w.take 2, isDigit b = true := fun b hb => hw b (List.mem_of_mem_take hb)
    rw [lower_of_digits htake, Bool.and_eq_false_iff]
    exact Or.inr (beq_eq_false_iff_ne.2 (ne_of_digits htake (b := byte 'x') (by decide) (by decide)))
  rw [fraction, named?_of_digits hw]
  dsimp only
  rw [splitSign_of_digits hw]
  dsimp only
  rw [hmark, decimal?_of_digits hne hw]
  have hscale : f.ofDecimal? false (digitsValue w) 0 = f.round? false (digitsValue w) 1 := rfl
  simp only [Bool.false_eq_true, if_false, Option.map_some, hscale]
  cases f.round? false (digitsValue w) 1 with
  | none => rfl
  | some x => rfl

/-- What digits are read as. -/
theorem fraction_of_digits_eq_ok_iff {f : Format} {x : Number} (hne : w ≠ [])
    (hw : ∀ b ∈ w, isDigit b = true) :
    fraction f w = .ok x ↔ f.round? false (digitsValue w) 1 = some x := by
  rw [fraction_of_digits f hne hw]
  cases f.round? false (digitsValue w) 1 with
  | none => exact iff_of_false nofun nofun
  | some y => rw [Except.ok.injEq, Option.some.injEq]

end Literal

/-! ## Reading a printed number -/

/-- A rounded number equals itself. -/
theorem Number.same_of_round? {f : Format} {negative : Bool} {n d : Nat} {x : Number}
    (h : f.round? negative n d = some x) : x.same x = true := by
  have hfinite : ∃ m e, x = .finite negative m e := by
    unfold Format.round? at h
    grind
  obtain ⟨m, e, rfl⟩ := hfinite
  simp [same]

/-- **A number that was read from digits is printed as digits that are read as the same
number.** -/
theorem Number.print_of_round? {n : Nat} {x : Number}
    (h : Format.double.round? false n 1 = some x) :
    x.print ≠ [] ∧ (∀ b ∈ x.print, Text.isDigit b = true) ∧
      Format.double.round? false (Text.digitsValue x.print) 1 = some x := by
  by_cases hn : n = 0
  · rw [hn] at h
    cases h
    exact ⟨List.cons_ne_nil _ _, List.forall_mem_singleton.2 rfl, rfl⟩
  · obtain ⟨m, e, v, rfl, hwhole⟩ := Format.exists_whole hn h
    obtain ⟨c, j, hshortest, hread⟩ := Decimal.shortest_whole hwhole
    have hc : c ≠ 0 := by
      rintro rfl
      have hm := hwhole.full
      rw [Nat.zero_mul] at hread
      cases hread
      omega
    have hprint : (Number.finite false m e).print = Text.ofNat c ++ Text.zeros j := by
      rw [← Decimal.positional_ofScaled hc, ← hshortest]
      rfl
    rw [hprint]
    refine ⟨List.append_ne_nil_of_left_ne_nil (Text.ofNat_ne_nil c) _, fun b hb => ?_, ?_⟩
    · rcases List.mem_append.1 hb with hb | hb
      · exact Text.isDigit_of_mem_ofNat hb
      · rw [List.eq_of_mem_replicate hb]
        decide
    · rw [Text.digitsValue_zeros, Text.digitsValue_ofNat]
      exact hread

end PassingStyle
