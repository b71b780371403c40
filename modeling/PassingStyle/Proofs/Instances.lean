import PassingStyle.Pattern
import PassingStyle.Proofs.Leaves

/-!
# What a pattern matches

Matching goes through an expression from left to right and names parts on the way, before it is
known whether there is a match at all. What comes of it can be said without that order. An
expression is an *instance* of a pattern under an assignment of parts to names if the pattern
turns into the expression when its names are replaced: `Pattern.Fits`. For a pattern whose names
are all different, matching succeeds exactly on its instances, and then there is only one
assignment, which is what the match has named.

The names have to be different because nothing compares two parts of the same name; the later
one replaces the earlier one. And a rest has to be the end of its list because nothing looks at
what follows it.

Matching takes lists apart and so cannot miss an element. It can also be done by counting, with
one look at the length before each element. `Pattern.Counted.run` does this, where a place
outside of a list makes it go wrong, and it is the same: no such place is looked at.
-/

namespace PassingStyle

open Text

namespace Pattern

/-! ## Instances -/

/-- **An assignment** of parts to the names of a pattern; the part of a rest is a list. -/
abbrev Assignment := Text → Sexp

mutual

/-- **A proper pattern**: no pattern is missing in it, and a rest only ends a list. -/
inductive Proper : Pattern → Prop
  | wildcard : Proper .wildcard
  | capture (name : Text) : Proper (.capture name)
  | literal (value : Sexp) : Proper (.literal value)
  | seq {ps : List Pattern} : ProperAll ps → Proper (.seq ps)

/-- Proper patterns for the elements of a list. -/
inductive ProperAll : List Pattern → Prop
  | nil : ProperAll []
  | rest (name : Text) : ProperAll [.rest name]
  | cons {p : Pattern} {ps : List Pattern} : Proper p → ProperAll ps → ProperAll (p :: ps)

end

mutual

/-- **The names of a pattern**, from left to right, as often as they occur. -/
def names : Pattern → List Text
  | capture name => [name]
  | rest name => [name]
  | seq ps => namesAll ps
  | wildcard => []
  | literal _ => []
  | absent => []

/-- The names of several patterns. -/
def namesAll : List Pattern → List Text
  | [] => []
  | p :: ps => names p ++ namesAll ps

end

mutual

/-- **An instance**: under the assignment `a` the pattern turns into the expression. For a
wildcard there may be anything, and for a literal what is equal to it. -/
inductive Fits (a : Assignment) : Pattern → Sexp → Prop
  | wildcard (e : Sexp) : Fits a .wildcard e
  | capture {name : Text} {e : Sexp} : a name = e → Fits a (.capture name) e
  | literal {value e : Sexp} : value.equal e = true → Fits a (.literal value) e
  | seq {ps : List Pattern} {es : List Sexp} : FitsAll a ps es → Fits a (.seq ps) (.list es)

/-- The elements of a list are instances one by one, and a rest stands for all that are left. -/
inductive FitsAll (a : Assignment) : List Pattern → List Sexp → Prop
  | nil : FitsAll a [] []
  | rest {name : Text} {es : List Sexp} : a name = .list es → FitsAll a [.rest name] es
  | cons {p : Pattern} {ps : List Pattern} {e : Sexp} {es : List Sexp} :
      Fits a p e → FitsAll a ps es → FitsAll a (p :: ps) (e :: es)

end

variable {a a' : Assignment}

mutual

/-- Only the names of the pattern matter in an assignment. -/
theorem Fits.congr : ∀ {p : Pattern} {e : Sexp}, Fits a p e → (∀ x ∈ p.names, a x = a' x) →
    Fits a' p e
  | _, _, .wildcard e, _ => .wildcard e
  | _, _, .capture h, hnames => .capture (hnames _ List.mem_cons_self ▸ h)
  | _, _, .literal h, _ => .literal h
  | _, _, .seq h, hnames => .seq (h.congr hnames)

theorem FitsAll.congr : ∀ {ps : List Pattern} {es : List Sexp}, FitsAll a ps es →
    (∀ x ∈ namesAll ps, a x = a' x) → FitsAll a' ps es
  | _, _, .nil, _ => .nil
  | _, _, .rest h, hnames => .rest (hnames _ List.mem_cons_self ▸ h)
  | _, _, .cons h hs, hnames =>
    .cons (h.congr fun x hx => hnames x (List.mem_append_left _ hx))
      (hs.congr fun x hx => hnames x (List.mem_append_right _ hx))

end

mutual

/-- **The expression determines the assignment** on the names of the pattern. -/
theorem Fits.unique : ∀ {p : Pattern} {e : Sexp}, Fits a p e → Fits a' p e →
    ∀ x ∈ p.names, a x = a' x
  | _, _, .wildcard _, _, _, hx => absurd hx List.not_mem_nil
  | _, _, .capture h, .capture h', _, hx => by
    rw [List.mem_singleton.1 hx, h, h']
  | _, _, .literal _, _, _, hx => absurd hx List.not_mem_nil
  | _, _, .seq h, .seq h', x, hx => h.unique h' x hx

theorem FitsAll.unique : ∀ {ps : List Pattern} {es : List Sexp}, FitsAll a ps es →
    FitsAll a' ps es → ∀ x ∈ namesAll ps, a x = a' x
  | _, _, .nil, _, _, hx => absurd hx List.not_mem_nil
  | _, _, .rest h, .rest h', _, hx => by
    rw [List.mem_singleton.1 hx, h, h']
  | _, _, .rest _, .cons h' _, _, _ => nomatch h'
  | _, _, .cons h _, .rest _, _, _ => nomatch h
  | _, _, .cons h hs, .cons h' hs', x, hx =>
    (List.mem_append.1 hx).elim (h.unique h' x) (hs.unique hs' x)

end

/-! ## Matching finds the instances -/

/-- The names of a match with their parts; the last name comes first. -/
def entries (a : Assignment) (xs : List Text) : Bindings :=
  xs.reverse.map fun x => (x, a x)

/-- The names that come later are in front. -/
theorem entries_append (a : Assignment) (xs ys : List Text) :
    entries a (xs ++ ys) = entries a ys ++ entries a xs := by
  rw [entries, List.reverse_append, List.map_append, entries, entries]

/-- The names of a match are in it. -/
theorem map_fst_entries (a : Assignment) (xs : List Text) :
    (entries a xs).map Prod.fst = xs.reverse := by
  rw [entries, List.map_map]
  exact List.map_id _

/-- Every name of a match has its part. -/
theorem lookup_entries {xs : List Text} {x : Text} (h : x ∈ xs) :
    (entries a xs).lookup x = some (a x) := by
  have hlookup : ∀ ys : List Text, x ∈ ys → (ys.map fun y => (y, a y)).lookup x = some (a x) := by
    intro ys
    induction ys with
    | nil => exact fun hx => absurd hx List.not_mem_nil
    | cons y ys ih =>
      intro hx
      rw [List.map_cons, List.lookup_cons]
      rcases eq_or_ne x y with rfl | hne
      · rw [beq_self_eq_true]
      · rw [beq_false_of_ne hne]
        exact ih (List.mem_of_ne_of_mem hne hx)
  exact hlookup xs.reverse (List.mem_reverse.2 h)

/-- A new name is put in front. -/
theorem put_of_not_mem {b : Bindings} {name : Text} (h : name ∉ b.map Prod.fst) (value : Sexp) :
    b.put name value = (name, value) :: b := by
  rw [Bindings.put, List.filter_eq_self.2]
  intro entry hentry
  rw [bne_iff_ne]
  rintro rfl
  exact h (List.mem_map_of_mem hentry)

/-- A list that starts with no rest is matched by its first element and then by the others. -/
theorem bindSeq_cons {p : Pattern} (hp : p.isRest = false) (ps : List Pattern) (e : Sexp)
    (es : List Sexp) (b : Bindings) :
    bindSeq (e :: es) (p :: ps) b = p.bind e b >>= fun
      | none => .ok none
      | some b => bindSeq es ps b := by
  cases p with
  | rest name => cases hp
  | _ => rw [bindSeq.eq_def]; rfl

/-- There are no elements for a pattern that is no rest. -/
theorem bindSeq_nil {p : Pattern} (hp : p.isRest = false) (ps : List Pattern) (b : Bindings) :
    bindSeq [] (p :: ps) b = .ok none := by
  cases p with
  | rest name => cases hp
  | _ => rw [bindSeq.eq_def]

/-- What has an instance is no rest. -/
theorem Fits.isRest_eq {p : Pattern} {e : Sexp} (h : Fits a p e) : p.isRest = false := by
  cases h <;> rfl

mutual

/-- **Every instance is matched**, and its parts are named, in front of what was named before. -/
theorem Fits.bind : ∀ {p : Pattern} {e : Sexp} {b : Bindings}, Fits a p e → p.names.Nodup →
    (∀ x ∈ p.names, x ∉ b.map Prod.fst) → p.bind e b = .ok (some (entries a p.names ++ b))
  | _, _, b, .wildcard e, _, _ => by
    rw [Pattern.bind]
    rfl
  | _, _, b, .capture h, _, hnew => by
    rw [Pattern.bind, put_of_not_mem (hnew _ List.mem_cons_self), ← h]
    rfl
  | _, _, b, .literal h, _, _ => by
    rw [Pattern.bind, if_pos h]
    rfl
  | _, _, b, .seq h, hnodup, hnew => by
    rw [Pattern.bind]
    exact h.bindSeq hnodup hnew

theorem FitsAll.bindSeq : ∀ {ps : List Pattern} {es : List Sexp} {b : Bindings},
    FitsAll a ps es → (namesAll ps).Nodup → (∀ x ∈ namesAll ps, x ∉ b.map Prod.fst) →
    bindSeq es ps b = .ok (some (entries a (namesAll ps) ++ b))
  | _, _, b, .nil, _, _ => by
    rw [Pattern.bindSeq]
    rfl
  | _, _, b, .rest h, _, hnew => by
    rw [Pattern.bindSeq, put_of_not_mem (hnew _ List.mem_cons_self), ← h]
    rfl
  | p :: ps, _, b, .cons h hs, hnodup, hnew => by
    obtain ⟨hp, hps, hapart⟩ := List.nodup_append.1 hnodup
    have hhead := h.bind hp fun x hx => hnew x (List.mem_append_left _ hx)
    have htail := hs.bindSeq (b := entries a p.names ++ b) hps fun x hx hmem => by
      rw [List.map_append, map_fst_entries, List.mem_append, List.mem_reverse] at hmem
      rcases hmem with hmem | hmem
      · exact hapart x hmem x hx rfl
      · exact hnew x (List.mem_append_right _ hx) hmem
    rw [bindSeq_cons h.isRest_eq, hhead, namesAll, entries_append, List.append_assoc]
    exact htail

end

mutual

/-- **Only instances are matched.** The assignments of the elements of a list go together because
their names are different. -/
theorem Proper.exists_fits : ∀ {p : Pattern}, p.Proper → p.names.Nodup → ∀ (e : Sexp)
    (b : Bindings), p.bind e b = .ok none ∨ ∃ b' a, p.bind e b = .ok (some b') ∧ Fits a p e
  | _, .wildcard, _, e, b => by
    rw [Pattern.bind]
    exact .inr ⟨_, fun _ => .absent, rfl, .wildcard e⟩
  | _, .capture name, _, e, b => by
    rw [Pattern.bind]
    exact .inr ⟨_, fun _ => e, rfl, .capture rfl⟩
  | _, .literal value, _, e, b => by
    rw [Pattern.bind]
    split
    · exact .inr ⟨_, fun _ => .absent, rfl, .literal ‹_›⟩
    · exact .inl rfl
  | _, .seq h, hnodup, e, b => by
    rw [Pattern.bind.eq_def]
    cases e with
    | list es =>
      rcases h.exists_fits hnodup es b with hnone | ⟨b', a, hsome, hfits⟩
      · exact .inl hnone
      · exact .inr ⟨b', a, hsome, .seq hfits⟩
    | _ => exact .inl rfl

theorem ProperAll.exists_fits : ∀ {ps : List Pattern}, ProperAll ps → (namesAll ps).Nodup →
    ∀ (es : List Sexp) (b : Bindings), bindSeq es ps b = .ok none ∨
      ∃ b' a, bindSeq es ps b = .ok (some b') ∧ FitsAll a ps es
  | _, .nil, _, es, b => by
    cases es with
    | nil => exact .inr ⟨b, fun _ => .absent, by rw [bindSeq], .nil⟩
    | cons e es => exact .inl (by rw [bindSeq])
  | _, .rest name, _, es, b => by
    rw [bindSeq]
    exact .inr ⟨_, fun _ => .list es, rfl, .rest rfl⟩
  | p :: ps, .cons h hs, hnodup, es, b => by
    obtain ⟨hp, hps, hapart⟩ := List.nodup_append.1 hnodup
    have hrest : p.isRest = false := by cases h <;> rfl
    cases es with
    | nil => exact .inl (bindSeq_nil hrest ps b)
    | cons e es =>
      rw [bindSeq_cons hrest]
      rcases h.exists_fits hp e b with hnone | ⟨b₁, a₁, hsome, hfits⟩
      · rw [hnone]
        exact .inl rfl
      · rw [hsome]
        rcases hs.exists_fits hps es b₁ with hnone | ⟨b₂, a₂, hsome, hfitsAll⟩
        · exact .inl hnone
        · refine .inr ⟨b₂, fun x => if x ∈ p.names then a₁ x else a₂ x, hsome, .cons ?_ ?_⟩
          · exact hfits.congr fun x hx => (if_pos hx).symm
          · exact hfitsAll.congr fun x hx => (if_neg fun hmem => hapart x hmem x hx rfl).symm

end

/-! ## Filling a pattern -/

mutual

/-- **The pattern filled** with the parts that are named. Where there is no name, at a wildcard or
a literal, what stands at the same place of `e` is left. -/
def fill (b : Bindings) : Pattern → Sexp → Sexp
  | capture name, _ => (b.lookup name).getD .absent
  | seq ps, .list es => .list (fillAll b ps es)
  | seq ps, _ => .list (fillAll b ps [])
  | wildcard, e => e
  | literal _, e => e
  | rest _, e => e
  | absent, e => e

/-- The patterns of a list filled, where `es` are the elements from the same place on. -/
def fillAll (b : Bindings) : List Pattern → List Sexp → List Sexp
  | [], _ => []
  | rest name :: _, _ =>
    match b.lookup name with
    | some (.list es) => es
    | _ => []
  | p :: ps, es => fill b p (es.headD .absent) :: fillAll b ps es.tail

end

mutual

/-- **Filling with what an instance assigns** gives the instance back. -/
theorem Fits.fill_eq {b : Bindings} : ∀ {p : Pattern} {e : Sexp}, Fits a p e →
    (∀ x ∈ p.names, b.lookup x = some (a x)) → p.fill b e = e
  | _, _, .wildcard e, _ => by rw [fill]
  | _, _, .capture h, hb => by
    rw [fill, hb _ List.mem_cons_self, ← h]
    rfl
  | _, _, .literal h, _ => by rw [fill]
  | _, _, .seq h, hb => by rw [fill, h.fillAll_eq hb]

theorem FitsAll.fillAll_eq {b : Bindings} : ∀ {ps : List Pattern} {es : List Sexp},
    FitsAll a ps es → (∀ x ∈ namesAll ps, b.lookup x = some (a x)) → fillAll b ps es = es
  | _, _, .nil, _ => by rw [fillAll]
  | _, _, .rest h, hb => by
    rw [fillAll, hb _ List.mem_cons_self, h]
  | p :: ps, e :: es, .cons h hs, hb => by
    have hcons : fillAll b (p :: ps) (e :: es) = p.fill b e :: fillAll b ps es := by
      cases h <;> rw [fillAll.eq_def] <;> rfl
    rw [hcons, h.fill_eq fun x hx => hb x (List.mem_append_left _ hx),
      hs.fillAll_eq fun x hx => hb x (List.mem_append_right _ hx)]

end

/-! ## Matching by places -/

namespace Counted

/-- **Why matching by places goes wrong.** -/
inductive Fault where
  /-- There is no pattern to match. -/
  | pattern (cause : PatternError)
  /-- A place is outside of the list. -/
  | place

/-- The element at a place. -/
def element (es : List Sexp) (i : Nat) : Except Fault Sexp :=
  match es[i]? with
  | some e => .ok e
  | none => .error .place

/-- The elements from a place on, which may be the end of the list. -/
def suffix (es : List Sexp) (i : Nat) : Except Fault (List Sexp) :=
  if i ≤ es.length then .ok (es.drop i) else .error .place

mutual

/-- Matching one expression, given the bindings made so far. -/
def bind (e : Sexp) : Pattern → Bindings → Except Fault (Option Bindings)
  | wildcard, b => .ok (some b)
  | capture name, b => .ok (some (b.put name e))
  | rest _, _ => .ok none
  | literal value, b => .ok (if value.equal e then some b else none)
  | seq ps, b =>
    match e with
    | .list es => bindFrom es 0 ps b
    | _ => .ok none
  | absent, _ => .error (.pattern .noPattern)

/-- Matching the elements of a list from the place `i` on. -/
def bindFrom (es : List Sexp) : Nat → List Pattern → Bindings → Except Fault (Option Bindings)
  | i, [], b => .ok (if es.length = i then some b else none)
  | i, rest name :: _, b => do
    let left ← suffix es i
    return some (b.put name (.list left))
  | i, p :: ps, b => do
    if es.length ≤ i then return none
    let e ← element es i
    match ← bind e p b with
    | none => return none
    | some b => bindFrom es (i + 1) ps b

end

/-- **Matching by places.** -/
def run (p : Pattern) (e : Sexp) : Except Fault (Option Bindings) :=
  bind e p []

mutual

theorem bind_eq : ∀ (p : Pattern) (e : Sexp) (b : Bindings),
    bind e p b = (p.bind e b).mapError .pattern
  | .wildcard, e, b => by rw [bind, Pattern.bind]; rfl
  | .capture name, e, b => by rw [bind, Pattern.bind]; rfl
  | .rest name, e, b => by rw [bind, Pattern.bind]; rfl
  | .literal value, e, b => by rw [bind, Pattern.bind]; rfl
  | .absent, e, b => by rw [bind, Pattern.bind]; rfl
  | .seq ps, e, b => by
    rw [bind.eq_def, Pattern.bind.eq_def]
    cases e with
    | list es => exact bindFrom_eq ps es 0 (Nat.zero_le _) b
    | _ => rfl

/-- From a place in the list, or from its end, nothing outside of the list is looked at. -/
theorem bindFrom_eq : ∀ (ps : List Pattern) (es : List Sexp) (i : Nat), i ≤ es.length →
    ∀ b : Bindings, bindFrom es i ps b = (bindSeq (es.drop i) ps b).mapError .pattern
  | [], es, i, hi, b => by
    rw [bindFrom]
    rcases hi.eq_or_lt with rfl | hlt
    · rw [if_pos rfl, List.drop_length, bindSeq]
      rfl
    · rw [if_neg (Nat.ne_of_gt hlt), List.drop_eq_getElem_cons hlt, bindSeq]
      rfl
  | p :: ps, es, i, hi, b => by
    cases hp : p.isRest with
    | true =>
      cases p with
      | rest name =>
        rw [bindFrom, suffix, if_pos hi, bindSeq]
        rfl
      | _ => cases hp
    | false =>
      have hstep : bindFrom es i (p :: ps) b = if es.length ≤ i then .ok none else
          element es i >>= fun e => bind e p b >>= fun
            | none => .ok none
            | some b => bindFrom es (i + 1) ps b := by
        cases p with
        | rest name => cases hp
        | _ => rw [bindFrom.eq_def]; rfl
      rw [hstep]
      rcases hi.eq_or_lt with rfl | hlt
      · rw [if_pos le_rfl, List.drop_length, bindSeq_nil hp]
        rfl
      · rw [if_neg (Nat.not_le.2 hlt), element, List.getElem?_eq_getElem hlt,
          List.drop_eq_getElem_cons hlt, bindSeq_cons hp]
        show bind es[i] p b >>= _ = _
        rw [bind_eq p es[i] b]
        rcases p.bind es[i] b with err | _ | b
        · rfl
        · rfl
        · exact bindFrom_eq ps es (i + 1) hlt b

end

end Counted

/-! ## Expressions as patterns -/

/-- **A symbol of the notation for patterns**: the one for a wildcard, or a mark with a name
behind it. -/
def IsNotation (s : Text) : Prop :=
  s = "_" ∨ (∃ name : Text, name ≠ [] ∧ s = "$" ++ name) ∨
    ∃ name : Text, name ≠ [] ∧ s = ".." ++ name

/-- Every other symbol stands for itself. -/
theorem ofSymbol_of_not_isNotation {s : Text} (h : ¬IsNotation s) :
    ofSymbol s = literal (.symbol s) := by
  have hname : ∀ mark name : Text, s.dropHead? mark = some name → s = mark ++ name := by
    intro mark name hdrop
    rw [Text.dropHead?] at hdrop
    split at hdrop
    next hprefix =>
      obtain ⟨rest, rfl⟩ := List.isPrefixOf_iff_prefix.1 hprefix
      rw [List.drop_left] at hdrop
      rw [Option.some.inj hdrop]
    · cases hdrop
  rw [ofSymbol, if_neg fun hs => h (.inl hs)]
  split
  next hdrop => exact absurd (.inr (.inl ⟨_, List.cons_ne_nil _ _, hname _ _ hdrop⟩)) h
  next hdrop _ => exact absurd (.inr (.inr ⟨_, List.cons_ne_nil _ _, hname _ _ hdrop⟩)) h
  · rfl

/-- The instances of a literal. -/
theorem fits_literal {value e : Sexp} : Fits a (.literal value) e ↔ value.equal e = true :=
  ⟨fun | .literal h => h, .literal⟩

/-- A proper pattern is no rest. -/
theorem Proper.isRest_eq {p : Pattern} (h : p.Proper) : p.isRest = false := by
  cases h <;> rfl

mutual

/-- **An expression without notation** denotes a pattern without names, whose instances are the
expressions that it is equal to. -/
theorem ofSexp_plain : ∀ (q : Sexp), q.Over (· ≠ .absent) → (∀ s ∈ q.symbols, ¬IsNotation s) →
    ∃ p, ofSexp q = .ok p ∧ p.Proper ∧ p.names = [] ∧ ∀ a e, Fits a p e ↔ q.equal e = true
  | .absent, hover, _ => absurd rfl (hover .absent (by simp [Sexp.leaves]))
  | .symbol s, _, hplain => by
    refine ⟨.literal (.symbol s), ?_, .literal _, rfl, fun _ _ => fits_literal⟩
    rw [ofSexp, ofSymbol_of_not_isNotation (hplain s (by simp))]
  | .list qs, hover, hplain => by
    obtain ⟨ps, hps, hproper, hnames, hfits⟩ := ofSexps_plain (.list qs) qs
      (Sexp.over_list.1 hover) (by simpa using hplain)
    refine ⟨.seq ps, ?_, .seq hproper, hnames, fun a e => ?_⟩
    · rw [ofSexp, hps]
      rfl
    · cases e with
      | list es =>
        rw [Sexp.equal, ← hfits a es]
        exact ⟨fun | .seq h => h, .seq⟩
      | _ => exact ⟨nofun, nofun⟩
  | .number _, _, _ | .str _, _, _ | .bool _, _, _ | .nil, _, _ | .dot, _, _ => by
    refine ⟨.literal _, ?_, .literal _, rfl, fun _ _ => fits_literal⟩
    rw [ofSexp] <;> simp

theorem ofSexps_plain (whole : Sexp) : ∀ (qs : List Sexp), (∀ q ∈ qs, q.Over (· ≠ .absent)) →
    (∀ s ∈ Sexp.symbolsList qs, ¬IsNotation s) → ∃ ps, ofSexps whole qs = .ok ps ∧
      ProperAll ps ∧ namesAll ps = [] ∧ ∀ a es, FitsAll a ps es ↔ Sexp.equalList qs es = true
  | [], _, _ => by
    refine ⟨[], by rw [ofSexps], .nil, rfl, fun a es => ?_⟩
    cases es with
    | nil => exact ⟨fun _ => by rw [Sexp.equalList], fun _ => .nil⟩
    | cons e es => exact ⟨nofun, nofun⟩
  | q :: qs, hover, hplain => by
    obtain ⟨hq, hqs⟩ := List.forall_mem_cons.1 hover
    obtain ⟨p, hp, hproper, hnames, hfits⟩ := ofSexp_plain q hq fun s hs =>
      hplain s (by rw [Sexp.symbolsList_cons]; exact List.mem_append_left _ hs)
    obtain ⟨ps, hps, hproperAll, hnamesAll, hfitsAll⟩ := ofSexps_plain whole qs hqs fun s hs =>
      hplain s (by rw [Sexp.symbolsList_cons]; exact List.mem_append_right _ hs)
    refine ⟨p :: ps, ?_, .cons hproper hproperAll, by rw [namesAll, hnames, hnamesAll]; rfl,
      fun a es => ?_⟩
    · rw [ofSexps, hp, hps]
      show (if (p.isRest && !qs.isEmpty) = true then _ else _) = _
      rw [hproper.isRest_eq]
      rfl
    · cases es with
      | nil =>
        refine ⟨fun h => ?_, nofun⟩
        cases h
        cases hproper
      | cons e es =>
        rw [Sexp.equalList, Bool.and_eq_true, ← hfits a e, ← hfitsAll a es]
        refine ⟨fun h => ?_, fun h => .cons h.1 h.2⟩
        cases h with
        | rest _ => cases hproper
        | cons h hs => exact ⟨h, hs⟩

end

/-! ## What matching says -/

/-- **Matching finds the instances.**

For a proper pattern whose names are all different, matching succeeds if and only if the
expression is an instance of the pattern under some assignment. The names in the result are those
of the pattern, with the parts that every such assignment gives them, and filling the pattern with
them gives the expression back at every place that is no wildcard and no literal. Matching by places
is the same, for any pattern, so no place outside of a list is looked at.

An expression in which nothing is missing and no symbol belongs to the notation for patterns
denotes a pattern that matches exactly the expressions that it is equal to. -/
theorem run_finds_instances :
    (∀ (p : Pattern) (e : Sexp), p.Proper → p.names.Nodup → ∃ found, p.run e = .ok found ∧
      (found.isSome = true ↔ ∃ a, Fits a p e) ∧
      ∀ b, found = some b → (b.map Prod.fst).Perm p.names ∧
        (∀ a, Fits a p e ↔ ∀ x ∈ p.names, b.lookup x = some (a x)) ∧ p.fill b e = e) ∧
    (∀ (p : Pattern) (e : Sexp), Counted.run p e = (p.run e).mapError .pattern) ∧
    ∀ q : Sexp, q.Over (· ≠ .absent) → (∀ s ∈ q.symbols, ¬IsNotation s) →
      ∃ p, ofSexp q = .ok p ∧ ∀ e, ∃ found, p.run e = .ok found ∧
        (found.isSome = true ↔ q.equal e = true) := by
  have hmatch : ∀ (p : Pattern) (e : Sexp), p.Proper → p.names.Nodup →
      (p.run e = .ok none ∧ ∀ a, ¬Fits a p e) ∨
        ∃ a, p.run e = .ok (some (entries a p.names)) ∧ Fits a p e := by
    intro p e hproper hnodup
    have hfound : ∀ a, Fits a p e → p.run e = .ok (some (entries a p.names)) := by
      intro a h
      rw [run, h.bind hnodup fun _ _ => List.not_mem_nil, List.append_nil]
    rcases hproper.exists_fits hnodup e [] with hnone | ⟨_, a, _, hfits⟩
    · refine .inl ⟨hnone, fun a hfits => ?_⟩
      have := hfound a hfits
      rw [run, hnone] at this
      cases this
    · exact .inr ⟨a, hfound a hfits, hfits⟩
  refine ⟨fun p e hproper hnodup => ?_, fun p e => Counted.bind_eq p e [], fun q hover hplain => ?_⟩
  · rcases hmatch p e hproper hnodup with ⟨hnone, hno⟩ | ⟨a, hsome, hfits⟩
    · exact ⟨none, hnone, ⟨nofun, fun ⟨a, h⟩ => absurd h (hno a)⟩, nofun⟩
    · refine ⟨_, hsome, ⟨fun _ => ⟨a, hfits⟩, fun _ => rfl⟩, ?_⟩
      rintro _ ⟨⟩
      refine ⟨?_, fun a' => ⟨fun h x hx => ?_, fun h => hfits.congr fun x hx => ?_⟩, ?_⟩
      · rw [map_fst_entries]
        exact List.reverse_perm _
      · rw [lookup_entries hx, hfits.unique h x hx]
      · exact Option.some.inj ((lookup_entries hx).symm.trans (h x hx))
      · exact hfits.fill_eq fun x hx => lookup_entries hx
  · obtain ⟨p, hp, hproper, hnames, hfits⟩ := ofSexp_plain q hover hplain
    refine ⟨p, hp, fun e => ?_⟩
    rcases hmatch p e hproper (by rw [hnames]; exact List.nodup_nil) with
      ⟨hnone, hno⟩ | ⟨a, hsome, h⟩
    · refine ⟨none, hnone, nofun, fun heq => ?_⟩
      exact absurd ((hfits (fun _ => .absent) e).2 heq) (hno _)
    · exact ⟨_, hsome, fun _ => (hfits a e).1 h, fun _ => rfl⟩

/-- The pattern of a definition, whose parameters are a rest, finds the three parts of one; and
quoted data is a pattern that matches itself. -/
theorem run_finds_instances_definition :
    let p : Pattern := .seq [.literal (.ofName "define"), .seq [.capture "name", .rest "params"],
      .capture "body"]
    let e : Sexp := .list [.ofName "define", .list [.ofName "sqr", .ofName "x"],
      .list [.ofName "*", .ofName "x", .ofName "x"]]
    let q : Sexp := .list [.ofName "quote", .list [.str "_", .nil]]
    p.Proper ∧ p.names.Nodup ∧
      (∃ b, p.run e = .ok (some b) ∧ b.lookup (ofString "params") = some (.list [.ofName "x"]) ∧
        p.fill b e = e) ∧
      ∃ p', ofSexp q = .ok p' ∧ ∃ b, p'.run q = .ok (some b) := by
  intro p e q
  have hproper : p.Proper :=
    .seq (.cons (.literal _) (.cons (.seq (.cons (.capture _) (.rest _)))
      (.cons (.capture _) .nil)))
  have hnodup : p.names.Nodup := by decide +kernel
  refine ⟨hproper, hnodup, ?_, ?_⟩
  · let a : Assignment := fun x =>
      if x = "name" then .ofName "sqr" else if x = "params" then .list [.ofName "x"]
      else .list [.ofName "*", .ofName "x", .ofName "x"]
    have hfits : Fits a p e :=
      .seq (.cons (.literal (by decide +kernel)) (.cons
        (.seq (.cons (.capture (by decide +kernel)) (.rest (by decide +kernel))))
        (.cons (.capture (by decide +kernel)) .nil)))
    obtain ⟨found, hrun, hiff, hfound⟩ := run_finds_instances.1 p e hproper hnodup
    obtain ⟨b, rfl⟩ := Option.isSome_iff_exists.1 (hiff.2 ⟨a, hfits⟩)
    obtain ⟨_, hparts, hfill⟩ := hfound b rfl
    exact ⟨b, hrun, (hparts a).1 hfits (ofString "params") (by decide +kernel), hfill⟩
  · have hplain : ∀ s ∈ q.symbols, ¬IsNotation s := by
      intro s hs
      obtain rfl : s = "quote" := by simpa [q, Sexp.symbols, Sexp.symbolsList] using hs
      rintro (h | ⟨name, _, h⟩ | ⟨name, _, h⟩)
      · exact absurd h (by decide)
      · exact absurd (List.cons.inj h).1 (by decide)
      · exact absurd (List.cons.inj h).1 (by decide)
    obtain ⟨p', hp', hmatch⟩ := run_finds_instances.2.2 q (by
      simp [q, Sexp.Over, Sexp.leaves, Sexp.leavesAll]) hplain
    obtain ⟨found, hrun, hiff⟩ := hmatch q
    obtain ⟨b, rfl⟩ := Option.isSome_iff_exists.1 (hiff.2 (by decide +kernel))
    exact ⟨p', hp', b, hrun⟩

end Pattern

end PassingStyle
