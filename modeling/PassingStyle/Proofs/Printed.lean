import PassingStyle.Proofs.Generated
import PassingStyle.Proofs.Stems
import PassingStyle.Proofs.Unclosed

/-!
# When a converted program reads back

The conversion moves the atoms of a program about. All of them stay legible: a symbol can take a
number behind it, and what is added is legible too. What an atom may lose is the place where it
stood. An unclosed atom of the source has no quote behind it, but a string literal that is
evaluated later than the atom comes behind it in the converted program, and then the two are read
as one token.

So the output of a compiler reads back in all cases but this one. `compile_reads_back_iff` says
that it does so exactly if no quote is printed behind an unclosed atom, and that there is no
danger where the source has no such atom. `compile_reads_back_open_quote` is a program whose
output does not read back.
-/

namespace PassingStyle

open Text Tokenizer

/-! ## Properties that atoms hand down -/

/-- **A property is handed down** from the atoms of a program to those of its conversion: the
words and the bases of the names that the conversion makes up have it, and a symbol keeps it when
a number comes behind it. -/
structure HandedDown (P : Sexp → Prop) : Prop where
  /-- The words of converted programs have the property. -/
  words : Words P
  /-- The names of continuations and of values have it, before they get their numbers. -/
  bases : ∀ base ∈ [Text.ofString "k", Text.ofString "rv"], P (.symbol base)
  /-- A symbol that has it keeps it with a number behind it. -/
  numbered : ∀ s n, P (.symbol s) → P (.symbol (NameTable.nameOf s n))

namespace HandedDown

variable {P : Sexp → Prop}

/-- Generated names have the property. -/
theorem generated (h : HandedDown P) {x : Text} (hx : x.IsGenerated) : P (.symbol x) := by
  obtain ⟨base, hbase, n, rfl⟩ := hx
  exact h.numbered base n (h.bases base hbase)

/-- Atoms with the same stems. -/
theorem forall_of_sameStem (h : HandedDown P) {as as' : List Sexp}
    (hstems : List.Forall₂ Sexp.SameStem as as') (has : ∀ a ∈ as, P a) : ∀ a ∈ as', P a := by
  induction hstems with
  | nil => exact has
  | cons hstem _ ih =>
    obtain ⟨ha, has⟩ := List.forall_mem_cons.1 has
    refine List.forall_mem_cons.2 ⟨?_, ih has⟩
    rcases hstem with rfl | ⟨s, n, rfl, rfl⟩
    · exact ha
    · exact h.numbered s n ha

/-- **A converted program** has the property if the program has it, and its final
continuation. -/
theorem program (h : HandedDown P) {isPrimitive : Text → Bool} {e out : Sexp} {halt : Text}
    {t t' : NameTable} (hhalt : P (.symbol halt)) (he : e.Over P)
    (hout : (Convert.program isPrimitive e halt).outcome t = (.ok out, t')) : out.Over P := by
  obtain ⟨f, hf, hrun⟩ := Convert.program_ok hout
  obtain ⟨hv, rfl⟩ := Form.analyse_eq_ok isPrimitive e f hf
  obtain ⟨names, hdraws, himage⟩ := hv.convertProgram_image halt
    (t.reserve programNames (Sexp.symbolsList [f.toSexp, .symbol halt]))
  have hnames : ∀ g ∈ names, P (.symbol g) := fun g hg =>
    h.generated (Form.isGenerated_of_draws hdraws g hg)
  rw [hrun] at himage
  rcases himage with ⟨_, himage⟩ | ⟨_, himage⟩
  · exact himage.over ⟨h.words, he⟩ hnames
  · exact himage.over ⟨h.words, he⟩ hnames (Sexp.over_symbol.2 hhalt)

/-- **The output of a compiler** has the property, whether or not variables are renamed. -/
theorem convert (h : HandedDown P) {c c' : Compiler} {e out : Sexp}
    (hhalt : P (.symbol c.settings.finalCont)) (he : e.Over P)
    (hout : Compiler.outcome (Compiler.convert e) c = (.ok out, c')) : out.Over P := by
  obtain ⟨e', c₁, hprepare, hprogram⟩ := Compiler.convert_prepared hout
  refine h.program hhalt ?_ hprogram
  rcases (Compiler.prepare_ok hprepare).2 with ⟨_, rfl⟩ | ⟨_, hrenamed⟩
  · exact he
  · exact h.forall_of_sameStem (alphatize_leaves hrenamed) he

end HandedDown

/-! ## Legibility is handed down -/

namespace Sexp

/-- Digits are no quotes. -/
theorem quote_not_mem_ofNat (n : Nat) : byte '"' ∉ Text.ofNat n := fun h =>
  absurd (Text.isDigit_of_mem_ofNat h) (by decide)

/-- A number behind a symbol does not change how the symbol begins, as far as quotes go. -/
theorem isUnclosed_nameOf (s : Text) (n : Nat) :
    (symbol (NameTable.nameOf s n)).isUnclosed = (symbol s).isUnclosed := by
  cases s with
  | cons b s => rfl
  | nil =>
    show ((Text.ofNat n).head? == some (byte '"')) = false
    exact beq_eq_false_iff_ne.2 fun h => quote_not_mem_ofNat n (List.mem_of_mem_head? h)

/-- **A legible symbol stays legible with a number behind it.** -/
theorem Legible.nameOf {s : Text} {later : Prop} (h : Legible later (symbol s)) (n : Nat) :
    Legible later (symbol (NameTable.nameOf s n)) := by
  obtain ⟨⟨hne, rest, _, hhere⟩, hclosed⟩ := legible_symbol_iff.1 h
  refine legible_symbol_iff.2 ⟨⟨List.append_ne_nil_of_left_ne_nil hne _, [], nofun, ?_⟩, ?_⟩
  · rw [List.append_nil]
    exact here?_symbol_digits hne hhere fun b hb => Text.isDigit_of_mem_ofNat hb
  · rwa [isUnclosed_nameOf]

/-- A symbol that stays one even in front of a quote is legible. -/
theorem legible_word {s : Text} {later : Prop} (hne : s ≠ [])
    (h : standard.here? (s ++ [byte ' ', byte '"']) = some (.symbol, s.length)) :
    Legible later (symbol s) :=
  ⟨hne, [byte ' ', byte '"'], fun _ => by decide, h⟩

/-- **Legibility is handed down.** -/
theorem handedDown_legible (later : Prop) : HandedDown (Legible later) where
  words :=
    { keyword := fun k => by cases k <;> exact legible_word (by decide) (by decide +kernel)
      setThen := legible_word (by decide) (by decide +kernel)
      undef := legible_word (by decide) (by decide +kernel)
      cps := legible_word (by decide) (by decide +kernel) }
  bases base hbase := by
    rcases List.mem_pair.1 hbase with rfl | rfl <;>
      exact legible_word (by decide) (by decide +kernel)
  numbered s n h := h.nameOf n

/-! ## Equal expressions -/

/-- What the leaf `a` is in respect of quotes: whether none may follow, and whether it has
one. -/
def quoting (a : Sexp) : Bool × Bool :=
  (a.isUnclosed, decide (byte '"' ∈ a.print))

/-- The order of leaves depends on nothing else. -/
theorem pairwise_mayFollow_iff {as : List Sexp} : as.Pairwise MayFollow ↔
    (as.map quoting).Pairwise fun p q => p.1 = true → q.2 = false := by
  rw [List.pairwise_map]
  simp only [quoting, decide_eq_false_iff_not]
  rfl

/-- Legible numbers are digits. -/
theorem Legible.quoting_number {later : Prop} {x : Number} (h : Legible later (number x)) :
    (number x).quoting = (false, false) := by
  obtain ⟨n, hn⟩ := h
  refine Prod.ext rfl (decide_eq_false fun hq => ?_)
  exact absurd ((Number.print_of_round? hn).2.1 _ hq) (by decide)

mutual

/-- **Equal expressions** are the same in respect of quotes, if their leaves are legible. -/
theorem quoting_eq_of_equal : ∀ {e e' : Sexp}, e.equal e' = true → e.Over (Legible False) →
    e'.Over (Legible False) → e.leaves.map quoting = e'.leaves.map quoting
  | list xs, list ys, h, hx, hy => by
    rw [leaves_list, leaves_list]
    exact quoting_eq_of_equalList h (over_list.1 hx) (over_list.1 hy)
  | number x, e', h, hx, hy => by
    cases e' with
    | number y =>
      rw [Over, leaves_atom rfl, List.forall_mem_singleton] at hx hy
      rw [leaves_atom rfl, leaves_atom rfl, List.map_singleton, List.map_singleton,
        hx.quoting_number, hy.quoting_number]
    | _ => cases h
  | symbol s, e', h, _, _ => by
    cases e' with
    | symbol t => rw [beq_iff_eq.1 h]
    | _ => cases h
  | str s, e', h, _, _ => by
    cases e' with
    | str t => rw [beq_iff_eq.1 h]
    | _ => cases h
  | bool x, e', h, _, _ => by
    cases e' with
    | bool y => rw [beq_iff_eq.1 h]
    | _ => cases h
  | absent, e', h, _, _ | nil, e', h, _, _ | dot, e', h, _, _ => by
    cases e' <;> first | rfl | cases h

theorem quoting_eq_of_equalList : ∀ {xs ys : List Sexp}, equalList xs ys = true →
    (∀ x ∈ xs, x.Over (Legible False)) → (∀ y ∈ ys, y.Over (Legible False)) →
    (leavesAll xs).map quoting = (leavesAll ys).map quoting
  | [], [], _, _, _ => rfl
  | x :: xs, y :: ys, h, hx, hy => by
    obtain ⟨h, hrest⟩ := Bool.and_eq_true_iff.1 h
    obtain ⟨hx, hxs⟩ := List.forall_mem_cons.1 hx
    obtain ⟨hy, hys⟩ := List.forall_mem_cons.1 hy
    rw [leavesAll_cons, leavesAll_cons, List.map_append, List.map_append,
      quoting_eq_of_equal h hx hy, quoting_eq_of_equalList hrest hxs hys]

end

/-- **An expression reads back**: its printed form reads as one expression, without gaps, and
that expression is equal to it. -/
def ReadsBack (e : Sexp) : Prop :=
  ∃ e', Reader.standard.readAll e.print = ([], .ok [e']) ∧ e.equal e' = true

/-- **Legible atoms read back exactly if they are well ordered.** -/
theorem readsBack_iff {e : Sexp} (he : e.Over (Legible False)) :
    e.ReadsBack ↔ e.leaves.Pairwise MayFollow := by
  constructor
  · rintro ⟨e', hread, hequal⟩
    have he' := legible_iff.1 (Reader.legible_of_readAll rfl hread _ List.mem_cons_self)
    rw [pairwise_mayFollow_iff, quoting_eq_of_equal hequal he he'.legible, ← pairwise_mayFollow_iff]
    exact he'.ordered
  · intro hordered
    have hlegible := legible_iff.2 ⟨he, hordered, False.elim⟩
    exact ⟨e, Reader.readAll_print rfl hlegible, hlegible.equal_self⟩

end Sexp

/-! ## The output of a compiler -/

namespace Compiler

open Sexp

/-- What a compiler reads was read by its reader. -/
theorem read_of_outcome {c c' : Compiler} {text : Text} {e : Sexp}
    (h : outcome (read text) c = (.ok e, c')) : (c.reader.read text).2 = .ok e := by
  have hresult := outcome_read text c
  rw [h] at hresult
  cases hread : (c.reader.read text).2 with
  | error err =>
    rw [hread] at hresult
    cases hresult
  | ok e' =>
    rw [hread] at hresult
    rw [Except.ok.inj hresult]

/-- **A text was compiled**: its first expression was read and converted. -/
theorem compile_ok {c c' : Compiler} {text : Text} {out : Sexp}
    (h : outcome (compile text) c = (.ok out, c')) : ∃ e c₁, c₁.settings = c.settings ∧
      (c.reader.read text).2 = .ok e ∧ outcome (convert e) c₁ = (.ok out, c') := by
  unfold compile at h
  obtain ⟨e, c₁, hread, h⟩ := outcome_bind_ok.1 h
  have hsettings := (KeepsSettings.read text c).1
  rw [hread] at hsettings
  exact ⟨e, c₁, hsettings, read_of_outcome hread, h⟩

variable {c c' : Compiler} {text : Text} {out : Sexp}

/-- **The leaves of the output** are legible in front of a quote, if those of the source are. -/
theorem compile_over_legible {later : Prop} {gaps : List Gap} {e : Sexp}
    (hhalt : c.settings.finalCont = Text.ofString "halt")
    (hread : c.reader.read text = (gaps, .ok e)) (he : e.Over (Legible later))
    (h : outcome (compile text) c = (.ok out, c')) : out.Over (Legible later) := by
  obtain ⟨e', c₁, hsettings, hread', hout⟩ := compile_ok h
  rw [hread] at hread'
  obtain rfl := Except.ok.inj hread'
  refine (handedDown_legible later).convert ?_ he hout
  rw [hsettings, hhalt]
  exact legible_word (by decide) (by decide +kernel)

/-- **The output of a compiler reads back** exactly if no quote is printed behind an unclosed
atom, whether or not variables are renamed. It does if the source has no unclosed atom. -/
theorem compile_reads_back_iff (hhalt : c.settings.finalCont = Text.ofString "halt")
    (h : outcome (compile text) c = (.ok out, c')) :
    (out.ReadsBack ↔ out.leaves.Pairwise MayFollow) ∧
    ∀ gaps e, c.reader.read text = (gaps, .ok e) → (∀ a ∈ e.leaves, a.isUnclosed = false) →
      out.ReadsBack := by
  have hiff : out.ReadsBack ↔ out.leaves.Pairwise MayFollow := by
    obtain ⟨e, _, _, hread, _⟩ := compile_ok h
    have hsource := legible_iff.1 (Reader.legible_of_read rfl (Prod.ext rfl hread))
    exact readsBack_iff (compile_over_legible hhalt (Prod.ext rfl hread) hsource.legible h)
  refine ⟨hiff, fun gaps e hread hclosed => hiff.2 ?_⟩
  have hsource := legible_iff.1 (Reader.legible_of_read rfl hread)
  have hover : e.Over (Legible True) := fun a ha =>
    (legible_atom_iff (isList_of_mem_leaves ha)).2 ⟨hsource.legible a ha, fun _ => hclosed a ha⟩
  have hout := compile_over_legible hhalt hread hover h
  refine List.pairwise_of_forall_mem_list fun a ha b _ hunclosed => ?_
  have := ((legible_atom_iff (isList_of_mem_leaves ha)).1 (hout a ha)).2 trivial
  rw [hunclosed] at this
  cases this

/-- The program `(f "s" (lambda (x) (x "a)))`, which ends in an open quote and has a string
literal before it. Its variable is renamed, and nothing is moved. -/
theorem compile_reads_back_iff_open_last :
    let c : Compiler := { settings := { alphatize := true } }
    let out : Sexp := Target.call (.ofName "f") [.str "s", Target.lambda ["x0", "k0"]
      (Target.call (.ofName "x0") [.ofName "\"a"] (.ofName "k0"))] (.ofName "halt")
    ∃ c', outcome (compile "(f \"s\" (lambda (x) (x \"a)))") c = (.ok out, c') ∧
      out.leaves.Pairwise MayFollow ∧ out.ReadsBack := by
  intro c out
  have hrun : (outcome (compile "(f \"s\" (lambda (x) (x \"a)))") c).1.toOption = some out := by
    decide +kernel
  obtain ⟨c', hout⟩ := outcome_of_toOption hrun
  have hordered : out.leaves.Pairwise MayFollow := by decide +kernel
  exact ⟨c', hout, hordered, (compile_reads_back_iff rfl hout).1.2 hordered⟩

/-- **Not every output reads back.** In the program `(f "s" (g "a))` the call of `g` comes first,
and so its open quote gets in front of the string literal. What is printed reads as a literal from
there to the next quote, and at the end two parentheses have no partner. -/
theorem compile_reads_back_open_quote :
    let out : Sexp := Target.call (.ofName "g") [.ofName "\"a"] (Target.lambda ["rv0"]
      (Target.call (.ofName "f") [.str "s", .ofName "rv0"] (.ofName "halt")))
    (outcome (compile "(f \"s\" (g \"a))") {}).1.toOption = some out ∧
      out.print = Text.ofString "(g \"a (lambda (rv0) (f \"s\" rv0 halt)))" ∧ ¬ out.ReadsBack := by
  intro out
  have hunread : ∀ {printed : Text} {e : Sexp},
      (Reader.standard.readAll printed).2.toOption = none →
      Reader.standard.readAll printed ≠ ([], .ok [e]) := by
    rintro printed e hnone hread
    rw [hread] at hnone
    cases hnone
  refine ⟨by decide +kernel, by decide +kernel, fun ⟨e', hread, _⟩ => ?_⟩
  exact hunread (by decide +kernel) hread

end Compiler

end PassingStyle
