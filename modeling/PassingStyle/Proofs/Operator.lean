import PassingStyle.Proofs.Renamed
import PassingStyle.Proofs.Weighing

/-!
# Operators and shadowing

An expression is a call of a primitive if its head is spelled like one, in the scope of a
variable of that name as anywhere else. So a primitive is called, and `undef` is handed on, in
the scope of a binder of the same name if the program has its call or its assignment there.
`Convert.program_adds_no_shadowing` says that this is the only way, recursive bindings apart:
the conversion neither adds nor removes any shadowing.

Renaming the variables first is meant to exclude it altogether, and does so for the names
that the program was written with. But a new name is only kept apart from the symbols of the
program and from the names in the table, and not from the registry of primitives. If a
variable gets the name of a primitive, its calls are read as calls of the primitive, in the
scope of the variable. `Compiler.convert_shadows_primitive_iff` says that this happens to the
variables whose new names are registered, and to nothing else.
-/

namespace PassingStyle

open Use

namespace Form

/-! ## Whole programs -/

/-- **A converted program adds no uses** to those of the form: it is no heavier in any fair
weighing that the final continuation fits, with the given names made up. -/
def AddsNoUses (f : Form) (halt : Text) (names : List Text) (out : Sexp) : Prop :=
  ∀ {w : Use → ℤ} {x : Text}, Fair w x f.letrecs names → Fits w x (.symbol halt) →
    weight w (out.uses x false) ≤ weight w (f.uses x false)

namespace AddsNoUses

variable {f : Form} {halt x : Text} {names : List Text} {out : Sexp}

/-- Counting a kind of fixed uses of a name, as often as `n` says. It is fair to count those
that are not shadowed, and to count any of a name that neither a recursive binding nor the
conversion binds. -/
theorem mul_count_le (h : f.AddsNoUses halt names out) {n : ℤ} {s : Bool}
    (hn : 0 ≤ n ∨ halt ≠ Keyword.quote.name)
    (hs : (s = false ∧ 0 ≤ n) ∨ (x ∉ f.letrecs ∧ x ∉ names)) :
    n * (out.uses x false).count (.fixed s) ≤ n * (f.uses x false).count (.fixed s) := by
  have hfair : Fair (fun v => if v = .fixed s then n else 0) x f.letrecs names := by
    refine ⟨hs.imp_left ?_, Or.inl rfl⟩
    rintro ⟨rfl, hn⟩
    exact hn
  have := h hfair (.symbol (Or.inl rfl) (hn.imp_left fun hn u => by
    split
    · exact hn
    · exact Int.le_refl 0))
  rwa [weight_eq_count, weight_eq_count] at this

/-- Counting all fixed uses of a name, as often as `n` says. -/
theorem mul_fixedCount_le (h : f.AddsNoUses halt names out) {n : ℤ}
    (hn : 0 ≤ n ∨ halt ≠ Keyword.quote.name) (x : Text) :
    n * fixedCount (out.uses x false) ≤ n * fixedCount (f.uses x false) := by
  have hfair : Fair (fun v => if v = .call then 0 else n) x f.letrecs names :=
    ⟨Or.inl (Int.le_refl n), Or.inl rfl⟩
  have := h hfair (.symbol (Or.inl rfl) (hn.imp_left fun hn u => by
    split
    · exact Int.le_refl 0
    · exact hn))
  rwa [weight_eq_fixedCount, weight_eq_fixedCount] at this

/-- Fixed uses that are not shadowed do not become more. -/
theorem count_global_le (h : f.AddsNoUses halt names out) (x : Text) :
    (out.uses x false).count (.fixed false) ≤ (f.uses x false).count (.fixed false) := by
  have := h.mul_count_le (n := 1) (x := x) (Or.inl (by decide)) (Or.inl ⟨rfl, by decide⟩)
  omega

/-- Fixed uses do not become more. -/
theorem fixedCount_le (h : f.AddsNoUses halt names out) (x : Text) :
    fixedCount (out.uses x false) ≤ fixedCount (f.uses x false) := by
  have := h.mul_fixedCount_le (n := 1) (Or.inl (by decide)) x
  omega

/-- Fixed uses do not become fewer, unless what is handed to the continuation is hidden. -/
theorem fixedCount_eq (h : f.AddsNoUses halt names out)
    (hhalt : halt ≠ Keyword.quote.name) (x : Text) :
    fixedCount (out.uses x false) = fixedCount (f.uses x false) := by
  have hle := h.fixedCount_le x
  have := h.mul_fixedCount_le (n := -1) (Or.inr hhalt) x
  omega

/-- **Nothing is shadowed** by the conversion, apart from what recursive bindings and names
that were made up shadow. -/
theorem count_fixed_le (h : f.AddsNoUses halt names out) (hl : x ∉ f.letrecs)
    (hx : x ∉ names) (s : Bool) :
    (out.uses x false).count (.fixed s) ≤ (f.uses x false).count (.fixed s) := by
  have := h.mul_count_le (n := 1) (s := s) (Or.inl (by decide)) (Or.inr ⟨hl, hx⟩)
  omega

/-- Shadowed and other fixed uses stay as many, unless what is handed to the continuation is
hidden. -/
theorem count_fixed_eq (h : f.AddsNoUses halt names out)
    (hhalt : halt ≠ Keyword.quote.name) (hl : x ∉ f.letrecs) (hx : x ∉ names) (s : Bool) :
    (out.uses x false).count (.fixed s) = (f.uses x false).count (.fixed s) := by
  have hle := h.count_fixed_le hl hx s
  have := h.mul_count_le (n := -1) (s := s) (Or.inr hhalt) (Or.inr ⟨hl, hx⟩)
  omega

/-- **Calls of a variable stay calls**, if it has a numbered name that was not made up and is
not the continuation. -/
theorem count_call_eq (h : f.AddsNoUses halt names out)
    (hhalt : halt ≠ Keyword.quote.name) (hdigit : x.EndsInDigit) (hx : x ∉ names)
    (hne : x ≠ halt) :
    (out.uses x false).count .call = (f.uses x false).count .call := by
  have hweight (n : ℤ) := h (w := fun v => if v = .call then n else 0)
    ⟨Or.inl (Int.le_refl 0), Or.inr ⟨hdigit, hx⟩⟩ (.symbol (Or.inr hne) (Or.inr hhalt))
  have hle := hweight 1
  have hge := hweight (-1)
  rw [weight_eq_count, weight_eq_count] at hle hge
  omega

/-- What is shadowed after the conversion is bound by the form, if the names that were made up
are numbered and new. -/
theorem mem_binders (h : f.AddsNoUses halt names out)
    (hnames : ∀ x ∈ names, x.EndsInDigit ∧ x ∉ f.symbols)
    (hx : .fixed true ∈ out.uses x false) : x ∈ f.binders := by
  by_contra hnot
  have hpos := List.count_pos_iff.2 hx
  by_cases hin : x ∈ names
  · have hnone := fixedCount_eq_zero (b := false) (hnames x hin).1 (hnames x hin).2
    have := h.fixedCount_le x
    rw [fixedCount] at this
    omega
  · have := h.count_fixed_le (fun hl => hnot (mem_binders_of_mem_letrecs hl)) hin true
    rcases mem_binders_of_mem_uses (List.count_pos_iff.1 (hpos.trans_le this)) with hb | hb
    · cases hb
    · exact hnot hb

/-- What has fixed uses after the conversion has fixed uses in the form. -/
theorem exists_fixed (h : f.AddsNoUses halt names out) {s : Bool}
    (hx : .fixed s ∈ out.uses x false) : ∃ s', .fixed s' ∈ f.uses x false := by
  have hpos := List.count_pos_iff.2 hx
  have := h.fixedCount_le x
  by_contra hnone
  rw [not_exists] at hnone
  rw [fixedCount, fixedCount, List.count_eq_zero.2 (hnone false),
    List.count_eq_zero.2 (hnone true)] at this
  cases s <;> omega

/-- Shadowed uses stay, if all uses are shadowed. -/
theorem shadowed_of_uses_eq (h : f.AddsNoUses halt names out)
    (hhalt : halt ≠ Keyword.quote.name) {n : Nat} (hn : n ≠ 0)
    (hx : f.uses x false = List.replicate n (.fixed true)) :
    .fixed true ∈ out.uses x false := by
  have hle := h.count_global_le x
  have heq := h.fixedCount_eq hhalt x
  rw [fixedCount, fixedCount] at heq
  rw [hx] at hle heq
  simp only [List.count_replicate, beq_iff_eq, fixed.injEq, Bool.true_eq_false, if_false,
    if_true] at hle heq
  exact List.count_pos_iff.1 (by omega)

/-- **Variables are used alike**: if all uses of a variable are calls, or all of them are
shadowed, the conversion keeps them. -/
theorem uses_eq (h : f.AddsNoUses halt names out)
    (hhalt : halt ≠ Keyword.quote.name) (hdigit : x.EndsInDigit) (hin : x ∉ names)
    (hne : x ≠ halt) {n : Nat} {u : Use} (hu : u ≠ .fixed false)
    (hx : f.uses x false = List.replicate n u) : out.uses x false = List.replicate n u := by
  have hcall := h.count_call_eq hhalt hdigit hin hne
  have hfixed := h.fixedCount_eq hhalt x
  have hglobal := h.count_global_le x
  have hlength := length_eq (out.uses x false)
  rw [fixedCount, fixedCount] at hfixed
  rw [fixedCount] at hlength
  have hcount : (out.uses x false).count u = n ∧ (out.uses x false).length = n := by
    rw [hx] at hcall hfixed hglobal
    cases u with
    | call =>
      simp [List.count_replicate] at hcall hfixed hglobal
      omega
    | fixed s =>
      cases s with
      | false => exact absurd rfl hu
      | true =>
        simp [List.count_replicate] at hcall hfixed hglobal
        omega
  exact List.eq_replicate_iff.2 ⟨hcount.2, fun v hv =>
    (List.count_eq_length.1 (hcount.1.trans hcount.2.symm) v hv).symm⟩

end AddsNoUses

end Form

namespace Convert

variable {isPrimitive : Text → Bool} {e out : Sexp} {halt : Text} {t t' : NameTable}

/-- **A program was converted** without adding uses to those of its form, and the names that
were made up are numbered and new. -/
theorem program_addsNoUses (h : (program isPrimitive e halt).outcome t = (.ok out, t')) :
    ∃ f names, Form.analyse isPrimitive e = .ok f ∧ f.AddsNoUses halt names out ∧
      ∀ x ∈ names, x.EndsInDigit ∧ x ∉ f.symbols := by
  obtain ⟨f, hf, hout⟩ := program_ok h
  obtain ⟨hv, hwritten⟩ := Form.analyse_eq_ok isPrimitive e f hf
  obtain ⟨names, hdraws, himage⟩ := hv.convertProgram_image halt
    (t.reserve programNames (Sexp.symbolsList [e, .symbol halt]))
  rw [hout] at himage hdraws
  refine ⟨f, names, hf, fun hfair hfits => ?_, fun x hx => ⟨hdraws.numbered x hx, fun hin => ?_⟩⟩
  · rcases himage with ⟨_, himage⟩ | ⟨_, himage⟩
    · exact himage.weight_le hv hdraws.numbered hfair false
    · have := himage.weight_le hv hdraws.numbered hfair hfits false
      simpa [Sexp.uses] using this
  · rw [Form.symbols, hwritten] at hin
    exact hdraws.fresh x hx (NameTable.mem_taken_reserve.2 (Or.inr ⟨rfl,
      Sexp.mem_symbolsList.2 ⟨e, List.mem_cons_self, hin⟩⟩))

/-- **Only recursive bindings shadow.** Where the conversion inserts `undef` or calls a
primitive, this lies in the scope of a binder of that name for as many assignments and calls
as in the program, unless a recursive binding binds the name. Some may be missing if the
final continuation is `quote`, which makes data of what it is handed. -/
theorem program_adds_no_shadowing
    (h : (program isPrimitive e halt).outcome t = (.ok out, t')) :
    ∃ f, Form.analyse isPrimitive e = .ok f ∧ ∀ x ∉ f.letrecs, ∀ shadowed,
      (out.uses x false).count (.fixed shadowed) ≤ (f.uses x false).count (.fixed shadowed) ∧
      (halt ≠ Keyword.quote.name → (out.uses x false).count (.fixed shadowed) =
        (f.uses x false).count (.fixed shadowed)) := by
  obtain ⟨f, names, hf, huses, hnames⟩ := program_addsNoUses h
  refine ⟨f, hf, fun x hl s => ?_⟩
  by_cases hx : x ∈ names
  · -- a name that was made up has no fixed meaning
    obtain ⟨hdigit, hnew⟩ := hnames x hx
    have hnone := Form.fixedCount_eq_zero (b := false) hdigit hnew
    have := huses.fixedCount_le x
    rw [fixedCount] at hnone this
    rw [fixedCount] at this
    cases s <;> omega
  · exact ⟨huses.count_fixed_le hl hx s, fun hhalt => huses.count_fixed_eq hhalt hl hx s⟩

/-- The function `(lambda (x) (set! y (+ x z)))` becomes
`(lambda (x k0) ((cps +) x z (lambda (rv0) (set-then! y rv0 (k0 undef)))))`, where `+` and
`undef` keep their meaning. -/
theorem program_adds_no_shadowing_function :
    let out := Target.lambda ["x", "k0"] (Target.call (Target.primitive "+")
      [.ofName "x", .ofName "z"]
      (Target.lambda ["rv0"] (Target.assign "y" (.ofName "rv0") (.ofName "k0"))))
    (out.uses "+" false).count (.fixed true) = 0 ∧
      (out.uses "undef" false).count (.fixed true) = 0 := by
  obtain ⟨f, hf, hcount⟩ := program_adds_no_shadowing (rfl : (program defaultPrimitives.contains
    (Form.lambda ["x"] (.assign "y" (.primitive "+" [.constant (.ofName "x"),
      .constant (.ofName "z")])) []).toSexp "halt").outcome .empty = (.ok _, _))
  cases hf
  exact ⟨Nat.le_zero.1 (hcount "+" List.not_mem_nil true).1,
    Nat.le_zero.1 (hcount "undef" List.not_mem_nil true).1⟩

/-- The program `(lambda (+ undef) (set! y (+ x z)))` becomes
`(lambda (+ undef k0) ((cps +) x z (lambda (rv0) (set-then! y rv0 (k0 undef)))))`: there is
no recursive binding, and both names have lost their meaning. -/
theorem program_keeps_shadowed_names :
    let f := Form.lambda ["+", "undef"] (.assign "y"
      (.primitive "+" [.constant (.ofName "x"), .constant (.ofName "z")])) []
    f.letrecs = [] ∧ ∃ out t',
      (program defaultPrimitives.contains f.toSexp "halt").outcome .empty = (.ok out, t') ∧
      Use.fixed true ∈ out.uses "+" false ∧ Use.fixed true ∈ out.uses "undef" false :=
  ⟨rfl, _, _, rfl, by decide, by decide⟩

end Convert

/-! ## Renamed variables that are primitives -/

/-- A name with a use that is not shadowed by what a scope binds is called as around that
scope. -/
theorem Scope.Binds.apply_of_uses {scope : Scope} {ps qs : List Text}
    (h : Scope.Binds [] ps qs scope) {r : Renaming} {s : Text} {b : Bool} {g : Form}
    (hu : .fixed false ∈ g.uses (Renaming.apply (scope :: r) s)
      (b || decide (Renaming.apply (scope :: r) s ∈ qs))) :
    Renaming.apply (scope :: r) s = r.apply s := by
  refine h.apply_of_not_mem r fun hps => ?_
  rw [decide_eq_true (h.apply_mem r hps), Bool.or_true] at hu
  exact Form.not_mem_uses_of_bound hu

mutual

/-- What a renamed form uses as a primitive outside the scopes of that name is a symbol of
the form, called as the scopes around it say. -/
theorem Renamed.uses {r : Renaming} {f g : Form} {names : List Text} :
    Renamed r f g names → ∀ x b, x ≠ Text.ofString "undef" → .fixed false ∈ g.uses x b →
    ∃ s ∈ f.symbols, x = r.apply s
  | .symbol _, _, _, _, hu => (Form.uses_cases hu).elim
  | .constant _, _, _, _, hu => (Form.uses_cases hu).elim
  | .lambda hbinds h, x, b, hx, hu => by
    have ih := h.uses x
    obtain ⟨g, hg, hu⟩ := Form.uses_cases hu
    obtain ⟨f, hf, s, hs, rfl⟩ := ih _ hx g hg hu
    exact ⟨s, Form.mem_symbols_lambda.2 (Or.inr (Or.inr ⟨f, hf, hs⟩)), hbinds.apply_of_uses hu⟩
  | @Renamed.branch _ test yes no test' yes' no' _ h, x, b, hx, hu => by
    have ih := h.uses x b hx
    obtain ⟨g, hg, hu⟩ : ∃ g ∈ [test', yes', no'], .fixed false ∈ g.uses x b := by
      simpa using Form.uses_cases hu
    obtain ⟨f, hf, s, hs, hsx⟩ := ih g hg hu
    exact ⟨s, Form.mem_symbols_branch.2 (by grind), hsx⟩
  | .sequence h, x, b, hx, hu => by
    have ih := h.uses x b hx
    obtain ⟨g, hg, hu⟩ := Form.uses_cases hu
    obtain ⟨f, hf, s, hs, hsx⟩ := ih g hg hu
    exact ⟨s, Form.mem_symbols_sequence.2 (Or.inr ⟨f, hf, hs⟩), hsx⟩
  | .assign h, x, b, hx, hu => by
    have ih := h.uses x b hx
    rcases Form.uses_cases hu with hu | ⟨rfl, _⟩
    · obtain ⟨s, hs, hsx⟩ := ih hu
      exact ⟨s, Form.mem_symbols_assign.2 (Or.inr (Or.inr hs)), hsx⟩
    · exact absurd rfl hx
  | .letrec hbinds hbs hbody, x, b, hx, hu => by
    have ihbs := hbs.uses x
    have ihbody := hbody.uses x
    rcases Form.uses_cases hu with ⟨c, hc, hu⟩ | ⟨g, hg, hu⟩
    · obtain ⟨f, hf, s, hs, rfl⟩ := ihbs _ hx _ (List.mem_map_of_mem hc) hu
      obtain ⟨d, hd, rfl⟩ := List.mem_map.1 hf
      exact ⟨s, Form.mem_symbols_letrec.2 (Or.inr (Or.inr (Or.inl ⟨d, hd, hs⟩))),
        hbinds.apply_of_uses hu⟩
    · obtain ⟨f, hf, s, hs, rfl⟩ := ihbody _ hx g hg hu
      exact ⟨s, Form.mem_symbols_letrec.2 (Or.inr (Or.inr (Or.inr ⟨f, hf, hs⟩))),
        hbinds.apply_of_uses hu⟩
  | .primitive h, x, b, hx, hu => by
    have ih := h.uses x b hx
    rcases Form.uses_cases hu with ⟨rfl, _⟩ | ⟨g, hg, hu⟩
    · exact ⟨_, Form.mem_symbols_primitive.2 (Or.inl rfl), rfl⟩
    · obtain ⟨f, hf, s, hs, hsx⟩ := ih g hg hu
      exact ⟨s, Form.mem_symbols_primitive.2 (Or.inr ⟨f, hf, hs⟩), hsx⟩
  | .call h, x, b, hx, hu => by
    have ih := h.uses x b hx
    rcases Form.uses_cases hu with ⟨_, hcall⟩ | ⟨g, hg, hu⟩
    · cases hcall
    · obtain ⟨f, hf, s, hs, hsx⟩ := ih g hg hu
      exact ⟨s, Form.mem_symbols_call.2 ⟨f, hf, hs⟩, hsx⟩

theorem RenamedAll.uses {r : Renaming} {fs gs : List Form} {names : List Text} :
    RenamedAll r fs gs names → ∀ x b, x ≠ Text.ofString "undef" → ∀ g ∈ gs,
    .fixed false ∈ g.uses x b → ∃ f ∈ fs, ∃ s ∈ f.symbols, x = r.apply s
  | .nil, _, _, _, _, hg, _ => absurd hg List.not_mem_nil
  | .cons h hs, x, b, hx, g, hg, hu => by
    have ih := h.uses x b hx
    have ihs := hs.uses x b hx
    rcases List.mem_cons.1 hg with rfl | hg
    · exact ⟨_, List.mem_cons_self, ih hu⟩
    · obtain ⟨f, hf, hsymbol⟩ := ihs g hg hu
      exact ⟨f, List.mem_cons_of_mem _ hf, hsymbol⟩

end

/-- **The form of a renamed program uses renamed variables** in their scopes only, and the
registry decides how. -/
theorem alphatize_uses {isPrimitive : Text → Bool} {e e' : Sexp} {t t' : NameTable} {f : Form}
    (h : (alphatize e).outcome t = (.ok e', t')) (hf : Form.analyse isPrimitive e' = .ok f)
    {x : Text} (hx : x ∈ f.binders) : f.uses x false =
      List.replicate (f.uses x false).length (if isPrimitive x then .fixed true else .call) := by
  obtain ⟨f₀, names, hwritten, hrenamed, hdraws⟩ := alphatize_ok h hf
  obtain ⟨hdigit, hnew, _⟩ := (alphatize_clean h hf).2 x hx
  obtain ⟨hv, _⟩ := Form.analyse_eq_ok isPrimitive e' f hf
  have hundef : x ≠ Text.ofString "undef" := hdigit.ne rfl rfl
  refine List.eq_replicate_iff.2 ⟨rfl, fun u hu => ?_⟩
  have huse := hv.uses_eq hundef hu
  cases u with
  | call => rw [if_neg (by simp [huse.1 rfl])]
  | fixed s =>
    cases s with
    | false =>
      obtain ⟨s, hs, rfl⟩ := hrenamed.uses x false hundef hu
      rw [Form.symbols, hwritten] at hs
      exact absurd hs hnew
    | true =>
      have hprimitive : isPrimitive x = true := by simpa using huse
      rw [if_pos hprimitive]

/-- **How a converted program calls renamed variables.** The names that `f` binds are those
of variables, and it was converted to `out` with this registry and final continuation. -/
structure CallsVariables (isPrimitive : Text → Bool) (halt : Text) (f : Form) (out : Sexp) :
    Prop where
  /-- Only variables that are primitives by their new names are shadowed. -/
  only : ∀ x, .fixed true ∈ out.uses x false → x ∈ f.binders ∧ isPrimitive x = true
  /-- They are, if they are called at all. -/
  shadowed : halt ≠ Keyword.quote.name → ∀ x ∈ f.binders, isPrimitive x = true →
    f.uses x false ≠ [] → .fixed true ∈ out.uses x false
  /-- Every call of a variable is a call of the primitive, or every one is a call of the
  variable. -/
  calls : halt ≠ Keyword.quote.name → ∀ x ∈ f.binders, x ≠ halt → out.uses x false =
    List.replicate (f.uses x false).length (if isPrimitive x then .fixed true else .call)

namespace Compiler

/-- **When a renamed variable is taken for a primitive.** A compiler that renames variables
emits calls of primitives in the scope of a binder of that name, for those variables whose
new names are registered, and for no other. What it can rename a variable to ends in a digit,
does not occur in the program, and was free in the table that the compiler started with. -/
theorem convert_shadows_primitive_iff {c c' : Compiler} {e out : Sexp}
    (halpha : c.settings.alphatize = true) (h : outcome (convert e) c = (.ok out, c')) :
    ∃ e' t f₀ f, (PassingStyle.alphatize e).outcome c.names = (.ok e', t) ∧
      Form.analyse c.settings.primitives.contains e' = .ok f ∧
      f₀.toSexp = e ∧ Renamed [] f₀ f f.binders ∧
      CallsVariables c.settings.primitives.contains c.settings.finalCont f out ∧
      ∀ x ∈ f.binders, x.EndsInDigit ∧ x ∉ e.symbols ∧ (x, programNames) ∉ c.names.taken := by
  obtain ⟨e', t, hrename, hprogram⟩ := convert_ok halpha h
  obtain ⟨f, names, hf, huses, hnames⟩ := Convert.program_addsNoUses hprogram
  obtain ⟨f₀, drawn, hwritten, hrenamed, _⟩ := alphatize_ok hrename hf
  obtain ⟨_, hbinders⟩ := alphatize_clean hrename hf
  obtain ⟨hv, _⟩ := Form.analyse_eq_ok _ e' f hf
  refine ⟨e', t, f₀, f, hrename, hf, hwritten, ?_, ⟨fun x hx => ?_, ?_, ?_⟩, hbinders⟩
  · rwa [hrenamed.binders_eq]
  · have hbound := huses.mem_binders hnames hx
    obtain ⟨s, hs⟩ := huses.exists_fixed hx
    have := hv.uses_eq ((hbinders x hbound).1.ne rfl rfl) hs
    exact ⟨hbound, by simpa using this⟩
  · intro hhalt x hbound hprimitive hused
    have hf := alphatize_uses hrename hf hbound
    rw [if_pos hprimitive] at hf
    exact huses.shadowed_of_uses_eq hhalt (by simpa using hused) hf
  · intro hhalt x hbound hne
    have hin : x ∉ names := fun hin =>
      (hnames x hin).2 (Form.mem_symbols_of_mem_binders hbound)
    refine huses.uses_eq hhalt (hbinders x hbound).1 hin hne ?_ (alphatize_uses hrename hf hbound)
    split <;> decide

/-- The function `(lambda (x) (x #t))` becomes `(lambda (x0 k0) ((cps x0) #t k0))` if `x0` is
a primitive: the variable is renamed to the name of the primitive, and is not called. -/
theorem convert_shadows_primitive_renamed :
    let out := Target.lambda ["x0", "k0"]
      (Target.call (Target.primitive "x0") [.bool true] (.ofName "k0"))
    (outcome (convert (Form.lambda ["x"] (.call (.constant (.ofName "x"))
      [.constant (.bool true)]) []).toSexp)
      { settings := { alphatize := true, primitives := ["x0"] } }).1 = .ok out ∧
    Use.fixed true ∈ out.uses "x0" false := by
  obtain ⟨e', t, f₀, f, hrename, hf, -, -, hcalls, -⟩ := convert_shadows_primitive_iff
    (c := { settings := { alphatize := true, primitives := ["x0"] } }) rfl
    (rfl : outcome (convert (Form.lambda ["x"] (.call (.constant (.ofName "x"))
      [.constant (.bool true)]) []).toSexp) _ = (.ok _, _))
  cases hrename
  cases hf
  exact ⟨rfl, hcalls.shadowed (by decide) "x0" List.mem_cons_self rfl nofun⟩

end Compiler

end PassingStyle
