import PassingStyle.Proofs.Guarded.Conversion
import PassingStyle.Proofs.Independence
import PassingStyle.Proofs.Matches
import PassingStyle.Proofs.Renamable

/-!
# Conversion with and without renaming

A compiler converts a program as it is, or renames its variables first. Where no recursive
binding is involved it does not matter which, and both ways lead to the same program but for
the names of variables. There are conditions. A parameter that is called like a keyword, a
primitive or a marker is one thing for renaming, which follows the scopes, and another for the
conversion, which does not; and a fresh name must not happen to be a primitive, or a call of
the renamed function becomes a call of that primitive. Recursive bindings are where the two
ways differ on purpose: without renaming they can capture the names of a continuation.

The two conversions start from different tables, and the renamed program has names that the
original has not. So neither conversion is known to avoid the names of the other. But the table
does not matter, and both are done again from one in which all of them are taken.
-/

namespace PassingStyle

/-! ## Conversions of a form and of its renaming -/

/-- A simply bound form suits what it does not bind. -/
theorem Form.SimplyBound.suits {isPrimitive : Text → Bool} {fixed drawn : List Text} {f : Form}
    (hs : f.SimplyBound) (hv : f.Valid isPrimitive)
    (hbinders : ∀ x ∈ f.binders, x ∉ fixed ∧ x ∉ drawn)
    (hops : ∀ x ∈ f.symbols, isPrimitive x = true → x ∈ fixed) :
    f.Suits isPrimitive fixed drawn := by
  induction hs with
  | constant e =>
    cases hv with
    | constant he => exact .constant he
  | lambda hnodup _ ih =>
    rw [binders, ← bindersAll] at hbinders
    obtain ⟨hparams, hbody⟩ := List.forall_mem_append.1 hbinders
    cases hv with
    | lambda vfirst vrest =>
      have hv := List.forall_mem_cons.2 ⟨vfirst, vrest⟩
      exact .lambda hnodup hparams fun f hf => ih f hf (hv f hf)
        (fun x hx => hbody x (mem_bindersAll.2 ⟨f, hf, hx⟩)) fun x hx =>
        hops x (mem_symbols_lambda.2 (Or.inr (Or.inr ⟨f, hf, hx⟩)))
  | branch _ _ _ ihtest ihyes ihno =>
    rw [binders] at hbinders
    obtain ⟨htest, hbinders⟩ := List.forall_mem_append.1 hbinders
    obtain ⟨hyes, hno⟩ := List.forall_mem_append.1 hbinders
    cases hv with
    | branch vtest vyes vno =>
      exact .branch
        (ihtest vtest htest fun x hx => hops x (mem_symbols_branch.2 (by simp [hx])))
        (ihyes vyes hyes fun x hx => hops x (mem_symbols_branch.2 (by simp [hx])))
        (ihno vno hno fun x hx => hops x (mem_symbols_branch.2 (by simp [hx])))
  | sequence _ ih =>
    rw [binders, ← bindersAll] at hbinders
    cases hv with
    | sequence vfirst vrest =>
      have hv := List.forall_mem_cons.2 ⟨vfirst, vrest⟩
      exact .sequence fun f hf => ih f hf (hv f hf)
        (fun x hx => hbinders x (mem_bindersAll.2 ⟨f, hf, hx⟩)) fun x hx =>
        hops x (mem_symbols_sequence.2 (Or.inr ⟨f, hf, hx⟩))
  | assign _ ih =>
    rw [binders] at hbinders
    cases hv with
    | assign vvalue =>
      exact .assign (ih vvalue hbinders fun x hx =>
        hops x (mem_symbols_assign.2 (Or.inr (Or.inr hx))))
  | primitive _ ih =>
    rw [binders] at hbinders
    cases hv with
    | primitive _ hprimitive vargs =>
      exact .primitive (hops _ (mem_symbols_primitive.2 (Or.inl rfl)) hprimitive)
        fun f hf => ih f hf (vargs f hf)
          (fun x hx => hbinders x (mem_bindersAll.2 ⟨f, hf, hx⟩)) fun x hx =>
          hops x (mem_symbols_primitive.2 (Or.inr ⟨f, hf, hx⟩))
  | call _ ih =>
    rw [binders, ← bindersAll] at hbinders
    have hcall := hv
    cases hv with
    | call _ vfn vargs =>
      have hv := List.forall_mem_cons.2 ⟨vfn, vargs⟩
      exact .call hcall fun f hf => ih f hf (hv f hf)
        (fun x hx => hbinders x (mem_bindersAll.2 ⟨f, hf, hx⟩)) fun x hx =>
        hops x (mem_symbols_call.2 ⟨f, hf, hx⟩)

/-- A plain name that is no marker is not fixed. -/
theorem Plain.not_mem_fixed {isPrimitive : Text → Bool} {x : Text} {symbols : List Text}
    (h : Plain isPrimitive x) (hmarker : x ∉ Target.markers) :
    x ∉ Target.fixed (symbols.filter isPrimitive) := by
  intro hin
  rcases List.mem_cons.1 hin with rfl | hin
  · cases h.keyword
  · rcases List.mem_append.1 hin with hin | hin
    · exact hmarker hin
    · have := (List.mem_filter.1 hin).2
      rw [h.primitive] at this
      cases this

/-- **A renamed form is converted to the same program** as the form but for the names of
variables, from a table in which the symbols of both are taken. -/
theorem Renamed.nameless_convertProgram {isPrimitive : Text → Bool} {f g : Form}
    {names : List Text} {halt : Text} (h : Renamed [] f g names) (hv : f.Valid isPrimitive)
    (hs : f.SimplyBound) (hplain : ∀ x ∈ f.binders, Plain isPrimitive x ∧ x ∉ Target.markers)
    (hnodup : names.Nodup) (hnew : ∀ x ∈ names, x.EndsInDigit ∧ isPrimitive x = false)
    (hfresh : ∀ s ∈ f.symbols, s ∉ names) (hhalt : Keyword.of? (.symbol halt) = none)
    {t : NameTable} (ht : ∀ s ∈ halt :: (f.symbols ++ g.symbols), (s, programNames) ∈ t.taken) :
    (f.convertProgram halt t).1.nameless [] = (g.convertProgram halt t).1.nameless [] := by
  have hv' := h.valid hv (fun x hx => (hplain x hx).1) hnew (fun s => Or.inl rfl)
    (fun s => Or.inl rfl)
  obtain ⟨drawn, drawn', hdraws, hdraws', hmatches⟩ := hv.convertProgram_matches hv' halt t t
  have hknown : ∀ s ∈ halt :: (f.symbols ++ g.symbols), s ∉ drawn ∧ s ∉ drawn' := fun s hs =>
    ⟨fun hin => hdraws.fresh s hin (ht s hs), fun hin => hdraws'.fresh s hin (ht s hs)⟩
  have hleft : ∀ s ∈ f.symbols, s ∉ drawn ∧ s ∉ drawn' := fun s hs =>
    hknown s (List.mem_cons_of_mem _ (List.mem_append_left _ hs))
  have hright : ∀ s ∈ g.symbols, s ∉ drawn ∧ s ∉ drawn' := fun s hs =>
    hknown s (List.mem_cons_of_mem _ (List.mem_append_right _ hs))
  let ops := (f.symbols ++ g.symbols).filter isPrimitive
  have hops : ∀ op ∈ ops, op ∉ drawn ∧ op ∉ drawn' := fun op hop =>
    hknown op (List.mem_cons_of_mem _ (List.mem_filter.1 hop).1)
  have hfixed : ∀ x ∈ f.symbols ++ g.symbols, isPrimitive x = true → x ∈ Target.fixed ops :=
    fun x hx hp => List.mem_cons_of_mem _ (List.mem_append_right _ (List.mem_filter.2 ⟨hx, hp⟩))
  have hfree : ∀ s ∈ f.free, s ∈ f.symbols := fun s hs => Form.mem_symbols_of_mem_free hs
  have halike : Alike (Naming.undrawn drawn drawn') f g := h.alike hv
    ⟨fun s => Or.inl rfl, fun x hx => (hplain x hx).1, fun x hx => (hnew x hx).2, hnodup,
      fun s hs => ⟨rfl, hleft s (hfree s hs)⟩, fun s hs => hfresh s (hfree s hs)⟩
  have hf : f.Suits isPrimitive (Target.fixed ops) drawn := by
    refine hs.suits hv (fun x hx => ⟨?_, ?_⟩) fun x hx => hfixed x (List.mem_append_left _ hx)
    · exact (hplain x hx).1.not_mem_fixed (hplain x hx).2
    · exact (hleft x (Form.mem_symbols_of_mem_binders hx)).1
  have hg : g.Suits isPrimitive (Target.fixed ops) drawn' := by
    refine (h.simplyBound hs hnodup).suits hv' (fun x hx => ⟨?_, ?_⟩) fun x hx =>
      hfixed x (List.mem_append_right _ hx)
    · obtain ⟨hdigit, hprimitive⟩ := hnew x (h.binders_eq ▸ hx)
      exact Plain.not_mem_fixed ⟨hdigit.keyword_eq_none, hprimitive⟩ hdigit.not_mem_markers
    · exact (hright x (Form.mem_symbols_of_mem_binders hx)).2
  exact hmatches halike hf hg (.start hdraws hdraws' hops) hhalt
    ⟨rfl, hknown halt List.mem_cons_self⟩ (Naming.placed_undrawn drawn drawn')

/-! ## Conversions of a program and of its renaming -/

/-- Names that are drawn between the same two tables are the same. -/
theorem Draws.mem_of_mem {t t' : NameTable} {names names' : List Text} (h : Draws t names t')
    (h' : Draws t names' t') {x : Text} (hx : x ∈ names) : x ∈ names' := by
  rcases List.mem_append.1 (h'.taken.mem_iff.1 (h.mem_taken hx)) with hin | hin
  · obtain ⟨y, hy, he⟩ := List.mem_map.1 hin
    cases he
    exact hy
  · exact absurd hin (h.fresh x hx)

/-- **Converting a program and renaming it before the conversion** come to the same but for the
names of variables: the results have one nameless form. The program has to be simply bound, with
parameters that are neither keywords nor primitives nor markers, and the final continuation must
be no keyword. Then renaming succeeds; and if none of the new names is a primitive, both
conversions succeed and agree, whatever the tables are. That the new names are no keywords and
no markers need not be asked, since they end in digits. -/
theorem program_alphatize {isPrimitive : Text → Bool} {e : Sexp} {f : Form} {halt : Text}
    (hf : Form.analyse isPrimitive e = .ok f) (hs : f.SimplyBound)
    (hplain : ∀ x ∈ f.binders, Plain isPrimitive x ∧ x ∉ Target.markers)
    (hhalt : Keyword.of? (.symbol halt) = none) (t : NameTable) :
    ∃ e' t', (alphatize e).outcome t = (.ok e', t') ∧
      ((∀ x ∈ e'.declared, isPrimitive x = false) → ∀ t₁ t₂, ∃ out out' t₁' t₂',
        (Convert.program isPrimitive e halt).outcome t₁ = (.ok out, t₁') ∧
        (Convert.program isPrimitive e' halt).outcome t₂ = (.ok out', t₂') ∧
        out.nameless [] = out'.nameless []) := by
  obtain ⟨hv, rfl⟩ := Form.analyse_eq_ok isPrimitive e f hf
  obtain ⟨g, names, t', hrun, hrenamed, hdraws⟩ := hs.renames hv (fun x hx => (hplain x hx).1) []
    (t.reserve programNames (Sexp.symbolsList [f.toSexp])) fun s => Or.inl rfl
  refine ⟨g.toSexp, t', hrun, fun hprimitive t₁ t₂ => ?_⟩
  have htaken : ∀ s ∈ f.symbols,
      (s, programNames) ∈ (t.reserve programNames (Sexp.symbolsList [f.toSexp])).taken :=
    fun s hs => NameTable.mem_taken_reserve.2 (Or.inr ⟨rfl, List.mem_append_left _ hs⟩)
  -- the names that were drawn are those that the renamed program binds
  have hnew : ∀ x ∈ names, x.EndsInDigit ∧ isPrimitive x = false := fun x hx =>
    ⟨hdraws.numbered x hx, hprimitive x (hdraws.mem_of_mem
      (Alpha.rename_nameless f.symbols _ hrun (.start htaken) fun _ h => h).2 hx)⟩
  have hv' := hrenamed.valid hv (fun x hx => (hplain x hx).1) hnew (fun s => Or.inl rfl)
    fun s => Or.inl rfl
  -- both are converted again from one table, in which all symbols are taken
  let all := halt :: (f.symbols ++ g.symbols)
  let shared := NameTable.empty.reserve programNames all
  have hshared : ∀ s ∈ all, (s, programNames) ∈ shared.taken :=
    fun s hs => NameTable.mem_taken_reserve.2 (Or.inr ⟨rfl, hs⟩)
  have hown : ∀ (h : Form) (t : NameTable) (s : Text), s = halt ∨ s ∈ h.symbols →
      (s, programNames) ∈
        (t.reserve programNames (Sexp.symbolsList [h.toSexp, .symbol halt])).taken := by
    intro h t s hs
    refine NameTable.mem_taken_reserve.2 (Or.inr ⟨rfl, ?_⟩)
    rw [Form.symbols] at hs
    simpa [or_comm] using hs
  have hsame := (hv.convertProgram_same halt (hown f t₁) fun s hs => hshared s (by
    simp only [all, List.mem_cons, List.mem_append]; tauto)).nameless (.of_keyword hhalt)
  have hsame' := (hv'.convertProgram_same halt (hown g t₂) fun s hs => hshared s (by
    simp only [all, List.mem_cons, List.mem_append]; tauto)).nameless (.of_keyword hhalt)
  refine ⟨_, _, _, _, Convert.outcome_program_ok hf,
    Convert.outcome_program_ok hv'.analyse_toSexp, ?_⟩
  exact hsame.trans ((hrenamed.nameless_convertProgram hv hs hplain hdraws.nodup hnew
    (fun s hs hin => hdraws.fresh s hin (htaken s hs)) hhalt hshared).trans hsame'.symm)

/-- The program `(lambda (x) (+ (g x) (lambda (x) x)))`, where one parameter shadows the other and
a generated continuation stands in between. -/
theorem program_alphatize_shadowing :
    let isPrimitive : Text → Bool := (· == "+")
    let e : Sexp := .list [Keyword.lambda.sexp, .list [.ofName "x"],
      .list [.ofName "+", .list [.ofName "g", .ofName "x"],
        .list [Keyword.lambda.sexp, .list [.ofName "x"], .ofName "x"]]]
    let e' : Sexp := .list [Keyword.lambda.sexp, .list [.ofName "x0"],
      .list [.ofName "+", .list [.ofName "g", .ofName "x0"],
        .list [Keyword.lambda.sexp, .list [.ofName "x1"], .ofName "x1"]]]
    ∃ t' out out' t₁' t₂', (alphatize e).outcome .empty = (.ok e', t') ∧
      (Convert.program isPrimitive e "halt").outcome .empty = (.ok out, t₁') ∧
      (Convert.program isPrimitive e' "halt").outcome t' = (.ok out', t₂') ∧
      out.nameless [] = out'.nameless [] := by
  intro isPrimitive e e'
  let x : Form := .constant (.ofName "x")
  let f : Form := .lambda ["x"]
    (.primitive "+" [.call (.constant (.ofName "g")) [x], .lambda ["x"] x []]) []
  have hf : Form.analyse isPrimitive e = .ok f := rfl
  have hx : x.SimplyBound := .constant _
  have hs : f.SimplyBound := .lambda (List.nodup_singleton _) (List.forall_mem_singleton.2
    (.primitive (List.forall_mem_cons.2
      ⟨.call (List.forall_mem_cons.2 ⟨.constant _, List.forall_mem_singleton.2 hx⟩),
        List.forall_mem_singleton.2
          (.lambda (List.nodup_singleton _) (List.forall_mem_singleton.2 hx))⟩)))
  have hname : Plain isPrimitive "x" ∧ Text.ofString "x" ∉ Target.markers :=
    ⟨⟨rfl, rfl⟩, by decide⟩
  have hplain : ∀ y ∈ f.binders, Plain isPrimitive y ∧ y ∉ Target.markers :=
    List.forall_mem_cons.2 ⟨hname, List.forall_mem_singleton.2 hname⟩
  have hhalt : Keyword.of? (.symbol "halt") = none := rfl
  obtain ⟨e₁, t', hrun, hsame⟩ := program_alphatize hf hs hplain hhalt .empty
  have hrenamed : ((alphatize e).outcome .empty).1 = .ok e' := by
    decide +kernel +zetaReduce
  rw [hrun] at hrenamed
  obtain rfl := Except.ok.inj hrenamed
  obtain ⟨out, out', t₁', t₂', h, h', hnameless⟩ := hsame (by decide) .empty t'
  exact ⟨t', out, out', t₁', t₂', hrun, h, h', hnameless⟩

end PassingStyle
