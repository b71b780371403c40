import PassingStyle.Proofs.Meaning.Renaming
import PassingStyle.Proofs.Misbound
import PassingStyle.Proofs.Steady

/-!
# Programs that can be renamed

Renaming a program succeeds unless the binders of a scope are not in order, and what it does is
known from its success. Here the order is turned round. A form is taken whose scopes are those
of functions with different parameters, and it is shown that its expression is renamed to the
expression of another form, by the rules for renamed forms. The proof follows the form and not
the expression, because what renaming does with a list depends on how the list is read.

A renamed form inherits what makes the form convertible: it is valid, if no new name is a
primitive, and its scopes are again those of functions with different parameters.
-/

namespace PassingStyle

/-! ## Forms whose scopes are those of functions -/

/-- **A simply bound form**: only functions bind names in it, and none of them binds a name
twice. -/
inductive Form.SimplyBound : Form → Prop
  | constant (e : Sexp) : SimplyBound (.constant e)
  | lambda {params : List Text} {first : Form} {rest : List Form} : params.Nodup →
      (∀ f ∈ first :: rest, SimplyBound f) → SimplyBound (.lambda params first rest)
  | branch {test yes no : Form} : SimplyBound test → SimplyBound yes → SimplyBound no →
      SimplyBound (.branch test yes no)
  | sequence {first : Form} {rest : List Form} : (∀ f ∈ first :: rest, SimplyBound f) →
      SimplyBound (.sequence first rest)
  | assign {name : Text} {value : Form} : SimplyBound value → SimplyBound (.assign name value)
  | primitive {op : Text} {args : List Form} : (∀ f ∈ args, SimplyBound f) →
      SimplyBound (.primitive op args)
  | call {fn : Form} {args : List Form} : (∀ f ∈ fn :: args, SimplyBound f) →
      SimplyBound (.call fn args)

/-- The head of a call is no keyword. -/
theorem Form.Valid.keyword_fn {isPrimitive : Text → Bool} {fn : Form} {args : List Form}
    (hv : (Form.call fn args).Valid isPrimitive) : Keyword.of? fn.toSexp = none := by
  cases hv with
  | call hfn _ _ =>
    cases hsexp : fn.toSexp with
    | symbol s => exact (hfn s (Form.eq_constant_of_toSexp hsexp)).1
    | _ => rfl

/-! ## Renaming succeeds -/

namespace Alpha

open Sexp FreshExcept

variable {isPrimitive : Text → Bool}

/-- Parameters that are different symbols can be bound. -/
theorem bindParameters_of_nodup {ps : List Text} (hps : ps.Nodup) (t : NameTable) :
    ∃ qs scope t', (bindParameters (ps.map .symbol) []).outcome t =
      (.ok (qs.map .symbol, scope), t') ∧ Scope.Binds [] ps qs scope ∧ Draws t qs t' := by
  rcases hrun : (bindParameters (ps.map .symbol) []).outcome t with ⟨err | ⟨renamed, scope⟩, t'⟩
  · rcases (bindParameters_fails _ _ hrun).2.of_nil with ⟨b, hb, hname⟩ | hnodup
    · obtain ⟨s, -, rfl⟩ := List.mem_map.1 hb
      cases hname
    · rw [filterMap_parameterName?] at hnodup
      exact absurd hps hnodup
  · obtain ⟨names, qs, hnames, rfl, hbinds, hdraws⟩ := bindParameters_ok hrun
    obtain rfl := List.map_injective_iff.2 (fun _ _ => Sexp.symbol.inj) hnames
    exact ⟨qs, scope, t', rfl, hbinds, hdraws⟩

/-- One expression is renamed after the other. -/
theorem renameAll_cons {r : Renaming} {e e' : Sexp} {es es' : List Sexp} {t t₁ t' : NameTable}
    (he : (rename r e).outcome t = (.ok e', t₁))
    (hes : (renameAll r es).outcome t₁ = (.ok es', t')) :
    (renameAll r (e :: es)).outcome t = (.ok (e' :: es'), t') := by
  rw [renameAll]
  exact outcome_bind_ok.2 ⟨e', t₁, he, outcome_bind_ok.2 ⟨es', t', hes, rfl⟩⟩

/-- A plain list is renamed element by element. -/
theorem rename_plain {r : Renaming} {head : Sexp} {args es' : List Sexp} {t t' : NameTable}
    (hplain : Scopeless head args) (h : (renameAll r (head :: args)).outcome t = (.ok es', t')) :
    (rename r (.list (head :: args))).outcome t = (.ok (.list es'), t') := by
  obtain ⟨head', args', t₁, hhead, hargs, rfl⟩ := renameAll_cons_ok h
  rw [rename_scopeless hplain]
  exact outcome_bind_ok.2 ⟨head', t₁, hhead, outcome_bind_ok.2 ⟨args', t', hargs, rfl⟩⟩

/-- **A form can be renamed** in any scopes that bind plain names only, and renaming follows the
rules. -/
def Renames (isPrimitive : Text → Bool) (f : Form) : Prop :=
  ∀ (r : Renaming) (t : NameTable), (∀ s, r.apply s = s ∨ Plain isPrimitive s) →
    ∃ g names t', (rename r f.toSexp).outcome t = (.ok g.toSexp, t') ∧ Renamed r f g names ∧
      Draws t names t'

/-- Several forms can be renamed one after the other. -/
theorem renameAll_toSexps {fs : List Form} (hfs : ∀ f ∈ fs, Renames isPrimitive f) (r : Renaming)
    (t : NameTable) (hr : ∀ s, r.apply s = s ∨ Plain isPrimitive s) :
    ∃ gs names t', (renameAll r (Form.toSexps fs)).outcome t = (.ok (Form.toSexps gs), t') ∧
      RenamedAll r fs gs names ∧ Draws t names t' := by
  induction fs generalizing t with
  | nil => exact ⟨[], [], t, rfl, .nil, Draws.nil t⟩
  | cons f fs ih =>
    obtain ⟨hf, hfs⟩ := List.forall_mem_cons.1 hfs
    obtain ⟨g, names, t₁, hrun, hone, hdraws⟩ := hf r t hr
    obtain ⟨gs, names', t₂, hruns, hall, hdraws'⟩ := ih hfs t₁
    exact ⟨g :: gs, names ++ names', t₂, renameAll_cons hrun hruns, .cons hone hall,
      hdraws.append hdraws'⟩

/-- A keyword in front of forms stays as it is. -/
theorem rename_keyword_list (k : Keyword) {fs : List Form} (hfs : ∀ f ∈ fs, Renames isPrimitive f)
    (hplain : ∀ args, Scopeless k.sexp args) (r : Renaming) (t : NameTable)
    (hr : ∀ s, r.apply s = s ∨ Plain isPrimitive s) :
    ∃ gs names t', (rename r (.list (k.sexp :: Form.toSexps fs))).outcome t =
      (.ok (.list (k.sexp :: Form.toSexps gs)), t') ∧ RenamedAll r fs gs names ∧
        Draws t names t' := by
  obtain ⟨gs, names, t', hruns, hall, hdraws⟩ := renameAll_toSexps hfs r t hr
  refine ⟨gs, names, t', rename_plain (hplain _) (renameAll_cons ?_ hruns), hall, hdraws⟩
  have hsame : r.apply k.name = k.name := (hr k.name).resolve_right fun h => by
    have := h.keyword
    cases k <;> cases this
  rw [Keyword.sexp, rename, hsame]
  rfl

/-- A constant can be renamed. -/
theorem renames_constant {e : Sexp} (he : Form.IsConstant e) :
    Renames isPrimitive (.constant e) := by
  intro r t _
  rw [Form.toSexp]
  rcases he with he | ⟨d, rfl⟩
  · cases e with
    | symbol s => exact ⟨.constant (.symbol (r.apply s)), [], t, rfl, .symbol s, Draws.nil t⟩
    | list es => cases he
    | _ => exact ⟨.constant _, [], t, rfl, .constant (fun _ h => (by cases h)), Draws.nil t⟩
  · exact ⟨.constant _, [], t, rfl, .constant (fun _ h => (by cases h)), Draws.nil t⟩

/-- A function can be renamed if its body can. -/
theorem renames_lambda {params : List Text} {first : Form} {rest : List Form}
    (hnodup : params.Nodup) (hplain : ∀ p ∈ params, Plain isPrimitive p)
    (hbody : ∀ f ∈ first :: rest, Renames isPrimitive f) :
    Renames isPrimitive (.lambda params first rest) := by
  intro r t hr
  obtain ⟨qs, scope, t₁, hbind, hbinds, hdraws⟩ := bindParameters_of_nodup hnodup t
  have hinner : ∀ s, Renaming.apply (scope :: r) s = s ∨ Plain isPrimitive s := by
    intro s
    by_cases hs : s ∈ params
    · exact Or.inr (hplain s hs)
    · rw [hbinds.apply_of_not_mem r hs]
      exact hr s
  obtain ⟨gs, names, t₂, hbodies, hall, hdrawsBody⟩ := renameAll_toSexps hbody _ t₁ hinner
  match gs, hall with
  | g :: gs, hall =>
    refine ⟨.lambda qs g gs, _, t₂, ?_, .lambda hbinds hall, hdraws.append hdrawsBody⟩
    rw [Form.toSexp, Form.toSexp, ← Form.toSexps]
    exact outcome_bind_ok.2 ⟨_, t₁, hbind, outcome_bind_ok.2 ⟨_, t₂, hbodies, rfl⟩⟩

end Alpha

open Alpha in
/-- **A simply bound form can be renamed** if all names that it binds are plain. -/
theorem Form.SimplyBound.renames {isPrimitive : Text → Bool} {f : Form} (hs : f.SimplyBound)
    (hv : f.Valid isPrimitive) (hplain : ∀ x ∈ f.binders, Plain isPrimitive x) :
    Renames isPrimitive f := by
  -- these keywords open no scope
  have hplainlist : ∀ k : Keyword, k = .branch ∨ k = .sequence ∨ k = .assign →
      ∀ args, Sexp.Scopeless k.sexp args := by
    rintro k (rfl | rfl | rfl) args <;> exact ⟨nofun, nofun, nofun⟩
  induction hs with
  | constant e =>
    cases hv with
    | constant he => exact renames_constant he
  | lambda hnodup _ ih =>
    rw [binders, ← bindersAll] at hplain
    obtain ⟨hparams, hbody⟩ := List.forall_mem_append.1 hplain
    cases hv with
    | lambda vfirst vrest =>
      have hv := List.forall_mem_cons.2 ⟨vfirst, vrest⟩
      exact renames_lambda hnodup hparams fun f hf => ih f hf (hv f hf) fun x hx =>
        hbody x (mem_bindersAll.2 ⟨f, hf, hx⟩)
  | @branch test yes no _ _ _ ihtest ihyes ihno =>
    rw [binders] at hplain
    cases hv with
    | branch vtest vyes vno =>
      have hparts : ∀ f ∈ [test, yes, no], Renames isPrimitive f := by
        simp only [List.forall_mem_cons, List.forall_mem_append] at hplain ⊢
        exact ⟨ihtest vtest hplain.1, ihyes vyes hplain.2.1, ihno vno hplain.2.2, nofun⟩
      intro r t hr
      obtain ⟨gs, names, t', hrun, hall, hdraws⟩ :=
        rename_keyword_list .branch hparts (hplainlist _ (by simp)) r t hr
      obtain ⟨g₁, g₂, g₃, rfl⟩ := List.length_eq_three.1 hall.length_eq.symm
      exact ⟨.branch g₁ g₂ g₃, names, t', by rwa [toSexp, toSexp], .branch hall, hdraws⟩
  | @sequence first rest _ ih =>
    rw [binders, ← bindersAll] at hplain
    cases hv with
    | sequence vfirst vrest =>
      have hv := List.forall_mem_cons.2 ⟨vfirst, vrest⟩
      have hparts : ∀ f ∈ first :: rest, Renames isPrimitive f := fun f hf =>
        ih f hf (hv f hf) fun x hx => hplain x (mem_bindersAll.2 ⟨f, hf, hx⟩)
      intro r t hr
      obtain ⟨gs, names, t', hrun, hall, hdraws⟩ :=
        rename_keyword_list .sequence hparts (hplainlist _ (by simp)) r t hr
      match gs, hall with
      | g :: gs, hall =>
        exact ⟨.sequence g gs, names, t', by rwa [toSexp, toSexp], .sequence hall, hdraws⟩
  | @assign name value _ ih =>
    rw [binders] at hplain
    cases hv with
    | assign vvalue =>
      -- the variable is renamed like an expression in its own right
      have hparts : ∀ f ∈ [.constant (.symbol name), value], Renames isPrimitive f := by
        simp only [List.forall_mem_cons]
        exact ⟨renames_constant (Or.inl rfl), ih vvalue hplain, nofun⟩
      intro r t hr
      obtain ⟨gs, names, t', hrun, hall, hdraws⟩ :=
        rename_keyword_list .assign hparts (hplainlist _ (by simp)) r t hr
      cases hall with
      | cons hname hall =>
        cases hname with
        | constant he => exact absurd rfl (he name)
        | symbol =>
          cases hall with
          | @cons _ _ g _ _ names _ hvalue hnil =>
            cases hnil
            rw [List.nil_append, List.append_nil] at hdraws
            exact ⟨.assign (r.apply name) g, names, t', by rwa [toSexp, toSexp], .assign hvalue,
              hdraws⟩
  | @primitive op args _ ih =>
    rw [binders] at hplain
    cases hv with
    | primitive hkeyword _ vargs =>
      intro r t hr
      obtain ⟨gs, names, t', hruns, hall, hdraws⟩ := renameAll_toSexps (fun f hf =>
        ih f hf (vargs f hf) fun x hx => hplain x (mem_bindersAll.2 ⟨f, hf, hx⟩)) r t hr
      refine ⟨.primitive (r.apply op) gs, names, t', ?_, .primitive hall, hdraws⟩
      rw [toSexp, toSexp]
      exact rename_plain (Sexp.scopeless_of_keyword hkeyword _) (renameAll_cons rfl hruns)
  | @call fn args _ ih =>
    rw [binders, ← bindersAll] at hplain
    have hkeyword := hv.keyword_fn
    cases hv with
    | call _ vfn vargs =>
      have hv := List.forall_mem_cons.2 ⟨vfn, vargs⟩
      intro r t hr
      obtain ⟨gs, names, t', hruns, hall, hdraws⟩ := renameAll_toSexps (fun f hf =>
        ih f hf (hv f hf) fun x hx => hplain x (mem_bindersAll.2 ⟨f, hf, hx⟩)) r t hr
      match gs, hall with
      | g :: gs, hall =>
        refine ⟨.call g gs, names, t', ?_, .call hall, hdraws⟩
        rw [toSexp, toSexp]
        exact rename_plain (Sexp.scopeless_of_keyword hkeyword _) hruns

/-! ## What a renamed form inherits -/

/-- Renaming keeps which forms are atomic. -/
theorem Renamed.isAtomic_eq {r : Renaming} {f g : Form} {names : List Text}
    (h : Renamed r f g names) : g.isAtomic = f.isAtomic := by
  cases h <;> rfl

theorem RenamedAll.isAtomic {r : Renaming} {fs gs : List Form} {names : List Text}
    (h : RenamedAll r fs gs names) (hfs : ∀ f ∈ fs, f.isAtomic = true) :
    ∀ g ∈ gs, g.isAtomic = true := by
  induction gs generalizing fs names with
  | nil => exact nofun
  | cons g gs ih =>
    cases h with
    | cons hone hall =>
      obtain ⟨hf, hfs⟩ := List.forall_mem_cons.1 hfs
      exact List.forall_mem_cons.2 ⟨hone.isAtomic_eq.trans hf, ih hall hfs⟩

mutual

/-- **A renamed form is valid**, if the names that are bound before and after are plain. -/
theorem Renamed.valid {isPrimitive : Text → Bool} {r : Renaming} {f g : Form}
    {names : List Text} : Renamed r f g names → f.Valid isPrimitive →
    (∀ x ∈ f.binders, Plain isPrimitive x) → (∀ x ∈ names, x.EndsInDigit ∧ isPrimitive x = false) →
    r.Numbered → r.Sparing isPrimitive → g.Valid isPrimitive
  | .symbol s, hv, hplain, hnames, hr, hs => .constant (Or.inl rfl)
  | .constant he, hv, hplain, hnames, hr, hs => hv
  | .lambda hbinds hbody, hv, hplain, hnames, hr, hs => by
    rw [Form.binders] at hplain
    obtain ⟨hparams, hplain⟩ := List.forall_mem_append.1 hplain
    obtain ⟨hnew, hnames⟩ := List.forall_mem_append.1 hnames
    cases hv with
    | lambda vfirst vrest =>
      have hall := hbody.valid (List.forall_mem_cons.2 ⟨vfirst, vrest⟩) hplain hnames
        (hr.cons hbinds fun q hq => (hnew q hq).1)
        (hs.cons hbinds hparams fun q hq => (hnew q hq).2)
      obtain ⟨hfirst, hrest⟩ := List.forall_mem_cons.1 hall
      exact .lambda hfirst hrest
  | .branch hparts, hv, hplain, hnames, hr, hs => by
    rw [Form.binders] at hplain
    cases hv with
    | branch vtest vyes vno =>
      have hall := hparts.valid (by simp [vtest, vyes, vno])
        (by simpa only [Form.bindersAll, List.append_nil] using hplain) hnames hr hs
      exact .branch (hall _ (by simp)) (hall _ (by simp)) (hall _ (by simp))
  | .sequence hparts, hv, hplain, hnames, hr, hs => by
    rw [Form.binders] at hplain
    cases hv with
    | sequence vfirst vrest =>
      have hall := hparts.valid (List.forall_mem_cons.2 ⟨vfirst, vrest⟩) hplain hnames hr hs
      obtain ⟨hfirst, hrest⟩ := List.forall_mem_cons.1 hall
      exact .sequence hfirst hrest
  | .assign hvalue, hv, hplain, hnames, hr, hs => by
    rw [Form.binders] at hplain
    cases hv with
    | assign vvalue => exact .assign (hvalue.valid vvalue hplain hnames hr hs)
  | .letrec hbinds hbs hbody, hv, hplain, hnames, hr, hs => by
    rw [Form.binders, Form.bindersBindings_eq] at hplain
    simp only [List.forall_mem_append] at hplain hnames
    cases hv with
    | letrec vbs hatomic vfirst vrest =>
      have hr := hr.cons hbinds fun q hq => (hnames.1 q hq).1
      have hs := hs.cons hbinds hplain.1 fun q hq => (hnames.1 q hq).2
      have hvalues := hbs.valid (List.forall_mem_map.2 vbs) hplain.2.1 hnames.2.1 hr hs
      have hall := hbody.valid (List.forall_mem_cons.2 ⟨vfirst, vrest⟩)
        (List.forall_mem_append.2 hplain.2.2) hnames.2.2 hr hs
      obtain ⟨hfirst, hrest⟩ := List.forall_mem_cons.1 hall
      exact .letrec (List.forall_mem_map.1 hvalues)
        (List.forall_mem_map.1 (hbs.isAtomic (List.forall_mem_map.2 hatomic))) hfirst hrest
  | @Renamed.primitive _ op _ _ _ hargs, hv, hplain, hnames, hr, hs => by
    rw [Form.binders] at hplain
    cases hv with
    | primitive hkeyword hprimitive vargs =>
      have hsame : r.apply op = op := (hs op).resolve_right fun h => by
        rw [h.1.primitive] at hprimitive
        cases hprimitive
      rw [hsame]
      exact .primitive hkeyword hprimitive (hargs.valid vargs hplain hnames hr hs)
  | .call hparts, hv, hplain, hnames, hr, hs => by
    rw [Form.binders] at hplain
    cases hv with
    | call hfn vfn vargs =>
      have hall := hparts.valid (List.forall_mem_cons.2 ⟨vfn, vargs⟩) hplain hnames hr hs
      obtain ⟨vfn', vargs'⟩ := List.forall_mem_cons.1 hall
      refine .call ?_ vfn' vargs'
      rintro x rfl
      cases hparts with
      | cons hone _ =>
        obtain ⟨s, rfl, rfl, -⟩ := hone.eq_variable
        obtain ⟨hkeyword, hprimitive⟩ := hfn s rfl
        refine ⟨?_, ?_⟩
        · rcases hr s with h | h
          · rwa [h]
          · exact h.keyword_eq_none
        · rcases hs s with h | h
          · rwa [h]
          · exact h.2

theorem RenamedAll.valid {isPrimitive : Text → Bool} {r : Renaming} {fs gs : List Form}
    {names : List Text} : RenamedAll r fs gs names → (∀ f ∈ fs, f.Valid isPrimitive) →
    (∀ x ∈ Form.bindersAll fs, Plain isPrimitive x) →
    (∀ x ∈ names, x.EndsInDigit ∧ isPrimitive x = false) → r.Numbered → r.Sparing isPrimitive →
    ∀ g ∈ gs, g.Valid isPrimitive
  | .nil, _, _, _, _, _ => nofun
  | .cons hone hall, hv, hplain, hnames, hr, hs => by
    obtain ⟨vf, vfs⟩ := List.forall_mem_cons.1 hv
    obtain ⟨hnames, hnames'⟩ := List.forall_mem_append.1 hnames
    rw [Form.bindersAll] at hplain
    obtain ⟨hplain, hplain'⟩ := List.forall_mem_append.1 hplain
    exact List.forall_mem_cons.2 ⟨hone.valid vf hplain hnames hr hs,
      hall.valid vfs hplain' hnames' hr hs⟩

end

mutual

/-- **A renamed form is simply bound** if no name was drawn twice. -/
theorem Renamed.simplyBound {r : Renaming} {f g : Form} {names : List Text} :
    Renamed r f g names → f.SimplyBound → names.Nodup → g.SimplyBound
  | .symbol s, hs, hn => .constant _
  | .constant he, hs, hn => .constant _
  | .lambda hbinds hbody, hs, hn => by
    obtain ⟨hnew, hn, -⟩ := List.nodup_append.1 hn
    cases hs with
    | lambda _ hs => exact .lambda hnew (hbody.simplyBound hs hn)
  | .branch hparts, hs, hn => by
    cases hs with
    | branch stest syes sno =>
      have hall := hparts.simplyBound (by simp [stest, syes, sno]) hn
      exact .branch (hall _ (by simp)) (hall _ (by simp)) (hall _ (by simp))
  | .sequence hparts, hs, hn => by
    cases hs with
    | sequence hs => exact .sequence (hparts.simplyBound hs hn)
  | .assign hvalue, hs, hn => by
    cases hs with
    | assign hs => exact .assign (hvalue.simplyBound hs hn)
  | .letrec _ _ _, hs, _ => nomatch hs
  | .primitive hargs, hs, hn => by
    cases hs with
    | primitive hs => exact .primitive (hargs.simplyBound hs hn)
  | .call hparts, hs, hn => by
    cases hs with
    | call hs => exact .call (hparts.simplyBound hs hn)

theorem RenamedAll.simplyBound {r : Renaming} {fs gs : List Form} {names : List Text} :
    RenamedAll r fs gs names → (∀ f ∈ fs, f.SimplyBound) → names.Nodup → ∀ g ∈ gs, g.SimplyBound
  | .nil, _, _ => nofun
  | .cons hone hall, hs, hn => by
    obtain ⟨hs, hs'⟩ := List.forall_mem_cons.1 hs
    obtain ⟨hn, hn', -⟩ := List.nodup_append.1 hn
    exact List.forall_mem_cons.2 ⟨hone.simplyBound hs hn, hall.simplyBound hs' hn'⟩

end

end PassingStyle
