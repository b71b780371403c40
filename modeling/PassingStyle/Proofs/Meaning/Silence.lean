import PassingStyle.Proofs.Meaning.Target

/-!
# Programs without an end

If the conversion moves the final continuation into the scope of a recursive binding of
the same name, the variable does not mean the final continuation any more. Nothing else
in the converted program mentions it, so the converted program cannot come to its end,
whatever happens.

This is shown in two parts. A variable that is bound around the end of a form is not free
in its code, and a machine never stops that runs code without mentioning the final
continuation: all that it could come by are values that do not mention it either.
-/

namespace PassingStyle

/-! ## Code -/

section

variable {isPrimitive : Text → Bool} {x : Text}

/-- A variable that is free neither in operands nor in the code after them is not free in
their code. -/
theorem OperandsImage.not_mem_free_of_body {fs : List Form} {names : List Text} {as : List Sexp}
    {body out : Sexp} (h : OperandsImage fs names as body out)
    (hv : ∀ f ∈ fs, f.Valid isPrimitive) (hn : ∀ g ∈ names, g.EndsInDigit)
    (hx : x ≠ undefinedName) (hfree : x ∉ Form.freeAll fs) (hbody : x ∉ body.free) :
    x ∉ out.free := by
  intro hin
  obtain ⟨_, _, hout⟩ := h.free hv hn
  rcases hout x hin with hin | hin | ⟨hin, _⟩
  · exact hfree hin
  · exact hx hin
  · exact hbody hin

mutual

/-- **What is bound around the end of a form is not free in its code**, not even if the
continuation mentions it. -/
theorem Image.not_mem_free {f : Form} {c : Sexp} {names : List Text} {out : Sexp} :
    Image f c names out → f.Valid isPrimitive → (∀ g ∈ names, g.EndsInDigit) →
    Keyword.of? c = none → x ≠ undefinedName → x ∈ f.scopes → x ∉ f.free → x ∉ out.free
  | .atom ha, hv, hn, hc, hx, hin, hfree => by
    cases ha <;> cases hin
  | .branch hyes hno htest, hv, hn, hc, hx, hin, hfree => by
    cases hin
  | .last h, hv, hn, hc, hx, hin, hfree => by
    cases hv with
    | sequence vfirst _ =>
      rw [Form.scopes, Form.scopesAll, List.append_nil] at hin
      rw [Form.free, Form.freeAll, List.append_nil] at hfree
      exact h.not_mem_free vfirst hn hc hx hin hfree
  | .next hrest hfirst, hv, hn, hc, hx, hin, hfree => by
    obtain ⟨hn, hn'⟩ := List.forall_mem_append.1 hn
    cases hv with
    | sequence vfirst vrest =>
      obtain ⟨vnext, vrest⟩ := List.forall_mem_cons.1 vrest
      have hfirst' := List.forall_mem_singleton.2 vfirst
      simp only [Form.scopes, Form.scopesAll, Form.free, Form.freeAll, List.mem_append,
        not_or] at hin hfree
      rcases hin with hin | hin
      · exact hfirst.not_mem_free hfirst' hn hx (by simpa [Form.scopesAll] using hin)
          (by simpa [Form.freeAll] using hfree.1)
      · have hrest := hrest.not_mem_free (.sequence vnext vrest) hn' hc hx
          (by simpa [Form.scopes] using hin) (by simpa [Form.free] using hfree.2)
        exact hfirst.not_mem_free_of_body hfirst' hn hx (by simpa [Form.freeAll] using hfree.1)
          hrest
  | .assign h, hv, hn, hc, hx, hin, hfree => by
    cases hv with
    | assign vvalue =>
      rw [Form.scopes] at hin
      rw [Form.free, List.mem_cons, not_or] at hfree
      exact h.not_mem_free (List.forall_mem_singleton.2 vvalue) hn hx
        (by simpa [Form.scopesAll] using hin) (by simpa [Form.freeAll] using hfree.2)
  | .letrec hbindings hbody, hv, hn, hc, hx, hin, hfree => by
    obtain ⟨hn, hn'⟩ := List.forall_mem_append.1 hn
    cases hv with
    | letrec vbindings _ vfirst vrest =>
      rw [Target.mem_free_letrec, hbindings.bindingNames]
      rintro ⟨hout, hnames⟩
      rw [Form.scopes, List.mem_append] at hin
      rw [Form.free, List.mem_filter, decide_eq_true_eq, List.mem_append] at hfree
      rcases hout with hout | hout
      · rcases hbindings.free vbindings hn x hout with hout | hout | hout
        · exact hfree ⟨Or.inl hout, hnames⟩
        · exact List.not_mem_nil hout
        · exact hx hout
      · refine hbody.not_mem_free (.sequence vfirst vrest) hn' hc hx ?_ ?_ hout
        · rw [Form.scopes]
          exact hin.resolve_left hnames
        · rw [Form.free]
          exact fun hin => hfree ⟨Or.inr hin, hnames⟩
  | .primitive h, hv, hn, hc, hx, hin, hfree => by
    cases hv with
    | primitive _ _ vargs =>
      rw [Form.scopes] at hin
      rw [Form.free] at hfree
      exact h.not_mem_free vargs hn hx hin hfree
  | .call h, hv, hn, hc, hx, hin, hfree => by
    cases hv with
    | call _ vfn vargs =>
      rw [Form.scopes] at hin
      rw [Form.free] at hfree
      exact h.not_mem_free (List.forall_mem_cons.2 ⟨vfn, vargs⟩) hn hx hin hfree

theorem OperandsImage.not_mem_free {fs : List Form} {names : List Text} {as : List Sexp}
    {body out : Sexp} : OperandsImage fs names as body out → (∀ f ∈ fs, f.Valid isPrimitive) →
    (∀ g ∈ names, g.EndsInDigit) → x ≠ undefinedName → x ∈ Form.scopesAll fs →
    x ∉ Form.freeAll fs → x ∉ out.free
  | .nil, _, _, _, hin, _ => absurd hin List.not_mem_nil
  | .atomic ha hrest, hv, hn, hx, hin, hfree => by
    obtain ⟨_, vfs⟩ := List.forall_mem_cons.1 hv
    obtain ⟨_, hn'⟩ := List.forall_mem_append.1 hn
    rw [Form.freeAll, List.mem_append, not_or] at hfree
    refine hrest.not_mem_free vfs hn' hx ?_ hfree.2
    cases ha <;> simpa [Form.scopesAll, Form.scopes] using hin
  | @OperandsImage.settled _ _ rv _ _ _ _ inner _ _ hrest h, hv, hn, hx, hin, hfree => by
    obtain ⟨vf, vfs⟩ := List.forall_mem_cons.1 hv
    obtain ⟨hn, hn'⟩ := List.forall_mem_append.1 hn
    obtain ⟨_, hn⟩ := List.forall_mem_cons.1 hn
    rw [Form.freeAll, List.mem_append, not_or] at hfree
    rw [Form.scopesAll, List.mem_append] at hin
    rcases hin with hin | hin
    · exact h.not_mem_free vf hn rfl hx hin hfree.1
    -- the code after the operand does not mention the variable
    · have hinner := hrest.not_mem_free vfs hn' hx hin hfree.2
      intro hout
      rcases h.free vf hn rfl x hout with hout | hout | hout
      · exact hfree.1 hout
      · exact hinner (Target.mem_free_lambda.1 hout).1
      · exact hx hout

end

end

/-! ## Machines -/

namespace Target

/-- The variable `x` is local where it is free in an expression. -/
def Hides (x : Text) (ρ : Env) (e : Sexp) : Prop := x ∈ e.free → ρ x ≠ 0

/-- **A quiet value** is not the final continuation and does not mention the global
variable `x`. -/
def Value.Quiet (x : Text) : Value → Prop
  | datum _ => True
  | closure params body ρ => x ∉ params → Hides x ρ body
  | halt => False

/-- **A quiet store** holds quiet values, the global variable `x` apart. -/
def QuietStore (x : Text) (m : Store Value) : Prop :=
  ∀ y n, ¬ (y = x ∧ n = 0) → (m.cell y n).Quiet x

/-- **A quiet machine** has no way to come by the final continuation. -/
def Config.Quiet (x : Text) : Config → Prop
  | run e ρ m => Hides x ρ e ∧ QuietStore x m
  | call fn args m => fn.Quiet x ∧ (∀ v ∈ args, v.Quiet x) ∧ QuietStore x m
  | done _ _ => False

/-- What a call mentions of the global variable `x`, by its shape: nothing. -/
def View.Quiet (x : Text) (ρ : Env) : View → Prop
  | branch test yes no => Hides x ρ test ∧ Hides x ρ yes ∧ Hides x ρ no
  | letrec bindings body => x ∉ bindings.map Prod.fst →
    (∀ b ∈ bindings, Hides x ρ b.2) ∧ Hides x ρ body
  | assign _ value rest => Hides x ρ value ∧ Hides x ρ rest
  | primitive _ args => ∀ a ∈ args, Hides x ρ a
  | call fn args => Hides x ρ fn ∧ ∀ a ∈ args, Hides x ρ a

section

variable {W : World} {x : Text} {ρ : Env} {m : Store Value}

theorem QuietStore.write (h : QuietStore x m) {v : Value} (hv : v.Quiet x) (y : Text) (n : Nat) :
    QuietStore x (m.write y n v) := by
  intro z k hne
  by_cases hcell : z = y ∧ k = n
  · rw [hcell.1, hcell.2, Store.write_cell_self]
    exact hv
  · rw [Store.write_cell_of_ne _ _ hcell]
    exact h z k hne

theorem QuietStore.assignAll (h : QuietStore x m) {vs : List Value}
    (hvs : ∀ v ∈ vs, v.Quiet x) (xs : List Text) (ρ : Env) :
    QuietStore x (Store.assignAll xs vs ρ m) := by
  induction xs generalizing vs m with
  | nil => exact h
  | cons y xs ih =>
    cases vs with
    | nil => exact h
    | cons v vs =>
      obtain ⟨hv, hvs⟩ := List.forall_mem_cons.1 hvs
      exact ih (h.write hv y _) hvs

/-- Quiet values are bound in a quiet store. -/
theorem QuietStore.bindAll (h : QuietStore x m) {vs : List Value}
    (hvs : ∀ v ∈ vs, v.Quiet x) (xs : List Text) (ρ : Env) :
    QuietStore x (Store.bindAll xs vs ρ m).2 := by
  induction xs generalizing vs m ρ with
  | nil => exact h
  | cons y xs ih =>
    cases vs with
    | nil => exact h
    | cons v vs =>
      obtain ⟨hv, hvs⟩ := List.forall_mem_cons.1 hvs
      exact ih (m := m.push y v) (h.write hv y _) hvs _

/-- An atom of quiet code has a quiet value. -/
theorem atomValue_quiet {a : Sexp} {v : Value} (h : atomValue a ρ m = some v)
    (ha : Hides x ρ a) (hm : QuietStore x m) : v.Quiet x := by
  unfold atomValue at h
  split at h
  next y =>
    cases h
    refine hm y _ fun hyx => ?_
    obtain ⟨rfl, hzero⟩ := hyx
    exact ha (List.mem_singleton_self y) hzero
  next head params body =>
    split at h
    next hk =>
      cases h
      obtain rfl := Keyword.eq_sexp_of_of? hk
      intro hparams hbody
      refine ha (List.mem_filter.2 ⟨?_, decide_eq_true hparams⟩)
      rw [Sexp.freeAll, Sexp.freeAll, List.append_nil]
      exact hbody
    · cases h
  next =>
    split at h
    · cases h
      trivial
    · cases h
  next => cases h
  next =>
    cases h
    trivial

/-- Atoms of quiet code have quiet values. -/
theorem atomValues_quiet {α : Type} {as : List α} {code : α → Sexp} {vs : List Value}
    (h : as.mapM (fun a => atomValue (code a) ρ m) = some vs)
    (has : ∀ a ∈ as, Hides x ρ (code a)) (hm : QuietStore x m) : ∀ v ∈ vs, v.Quiet x := by
  have h := mapM_eq_some.1 h
  induction h with
  | nil => exact fun v hv => absurd hv List.not_mem_nil
  | cons hv _ ih =>
    obtain ⟨ha, has⟩ := List.forall_mem_cons.1 has
    rename_i hvs _
    exact List.forall_mem_cons.2 ⟨atomValue_quiet hv ha hm, ih (mapM_eq_some.2 hvs) has⟩

/-- The names and the values of bindings. -/
theorem bindings?_eq_some {es : List Sexp} {bs : List (Text × Sexp)}
    (h : bindings? es = some bs) : Sexp.bindingNames es = bs.map Prod.fst ∧
      ∀ b ∈ bs, ∀ x ∈ b.2.free, x ∈ Sexp.freeBindings es := by
  induction es generalizing bs with
  | nil =>
    cases h
    exact ⟨rfl, nofun⟩
  | cons e es ih =>
    unfold bindings? at h
    split at h
    next heq => cases heq
    next y a es' heq =>
      cases heq
      obtain ⟨bs, hbs, rfl⟩ := Option.map_eq_some_iff.1 h
      obtain ⟨hnames, hvalues⟩ := ih hbs
      refine ⟨by rw [Sexp.bindingNames, hnames]; rfl, List.forall_mem_cons.2 ⟨?_, ?_⟩⟩
      · intro x hx
        rw [Sexp.freeBindings, Sexp.freeAll, Sexp.freeAll, List.append_nil]
        exact List.mem_append_left _ hx
      · intro b hb x hx
        rw [Sexp.freeBindings]
        exact List.mem_append_right _ (hvalues b hb x hx)
    · cases h

/-- The elements of a list that binds nothing are a part of it. -/
theorem Hides.arg {head : Sexp} {args : List Sexp} (h : Hides x ρ (.list (head :: args)))
    (hquote : Keyword.of? head ≠ some .quote) (hlambda : Keyword.of? head ≠ some .lambda)
    (hletrec : Keyword.of? head ≠ some .letrec) : ∀ a ∈ args, Hides x ρ a := by
  intro a ha hin
  refine h ?_
  unfold Sexp.free
  split
  next hk => exact absurd hk hquote
  next hk => exact absurd hk hlambda
  next hk => exact absurd hk hletrec
  next => exact List.mem_append_right _ (Sexp.mem_freeAll.2 ⟨a, ha, hin⟩)

/-- The head of a call is a part of it, unless it is a primitive. -/
theorem Hides.head (hx : x.EndsInDigit) {head : Sexp} {args : List Sexp}
    (h : Hides x ρ (.list (head :: args))) (hk : Keyword.of? head = none)
    (hprimitive : ∀ s op, head = .list [.symbol s, .symbol op] → s ≠ Text.ofString "cps") :
    Hides x ρ head := by
  intro hin
  refine h ?_
  unfold Sexp.free
  rw [hk]
  refine List.mem_append_left _ ?_
  rw [if_neg]
  · exact hin
  intro hoperator
  unfold Sexp.isOperator at hoperator
  split at hoperator
  next s =>
    -- only `set-then!` is an operator, and it does not end in a digit
    rw [hk] at hoperator
    obtain ⟨hs, _⟩ := Bool.and_eq_true_iff.1 hoperator
    rw [Sexp.free, List.mem_singleton, beq_iff_eq.1 hs] at hin
    exact hx.ne rfl rfl hin
  next s op => exact hprimitive s op rfl (beq_iff_eq.1 hoperator)
  · cases hoperator

/-- **Quiet code has quiet parts.** -/
theorem view_quiet (hx : x.EndsInDigit) {e : Sexp} {V : View} (h : view e = some V)
    (he : Hides x ρ e) : V.Quiet x ρ := by
  unfold view at h
  split at h
  next head args =>
    split at h
    next test yes no hk =>
      cases h
      have hargs := he.arg (by rw [hk]; decide) (by rw [hk]; decide) (by rw [hk]; decide)
      exact ⟨hargs _ (by simp), hargs _ (by simp), hargs _ (by simp)⟩
    next es body hk =>
      obtain ⟨bs, hbs, rfl⟩ := Option.map_eq_some_iff.1 h
      obtain rfl := Keyword.eq_sexp_of_of? hk
      obtain ⟨hnames, hvalues⟩ := bindings?_eq_some hbs
      intro hnot
      rw [← hnames] at hnot
      refine ⟨fun b hb hin => he ?_, fun hin => he ?_⟩
      · exact mem_free_letrec.2 ⟨Or.inl (hvalues b hb x hin), hnot⟩
      · exact mem_free_letrec.2 ⟨Or.inr hin, hnot⟩
    next => cases h
    next hk =>
      cases h
      have hargs := he.arg (by rw [hk]; decide) (by rw [hk]; decide) (by rw [hk]; decide)
      unfold viewCall
      split
      next =>
        split
        · exact ⟨hargs _ (by simp), hargs _ (by simp)⟩
        · refine ⟨he.head hx hk fun s op heq => ?_, hargs⟩
          cases heq
      next =>
        split
        · exact hargs
        next hs =>
          refine ⟨he.head hx hk fun s op heq => ?_, hargs⟩
          cases heq
          exact hs
      next hne _ =>
        exact ⟨he.head hx hk fun s op heq => absurd heq (hne s op), hargs⟩
  · cases h

/-- **Running quiet code** is quiet. -/
theorem run_quiet {V : View} {s : Config} (h : run W ρ m V = some s) (hV : V.Quiet x ρ)
    (hm : QuietStore x m) : s.Quiet x := by
  cases V with
  | branch test yes no =>
    obtain ⟨v, _, h⟩ := Option.bind_eq_some_iff.1 h
    cases h
    refine ⟨?_, hm⟩
    cases v.isTrue with
    | true => exact hV.2.1
    | false => exact hV.2.2
  | letrec bindings body =>
    obtain ⟨vs, hvs, h⟩ := Option.bind_eq_some_iff.1 h
    cases h
    have hunset : ∀ v ∈ (bindings.map Prod.fst).map fun _ => Value.datum .undefined,
        v.Quiet x := List.forall_mem_map.2 fun _ _ => trivial
    -- what the binding binds is local inside it
    have hinside : ∀ e, (x ∉ bindings.map Prod.fst → Hides x ρ e) →
        Hides x (Store.bindAll (bindings.map Prod.fst)
          ((bindings.map Prod.fst).map fun _ => .datum .undefined) ρ m).1 e := fun e he hin =>
      Store.bindAll_env_ne_zero (List.length_map _).symm (fun hx => he hx hin) m
    have hbound := hm.bindAll hunset (bindings.map Prod.fst) ρ
    refine ⟨hinside body fun hx => (hV hx).2, hbound.assignAll ?_ _ _⟩
    exact atomValues_quiet hvs (fun b hb => hinside b.2 fun hx => (hV hx).1 b hb) hbound
  | assign y a rest =>
    obtain ⟨v, hv, h⟩ := Option.bind_eq_some_iff.1 h
    cases h
    exact ⟨hV.2, hm.write (atomValue_quiet hv hV.1 hm) _ _⟩
  | primitive op args =>
    obtain ⟨vs, hvs, h⟩ := Option.bind_eq_some_iff.1 h
    obtain ⟨⟨ds, κ⟩, hreceive, h⟩ := Option.bind_eq_some_iff.1 h
    obtain ⟨d, _, h⟩ := Option.bind_eq_some_iff.1 h
    cases h
    have hκ := atomValues_quiet hvs hV hm κ (by
      rw [receive_eq_some.1 hreceive]
      exact List.mem_append_right _ (List.mem_singleton_self κ))
    exact ⟨hκ, List.forall_mem_singleton.2 trivial, hm⟩
  | call fn args =>
    obtain ⟨w, hw, h⟩ := Option.bind_eq_some_iff.1 h
    obtain ⟨vs, hvs, h⟩ := Option.bind_eq_some_iff.1 h
    cases h
    exact ⟨atomValue_quiet hw hV.1 hm, atomValues_quiet hvs hV.2 hm, hm⟩

/-- **A step of a quiet machine** leaves it quiet. -/
theorem step_quiet (hx : x.EndsInDigit) {s s' : Config} (h : step W s = some s')
    (hs : s.Quiet x) : s'.Quiet x := by
  cases s with
  | run e ρ m =>
    obtain ⟨V, hV, h⟩ := Option.bind_eq_some_iff.1 h
    exact run_quiet h (view_quiet hx hV hs.1) hs.2
  | done v m => exact hs.elim
  | call fn args m =>
    obtain ⟨hfn, hargs, hm⟩ := hs
    cases fn with
    | halt => exact hfn.elim
    | closure params body ρ =>
      by_cases hlength : params.length = args.length
      · rw [step_closure hlength] at h
        cases h
        exact ⟨fun hin => Store.bindAll_env_ne_zero hlength (fun hp => hfn hp hin) m,
          hm.bindAll hargs params ρ⟩
      · have hstuck : step W (.call (.closure params body ρ) args m) = none := if_neg hlength
        rw [hstuck] at h
        cases h
    | datum d =>
      cases d with
      | external p =>
        obtain ⟨⟨ds, κ⟩, hreceive, h⟩ := Option.bind_eq_some_iff.1 h
        obtain ⟨d, _, h⟩ := Option.bind_eq_some_iff.1 h
        cases h
        have hκ := hargs κ (by
          rw [receive_eq_some.1 hreceive]
          exact List.mem_append_right _ (List.mem_singleton_self κ))
        exact ⟨hκ, List.forall_mem_singleton.2 trivial, hm⟩
      | _ => cases h

/-- **A quiet machine never stops.** -/
theorem not_reaches_done (hx : x.EndsInDigit) {s : Config} (hs : s.Quiet x) (v : Value)
    (m : Store Value) : ¬ Reaches W s (.done v m) := by
  rintro ⟨n, hn⟩
  induction n generalizing s with
  | zero =>
    cases hn
    exact hs
  | succ n ih =>
    obtain ⟨s₁, hstep, hn⟩ := Option.bind_eq_some_iff.1 hn
    exact ih (step_quiet hx hstep hs) hn

/-- In the beginning, only the final continuation is not quiet. -/
theorem start_quiet (W : World) (halt : Text) : QuietStore halt (start W halt) := by
  intro y n hne
  have hcell : (start W halt).cell y n = .datum (W.globals y) := if_neg hne
  rw [hcell]
  trivial

end

end Target

/-- **A program whose end was captured never comes to it.** -/
theorem Image.not_reaches_done {isPrimitive : Text → Bool} {f : Form} {halt : Text}
    {names : List Text} {out : Sexp} (h : Image f (.symbol halt) names out)
    (hv : f.Valid isPrimitive) (hn : ∀ g ∈ names, g.EndsInDigit) (hhalt : halt.EndsInDigit)
    (hin : halt ∈ f.scopes) (hfree : halt ∉ f.free) (W : World) (v : Target.Value)
    (m : Store Target.Value) :
    ¬ Target.Reaches W (.run out Env.global (Target.start W halt)) (.done v m) := by
  have hout := h.not_mem_free hv hn hhalt.keyword_eq_none hhalt.ne_undefined hin hfree
  have hquiet : (Target.Config.run out Env.global (Target.start W halt)).Quiet halt :=
    ⟨fun hin => absurd hin hout, Target.start_quiet W halt⟩
  exact Target.not_reaches_done hhalt hquiet v m

end PassingStyle
