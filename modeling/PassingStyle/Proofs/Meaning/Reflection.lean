import PassingStyle.Proofs.Meaning.Simulation

/-!
# Converted programs do nothing else

If the code of a form runs to the end of the program, then the form can be evaluated: the
converted program does not stop where the program would have got stuck or gone on for
ever. The argument follows the converted code. Whenever an operand has been evaluated, the
machine is known to pass through the code after it, since it does one thing only, and it
has fewer steps to go from there. The body of a closure is not a part of the code that
calls it, so for calls the induction is on the number of steps.
-/

namespace PassingStyle

open Target (Reaches StopsIn Config atomValue)

/-- The machine passes through what it reaches. -/
theorem Target.StopsIn.of_reaches {W : World} {n : Nat} {s s' : Config} (h : StopsIn W n s)
    (hs : Reaches W s s') : ∃ j, j ≤ n ∧ StopsIn W j s' := by
  obtain ⟨k, hk⟩ := hs
  obtain ⟨j, rfl, hj⟩ := h.of_after hk
  exact ⟨j, Nat.le_add_left j k, hj⟩

/-- A step takes the machine nearer to the end. -/
theorem Target.StopsIn.of_step {W : World} {n : Nat} {s s' : Config} (h : StopsIn W n s)
    (hs : Target.step W s = some s') : ∃ j, j < n ∧ StopsIn W j s' := by
  obtain ⟨j, rfl, hj⟩ := h.of_after ((Target.after_succ (n := 0) hs).trans rfl)
  exact ⟨j, by omega, hj⟩

namespace Setting

variable (S : Setting) (W : World)

/-- **What is shown of code that comes to an end in `n` steps**: the form can be
evaluated. -/
def Reflects (n : Nat) : Prop :=
  ∀ ⦃f : Form⦄ ⦃c : Sexp⦄ ⦃names : List Text⦄ ⦃out : Sexp⦄ ⦃ρ ρ' : Env⦄ ⦃m : Store Form.Value⦄
    ⦃m' : Store Target.Value⦄, Image f c names out → S.Meets [f] names ρ ρ' m m' →
    S.Ready c (f.scopes ++ names) ρ' m' → StopsIn W n (.run out ρ' m') →
    ∃ v m₁, Eval W f ρ m v m₁

variable {S W}

/-- A single operand that can be evaluated is a form that can be. -/
theorem eval_of_operands {f : Form} {ρ : Env} {m m₁ : Store Form.Value} {operands : List Operand}
    (h : Operands W [f] ρ m operands m₁) : ∃ v, Eval W f ρ m v m₁ := by
  cases h with
  | later hf hnil =>
    cases hnil
    exact ⟨_, .atom hf⟩
  | known _ h hnil =>
    cases hnil
    exact ⟨_, h⟩

/-- A primitive that is applied was given data. -/
theorem primitive_of_step {op : Text} {as : List Sexp} {c : Sexp} {ρ : Env}
    {m : Store Target.Value} {ws : List Target.Value} {κ : Target.Value} {s : Config}
    (h : Target.step W (.run (Target.call (Target.primitive op) as c) ρ m) = some s)
    (has : List.Forall₂ (fun a w => atomValue a ρ m = some w) as ws)
    (hκ : atomValue c ρ m = some κ) :
    ∃ ds d, ws = ds.map .datum ∧ W.delta op ds = some d := by
  have hargs : (as ++ [c]).mapM (fun a => atomValue a ρ m) = some (ws ++ [κ]) :=
    Target.mapM_eq_some.2 (List.rel_append has (.cons hκ .nil))
  have h : Target.run W ρ m (.primitive op (as ++ [c])) = some s := h
  obtain ⟨vs, hvs, h⟩ := Option.bind_eq_some_iff.1 h
  obtain rfl := Option.some.inj (hargs.symm.trans hvs)
  obtain ⟨⟨ds, κ'⟩, hreceive, h⟩ := Option.bind_eq_some_iff.1 h
  obtain ⟨d, hd, _⟩ := Option.bind_eq_some_iff.1 h
  have hsplit := Target.receive_eq_some.1 hreceive
  exact ⟨ds, d, (List.append_inj' hsplit rfl).1, hd⟩

/-- An external procedure that is called was given data, and answers. -/
theorem external_of_step {p : Text} {ws : List Target.Value} {κ : Target.Value}
    {m : Store Target.Value} {s : Config}
    (h : Target.step W (.call (.datum (.external p)) (ws ++ [κ]) m) = some s) :
    ∃ ds d, ws = ds.map .datum ∧ W.oracle m.trace (p, ds) = some d := by
  obtain ⟨⟨ds, κ'⟩, hreceive, h⟩ := Option.bind_eq_some_iff.1 h
  obtain ⟨d, hd, _⟩ := Option.bind_eq_some_iff.1 h
  have hsplit := Target.receive_eq_some.1 hreceive
  exact ⟨ds, d, (List.append_inj' hsplit rfl).1, hd⟩

/-- **A call that comes to an end** is an application that can be evaluated. -/
theorem apply_of_stops {n : Nat} (hbelow : ∀ j, j < n → S.Reflects W j) {fn : Form.Value}
    {args : List Form.Value} {m : Store Form.Value} {fn' κ : Target.Value}
    {args' : List Target.Value} {m' : Store Target.Value} (hfn : S.ValueRel fn fn')
    (hargs : List.Forall₂ S.ValueRel args args') (hstore : S.StoreRel m m')
    (hstops : StopsIn W n (.call fn' (args' ++ [κ]) m')) : ∃ v m₁, Apply W fn args m v m₁ := by
  obtain ⟨s, j, hstep, rfl, hj⟩ := hstops.step nofun
  cases hfn with
  | datum d =>
    cases d with
    | external p =>
      obtain ⟨ds, d, rfl, hd⟩ := external_of_step hstep
      obtain rfl := ValueRel.data_right.1 hargs
      rw [hstore.trace] at hd
      exact ⟨_, _, .external hd⟩
    | _ => cases hstep
  | @closure params first rest k names body ρ ρ' htidy hfresh himage hagree =>
    have hlength : params.length = args.length := by
      have hif : (params ++ [k]).length = (args' ++ [κ]).length := by
        by_contra hne
        have : Target.step W (.call (.closure (params ++ [k]) body ρ') (args' ++ [κ]) m') = none :=
          if_neg hne
        rw [this] at hstep
        cases hstep
      rw [List.length_append, List.length_append] at hif
      rw [hargs.length_eq]
      exact Nat.succ.inj hif
    -- inside the closure the machine has fewer steps to go
    obtain ⟨k', names', body', ρ₁, m₁', hstep', himage', hmeets, hholds, hnames, _⟩ :=
      enter_closure (W := W) (.closure htidy hfresh himage hagree) hargs hstore hlength κ
    rw [hstep'] at hstep
    cases hstep
    obtain ⟨v, m₁, heval⟩ := hbelow j (Nat.lt_succ_self j) himage' hmeets
      (hholds.ready (hmeets.drawn_not_changed_one hholds.drawn hnames)) hj
    exact ⟨v, m₁, .closure hlength heval⟩

end Setting

section

variable {S : Setting} {W : World}

mutual

/-- Code that comes to an end comes from a form that can be evaluated, if this is known
of code that comes to an end sooner. -/
theorem Image.reflects {n : Nat} (hbelow : ∀ j, j < n → S.Reflects W j) {f : Form} {c : Sexp}
    {names : List Text} {out : Sexp} {ρ ρ' : Env} {m : Store Form.Value} {m' : Store Target.Value} :
    Image f c names out → S.Meets [f] names ρ ρ' m m' → S.Ready c (f.scopes ++ names) ρ' m' →
    StopsIn W n (.run out ρ' m') → ∃ v m₁, Eval W f ρ m v m₁
  | .atom ha, hmeets, hready, hstops => by
    cases ha with
    | constant => exact ⟨_, _, .atom rfl⟩
    | lambda _ => exact ⟨_, _, .atom rfl⟩
  | @Image.branch _ _ _ _ _ _ _ _ _ _ _ body hyes hno htest, hmeets, hready, hstops => by
    obtain ⟨ρ₀, m₀', κ, hκ, hbind, hparts, hholds, hktest, hksides, _⟩ :=
      Setting.enter_branch (W := W) body hmeets hready
    obtain ⟨j₀, hj₀, hstops⟩ := hstops.of_reaches hbind
    have hbelow₀ : ∀ j, j < j₀ → S.Reflects W j := fun j hj => hbelow j (hj.trans_le hj₀)
    obtain ⟨_, m₁, hoperands⟩ := htest.reflects hbelow₀ hparts.head hstops
    obtain ⟨u, heval⟩ := Setting.eval_of_operands hoperands
    obtain ⟨ρ₁, m₁', w, hreach, hw, hu, hstore, hmoved⟩ :=
      heval.simulates.single heval htest hparts.head
    -- the machine has passed through the test
    obtain ⟨j₁, hj₁, hstops⟩ := hstops.of_reaches
      (hreach.trans (.step (Target.step_branch hw)))
    have hbelow₁ : ∀ j, j < j₁ → S.Reflects W j := fun j hj => hbelow₀ j (hj.trans_le hj₁)
    have hsides := hparts.tail hstore hmoved
    have hholds := hholds.moved hmoved (hparts.head.drawn_not_changed_one hholds.drawn hktest)
    rw [hu.isTrue_eq] at hstops
    rw [List.mem_append, not_or] at hksides
    cases htrue : u.isTrue with
    | true =>
      rw [htrue] at hstops
      obtain ⟨v, m₂, hside⟩ := hyes.reflects hbelow₁ hsides.head
        (hholds.ready (hsides.head.drawn_not_changed_one hholds.drawn hksides.1)) hstops
      exact ⟨v, m₂, .branch heval (by rw [htrue]; exact hside)⟩
    | false =>
      rw [htrue] at hstops
      have hlast := hsides.tail hstore (.refl _ _ _)
      obtain ⟨v, m₂, hside⟩ := hno.reflects hbelow₁ hlast
        (hholds.ready (hlast.drawn_not_changed_one hholds.drawn hksides.2)) hstops
      exact ⟨v, m₂, .branch heval (by rw [htrue]; exact hside)⟩
  | .last h, hmeets, hready, hstops => by
    have hone := hmeets.last
    obtain ⟨v, m₁, heval⟩ := h.reflects hbelow hone (hready.mono fun x hx => by
      rw [Form.scopes, Form.scopesAll, List.append_nil]
      exact hx) hstops
    exact ⟨v, m₁, .last heval⟩
  | .next hrest hfirst, hmeets, hready, hstops => by
    have hparts := hmeets.sequence
    obtain ⟨_, m₁, hoperands⟩ := hfirst.reflects hbelow hparts.head hstops
    obtain ⟨u, heval⟩ := Setting.eval_of_operands hoperands
    obtain ⟨ρ₁, m₁', w, hreach, _, _, hstore, hmoved⟩ :=
      heval.simulates.single heval hfirst hparts.head
    obtain ⟨j, hj, hstops⟩ := hstops.of_reaches hreach
    obtain ⟨v, m₂, hrest⟩ := hrest.reflects (fun i hi => hbelow i (hi.trans_le hj))
      (hparts.tail hstore hmoved) (hready.next hmoved) hstops
    exact ⟨v, m₂, .next heval hrest⟩
  | .assign h, hmeets, hready, hstops => by
    obtain ⟨_, m₁, hoperands⟩ := h.reflects hbelow hmeets.assign hstops
    obtain ⟨u, heval⟩ := Setting.eval_of_operands hoperands
    exact ⟨_, _, .assign heval⟩
  | @Image.letrec _ _ _ _ _ _ _ body hbindings hbody, hmeets, hready, hstops => by
    obtain ⟨ρ₁, m₁', hstep, hmeets', hmoved⟩ :=
      Setting.enter_letrec (W := W) body hbindings hmeets
    obtain ⟨j, hj, hstops⟩ := hstops.of_step hstep
    obtain ⟨v, m₁, heval⟩ := hbody.reflects (fun i hi => hbelow i (hi.trans hj)) hmeets'
      (hready.letrec hmoved) hstops
    exact ⟨v, m₁, .letrec heval⟩
  | .primitive h, hmeets, hready, hstops => by
    obtain ⟨operands, m₁, hoperands⟩ := h.reflects hbelow hmeets.primitive hstops
    obtain ⟨ρ₁, m₁', hreach, hvalues, hstore, hmoved⟩ := hoperands.simulates h hmeets.primitive
    obtain ⟨κ, hκ⟩ := (hready.moved (by rw [Form.scopes]; exact hmoved)).exists_value
    obtain ⟨ws, hws, hrel⟩ := Setting.exists_values hvalues
    obtain ⟨j, hj, hstops⟩ := hstops.of_reaches hreach
    obtain ⟨s, _, hstep, _⟩ := hstops.step nofun
    obtain ⟨ds, d, rfl, hd⟩ := Setting.primitive_of_step hstep hws hκ
    exact ⟨_, _, .primitive hoperands (Setting.ValueRel.data_right.1 hrel) hd⟩
  | .call h, hmeets, hready, hstops => by
    obtain ⟨operands, m₁, hoperands⟩ := h.reflects hbelow hmeets.call hstops
    obtain ⟨ρ₁, m₁', hreach, hvalues, hstore, hmoved⟩ := hoperands.simulates h hmeets.call
    have hkeyword := h.keyword_eq_none (hmeets.tidy.valid _ List.mem_cons_self)
      fun x hx => S.numbered x (hmeets.fresh.mem x hx)
    obtain ⟨κ, hκ⟩ := (hready.moved (by rw [Form.scopes]; exact hmoved)).exists_value
    cases hvalues with
    | cons hvalue hvalues =>
      obtain ⟨w, hw, hrel⟩ := hvalue
      obtain ⟨ws, hws, hrels⟩ := Setting.exists_values hvalues
      obtain ⟨j, hj, hstops⟩ := hstops.of_reaches
        (hreach.trans (.step (Target.step_call hkeyword hready.receiver hw hws hκ)))
      obtain ⟨v, m₂, happly⟩ := Setting.apply_of_stops (fun i hi => hbelow i (hi.trans_le hj))
        hrel hrels hstore hstops
      exact ⟨v, m₂, .call hoperands happly⟩

/-- The same for operands: all of them can be evaluated. -/
theorem OperandsImage.reflects {n : Nat} (hbelow : ∀ j, j < n → S.Reflects W j) {fs : List Form}
    {names : List Text} {as : List Sexp} {body out : Sexp} {ρ ρ' : Env} {m : Store Form.Value}
    {m' : Store Target.Value} : OperandsImage fs names as body out →
    S.Meets fs names ρ ρ' m m' → StopsIn W n (.run out ρ' m') →
    ∃ operands m₁, Operands W fs ρ m operands m₁
  | .nil, _, _ => ⟨[], m, .nil⟩
  | .atomic ha hrest, hmeets, hstops => by
    obtain ⟨operands, m₁, hoperands⟩ := hrest.reflects hbelow
      (hmeets.tail hmeets.store (.refl _ _ _)) hstops
    refine ⟨_, m₁, .later ?_ hoperands⟩
    cases ha <;> rfl
  | .settled hf hrest h, hmeets, hstops => by
    obtain ⟨v, m₁, heval⟩ := h.reflects hbelow hmeets.head.drop
      ⟨.lambda _ _, nofun, nofun⟩ hstops
    obtain ⟨ρ₁, m₁', v', hreach, _, _, hstore, hmoved⟩ := heval.simulates.settle h hmeets.head
    obtain ⟨j, hj, hstops⟩ := hstops.of_reaches hreach
    obtain ⟨operands, m₂, hoperands⟩ := hrest.reflects (fun i hi => hbelow i (hi.trans_le hj))
      (hmeets.tail hstore hmoved) hstops
    exact ⟨_, m₂, .known hf heval hoperands⟩

end

/-- **Code that comes to an end comes from a form that can be evaluated.** -/
theorem Setting.reflects (n : Nat) : S.Reflects W n := by
  induction n using Nat.strong_induction_on with
  | h n ih =>
    intro f c names out ρ ρ' m m' himage hmeets hready hstops
    exact himage.reflects ih hmeets hready hstops

end

end PassingStyle
