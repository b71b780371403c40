import PassingStyle.Form

/-!
# The forms that analysis builds

Not every value of the type of forms comes from an expression. Those that do are
*valid*: a constant is no list unless it is quoted, the values of a recursive
binding are atomic, and no keyword stands where a function is called. Analysis
builds valid forms only, and writing a form back gives the expression that it was
made from, so nothing of an expression is lost in its form. Conversely every valid form
is what analysis makes of the expression that it is written as.
-/

namespace PassingStyle

namespace Form

/-! ## Valid forms -/

/-- **A constant**: an expression that is no list, or quoted data. -/
def IsConstant (e : Sexp) : Prop :=
  e.isList = false ∨ ∃ d, e = .list [Keyword.quote.sexp, d]

/-- **A form that analysis can build**, given which names are primitives. -/
inductive Valid (isPrimitive : Text → Bool) : Form → Prop
  | constant {e : Sexp} : IsConstant e → Valid isPrimitive (.constant e)
  | lambda {params : List Text} {first : Form} {rest : List Form} :
      Valid isPrimitive first → (∀ f ∈ rest, Valid isPrimitive f) →
      Valid isPrimitive (.lambda params first rest)
  | branch {test yes no : Form} :
      Valid isPrimitive test → Valid isPrimitive yes → Valid isPrimitive no →
      Valid isPrimitive (.branch test yes no)
  | sequence {first : Form} {rest : List Form} :
      Valid isPrimitive first → (∀ f ∈ rest, Valid isPrimitive f) →
      Valid isPrimitive (.sequence first rest)
  | assign {name : Text} {value : Form} :
      Valid isPrimitive value → Valid isPrimitive (.assign name value)
  | letrec {bindings : List (Text × Form)} {first : Form} {rest : List Form} :
      (∀ b ∈ bindings, Valid isPrimitive b.2) → (∀ b ∈ bindings, b.2.isAtomic = true) →
      Valid isPrimitive first → (∀ f ∈ rest, Valid isPrimitive f) →
      Valid isPrimitive (.letrec bindings first rest)
  | primitive {op : Text} {args : List Form} :
      Keyword.of? (.symbol op) = none → isPrimitive op = true →
      (∀ f ∈ args, Valid isPrimitive f) → Valid isPrimitive (.primitive op args)
  | call {fn : Form} {args : List Form} :
      (∀ s, fn = .constant (.symbol s) →
        Keyword.of? (.symbol s) = none ∧ isPrimitive s = false) →
      Valid isPrimitive fn → (∀ f ∈ args, Valid isPrimitive f) →
      Valid isPrimitive (.call fn args)

end Form

/-- A keyword is recognised by its spelling. -/
theorem Keyword.eq_sexp_of_of? {e : Sexp} {k : Keyword} (h : Keyword.of? e = some k) :
    e = k.sexp := by
  cases e with
  | symbol s =>
    have := List.find?_some h
    rw [Keyword.sexp, beq_iff_eq.1 this]
  | _ => cases h

/-- Every keyword is found by its spelling. -/
theorem Keyword.of?_sexp (k : Keyword) : Keyword.of? k.sexp = some k := by
  cases k <;> rfl

/-- A step that may refuse and the rest of a computation succeed together. -/
theorem bind_eq_ok {ε α β : Type} {x : Except ε α} {k : α → Except ε β} {b : β} :
    (x >>= k) = .ok b ↔ ∃ a, x = .ok a ∧ k a = .ok b := by
  cases x with
  | error err => exact ⟨fun h => (by cases h), fun ⟨_, h, _⟩ => (by cases h)⟩
  | ok a => exact ⟨fun h => ⟨a, rfl, h⟩, fun ⟨_, h, hk⟩ => (by cases h; exact hk)⟩

namespace Form

/-- Parameters are symbols, and their names are read off them. -/
theorem parameters_eq_ok {whole : Sexp} {ps : List Sexp} {names : List Text}
    (h : parameters whole ps = .ok names) : ps = names.map .symbol := by
  induction ps generalizing names with
  | nil =>
    cases h
    rfl
  | cons p ps ih =>
    cases p with
    | symbol s =>
      obtain ⟨rest, hrest, hnames⟩ := bind_eq_ok.1 h
      cases hnames
      rw [List.map_cons, ih hrest]
    | _ => cases h

/-- **What the analysis of a list has done**: its head decides which of the arguments were
analysed, and what they were put together to. -/
inductive Analysed (isPrimitive : Text → Bool) (head : Sexp) (args : List Sexp) : Form → Prop
  /-- Quoted data stays as it is. -/
  | quote {d : Sexp} : head = Keyword.quote.sexp → args = [d] →
      Analysed isPrimitive head args (.constant (.list [head, d]))
  /-- A function. -/
  | lambda {names : List Text} {first : Sexp} {rest : List Sexp} {f : Form} {fs : List Form} :
      head = Keyword.lambda.sexp → args = .list (names.map .symbol) :: first :: rest →
      analyse isPrimitive first = .ok f → analyseAll isPrimitive rest = .ok fs →
      Analysed isPrimitive head args (.lambda names f fs)
  /-- A branch. -/
  | branch {test yes no : Sexp} {f₁ f₂ f₃ : Form} :
      head = Keyword.branch.sexp → args = [test, yes, no] → analyse isPrimitive test = .ok f₁ →
      analyse isPrimitive yes = .ok f₂ → analyse isPrimitive no = .ok f₃ →
      Analysed isPrimitive head args (.branch f₁ f₂ f₃)
  /-- A sequence. -/
  | sequence {first : Sexp} {rest : List Sexp} {f : Form} {fs : List Form} :
      head = Keyword.sequence.sexp → args = first :: rest → analyse isPrimitive first = .ok f →
      analyseAll isPrimitive rest = .ok fs → Analysed isPrimitive head args (.sequence f fs)
  /-- An assignment. -/
  | assign {name : Text} {value : Sexp} {f : Form} :
      head = Keyword.assign.sexp → args = [.symbol name, value] →
      analyse isPrimitive value = .ok f → Analysed isPrimitive head args (.assign name f)
  /-- A recursive binding. -/
  | letrec {bindings rest : List Sexp} {first : Sexp} {bs : List (Text × Form)} {f : Form}
      {fs : List Form} :
      head = Keyword.letrec.sexp → args = .list bindings :: first :: rest →
      analyseBindings isPrimitive (.list (head :: args)) bindings = .ok bs →
      analyse isPrimitive first = .ok f → analyseAll isPrimitive rest = .ok fs →
      Analysed isPrimitive head args (.letrec bs f fs)
  /-- The call of a primitive. -/
  | primitive {op : Text} {fs : List Form} :
      head = .symbol op → Keyword.of? (.symbol op) = none → isPrimitive op = true →
      analyseAll isPrimitive args = .ok fs → Analysed isPrimitive head args (.primitive op fs)
  /-- Any other call. -/
  | call {f : Form} {fs : List Form} :
      Keyword.of? head = none → (∀ s, head = .symbol s → isPrimitive s = false) →
      analyse isPrimitive head = .ok f → analyseAll isPrimitive args = .ok fs →
      Analysed isPrimitive head args (.call f fs)

/-- **The cases of an analysis** that succeeds on a list. -/
theorem analyse_list_cases {isPrimitive : Text → Bool} {head : Sexp} {args : List Sexp} {f : Form}
    (h : analyse isPrimitive (.list (head :: args)) = .ok f) :
    Analysed isPrimitive head args f := by
  unfold analyse at h
  dsimp only at h
  split at h
  next hk =>
    split at h
    · cases h
      exact .quote (Keyword.eq_sexp_of_of? hk) rfl
    · cases h
  next hk =>
    split at h
    next params bodies =>
      obtain ⟨names, hnames, h⟩ := bind_eq_ok.1 h
      cases bodies with
      | nil => cases h
      | cons first rest =>
        obtain ⟨f₁, h₁, h⟩ := bind_eq_ok.1 h
        obtain ⟨fs, h₂, h⟩ := bind_eq_ok.1 h
        cases h
        rw [parameters_eq_ok hnames]
        exact .lambda (Keyword.eq_sexp_of_of? hk) rfl h₁ h₂
    · cases h
  next hk =>
    split at h
    · obtain ⟨f₁, h₁, h⟩ := bind_eq_ok.1 h
      obtain ⟨f₂, h₂, h⟩ := bind_eq_ok.1 h
      obtain ⟨f₃, h₃, h⟩ := bind_eq_ok.1 h
      cases h
      exact .branch (Keyword.eq_sexp_of_of? hk) rfl h₁ h₂ h₃
    · cases h
  next hk =>
    split at h
    · cases h
    · obtain ⟨f₁, h₁, h⟩ := bind_eq_ok.1 h
      obtain ⟨fs, h₂, h⟩ := bind_eq_ok.1 h
      cases h
      exact .sequence (Keyword.eq_sexp_of_of? hk) rfl h₁ h₂
  next hk =>
    split at h
    · obtain ⟨f₁, h₁, h⟩ := bind_eq_ok.1 h
      cases h
      exact .assign (Keyword.eq_sexp_of_of? hk) rfl h₁
    · cases h
  next hk =>
    split at h
    · obtain ⟨bs, h₀, h⟩ := bind_eq_ok.1 h
      obtain ⟨f₁, h₁, h⟩ := bind_eq_ok.1 h
      obtain ⟨fs, h₂, h⟩ := bind_eq_ok.1 h
      cases h
      exact .letrec (Keyword.eq_sexp_of_of? hk) rfl h₀ h₁ h₂
    · cases h
  next hk =>
    split at h
    next op =>
      split at h
      next hp =>
        obtain ⟨fs, h₂, h⟩ := bind_eq_ok.1 h
        cases h
        exact .primitive rfl hk hp h₂
      next hp =>
        obtain ⟨fs, h₂, h⟩ := bind_eq_ok.1 h
        cases h
        refine .call hk (fun s hs => ?_) (by unfold analyse; rfl) h₂
        cases hs
        exact Bool.eq_false_iff.2 hp
    next hsymbol =>
      obtain ⟨f₁, h₁, h⟩ := bind_eq_ok.1 h
      obtain ⟨fs, h₂, h⟩ := bind_eq_ok.1 h
      cases h
      exact .call hk (fun s hs => absurd hs (hsymbol s)) h₁ h₂

mutual

/-- **Analysis builds valid forms, and nothing is lost**: written back, the form
is the expression that it was made from. -/
theorem analyse_eq_ok (isPrimitive : Text → Bool) : ∀ (e : Sexp) (f : Form),
    analyse isPrimitive e = .ok f → f.Valid isPrimitive ∧ f.toSexp = e
  | .list [], f, h => by cases h
  | .list (head :: args), f, h => by
    cases analyse_list_cases h with
    | quote hhead hargs =>
      subst hhead hargs
      exact ⟨.constant (Or.inr ⟨_, rfl⟩), rfl⟩
    | @lambda _ first rest _ _ hhead hargs h₁ h₂ =>
      obtain ⟨v₁, e₁⟩ := analyse_eq_ok isPrimitive first _ h₁
      obtain ⟨v₂, e₂⟩ := analyseAll_eq_ok isPrimitive rest _ h₂
      refine ⟨.lambda v₁ v₂, ?_⟩
      rw [toSexp, e₁, e₂, hhead, hargs]
    | @branch test yes no _ _ _ hhead hargs h₁ h₂ h₃ =>
      obtain ⟨v₁, e₁⟩ := analyse_eq_ok isPrimitive test _ h₁
      obtain ⟨v₂, e₂⟩ := analyse_eq_ok isPrimitive yes _ h₂
      obtain ⟨v₃, e₃⟩ := analyse_eq_ok isPrimitive no _ h₃
      refine ⟨.branch v₁ v₂ v₃, ?_⟩
      rw [toSexp, e₁, e₂, e₃, hhead, hargs]
    | @sequence first rest _ _ hhead hargs h₁ h₂ =>
      obtain ⟨v₁, e₁⟩ := analyse_eq_ok isPrimitive first _ h₁
      obtain ⟨v₂, e₂⟩ := analyseAll_eq_ok isPrimitive rest _ h₂
      refine ⟨.sequence v₁ v₂, ?_⟩
      rw [toSexp, e₁, e₂, hhead, hargs]
    | @assign _ value _ hhead hargs h₁ =>
      obtain ⟨v₁, e₁⟩ := analyse_eq_ok isPrimitive value _ h₁
      refine ⟨.assign v₁, ?_⟩
      rw [toSexp, e₁, hhead, hargs]
    | @letrec bindings rest first _ _ _ hhead hargs h₀ h₁ h₂ =>
      obtain ⟨v₀, a₀, e₀⟩ := analyseBindings_eq_ok isPrimitive _ bindings _ h₀
      obtain ⟨v₁, e₁⟩ := analyse_eq_ok isPrimitive first _ h₁
      obtain ⟨v₂, e₂⟩ := analyseAll_eq_ok isPrimitive rest _ h₂
      refine ⟨.letrec v₀ a₀ v₁ v₂, ?_⟩
      rw [toSexp, e₀, e₁, e₂, hhead, hargs]
    | primitive hhead hk hp h₂ =>
      obtain ⟨v₂, e₂⟩ := analyseAll_eq_ok isPrimitive args _ h₂
      refine ⟨.primitive hk hp v₂, ?_⟩
      rw [toSexp, e₂, hhead]
    | call hk hp h₁ h₂ =>
      obtain ⟨v₁, e₁⟩ := analyse_eq_ok isPrimitive head _ h₁
      obtain ⟨v₂, e₂⟩ := analyseAll_eq_ok isPrimitive args _ h₂
      refine ⟨.call (fun s hs => ?_) v₁ v₂, by rw [toSexp, e₁, e₂]⟩
      rw [hs, toSexp] at e₁
      rw [← e₁] at hk
      exact ⟨hk, hp s e₁.symm⟩
  | .absent, f, h | .symbol _, f, h | .number _, f, h | .str _, f, h | .bool _, f, h
  | .nil, f, h | .dot, f, h => by
    cases h
    exact ⟨.constant (Or.inl rfl), rfl⟩
termination_by e => sizeOf e
decreasing_by
  all_goals
    try subst_vars
    simp only [Sexp.list.sizeOf_spec, List.cons.sizeOf_spec]
    omega

/-- Several expressions, one by one. -/
theorem analyseAll_eq_ok (isPrimitive : Text → Bool) : ∀ (es : List Sexp) (fs : List Form),
    analyseAll isPrimitive es = .ok fs → (∀ f ∈ fs, f.Valid isPrimitive) ∧ toSexps fs = es
  | [], fs, h => by
    cases h
    exact ⟨fun f hf => absurd hf List.not_mem_nil, rfl⟩
  | e :: es, fs, h => by
    unfold analyseAll at h
    obtain ⟨f₁, h₁, h⟩ := bind_eq_ok.1 h
    obtain ⟨fs', h₂, h⟩ := bind_eq_ok.1 h
    cases h
    obtain ⟨v₁, e₁⟩ := analyse_eq_ok isPrimitive e f₁ h₁
    obtain ⟨v₂, e₂⟩ := analyseAll_eq_ok isPrimitive es fs' h₂
    refine ⟨List.forall_mem_cons.2 ⟨v₁, v₂⟩, ?_⟩
    rw [toSexps, e₁, e₂]
termination_by es => sizeOf es
decreasing_by
  all_goals
    try subst_vars
    simp only [List.cons.sizeOf_spec]
    omega

/-- The bindings of a recursive binding, whose values are atomic. -/
theorem analyseBindings_eq_ok (isPrimitive : Text → Bool) (whole : Sexp) :
    ∀ (es : List Sexp) (bs : List (Text × Form)),
    analyseBindings isPrimitive whole es = .ok bs →
      (∀ b ∈ bs, b.2.Valid isPrimitive) ∧ (∀ b ∈ bs, b.2.isAtomic = true) ∧
      bindingsToSexps bs = es
  | [], bs, h => by
    cases h
    exact ⟨fun f hf => absurd hf List.not_mem_nil, fun f hf => absurd hf List.not_mem_nil, rfl⟩
  | e :: es, bs, h => by
    unfold analyseBindings at h
    split at h
    next heq => cases heq
    next name init es' heq =>
      cases heq
      obtain ⟨f₁, h₁, h⟩ := bind_eq_ok.1 h
      cases hatomic : f₁.isAtomic with
      | false =>
        rw [hatomic] at h
        cases h
      | true =>
        rw [hatomic] at h
        obtain ⟨bs', h₂, h⟩ := bind_eq_ok.1 h
        cases h
        obtain ⟨v₁, e₁⟩ := analyse_eq_ok isPrimitive init f₁ h₁
        obtain ⟨v₂, a₂, e₂⟩ := analyseBindings_eq_ok isPrimitive whole es bs' h₂
        refine ⟨List.forall_mem_cons.2 ⟨v₁, v₂⟩, List.forall_mem_cons.2 ⟨hatomic, a₂⟩, ?_⟩
        rw [bindingsToSexps, e₁, e₂]
    · cases h
termination_by es => sizeOf es
decreasing_by
  all_goals
    try subst_vars
    simp only [Sexp.list.sizeOf_spec, List.cons.sizeOf_spec]
    omega

end

/-! ## Every valid form is found -/

/-- Parameters that are symbols are read off. -/
theorem parameters_map_symbol (whole : Sexp) (names : List Text) :
    parameters whole (names.map .symbol) = .ok names := by
  induction names with
  | nil => rfl
  | cons x names ih =>
    rw [List.map_cons, parameters, ih]
    rfl

/-- Forms that are analysed one by one are analysed together. -/
theorem analyseAll_toSexps {isPrimitive : Text → Bool} {fs : List Form}
    (h : ∀ f ∈ fs, analyse isPrimitive f.toSexp = .ok f) :
    analyseAll isPrimitive (toSexps fs) = .ok fs := by
  induction fs with
  | nil => rfl
  | cons f fs ih =>
    obtain ⟨hf, hfs⟩ := List.forall_mem_cons.1 h
    rw [toSexps, analyseAll, hf, ih hfs]
    rfl

/-- Bindings with atomic values are analysed one by one. -/
theorem analyseBindings_bindingsToSexps {isPrimitive : Text → Bool} (whole : Sexp)
    {bs : List (Text × Form)} (h : ∀ b ∈ bs, analyse isPrimitive b.2.toSexp = .ok b.2)
    (hatomic : ∀ b ∈ bs, b.2.isAtomic = true) :
    analyseBindings isPrimitive whole (bindingsToSexps bs) = .ok bs := by
  induction bs with
  | nil => rfl
  | cons b bs ih =>
    obtain ⟨hb, hbs⟩ := List.forall_mem_cons.1 h
    obtain ⟨ha, hatomic⟩ := List.forall_mem_cons.1 hatomic
    rw [bindingsToSexps, analyseBindings, hb, ih hbs hatomic]
    show (if !b.2.isAtomic then _ else _) = _
    rw [ha]
    rfl

/-- **Analysis finds every valid form** in the expression that it is written as. -/
theorem Valid.analyse_toSexp {isPrimitive : Text → Bool} {f : Form} (hv : f.Valid isPrimitive) :
    analyse isPrimitive f.toSexp = .ok f := by
  induction hv with
  | @constant e hc =>
    rw [toSexp]
    rcases hc with hl | ⟨d, rfl⟩
    · cases e with
      | list es => cases hl
      | _ => rfl
    · rfl
  | @lambda params first rest _ _ ihfirst ihrest =>
    rw [toSexp]
    show (do
      let names ← parameters _ (params.map .symbol)
      return Form.lambda names (← analyse isPrimitive first.toSexp)
        (← analyseAll isPrimitive (toSexps rest))) = _
    rw [parameters_map_symbol, ihfirst, analyseAll_toSexps ihrest]
    rfl
  | @branch test yes no _ _ _ ihtest ihyes ihno =>
    rw [toSexp]
    show (do
      return Form.branch (← analyse isPrimitive test.toSexp) (← analyse isPrimitive yes.toSexp)
        (← analyse isPrimitive no.toSexp)) = _
    rw [ihtest, ihyes, ihno]
    rfl
  | @sequence first rest _ _ ihfirst ihrest =>
    rw [toSexp]
    show (do
      return Form.sequence (← analyse isPrimitive first.toSexp)
        (← analyseAll isPrimitive (toSexps rest))) = _
    rw [ihfirst, analyseAll_toSexps ihrest]
    rfl
  | @assign name value _ ihvalue =>
    rw [toSexp]
    show (do return Form.assign name (← analyse isPrimitive value.toSexp)) = _
    rw [ihvalue]
    rfl
  | @letrec bindings first rest _ hatomic _ _ ihbindings ihfirst ihrest =>
    rw [toSexp]
    show (do
      return Form.letrec (← analyseBindings isPrimitive _ (bindingsToSexps bindings))
        (← analyse isPrimitive first.toSexp) (← analyseAll isPrimitive (toSexps rest))) = _
    rw [analyseBindings_bindingsToSexps _ ihbindings hatomic, ihfirst, analyseAll_toSexps ihrest]
    rfl
  | @primitive op args hop hp _ ihargs =>
    rw [toSexp]
    unfold analyse
    rw [hop]
    dsimp only
    rw [if_pos hp, analyseAll_toSexps ihargs]
    rfl
  | @call fn args hfn vfn _ ihfn ihargs =>
    rw [toSexp]
    cases fn with
    | constant e =>
      rw [toSexp] at ihfn ⊢
      cases e with
      | symbol s =>
        obtain ⟨hk, hp⟩ := hfn s rfl
        unfold analyse
        rw [hk]
        dsimp only
        rw [if_neg (by rw [hp]; exact Bool.false_ne_true), analyseAll_toSexps ihargs]
        rfl
      | _ =>
        show (do return Form.call (← analyse isPrimitive _) (← analyseAll isPrimitive (toSexps args))) = _
        rw [ihfn, analyseAll_toSexps ihargs]
        rfl
    | _ =>
      rw [toSexp] at ihfn ⊢
      show (do return Form.call (← analyse isPrimitive _) (← analyseAll isPrimitive (toSexps args))) = _
      rw [ihfn, analyseAll_toSexps ihargs]
      rfl

/-- Only a form that is a constant is written as a symbol. -/
theorem eq_constant_of_toSexp {f : Form} {x : Text} (h : f.toSexp = .symbol x) :
    f = .constant (.symbol x) := by
  cases f with
  | constant e =>
    rw [toSexp] at h
    rw [h]
  | _ =>
    rw [toSexp] at h
    cases h

/-- The keyword at the head of a form, if the form is written as a list that has one. -/
def keyword? : Form → Option Keyword
  | constant _ => some .quote
  | lambda .. => some .lambda
  | branch .. => some .branch
  | sequence .. => some .sequence
  | assign .. => some .assign
  | letrec .. => some .letrec
  | primitive .. => none
  | call .. => none

/-- **The head decides** what a valid form is. -/
theorem Valid.keyword?_eq {isPrimitive : Text → Bool} {f : Form} (hv : f.Valid isPrimitive)
    {head : Sexp} {args : List Sexp} (h : f.toSexp = .list (head :: args)) :
    f.keyword? = Keyword.of? head := by
  cases hv with
  | constant hc =>
    rw [toSexp] at h
    subst h
    rcases hc with hl | ⟨d, hd⟩
    · cases hl
    · rw [(List.cons.inj (Sexp.list.inj hd)).1]
      rfl
  | @call fn _ hfn _ _ =>
    rw [toSexp] at h
    obtain ⟨hhead, _⟩ := List.cons.inj (Sexp.list.inj h)
    cases head with
    | symbol s => exact (hfn s (eq_constant_of_toSexp hhead)).1.symm
    | _ => rfl
  | primitive hop _ _ =>
    rw [toSexp] at h
    rw [← (List.cons.inj (Sexp.list.inj h)).1]
    exact hop.symm
  | _ =>
    rw [toSexp] at h
    rw [← (List.cons.inj (Sexp.list.inj h)).1]
    rfl

/-- A valid form that is written as a function is a function. -/
theorem Valid.eq_lambda {isPrimitive : Text → Bool} {f : Form} (hv : f.Valid isPrimitive)
    {args : List Sexp} (h : f.toSexp = .list (Keyword.lambda.sexp :: args)) :
    ∃ params first rest, f = .lambda params first rest := by
  have hkeyword := hv.keyword?_eq h
  cases f with
  | lambda params first rest => exact ⟨_, _, _, rfl⟩
  | _ => cases hkeyword

/-- A valid form that is written as a recursive binding is one. -/
theorem Valid.eq_letrec {isPrimitive : Text → Bool} {f : Form} (hv : f.Valid isPrimitive)
    {args : List Sexp} (h : f.toSexp = .list (Keyword.letrec.sexp :: args)) :
    ∃ bindings first rest, f = .letrec bindings first rest := by
  have hkeyword := hv.keyword?_eq h
  cases f with
  | letrec bindings first rest => exact ⟨_, _, _, rfl⟩
  | _ => cases hkeyword

end Form

end PassingStyle
