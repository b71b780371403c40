import PassingStyle.Proofs.Outcome

/-!
# Hygiene of generated names

The conversion makes up two kinds of variables: the continuation parameter of a
function or of a branch, and the parameter of a continuation that receives a value.
They are drawn in one place and used in another, and the code between the two is
built in an order that is not that of the text. What has to be shown is that none of
them is confused with a variable that was there before, and that none of them gets out
of the scope of its binder.

The scopes of a converted program are those of functions and recursive bindings.
Keywords, the head of an assignment and the operators `(cps op)` are no variables, and
quoted data contains none. With that, `Convert.hygiene` collects what is true of every
conversion: the names that were drawn are new and pairwise different, each of them is
bound at most once, and all variables that are free in the output were free in the
program or in the continuation, `undef` apart.
-/

namespace PassingStyle

/-! ## Binders and free variables of converted programs -/

namespace Sexp

/-- The parameters in a list of parameters. -/
def parameterNames : List Sexp → List Text
  | [] => []
  | symbol x :: ps => x :: parameterNames ps
  | _ :: ps => parameterNames ps

/-- The names in a list of bindings. -/
def bindingNames : List Sexp → List Text
  | [] => []
  | list (symbol x :: _) :: bs => x :: bindingNames bs
  | _ :: bs => bindingNames bs

/-- The head of a list is an operator and no variable: a keyword, the head of an
assignment, or a primitive. -/
def isOperator : Sexp → List Sexp → Bool
  | symbol s, args =>
    (Keyword.of? (symbol s)).isSome || (s == Text.ofString "set-then!" && args.length == 3)
  | list [symbol s, symbol _], _ => s == Text.ofString "cps"
  | _, _ => false

mutual

/-- **The free variables of a converted program**, as often as they occur. -/
def free : Sexp → List Text
  | symbol x => [x]
  | list (head :: args) =>
    match Keyword.of? head, args with
    | some .quote, _ => []
    | some .lambda, list params :: body => (freeAll body).filter (· ∉ parameterNames params)
    | some .letrec, list bindings :: body =>
      (freeBindings bindings ++ freeAll body).filter (· ∉ bindingNames bindings)
    | _, args => (if isOperator head args then [] else head.free) ++ freeAll args
  | _ => []

/-- The free variables of several expressions. -/
def freeAll : List Sexp → List Text
  | [] => []
  | e :: es => e.free ++ freeAll es

/-- The free variables of the values of bindings. -/
def freeBindings : List Sexp → List Text
  | [] => []
  | list (_ :: values) :: bs => freeAll values ++ freeBindings bs
  | _ :: bs => freeBindings bs

end

mutual

/-- **The binders of a converted program**: every name once for each place where it
is bound. -/
def binders : Sexp → List Text
  | list (head :: args) =>
    match Keyword.of? head, args with
    | some .quote, _ => []
    | some .lambda, list params :: body => parameterNames params ++ bindersAll body
    | some .letrec, list bindings :: body =>
      bindingNames bindings ++ (bindersBindings bindings ++ bindersAll body)
    | _, args => head.binders ++ bindersAll args
  | _ => []

/-- The binders of several expressions. -/
def bindersAll : List Sexp → List Text
  | [] => []
  | e :: es => e.binders ++ bindersAll es

/-- The binders of the values of bindings. -/
def bindersBindings : List Sexp → List Text
  | [] => []
  | list (_ :: values) :: bs => bindersAll values ++ bindersBindings bs
  | _ :: bs => bindersBindings bs

end

/-- A variable is free in several expressions if it is in one of them. -/
theorem mem_freeAll {x : Text} {es : List Sexp} : x ∈ freeAll es ↔ ∃ e ∈ es, x ∈ e.free := by
  induction es with
  | nil => simp [freeAll]
  | cons e es ih => simp [freeAll, ih]

/-- The binders of two lists of expressions. -/
theorem bindersAll_append (es es' : List Sexp) :
    bindersAll (es ++ es') = bindersAll es ++ bindersAll es' := by
  induction es with
  | nil => rfl
  | cons e es ih => rw [List.cons_append, bindersAll, ih, bindersAll, List.append_assoc]

/-- Names as parameters. -/
theorem parameterNames_map_symbol (names : List Text) :
    parameterNames (names.map symbol) = names := by
  induction names with
  | nil => rfl
  | cons x names ih => rw [List.map_cons, parameterNames, ih]

/-- A list whose head is no keyword binds nothing itself. -/
theorem mem_free_of_head {x : Text} {head : Sexp} {args : List Sexp}
    (hhead : Keyword.of? head = none) (hx : x ∈ (list (head :: args)).free) :
    x ∈ head.free ∨ ∃ e ∈ args, x ∈ e.free := by
  unfold free at hx
  rw [hhead] at hx
  rcases List.mem_append.1 hx with hx | hx
  · split at hx
    · exact absurd hx List.not_mem_nil
    · exact Or.inl hx
  · exact Or.inr (mem_freeAll.1 hx)

theorem binders_of_head {head : Sexp} {args : List Sexp} (hhead : Keyword.of? head = none) :
    (list (head :: args)).binders = head.binders ++ bindersAll args := by
  conv_lhs => unfold binders
  rw [hhead]

end Sexp

namespace Target

variable {x : Text}

/-- The free variables of a function are those of its body that are no
parameters. -/
theorem mem_free_lambda {params : List Text} {body : Sexp} :
    x ∈ (Target.lambda params body).free ↔ x ∈ body.free ∧ x ∉ params := by
  show x ∈ (Sexp.freeAll [body]).filter (· ∉ Sexp.parameterNames (params.map .symbol)) ↔ _
  simp [Sexp.parameterNames_map_symbol, Sexp.freeAll]

theorem binders_lambda (params : List Text) (body : Sexp) :
    (Target.lambda params body).binders = params ++ body.binders := by
  show Sexp.parameterNames (params.map .symbol) ++ (body.binders ++ []) = _
  rw [Sexp.parameterNames_map_symbol, List.append_nil]

theorem mem_free_pass {cont value : Sexp} (hcont : Keyword.of? cont = none)
    (hx : x ∈ (Target.pass cont value).free) : x ∈ cont.free ∨ x ∈ value.free := by
  rcases Sexp.mem_free_of_head hcont hx with hx | ⟨e, he, hx⟩
  · exact Or.inl hx
  · rw [List.mem_singleton.1 he] at hx
    exact Or.inr hx

theorem binders_pass {cont value : Sexp} (hcont : Keyword.of? cont = none) :
    (Target.pass cont value).binders = cont.binders ++ value.binders := by
  rw [Target.pass, Sexp.binders_of_head hcont]
  simp [Sexp.bindersAll]

theorem mem_free_branch {test yes no : Sexp} :
    x ∈ (Target.branch test yes no).free ↔ x ∈ test.free ∨ x ∈ yes.free ∨ x ∈ no.free := by
  show x ∈ Sexp.freeAll [test, yes, no] ↔ _
  simp [Sexp.freeAll]

theorem binders_branch (test yes no : Sexp) :
    (Target.branch test yes no).binders = test.binders ++ (yes.binders ++ no.binders) := by
  show [] ++ Sexp.bindersAll [test, yes, no] = _
  simp [Sexp.bindersAll]

theorem mem_free_assign {name : Text} {value cont : Sexp} (hcont : Keyword.of? cont = none)
    (hx : x ∈ (Target.assign name value cont).free) :
    x = name ∨ x ∈ value.free ∨ x ∈ cont.free ∨ x = Text.ofString "undef" := by
  have hx : x ∈ Sexp.freeAll [.symbol name, value, pass cont (.ofName "undef")] := hx
  simp only [Sexp.freeAll, List.mem_append, Sexp.free, List.mem_singleton, List.not_mem_nil,
    or_false] at hx
  rcases hx with hx | hx | hx
  · exact Or.inl hx
  · exact Or.inr (Or.inl hx)
  · rcases mem_free_pass hcont hx with hx | hx
    · exact Or.inr (Or.inr (Or.inl hx))
    · rw [Sexp.free] at hx
      exact Or.inr (Or.inr (Or.inr (List.mem_singleton.1 hx)))

theorem binders_assign {name : Text} {value cont : Sexp} (hcont : Keyword.of? cont = none) :
    (Target.assign name value cont).binders = value.binders ++ cont.binders := by
  show [] ++ ([] ++ (value.binders ++ ((pass cont (.ofName "undef")).binders ++ []))) = _
  rw [binders_pass hcont]
  simp [Sexp.binders]

theorem mem_free_letrec {bindings : List Sexp} {body : Sexp} :
    x ∈ (Target.letrec bindings body).free ↔
      (x ∈ Sexp.freeBindings bindings ∨ x ∈ body.free) ∧ x ∉ Sexp.bindingNames bindings := by
  show x ∈ (Sexp.freeBindings bindings ++ Sexp.freeAll [body]).filter
    (· ∉ Sexp.bindingNames bindings) ↔ _
  simp [Sexp.freeAll, or_and_right]

theorem binders_letrec (bindings : List Sexp) (body : Sexp) :
    (Target.letrec bindings body).binders =
      Sexp.bindingNames bindings ++ (Sexp.bindersBindings bindings ++ body.binders) := by
  show Sexp.bindingNames bindings ++ (Sexp.bindersBindings bindings ++ (body.binders ++ [])) = _
  rw [List.append_nil]

theorem mem_free_call {fn cont : Sexp} {args : List Sexp} (hfn : Keyword.of? fn = none)
    (hx : x ∈ (Target.call fn args cont).free) :
    (∃ a ∈ fn :: args, x ∈ a.free) ∨ x ∈ cont.free := by
  rcases Sexp.mem_free_of_head hfn hx with hx | ⟨e, he, hx⟩
  · exact Or.inl ⟨fn, List.mem_cons_self, hx⟩
  · rcases List.mem_append.1 he with he | he
    · exact Or.inl ⟨e, List.mem_cons_of_mem _ he, hx⟩
    · rw [List.mem_singleton.1 he] at hx
      exact Or.inr hx

theorem binders_call {fn cont : Sexp} {args : List Sexp} (hfn : Keyword.of? fn = none) :
    (Target.call fn args cont).binders =
      Sexp.bindersAll (fn :: args) ++ cont.binders := by
  show (Sexp.list (fn :: (args ++ [cont]))).binders = _
  rw [Sexp.binders_of_head hfn, Sexp.bindersAll_append]
  simp [Sexp.bindersAll]

/-- The operator of a primitive is no variable. -/
theorem mem_free_primitive {op : Text} {args : List Sexp} {cont : Sexp}
    (hx : x ∈ (Target.call (Target.primitive op) args cont).free) :
    (∃ a ∈ args, x ∈ a.free) ∨ x ∈ cont.free := by
  have hx : x ∈ Sexp.freeAll (args ++ [cont]) := hx
  obtain ⟨e, he, hx⟩ := Sexp.mem_freeAll.1 hx
  rcases List.mem_append.1 he with he | he
  · exact Or.inl ⟨e, he, hx⟩
  · rw [List.mem_singleton.1 he] at hx
    exact Or.inr hx

theorem binders_primitive (op : Text) : (Target.primitive op).binders = [] := rfl

end Target

/-! ## Free variables -/

/-- Where a free variable of converted code may come from: the form, the
continuation, or an assignment, which hands over `undef`. -/
def FreeIn (source outside : List Text) (x : Text) : Prop :=
  x ∈ source ∨ x ∈ outside ∨ x = Text.ofString "undef"

namespace FreeIn

variable {source bound outside : List Text} {x : Text}

theorem of_outside (h : x ∈ outside) : FreeIn source outside x := Or.inr (Or.inl h)

/-- What is not bound around the code comes from elsewhere. -/
theorem of_not_mem (h : FreeIn source bound x) (hx : x ∉ bound) : FreeIn source outside x := by
  rcases h with h | h | h
  · exact Or.inl h
  · exact absurd h hx
  · exact Or.inr (Or.inr h)

/-- A call mentions what its operands and its continuation mention. -/
theorem of_call {as : List Sexp} {body c : Sexp}
    (has : ∀ a ∈ as, ∀ x ∈ a.free, FreeIn source bound x)
    (hbody : x ∈ body.free → (∃ a ∈ as, x ∈ a.free) ∨ x ∈ c.free)
    (h : x ∈ source ∨ x = Text.ofString "undef" ∨ x ∈ body.free ∧ x ∉ bound) :
    FreeIn source c.free x := by
  rcases h with h | h | ⟨h, hbound⟩
  · exact Or.inl h
  · exact Or.inr (Or.inr h)
  · rcases hbody h with ⟨a, ha, hx⟩ | hx
    · exact (has a ha x hx).of_not_mem hbound
    · exact .of_outside hx

end FreeIn

/-- The bindings of a recursive binding keep their names. -/
theorem BindingsImage.bindingNames {bs : List (Text × Form)} {names : List Text} {es : List Sexp} :
    BindingsImage bs names es → Sexp.bindingNames es = bs.map Prod.fst
  | .nil => rfl
  | .cons _ hrest => by
    rw [Sexp.bindingNames, hrest.bindingNames]
    rfl

mutual

/-- The image of an atomic form has no other free variables than the form. -/
theorem AtomImage.free {isPrimitive : Text → Bool} {f : Form} {names : List Text} {a : Sexp} :
    AtomImage f names a → f.Valid isPrimitive → (∀ g ∈ names, g.EndsInDigit) →
    ∀ x ∈ a.free, FreeIn f.free [] x
  | .constant e, hv, _ => by
    intro x hx
    cases hv with
    | constant hc =>
      rcases hc with hl | ⟨d, rfl⟩
      · cases e with
        | symbol s => exact Or.inl hx
        | list es => cases hl
        | _ => exact absurd hx List.not_mem_nil
      · exact absurd hx List.not_mem_nil
  | .lambda hbody, hv, hn => by
    intro x hx
    obtain ⟨hk, hn⟩ := List.forall_mem_cons.1 hn
    obtain ⟨hx, hparams⟩ := Target.mem_free_lambda.1 hx
    rw [List.mem_append, List.mem_singleton, not_or] at hparams
    cases hv with
    | lambda vfirst vrest =>
      rcases hbody.free (.sequence vfirst vrest) hn hk.keyword_eq_none x hx with hx | hx | hx
      · refine Or.inl ?_
        simp only [Form.free] at hx ⊢
        exact List.mem_filter.2 ⟨hx, decide_eq_true hparams.1⟩
      · exact absurd (List.mem_singleton.1 hx) hparams.2
      · exact Or.inr (Or.inr hx)

/-- The image of a form has no other free variables than the form and its
continuation. -/
theorem Image.free {isPrimitive : Text → Bool} {f : Form} {c : Sexp} {names : List Text}
    {out : Sexp} : Image f c names out → f.Valid isPrimitive → (∀ g ∈ names, g.EndsInDigit) →
    Keyword.of? c = none → ∀ x ∈ out.free, FreeIn f.free c.free x
  | .atom ha, hv, hn, hc => by
    intro x hx
    rcases Target.mem_free_pass hc hx with hx | hx
    · exact Or.inr (Or.inl hx)
    · have := ha.free hv hn x hx
      grind [FreeIn]
  | .branch hyes hno htest, hv, hn, hc => by
    intro x hx
    obtain ⟨hn, hn'⟩ := List.forall_mem_append.1 hn
    obtain ⟨hk, hn⟩ := List.forall_mem_cons.1 hn
    obtain ⟨hny, hnn⟩ := List.forall_mem_append.1 hn'
    cases hv with
    | branch vtest vyes vno =>
      obtain ⟨bound, ha, hbody⟩ := htest.free (List.forall_mem_singleton.2 vtest) hn
      have hyes := hyes.free vyes hny hk.keyword_eq_none x
      have hno := hno.free vno hnn hk.keyword_eq_none x
      rcases Target.mem_free_pass rfl hx with hx | hx
      -- the variable of the continuation is bound around the branch
      · obtain ⟨hx, hxk⟩ := Target.mem_free_lambda.1 hx
        have hbody := hbody x hx
        rw [Target.mem_free_branch] at hbody
        have ha := ha _ List.mem_cons_self x
        simp only [FreeIn, Form.free, Sexp.free, Form.freeAll, List.mem_append, List.mem_singleton,
          List.append_nil] at *
        grind
      · exact Or.inr (Or.inl hx)
  | .last h, hv, hn, hc => by
    intro x hx
    cases hv with
    | sequence vfirst _ =>
      have := h.free vfirst hn hc x hx
      rw [Form.free, Form.freeAll, List.append_nil]
      exact this
  | .next hrest hfirst, hv, hn, hc => by
    intro x hx
    obtain ⟨hn, hn'⟩ := List.forall_mem_append.1 hn
    cases hv with
    | sequence vfirst vrest =>
      obtain ⟨vnext, vrest⟩ := List.forall_mem_cons.1 vrest
      obtain ⟨bound, _, hbody⟩ := hfirst.free (List.forall_mem_singleton.2 vfirst) hn
      have hbody := hbody x hx
      have hrest := hrest.free (.sequence vnext vrest) hn' hc x
      simp only [FreeIn, Form.free, Form.freeAll, List.mem_append, List.append_nil] at *
      grind
  | .assign h, hv, hn, hc => by
    intro x hx
    cases hv with
    | assign vvalue =>
      obtain ⟨bound, ha, hbody⟩ := h.free (List.forall_mem_singleton.2 vvalue) hn
      have ha := ha _ List.mem_cons_self x
      rcases hbody x hx with hx | hx | ⟨hx, hbound⟩
      · simp only [FreeIn, Form.free, Form.freeAll, List.append_nil] at *
        grind
      · exact Or.inr (Or.inr hx)
      · have hx := Target.mem_free_assign hc hx
        simp only [FreeIn, Form.free, Form.freeAll, List.append_nil] at *
        grind
  | .letrec hbindings hbody, hv, hn, hc => by
    intro x hx
    obtain ⟨hn, hn'⟩ := List.forall_mem_append.1 hn
    cases hv with
    | letrec vbindings _ vfirst vrest =>
      rw [Target.mem_free_letrec, hbindings.bindingNames] at hx
      have hbindings := hbindings.free vbindings hn x
      have hbody := hbody.free (.sequence vfirst vrest) hn' hc x
      simp only [FreeIn, Form.free, List.mem_filter, List.mem_append, decide_eq_true_eq] at *
      grind
  | .primitive h, hv, hn, hc => by
    intro x hx
    cases hv with
    | primitive _ _ vargs =>
      obtain ⟨bound, has, hbody⟩ := h.free vargs hn
      exact .of_call has Target.mem_free_primitive (hbody x hx)
  | .call h, hv, hn, hc => by
    intro x hx
    have hkeyword := h.keyword_eq_none hv hn
    cases hv with
    | call _ vfn vargs =>
      obtain ⟨bound, has, hbody⟩ := h.free (List.forall_mem_cons.2 ⟨vfn, vargs⟩) hn
      exact .of_call has (Target.mem_free_call hkeyword) (hbody x hx)

/-- The expressions that hold operands mention variables of the operands and variables
that are bound around `body`, and only in `body` is such a variable used. -/
theorem OperandsImage.free {isPrimitive : Text → Bool} {fs : List Form} {names : List Text}
    {as : List Sexp} {body out : Sexp} : OperandsImage fs names as body out →
    (∀ f ∈ fs, f.Valid isPrimitive) → (∀ g ∈ names, g.EndsInDigit) → ∃ bound : List Text,
    (∀ a ∈ as, ∀ x ∈ a.free, FreeIn (Form.freeAll fs) bound x) ∧
    ∀ x ∈ out.free, x ∈ Form.freeAll fs ∨ x = Text.ofString "undef" ∨ x ∈ body.free ∧ x ∉ bound
  | .nil, _, _ => ⟨[], nofun, fun x hx => Or.inr (Or.inr ⟨hx, List.not_mem_nil⟩)⟩
  | .atomic ha hrest, hv, hn => by
    obtain ⟨hn, hn'⟩ := List.forall_mem_append.1 hn
    obtain ⟨vf, vfs⟩ := List.forall_mem_cons.1 hv
    obtain ⟨bound, has, hout⟩ := hrest.free vfs hn'
    have ha := ha.free vf hn
    simp only [FreeIn, Form.freeAll, List.mem_append] at *
    refine ⟨bound, ?_, ?_⟩ <;> grind
  | @OperandsImage.settled _ _ rv _ _ _ _ _ _ _ hrest h, hv, hn => by
    obtain ⟨hn, hn'⟩ := List.forall_mem_append.1 hn
    obtain ⟨_, hn⟩ := List.forall_mem_cons.1 hn
    obtain ⟨vf, vfs⟩ := List.forall_mem_cons.1 hv
    obtain ⟨bound, has, hout⟩ := hrest.free vfs hn'
    have h := h.free vf hn rfl
    simp only [FreeIn, Form.freeAll, List.mem_append, Target.mem_free_lambda] at *
    refine ⟨rv :: bound, ?_, ?_⟩
    · intro a ha x hx
      rcases List.mem_cons.1 ha with rfl | ha
      · rw [Sexp.free] at hx
        grind
      · grind
    · grind

/-- The values of bindings have no other free variables than their forms. -/
theorem BindingsImage.free {isPrimitive : Text → Bool} {bs : List (Text × Form)}
    {names : List Text} {es : List Sexp} : BindingsImage bs names es →
    (∀ b ∈ bs, b.2.Valid isPrimitive) → (∀ g ∈ names, g.EndsInDigit) →
    ∀ x ∈ Sexp.freeBindings es, FreeIn (Form.freeBindings bs) [] x
  | .nil, _, _ => nofun
  | .cons ha hrest, hv, hn => by
    intro x hx
    obtain ⟨hn, hn'⟩ := List.forall_mem_append.1 hn
    obtain ⟨vb, vbs⟩ := List.forall_mem_cons.1 hv
    have ha := ha.free vb hn x
    have hrest := hrest.free vbs hn' x
    simp only [FreeIn, Sexp.freeBindings, Sexp.freeAll, Form.freeBindings, List.mem_append,
      List.append_nil] at *
    grind

end

/-! ## Binders -/

mutual

/-- The image of an atomic form binds what the form binds and the names that were
drawn, nothing more often than that. -/
theorem AtomImage.count_binders {isPrimitive : Text → Bool} (x : Text) {f : Form}
    {names : List Text} {a : Sexp} : AtomImage f names a → f.Valid isPrimitive →
    (∀ g ∈ names, g.EndsInDigit) → a.binders.count x ≤ f.binders.count x + names.count x
  | .constant e, hv, _ => by
    cases hv with
    | constant hc =>
      rcases hc with hl | ⟨d, rfl⟩
      · cases e with
        | list es => cases hl
        | _ => exact Nat.zero_le _
      · exact Nat.zero_le _
  | .lambda hbody, hv, hn => by
    obtain ⟨hk, hn⟩ := List.forall_mem_cons.1 hn
    cases hv with
    | lambda vfirst vrest =>
      have := hbody.count_binders x (.sequence vfirst vrest) hn hk.keyword_eq_none
      simp only [Target.binders_lambda, Form.binders, Sexp.binders, List.count_append,
        List.count_cons, List.count_nil] at *
      omega

/-- The image of a form binds what the form and its continuation bind and the names
that were drawn, nothing more often than that. -/
theorem Image.count_binders {isPrimitive : Text → Bool} (x : Text) {f : Form} {c : Sexp}
    {names : List Text} {out : Sexp} : Image f c names out → f.Valid isPrimitive →
    (∀ g ∈ names, g.EndsInDigit) → Keyword.of? c = none →
    out.binders.count x ≤ f.binders.count x + c.binders.count x + names.count x
  | .atom ha, hv, hn, hc => by
    have := ha.count_binders x hv hn
    rw [Target.binders_pass hc, List.count_append]
    omega
  | .branch hyes hno htest, hv, hn, hc => by
    obtain ⟨hn, hn'⟩ := List.forall_mem_append.1 hn
    obtain ⟨hk, hn⟩ := List.forall_mem_cons.1 hn
    obtain ⟨hny, hnn⟩ := List.forall_mem_append.1 hn'
    cases hv with
    | branch vtest vyes vno =>
      have hyes := hyes.count_binders x vyes hny hk.keyword_eq_none
      have hno := hno.count_binders x vno hnn hk.keyword_eq_none
      have htest := htest.count_binders x (List.forall_mem_singleton.2 vtest) hn
      rw [Target.binders_pass rfl]
      simp only [Target.binders_lambda, Target.binders_branch, Form.binders, Form.bindersAll,
        Sexp.binders, Sexp.bindersAll, List.count_append, List.count_cons, List.count_nil] at *
      omega
  | .last h, hv, hn, hc => by
    cases hv with
    | sequence vfirst _ =>
      have := h.count_binders x vfirst hn hc
      rw [Form.binders, Form.bindersAll, List.append_nil]
      exact this
  | .next hrest hfirst, hv, hn, hc => by
    obtain ⟨hn, hn'⟩ := List.forall_mem_append.1 hn
    cases hv with
    | sequence vfirst vrest =>
      obtain ⟨vnext, vrest⟩ := List.forall_mem_cons.1 vrest
      have hrest := hrest.count_binders x (.sequence vnext vrest) hn' hc
      have hfirst := hfirst.count_binders x (List.forall_mem_singleton.2 vfirst) hn
      simp only [Form.binders, Form.bindersAll, Sexp.bindersAll, List.count_append,
        List.count_nil] at *
      omega
  | .assign h, hv, hn, hc => by
    cases hv with
    | assign vvalue =>
      have h := h.count_binders x (List.forall_mem_singleton.2 vvalue) hn
      rw [Target.binders_assign hc] at h
      simp only [Form.binders, Form.bindersAll, Sexp.bindersAll, List.count_append,
        List.count_nil] at *
      omega
  | .letrec hbindings hbody, hv, hn, hc => by
    obtain ⟨hn, hn'⟩ := List.forall_mem_append.1 hn
    cases hv with
    | letrec vbindings _ vfirst vrest =>
      rw [Target.binders_letrec, hbindings.bindingNames]
      have hbindings := hbindings.count_binders x vbindings hn
      have hbody := hbody.count_binders x (.sequence vfirst vrest) hn' hc
      simp only [Form.binders, List.count_append] at *
      omega
  | .primitive h, hv, hn, hc => by
    cases hv with
    | primitive _ _ vargs =>
      have h := h.count_binders x vargs hn
      rw [Target.binders_call rfl, Sexp.bindersAll, Target.binders_primitive] at h
      simp only [Form.binders, List.count_append, List.count_nil] at *
      omega
  | .call h, hv, hn, hc => by
    have hkeyword := h.keyword_eq_none hv hn
    cases hv with
    | call _ vfn vargs =>
      have h := h.count_binders x (List.forall_mem_cons.2 ⟨vfn, vargs⟩) hn
      rw [Target.binders_call hkeyword] at h
      simp only [Form.binders, Form.bindersAll, List.count_append] at *
      omega

/-- What `body` is given of the operands counts against what they bind. -/
theorem OperandsImage.count_binders {isPrimitive : Text → Bool} (x : Text) {fs : List Form}
    {names : List Text} {as : List Sexp} {body out : Sexp} :
    OperandsImage fs names as body out → (∀ f ∈ fs, f.Valid isPrimitive) →
    (∀ g ∈ names, g.EndsInDigit) →
    out.binders.count x + (Sexp.bindersAll as).count x ≤
      (Form.bindersAll fs).count x + names.count x + body.binders.count x
  | .nil, _, _ => by simp [Sexp.bindersAll]
  | .atomic ha hrest, hv, hn => by
    obtain ⟨hn, hn'⟩ := List.forall_mem_append.1 hn
    obtain ⟨vf, vfs⟩ := List.forall_mem_cons.1 hv
    have hrest := hrest.count_binders x vfs hn'
    have ha := ha.count_binders x vf hn
    simp only [Form.bindersAll, Sexp.bindersAll, List.count_append] at *
    omega
  | .settled _ hrest h, hv, hn => by
    obtain ⟨hn, hn'⟩ := List.forall_mem_append.1 hn
    obtain ⟨_, hn⟩ := List.forall_mem_cons.1 hn
    obtain ⟨vf, vfs⟩ := List.forall_mem_cons.1 hv
    have hrest := hrest.count_binders x vfs hn'
    have h := h.count_binders x vf hn rfl
    simp only [Target.binders_lambda, Form.bindersAll, Sexp.bindersAll, Sexp.binders,
      List.count_append, List.count_cons, List.count_nil] at *
    omega

/-- The values of bindings bind what their forms bind and the names that were
drawn. -/
theorem BindingsImage.count_binders {isPrimitive : Text → Bool} (x : Text)
    {bs : List (Text × Form)} {names : List Text} {es : List Sexp} :
    BindingsImage bs names es → (∀ b ∈ bs, b.2.Valid isPrimitive) →
    (∀ g ∈ names, g.EndsInDigit) →
    (Sexp.bindersBindings es).count x ≤ (Form.bindersBindings bs).count x + names.count x
  | .nil, _, _ => Nat.zero_le _
  | .cons ha hrest, hv, hn => by
    obtain ⟨hn, hn'⟩ := List.forall_mem_append.1 hn
    obtain ⟨vb, vbs⟩ := List.forall_mem_cons.1 hv
    have ha := ha.count_binders x vb hn
    have hrest := hrest.count_binders x vbs hn'
    simp only [Form.bindersBindings, Sexp.bindersBindings, Sexp.bindersAll, List.append_nil,
      List.count_append] at *
    omega

end

/-! ## Every conversion is hygienic -/

namespace Sexp

/-- Parameters are symbols. -/
theorem mem_symbolsList_of_mem_parameterNames {x : Text} {ps : List Sexp}
    (hx : x ∈ parameterNames ps) : x ∈ symbolsList ps := by
  induction ps with
  | nil => exact hx
  | cons p ps ih =>
    rw [symbolsList_cons, List.mem_append]
    cases p with
    | symbol y =>
      rcases List.mem_cons.1 hx with rfl | hx
      · exact Or.inl (by simp)
      · exact Or.inr (ih hx)
    | _ => exact Or.inr (ih hx)

/-- The names in a list of bindings are symbols. -/
theorem mem_symbolsList_of_mem_bindingNames {x : Text} {bs : List Sexp}
    (hx : x ∈ bindingNames bs) : x ∈ symbolsList bs := by
  induction bs with
  | nil => exact hx
  | cons b bs ih =>
    rw [symbolsList_cons, List.mem_append]
    unfold bindingNames at hx
    split at hx
    next heq => cases heq
    next y es bs' heq =>
      cases heq
      rcases List.mem_cons.1 hx with rfl | hx
      · exact Or.inl (by simp)
      · exact Or.inr (ih hx)
    next heq =>
      cases heq
      exact Or.inr (ih hx)

mutual

/-- Bound names are symbols of the expression. -/
theorem mem_symbols_of_mem_binders {x : Text} : ∀ {e : Sexp}, x ∈ e.binders → x ∈ e.symbols
  | list [], hx => hx
  | list (head :: args), hx => by
    rw [symbols_list, symbolsList_cons, List.mem_append]
    unfold binders at hx
    split at hx
    next => exact absurd hx List.not_mem_nil
    next params body _ =>
      rw [symbolsList_cons, symbols_list, List.mem_append]
      rcases List.mem_append.1 hx with hx | hx
      · exact Or.inr (Or.inl (mem_symbolsList_of_mem_parameterNames hx))
      · exact Or.inr (Or.inr (mem_symbolsList_of_mem_bindersAll hx))
    next bindings body _ =>
      rw [symbolsList_cons, symbols_list, List.mem_append]
      rcases List.mem_append.1 hx with hx | hx
      · exact Or.inr (Or.inl (mem_symbolsList_of_mem_bindingNames hx))
      · rcases List.mem_append.1 hx with hx | hx
        · exact Or.inr (Or.inl (mem_symbolsList_of_mem_bindersBindings hx))
        · exact Or.inr (Or.inr (mem_symbolsList_of_mem_bindersAll hx))
    next =>
      rcases List.mem_append.1 hx with hx | hx
      · exact Or.inl (mem_symbols_of_mem_binders hx)
      · exact Or.inr (mem_symbolsList_of_mem_bindersAll hx)

/-- The names that several expressions bind are symbols of them. -/
theorem mem_symbolsList_of_mem_bindersAll {x : Text} :
    ∀ {es : List Sexp}, x ∈ bindersAll es → x ∈ symbolsList es
  | [], hx => hx
  | e :: es, hx => by
    rw [symbolsList_cons, List.mem_append]
    rcases List.mem_append.1 hx with hx | hx
    · exact Or.inl (mem_symbols_of_mem_binders hx)
    · exact Or.inr (mem_symbolsList_of_mem_bindersAll hx)

/-- The names that the values of bindings bind are symbols of them. -/
theorem mem_symbolsList_of_mem_bindersBindings {x : Text} :
    ∀ {bs : List Sexp}, x ∈ bindersBindings bs → x ∈ symbolsList bs
  | [], hx => hx
  | b :: bs, hx => by
    rw [symbolsList_cons, List.mem_append]
    unfold bindersBindings at hx
    split at hx
    next heq => cases heq
    next head values bs' heq =>
      cases heq
      rw [symbols_list, symbolsList_cons, List.mem_append]
      rcases List.mem_append.1 hx with hx | hx
      · exact Or.inl (Or.inr (mem_symbolsList_of_mem_bindersAll hx))
      · exact Or.inr (mem_symbolsList_of_mem_bindersBindings hx)
    next heq =>
      cases heq
      exact Or.inr (mem_symbolsList_of_mem_bindersBindings hx)

end

end Sexp

/-- **A hygienic conversion** of the expression `e` to `out`, with the continuations
`conts` given from outside, from the table `t` to the table `t'`. The expression has the
form `f`, the conversion has drawn `names`, and the names `issued` had been handed out
before. -/
structure Hygienic (isPrimitive : Text → Bool) (e : Sexp) (conts : List Sexp)
    (issued : List (Text × Text)) (t : NameTable) (out : Sexp) (t' : NameTable)
    (f : Form) (names : List Text) : Prop where
  /-- The form is that of the expression. -/
  form : Form.analyse isPrimitive e = .ok f
  /-- The names are what the table has lost to the conversion, besides the symbols that
  it was given. -/
  taken : ∀ p, p ∈ t'.taken ↔ p ∈ t.taken ∨
    (p.2 = programNames ∧ p.1 ∈ Sexp.symbolsList (e :: conts)) ∨
    (p.2 = programNames ∧ p.1 ∈ names)
  /-- The names are pairwise different. -/
  nodup : names.Nodup
  /-- They do not occur in what was given. -/
  not_symbol : ∀ g ∈ names, ∀ x ∈ e :: conts, g ∉ x.symbols
  /-- They were not handed out before. -/
  not_issued : ∀ g ∈ names, (g, programNames) ∉ issued
  /-- No other names are bound than those that were bound before. -/
  binders : ∀ x ∈ out.binders, x ∈ f.binders ∨ x ∈ Sexp.bindersAll conts ∨ x ∈ names
  /-- Each of the names is bound at one place at most. -/
  once : ∀ g ∈ names, out.binders.count g ≤ 1
  /-- No other variables are free than those that were free before, and `undef`. -/
  free : ∀ x ∈ out.free, x ∈ f.free ∨ x ∈ Sexp.freeAll conts ∨ x = Text.ofString "undef"

/-- **From counting to hygiene.** A conversion that draws its names with the given
symbols reserved is hygienic if it binds nothing too often and if its free variables
come from where they may. -/
theorem Hygienic.of_draws {isPrimitive : Text → Bool} {e out : Sexp} {conts : List Sexp}
    {issued : List (Text × Text)} {t t' : NameTable} {names : List Text} {f : Form}
    (ht : t.Issued issued) (hf : Form.analyse isPrimitive e = .ok f)
    (hdraws : Draws (t.reserve programNames (Sexp.symbolsList (e :: conts))) names t')
    (hcount : ∀ x, out.binders.count x ≤
      f.binders.count x + (Sexp.bindersAll conts).count x + names.count x)
    (hfree : ∀ x ∈ out.free, FreeIn f.free (Sexp.freeAll conts) x) :
    Hygienic isPrimitive e conts issued t out t' f names := by
  obtain ⟨hv, hwritten⟩ := Form.analyse_eq_ok isPrimitive e f hf
  have hnew : ∀ g ∈ names, g ∉ Sexp.symbolsList (e :: conts) := fun g hg hin =>
    hdraws.fresh g hg (NameTable.mem_taken_reserve.2 (Or.inr ⟨rfl, hin⟩))
  refine ⟨hf, fun p => ?_, hdraws.nodup, fun g hg x hx hin => ?_, fun g hg hin => ?_,
    fun x hx => ?_, fun g hg => ?_, hfree⟩
  · rw [hdraws.taken.mem_iff, List.mem_append, NameTable.mem_taken_reserve]
    obtain ⟨y, ns⟩ := p
    simp only [List.mem_map, Prod.mk.injEq]
    grind
  · exact hnew g hg (Sexp.mem_symbolsList.2 ⟨x, hx, hin⟩)
  · exact hdraws.fresh g hg (NameTable.mem_taken_reserve.2 (Or.inl (ht.mem_taken hin)))
  · have hpos := List.count_pos_iff.2 hx
    have := hcount x
    by_contra hnot
    simp only [not_or, ← List.count_eq_zero] at hnot
    omega
  · -- the name is new, so neither the form nor a continuation binds it
    have hform : f.binders.count g = 0 := List.count_eq_zero.2 fun hin => by
      have := Form.mem_symbols_of_mem_binders hin
      rw [Form.symbols, hwritten] at this
      exact hnew g hg (List.mem_append_left _ this)
    have hconts : (Sexp.bindersAll conts).count g = 0 := List.count_eq_zero.2 fun hin =>
      hnew g hg (List.mem_append_right _ (Sexp.mem_symbolsList_of_mem_bindersAll hin))
    have hnames := List.nodup_iff_count_le_one.1 hdraws.nodup g
    have := hcount g
    omega

namespace Convert

/-- **Hygiene of generated names**, for an expression with a continuation, for a whole
program and for an atomic expression by itself, from any table that has handed out
`issued` since it was last empty. -/
theorem hygiene {isPrimitive : Text → Bool} {e out : Sexp} {issued : List (Text × Text)}
    {t t' : NameTable} (ht : t.Issued issued) :
    (∀ c, Keyword.of? c = none → (withObject isPrimitive e c).outcome t = (.ok out, t') →
      ∃ f names, Hygienic isPrimitive e [c] issued t out t' f names) ∧
    (∀ halt, Keyword.of? (.symbol halt) = none →
      (program isPrimitive e halt).outcome t = (.ok out, t') →
      ∃ f names, Hygienic isPrimitive e [.symbol halt] issued t out t' f names) ∧
    ((atom isPrimitive e).outcome t = (.ok out, t') →
      ∃ f names, Hygienic isPrimitive e [] issued t out t' f names) := by
  refine ⟨fun c hc h => ?_, fun halt hhalt h => ?_, fun h => ?_⟩
  · obtain ⟨f, hf, hout⟩ := withObject_ok h
    obtain ⟨hv, _⟩ := Form.analyse_eq_ok isPrimitive e f hf
    obtain ⟨names, himage, hdraws⟩ := hv.converts.object c
      (t.reserve programNames (Sexp.symbolsList [e, c]))
    rw [hout] at himage hdraws
    refine ⟨f, names, .of_draws ht hf hdraws (fun x => ?_) ?_⟩
    · have := himage.count_binders x hv hdraws.numbered hc
      simpa [Sexp.bindersAll] using this
    · have := himage.free hv hdraws.numbered hc
      simpa [Sexp.freeAll] using this
  · obtain ⟨f, hf, hout⟩ := program_ok h
    obtain ⟨hv, _⟩ := Form.analyse_eq_ok isPrimitive e f hf
    obtain ⟨names, hdraws, himage⟩ := hv.convertProgram_image halt
      (t.reserve programNames (Sexp.symbolsList [e, .symbol halt]))
    rw [hout] at himage hdraws
    refine ⟨f, names, .of_draws ht hf hdraws (fun x => ?_) ?_⟩
    · rcases himage with ⟨_, himage⟩ | ⟨_, himage⟩
      · exact himage.count_binders x hv hdraws.numbered
      · exact himage.count_binders x hv hdraws.numbered hhalt
    · rcases himage with ⟨_, himage⟩ | ⟨_, himage⟩
      · intro x hx
        rcases himage.free hv hdraws.numbered x hx with hx | hx | hx
        · exact Or.inl hx
        · exact absurd hx List.not_mem_nil
        · exact Or.inr (Or.inr hx)
      · exact himage.free hv hdraws.numbered hhalt
  · obtain ⟨f, hf, hatomic, hout⟩ := atom_ok h
    obtain ⟨hv, _⟩ := Form.analyse_eq_ok isPrimitive e f hf
    obtain ⟨names, himage, hdraws⟩ := hv.converts.atom hatomic
      (t.reserve programNames (Sexp.symbolsList [e]))
    rw [hout] at himage hdraws
    exact ⟨f, names, .of_draws ht hf hdraws (fun x => himage.count_binders x hv hdraws.numbered)
      (himage.free hv hdraws.numbered)⟩

/-- The program `(if (f x) a b)` from a table that has handed out `k0`. -/
theorem hygiene_branch : ∃ f names, Hygienic defaultPrimitives.contains
    (.list [Keyword.branch.sexp, .list [.ofName "f", .ofName "x"], .ofName "a", .ofName "b"])
    [.ofName "halt"] [("k0", "cps")] (NameTable.empty.next "k" "cps").2
    (Target.pass (Target.lambda ["k1"] (Target.call (.ofName "f") [.ofName "x"]
      (Target.lambda ["rv0"] (Target.branch (.ofName "rv0")
        (Target.pass (.ofName "k1") (.ofName "a")) (Target.pass (.ofName "k1") (.ofName "b"))))))
      (.ofName "halt"))
    ⟨[(("rv", "cps"), 1), (("k", "cps"), 2)], [("rv0", "cps"), ("k1", "cps"), ("halt", "cps"),
      ("b", "cps"), ("a", "cps"), ("x", "cps"), ("f", "cps"), ("if", "cps"), ("k0", "cps")]⟩
    f names :=
  (hygiene (.next "k" "cps" .empty)).1 (.ofName "halt") rfl rfl

end Convert

end PassingStyle
