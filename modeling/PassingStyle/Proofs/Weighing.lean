import PassingStyle.Proofs.Uses

/-!
# Weighing uses

Uses are compared by *weighing* them: a use has a weight, which is any integer, and the image
of a form must not weigh more than the form and the continuation together. Counting the uses
of one kind is a weighing, and counting them negatively is another one. As the two bounds are
cases of one statement, the induction over the image of a form is done once, for all
weighings, and gives equations where the conversion preserves a number.

Some weighings it cannot keep. Code gets into the scope of names that were made up, and a
continuation into that of a recursive binding; there a fixed use may become a shadowed one,
which has to be no heavier. And continuations are called, which are variables that were made
up or whatever the final continuation is called. A weighing is *fair*, and a continuation
*fits* it, if that does no harm. `Image.weight_le` shows that the conversion makes nothing
heavier in a fair weighing.
-/

namespace PassingStyle

/-! ## Weighing uses -/

namespace Use

/-- **The weight of several uses**, given that of each use. -/
def weight (w : Use → ℤ) : List Use → ℤ
  | [] => 0
  | u :: us => w u + weight w us

variable {w : Use → ℤ} {x : Text}

@[simp] theorem weight_nil : weight w [] = 0 := rfl

@[simp] theorem weight_append (us vs : List Use) :
    weight w (us ++ vs) = weight w us + weight w vs := by
  induction us with
  | nil => rw [List.nil_append, weight_nil, Int.zero_add]
  | cons u us ih => rw [List.cons_append, weight, weight, ih, Int.add_assoc]

/-- Uses without a negative weight have none together. -/
theorem weight_nonneg (hw : ∀ u, 0 ≤ w u) (us : List Use) : 0 ≤ weight w us := by
  induction us with
  | nil => exact Int.le_refl 0
  | cons u us ih =>
    have := hw u
    rw [weight]
    omega

/-- **More binders are around a place**, and this does not make a use there heavier. -/
structure Deeper (w : Use → ℤ) (b b' : Bool) : Prop where
  /-- What was bound is still bound. -/
  bound : b = true → b' = true
  /-- No use gets heavier. -/
  le : w (.fixed b') ≤ w (.fixed b)

theorem Deeper.refl (w : Use → ℤ) (b : Bool) : Deeper w b b := ⟨id, Int.le_refl _⟩

/-- One more scope around both. -/
theorem Deeper.or {b b' : Bool} (h : Deeper w b b') (c : Bool) : Deeper w (b || c) (b' || c) := by
  cases c with
  | true => rw [Bool.or_true, Bool.or_true]; exact .refl w true
  | false => rw [Bool.or_false, Bool.or_false]; exact h

theorem Deeper.weight_fixedUse {b b' : Bool} (h : Deeper w b b') (y : Text) :
    weight w (fixedUse x y b') ≤ weight w (fixedUse x y b) := by
  unfold fixedUse
  split
  · simpa [weight] using h.le
  · exact Int.le_refl _

/-- **A fair weighing** of the uses of `x`, where code gets under binders of these names and
where these names are made up: a fixed use gets no heavier by it, and if calls count, they
are not those of a name that was made up. -/
structure Fair (w : Use → ℤ) (x : Text) (letrecs names : List Text) : Prop where
  /-- A use is no heavier in the scope of a binder, or no such binder is added. -/
  fixed : w (.fixed true) ≤ w (.fixed false) ∨ (x ∉ letrecs ∧ x ∉ names)
  /-- Calls do not count, or the name can only be a variable of the program. -/
  call : w .call = 0 ∨ (x.EndsInDigit ∧ x ∉ names)

/-- A weighing that is fair is so for fewer names. -/
theorem Fair.mono {letrecs letrecs' names names' : List Text} (h : Fair w x letrecs names)
    (hl : x ∈ letrecs' → x ∈ letrecs) (hn : x ∈ names' → x ∈ names) : Fair w x letrecs' names' where
  fixed := h.fixed.imp_right (And.imp (mt hl) (mt hn))
  call := h.call.imp_right (And.imp_right (mt hn))

/-- Binders of made up names and of recursive bindings take code deeper. -/
theorem Fair.deeper {letrecs names : List Text} (h : Fair w x letrecs names) (b : Bool)
    (ps : List Text) (hps : ps ⊆ letrecs ++ names) : Deeper w b (b || decide (x ∈ ps)) := by
  refine ⟨fun hb => by rw [hb]; rfl, ?_⟩
  rcases h.fixed with hw | ⟨hl, hn⟩
  · cases b with
    | true => exact Int.le_refl _
    | false =>
      cases decide (x ∈ ps) with
      | true => exact hw
      | false => exact Int.le_refl _
  · have hx : x ∉ ps := fun hin => by
      rcases List.mem_append.1 (hps hin) with hin | hin
      · exact hl hin
      · exact hn hin
    rw [decide_eq_false hx, Bool.or_false]

/-- **A continuation that fits** the weighing of the uses of `x`: it is a symbol or a
function, calling it is no call of `x` that counts, and if it is the keyword of quoted data,
which hides what is handed to it, then nothing has a negative weight. -/
structure Fits (w : Use → ℤ) (x : Text) (c : Sexp) : Prop where
  /-- It is a symbol, or a function of a value. -/
  shape : (∃ k, c = .symbol k) ∨ ∃ rv body, c = Target.lambda [rv] body
  /-- Handing a value to it is no call of `x`. -/
  call : w .call = 0 ∨ c ≠ .symbol x
  /-- It hides nothing, or there is nothing to gain from it. -/
  quote : c = Keyword.quote.sexp → ∀ u, 0 ≤ w u

/-- A function fits. -/
theorem Fits.lambda (rv : Text) (body : Sexp) : Fits w x (Target.lambda [rv] body) :=
  ⟨Or.inr ⟨rv, body, rfl⟩, Or.inr Sexp.noConfusion, Sexp.noConfusion⟩

/-- A symbol fits that is no variable whose calls count. -/
theorem Fits.symbol {k : Text} (hcall : w .call = 0 ∨ x ≠ k)
    (hquote : (∀ u, 0 ≤ w u) ∨ k ≠ Keyword.quote.name) : Fits w x (.symbol k) where
  shape := Or.inl ⟨k, rfl⟩
  call := hcall.imp_right fun hne heq => hne (Sexp.symbol.inj heq).symm
  quote heq := hquote.resolve_right fun hne => hne (Sexp.symbol.inj heq)

/-- A variable that was made up fits. -/
theorem Fits.variable {letrecs names : List Text} {k : Text} (h : Fair w x letrecs names)
    (hk : k ∈ names) (hdigit : k.EndsInDigit) : Fits w x (.symbol k) := by
  refine .symbol (h.call.imp_right fun ⟨_, hx⟩ heq => hx (heq ▸ hk)) (Or.inr fun heq => ?_)
  have := hdigit.keyword_eq_none
  rw [heq] at this
  cases this

end Use

open Use

/-! ## Deeper places -/

namespace Sexp

variable {w : Use → ℤ} {x : Text}

mutual

/-- Uses get no heavier at a deeper place. -/
theorem weight_uses_le : ∀ (e : Sexp) {b b' : Bool}, Deeper w b b' →
    weight w (e.uses x b') ≤ weight w (e.uses x b)
  | list [], _, _, _ => by simp [uses]
  | list (head :: args), b, b', h => by
    have hargs := weight_usesAll_le args h
    have hhead := weight_uses_le head h
    have hfixed := fun y => h.weight_fixedUse (x := x) y
    unfold uses
    split
    · exact Int.le_refl _
    · exact weight_uses_le _ (h.or _)
    next bindings body _ =>
      have hbindings := weight_usesBindings_le bindings (h.or (decide (x ∈ bindingNames bindings)))
      have hbody := weight_uses_le body (h.or (decide (x ∈ bindingNames bindings)))
      simp only [weight_append]
      omega
    · simp only [weight_append]
      refine Int.add_le_add ?_ (Int.add_le_add ?_ hargs)
      · split
        · exact hfixed _
        · rw [weight_append, weight_append]
          exact Int.add_le_add_left hhead _
      · split
        · exact hfixed _
        · exact Int.le_refl _
  | absent, _, _, _ | symbol _, _, _, _ | number _, _, _, _ | str _, _, _, _ | bool _, _, _, _
  | nil, _, _, _ | dot, _, _, _ => by simp [uses]

theorem weight_usesAll_le : ∀ (es : List Sexp) {b b' : Bool}, Deeper w b b' →
    weight w (usesAll x b' es) ≤ weight w (usesAll x b es)
  | [], _, _, _ => Int.le_refl _
  | e :: es, b, b', h => by
    have he := weight_uses_le e h
    have hes := weight_usesAll_le es h
    simp only [usesAll, weight_append]
    omega

theorem weight_usesBindings_le : ∀ (bs : List Sexp) {b b' : Bool}, Deeper w b b' →
    weight w (usesBindings x b' bs) ≤ weight w (usesBindings x b bs)
  | [], _, _, _ => Int.le_refl _
  | e :: bs, b, b', h => by
    have hbs := weight_usesBindings_le bs h
    unfold usesBindings
    split
    next heq => cases heq
    next value bs' heq =>
      cases heq
      have hvalue := weight_uses_le value h
      simp only [weight_append]
      omega
    next heq =>
      cases heq
      exact hbs

end

end Sexp

namespace Form

variable {w : Use → ℤ} {x : Text}

mutual

/-- Uses get no heavier at a deeper place. -/
theorem weight_uses_le : ∀ (f : Form) {b b' : Bool}, Deeper w b b' →
    weight w (f.uses x b') ≤ weight w (f.uses x b)
  | constant _, _, _, _ => by simp [uses]
  | lambda params first rest, b, b', h => by
    have h := h.or (decide (x ∈ params))
    have hfirst := weight_uses_le first h
    have hrest := weight_usesBody_le rest h
    simp only [uses, weight_append]
    split <;> omega
  | branch test yes no, b, b', h => by
    have htest := weight_uses_le test h
    have hyes := weight_uses_le yes h
    have hno := weight_uses_le no h
    simp only [uses, weight_append]
    omega
  | sequence first rest, b, b', h => by
    have hfirst := weight_uses_le first h
    have hrest := weight_usesBody_le rest h
    simp only [uses, weight_append]
    split <;> omega
  | assign _ value, b, b', h => by
    have hvalue := weight_uses_le value h
    have hundef := h.weight_fixedUse (x := x) (Text.ofString "undef")
    simp only [uses, weight_append]
    omega
  | letrec bindings first rest, b, b', h => by
    have h := h.or (decide (x ∈ bindings.map Prod.fst))
    have hbindings := weight_usesBindings_le bindings h
    have hfirst := weight_uses_le first h
    have hrest := weight_usesBody_le rest h
    simp only [uses, weight_append]
    split <;> omega
  | primitive op args, b, b', h => by
    have hop := h.weight_fixedUse (x := x) op
    have hargs := weight_usesAll_le args h
    simp only [uses, weight_append]
    omega
  | call fn args, b, b', h => by
    have hfn := weight_uses_le fn h
    have hargs := weight_usesAll_le args h
    simp only [uses, weight_append]
    omega

theorem weight_usesAll_le : ∀ (fs : List Form) {b b' : Bool}, Deeper w b b' →
    weight w (usesAll x b' fs) ≤ weight w (usesAll x b fs)
  | [], _, _, _ => Int.le_refl _
  | f :: fs, b, b', h => by
    have hf := weight_uses_le f h
    have hfs := weight_usesAll_le fs h
    simp only [usesAll, weight_append]
    omega

theorem weight_usesBody_le : ∀ (fs : List Form) {b b' : Bool}, Deeper w b b' →
    weight w (usesBody x b' fs) ≤ weight w (usesBody x b fs)
  | [], _, _, _ => Int.le_refl _
  | f :: fs, b, b', h => by
    have hf := weight_uses_le f h
    have hfs := weight_usesBody_le fs h
    simp only [usesBody, weight_append]
    split <;> omega

theorem weight_usesBindings_le : ∀ (bs : List (Text × Form)) {b b' : Bool}, Deeper w b b' →
    weight w (usesBindings x b' bs) ≤ weight w (usesBindings x b bs)
  | [], _, _, _ => Int.le_refl _
  | (_, f) :: bs, b, b', h => by
    have hf := weight_uses_le f h
    have hbs := weight_usesBindings_le bs h
    simp only [usesBindings, weight_append]
    omega

end

end Form

/-! ## The pieces of converted programs -/

namespace Target

variable {w : Use → ℤ} {x : Text} {letrecs names : List Text} {c : Sexp}

/-- The uses in a function, under its parameters. -/
theorem uses_lambda (params : List Text) (body : Sexp) (b : Bool) :
    (lambda params body).uses x b = body.uses x (b || decide (x ∈ params)) := by
  show body.uses x (b || decide (x ∈ Sexp.parameterNames (params.map .symbol))) = _
  rw [Sexp.parameterNames_map_symbol]

/-- The uses in a recursive binding, under its names. -/
theorem uses_letrec (bindings : List Sexp) (body : Sexp) (b : Bool) :
    (letrec bindings body).uses x b =
      Sexp.usesBindings x (b || decide (x ∈ Sexp.bindingNames bindings)) bindings ++
        body.uses x (b || decide (x ∈ Sexp.bindingNames bindings)) := rfl

/-- A continuation that fits is no primitive. -/
theorem weight_headUses_le (hc : Fits w x c) (b : Bool) :
    weight w (Sexp.headUses x b c) ≤ weight w (c.uses x b) := by
  have hcall : weight w (if c = .symbol x then [.call] else []) ≤ 0 := by
    split
    next heq =>
      rcases hc.call with hw | hne
      · simp [weight, hw]
      · exact absurd heq hne
    next => exact Int.le_refl 0
  have hnone : c.primitive? = none := by
    rcases hc.shape with ⟨k, rfl⟩ | ⟨rv, body, rfl⟩ <;> rfl
  rw [Sexp.headUses, hnone, weight_append]
  omega

/-- Handing a value to a continuation that fits uses `x` in these two. -/
theorem weight_pass_le (hc : Fits w x c) (a : Sexp) (b : Bool) :
    weight w ((pass c a).uses x b) ≤ weight w (c.uses x b) + weight w (a.uses x b) := by
  have hhead := weight_headUses_le hc b
  by_cases hquote : c = Keyword.quote.sexp
  · have := weight_nonneg (hc.quote hquote) (a.uses x b)
    rw [hquote]
    show (0 : ℤ) ≤ 0 + _
    omega
  · have hassign : Sexp.isAssignment c [a] = false := by
      unfold Sexp.isAssignment
      split
      next heq => cases heq
      next => rfl
    rw [pass, Sexp.uses_list (fun hk => absurd (Keyword.eq_sexp_of_of? hk) hquote)
      (fun _ => by simp) (fun _ => by simp), hassign]
    simp only [weight_append, Sexp.usesAll, weight_nil]
    simp only [Bool.false_eq_true, if_false, weight_nil]
    omega

/-- A word that is no variable at the head of a list is no use that counts. -/
theorem weight_headUses_word_le (hfair : Fair w x letrecs names) {s : Text}
    (hs : ¬ s.EndsInDigit) (b : Bool) : weight w (Sexp.headUses x b (.symbol s)) ≤ 0 := by
  show weight w ((if Sexp.symbol s = .symbol x then [.call] else []) ++ []) ≤ 0
  rw [List.append_nil]
  split
  next heq =>
    rcases hfair.call with hw | ⟨hx, _⟩
    · simp [weight, hw]
    · exact absurd (Sexp.symbol.inj heq ▸ hx) hs
  next => exact Int.le_refl 0

/-- A branch uses what its parts use. -/
theorem weight_branch_le (hfair : Fair w x letrecs names) (test yes no : Sexp) (b : Bool) :
    weight w ((branch test yes no).uses x b) ≤
      weight w (test.uses x b) + (weight w (yes.uses x b) + weight w (no.uses x b)) := by
  have hword : ¬ Keyword.branch.name.EndsInDigit := fun h => nomatch h.keyword_eq_none
  have hhead : weight w (Sexp.headUses x b Keyword.branch.sexp) ≤ 0 :=
    weight_headUses_word_le hfair hword b
  have hassign : Sexp.isAssignment Keyword.branch.sexp [test, yes, no] = false := by
    unfold Sexp.isAssignment
    split
    next heq _ =>
      cases heq
      rfl
    next => rfl
  rw [branch, Sexp.uses_list (fun _ => by simp) (fun _ => by simp) (fun _ => by simp), hassign]
  simp only [Bool.false_eq_true, if_false, Sexp.usesAll, weight_append, weight_nil]
  omega

/-- An assignment hands over `undef`. -/
theorem weight_assign_le (hfair : Fair w x letrecs names) (hc : Fits w x c) (name : Text)
    (value : Sexp) (b : Bool) :
    weight w ((assign name value c).uses x b) ≤
      weight w (fixedUse x (Text.ofString "undef") b) + weight w (value.uses x b) +
        weight w (c.uses x b) := by
  have hword : ¬ (Text.ofString "set-then!").EndsInDigit := fun h => h.ne rfl rfl rfl
  have hhead : weight w (Sexp.headUses x b (.ofName "set-then!")) ≤ 0 :=
    weight_headUses_word_le hfair hword b
  have hpass := weight_pass_le hc (.ofName "undef") b
  show weight w (Sexp.headUses x b (.ofName "set-then!") ++
    (fixedUse x (Text.ofString "undef") b ++
      Sexp.usesAll x b [.symbol name, value, pass c (.ofName "undef")])) ≤ _
  simp only [Sexp.usesAll, Sexp.uses, weight_append, weight_nil] at hpass ⊢
  omega

/-- A function that binds a continuation is called at once. -/
theorem weight_bind (k : Text) (body c : Sexp) (b : Bool) :
    weight w ((pass (lambda [k] body) c).uses x b) =
      weight w (body.uses x (b || decide (x ∈ [k]))) + weight w (c.uses x b) := by
  rw [← uses_lambda, pass, Sexp.uses_of_head rfl]
  show weight w (([] ++ (lambda [k] body).uses x b) ++ ([] ++ (c.uses x b ++ []))) = _
  simp only [weight_append, weight_nil]
  omega

/-- A continuation is no assignment's last part. -/
theorem isAssignment_append (hc : Fits w x c) (fn : Sexp) (args : List Sexp) :
    Sexp.isAssignment fn (args ++ [c]) = false := by
  unfold Sexp.isAssignment
  split
  next heq =>
    have hlast := congrArg List.getLast? heq
    rw [List.getLast?_concat] at hlast
    rcases hc.shape with ⟨k, rfl⟩ | ⟨rv, body, rfl⟩ <;> cases hlast
  next => rfl

/-- The call of a primitive. -/
theorem weight_primitive_le (hc : Fits w x c) (op : Text) (args : List Sexp) (b : Bool) :
    weight w ((call (primitive op) args c).uses x b) ≤
      weight w (fixedUse x op b) + (weight w (Sexp.usesAll x b args) + weight w (c.uses x b)) := by
  show weight w (Sexp.uses x b (.list (primitive op :: (args ++ [c])))) ≤ _
  rw [Sexp.uses_of_head rfl, isAssignment_append hc, Sexp.usesAll_append]
  show weight w (fixedUse x op b ++ ([] ++ (Sexp.usesAll x b args ++ (c.uses x b ++ [])))) ≤ _
  simp only [weight_append, weight_nil]
  omega

/-- The call of a function. -/
theorem weight_call_le (hc : Fits w x c) {fn : Sexp} (hfn : Keyword.of? fn = none)
    (hprimitive : fn.primitive? = none) (args : List Sexp) (b : Bool) :
    weight w ((call fn args c).uses x b) ≤ weight w (if fn = .symbol x then [.call] else []) +
      (weight w (Sexp.usesAll x b (fn :: args)) + weight w (c.uses x b)) := by
  show weight w (Sexp.uses x b (.list (fn :: (args ++ [c])))) ≤ _
  rw [Sexp.uses_of_head hfn, isAssignment_append hc, Sexp.usesAll_append, Sexp.headUses, hprimitive]
  simp only [Bool.false_eq_true, if_false, Sexp.usesAll, weight_append, weight_nil]
  omega

end Target

/-! ## The conversion adds no uses -/

/-- One more binder of a function. -/
theorem Bool.or_decide_mem_append (b : Bool) (x : Text) (ps qs : List Text) :
    (b || decide (x ∈ ps ++ qs)) = ((b || decide (x ∈ ps)) || decide (x ∈ qs)) := by
  rw [Bool.or_assoc, ← Bool.decide_or]
  simp only [List.mem_append]

/-- The expression that holds the function of a call is the variable `x` if the function
is, as far as that counts. -/
theorem OperandsImage.weight_function {w : Use → ℤ} {x : Text} {fn : Form} {args : List Form}
    {names letrecs : List Text} {a : Sexp} {as : List Sexp} {body out : Sexp}
    (h : OperandsImage (fn :: args) names (a :: as) body out) (hfair : Fair w x letrecs names) :
    weight w (if a = .symbol x then [.call] else []) =
      weight w (if fn.isVariable x then [.call] else []) := by
  cases h with
  | atomic ha _ =>
    cases ha with
    | constant => simp [Form.isVariable]
    | lambda _ => simp [Form.isVariable, Target.lambda]
  | @settled _ _ rv _ _ _ _ _ _ hatomic _ _ =>
    have hvariable : fn.isVariable x = false := by
      cases fn with
      | constant e => cases hatomic
      | _ => rfl
    rw [hvariable]
    split
    next heq =>
      rcases hfair.call with hw | ⟨_, hx⟩
      · simp [weight, hw]
      · exact absurd (Sexp.symbol.inj heq ▸ List.mem_cons_self) hx
    next => rfl

/-- A form in a sequence is left out if it is atomic, and otherwise its value goes to a
variable. -/
theorem OperandsImage.single {f : Form} {names : List Text} {a body out : Sexp}
    (h : OperandsImage [f] names [a] body out) :
    (f.isAtomic = true ∧ out = body) ∨ (f.isAtomic = false ∧ ∃ rv : Text, a = .symbol rv) := by
  cases h with
  | atomic ha hrest =>
    cases hrest
    cases ha with
    | constant e => exact Or.inl ⟨rfl, rfl⟩
    | lambda _ => exact Or.inl ⟨rfl, rfl⟩
  | settled hatomic _ _ => exact Or.inr ⟨hatomic, _, rfl⟩

/-- The expression that holds the function of a call is no primitive. -/
theorem OperandsImage.primitive?_eq_none {isPrimitive : Text → Bool} {fn : Form}
    {args : List Form} {names : List Text} {a : Sexp} {as : List Sexp} {body out : Sexp}
    (h : OperandsImage (fn :: args) names (a :: as) body out) (hv : fn.Valid isPrimitive) :
    a.primitive? = none := by
  cases h with
  | atomic ha _ =>
    cases ha with
    | constant =>
      cases hv with
      | constant hc =>
        rcases hc with hl | ⟨d, rfl⟩
        · cases a with
          | list es => cases hl
          | _ => rfl
        · unfold Sexp.primitive?
          split
          next heq =>
            cases heq
            rfl
          next => rfl
    | lambda _ => rfl
  | settled _ _ _ => rfl

namespace Form

/-- **A form bounds what it is converted to**: in every scope, that weighs at most what the form and
its continuation weigh. -/
def Bounds (w : Use → ℤ) (x : Text) (f : Form) (c out : Sexp) : Prop :=
  ∀ b, weight w (out.uses x b) ≤ weight w (f.uses x b) + weight w (c.uses x b)

/-- **Operands bound what they are converted to**, in front of a `body` that uses the expressions
`as` in their place. Beside these `body` may use more, which weighs `more` at most; that does not
get heavier where the code gets deeper. -/
def BoundsAll (w : Use → ℤ) (x : Text) (fs : List Form) (as : List Sexp) (body out : Sexp) : Prop :=
  ∀ more : Bool → ℤ, (∀ {b b'}, Deeper w b b' → more b' ≤ more b) →
    (∀ b, weight w (body.uses x b) ≤ weight w (Sexp.usesAll x b as) + more b) →
    ∀ b, weight w (out.uses x b) ≤ weight w (usesAll x b fs) + more b

/-! ### One rule at a time -/

variable {w : Use → ℤ} {x : Text} {letrecs names : List Text} {c a out : Sexp}

/-- The function of a conversion takes one parameter more than the function of the program, which is
made up. -/
theorem weight_lambda_le {params : List Text} {first : Form} {rest : List Form} {k : Text}
    {body : Sexp} (hfair : Fair w x letrecs names) (hk : k ∈ names)
    (hbody : (Form.sequence first rest).Bounds w x (.symbol k) body) (b : Bool) :
    weight w ((Target.lambda (params ++ [k]) body).uses x b) ≤
      weight w ((Form.lambda params first rest).uses x b) := by
  have hbody := hbody (b || decide (x ∈ params ++ [k]))
  have hdeeper := hfair.deeper (b || decide (x ∈ params)) [k] (by simp [hk])
  rw [← Bool.or_decide_mem_append] at hdeeper
  have hseq := weight_uses_le (x := x) (.sequence first rest) hdeeper
  rw [Target.uses_lambda]
  simp only [uses, Sexp.uses, weight_nil, weight_append] at *
  omega

/-- A branch is built below the binder of its continuation. -/
theorem Bounds.branch {test yes no : Form} {k : Text} {outYes outNo body : Sexp}
    (hfair : Fair w x letrecs names) (hk : k ∈ names)
    (hyes : yes.Bounds w x (.symbol k) outYes) (hno : no.Bounds w x (.symbol k) outNo)
    (htest : BoundsAll w x [test] [a] (Target.branch a outYes outNo) body) :
    (Form.branch test yes no).Bounds w x c (Target.pass (Target.lambda [k] body) c) := by
  intro b
  have htest := htest (fun b => weight w (yes.uses x b) + weight w (no.uses x b))
    (fun h => Int.add_le_add (yes.weight_uses_le h) (no.weight_uses_le h))
    (fun b => by
      have hyes := hyes b
      have hno := hno b
      have := Target.weight_branch_le hfair a outYes outNo b
      simp only [Sexp.usesAll, Sexp.uses, weight_append, weight_nil] at *
      omega) (b || decide (x ∈ [k]))
  have hdeeper := hfair.deeper b [k] (by simp [hk])
  have htest' := test.weight_uses_le (x := x) hdeeper
  have hyes' := yes.weight_uses_le (x := x) hdeeper
  have hno' := no.weight_uses_le (x := x) hdeeper
  rw [Target.weight_bind]
  simp only [uses, usesAll, weight_append, weight_nil] at *
  omega

/-- The last form of a sequence stands for the sequence. -/
theorem Bounds.last {f : Form} (h : f.Bounds w x c out) :
    (Form.sequence f []).Bounds w x c out := by
  intro b
  have := h b
  simp only [uses, usesBody, isKept, weight_append, weight_nil]
  simp only [List.isEmpty_nil, Bool.true_or, if_true]
  omega

/-- A form of a sequence that is not the last one is left out if it is atomic. -/
theorem Bounds.next {f g : Form} {rest : List Form} {namesFirst : List Text} {tail : Sexp}
    (hrest : (Form.sequence g rest).Bounds w x c tail)
    (hfirst : BoundsAll w x [f] [a] tail out)
    (hsingle : OperandsImage [f] namesFirst [a] tail out) :
    (Form.sequence f (g :: rest)).Bounds w x c out := by
  intro b
  have hbody : usesBody x b (g :: rest) = (Form.sequence g rest).uses x b := by
    rw [usesBody, uses]
  rw [uses, isKept, hbody]
  rcases hsingle.single with ⟨hatomic, rfl⟩ | ⟨hatomic, rv, rfl⟩
  · -- the form is idle and leaves nothing behind
    rw [hatomic]
    exact hrest b
  · have := hfirst
      (fun b => weight w ((Form.sequence g rest).uses x b) + weight w (c.uses x b))
      (fun h => Int.add_le_add (weight_uses_le _ h) (Sexp.weight_uses_le _ h))
      (fun b => by
        have := hrest b
        simp only [Sexp.usesAll, Sexp.uses, weight_append, weight_nil]
        omega) b
    rw [hatomic]
    simp only [usesAll, weight_append, weight_nil] at *
    simp only [Bool.not_false, Bool.or_true, if_true]
    omega

/-- An assignment hands over `undef`. -/
theorem Bounds.assign {name : Text} {value : Form} (hfair : Fair w x letrecs names)
    (hc : Fits w x c) (h : BoundsAll w x [value] [a] (Target.assign name a c) out) :
    (Form.assign name value).Bounds w x c out := by
  intro b
  have h := h (fun b => weight w (fixedUse x (Text.ofString "undef") b) + weight w (c.uses x b))
    (fun h => Int.add_le_add (h.weight_fixedUse _) (Sexp.weight_uses_le _ h))
    (fun b => by
      have := Target.weight_assign_le hfair hc name a b
      simp only [Sexp.usesAll, weight_append, weight_nil]
      omega) b
  simp only [uses, usesAll, weight_append, weight_nil] at *
  omega

/-- The continuation of a recursive binding gets under its names. -/
theorem Bounds.letrec {bindings : List (Text × Form)} {first : Form} {rest : List Form}
    {es : List Sexp} {body : Sexp} (hfair : Fair w x letrecs names)
    (hletrecs : bindings.map Prod.fst ⊆ letrecs)
    (hnames : Sexp.bindingNames es = bindings.map Prod.fst)
    (hbindings : ∀ b, weight w (Sexp.usesBindings x b es) ≤ weight w (usesBindings x b bindings))
    (hbody : (Form.sequence first rest).Bounds w x c body) :
    (Form.letrec bindings first rest).Bounds w x c (Target.letrec es body) := by
  intro b
  have hdeeper := hfair.deeper b (bindings.map Prod.fst)
    (List.subset_append_of_subset_left _ hletrecs)
  have hcont := Sexp.weight_uses_le (x := x) c hdeeper
  have hbindings := hbindings (b || decide (x ∈ bindings.map Prod.fst))
  have hbody := hbody (b || decide (x ∈ bindings.map Prod.fst))
  rw [Target.uses_letrec, hnames]
  simp only [uses, weight_append] at *
  omega

/-- A primitive is used as it is. -/
theorem Bounds.primitive {op : Text} {args : List Form} {as : List Sexp} (hc : Fits w x c)
    (h : BoundsAll w x args as (Target.call (Target.primitive op) as c) out) :
    (Form.primitive op args).Bounds w x c out := by
  intro b
  have h := h (fun b => weight w (fixedUse x op b) + weight w (c.uses x b))
    (fun h => Int.add_le_add (h.weight_fixedUse _) (Sexp.weight_uses_le _ h))
    (fun b => by
      have := Target.weight_primitive_le hc op as b
      omega) b
  simp only [uses, weight_append] at *
  omega

/-- A variable that is called is the one that the program calls. -/
theorem Bounds.call {fn : Form} {args : List Form} {as : List Sexp} (hc : Fits w x c)
    (hkeyword : Keyword.of? a = none) (hprimitive : a.primitive? = none)
    (hfunction : weight w (if a = .symbol x then [.call] else []) =
      weight w (if fn.isVariable x then [.call] else []))
    (h : BoundsAll w x (fn :: args) (a :: as) (Target.call a as c) out) :
    (Form.call fn args).Bounds w x c out := by
  intro b
  have h := h (fun b => weight w (if fn.isVariable x then [.call] else []) + weight w (c.uses x b))
    (fun h => Int.add_le_add_left (Sexp.weight_uses_le _ h) _)
    (fun b => by
      have := Target.weight_call_le hc hkeyword hprimitive as b
      omega) b
  simp only [uses, usesAll, weight_append] at *
  omega

/-- An atomic operand is put where its value is used. -/
theorem BoundsAll.atomic {f : Form} {fs : List Form} {as : List Sexp} {body : Sexp}
    (ha : ∀ b, weight w (a.uses x b) ≤ weight w (f.uses x b))
    (hrest : BoundsAll w x fs as body out) : BoundsAll w x (f :: fs) (a :: as) body out := by
  intro more hmore hbody b
  have ha := ha b
  have hrest := hrest (fun b => weight w (a.uses x b) + more b)
    (fun h => Int.add_le_add (Sexp.weight_uses_le _ h) (hmore h))
    (fun b => by
      have := hbody b
      simp only [Sexp.usesAll, weight_append] at this
      omega) b
  simp only [usesAll, weight_append]
  omega

/-- What comes after any other operand is below the variable that receives its value. -/
theorem BoundsAll.settled {f : Form} {fs : List Form} {rv : Text} {as : List Sexp}
    {body inner : Sexp} (hfair : Fair w x letrecs names) (hrv : rv ∈ names)
    (hrest : BoundsAll w x fs as body inner) (h : f.Bounds w x (Target.lambda [rv] inner) out) :
    BoundsAll w x (f :: fs) (.symbol rv :: as) body out := by
  intro more hmore hbody b
  have h := h b
  have hrest := hrest more hmore (fun b => by
    have := hbody b
    simp only [Sexp.usesAll, Sexp.uses, weight_append, weight_nil] at this
    omega) (b || decide (x ∈ [rv]))
  have hdeeper := hfair.deeper b [rv] (by simp [hrv])
  have hafter := weight_usesAll_le (x := x) fs hdeeper
  have hmore := hmore hdeeper
  rw [Target.uses_lambda] at h
  simp only [usesAll, weight_append]
  omega

end Form

/-! ### All rules -/

mutual

/-- The image of an atomic form uses what the form uses. -/
theorem AtomImage.weight_le {isPrimitive : Text → Bool} {w : Use → ℤ} {x : Text} {f : Form}
    {names : List Text} {a : Sexp} : AtomImage f names a → f.Valid isPrimitive →
    (∀ g ∈ names, g.EndsInDigit) → Fair w x f.letrecs names → ∀ b,
    weight w (a.uses x b) ≤ weight w (f.uses x b)
  | .constant e, hv, _, _, b => by
    cases hv with
    | constant hc =>
      rcases hc with hl | ⟨d, rfl⟩
      · cases e with
        | list es => cases hl
        | _ => simp [Sexp.uses, Form.uses]
      · exact Int.le_refl _
  | .lambda hbody, hv, hn, hfair, b => by
    obtain ⟨hk, hn⟩ := List.forall_mem_cons.1 hn
    cases hv with
    | lambda vfirst vrest =>
      exact Form.weight_lambda_le hfair List.mem_cons_self
        (hbody.weight_le (.sequence vfirst vrest) hn
          (hfair.mono (by grind [Form.letrecs]) (by grind))
          (.variable hfair List.mem_cons_self hk)) b

/-- **The image of a form** uses what the form and its continuation use. -/
theorem Image.weight_le {isPrimitive : Text → Bool} {w : Use → ℤ} {x : Text} {f : Form}
    {c : Sexp} {names : List Text} {out : Sexp} : Image f c names out → f.Valid isPrimitive →
    (∀ g ∈ names, g.EndsInDigit) → Fair w x f.letrecs names → Fits w x c → f.Bounds w x c out
  | .atom ha, hv, hn, hfair, hc => fun b => by
    have ha := ha.weight_le hv hn hfair b
    refine (Target.weight_pass_le hc _ b).trans ?_
    omega
  | .branch hyes hno htest, hv, hn, hfair, hc => by
    obtain ⟨hn, hn'⟩ := List.forall_mem_append.1 hn
    obtain ⟨hk, hn⟩ := List.forall_mem_cons.1 hn
    obtain ⟨hny, hnn⟩ := List.forall_mem_append.1 hn'
    have hvariable := Fits.variable hfair (by simp) hk
    cases hv with
    | branch vtest vyes vno =>
      have hyes := hyes.weight_le vyes hny
        (hfair.mono (by grind [Form.letrecs]) (by grind)) hvariable
      have hno := hno.weight_le vno hnn
        (hfair.mono (by grind [Form.letrecs]) (by grind)) hvariable
      have htest := htest.weight_le (List.forall_mem_singleton.2 vtest) hn
        (hfair.mono (by grind [Form.letrecs, Form.letrecsAll]) (by grind))
      exact .branch hfair (by simp) hyes hno htest
  | .last h, hv, hn, hfair, hc => by
    cases hv with
    | sequence vfirst _ =>
      exact (h.weight_le vfirst hn (hfair.mono (by grind [Form.letrecs]) id) hc).last
  | .next hrest hfirst, hv, hn, hfair, hc => by
    obtain ⟨hn, hn'⟩ := List.forall_mem_append.1 hn
    cases hv with
    | sequence vfirst vrest =>
      obtain ⟨vnext, vrest⟩ := List.forall_mem_cons.1 vrest
      have hrest := hrest.weight_le (.sequence vnext vrest) hn'
        (hfair.mono (by grind [Form.letrecs, Form.letrecsAll]) (by grind)) hc
      have hsettled := hfirst.weight_le (List.forall_mem_singleton.2 vfirst) hn
        (hfair.mono (by grind [Form.letrecs, Form.letrecsAll]) (by grind))
      exact hrest.next hsettled hfirst
  | .assign h, hv, hn, hfair, hc => by
    cases hv with
    | assign vvalue =>
      exact .assign hfair hc (h.weight_le (List.forall_mem_singleton.2 vvalue) hn
        (hfair.mono (by grind [Form.letrecs, Form.letrecsAll]) id))
  | .letrec hbindings hbody, hv, hn, hfair, hc => by
    obtain ⟨hn, hn'⟩ := List.forall_mem_append.1 hn
    cases hv with
    | letrec vbindings _ vfirst vrest =>
      have hvalues := hbindings.weight_le vbindings hn
        (hfair.mono (by grind [Form.letrecs]) (by grind))
      have hbody := hbody.weight_le (.sequence vfirst vrest) hn'
        (hfair.mono (by grind [Form.letrecs]) (by grind)) hc
      exact .letrec hfair (by rw [Form.letrecs]; exact List.subset_append_left _ _)
        hbindings.bindingNames hvalues hbody
  | .primitive h, hv, hn, hfair, hc => by
    cases hv with
    | primitive _ _ vargs =>
      exact .primitive hc (h.weight_le vargs hn (hfair.mono (by grind [Form.letrecs]) id))
  | .call h, hv, hn, hfair, hc => by
    have hkeyword := h.keyword_eq_none hv hn
    cases hv with
    | call _ vfn vargs =>
      exact .call hc hkeyword (h.primitive?_eq_none vfn) (h.weight_function hfair)
        (h.weight_le (List.forall_mem_cons.2 ⟨vfn, vargs⟩) hn
          (hfair.mono (by grind [Form.letrecs, Form.letrecsAll]) id))

/-- **Operands are used where `body` uses them.** -/
theorem OperandsImage.weight_le {isPrimitive : Text → Bool} {w : Use → ℤ} {x : Text}
    {fs : List Form} {names : List Text} {as : List Sexp} {body out : Sexp} :
    OperandsImage fs names as body out → (∀ f ∈ fs, f.Valid isPrimitive) →
    (∀ g ∈ names, g.EndsInDigit) → Fair w x (Form.letrecsAll fs) names →
    Form.BoundsAll w x fs as body out
  | .nil, _, _, _ => fun _ _ hbody => hbody
  | .atomic ha hrest, hv, hn, hfair => by
    obtain ⟨hn, hn'⟩ := List.forall_mem_append.1 hn
    obtain ⟨vf, vfs⟩ := List.forall_mem_cons.1 hv
    exact .atomic (ha.weight_le vf hn (hfair.mono (by grind [Form.letrecsAll]) (by grind)))
      (hrest.weight_le vfs hn' (hfair.mono (by grind [Form.letrecsAll]) (by grind)))
  | .settled _ hrest h, hv, hn, hfair => by
    obtain ⟨hn, hn'⟩ := List.forall_mem_append.1 hn
    obtain ⟨_, hn⟩ := List.forall_mem_cons.1 hn
    obtain ⟨vf, vfs⟩ := List.forall_mem_cons.1 hv
    exact .settled hfair (by simp)
      (hrest.weight_le vfs hn' (hfair.mono (by grind [Form.letrecsAll]) (by grind)))
      (h.weight_le vf hn (hfair.mono (by grind [Form.letrecsAll]) (by grind)) (.lambda _ _))

/-- The values of bindings use what their forms use. -/
theorem BindingsImage.weight_le {isPrimitive : Text → Bool} {w : Use → ℤ} {x : Text}
    {bs : List (Text × Form)} {names : List Text} {es : List Sexp} :
    BindingsImage bs names es → (∀ b ∈ bs, b.2.Valid isPrimitive) →
    (∀ g ∈ names, g.EndsInDigit) → Fair w x (Form.letrecsBindings bs) names → ∀ b,
    weight w (Sexp.usesBindings x b es) ≤ weight w (Form.usesBindings x b bs)
  | .nil, _, _, _, _ => Int.le_refl _
  | .cons ha hrest, hv, hn, hfair, b => by
    obtain ⟨hn, hn'⟩ := List.forall_mem_append.1 hn
    obtain ⟨vf, vbs⟩ := List.forall_mem_cons.1 hv
    have ha := ha.weight_le vf hn (hfair.mono (by grind [Form.letrecsBindings]) (by grind)) b
    have hrest := hrest.weight_le vbs hn'
      (hfair.mono (by grind [Form.letrecsBindings]) (by grind)) b
    simp only [Form.usesBindings, Sexp.usesBindings, weight_append]
    omega

end

/-! ## Counting is weighing -/

namespace Use

/-- Counting a use is weighing it. -/
theorem weight_eq_count (n : ℤ) (u : Use) (us : List Use) :
    weight (fun v => if v = u then n else 0) us = n * us.count u := by
  induction us with
  | nil => simp
  | cons v us ih =>
    rw [weight, ih, List.count_cons]
    by_cases hv : v = u
    · simp [hv, Int.mul_add, Int.add_comm]
    · simp [hv]

/-- Counting fixed uses is weighing them. -/
theorem weight_eq_fixedCount (n : ℤ) (us : List Use) :
    weight (fun v => if v = .call then 0 else n) us = n * fixedCount us := by
  induction us with
  | nil => simp [fixedCount]
  | cons u us ih =>
    rw [weight, ih, fixedCount, fixedCount, List.count_cons, List.count_cons]
    cases u with
    | call => simp
    | fixed b => cases b <;> simp [Int.mul_add] <;> omega

end Use

end PassingStyle
