import PassingStyle.Proofs.Meaning.Preservation

/-!
# Operands in their turn

By the rules of evaluation an atomic operand is read when its call is made. The stricter
reading takes the value of every operand when its turn comes, from left to right, whether it
is a variable or not. The two differ if a variable waits for its call while a later operand
is evaluated that assigns it. Then the converted program, which evaluates operands from left
to right as far as they are not atomic, calls a function with other arguments than the strict
reading has it.

A program is *steady* if no variable that has to wait is ever assigned. Evaluating a steady
program strictly comes to the same, and therefore its conversion keeps the strict reading of
it as well. What carries the proof is that the variables outside a list of names keep their
values while a form is evaluated whose assignments are all to names of the list, including
the ones in the closures that it may call.
-/

namespace PassingStyle

/-! ## The strict reading -/

mutual

/-- **Strict evaluation** of a form to a value. -/
inductive Strict.Eval (W : World) :
    Form → Env → Store Form.Value → Form.Value → Store Form.Value → Prop
  /-- An atomic form has its value at once. -/
  | atom {f : Form} {ρ : Env} {m : Store Form.Value} : f.isAtomic = true →
      Strict.Eval W f ρ m (f.atomValue ρ m) m
  /-- A branch evaluates the side that its test decides for. -/
  | branch {test yes no : Form} {ρ : Env} {m m₁ m' : Store Form.Value} {u v : Form.Value} :
      Strict.Eval W test ρ m u m₁ → Strict.Eval W (if u.isTrue then yes else no) ρ m₁ v m' →
      Strict.Eval W (.branch test yes no) ρ m v m'
  /-- The last form of a sequence has the value of the sequence. -/
  | last {f : Form} {ρ : Env} {m m' : Store Form.Value} {v : Form.Value} :
      Strict.Eval W f ρ m v m' → Strict.Eval W (.sequence f []) ρ m v m'
  /-- The value of any other form of a sequence is not used. -/
  | next {f g : Form} {rest : List Form} {ρ : Env} {m m₁ m' : Store Form.Value}
      {u v : Form.Value} :
      Strict.Eval W f ρ m u m₁ → Strict.Eval W (.sequence g rest) ρ m₁ v m' →
      Strict.Eval W (.sequence f (g :: rest)) ρ m v m'
  /-- An assignment has the value of `undef`. -/
  | assign {name : Text} {value : Form} {ρ : Env} {m m₁ : Store Form.Value} {u : Form.Value} :
      Strict.Eval W value ρ m u m₁ →
      Strict.Eval W (.assign name value) ρ m ((m₁.write name (ρ name) u).cell undefinedName 0)
        (m₁.write name (ρ name) u)
  /-- The body of a recursive binding is evaluated inside it. -/
  | letrec {bindings : List (Text × Form)} {first : Form} {rest : List Form} {ρ : Env}
      {m m' : Store Form.Value} {v : Form.Value} :
      Strict.Eval W (.sequence first rest) (Form.enterRec bindings ρ m).1
        (Form.enterRec bindings ρ m).2 v m' →
      Strict.Eval W (.letrec bindings first rest) ρ m v m'
  /-- A primitive is applied to data. -/
  | primitive {op : Text} {args : List Form} {ρ : Env} {m m' : Store Form.Value}
      {ds : List Datum} {d : Datum} :
      Strict.EvalAll W args ρ m (ds.map .datum) m' → W.delta op ds = some d →
      Strict.Eval W (.primitive op args) ρ m (.datum d) m'
  /-- A function is applied to any values. -/
  | call {fn : Form} {args : List Form} {ρ : Env} {m m₁ m' : Store Form.Value}
      {u v : Form.Value} {us : List Form.Value} :
      Strict.EvalAll W (fn :: args) ρ m (u :: us) m₁ → Strict.Apply W u us m₁ v m' →
      Strict.Eval W (.call fn args) ρ m v m'

/-- **Strict evaluation of operands**, each in its turn. -/
inductive Strict.EvalAll (W : World) :
    List Form → Env → Store Form.Value → List Form.Value → Store Form.Value → Prop
  /-- No operand is left. -/
  | nil {ρ : Env} {m : Store Form.Value} : Strict.EvalAll W [] ρ m [] m
  /-- The first one is evaluated before the others. -/
  | cons {f : Form} {fs : List Form} {ρ : Env} {m m₁ m' : Store Form.Value} {v : Form.Value}
      {vs : List Form.Value} :
      Strict.Eval W f ρ m v m₁ → Strict.EvalAll W fs ρ m₁ vs m' →
      Strict.EvalAll W (f :: fs) ρ m (v :: vs) m'

/-- **Strict application** of a function to arguments. -/
inductive Strict.Apply (W : World) :
    Form.Value → List Form.Value → Store Form.Value → Form.Value → Store Form.Value → Prop
  /-- The body of a closure is evaluated with its parameters bound. -/
  | closure {params : List Text} {first : Form} {rest : List Form} {ρ : Env}
      {args : List Form.Value} {m m' : Store Form.Value} {v : Form.Value} :
      params.length = args.length →
      Strict.Eval W (.sequence first rest) (Store.bindAll params args ρ m).1
        (Store.bindAll params args ρ m).2 v m' →
      Strict.Apply W (.closure params first rest ρ) args m v m'
  /-- The call of an external procedure goes into the trace, and the world answers. -/
  | external {p : Text} {ds : List Datum} {m : Store Form.Value} {d : Datum} :
      W.oracle m.trace (p, ds) = some d →
      Strict.Apply W (.datum (.external p)) (ds.map .datum) m (.datum d) (m.record (p, ds))

end

/-- An atomic form is evaluated by reading it. -/
theorem Strict.Eval.eq_of_atomic {W : World} {f : Form} {ρ : Env} {m m' : Store Form.Value}
    {v : Form.Value} (h : Strict.Eval W f ρ m v m') (hf : f.isAtomic = true) :
    v = f.atomValue ρ m ∧ m' = m := by
  cases h with
  | atom _ => exact ⟨rfl, rfl⟩
  | _ => cases hf

namespace Form

section

variable (W : World) (f : Form) (xs : List Text)

/-- **What a program comes to by the strict reading**, if it comes to its end. -/
def StrictlyGives (o : Observation) : Prop :=
  ∃ v m, Strict.Eval W f Env.global W.start v m ∧ m.observe Form.Value.datum? xs v = o

/-- **What a program that is a function comes to by the strict reading** when it is applied
to data. -/
def StrictlyAnswers (ds : List Datum) (o : Observation) : Prop :=
  ∃ v m, Strict.Apply W (f.atomValue Env.global W.start) (ds.map .datum) W.start v m ∧
    m.observe Form.Value.datum? xs v = o

end

/-! ## Steady programs -/

/-- The variable that a form is. -/
def name? : Form → Option Text
  | constant (.symbol x) => some x
  | _ => none

/-- **The variables that wait** among operands: another operand is evaluated after them. -/
def waiting : List Form → List Text
  | [] => []
  | f :: fs => (if fs.all isAtomic then [] else f.name?.toList) ++ waiting fs

mutual

/-- **Steady**: all assignments are to names of the list, and no variable of the list ever
has to wait. -/
def steady (names : List Text) : Form → Bool
  | constant _ => true
  | lambda _ first rest => first.steady names && steadyAll names rest
  | branch test yes no => test.steady names && yes.steady names && no.steady names
  | sequence first rest => first.steady names && steadyAll names rest
  | assign name value => decide (name ∈ names) && value.steady names
  | letrec bindings first rest =>
    steadyBindings names bindings && (first.steady names && steadyAll names rest)
  | primitive _ args => decide (∀ x ∈ waiting args, x ∉ names) && steadyAll names args
  | call fn args =>
    decide (∀ x ∈ waiting (fn :: args), x ∉ names) && (fn.steady names && steadyAll names args)

/-- Several forms are steady. -/
def steadyAll (names : List Text) : List Form → Bool
  | [] => true
  | f :: fs => f.steady names && steadyAll names fs

/-- The values of bindings are steady. -/
def steadyBindings (names : List Text) : List (Text × Form) → Bool
  | [] => true
  | (_, init) :: bs => init.steady names && steadyBindings names bs

end

/-- The values of steady bindings are steady. -/
theorem steady_of_mem_bindings {names : List Text} {bs : List (Text × Form)}
    (h : steadyBindings names bs = true) : ∀ b ∈ bs, b.2.steady names = true := by
  induction bs with
  | nil => exact nofun
  | cons b bs ih =>
    rw [steadyBindings, Bool.and_eq_true] at h
    exact List.forall_mem_cons.2 ⟨h.1, ih h.2⟩

end Form

/-! ## What evaluation leaves alone -/

/-- **A value within bounds**: a closure is steady, and means bindings that were made. -/
inductive Form.Value.Within (names : List Text) (bound : Text → Nat) : Form.Value → Prop
  /-- Data are. -/
  | datum (d : Datum) : Within names bound (.datum d)
  /-- So is a closure of steady code. -/
  | closure {params : List Text} {first : Form} {rest : List Form} {ρ : Env} :
      (Form.sequence first rest).steady names = true → (∀ x, ρ x ≤ bound x) →
      Within names bound (.closure params first rest ρ)

open Form.Value (Within)

/-- **A steady state**: the environment means bindings that were made, and all values in the
store are within bounds. -/
structure Steady (names : List Text) (ρ : Env) (m : Store Form.Value) : Prop where
  /-- The environment. -/
  env : ∀ x, ρ x ≤ m.bound x
  /-- The store. -/
  cell : ∀ x n, Within names m.bound (m.cell x n)

/-- **What stays as it is** between two stores: the variables outside the list. -/
structure Calm (names : List Text) (m m' : Store Form.Value) : Prop where
  /-- Names are bound more often only. -/
  bound : ∀ x, m.bound x ≤ m'.bound x
  /-- Bindings of other names that were made keep their values. -/
  cell : ∀ x, x ∉ names → ∀ n ≤ m.bound x, m'.cell x n = m.cell x n

/-- **What evaluation leaves**: values within bounds, and other variables alone. -/
structure Leaves (names : List Text) (m : Store Form.Value) (vs : List Form.Value)
    (m' : Store Form.Value) : Prop where
  /-- Other variables are left alone. -/
  calm : Calm names m m'
  /-- The store is within bounds. -/
  cell : ∀ x n, Within names m'.bound (m'.cell x n)
  /-- So are the values. -/
  values : ∀ v ∈ vs, Within names m'.bound v

section

variable {names xs : List Text} {ρ : Env} {m m₁ m₂ : Store Form.Value} {v : Form.Value}
  {us vs : List Form.Value} {bound bound' : Text → Nat}

/-- Values stay within bounds that grow. -/
theorem Form.Value.Within.mono (h : Within names bound v) (hbound : ∀ x, bound x ≤ bound' x) :
    Within names bound' v := by
  cases h with
  | datum d => exact .datum d
  | closure hbody henv => exact .closure hbody fun x => (henv x).trans (hbound x)

namespace Calm

theorem refl (names : List Text) (m : Store Form.Value) : Calm names m m :=
  ⟨fun _ => Nat.le_refl _, fun _ _ _ _ => rfl⟩

theorem trans (h : Calm names m m₁) (h' : Calm names m₁ m₂) : Calm names m m₂ :=
  ⟨fun x => (h.bound x).trans (h'.bound x), fun x hx n hn =>
    (h'.cell x hx n (hn.trans (h.bound x))).trans (h.cell x hx n hn)⟩

/-- Writing to a variable of the list, or to a binding that was made later. -/
theorem write (h : Calm names m m₁) {x : Text} {n : Nat} (hx : x ∈ names ∨ m.bound x < n)
    (v : Form.Value) : Calm names m (m₁.write x n v) where
  bound := h.bound
  cell y hy k hk := by
    rw [Store.write_cell_of_ne, h.cell y hy k hk]
    rintro ⟨rfl, rfl⟩
    rcases hx with hx | hx
    · exact hy hx
    · exact absurd hk (Nat.not_le.2 hx)

/-- One more binding. -/
theorem push (h : Calm names m m₁) (x : Text) (v : Form.Value) : Calm names m (m₁.push x v) where
  bound y := by
    by_cases hy : y = x
    · subst hy
      rw [Store.push_bound_self]
      exact Nat.le_succ_of_le (h.bound y)
    · rw [Store.push_bound_of_ne _ _ hy]
      exact h.bound y
  cell := (h.write (.inr (Nat.lt_succ_of_le (h.bound x))) v).cell

end Calm

namespace Steady

/-- Reading an atomic form. -/
theorem atomValue (h : Steady names ρ m) {f : Form} (hf : f.steady names = true) :
    Within names m.bound (f.atomValue ρ m) := by
  cases f with
  | constant e =>
    cases e with
    | symbol x => exact h.cell x (ρ x)
    | _ => exact .datum _
  | lambda params first rest => exact .closure hf h.env
  | _ => exact .datum _

/-- After an evaluation. -/
theorem after (h : Steady names ρ m) (hleaves : Leaves names m vs m₁) : Steady names ρ m₁ :=
  ⟨fun x => (h.env x).trans (hleaves.calm.bound x), hleaves.cell⟩

/-- Writing a value. -/
theorem write (h : Steady names ρ m) (x : Text) (n : Nat) (hv : Within names m.bound v) :
    Steady names ρ (m.write x n v) where
  env := h.env
  cell y k := by
    by_cases hyk : y = x ∧ k = n
    · obtain ⟨rfl, rfl⟩ := hyk
      rw [Store.write_cell_self]
      exact hv
    · rw [Store.write_cell_of_ne _ _ hyk]
      exact h.cell y k

/-- One more binding. -/
theorem push (h : Steady names ρ m) (x : Text) (hv : Within names m.bound v) :
    Steady names (Function.update ρ x (m.fresh x)) (m.push x v) where
  env y := by
    by_cases hy : y = x
    · subst hy
      rw [Function.update_self, Store.push_bound_self]
      exact Nat.le_refl _
    · rw [Function.update_of_ne hy]
      exact (h.env y).trans (((Calm.refl names m).push x v).bound y)
  cell y k := ((h.write x (m.fresh x) hv).cell y k).mono ((Calm.refl names m).push x v).bound

/-- **Entering a scope.** -/
theorem bindAll (h : Steady names ρ m) (hvs : ∀ v ∈ vs, Within names m.bound v)
    (hcalm : Calm names m₁ m) (xs : List Text) :
    Steady names (Store.bindAll xs vs ρ m).1 (Store.bindAll xs vs ρ m).2 ∧
      Calm names m₁ (Store.bindAll xs vs ρ m).2 := by
  induction xs generalizing vs ρ m with
  | nil => exact ⟨h, hcalm⟩
  | cons x xs ih =>
    cases vs with
    | nil => exact ⟨h, hcalm⟩
    | cons v vs =>
      obtain ⟨hv, hvs⟩ := List.forall_mem_cons.1 hvs
      exact ih (h.push x hv) (fun u hu => (hvs u hu).mono ((Calm.refl names m).push x v).bound)
        (hcalm.push x v)

/-- Assigning values to bindings that were made later. -/
theorem assignAll (h : Steady names ρ m) (hvs : ∀ v ∈ vs, Within names m.bound v)
    (hcalm : Calm names m₁ m) (hxs : ∀ x ∈ xs, m₁.bound x < ρ x) :
    Steady names ρ (Store.assignAll xs vs ρ m) ∧ Calm names m₁ (Store.assignAll xs vs ρ m) := by
  induction xs generalizing vs m with
  | nil => exact ⟨h, hcalm⟩
  | cons x xs ih =>
    cases vs with
    | nil => exact ⟨h, hcalm⟩
    | cons v vs =>
      obtain ⟨hv, hvs⟩ := List.forall_mem_cons.1 hvs
      obtain ⟨hx, hxs⟩ := List.forall_mem_cons.1 hxs
      exact ih (h.write x (ρ x) hv) hvs (hcalm.write (.inr hx) v) hxs

end Steady

/-- A name that is bound means a binding that was not there before. -/
theorem Store.bound_lt_bindAll {x : Text} (hx : x ∈ xs) (hlength : xs.length = vs.length)
    (ρ : Env) (m : Store Form.Value) : m.bound x < (Store.bindAll xs vs ρ m).1 x := by
  induction xs generalizing vs ρ m with
  | nil => exact absurd hx List.not_mem_nil
  | cons y xs ih =>
    cases vs with
    | nil => cases hlength
    | cons v vs =>
      rw [Store.bindAll]
      by_cases hin : x ∈ xs
      · exact Nat.lt_of_le_of_lt (((Calm.refl [] m).push y v).bound x)
          (ih hin (Nat.succ.inj hlength) _ _)
      · obtain rfl := (List.mem_cons.1 hx).resolve_right hin
        rw [Store.bindAll_env_of_not_mem hin, Function.update_self]
        exact Nat.lt_succ_self _

/-- **Entering a recursive binding.** -/
theorem Steady.enterRec (h : Steady names ρ m) {bs : List (Text × Form)}
    (hbs : Form.steadyBindings names bs = true) :
    Steady names (Form.enterRec bs ρ m).1 (Form.enterRec bs ρ m).2 ∧
      Calm names m (Form.enterRec bs ρ m).2 := by
  have hunset : ∀ v ∈ (bs.map Prod.fst).map fun _ => Form.Value.datum .undefined,
      Within names m.bound v := by
    intro v hv
    obtain ⟨_, _, rfl⟩ := List.mem_map.1 hv
    exact .datum _
  obtain ⟨hinside, hcalm⟩ := h.bindAll hunset (Calm.refl names m) (bs.map Prod.fst)
  refine hinside.assignAll (fun v hv => ?_) hcalm fun x hx =>
    Store.bound_lt_bindAll hx (List.length_map _).symm ρ m
  obtain ⟨b, hb, rfl⟩ := List.mem_map.1 hv
  exact hinside.atomValue (Form.steady_of_mem_bindings hbs b hb)

namespace Leaves

/-- More was done before, which left other variables alone. -/
theorem since (h : Leaves names m₁ vs m₂) (hcalm : Calm names m m₁) : Leaves names m vs m₂ :=
  ⟨hcalm.trans h.calm, h.cell, h.values⟩

/-- Reading an atomic form. -/
theorem read (h : Steady names ρ m) {f : Form} (hf : f.steady names = true) :
    Leaves names m [f.atomValue ρ m] m :=
  ⟨.refl names m, h.cell, List.forall_mem_singleton.2 (h.atomValue hf)⟩

/-- No operands. -/
theorem nil (h : Steady names ρ m) : Leaves names m [] m :=
  ⟨.refl names m, h.cell, nofun⟩

/-- One operand and the others. -/
theorem cons (h : Leaves names m [v] m₁) (hrest : Leaves names m₁ vs m₂) :
    Leaves names m (v :: vs) m₂ := by
  refine ⟨h.calm.trans hrest.calm, hrest.cell, List.forall_mem_cons.2 ⟨?_, hrest.values⟩⟩
  exact (h.values v List.mem_cons_self).mono hrest.calm.bound

/-- An assignment. -/
theorem assign (h : Leaves names m [v] m₁) (hs : Steady names ρ m) {x : Text} (hx : x ∈ names) :
    Leaves names m [(m₁.write x (ρ x) v).cell undefinedName 0] (m₁.write x (ρ x) v) := by
  have hwrite := (hs.after h).write x (ρ x) (h.values v List.mem_cons_self)
  exact ⟨h.calm.write (.inl hx) v, hwrite.cell,
    List.forall_mem_singleton.2 (hwrite.cell undefinedName 0)⟩

/-- Data. -/
theorem datum (h : Leaves names m vs m₁) (d : Datum) : Leaves names m [.datum d] m₁ :=
  ⟨h.calm, h.cell, List.forall_mem_singleton.2 (.datum d)⟩

/-- The call of an external procedure. -/
theorem record (h : ∀ x n, Within names m.bound (m.cell x n)) (event : Event) (d : Datum) :
    Leaves names m [.datum d] (m.record event) :=
  ⟨⟨fun _ => Nat.le_refl _, fun _ _ _ _ => rfl⟩, h, List.forall_mem_singleton.2 (.datum d)⟩

end Leaves

/-- **A variable that waits keeps its value** until the call is made. -/
theorem Steady.atomValue_eq (h : Steady names ρ m) {f : Form} {fs : List Form}
    (hwait : ∀ x ∈ Form.waiting (f :: fs), x ∉ names) (hcalm : Calm names m m₁)
    (hall : fs.all Form.isAtomic = true → m₁ = m) : f.atomValue ρ m₁ = f.atomValue ρ m := by
  by_cases hatomic : fs.all Form.isAtomic = true
  · rw [hall hatomic]
  · cases f with
    | constant e =>
      cases e with
      | symbol x =>
        refine hcalm.cell x (hwait x ?_) (ρ x) (h.env x)
        rw [Form.waiting, if_neg hatomic]
        exact List.mem_cons_self
      | _ => rfl
    | _ => rfl

end

/-! ## Steady programs come to the same -/

section

variable {W : World} {names : List Text}

/-- Operands that are all atomic leave the store as it is. -/
theorem Operands.eq_of_atomic {fs : List Form} {ρ : Env} {m m' : Store Form.Value}
    {operands : List Operand} (h : Operands W fs ρ m operands m')
    (hfs : fs.all Form.isAtomic = true) : m' = m := by
  induction fs generalizing operands with
  | nil =>
    cases h
    rfl
  | cons f fs ih =>
    rw [List.all_cons, Bool.and_eq_true] at hfs
    cases h with
    | later _ h => exact ih h hfs.2
    | known hf _ _ => exact absurd hfs.1 (by rw [hf]; exact Bool.false_ne_true)

/-- So they do by the strict reading. -/
theorem Strict.EvalAll.eq_of_atomic {fs : List Form} {ρ : Env} {m m' : Store Form.Value}
    {vs : List Form.Value} (h : Strict.EvalAll W fs ρ m vs m')
    (hfs : fs.all Form.isAtomic = true) : m' = m := by
  induction fs generalizing vs with
  | nil =>
    cases h
    rfl
  | cons f fs ih =>
    rw [List.all_cons, Bool.and_eq_true] at hfs
    cases h with
    | cons h hrest =>
      obtain ⟨-, rfl⟩ := h.eq_of_atomic hfs.1
      exact ih hrest hfs.2

/-- The side of a branch that is taken. -/
theorem Form.steady_side {yes no : Form} (hyes : yes.steady names = true)
    (hno : no.steady names = true) (b : Bool) :
    (if b then yes else no).steady names = true := by
  cases b with
  | true => exact hyes
  | false => exact hno

mutual

/-- **A steady form that is evaluated is evaluated strictly.** -/
theorem Eval.strict {f : Form} {ρ : Env} {m m' : Store Form.Value} {v : Form.Value} :
    Eval W f ρ m v m' → f.steady names = true → Steady names ρ m →
    Strict.Eval W f ρ m v m' ∧ Leaves names m [v] m'
  | .atom hf, hsteady, hs => ⟨.atom hf, .read hs hsteady⟩
  | .branch htest hside, hsteady, hs => by
    rw [Form.steady, Bool.and_eq_true, Bool.and_eq_true] at hsteady
    obtain ⟨htest, hleaves⟩ := htest.strict hsteady.1.1 hs
    obtain ⟨hside, hleaves'⟩ :=
      hside.strict (Form.steady_side hsteady.1.2 hsteady.2 _) (hs.after hleaves)
    exact ⟨.branch htest hside, hleaves'.since hleaves.calm⟩
  | .last h, hsteady, hs => by
    rw [Form.steady, Bool.and_eq_true] at hsteady
    obtain ⟨h, hleaves⟩ := h.strict hsteady.1 hs
    exact ⟨.last h, hleaves⟩
  | .next hfirst hrest, hsteady, hs => by
    rw [Form.steady, Form.steadyAll, Bool.and_eq_true] at hsteady
    obtain ⟨hfirst, hleaves⟩ := hfirst.strict hsteady.1 hs
    obtain ⟨hrest, hleaves'⟩ := hrest.strict (by rw [Form.steady]; exact hsteady.2)
      (hs.after hleaves)
    exact ⟨.next hfirst hrest, hleaves'.since hleaves.calm⟩
  | .assign h, hsteady, hs => by
    rw [Form.steady, Bool.and_eq_true, decide_eq_true_eq] at hsteady
    obtain ⟨h, hleaves⟩ := h.strict hsteady.2 hs
    exact ⟨.assign h, hleaves.assign hs hsteady.1⟩
  | .letrec h, hsteady, hs => by
    rw [Form.steady, Bool.and_eq_true] at hsteady
    obtain ⟨hinside, hcalm⟩ := hs.enterRec hsteady.1
    obtain ⟨h, hleaves⟩ := h.strict (by rw [Form.steady]; exact hsteady.2) hinside
    exact ⟨.letrec h, hleaves.since hcalm⟩
  | .primitive h hds hd, hsteady, hs => by
    rw [Form.steady, Bool.and_eq_true, decide_eq_true_eq] at hsteady
    obtain ⟨h, hleaves⟩ := h.strict hsteady.2 hsteady.1 hs
    rw [hds] at h
    exact ⟨.primitive h hd, hleaves.datum _⟩
  | .call h happly, hsteady, hs => by
    rw [Form.steady, Bool.and_eq_true, decide_eq_true_eq] at hsteady
    obtain ⟨h, hleaves⟩ := h.strict (by rw [Form.steadyAll]; exact hsteady.2) hsteady.1 hs
    obtain ⟨hfn, hargs⟩ := List.forall_mem_cons.1 hleaves.values
    obtain ⟨happly, hleaves'⟩ := happly.strict hfn hargs hleaves.cell
    exact ⟨.call h happly, hleaves'.since hleaves.calm⟩

/-- Operands are evaluated strictly, because what waits keeps its value. -/
theorem Operands.strict {fs : List Form} {ρ : Env} {m m' : Store Form.Value}
    {operands : List Operand} :
    Operands W fs ρ m operands m' → Form.steadyAll names fs = true →
    (∀ x ∈ Form.waiting fs, x ∉ names) → Steady names ρ m →
    Strict.EvalAll W fs ρ m (operands.map (·.value ρ m')) m' ∧
      Leaves names m (operands.map (·.value ρ m')) m'
  | .nil, _, _, hs => ⟨.nil, .nil hs⟩
  | .later hf h, hsteady, hwait, hs => by
    rw [Form.steadyAll, Bool.and_eq_true] at hsteady
    obtain ⟨hrest, hleaves⟩ := h.strict hsteady.2
      (fun x hx => hwait x (List.mem_append_right _ hx)) hs
    rw [List.map_cons, Operand.value,
      hs.atomValue_eq hwait hleaves.calm fun hall => h.eq_of_atomic hall]
    exact ⟨.cons (.atom hf) hrest, (Leaves.read hs hsteady.1).cons hleaves⟩
  | .known _ h hrest, hsteady, hwait, hs => by
    rw [Form.steadyAll, Bool.and_eq_true] at hsteady
    obtain ⟨h, hleaves⟩ := h.strict hsteady.1 hs
    obtain ⟨hrest, hleaves'⟩ := hrest.strict hsteady.2
      (fun x hx => hwait x (List.mem_append_right _ hx)) (hs.after hleaves)
    exact ⟨.cons h hrest, hleaves.cons hleaves'⟩

/-- A steady function is applied strictly. -/
theorem Apply.strict {fn : Form.Value} {args : List Form.Value} {m m' : Store Form.Value}
    {v : Form.Value} :
    Apply W fn args m v m' → Within names m.bound fn → (∀ a ∈ args, Within names m.bound a) →
    (∀ x n, Within names m.bound (m.cell x n)) →
    Strict.Apply W fn args m v m' ∧ Leaves names m [v] m'
  | .closure hlength h, .closure hbody henv, hargs, hcell => by
    obtain ⟨hs, hcalm⟩ := (Steady.mk henv hcell).bindAll hargs (Calm.refl names m) _
    obtain ⟨h, hleaves⟩ := h.strict hbody hs
    exact ⟨.closure hlength h, hleaves.since hcalm⟩
  | .external hd, _, _, hcell => ⟨.external hd, .record hcell _ _⟩

end

mutual

/-- **A steady form that is evaluated strictly is evaluated.** -/
theorem Strict.Eval.late {f : Form} {ρ : Env} {m m' : Store Form.Value} {v : Form.Value} :
    Strict.Eval W f ρ m v m' → f.steady names = true → Steady names ρ m →
    PassingStyle.Eval W f ρ m v m' ∧ Leaves names m [v] m'
  | .atom hf, hsteady, hs => ⟨.atom hf, .read hs hsteady⟩
  | .branch htest hside, hsteady, hs => by
    rw [Form.steady, Bool.and_eq_true, Bool.and_eq_true] at hsteady
    obtain ⟨htest, hleaves⟩ := htest.late hsteady.1.1 hs
    obtain ⟨hside, hleaves'⟩ :=
      hside.late (Form.steady_side hsteady.1.2 hsteady.2 _) (hs.after hleaves)
    exact ⟨.branch htest hside, hleaves'.since hleaves.calm⟩
  | .last h, hsteady, hs => by
    rw [Form.steady, Bool.and_eq_true] at hsteady
    obtain ⟨h, hleaves⟩ := h.late hsteady.1 hs
    exact ⟨.last h, hleaves⟩
  | .next hfirst hrest, hsteady, hs => by
    rw [Form.steady, Form.steadyAll, Bool.and_eq_true] at hsteady
    obtain ⟨hfirst, hleaves⟩ := hfirst.late hsteady.1 hs
    obtain ⟨hrest, hleaves'⟩ := hrest.late (by rw [Form.steady]; exact hsteady.2)
      (hs.after hleaves)
    exact ⟨.next hfirst hrest, hleaves'.since hleaves.calm⟩
  | .assign h, hsteady, hs => by
    rw [Form.steady, Bool.and_eq_true, decide_eq_true_eq] at hsteady
    obtain ⟨h, hleaves⟩ := h.late hsteady.2 hs
    exact ⟨.assign h, hleaves.assign hs hsteady.1⟩
  | .letrec h, hsteady, hs => by
    rw [Form.steady, Bool.and_eq_true] at hsteady
    obtain ⟨hinside, hcalm⟩ := hs.enterRec hsteady.1
    obtain ⟨h, hleaves⟩ := h.late (by rw [Form.steady]; exact hsteady.2) hinside
    exact ⟨.letrec h, hleaves.since hcalm⟩
  | .primitive h hd, hsteady, hs => by
    rw [Form.steady, Bool.and_eq_true, decide_eq_true_eq] at hsteady
    obtain ⟨operands, h, hds, hleaves⟩ := h.late hsteady.2 hsteady.1 hs
    exact ⟨.primitive h hds hd, hleaves.datum _⟩
  | .call h happly, hsteady, hs => by
    rw [Form.steady, Bool.and_eq_true, decide_eq_true_eq] at hsteady
    obtain ⟨operands, hoperands, hvalues, hleaves⟩ :=
      h.late (by rw [Form.steadyAll]; exact hsteady.2) hsteady.1 hs
    obtain ⟨hfn, hargs⟩ := List.forall_mem_cons.1 hleaves.values
    obtain ⟨happly, hleaves'⟩ := happly.late hfn hargs hleaves.cell
    match operands, hvalues with
    | o :: operands, hvalues =>
      obtain ⟨rfl, rfl⟩ := List.cons.inj hvalues
      exact ⟨.call hoperands happly, hleaves'.since hleaves.calm⟩

/-- Atomic operands may be read later, because what waits keeps its value. -/
theorem Strict.EvalAll.late {fs : List Form} {ρ : Env} {m m' : Store Form.Value}
    {vs : List Form.Value} :
    Strict.EvalAll W fs ρ m vs m' → Form.steadyAll names fs = true →
    (∀ x ∈ Form.waiting fs, x ∉ names) → Steady names ρ m →
    ∃ operands, Operands W fs ρ m operands m' ∧ operands.map (·.value ρ m') = vs ∧
      Leaves names m vs m'
  | .nil, _, _, hs => ⟨[], .nil, rfl, .nil hs⟩
  | .cons (f := f) h hrest, hsteady, hwait, hs => by
    rw [Form.steadyAll, Bool.and_eq_true] at hsteady
    obtain ⟨heval, hleaves⟩ := h.late hsteady.1 hs
    obtain ⟨operands, hoperands, hvalues, hleaves'⟩ := hrest.late hsteady.2
      (fun x hx => hwait x (List.mem_append_right _ hx)) (hs.after hleaves)
    cases hf : f.isAtomic with
    | true =>
      obtain ⟨rfl, rfl⟩ := h.eq_of_atomic hf
      refine ⟨.later f :: operands, .later hf hoperands, ?_, hleaves.cons hleaves'⟩
      rw [List.map_cons, hvalues, Operand.value,
        hs.atomValue_eq hwait hleaves'.calm fun hall => hrest.eq_of_atomic hall]
    | false =>
      exact ⟨.known _ :: operands, .known hf heval hoperands, by rw [List.map_cons, hvalues]; rfl,
        hleaves.cons hleaves'⟩

/-- A steady function that is applied strictly is applied. -/
theorem Strict.Apply.late {fn : Form.Value} {args : List Form.Value} {m m' : Store Form.Value}
    {v : Form.Value} :
    Strict.Apply W fn args m v m' → Within names m.bound fn →
    (∀ a ∈ args, Within names m.bound a) → (∀ x n, Within names m.bound (m.cell x n)) →
    PassingStyle.Apply W fn args m v m' ∧ Leaves names m [v] m'
  | .closure hlength h, .closure hbody henv, hargs, hcell => by
    obtain ⟨hs, hcalm⟩ := (Steady.mk henv hcell).bindAll hargs (Calm.refl names m) _
    obtain ⟨h, hleaves⟩ := h.late hbody hs
    exact ⟨.closure hlength h, hleaves.since hcalm⟩
  | .external hd, _, _, hcell => ⟨.external hd, .record hcell _ _⟩

end

/-- In the beginning everything is steady. -/
theorem Steady.start (names : List Text) (W : World) : Steady names Env.global W.start :=
  ⟨fun _ => Nat.le_refl _, fun _ _ => .datum _⟩

variable {f : Form} {xs : List Text} {ds : List Datum} {o : Observation}

/-- **A steady program comes to the same by the strict reading.** -/
theorem Form.strictlyGives_iff (h : f.steady names = true) :
    f.StrictlyGives W xs o ↔ f.Gives W xs o := by
  constructor
  · rintro ⟨v, m, heval, rfl⟩
    exact ⟨v, m, (heval.late h (.start names W)).1, rfl⟩
  · rintro ⟨v, m, heval, rfl⟩
    exact ⟨v, m, (heval.strict h (.start names W)).1, rfl⟩

/-- **A steady function answers the same by the strict reading.** -/
theorem Form.strictlyAnswers_iff (h : f.steady names = true) :
    f.StrictlyAnswers W xs ds o ↔ f.Answers W xs ds o := by
  have hs := Steady.start names W
  have hargs : ∀ a ∈ ds.map Form.Value.datum, Within names W.start.bound a := by
    intro a ha
    obtain ⟨d, _, rfl⟩ := List.mem_map.1 ha
    exact .datum d
  constructor
  · rintro ⟨v, m, happly, rfl⟩
    exact ⟨v, m, (happly.late (hs.atomValue h) hargs hs.cell).1, rfl⟩
  · rintro ⟨v, m, happly, rfl⟩
    exact ⟨v, m, (happly.strict (hs.atomValue h) hargs hs.cell).1, rfl⟩

end

/-! ## What conversion keeps of the strict reading -/

/-- **The strict reading of a program is kept** by a converted program with the final
continuation `halt`. -/
def Form.StrictlyKeptBy (W : World) (halt : Text) (out : Sexp) : Form → Prop
  | lambda params first rest => ∀ ds o,
    (lambda params first rest).StrictlyAnswers W (lambda params first rest).free ds o ↔
      Target.Answers W halt (lambda params first rest).free out ds o
  | f => ∀ o, f.StrictlyGives W f.free o ↔ Target.Gives W halt f.free out o

/-- For a steady program it is as good as its meaning. -/
theorem Form.strictlyKeptBy_iff {W : World} {names : List Text} {halt : Text} {out : Sexp}
    {f : Form} (h : f.steady names = true) : f.StrictlyKeptBy W halt out ↔ f.KeptBy W halt out := by
  cases f with
  | lambda params first rest =>
    exact forall_congr' fun ds => forall_congr' fun o => by rw [strictlyAnswers_iff h]
  | _ => exact forall_congr' fun o => by rw [strictlyGives_iff h]

/-- A world with one external procedure, where everything else is `#f`. -/
def World.answering (p : Text) : World where
  globals x := if x = p then .external p else .constant (.bool false)
  delta _ _ := none
  oracle _ _ := some .undefined

namespace Convert

variable {isPrimitive : Text → Bool} {e e' out : Sexp} {t t₁ t₂ : NameTable} {g : Form}
  {halt : Text}

/-- **A renamed program keeps its meaning** when it is converted, if nothing around its end is
called like the final continuation. -/
theorem program_keptBy (hrename : (alphatize e).outcome t = (.ok e', t₁))
    (hprogram : (program isPrimitive e' halt).outcome t₁ = (.ok out, t₂))
    (hg : Form.analyse isPrimitive e' = .ok g) (hkeyword : Keyword.of? (.symbol halt) = none)
    (hundefined : halt ≠ undefinedName) (hfree : halt ∉ g.free) (hscopes : halt ∉ g.scopes)
    (W : World) : g.KeptBy W halt out := by
  obtain ⟨g', hg', hout⟩ := program_ok hprogram
  obtain rfl : g' = g := Except.ok.inj (hg'.symm.trans hg)
  obtain ⟨hvalid, _⟩ := Form.analyse_eq_ok isPrimitive e' g' hg
  obtain ⟨names, hdraws, himage⟩ := hvalid.convertProgram_image halt
    (t₁.reserve programNames (Sexp.symbolsList [e', .symbol halt]))
  rw [hout] at hdraws himage
  let S := Setting.ofDraws isPrimitive hdraws hkeyword hundefined
  have htidy : S.Tidy [g'] := .ofDraws hrename hg hdraws hkeyword hundefined
  have hfresh : S.Fresh names := ⟨hdraws.nodup, fun x hx => hx⟩
  have hxs : ∀ x ∈ g'.free, x ∉ S.drawn ∧ x ≠ S.halt := by
    refine fun x hx => ⟨htidy.free x (List.mem_append_left _ hx), ?_⟩
    rintro rfl
    exact hfree hx
  rcases himage with ⟨⟨params, first, rest, rfl⟩, himage⟩ | ⟨hne, himage⟩
  · exact fun ds o => S.answers_iff himage htidy hfresh hfree hxs
  · rw [Form.keptBy_iff hne]
    exact fun o => S.gives_iff himage htidy hfresh hfree hscopes hxs

/-- **A steady program keeps its strict reading.** -/
theorem program_keeps_order (names : List Text)
    (hrename : (alphatize e).outcome t = (.ok e', t₁))
    (hprogram : (program isPrimitive e' halt).outcome t₁ = (.ok out, t₂))
    (hg : Form.analyse isPrimitive e' = .ok g) (hkeyword : Keyword.of? (.symbol halt) = none)
    (hundefined : halt ≠ undefinedName) (hfree : halt ∉ g.free) (hscopes : halt ∉ g.scopes)
    (hsteady : g.steady names = true) (W : World) : g.StrictlyKeptBy W halt out :=
  (Form.strictlyKeptBy_iff hsteady).2
    (program_keptBy hrename hprogram hg hkeyword hundefined hfree hscopes W)

/-- In the program `(p x (set! y x))` the variable `x` has to wait, but `y` is assigned. -/
theorem program_keeps_order_other_variable :
    (Form.call (.constant (.ofName "p"))
      [.constant (.ofName "x"), .assign "y" (.constant (.ofName "x"))]).StrictlyKeptBy
      (.answering "p") "halt" (Target.assign "y" (.ofName "x") (Target.lambda ["rv0"]
        (Target.call (.ofName "p") [.ofName "x", .ofName "rv0"] (.ofName "halt")))) := by
  have hrename : (alphatize (.list [.ofName "p", .ofName "x",
      .list [Keyword.assign.sexp, .ofName "y", .ofName "x"]])).outcome .empty = (.ok _, _) := rfl
  exact program_keeps_order ["y"] hrename rfl
    (rfl : Form.analyse defaultPrimitives.contains _ = _) rfl (by decide) (by decide) (by decide)
    rfl _

/-- In the program `(p x (set! x #t))` the variable `x` is assigned while it waits. The strict
reading calls `p` with the value that `x` had before, but the converted program calls it with
the new one. -/
theorem program_reads_assigned_variable_late :
    (Compiler.outcome (Compiler.convert (Form.call (.constant (.ofName "p"))
      [.constant (.ofName "x"), .assign "x" (.constant (.bool true))]).toSexp)
      { settings := { alphatize := true } }).1
      = .ok (Target.assign "x" (.bool true) (Target.lambda ["rv0"]
        (Target.call (.ofName "p") [.ofName "x", .ofName "rv0"] (.ofName "halt")))) ∧
    ¬ (Form.call (.constant (.ofName "p"))
      [.constant (.ofName "x"), .assign "x" (.constant (.bool true))]).StrictlyKeptBy
      (.answering "p") "halt" (Target.assign "x" (.bool true) (Target.lambda ["rv0"]
        (Target.call (.ofName "p") [.ofName "x", .ofName "rv0"] (.ofName "halt")))) := by
  refine ⟨rfl, fun hkept => ?_⟩
  have happly (m : Store Form.Value) : Strict.Apply (.answering "p") (.datum (.external "p"))
      ([.constant (.bool false), .constant (.bool false)].map .datum) m (.datum .undefined) _ :=
    .external rfl
  obtain ⟨v, m, hreach, hobserve⟩ := (hkept _).1 ⟨_, _, .call (.cons (.atom rfl)
    (.cons (.atom rfl) (.cons (.assign (.atom rfl)) .nil))) (happly _), rfl⟩
  have hreach' : Target.Reaches (.answering "p") (.run (Target.assign "x" (.bool true)
      (Target.lambda ["rv0"] (Target.call (.ofName "p") [.ofName "x", .ofName "rv0"]
        (.ofName "halt")))) Env.global (Target.start (.answering "p") "halt"))
      (.done _ _) := ⟨6, rfl⟩
  obtain ⟨rfl, rfl⟩ := hreach'.done_unique hreach
  cases hobserve

end Convert

end PassingStyle
