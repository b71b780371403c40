import PassingStyle.Proofs.Meaning.Relation

/-!
# Converted programs do what programs do

Whatever the evaluation of a form comes to, its converted code comes to as well: it hands
a related value to its continuation, with a related store. This is shown rule by rule of
the evaluation, for all continuations and all converted code of the form at once. The
continuation need not be run in the environment that the code started with: recursive
bindings of the form, and variables that hold values of operands, have been added to it.
-/

namespace PassingStyle

open Target (Reaches Config atomValue)

namespace Setting

variable (S : Setting) (W : World)

/-- **A program and its converted code meet**: the forms are tidy, their names were drawn
for them, and the environments and stores are related. -/
structure Meets (fs : List Form) (names : List Text) (ρ ρ' : Env) (m : Store Form.Value)
    (m' : Store Target.Value) : Prop where
  /-- The forms are tidy. -/
  tidy : S.Tidy fs
  /-- The names were drawn. -/
  fresh : S.Fresh names
  /-- The environments agree. -/
  agree : S.Agree (Form.freeAll fs) ρ ρ'
  /-- The stores are related. -/
  store : S.StoreRel m m'

/-- **What the code of a form does** if the form is evaluated to `v`: it hands a related
value to its continuation. -/
def Simulates (f : Form) (ρ : Env) (m : Store Form.Value) (v : Form.Value)
    (m₁ : Store Form.Value) : Prop :=
  ∀ ⦃c : Sexp⦄ ⦃names : List Text⦄ ⦃out : Sexp⦄ ⦃ρ' : Env⦄ ⦃m' : Store Target.Value⦄,
    Image f c names out → S.Meets [f] names ρ ρ' m m' → S.Ready c (f.scopes ++ names) ρ' m' →
    ∃ ρ₁ m₁' v' κ, Reaches W (.run out ρ' m') (.call κ [v'] m₁') ∧
      atomValue c ρ₁ m₁' = some κ ∧ S.ValueRel v v' ∧ S.StoreRel m₁ m₁' ∧
      S.Moved (f.scopes ++ names) ρ' m' ρ₁ m₁'

/-- **What the code of operands does**: it comes to the code after them, where the
expressions that hold the operands have related values. -/
def SimulatesAll (fs : List Form) (ρ : Env) (m : Store Form.Value) (operands : List Operand)
    (m₁ : Store Form.Value) : Prop :=
  ∀ ⦃names : List Text⦄ ⦃as : List Sexp⦄ ⦃body out : Sexp⦄ ⦃ρ' : Env⦄ ⦃m' : Store Target.Value⦄,
    OperandsImage fs names as body out → S.Meets fs names ρ ρ' m m' →
    ∃ ρ₁ m₁', Reaches W (.run out ρ' m') (.run body ρ₁ m₁') ∧
      List.Forall₂ (fun o a => ∃ w, atomValue a ρ₁ m₁' = some w ∧ S.ValueRel (o.value ρ m₁) w)
        operands as ∧
      S.StoreRel m₁ m₁' ∧ S.Moved (Form.scopesAll fs ++ names) ρ' m' ρ₁ m₁'

/-- **What a call does**: it hands a related value to the continuation that it is
given. -/
def SimulatesCall (fn : Form.Value) (args : List Form.Value) (m : Store Form.Value) (v : Form.Value)
    (m₁ : Store Form.Value) : Prop :=
  ∀ ⦃fn' : Target.Value⦄ ⦃args' : List Target.Value⦄ ⦃m' : Store Target.Value⦄,
    S.ValueRel fn fn' → List.Forall₂ S.ValueRel args args' → S.StoreRel m m' →
    ∀ κ, ∃ v' m₁', Reaches W (.call fn' (args' ++ [κ]) m') (.call κ [v'] m₁') ∧
      S.ValueRel v v' ∧ S.StoreRel m₁ m₁' ∧ ∀ ρ, S.Moved [] ρ m' ρ m₁'

variable {S W}

namespace Meets

variable {f : Form} {fs : List Form} {names namesRest : List Text} {ρ ρ' ρ₁ : Env}
  {m m₁ : Store Form.Value} {m' m₁' : Store Target.Value}

/-- The first form by itself. -/
theorem head (h : S.Meets (f :: fs) (names ++ namesRest) ρ ρ' m m') :
    S.Meets [f] names ρ ρ' m m' where
  tidy := h.tidy.head
  fresh := h.fresh.append.1
  agree := h.agree.subset fun x hx => by
    simp only [Form.freeAll, List.append_nil, List.mem_append] at hx ⊢
    exact Or.inl hx
  store := h.store

/-- The other forms, once the code of the first one has been run. -/
theorem tail (h : S.Meets (f :: fs) (names ++ namesRest) ρ ρ' m m') (hstore : S.StoreRel m₁ m₁')
    (hmoved : S.Moved (f.scopes ++ names) ρ' m' ρ₁ m₁') :
    S.Meets fs namesRest ρ ρ₁ m₁ m₁' where
  tidy := h.tidy.tail
  fresh := h.fresh.append.2
  agree := by
    have hchanged := h.tidy.head.undefined_not_changed h.fresh.append.1
    rw [Form.scopesAll, Form.scopesAll, List.append_nil] at hchanged
    refine (h.agree.subset fun x hx => ?_).moved hmoved (fun x hx hin => ?_) hchanged
    · exact List.mem_append_right _ hx
    · rcases List.mem_append.1 hin with hin | hin
      · exact h.tidy.head_apart x (Form.mem_binders_of_mem_scopes hin) hx
      · exact h.tidy.tail.free x hx (h.fresh.append.1.mem x hin)
  store := hstore

/-- What the forms of the code refer to does not change while it is run. -/
theorem apart (h : S.Meets (f :: fs) (names ++ namesRest) ρ ρ' m m') :
    ∀ x ∈ f.free, x ∉ Form.scopesAll fs ++ namesRest := by
  intro x hx hin
  rcases List.mem_append.1 hin with hin | hin
  · obtain ⟨g, hg, hin⟩ := Form.mem_scopesAll.1 hin
    have hbound := Form.mem_bindersAll.2 ⟨g, hg, Form.mem_binders_of_mem_scopes hin⟩
    exact h.tidy.tail_apart x hbound hx
  · exact h.tidy.free x (List.mem_append_left _ hx) (h.fresh.append.2.mem x hin)

/-- One name fewer is needed. -/
theorem drop {x : Text} (h : S.Meets fs (x :: names) ρ ρ' m m') : S.Meets fs names ρ ρ' m m' :=
  ⟨h.tidy, h.fresh.of_cons, h.agree, h.store⟩

/-- A variable that was drawn for something else does not change while the code of the
forms is run. -/
theorem drawn_not_changed (h : S.Meets fs names ρ ρ' m m') {x : Text} (hx : x ∈ S.drawn)
    (hnames : x ∉ names) : x ∉ Form.scopesAll fs ++ names := by
  intro hin
  rcases List.mem_append.1 hin with hin | hin
  · obtain ⟨f, hf, hin⟩ := Form.mem_scopesAll.1 hin
    have hbound := Form.mem_bindersAll.2 ⟨f, hf, Form.mem_binders_of_mem_scopes hin⟩
    exact (h.tidy.binders x hbound).1 hx
  · exact hnames hin

/-- The same for a single form. -/
theorem drawn_not_changed_one (h : S.Meets [f] names ρ ρ' m m') {x : Text} (hx : x ∈ S.drawn)
    (hnames : x ∉ names) : x ∉ f.scopes ++ names := by
  have := h.drawn_not_changed hx hnames
  rwa [Form.scopesAll, Form.scopesAll, List.append_nil] at this

/-- The code of the forms can be run after one more variable was bound that was drawn. -/
theorem push (h : S.Meets fs names ρ ρ' m m') {x : Text} (hx : x ∈ S.drawn)
    (v : Target.Value) :
    S.Meets fs names ρ (Function.update ρ' x (m'.fresh x)) m (m'.push x v) where
  tidy := h.tidy
  fresh := h.fresh
  agree := by
    refine h.agree.moved (.push x v ρ' m') (fun y hy hin => ?_) fun hin => ?_
    · exact h.tidy.free y hy (List.mem_singleton.1 hin ▸ hx)
    · exact S.undefined_not_drawn (List.mem_singleton.1 hin ▸ hx)
  store := h.store.push_drawn hx v

end Meets

/-- **A variable that holds a value for good**: it was drawn for that value. -/
structure Holds (S : Setting) (k : Text) (v : Target.Value) (ρ : Env)
    (m : Store Target.Value) : Prop where
  /-- It was drawn. -/
  drawn : k ∈ S.drawn
  /-- It is never assigned. -/
  kept : S.Kept m k (ρ k)
  /-- It has the value. -/
  cell : m.cell k (ρ k) = v

namespace Holds

variable {k : Text} {v : Target.Value} {ρ ρ₁ : Env} {m m₁ : Store Target.Value}
  {changed : List Text}

/-- A variable that was just bound. -/
theorem push (hk : k ∈ S.drawn) (v : Target.Value) (ρ : Env) (m : Store Target.Value) :
    S.Holds k v (Function.update ρ k (m.fresh k)) (m.push k v) where
  drawn := hk
  kept := by
    rw [Function.update_self]
    exact Or.inl ⟨hk, by rw [Store.push_bound_self]; exact Nat.le_refl _⟩
  cell := m.push_cell_env k v ρ

theorem moved (h : S.Holds k v ρ m) (hmoved : S.Moved changed ρ m ρ₁ m₁) (hk : k ∉ changed) :
    S.Holds k v ρ₁ m₁ :=
  ⟨h.drawn, hmoved.kept hk h.kept, (hmoved.read hk h.kept).trans h.cell⟩

/-- As a continuation the variable is ready. -/
theorem ready (h : S.Holds k v ρ m) (hk : k ∉ changed) : S.Ready (.symbol k) changed ρ m where
  receiver := .symbol (S.numbered k h.drawn).keyword_eq_none
  kept k' hk' := by cases hk'; exact h.kept
  outside k' hk' := by cases hk'; exact hk

end Holds

variable {f : Form} {fs : List Form} {names : List Text} {ρ ρ' : Env} {m m₁ m₂ : Store Form.Value}
  {m' : Store Target.Value} {v : Form.Value} {operands : List Operand}

/-! ## Operands -/

/-- The value of a form that is not atomic is bound to a variable. -/
theorem Simulates.settle (h : S.Simulates W f ρ m v m₁) {rv : Text} {inner out : Sexp}
    (himage : Image f (Target.lambda [rv] inner) names out)
    (hmeets : S.Meets [f] (rv :: names) ρ ρ' m m') :
    ∃ ρ₁ m₁' v', Reaches W (.run out ρ' m') (.run inner ρ₁ m₁') ∧ S.ValueRel v v' ∧
      S.Holds rv v' ρ₁ m₁' ∧ S.StoreRel m₁ m₁' ∧
      S.Moved (f.scopes ++ rv :: names) ρ' m' ρ₁ m₁' := by
  obtain ⟨ρ₁, m₁', v', κ, hreach, hκ, hv, hstore, hmoved⟩ :=
    h himage hmeets.drop ⟨.lambda rv inner, nofun, nofun⟩
  rw [Target.atomValue_lambda] at hκ
  cases hκ
  -- the value is bound in the environment that the code has come to
  have hrv := hmeets.fresh.mem rv List.mem_cons_self
  have hstep : Target.step W (.call (.closure [rv] inner ρ₁) [v'] m₁') = some
      (.run inner (Function.update ρ₁ rv (m₁'.fresh rv)) (m₁'.push rv v')) :=
    Target.step_closure rfl
  refine ⟨_, _, v', hreach.trans (.step hstep), hv, .push hrv v' ρ₁ m₁', hstore.push_drawn hrv v',
    (hmoved.mono fun x hx => ?_).trans ((Moved.push rv v' ρ₁ m₁').mono fun x hx => ?_)⟩
  · simp only [List.mem_append, List.mem_cons] at hx ⊢
    tauto
  · rw [List.mem_singleton.1 hx]
    exact List.mem_append_right _ List.mem_cons_self

theorem SimulatesAll.nil : S.SimulatesAll W [] ρ m [] m := by
  intro names as body out ρ' m' himage hmeets
  cases himage
  exact ⟨ρ', m', .refl _, .nil, hmeets.store, .refl _ _ _⟩

/-- An atomic operand is read after the code of the others has been run. -/
theorem SimulatesAll.later (hf : f.isAtomic = true) (h : S.SimulatesAll W fs ρ m operands m₁) :
    S.SimulatesAll W (f :: fs) ρ m (.later f :: operands) m₁ := by
  intro names as body out ρ' m' himage hmeets
  cases himage with
  | settled hatomic _ _ => rw [hf] at hatomic; cases hatomic
  | @atomic _ _ names namesRest a as _ _ ha hrest =>
    have htail : S.Meets fs namesRest ρ ρ' m m' := hmeets.tail hmeets.store (.refl _ _ _)
    obtain ⟨ρ₁, m₁', hreach, hvalues, hstore, hmoved⟩ := h hrest htail
    -- the code of the other operands leaves the variables of this one alone
    have hagree : S.Agree f.free ρ ρ₁ := by
      refine (hmeets.agree.subset fun x hx => ?_).moved hmoved hmeets.apart
        (htail.tidy.undefined_not_changed htail.fresh)
      exact List.mem_append_left _ hx
    refine ⟨ρ₁, m₁', hreach, .cons ?_ hvalues, hstore, hmoved.mono fun x hx => ?_⟩
    · exact ha.value hmeets.head.tidy hmeets.head.fresh hagree hstore
    · simp only [Form.scopesAll, List.mem_append] at hx ⊢
      tauto

/-- Any other operand is held by a variable from then on. -/
theorem SimulatesAll.known (hf : f.isAtomic = false) (h : S.Simulates W f ρ m v m₁)
    (hrest : S.SimulatesAll W fs ρ m₁ operands m₂) :
    S.SimulatesAll W (f :: fs) ρ m (.known v :: operands) m₂ := by
  intro names as body out ρ' m' himage hmeets
  cases himage with
  | atomic ha _ => cases ha <;> cases hf
  | @settled _ _ rv names namesRest as _ inner _ _ hinner hout =>
    obtain ⟨ρ₁, m₁', v', hreach, hv, hholds, hstore, hmoved⟩ := h.settle hout hmeets.head
    have htail := hmeets.tail hstore hmoved
    obtain ⟨ρ₂, m₂', hreach', hvalues, hstore', hmoved'⟩ := hrest hinner htail
    -- nothing that comes later binds the variable again
    have hrv : rv ∉ Form.scopesAll fs ++ namesRest := by
      refine htail.drawn_not_changed hholds.drawn fun hin => ?_
      exact (List.nodup_cons.1 hmeets.fresh.nodup).1 (List.mem_append_right _ hin)
    refine ⟨ρ₂, m₂', hreach.trans hreach', .cons ⟨v', ?_, hv⟩ hvalues, hstore', ?_⟩
    · rw [Target.atomValue_symbol, (hholds.moved hmoved' hrv).cell]
    · refine (hmoved.mono fun x hx => ?_).trans (hmoved'.mono fun x hx => ?_) <;>
      · simp only [Form.scopesAll, List.cons_append, List.mem_append, List.mem_cons] at hx ⊢
        tauto

/-- An atomic form is evaluated to its value. -/
theorem eval_atomic (h : Eval W f ρ m v m₁) (hf : f.isAtomic = true) :
    v = f.atomValue ρ m ∧ m₁ = m := by
  cases h with
  | atom _ => exact ⟨rfl, rfl⟩
  | _ => cases hf

/-- A single operand, atomic or not, has its value when the code after it runs. -/
theorem Simulates.single (h : S.Simulates W f ρ m v m₁) (heval : Eval W f ρ m v m₁)
    {a body out : Sexp} (himage : OperandsImage [f] names [a] body out)
    (hmeets : S.Meets [f] names ρ ρ' m m') :
    ∃ ρ₁ m₁' w, Reaches W (.run out ρ' m') (.run body ρ₁ m₁') ∧ atomValue a ρ₁ m₁' = some w ∧
      S.ValueRel v w ∧ S.StoreRel m₁ m₁' ∧ S.Moved (f.scopes ++ names) ρ' m' ρ₁ m₁' := by
  have hscopes : Form.scopesAll [f] = f.scopes := by
    rw [Form.scopesAll, Form.scopesAll, List.append_nil]
  obtain ⟨o, hsim, ho⟩ : ∃ o, S.SimulatesAll W [f] ρ m [o] m₁ ∧ o.value ρ m₁ = v := by
    cases hf : f.isAtomic with
    | false => exact ⟨.known v, .known hf h .nil, rfl⟩
    | true =>
      obtain ⟨rfl, rfl⟩ := eval_atomic heval hf
      exact ⟨.later f, .later hf .nil, rfl⟩
  obtain ⟨ρ₁, m₁', hreach, hvalues, hstore, hmoved⟩ := hsim himage hmeets
  cases hvalues with
  | cons hvalue _ =>
    obtain ⟨w, hw, hv⟩ := hvalue
    rw [ho] at hv
    rw [hscopes] at hmoved
    exact ⟨ρ₁, m₁', w, hreach, hw, hv, hstore, hmoved⟩

/-! ## Forms -/

theorem Simulates.atom (hf : f.isAtomic = true) : S.Simulates W f ρ m (f.atomValue ρ m) m := by
  intro c names out ρ' m' himage hmeets hready
  cases himage with
  | atom ha =>
    obtain ⟨κ, hκ⟩ := hready.exists_value
    obtain ⟨w, hw, hv⟩ := ha.value hmeets.tidy hmeets.fresh
      (hmeets.agree.subset fun x hx => List.mem_append_left _ hx) hmeets.store
    exact ⟨ρ', m', w, κ, .step (Target.step_pass hready.receiver hκ hw), hκ, hv, hmeets.store,
      .refl _ _ _⟩
  | _ => cases hf

/-- **Code whose continuation is a variable** hands its value to what the variable
holds. -/
theorem Simulates.to_variable (h : S.Simulates W f ρ m v m₁) {k : Text} {κ : Target.Value}
    {out : Sexp} (himage : Image f (.symbol k) names out) (hmeets : S.Meets [f] names ρ ρ' m m')
    (hholds : S.Holds k κ ρ' m') (hnames : k ∉ names) :
    ∃ m₁' v', Reaches W (.run out ρ' m') (.call κ [v'] m₁') ∧ S.ValueRel v v' ∧
      S.StoreRel m₁ m₁' ∧ ∀ ρ, S.Moved [] ρ m' ρ m₁' := by
  have hchanged := hmeets.drawn_not_changed_one hholds.drawn hnames
  obtain ⟨ρ₁, m₁', v', κ', hreach, hκ, hv, hstore, hmoved⟩ := h himage hmeets
    (hholds.ready hchanged)
  rw [Target.atomValue_symbol, (hholds.moved hmoved hchanged).cell] at hκ
  cases hκ
  exact ⟨m₁', v', hreach, hv, hstore, hmoved.in_env⟩

/-- **Entering a branch**: its continuation is bound first, and then its parts meet their
code. -/
theorem enter_branch {test yes no : Form} {k : Text} {namesTest namesSides : List Text}
    {c : Sexp} {changed : List Text} (body : Sexp)
    (hmeets : S.Meets [.branch test yes no] (k :: namesTest ++ namesSides) ρ ρ' m m')
    (hready : S.Ready c changed ρ' m') :
    ∃ ρ₁ m₁' κ, atomValue c ρ' m' = some κ ∧
      Reaches W (.run (Target.pass (Target.lambda [k] body) c) ρ' m') (.run body ρ₁ m₁') ∧
      S.Meets [test, yes, no] (namesTest ++ namesSides) ρ ρ₁ m m₁' ∧ S.Holds k κ ρ₁ m₁' ∧
      k ∉ namesTest ∧ k ∉ namesSides ∧ ∀ ρ, S.Moved [] ρ m' ρ m₁' := by
  obtain ⟨κ, hκ⟩ := hready.exists_value
  have hk := hmeets.fresh.mem k List.mem_cons_self
  have hnames : k ∉ namesTest ++ namesSides := (List.nodup_cons.1 hmeets.fresh.nodup).1
  rw [List.mem_append, not_or] at hnames
  refine ⟨_, _, κ, hκ, ?_, Meets.push ⟨hmeets.tidy.branch, hmeets.fresh.of_cons, ?_, hmeets.store⟩
    hk κ, .push hk κ ρ' m', hnames.1, hnames.2, (Moved.push k κ ρ' m').in_env⟩
  · exact (Reaches.step (Target.step_pass (.lambda k body) (Target.atomValue_lambda _ _) hκ)).trans
      (.step (Target.step_closure rfl))
  · exact hmeets.agree.subset fun x hx => by
      simpa only [Form.freeAll, Form.free, List.append_nil] using hx

/-- Whatever the test of a branch and the side that it decides for do, they leave the
continuation alone. -/
theorem Simulates.branch {test yes no : Form} {u : Form.Value} (htest : S.Simulates W test ρ m u m₁)
    (heval : Eval W test ρ m u m₁)
    (hside : S.Simulates W (if u.isTrue then yes else no) ρ m₁ v m₂) :
    S.Simulates W (.branch test yes no) ρ m v m₂ := by
  intro c names out ρ' m' himage hmeets hready
  cases himage with
  | atom ha => cases ha
  | @branch _ _ _ _ k namesTest namesYes namesNo a outYes outNo body hyes hno htestImage =>
    obtain ⟨ρ₀, m₀', κ, hκ, hbind, hparts, hholds, hktest, hksides, hmoved₀⟩ :=
      enter_branch (W := W) body hmeets hready
    obtain ⟨ρ₁, m₁', w, hreach, hw, hu, hstore, hmoved⟩ :=
      htest.single heval htestImage hparts.head
    have hsides := hparts.tail hstore hmoved
    -- when a side is run, the continuation is still what it was
    have hholds := hholds.moved hmoved (hparts.head.drawn_not_changed_one hholds.drawn hktest)
    obtain ⟨m₂', v', hrun, hv, hstore', hmoved'⟩ : ∃ m₂' v',
        Reaches W (.run (if w.isTrue then outYes else outNo) ρ₁ m₁') (.call κ [v'] m₂') ∧
          S.ValueRel v v' ∧ S.StoreRel m₂ m₂' ∧ ∀ ρ, S.Moved [] ρ m₁' ρ m₂' := by
      rw [hu.isTrue_eq]
      rw [List.mem_append, not_or] at hksides
      cases htrue : u.isTrue with
      | true =>
        rw [htrue] at hside
        exact hside.to_variable hyes hsides.head hholds hksides.1
      | false =>
        rw [htrue] at hside
        exact hside.to_variable hno (hsides.tail hstore (.refl _ _ _)) hholds hksides.2
    have hframe : S.Moved [] ρ' m' ρ' m₂' :=
      (hmoved₀ ρ').trans ((hmoved.in_env ρ').trans (hmoved' ρ'))
    refine ⟨ρ', m₂', v', κ, ?_, ?_, hv, hstore', hframe.mono fun x hx => absurd hx List.not_mem_nil⟩
    · exact hbind.trans (hreach.trans ((Reaches.step (Target.step_branch hw)).trans hrun))
    · rw [hready.value_eq hframe, hκ]

/-- The last form of a sequence meets the code of the sequence. -/
theorem Meets.last (h : S.Meets [.sequence f []] names ρ ρ' m m') : S.Meets [f] names ρ ρ' m m' :=
  ⟨h.tidy.sequence, h.fresh, h.agree.subset fun x hx => by
    simpa only [Form.freeAll, Form.free, List.append_nil] using hx, h.store⟩

theorem Simulates.last (h : S.Simulates W f ρ m v m₁) :
    S.Simulates W (.sequence f []) ρ m v m₁ := by
  intro c names out ρ' m' himage hmeets hready
  have hscopes : (Form.sequence f []).scopes = f.scopes := by
    rw [Form.scopes, Form.scopesAll, List.append_nil]
  rw [hscopes] at hready ⊢
  cases himage with
  | atom ha => cases ha
  | last himage =>
    exact h himage hmeets.last hready

/-- The forms of a sequence meet their code one after the other. -/
theorem Meets.sequence {g : Form} {rest : List Form}
    (h : S.Meets [.sequence f (g :: rest)] names ρ ρ' m m') :
    S.Meets [f, .sequence g rest] names ρ ρ' m m' where
  tidy := by
    have htidy := h.tidy.sequence
    have hvalid := List.forall_mem_cons.1 htidy.valid
    refine htidy.congr (List.forall_mem_cons.2 ⟨hvalid.1, htidy.tail.to_sequence.valid⟩) ?_ ?_
    · simp only [Form.bindersAll, Form.binders, List.append_nil]
    · intro x hx
      simpa only [Form.freeAll, Form.free, List.append_nil] using hx
  fresh := h.fresh
  agree := h.agree.subset fun x hx => by
    simpa only [Form.freeAll, Form.free, List.append_nil] using hx
  store := h.store

/-- The continuation of a sequence is ready when its first form has been evaluated. -/
theorem Ready.next {g : Form} {rest : List Form} {namesRest : List Text} {c : Sexp} {ρ₁ : Env}
    {m₁' : Store Target.Value}
    (h : S.Ready c ((Form.sequence f (g :: rest)).scopes ++ (names ++ namesRest)) ρ' m')
    (hmoved : S.Moved (f.scopes ++ names) ρ' m' ρ₁ m₁') :
    S.Ready c ((Form.sequence g rest).scopes ++ namesRest) ρ₁ m₁' := by
  refine (h.moved (hmoved.mono fun x hx => ?_)).mono fun x hx => ?_ <;>
  · simp only [Form.scopes, Form.scopesAll, List.mem_append] at hx ⊢
    tauto

theorem Simulates.next {g : Form} {rest : List Form} {u : Form.Value}
    (hfirst : S.Simulates W f ρ m u m₁) (heval : Eval W f ρ m u m₁)
    (hrest : S.Simulates W (.sequence g rest) ρ m₁ v m₂) :
    S.Simulates W (.sequence f (g :: rest)) ρ m v m₂ := by
  intro c names out ρ' m' himage hmeets hready
  cases himage with
  | atom ha => cases ha
  | @next _ _ _ _ names namesRest a tail _ himage hfirstImage =>
    have hparts := hmeets.sequence
    obtain ⟨ρ₁, m₁', w, hreach, _, _, hstore, hmoved⟩ :=
      hfirst.single heval hfirstImage hparts.head
    obtain ⟨ρ₂, m₂', v', κ, hreach', hκ, hv, hstore', hmoved'⟩ := hrest himage
      (hparts.tail hstore hmoved) (hready.next hmoved)
    refine ⟨ρ₂, m₂', v', κ, hreach.trans hreach', hκ, hv, hstore',
      (hmoved.mono fun x hx => ?_).trans (hmoved'.mono fun x hx => ?_)⟩ <;>
    · simp only [Form.scopes, Form.scopesAll, List.mem_append] at hx ⊢
      tauto

/-- The value of an assignment meets its code. -/
theorem Meets.assign {name : Text} {value : Form}
    (h : S.Meets [.assign name value] names ρ ρ' m m') : S.Meets [value] names ρ ρ' m m' :=
  ⟨h.tidy.assign.1, h.fresh, h.agree.subset fun x hx => by
    simp only [Form.freeAll, Form.free, List.append_nil, List.mem_cons] at hx ⊢
    exact Or.inr hx, h.store⟩

theorem Simulates.assign {name : Text} {value : Form} {u : Form.Value}
    (hvalue : S.Simulates W value ρ m u m₁) (heval : Eval W value ρ m u m₁) :
    S.Simulates W (.assign name value) ρ m ((m₁.write name (ρ name) u).cell undefinedName 0)
      (m₁.write name (ρ name) u) := by
  intro c names out ρ' m' himage hmeets hready
  cases himage with
  | atom ha => cases ha
  | @assign _ _ _ names a _ himage =>
    obtain ⟨_, hbinders, hdrawn⟩ := hmeets.tidy.assign
    have hpart := hmeets.assign
    rw [Form.scopes] at hready ⊢
    obtain ⟨ρ₁, m₁', w, hreach, hw, hu, hstore, hmoved⟩ := hvalue.single heval himage hpart
    have hname : name ∈ Form.freeAll [.assign name value] := by simp [Form.freeAll, Form.free]
    have hsame : ρ₁ name = ρ name := by
      refine (hmoved.env name fun hin => ?_).trans (hmeets.agree.same name hname)
      rcases List.mem_append.1 hin with hin | hin
      · exact hbinders (Form.mem_binders_of_mem_scopes hin)
      · exact hdrawn (hmeets.fresh.mem name hin)
    have hlocal : ¬ (name = S.halt ∧ ρ name = 0) := by
      rintro ⟨rfl, hzero⟩
      exact hmeets.agree.halt hname hzero
    have hundefined : ρ₁ undefinedName = 0 := by
      have := hpart.tidy.undefined_not_changed hpart.fresh
      rw [Form.scopesAll, Form.scopesAll, List.append_nil] at this
      exact (hmoved.env _ this).trans hmeets.agree.undefined
    have hwrite := Moved.write w hdrawn hlocal ρ₁ m₁'
    have hready₁ := hready.moved hmoved
    have hready₂ := hready₁.moved (hwrite.mono fun x hx => absurd hx List.not_mem_nil)
    obtain ⟨κ, hκ⟩ := hready₂.exists_value
    have hstore' := hstore.write name (ρ name) hu
    have hstep := Target.step_assign (W := W) (x := name) (c := c) hw
    rw [hsame] at hstep
    refine ⟨ρ₁, _, (m₁'.write name (ρ name) w).cell undefinedName (ρ₁ undefinedName), κ, ?_, hκ, ?_,
      hstore', ?_⟩
    · exact hreach.trans ((Reaches.step hstep).trans
        (.step (Target.step_pass hready.receiver hκ (Target.atomValue_symbol _))))
    · rw [hundefined]
      exact hstore'.cell _ _ S.undefined_not_drawn fun h => S.halt_ne_undefined h.1.symm
    · exact hmoved.trans (hwrite.mono fun x hx => absurd hx List.not_mem_nil)

/-- The values of a recursive binding are held by atoms. -/
theorem bindings_image {bs : List (Text × Form)} {names : List Text} {es : List Sexp}
    (himage : BindingsImage bs names es) (htidy : S.Tidy (bs.map Prod.snd))
    (hfresh : S.Fresh names) :
    ∃ pairs, Target.bindings? es = some pairs ∧ pairs.map Prod.fst = bs.map Prod.fst ∧
      ∀ {ρ ρ' : Env} {m : Store Form.Value} {m' : Store Target.Value},
        S.Agree (Form.freeAll (bs.map Prod.snd)) ρ ρ' → S.StoreRel m m' →
        ∃ vs', List.Forall₂ (fun p v => atomValue p.2 ρ' m' = some v) pairs vs' ∧
          List.Forall₂ S.ValueRel (bs.map fun b => b.2.atomValue ρ m) vs' := by
  induction bs generalizing names es with
  | nil =>
    cases himage
    exact ⟨[], rfl, rfl, fun _ _ => ⟨[], .nil, .nil⟩⟩
  | cons b bs ih =>
    cases himage with
    | @cons x f _ names namesRest a es ha himage =>
      obtain ⟨pairs, hpairs, hnames, hvalues⟩ := ih himage htidy.tail hfresh.append.2
      refine ⟨(x, a) :: pairs, ?_, ?_, fun hagree hstore => ?_⟩
      · rw [Target.bindings?, hpairs]
        rfl
      · rw [List.map_cons, List.map_cons, hnames]
      · obtain ⟨w, hw, hv⟩ := ha.value htidy.head hfresh.append.1
          (hagree.subset fun x hx => List.mem_append_left _ hx) hstore
        obtain ⟨vs', hvs', hrel⟩ := hvalues
          (hagree.subset fun x hx => List.mem_append_right _ hx) hstore
        exact ⟨w :: vs', .cons hw hvs', .cons hv hrel⟩

/-- **Entering a recursive binding** takes one step, after which its body meets its
code. -/
theorem enter_letrec {bindings : List (Text × Form)} {first : Form} {rest : List Form}
    {namesBody : List Text} {es : List Sexp} (body : Sexp)
    (himage : BindingsImage bindings names es)
    (hmeets : S.Meets [.letrec bindings first rest] (names ++ namesBody) ρ ρ' m m') :
    ∃ ρ₁ m₁', Target.step W (.run (Target.letrec es body) ρ' m') = some (.run body ρ₁ m₁') ∧
      S.Meets [.sequence first rest] namesBody (Form.enterRec bindings ρ m).1 ρ₁
        (Form.enterRec bindings ρ m).2 m₁' ∧
      S.Moved (bindings.map Prod.fst) ρ' m' ρ₁ m₁' := by
  obtain ⟨hvalues, hbody, _, hxs⟩ := hmeets.tidy.letrec
  obtain ⟨pairs, hpairs, hnames, hatoms⟩ := bindings_image himage hvalues hmeets.fresh.append.1
  have hdrawn : ∀ x ∈ bindings.map Prod.fst, x ∉ S.drawn := fun x hx => (hxs x hx).1
  have hunset : List.Forall₂ S.ValueRel
      ((bindings.map Prod.fst).map fun _ => Form.Value.datum .undefined)
      ((bindings.map Prod.fst).map fun _ => Target.Value.datum .undefined) := by
    rw [List.forall₂_map_left_iff, List.forall₂_map_right_iff]
    exact List.forall₂_same.2 fun _ _ => .datum _
  have hlength : (bindings.map Prod.fst).length =
      ((bindings.map Prod.fst).map fun _ => Form.Value.datum .undefined).length :=
    (List.length_map _).symm
  -- first the names are bound, then they get their values
  have hstore := hmeets.store.bindAll hdrawn hunset ρ ρ'
  have hagree : ∀ {inner : List Text}, (∀ x ∈ inner, x ∈ bindings.map Prod.fst ∨
      x ∈ Form.freeAll [.letrec bindings first rest]) → S.Agree inner _ _ := fun hinner =>
    hmeets.agree.bindAll hmeets.store hxs hunset hlength hinner
  have hfree : ∀ x, x ∈ Form.freeAll (bindings.map Prod.snd) ∨
      x ∈ Form.freeAll [.sequence first rest] → x ∈ bindings.map Prod.fst ∨
      x ∈ Form.freeAll [.letrec bindings first rest] := by
    intro x hx
    by_cases hin : x ∈ bindings.map Prod.fst
    · exact Or.inl hin
    · refine Or.inr ?_
      simp only [Form.freeAll, Form.free, Form.freeBindings_eq, List.append_nil, List.mem_append,
        List.mem_filter] at hx ⊢
      exact ⟨hx, decide_eq_true hin⟩
  obtain ⟨vs', hvs', hrel⟩ := hatoms (hagree fun x hx => hfree x (Or.inl hx)) hstore
  obtain ⟨hassign, hmoved⟩ := hstore.assignAll hdrawn
    (fun x hx => hmeets.store.bindAll_env hdrawn hunset hlength ρ ρ' (Or.inl hx)) hrel
  have hstep := Target.step_letrec (W := W) (ρ := ρ') (m := m') body hpairs
    (by rw [hnames]; exact hvs')
  rw [hnames] at hstep
  refine ⟨_, _, hstep, ⟨hbody, hmeets.fresh.append.2, hagree fun x hx => hfree x (Or.inr hx),
    hassign⟩, ?_⟩
  exact (Moved.bindAll _ _ ρ' m').trans (hmoved.mono fun x hx => absurd hx List.not_mem_nil)

/-- The continuation of a recursive binding is ready inside it. -/
theorem Ready.letrec {bindings : List (Text × Form)} {first : Form} {rest : List Form}
    {namesBody : List Text} {c : Sexp} {ρ₁ : Env} {m₁' : Store Target.Value}
    (h : S.Ready c ((Form.letrec bindings first rest).scopes ++ (names ++ namesBody)) ρ' m')
    (hmoved : S.Moved (bindings.map Prod.fst) ρ' m' ρ₁ m₁') :
    S.Ready c ((Form.sequence first rest).scopes ++ namesBody) ρ₁ m₁' := by
  refine (h.moved (hmoved.mono fun x hx => ?_)).mono fun x hx => ?_ <;>
  · simp only [Form.scopes, List.mem_append] at hx ⊢
    tauto

theorem Simulates.letrec {bindings : List (Text × Form)} {first : Form} {rest : List Form}
    (h : S.Simulates W (.sequence first rest) (Form.enterRec bindings ρ m).1
      (Form.enterRec bindings ρ m).2 v m₁) :
    S.Simulates W (.letrec bindings first rest) ρ m v m₁ := by
  intro c names out ρ' m' himage hmeets hready
  cases himage with
  | atom ha => cases ha
  | @letrec _ _ _ _ names namesBody es body hbindings himage =>
    obtain ⟨ρ₁, m₁', hstep, hbody, hmoved⟩ := enter_letrec (W := W) body hbindings hmeets
    obtain ⟨ρ₂, m₂', v', κ, hreach, hκ, hv, hstore, hmoved'⟩ := h himage hbody
      (hready.letrec hmoved)
    refine ⟨ρ₂, m₂', v', κ, (Reaches.step hstep).trans hreach, hκ, hv, hstore,
      (hmoved.mono fun x hx => ?_).trans (hmoved'.mono fun x hx => ?_)⟩ <;>
    · simp only [Form.scopes, List.mem_append] at hx ⊢
      tauto

/-! ## Calls -/

/-- The values of operands, one by one. -/
theorem exists_values {as : List Sexp} {ρ₁ : Env} {m₁' : Store Target.Value}
    (h : List.Forall₂ (fun o a => ∃ w, atomValue a ρ₁ m₁' = some w ∧
      S.ValueRel (Operand.value ρ m₁ o) w) operands as) :
    ∃ ws, List.Forall₂ (fun a w => atomValue a ρ₁ m₁' = some w) as ws ∧
      List.Forall₂ S.ValueRel (operands.map (·.value ρ m₁)) ws := by
  induction h with
  | nil => exact ⟨[], .nil, .nil⟩
  | cons hvalue _ ih =>
    obtain ⟨w, hw, hv⟩ := hvalue
    obtain ⟨ws, hws, hvs⟩ := ih
    exact ⟨w :: ws, .cons hw hws, .cons hv hvs⟩

/-- The operands of a primitive meet their code. -/
theorem Meets.primitive {op : Text} {args : List Form}
    (h : S.Meets [.primitive op args] names ρ ρ' m m') : S.Meets args names ρ ρ' m m' :=
  ⟨h.tidy.primitive, h.fresh, h.agree.subset fun x hx => by
    simpa only [Form.freeAll, Form.free, List.append_nil] using hx, h.store⟩

theorem Simulates.primitive {op : Text} {args : List Form} {ds : List Datum} {d : Datum}
    (h : S.SimulatesAll W args ρ m operands m₁)
    (hds : operands.map (·.value ρ m₁) = ds.map .datum) (hd : W.delta op ds = some d) :
    S.Simulates W (.primitive op args) ρ m (.datum d) m₁ := by
  intro c names out ρ' m' himage hmeets hready
  cases himage with
  | atom ha => cases ha
  | @primitive _ _ _ names as _ himage =>
    rw [Form.scopes] at hready ⊢
    obtain ⟨ρ₁, m₁', hreach, hvalues, hstore, hmoved⟩ := h himage hmeets.primitive
    obtain ⟨κ, hκ⟩ := (hready.moved hmoved).exists_value
    obtain ⟨ws, hws, hrel⟩ := exists_values hvalues
    rw [hds] at hrel
    obtain rfl := ValueRel.data_left.1 hrel
    exact ⟨ρ₁, m₁', _, κ, hreach.trans (.step (Target.step_primitive hws hκ hd)), hκ, .datum d,
      hstore, hmoved⟩

/-- The operands of a call meet their code. -/
theorem Meets.call {fn : Form} {args : List Form} (h : S.Meets [.call fn args] names ρ ρ' m m') :
    S.Meets (fn :: args) names ρ ρ' m m' :=
  ⟨h.tidy.call, h.fresh, h.agree.subset fun x hx => by
    simpa only [Form.freeAll, Form.free, List.append_nil] using hx, h.store⟩

theorem Simulates.call {fn : Form} {args : List Form} {o : Operand}
    (h : S.SimulatesAll W (fn :: args) ρ m (o :: operands) m₁)
    (hcall : S.SimulatesCall W (o.value ρ m₁) (operands.map (·.value ρ m₁)) m₁ v m₂) :
    S.Simulates W (.call fn args) ρ m v m₂ := by
  intro c names out ρ' m' himage hmeets hready
  cases himage with
  | atom ha => cases ha
  | @call _ _ _ names a as _ himage =>
    have hkeyword := himage.keyword_eq_none (hmeets.tidy.valid _ List.mem_cons_self)
      fun x hx => S.numbered x (hmeets.fresh.mem x hx)
    have hscopes : (Form.call fn args).scopes = Form.scopesAll (fn :: args) := by
      rw [Form.scopes, Form.scopesAll]
    rw [hscopes] at hready ⊢
    obtain ⟨ρ₁, m₁', hreach, hvalues, hstore, hmoved⟩ := h himage hmeets.call
    have hready₁ := hready.moved hmoved
    obtain ⟨κ, hκ⟩ := hready₁.exists_value
    cases hvalues with
    | cons hvalue hvalues =>
      obtain ⟨w, hw, hrel⟩ := hvalue
      obtain ⟨ws, hws, hrels⟩ := exists_values hvalues
      obtain ⟨v', m₂', hreach', hv, hstore', hmoved'⟩ := hcall hrel hrels hstore κ
      refine ⟨ρ₁, m₂', v', κ, ?_, ?_, hv, hstore', ?_⟩
      · have hstep := Target.step_call (W := W) hkeyword hready.receiver hw hws hκ
        exact hreach.trans ((Reaches.step hstep).trans hreach')
      · rw [hready₁.value_eq (hmoved' ρ₁), hκ]
      · exact hmoved.trans ((hmoved' ρ₁).mono fun x hx => absurd hx List.not_mem_nil)

/-- **Entering a closure** takes one step, after which its body meets its code, with the
continuation bound. -/
theorem enter_closure {params : List Text} {first : Form} {rest : List Form}
    {args : List Form.Value} {fn' : Target.Value} {args' : List Target.Value}
    (hfn : S.ValueRel (.closure params first rest ρ) fn')
    (hargs : List.Forall₂ S.ValueRel args args') (hstore : S.StoreRel m m')
    (hlength : params.length = args.length) (κ : Target.Value) :
    ∃ k names body ρ₁ m₁', Target.step W (.call fn' (args' ++ [κ]) m') = some (.run body ρ₁ m₁') ∧
      Image (.sequence first rest) (.symbol k) names body ∧
      S.Meets [.sequence first rest] names (Store.bindAll params args ρ m).1 ρ₁
        (Store.bindAll params args ρ m).2 m₁' ∧
      S.Holds k κ ρ₁ m₁' ∧ k ∉ names ∧ ∀ ρ, S.Moved [] ρ m' ρ m₁' := by
  cases hfn with
  | @closure _ _ _ k names body _ ρ' htidy hfresh himage hagree =>
    obtain ⟨hbody, _, hparams⟩ := htidy.lambda
    have hk := hfresh.mem k List.mem_cons_self
    have hlength' : params.length = args'.length := hlength.trans hargs.length_eq
    have hstep : Target.step W (.call (.closure (params ++ [k]) body ρ') (args' ++ [κ]) m') = _ :=
      Target.step_closure (by rw [List.length_append, List.length_append, hlength']; rfl)
    rw [Store.bindAll_append hlength'] at hstep
    have hmeets : S.Meets [.sequence first rest] names (Store.bindAll params args ρ m).1
        (Store.bindAll params args' ρ' m').1 (Store.bindAll params args ρ m).2
        (Store.bindAll params args' ρ' m').2 := by
      refine ⟨hbody, hfresh.of_cons, hagree.bindAll hstore hparams hargs hlength fun x hx => ?_,
        hstore.bindAll (fun x hx => (hparams x hx).1) hargs ρ ρ'⟩
      by_cases hin : x ∈ params
      · exact Or.inl hin
      · refine Or.inr ?_
        simp only [Form.freeAll, Form.free, List.append_nil, List.mem_filter] at hx ⊢
        exact ⟨hx, decide_eq_true hin⟩
    -- the parameters are bound as in the program, and the continuation after them
    refine ⟨k, names, body, _, _, hstep, himage, hmeets.push hk κ, .push hk κ _ _,
      (List.nodup_cons.1 hfresh.nodup).1, fun ρ₂ => ?_⟩
    exact ((Moved.bindAll params args' ρ' m').in_env ρ₂).trans ((Moved.push k κ ρ₂ _).in_env ρ₂)

theorem SimulatesCall.closure {params : List Text} {first : Form} {rest : List Form}
    {args : List Form.Value} (hlength : params.length = args.length)
    (h : S.Simulates W (.sequence first rest) (Store.bindAll params args ρ m).1
      (Store.bindAll params args ρ m).2 v m₁) :
    S.SimulatesCall W (.closure params first rest ρ) args m v m₁ := by
  intro fn' args' m' hfn hargs hstore κ
  obtain ⟨k, names, body, ρ₁, m₁', hstep, himage, hmeets, hholds, hnames, hmoved⟩ :=
    enter_closure hfn hargs hstore hlength κ
  obtain ⟨m₂', v', hreach, hv, hstore', hmoved'⟩ := h.to_variable himage hmeets hholds hnames
  exact ⟨v', m₂', (Reaches.step hstep).trans hreach, hv, hstore',
    fun ρ => (hmoved ρ).trans (hmoved' ρ)⟩

theorem SimulatesCall.external {p : Text} {ds : List Datum} {d : Datum}
    (h : W.oracle m.trace (p, ds) = some d) :
    S.SimulatesCall W (.datum (.external p)) (ds.map .datum) m (.datum d) (m.record (p, ds)) := by
  intro fn' args' m' hfn hargs hstore κ
  cases hfn
  obtain rfl := ValueRel.data_left.1 hargs
  rw [← hstore.trace] at h
  exact ⟨_, _, .step (Target.step_external h), .datum d, hstore.record _,
    fun ρ => ⟨fun _ => Nat.le_refl _, fun _ _ _ => rfl, fun _ _ => rfl⟩⟩

end Setting

/-! ## Every evaluation -/

section

variable {S : Setting} {W : World}

mutual

/-- **Converted code does what the form does.** -/
theorem Eval.simulates {f : Form} {ρ : Env} {m m₁ : Store Form.Value} {v : Form.Value} :
    Eval W f ρ m v m₁ → S.Simulates W f ρ m v m₁
  | .atom hf => .atom hf
  | .branch htest hside => .branch htest.simulates htest hside.simulates
  | .last h => .last h.simulates
  | .next hfirst hrest => .next hfirst.simulates hfirst hrest.simulates
  | .assign h => .assign h.simulates h
  | .letrec h => .letrec h.simulates
  | .primitive h hds hd => .primitive h.simulates hds hd
  | .call h hcall => .call h.simulates hcall.simulates

theorem Operands.simulates {fs : List Form} {ρ : Env} {m m₁ : Store Form.Value}
    {operands : List Operand} :
    Operands W fs ρ m operands m₁ → S.SimulatesAll W fs ρ m operands m₁
  | .nil => .nil
  | .later hf h => .later hf h.simulates
  | .known hf h hrest => .known hf h.simulates hrest.simulates

theorem Apply.simulates {fn : Form.Value} {args : List Form.Value} {m m₁ : Store Form.Value}
    {v : Form.Value} :
    Apply W fn args m v m₁ → S.SimulatesCall W fn args m v m₁
  | .closure hlength h => .closure hlength h.simulates
  | .external h => .external h

end

end

end PassingStyle
