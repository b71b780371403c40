import PassingStyle.Proofs.CoreForm
import PassingStyle.Proofs.FreshName
import PassingStyle.Proofs.Variables

/-!
# The shape of converted programs

The conversion builds its output inside out, with functions that wait for the
expression that holds a value, and draws names in the order in which these functions
happen to run. What comes out has a much simpler description: a relation between a
form, its continuation, the names that were drawn and the converted program, with one
rule for each form.

* `AtomImage f names a`: the atomic form `f` becomes the expression `a`;
* `Image f c names out`: the form `f` with the continuation `c` becomes `out`;
* `OperandsImage fs names as body out`: `out` evaluates the forms `fs` one after the
  other and then runs `body`, where the expressions `as` hold their values. An atomic
  form is held by its own image and costs nothing; any other one is held by a variable,
  which a continuation around the rest binds;
* `BindingsImage bs names es`: the bindings of a recursive binding.

`Form.Valid.converts` says that the conversion of a valid form is related to it in this
way, and that the names are exactly those that were drawn. Whatever is true of all
converted programs is proved by induction on this relation.
-/

namespace PassingStyle

mutual

/-- **The image of an atomic form.** -/
inductive AtomImage : Form → List Text → Sexp → Prop
  /-- A constant is its own image. -/
  | constant (e : Sexp) : AtomImage (.constant e) [] e
  /-- A function takes its continuation as one more parameter. -/
  | lambda {params : List Text} {first : Form} {rest : List Form} {k : Text}
      {names : List Text} {body : Sexp} :
      Image (.sequence first rest) (.symbol k) names body →
      AtomImage (.lambda params first rest) (k :: names) (Target.lambda (params ++ [k]) body)

/-- **The image of a form** whose value goes to the continuation `c`. -/
inductive Image : Form → Sexp → List Text → Sexp → Prop
  /-- An atomic value is handed over at once. -/
  | atom {f : Form} {c : Sexp} {names : List Text} {a : Sexp} :
      AtomImage f names a → Image f c names (Target.pass c a)
  /-- A branch binds its continuation, which both sides then use. -/
  | branch {test yes no : Form} {c : Sexp} {k : Text} {names namesYes namesNo : List Text}
      {a outYes outNo body : Sexp} :
      Image yes (.symbol k) namesYes outYes → Image no (.symbol k) namesNo outNo →
      OperandsImage [test] names [a] (Target.branch a outYes outNo) body →
      Image (.branch test yes no) c (k :: names ++ (namesYes ++ namesNo))
        (Target.pass (Target.lambda [k] body) c)
  /-- The last form of a sequence has the continuation of the sequence. -/
  | last {f : Form} {c : Sexp} {names : List Text} {out : Sexp} :
      Image f c names out → Image (.sequence f []) c names out
  /-- The value of any other form of a sequence is not used. -/
  | next {f g : Form} {rest : List Form} {c : Sexp} {names namesRest : List Text}
      {a tail out : Sexp} :
      Image (.sequence g rest) c namesRest tail → OperandsImage [f] names [a] tail out →
      Image (.sequence f (g :: rest)) c (names ++ namesRest) out
  /-- An assignment runs once its value is known. -/
  | assign {name : Text} {value : Form} {c : Sexp} {names : List Text} {a out : Sexp} :
      OperandsImage [value] names [a] (Target.assign name a c) out →
      Image (.assign name value) c names out
  /-- The body of a recursive binding has the continuation of the whole. -/
  | letrec {bindings : List (Text × Form)} {first : Form} {rest : List Form} {c : Sexp}
      {names namesBody : List Text} {es : List Sexp} {body : Sexp} :
      BindingsImage bindings names es → Image (.sequence first rest) c namesBody body →
      Image (.letrec bindings first rest) c (names ++ namesBody) (Target.letrec es body)
  /-- A primitive is called once its arguments are known. -/
  | primitive {op : Text} {args : List Form} {c : Sexp} {names : List Text} {as : List Sexp}
      {out : Sexp} :
      OperandsImage args names as (Target.call (Target.primitive op) as c) out →
      Image (.primitive op args) c names out
  /-- A function is called once it and its arguments are known. -/
  | call {fn : Form} {args : List Form} {c : Sexp} {names : List Text} {a : Sexp}
      {as : List Sexp} {out : Sexp} :
      OperandsImage (fn :: args) names (a :: as) (Target.call a as c) out →
      Image (.call fn args) c names out

/-- **The image of several forms** that are evaluated one after the other before
`body` runs. -/
inductive OperandsImage : List Form → List Text → List Sexp → Sexp → Sexp → Prop
  /-- Nothing is left to evaluate. -/
  | nil {body : Sexp} : OperandsImage [] [] [] body body
  /-- An atomic form is put where its value is used. -/
  | atomic {f : Form} {fs : List Form} {names namesRest : List Text} {a : Sexp}
      {as : List Sexp} {body out : Sexp} :
      AtomImage f names a → OperandsImage fs namesRest as body out →
      OperandsImage (f :: fs) (names ++ namesRest) (a :: as) body out
  /-- The value of any other form is bound to a variable. -/
  | settled {f : Form} {fs : List Form} {rv : Text} {names namesRest : List Text}
      {as : List Sexp} {body inner out : Sexp} :
      f.isAtomic = false → OperandsImage fs namesRest as body inner →
      Image f (Target.lambda [rv] inner) names out →
      OperandsImage (f :: fs) (rv :: names ++ namesRest) (.symbol rv :: as) body out

/-- **The image of the bindings** of a recursive binding. -/
inductive BindingsImage : List (Text × Form) → List Text → List Sexp → Prop
  /-- No binding is left. -/
  | nil : BindingsImage [] [] []
  /-- The value of a binding is atomic. -/
  | cons {x : Text} {f : Form} {bs : List (Text × Form)} {names namesRest : List Text}
      {a : Sexp} {es : List Sexp} :
      AtomImage f names a → BindingsImage bs namesRest es →
      BindingsImage ((x, f) :: bs) (names ++ namesRest) (.list [.symbol x, a] :: es)

end

/-! ## Operands are no keywords -/

/-- No keyword ends in a digit. -/
theorem Text.EndsInDigit.keyword_eq_none {x : Text} (h : x.EndsInDigit) :
    Keyword.of? (.symbol x) = none := by
  cases hk : Keyword.of? (.symbol x) with
  | none => rfl
  | some k =>
    have hx : x = k.name := by
      have := Keyword.eq_sexp_of_of? hk
      rw [Keyword.sexp] at this
      exact Sexp.symbol.inj this
    cases k <;> exact absurd hx (h.ne rfl rfl)

/-- The expression that holds an operand is no keyword, since only the functions of
calls could be keywords and valid forms have none there. -/
theorem OperandsImage.keyword_eq_none {isPrimitive : Text → Bool} {fn : Form}
    {args : List Form} {names : List Text} {a : Sexp} {as : List Sexp} {body out : Sexp}
    (h : OperandsImage (fn :: args) names (a :: as) body out)
    (hv : (Form.call fn args).Valid isPrimitive) (hn : ∀ x ∈ names, x.EndsInDigit) :
    Keyword.of? a = none := by
  cases hv with
  | call hfn hvalid _ =>
    cases h with
    | atomic ha _ =>
      cases ha with
      | constant =>
        cases a with
        | symbol s => exact (hfn s rfl).1
        | _ => rfl
      | lambda _ => rfl
    | settled _ _ _ => exact (hn _ List.mem_cons_self).keyword_eq_none

/-! ## The conversion follows the rules -/

namespace Form

/-- **Reifying a builder.** A form that is not atomic first writes its builder down
as a function of a fresh variable, and is then converted with that function as its
continuation. -/
theorem convert_builder {f : Form} (hf : f.isAtomic = false) (k : Sexp → Fresh Sexp)
    (t : NameTable) :
    f.convert (.builder k) t =
      f.convert (.object (Target.lambda [(freshName "rv" t).1]
        (k (.symbol (freshName "rv" t).1) (freshName "rv" t).2).1))
        (k (.symbol (freshName "rv" t).1) (freshName "rv" t).2).2 := by
  cases f with
  | constant e => cases hf
  | lambda params first rest => cases hf
  | _ =>
    rw [convert, convert]
    rfl

/-- **What is shown of a form**: its conversion follows the rules, with a
continuation, as an operand before more code, and by itself if it is atomic. -/
structure Converts (f : Form) : Prop where
  /-- With an expression as its continuation. -/
  object : ∀ (c : Sexp) (t : NameTable), ∃ names,
    Image f c names (f.convert (.object c) t).1 ∧ Draws t names (f.convert (.object c) t).2
  /-- With a builder as its continuation: some names are drawn before the builder
  runs, and some after it. -/
  operand : ∀ (k : Sexp → Fresh Sexp) (t : NameTable), ∃ a before after t₁,
    Draws t before t₁ ∧ Draws (k a t₁).2 after (f.convert (.builder k) t).2 ∧
    ∀ {fs : List Form} {namesRest : List Text} {as : List Sexp} {body : Sexp},
      OperandsImage fs namesRest as body (k a t₁).1 →
      OperandsImage (f :: fs) (before ++ after ++ namesRest) (a :: as) body
        (f.convert (.builder k) t).1
  /-- By itself. -/
  atom : f.isAtomic = true → ∀ t : NameTable, ∃ names,
    AtomImage f names (f.convertAtom t).1 ∧ Draws t names (f.convertAtom t).2

/-- A form that is not atomic is an operand as soon as it can be converted with a
continuation. -/
theorem Converts.of_object {f : Form} (hf : f.isAtomic = false)
    (object : ∀ (c : Sexp) (t : NameTable), ∃ names,
      Image f c names (f.convert (.object c) t).1 ∧ Draws t names (f.convert (.object c) t).2) :
    Converts f where
  object := object
  operand k t := by
    rw [convert_builder hf]
    obtain ⟨names, himage, hdraws⟩ := object (Target.lambda [(freshName "rv" t).1]
      (k (.symbol (freshName "rv" t).1) (freshName "rv" t).2).1)
      (k (.symbol (freshName "rv" t).1) (freshName "rv" t).2).2
    exact ⟨.symbol (freshName "rv" t).1, [(freshName "rv" t).1], names, (freshName "rv" t).2,
      Draws.single "rv" t, hdraws, fun h => .settled hf h himage⟩
  atom ha := by rw [hf] at ha; cases ha

/-- The conversion of an atomic form hands its image to the continuation. -/
theorem Converts.of_atom {f : Form}
    (atom : ∀ t : NameTable, ∃ names a t₁, AtomImage f names a ∧ Draws t names t₁ ∧
      ∀ κ : Cont, f.convert κ t = κ.plug a t₁) : Converts f where
  object c t := by
    obtain ⟨names, a, t₁, himage, hdraws, hconvert⟩ := atom t
    rw [hconvert]
    exact ⟨names, .atom himage, hdraws⟩
  operand k t := by
    obtain ⟨names, a, t₁, himage, hdraws, hconvert⟩ := atom t
    rw [hconvert]
    refine ⟨a, names, [], t₁, hdraws, Draws.nil _, fun h => ?_⟩
    rw [List.append_nil]
    exact .atomic himage h
  atom _ t := by
    obtain ⟨names, a, t₁, himage, hdraws, hconvert⟩ := atom t
    rw [convertAtom, hconvert]
    exact ⟨names, himage, hdraws⟩

/-- A body is converted like a sequence. -/
theorem convert_sequel {first : Form} {rest : List Form} (hfirst : Converts first)
    (hrest : ∀ f ∈ rest, Converts f) (c : Sexp) (t : NameTable) : ∃ names,
    Image (.sequence first rest) c names (first.convert (sequel rest c) t).1 ∧
      Draws t names (first.convert (sequel rest c) t).2 := by
  induction rest generalizing first t with
  | nil =>
    rw [sequel]
    obtain ⟨names, himage, hdraws⟩ := hfirst.object c t
    exact ⟨names, .last himage, hdraws⟩
  | cons g rest ih =>
    rw [sequel]
    obtain ⟨hg, hrest⟩ := List.forall_mem_cons.1 hrest
    obtain ⟨a, before, after, t₁, hbefore, hafter, himage⟩ :=
      hfirst.operand (fun _ => g.convert (sequel rest c)) t
    obtain ⟨names, hrest, hdraws⟩ := ih hg hrest t₁
    have hfirst := himage .nil
    rw [List.append_nil] at hfirst
    exact ⟨_, .next hrest hfirst, hbefore.around hdraws hafter⟩

/-- Several forms in a row are operands. -/
theorem convertAll_operands {fs : List Form} (hfs : ∀ f ∈ fs, Converts f)
    (k : List Sexp → Fresh Sexp) (t : NameTable) : ∃ as names before after t₁,
    Draws t before t₁ ∧ Draws (k as t₁).2 after (convertAll fs k t).2 ∧
      names.Perm (before ++ after) ∧
      OperandsImage fs names as (k as t₁).1 (convertAll fs k t).1 := by
  induction fs generalizing k t with
  | nil => exact ⟨[], [], [], [], t, Draws.nil _, Draws.nil _, List.Perm.refl _, .nil⟩
  | cons f fs ih =>
    obtain ⟨hf, hfs⟩ := List.forall_mem_cons.1 hfs
    rw [convertAll]
    obtain ⟨a, before, after, t₁, hbefore, hafter, himage⟩ :=
      hf.operand (fun v => convertAll fs fun vs => k (v :: vs)) t
    obtain ⟨as, names, before', after', t₂, hbefore', hafter', hperm, hrest⟩ :=
      ih hfs (fun vs => k (a :: vs)) t₁
    refine ⟨a :: as, _, before ++ before', after' ++ after, t₂, hbefore.append hbefore',
      hafter'.append hafter, ?_, himage hrest⟩
    refine (hperm.append_left _).trans ?_
    grind

/-- Bindings are converted one by one. -/
theorem convertBindings_image {bs : List (Text × Form)} (hbs : ∀ b ∈ bs, Converts b.2)
    (hatomic : ∀ b ∈ bs, b.2.isAtomic = true) (t : NameTable) : ∃ names,
    BindingsImage bs names (convertBindings bs t).1 ∧ Draws t names (convertBindings bs t).2 := by
  induction bs generalizing t with
  | nil => exact ⟨[], .nil, Draws.nil t⟩
  | cons b bs ih =>
    obtain ⟨hb, hbs⟩ := List.forall_mem_cons.1 hbs
    obtain ⟨ha, hatomic⟩ := List.forall_mem_cons.1 hatomic
    obtain ⟨names, himage, hdraws⟩ := hb.atom ha t
    obtain ⟨names', himage', hdraws'⟩ := ih hbs hatomic (b.2.convertAtom t).2
    exact ⟨names ++ names', .cons himage himage', hdraws.append hdraws'⟩

/-- **The conversion of a valid form follows the rules**, and the names that the
rules mention are those that it draws. -/
theorem Valid.converts {isPrimitive : Text → Bool} {f : Form} (hv : f.Valid isPrimitive) :
    Converts f := by
  induction hv with
  | @constant e _ =>
    refine Converts.of_atom fun t => ⟨[], e, t, .constant e, Draws.nil t, fun κ => ?_⟩
    rw [convert]
  | @lambda params first rest _ _ ihfirst ihrest =>
    refine Converts.of_atom fun t => ?_
    obtain ⟨names, himage, hdraws⟩ := convert_sequel ihfirst ihrest
      (.symbol (freshName "k" t).1) (freshName "k" t).2
    refine ⟨_, _, _, .lambda himage, (Draws.single "k" t).append hdraws, fun κ => ?_⟩
    rw [convert]
    rfl
  | @branch test yes no _ _ _ ihtest ihyes ihno =>
    refine Converts.of_object rfl fun c t => ?_
    rw [convert]
    let k := (freshName "k" t).1
    obtain ⟨a, before, after, t₁, hbefore, hafter, himage⟩ :=
      ihtest.operand (fun test => do
        let y ← yes.convert (.object (.symbol k))
        let n ← no.convert (.object (.symbol k))
        return Target.branch test y n) (freshName "k" t).2
    obtain ⟨namesYes, hyes, hdrawsYes⟩ := ihyes.object (.symbol k) t₁
    obtain ⟨namesNo, hno, hdrawsNo⟩ := ihno.object (.symbol k)
      (yes.convert (.object (.symbol k)) t₁).2
    have htest := himage .nil
    rw [List.append_nil] at htest
    exact ⟨_, .branch hyes hno htest,
      (Draws.single "k" t).append (hbefore.around (hdrawsYes.append hdrawsNo) hafter)⟩
  | sequence _ _ ihfirst ihrest =>
    refine Converts.of_object rfl fun c t => ?_
    rw [convert]
    exact convert_sequel ihfirst ihrest c t
  | @assign name value _ ihvalue =>
    refine Converts.of_object rfl fun c t => ?_
    rw [convert]
    obtain ⟨a, before, after, t₁, hbefore, hafter, himage⟩ :=
      ihvalue.operand (fun v => return Target.assign name v c) t
    have hvalue := himage .nil
    rw [List.append_nil] at hvalue
    exact ⟨_, .assign hvalue, hbefore.append hafter⟩
  | @letrec bindings first rest _ hatomic _ _ ihbindings ihfirst ihrest =>
    refine Converts.of_object rfl fun c t => ?_
    rw [convert]
    obtain ⟨names, hbindings, hdraws⟩ := convertBindings_image ihbindings hatomic t
    obtain ⟨namesBody, hbody, hdrawsBody⟩ := convert_sequel ihfirst ihrest c
      (convertBindings bindings t).2
    exact ⟨_, .letrec hbindings hbody, hdraws.append hdrawsBody⟩
  | @primitive op args _ _ _ ihargs =>
    refine Converts.of_object rfl fun c t => ?_
    rw [convert]
    obtain ⟨as, names, before, after, t₁, hbefore, hafter, hperm, himage⟩ :=
      convertAll_operands ihargs (fun vs => return Target.call (Target.primitive op) vs c) t
    exact ⟨_, .primitive himage, (hbefore.append hafter).perm hperm.symm⟩
  | @call fn args _ _ _ ihfn ihargs =>
    refine Converts.of_object rfl fun c t => ?_
    rw [convert]
    -- the function is the first of the operands
    obtain ⟨as, names, before, after, t₁, hbefore, hafter, hperm, himage⟩ :=
      convertAll_operands (List.forall_mem_cons.2 ⟨ihfn, ihargs⟩)
        (fun vs => return Target.call vs.head! vs.tail c) t
    have hcons : as = as.head! :: as.tail := by cases himage <;> rfl
    rw [hcons] at himage
    exact ⟨_, .call himage, (hbefore.append hafter).perm hperm.symm⟩

/-- **A whole program** follows the rules: a function by itself, anything else with
`halt` as its continuation. -/
theorem Valid.convertProgram_image {isPrimitive : Text → Bool} {f : Form}
    (hv : f.Valid isPrimitive) (halt : Text) (t : NameTable) : ∃ names,
    Draws t names (f.convertProgram halt t).2 ∧
      ((∃ params first rest, f = .lambda params first rest) ∧
          AtomImage f names (f.convertProgram halt t).1 ∨
        (∀ params first rest, f ≠ .lambda params first rest) ∧
          Image f (.symbol halt) names (f.convertProgram halt t).1) := by
  cases f with
  | lambda params first rest =>
    obtain ⟨names, himage, hdraws⟩ := hv.converts.atom rfl t
    exact ⟨names, hdraws, Or.inl ⟨⟨params, first, rest, rfl⟩, himage⟩⟩
  | _ =>
    obtain ⟨names, himage, hdraws⟩ := hv.converts.object (.symbol halt) t
    exact ⟨names, hdraws, Or.inr ⟨fun _ _ _ h => (by cases h), himage⟩⟩

end Form

end PassingStyle
