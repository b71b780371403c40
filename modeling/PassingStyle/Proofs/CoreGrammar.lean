import PassingStyle.Proofs.CoreForm

/-!
# The grammar of the core language

Which expressions are programs is decided by analysis, one keyword after the other and
with many ways to go wrong. Here it is said by a grammar, `Core`, that does not mention
analysis: an expression that is no list, a list that one of the six keywords heads and
that has its shape, or a list of programs whose head is no keyword. Analysis accepts
exactly the expressions of the grammar.

Primitives are not mentioned in the grammar. Which names are primitives decides what
the form of an accepted expression is, but neither whether there is one nor what is
reported if there is none.
-/

namespace PassingStyle

open Text

namespace Sexp

/-- **An atomic expression**: no list, quoted data or a function. -/
def IsAtomic (e : Sexp) : Prop :=
  e.isList = false ∨ (∃ d, e = list [Keyword.quote.sexp, d]) ∨
    ∃ args, e = list (Keyword.lambda.sexp :: args)

/-- **The grammar of programs.** -/
inductive Core : Sexp → Prop
  /-- Variables and literals. -/
  | atom {e : Sexp} : e.isList = false → Core e
  /-- Quoted data of any kind. -/
  | quote (d : Sexp) : Core (list [Keyword.quote.sexp, d])
  /-- A function, by symbols and a body that is not empty. -/
  | lambda {names : List Text} {first : Sexp} {rest : List Sexp} : Core first →
      (∀ x ∈ rest, Core x) →
      Core (list (Keyword.lambda.sexp :: list (names.map symbol) :: first :: rest))
  /-- A branch. -/
  | branch {test yes no : Sexp} : Core test → Core yes → Core no →
      Core (list [Keyword.branch.sexp, test, yes, no])
  /-- A sequence that is not empty. -/
  | sequence {first : Sexp} {rest : List Sexp} : Core first → (∀ x ∈ rest, Core x) →
      Core (list (Keyword.sequence.sexp :: first :: rest))
  /-- An assignment to a symbol. -/
  | assign {name : Text} {value : Sexp} : Core value →
      Core (list [Keyword.assign.sexp, symbol name, value])
  /-- A recursive binding of symbols to atomic values, with a body that is not empty. -/
  | letrec {bindings : List (Text × Sexp)} {first : Sexp} {rest : List Sexp} :
      (∀ b ∈ bindings, Core b.2) → (∀ b ∈ bindings, b.2.IsAtomic) → Core first →
      (∀ x ∈ rest, Core x) →
      Core (list (Keyword.letrec.sexp :: list (bindings.map fun b => list [symbol b.1, b.2])
        :: first :: rest))
  /-- A call of anything but a keyword. -/
  | call {head : Sexp} {args : List Sexp} : Keyword.of? head = none → Core head →
      (∀ x ∈ args, Core x) → Core (list (head :: args))

end Sexp

namespace Form

open Sexp

/-! ## Analysis accepts exactly the grammar -/

/-- Forms are written one by one. -/
theorem toSexps_eq_map (fs : List Form) : toSexps fs = fs.map toSexp := by
  induction fs with
  | nil => rfl
  | cons f fs ih => rw [toSexps, ih, List.map_cons]

/-- Bindings are written one by one. -/
theorem bindingsToSexps_eq_map (bs : List (Text × Form)) :
    bindingsToSexps bs = (bs.map fun b => (b.1, b.2.toSexp)).map
      fun b => list [symbol b.1, b.2] := by
  induction bs with
  | nil => rfl
  | cons b bs ih =>
    obtain ⟨name, init⟩ := b
    rw [bindingsToSexps, ih]
    rfl

/-- A valid form is atomic if it is written as an atomic expression. -/
theorem Valid.isAtomic_iff {isPrimitive : Text → Bool} {f : Form} (hv : f.Valid isPrimitive) :
    f.isAtomic = true ↔ f.toSexp.IsAtomic := by
  constructor
  · intro hatomic
    cases hv with
    | constant hc => exact hc.imp_right .inl
    | lambda _ _ => exact .inr (.inr ⟨_, toSexp.eq_2 _ _ _⟩)
    | _ => cases hatomic
  · intro hatomic
    have hhead : ∀ head args, f.toSexp = list (head :: args) →
        f.keyword? = some .quote ∨ f.keyword? = some .lambda := by
      intro head args h
      rw [hv.keyword?_eq h]
      rw [h] at hatomic
      rcases hatomic with hl | ⟨d, hd⟩ | ⟨args', hd⟩
      · cases hl
      · rw [(List.cons.inj (Sexp.list.inj hd)).1]
        exact .inl rfl
      · rw [(List.cons.inj (Sexp.list.inj hd)).1]
        exact .inr rfl
    cases f with
    | constant e => rfl
    | lambda params first rest => rfl
    | _ => exact absurd (hhead _ _ (by rw [toSexp])) (by simp [keyword?])

/-- **What analysis accepts is a program** by the grammar. -/
theorem Valid.core {isPrimitive : Text → Bool} {f : Form} (hv : f.Valid isPrimitive) :
    Core f.toSexp := by
  have hall : ∀ fs : List Form, (∀ f ∈ fs, Core f.toSexp) → ∀ x ∈ toSexps fs, Core x := by
    intro fs h x hx
    rw [toSexps_eq_map] at hx
    obtain ⟨f, hf, rfl⟩ := List.mem_map.1 hx
    exact h f hf
  induction hv with
  | constant hc =>
    rw [toSexp]
    rcases hc with hl | ⟨d, rfl⟩
    · exact .atom hl
    · exact .quote d
  | lambda _ _ ihfirst ihrest =>
    rw [toSexp]
    exact .lambda ihfirst (hall _ ihrest)
  | branch _ _ _ ihtest ihyes ihno =>
    rw [toSexp]
    exact .branch ihtest ihyes ihno
  | sequence _ _ ihfirst ihrest =>
    rw [toSexp]
    exact .sequence ihfirst (hall _ ihrest)
  | assign _ ihvalue =>
    rw [toSexp]
    exact .assign ihvalue
  | @letrec bindings _ _ hvalid hatomic _ _ ihbindings ihfirst ihrest =>
    rw [toSexp, bindingsToSexps_eq_map]
    refine .letrec (fun b hb => ?_) (fun b hb => ?_) ihfirst (hall _ ihrest)
    · obtain ⟨b', hb', rfl⟩ := List.mem_map.1 hb
      exact ihbindings b' hb'
    · obtain ⟨b', hb', rfl⟩ := List.mem_map.1 hb
      exact (hvalid b' hb').isAtomic_iff.1 (hatomic b' hb')
  | primitive hop _ _ ihargs =>
    rw [toSexp]
    exact .call hop (.atom rfl) (hall _ ihargs)
  | @call fn args hfn _ _ ihfn ihargs =>
    rw [toSexp]
    refine .call ?_ ihfn (hall _ ihargs)
    cases hkind : fn.toSexp with
    | symbol s => exact (hfn s (eq_constant_of_toSexp hkind)).1
    | _ => rfl

/-- Expressions that are written forms, one by one. -/
theorem exists_forms {isPrimitive : Text → Bool} {es : List Sexp}
    (h : ∀ x ∈ es, ∃ f : Form, f.Valid isPrimitive ∧ f.toSexp = x) :
    ∃ fs : List Form, (∀ f ∈ fs, f.Valid isPrimitive) ∧ toSexps fs = es := by
  induction es with
  | nil => exact ⟨[], nofun, rfl⟩
  | cons x es ih =>
    obtain ⟨⟨f, hf, hx⟩, hes⟩ := List.forall_mem_cons.1 h
    obtain ⟨fs, hfs, rest⟩ := ih hes
    exact ⟨f :: fs, List.forall_mem_cons.2 ⟨hf, hfs⟩, by rw [toSexps, hx, rest]⟩

/-- Bindings of values that are written forms. -/
theorem exists_bindings {isPrimitive : Text → Bool} {bs : List (Text × Sexp)}
    (h : ∀ b ∈ bs, ∃ f : Form, f.Valid isPrimitive ∧ f.toSexp = b.2)
    (hatomic : ∀ b ∈ bs, b.2.IsAtomic) :
    ∃ fs : List (Text × Form), (∀ b ∈ fs, b.2.Valid isPrimitive) ∧
      (∀ b ∈ fs, b.2.isAtomic = true) ∧
      bindingsToSexps fs = bs.map fun b => list [symbol b.1, b.2] := by
  induction bs with
  | nil => exact ⟨[], nofun, nofun, rfl⟩
  | cons b bs ih =>
    obtain ⟨⟨f, hf, hb⟩, hbs⟩ := List.forall_mem_cons.1 h
    obtain ⟨hone, hatomic⟩ := List.forall_mem_cons.1 hatomic
    obtain ⟨fs, hfs, hfsatomic, rest⟩ := ih hbs hatomic
    have hfatomic := hf.isAtomic_iff.2 (hb ▸ hone)
    exact ⟨(b.1, f) :: fs, List.forall_mem_cons.2 ⟨hf, hfs⟩,
      List.forall_mem_cons.2 ⟨hfatomic, hfsatomic⟩,
      by rw [bindingsToSexps, hb, rest, List.map_cons]⟩

/-- **A program by the grammar is a written form**, whichever names are primitives. -/
theorem exists_valid (isPrimitive : Text → Bool) {e : Sexp} (h : Core e) :
    ∃ f : Form, f.Valid isPrimitive ∧ f.toSexp = e := by
  induction h with
  | @atom e hl => exact ⟨.constant e, .constant (.inl hl), rfl⟩
  | quote d => exact ⟨.constant _, .constant (.inr ⟨d, rfl⟩), rfl⟩
  | @lambda names _ _ _ _ ihfirst ihrest =>
    obtain ⟨f, hf, rfl⟩ := ihfirst
    obtain ⟨fs, hfs, rfl⟩ := exists_forms ihrest
    exact ⟨.lambda names f fs, .lambda hf hfs, rfl⟩
  | branch _ _ _ ihtest ihyes ihno =>
    obtain ⟨f, hf, rfl⟩ := ihtest
    obtain ⟨g, hg, rfl⟩ := ihyes
    obtain ⟨k, hk, rfl⟩ := ihno
    exact ⟨.branch f g k, .branch hf hg hk, rfl⟩
  | sequence _ _ ihfirst ihrest =>
    obtain ⟨f, hf, rfl⟩ := ihfirst
    obtain ⟨fs, hfs, rfl⟩ := exists_forms ihrest
    exact ⟨.sequence f fs, .sequence hf hfs, rfl⟩
  | @assign name _ _ ihvalue =>
    obtain ⟨f, hf, rfl⟩ := ihvalue
    exact ⟨.assign name f, .assign hf, rfl⟩
  | letrec _ hatomic _ _ ihbindings ihfirst ihrest =>
    obtain ⟨bs, hbs, hbsatomic, hwritten⟩ := exists_bindings ihbindings hatomic
    obtain ⟨f, hf, rfl⟩ := ihfirst
    obtain ⟨fs, hfs, rfl⟩ := exists_forms ihrest
    exact ⟨.letrec bs f fs, .letrec hbs hbsatomic hf hfs, by rw [toSexp, hwritten]⟩
  | @call head args hk _ _ ihhead ihargs =>
    obtain ⟨f, hf, rfl⟩ := ihhead
    obtain ⟨fs, hfs, rfl⟩ := exists_forms ihargs
    by_cases hprimitive : ∃ s, f = .constant (.symbol s) ∧ isPrimitive s = true
    · obtain ⟨s, rfl, hs⟩ := hprimitive
      exact ⟨.primitive s fs, .primitive hk hs hfs, rfl⟩
    · refine ⟨.call f fs, .call (fun s hs => ⟨?_, ?_⟩) hf hfs, rfl⟩
      · subst hs
        exact hk
      · rw [Bool.eq_false_iff]
        exact fun hs' => hprimitive ⟨s, hs, hs'⟩

/-- **Analysis accepts exactly the programs** of the grammar. -/
theorem analyse_ok_iff (isPrimitive : Text → Bool) (e : Sexp) :
    (∃ f, analyse isPrimitive e = .ok f) ↔ Core e := by
  constructor
  · rintro ⟨f, h⟩
    obtain ⟨hv, rfl⟩ := analyse_eq_ok isPrimitive e f h
    exact hv.core
  · intro h
    obtain ⟨f, hv, rfl⟩ := exists_valid isPrimitive h
    exact ⟨f, hv.analyse_toSexp⟩

/-! ## Primitives do not matter -/

/-- Computations that agree in part of their results, or in why they refuse, agree further
on if what follows looks at that part only. -/
theorem bind_map_congr {ε α β γ δ : Type} {x y : Except ε α} {k l : α → Except ε β} {f : α → γ}
    {g : β → δ} (h : x.map f = y.map f)
    (hk : ∀ a b, f a = f b → (k a).map g = (l b).map g) :
    (x >>= k).map g = (y >>= l).map g := by
  cases x with
  | error err =>
    cases y with
    | error err' => exact congrArg Except.error (Except.error.inj h)
    | ok b => cases h
  | ok a =>
    cases y with
    | error err' => cases h
    | ok b => exact hk a b (Except.ok.inj h)

/-- The same computation, followed by ones that agree. -/
theorem bind_map_congr_right {ε α β δ : Type} (x : Except ε α) {k l : α → Except ε β} {g : β → δ}
    (hk : ∀ a, (k a).map g = (l a).map g) : (x >>= k).map g = (x >>= l).map g :=
  bind_map_congr (f := id) rfl fun a b hab => (show a = b from hab) ▸ hk a

/-- **The two registries agree** on whether the expression has a form, whether that is
atomic, and what is reported if there is none. -/
def Agree (p q : Text → Bool) (e : Sexp) : Prop :=
  (analyse p e).map isAtomic = (analyse q e).map isAtomic

variable {p q : Text → Bool}

/-- Registries that agree on expressions agree on them together. -/
theorem analyseAll_agree (es : List Sexp) (h : ∀ x ∈ es, Agree p q x) :
    (analyseAll p es).map (fun _ => ()) = (analyseAll q es).map (fun _ => ()) := by
  induction es with
  | nil => rfl
  | cons x es ih =>
    obtain ⟨hx, hes⟩ := List.forall_mem_cons.1 h
    unfold analyseAll
    exact bind_map_congr hx fun _ _ _ => bind_map_congr (ih hes) fun _ _ _ => rfl

/-- Registries that agree on the forms of a body agree on what is made of it. -/
theorem body_agree {first : Sexp} {rest : List Sexp} {make make' : Form → List Form → Form}
    (h : ∀ x ∈ first :: rest, Agree p q x)
    (hmake : ∀ f fs g gs, (make f fs).isAtomic = (make' g gs).isAtomic) :
    Except.map isAtomic (do return make (← analyse p first) (← analyseAll p rest))
      = Except.map isAtomic (do return make' (← analyse q first) (← analyseAll q rest)) := by
  obtain ⟨hfirst, hrest⟩ := List.forall_mem_cons.1 h
  exact bind_map_congr hfirst fun f g _ => bind_map_congr (analyseAll_agree rest hrest)
    fun fs gs _ => congrArg Except.ok (hmake f fs g gs)

/-- Registries that agree on the values of a recursive binding agree on its parts. -/
theorem analyseBindings_agree (whole : Sexp) {bs : List Sexp}
    (h : ∀ name init, .list [.symbol name, init] ∈ bs → Agree p q init) :
    (analyseBindings p whole bs).map (fun _ => ())
      = (analyseBindings q whole bs).map (fun _ => ()) := by
  induction bs with
  | nil => rfl
  | cons b bs ih =>
    unfold analyseBindings
    split
    · rfl
    next name init bs' heq =>
      cases heq
      refine bind_map_congr (h name init List.mem_cons_self) fun f g hfg => ?_
      rw [hfg]
      cases g.isAtomic
      · rfl
      · exact bind_map_congr (ih fun name init hmem =>
          h name init (List.mem_cons_of_mem _ hmem)) fun _ _ _ => rfl
    · rfl

/-- **Primitives do not matter** for whether there is a form and for what is reported. -/
theorem analyse_agree (p q : Text → Bool) : ∀ e : Sexp, Agree p q e
  | .list [] => rfl
  | .list (head :: args) => by
    have ih : ∀ x ∈ head :: args, Agree p q x := fun x hx => analyse_agree p q x
    have hargs := analyseAll_agree args fun x hx => ih x (List.mem_cons_of_mem head hx)
    unfold Agree analyse
    cases hk : Keyword.of? head with
    | none =>
      cases head with
      | symbol op =>
        dsimp only
        split
        · split <;> exact bind_map_congr hargs fun _ _ _ => rfl
        · split <;> exact bind_map_congr hargs fun _ _ _ => rfl
      | _ => exact bind_map_congr (ih _ List.mem_cons_self) fun _ _ _ =>
          bind_map_congr hargs fun _ _ _ => rfl
    | some k =>
      cases k with
      | quote => rfl
      | lambda =>
        dsimp only
        split
        next params bodies =>
          refine bind_map_congr_right _ fun names => ?_
          cases bodies with
          | nil => rfl
          | cons first rest =>
            exact body_agree (List.forall_mem_cons.1 (List.forall_mem_cons.1 ih).2).2
              fun _ _ _ _ => rfl
        · rfl
      | branch =>
        dsimp only
        split
        next test yes no =>
          exact bind_map_congr (ih test (by simp)) fun _ _ _ =>
            bind_map_congr (ih yes (by simp)) fun _ _ _ =>
              bind_map_congr (ih no (by simp)) fun _ _ _ => rfl
        · rfl
      | sequence =>
        cases args with
        | nil => rfl
        | cons first rest =>
          exact body_agree (List.forall_mem_cons.1 ih).2 fun _ _ _ _ => rfl
      | assign =>
        dsimp only
        split
        next name value => exact bind_map_congr (ih value (by simp)) fun _ _ _ => rfl
        · rfl
      | letrec =>
        dsimp only
        split
        next bindings first rest =>
          have hbindings := analyseBindings_agree (.list (head :: .list bindings :: first :: rest))
            fun name init (hmem : .list [.symbol name, init] ∈ bindings) => analyse_agree p q init
          exact bind_map_congr hbindings fun _ _ _ =>
            body_agree (List.forall_mem_cons.1 (List.forall_mem_cons.1 ih).2).2
              fun _ _ _ _ => rfl
        · rfl
  | .absent | .symbol _ | .number _ | .str _ | .bool _ | .nil | .dot => rfl
termination_by e => sizeOf e
decreasing_by
  · have := List.sizeOf_lt_of_mem hx
    simp only [Sexp.list.sizeOf_spec]
    omega
  · subst_vars
    have := List.sizeOf_lt_of_mem hmem
    simp only [Sexp.list.sizeOf_spec, List.cons.sizeOf_spec, Sexp.symbol.sizeOf_spec] at this ⊢
    omega

/-- **What is reported** does not depend on the primitives. -/
theorem analyse_error_iff (p q : Text → Bool) {e : Sexp} {err : FormError} :
    analyse p e = .error err ↔ analyse q e = .error err := by
  have h : ∀ {p q : Text → Bool}, Agree p q e → analyse p e = .error err →
      analyse q e = .error err := by
    intro p q hagree hp
    unfold Agree at hagree
    rw [hp] at hagree
    cases hq : analyse q e with
    | ok f =>
      rw [hq] at hagree
      cases hagree
    | error err' =>
      rw [hq] at hagree
      exact congrArg Except.error (Except.error.inj hagree).symm
  exact ⟨h (analyse_agree p q e), h (analyse_agree q p e)⟩

end Form

end PassingStyle
