import PassingStyle.Proofs.Image
import PassingStyle.Proofs.Meaning.Source
import PassingStyle.Proofs.Meaning.Target

/-!
# A program and its conversion, side by side

While a program and its converted form run next to each other, their stores agree on all
locations of the program, closures up to the conversion of their bodies. The converted
program has more variables: those that the conversion has drawn, and the final
continuation. They are never assigned, so once one of them is bound it keeps its value,
however long the program runs; this is what makes it possible to bind a continuation
now and to call it much later.

The conversion moves the rest of the code into the scope of recursive bindings. For the
names in that code to keep their meaning the form has to be *tidy*: clean, as renamed
programs are, and without names that were drawn or the name `undef` among its binders.
-/

namespace PassingStyle

/-! ## Tidy forms -/

/-- **What a program is converted with**: its primitives, the variables that are drawn,
and the final continuation. -/
structure Setting where
  /-- The primitives. -/
  isPrimitive : Text → Bool
  /-- The variables that are drawn. -/
  drawn : List Text
  /-- The final continuation. -/
  halt : Text
  /-- The variables are named as a table names them. -/
  numbered : ∀ x ∈ drawn, x.EndsInDigit
  /-- The final continuation is no keyword. -/
  halt_keyword : Keyword.of? (.symbol halt) = none
  /-- It is not one of the variables. -/
  halt_not_drawn : halt ∉ drawn
  /-- It is not the variable that assignments refer to. -/
  halt_ne_undefined : halt ≠ undefinedName

namespace Setting

variable (S : Setting)

/-- The variable that assignments refer to is not drawn. -/
theorem undefined_not_drawn : undefinedName ∉ S.drawn :=
  fun h => (S.numbered _ h).ne_undefined rfl

/-- **Tidy forms**: clean together, and apart from the variables that are drawn. -/
structure Tidy (fs : List Form) : Prop where
  /-- They are valid. -/
  valid : ∀ f ∈ fs, f.Valid S.isPrimitive
  /-- Every name is bound at one place at most. -/
  nodup : (Form.bindersAll fs).Nodup
  /-- No name is both bound and free. -/
  apart : ∀ x ∈ Form.bindersAll fs, x ∉ Form.freeAll fs
  /-- What they bind is neither drawn nor `undef`. -/
  binders : ∀ x ∈ Form.bindersAll fs, x ∉ S.drawn ∧ x ≠ undefinedName
  /-- What they refer to is not drawn. -/
  free : ∀ x ∈ Form.freeAll fs, x ∉ S.drawn

/-- Names that were drawn, each for one purpose. -/
structure Fresh (names : List Text) : Prop where
  /-- They are pairwise different. -/
  nodup : names.Nodup
  /-- They were drawn. -/
  mem : ∀ x ∈ names, x ∈ S.drawn

variable {S}

theorem Fresh.append {xs ys : List Text} (h : S.Fresh (xs ++ ys)) : S.Fresh xs ∧ S.Fresh ys :=
  ⟨⟨h.nodup.of_append_left, fun x hx => h.mem x (List.mem_append_left _ hx)⟩,
    ⟨h.nodup.of_append_right, fun x hx => h.mem x (List.mem_append_right _ hx)⟩⟩

theorem Fresh.of_cons {x : Text} {xs : List Text} (h : S.Fresh (x :: xs)) : S.Fresh xs :=
  ⟨h.nodup.of_cons, fun y hy => h.mem y (List.mem_cons_of_mem _ hy)⟩

namespace Tidy

/-- **Parts of tidy forms are tidy.** Every name that is free in the parts is free in the
whole, or bound by the whole around the parts. -/
theorem part {fs gs : List Form} (h : S.Tidy fs) (hvalid : ∀ g ∈ gs, g.Valid S.isPrimitive)
    (hbinders : (Form.bindersAll gs).Sublist (Form.bindersAll fs))
    (hfree : ∀ x ∈ Form.freeAll gs, x ∈ Form.freeAll fs ∨
      x ∈ Form.bindersAll fs ∧ x ∉ Form.bindersAll gs) : S.Tidy gs where
  valid := hvalid
  nodup := h.nodup.sublist hbinders
  apart x hx hin := by
    rcases hfree x hin with hin | ⟨_, hin⟩
    · exact h.apart x (hbinders.subset hx) hin
    · exact hin hx
  binders x hx := h.binders x (hbinders.subset hx)
  free x hx := by
    rcases hfree x hx with hx | ⟨hx, _⟩
    · exact h.free x hx
    · exact (h.binders x hx).1

variable {f g : Form} {fs gs : List Form}

/-- Forms with the same names are tidy together. -/
theorem congr (h : S.Tidy fs) (hvalid : ∀ g ∈ gs, g.Valid S.isPrimitive)
    (hbinders : Form.bindersAll gs = Form.bindersAll fs)
    (hfree : ∀ x ∈ Form.freeAll gs, x ∈ Form.freeAll fs) : S.Tidy gs :=
  h.part hvalid (hbinders ▸ List.Sublist.refl _) fun x hx => Or.inl (hfree x hx)

theorem head (h : S.Tidy (f :: fs)) : S.Tidy [f] := by
  refine h.part (List.forall_mem_singleton.2 (h.valid f List.mem_cons_self)) ?_ ?_
  · simp only [Form.bindersAll, List.append_nil]
    exact List.sublist_append_left _ _
  · intro x hx
    simp only [Form.freeAll, List.append_nil, List.mem_append] at hx ⊢
    exact Or.inl (Or.inl hx)

theorem tail (h : S.Tidy (f :: fs)) : S.Tidy fs := by
  refine h.part (fun g hg => h.valid g (List.mem_cons_of_mem _ hg)) ?_ ?_
  · exact List.sublist_append_right _ _
  · exact fun x hx => Or.inl (List.mem_append_right _ hx)

/-- What the first form binds is not free in the others. -/
theorem head_apart (h : S.Tidy (f :: fs)) : ∀ x ∈ f.binders, x ∉ Form.freeAll fs :=
  fun x hx hin => h.apart x (List.mem_append_left _ hx) (List.mem_append_right _ hin)

/-- What the others bind is not free in the first form. -/
theorem tail_apart (h : S.Tidy (f :: fs)) : ∀ x ∈ Form.bindersAll fs, x ∉ f.free :=
  fun x hx hin => h.apart x (List.mem_append_right _ hx) (List.mem_append_left _ hin)

theorem branch {test yes no : Form} (h : S.Tidy [.branch test yes no]) :
    S.Tidy [test, yes, no] := by
  have hv := h.valid _ List.mem_cons_self
  cases hv with
  | branch vtest vyes vno =>
    refine h.congr (by simp [vtest, vyes, vno]) ?_ ?_
    · simp only [Form.bindersAll, Form.binders, List.append_nil]
    · intro x hx
      simpa only [Form.freeAll, Form.free, List.append_nil] using hx

theorem sequence {first : Form} {rest : List Form} (h : S.Tidy [.sequence first rest]) :
    S.Tidy (first :: rest) := by
  have hv := h.valid _ List.mem_cons_self
  cases hv with
  | sequence vfirst vrest =>
    refine h.congr (List.forall_mem_cons.2 ⟨vfirst, vrest⟩) ?_ ?_
    · simp only [Form.bindersAll, Form.binders, List.append_nil]
    · intro x hx
      simpa only [Form.freeAll, Form.free, List.append_nil] using hx

/-- A body is tidy as a sequence. -/
theorem to_sequence {first : Form} {rest : List Form} (h : S.Tidy (first :: rest)) :
    S.Tidy [.sequence first rest] := by
  obtain ⟨vfirst, vrest⟩ := List.forall_mem_cons.1 h.valid
  refine h.congr (List.forall_mem_singleton.2 (.sequence vfirst vrest)) ?_ ?_
  · simp only [Form.bindersAll, Form.binders, List.append_nil]
  · intro x hx
    simpa only [Form.freeAll, Form.free, List.append_nil] using hx

theorem primitive {op : Text} {args : List Form} (h : S.Tidy [.primitive op args]) :
    S.Tidy args := by
  have hv := h.valid _ List.mem_cons_self
  cases hv with
  | primitive _ _ vargs =>
    refine h.congr vargs ?_ ?_
    · simp only [Form.bindersAll, Form.binders, List.append_nil]
    · intro x hx
      simpa only [Form.freeAll, Form.free, List.append_nil] using hx

theorem call {fn : Form} {args : List Form} (h : S.Tidy [.call fn args]) :
    S.Tidy (fn :: args) := by
  have hv := h.valid _ List.mem_cons_self
  cases hv with
  | call _ vfn vargs =>
    refine h.congr (List.forall_mem_cons.2 ⟨vfn, vargs⟩) ?_ ?_
    · simp only [Form.bindersAll, Form.binders, List.append_nil]
    · intro x hx
      simpa only [Form.freeAll, Form.free, List.append_nil] using hx

theorem assign {name : Text} {value : Form} (h : S.Tidy [.assign name value]) :
    S.Tidy [value] ∧ name ∉ value.binders ∧ name ∉ S.drawn := by
  have hv := h.valid _ List.mem_cons_self
  have hname : name ∈ Form.freeAll [.assign name value] := by
    simp [Form.freeAll, Form.free]
  cases hv with
  | assign vvalue =>
    refine ⟨h.congr (List.forall_mem_singleton.2 vvalue) ?_ ?_, fun hin => ?_, h.free _ hname⟩
    · simp only [Form.bindersAll, Form.binders, List.append_nil]
    · intro x hx
      simp only [Form.freeAll, Form.free, List.append_nil, List.mem_cons] at hx ⊢
      exact Or.inr hx
    · exact h.apart name (by simpa [Form.bindersAll, Form.binders] using hin) hname

/-- The body of a function is tidy, and its parameters are names of the program. -/
theorem lambda {params : List Text} {first : Form} {rest : List Form}
    (h : S.Tidy [.lambda params first rest]) :
    S.Tidy [.sequence first rest] ∧ params.Nodup ∧
      ∀ x ∈ params, x ∉ S.drawn ∧ x ≠ undefinedName := by
  have hv := h.valid _ List.mem_cons_self
  have hbinders : Form.bindersAll [.lambda params first rest] =
      params ++ Form.bindersAll [.sequence first rest] := by
    simp only [Form.bindersAll, Form.binders, List.append_nil]
  have hnodup := hbinders ▸ h.nodup
  cases hv with
  | lambda vfirst vrest =>
    refine ⟨h.part (List.forall_mem_singleton.2 (.sequence vfirst vrest)) ?_ ?_,
      hnodup.of_append_left, ?_⟩
    · rw [hbinders]
      exact List.sublist_append_right _ _
    · intro x hx
      by_cases hparam : x ∈ params
      · refine Or.inr ⟨hbinders ▸ List.mem_append_left _ hparam, ?_⟩
        exact (List.disjoint_of_nodup_append hnodup) hparam
      · refine Or.inl ?_
        simp only [Form.freeAll, Form.free, List.append_nil, List.mem_filter] at hx ⊢
        exact ⟨hx, decide_eq_true hparam⟩
    · intro x hx
      exact h.binders x (hbinders ▸ List.mem_append_left _ hx)

/-- The values and the body of a recursive binding are tidy, and its names are names of
the program. -/
theorem letrec {bindings : List (Text × Form)} {first : Form} {rest : List Form}
    (h : S.Tidy [.letrec bindings first rest]) :
    S.Tidy (bindings.map Prod.snd) ∧ S.Tidy [.sequence first rest] ∧
      (bindings.map Prod.fst).Nodup ∧
      ∀ x ∈ bindings.map Prod.fst, x ∉ S.drawn ∧ x ≠ undefinedName := by
  have hv := h.valid _ List.mem_cons_self
  have hbinders : Form.bindersAll [.letrec bindings first rest] =
      bindings.map Prod.fst ++ (Form.bindersAll (bindings.map Prod.snd) ++
        Form.bindersAll [.sequence first rest]) := by
    simp only [Form.bindersAll, Form.binders, Form.bindersBindings_eq, List.append_nil]
  have hnodup := hbinders ▸ h.nodup
  have hfree : ∀ x, x ∈ Form.freeAll (bindings.map Prod.snd) ∨
      x ∈ Form.freeAll [.sequence first rest] → x ∉ bindings.map Prod.fst →
      x ∈ Form.freeAll [.letrec bindings first rest] := by
    intro x hx hnot
    simp only [Form.freeAll, Form.free, Form.freeBindings_eq, List.append_nil, List.mem_append,
      List.mem_filter] at hx ⊢
    exact ⟨hx, decide_eq_true hnot⟩
  have hinner := List.disjoint_of_nodup_append hnodup
  cases hv with
  | letrec vbindings _ vfirst vrest =>
    refine ⟨h.part ?_ ?_ ?_, h.part (List.forall_mem_singleton.2 (.sequence vfirst vrest)) ?_ ?_,
      hnodup.of_append_left, ?_⟩
    · intro g hg
      obtain ⟨b, hb, rfl⟩ := List.mem_map.1 hg
      exact vbindings b hb
    · rw [hbinders]
      exact (List.sublist_append_left _ _).trans (List.sublist_append_right _ _)
    · intro x hx
      by_cases hname : x ∈ bindings.map Prod.fst
      · exact Or.inr ⟨hbinders ▸ List.mem_append_left _ hname,
          fun hin => hinner hname (List.mem_append_left _ hin)⟩
      · exact Or.inl (hfree x (Or.inl hx) hname)
    · rw [hbinders]
      exact (List.sublist_append_right _ _).trans (List.sublist_append_right _ _)
    · intro x hx
      by_cases hname : x ∈ bindings.map Prod.fst
      · exact Or.inr ⟨hbinders ▸ List.mem_append_left _ hname,
          fun hin => hinner hname (List.mem_append_right _ hin)⟩
      · exact Or.inl (hfree x (Or.inr hx) hname)
    · intro x hx
      exact h.binders x (hbinders ▸ List.mem_append_left _ hx)

end Tidy

/-! ## Environments, values and stores -/

variable (S)

/-- **Environments that agree** on the variables `free`. None of them is the final
continuation, and `undef` is the global variable. -/
structure Agree (free : List Text) (ρ ρ' : Env) : Prop where
  /-- Each of the variables means the same binding. -/
  same : ∀ x ∈ free, ρ' x = ρ x
  /-- A variable that is called like the final continuation is a local one. -/
  halt : S.halt ∈ free → ρ S.halt ≠ 0
  /-- The variable `undef` is global. -/
  undefined : ρ' undefinedName = 0

/-- **A value and its conversion.** -/
inductive ValueRel : Form.Value → Target.Value → Prop
  /-- Data are the same. -/
  | datum (d : Datum) : ValueRel (.datum d) (.datum d)
  /-- A closure takes its continuation as one more parameter. -/
  | closure {params : List Text} {first : Form} {rest : List Form} {k : Text}
      {names : List Text} {body : Sexp} {ρ ρ' : Env} :
      S.Tidy [.lambda params first rest] → S.Fresh (k :: names) →
      Image (.sequence first rest) (.symbol k) names body →
      Agree S (Form.lambda params first rest).free ρ ρ' →
      ValueRel (.closure params first rest ρ) (.closure (params ++ [k]) body ρ')

/-- **A store and that of the converted program.** -/
structure StoreRel (m : Store Form.Value) (m' : Store Target.Value) : Prop where
  /-- The names of the program were bound equally often. -/
  bound : ∀ x, x ∉ S.drawn → m'.bound x = m.bound x
  /-- The variables of the program have related values. -/
  cell : ∀ x n, x ∉ S.drawn → ¬ (x = S.halt ∧ n = 0) → ValueRel S (m.cell x n) (m'.cell x n)
  /-- The same calls were made. -/
  trace : m'.trace = m.trace

/-- **A location that is never assigned**: that of a variable that was drawn and bound
already, or of the final continuation. -/
def Kept (m : Store Target.Value) (x : Text) (n : Nat) : Prop :=
  (x ∈ S.drawn ∧ n ≤ m.bound x) ∨ (x = S.halt ∧ n = 0)

/-- **What the converted program leaves alone** on the way from one state to another:
the variables outside `changed`, and what is never assigned. -/
structure Moved (changed : List Text) (ρ : Env) (m : Store Target.Value) (ρ₁ : Env)
    (m₁ : Store Target.Value) : Prop where
  /-- Names are bound more often only. -/
  bound : ∀ x, m.bound x ≤ m₁.bound x
  /-- What is never assigned keeps its value. -/
  cell : ∀ x n, Kept S m x n → m₁.cell x n = m.cell x n
  /-- Other variables mean the same binding. -/
  env : ∀ x, x ∉ changed → ρ₁ x = ρ x

/-- **A continuation is ready** if it is one, and if a variable that it is keeps its
meaning while the variables in `changed` do not. -/
structure Ready (c : Sexp) (changed : List Text) (ρ : Env) (m : Store Target.Value) : Prop where
  /-- It is a continuation. -/
  receiver : Target.IsReceiver c
  /-- As a variable it is never assigned. -/
  kept : ∀ k, c = .symbol k → Kept S m k (ρ k)
  /-- As a variable it stays in scope. -/
  outside : ∀ k, c = .symbol k → k ∉ changed

variable {S}

theorem Agree.subset {free free' : List Text} {ρ ρ' : Env} (h : S.Agree free ρ ρ')
    (hsub : ∀ x ∈ free', x ∈ free) : S.Agree free' ρ ρ' :=
  ⟨fun x hx => h.same x (hsub x hx), fun hx => h.halt (hsub _ hx), h.undefined⟩

theorem Kept.mono {m m₁ : Store Target.Value} {x : Text} {n : Nat}
    (h : S.Kept m x n) (hbound : ∀ x, m.bound x ≤ m₁.bound x) : S.Kept m₁ x n := by
  rcases h with ⟨hx, hn⟩ | h
  · exact Or.inl ⟨hx, hn.trans (hbound x)⟩
  · exact Or.inr h

namespace Moved

variable {changed changed' : List Text} {ρ ρ₁ ρ₂ : Env} {m m₁ m₂ : Store Target.Value}

theorem refl (changed : List Text) (ρ : Env) (m : Store Target.Value) :
    S.Moved changed ρ m ρ m :=
  ⟨fun _ => Nat.le_refl _, fun _ _ _ => rfl, fun _ _ => rfl⟩

theorem mono (h : S.Moved changed ρ m ρ₁ m₁) (hsub : ∀ x ∈ changed, x ∈ changed') :
    S.Moved changed' ρ m ρ₁ m₁ :=
  ⟨h.bound, h.cell, fun x hx => h.env x fun hin => hx (hsub x hin)⟩

theorem trans (h : S.Moved changed ρ m ρ₁ m₁) (h' : S.Moved changed ρ₁ m₁ ρ₂ m₂) :
    S.Moved changed ρ m ρ₂ m₂ :=
  ⟨fun x => (h.bound x).trans (h'.bound x),
    fun x n hk => (h'.cell x n (hk.mono h.bound)).trans (h.cell x n hk),
    fun x hx => (h'.env x hx).trans (h.env x hx)⟩

/-- In an environment of its own, code that is called later finds nothing changed. -/
theorem in_env (h : S.Moved changed ρ m ρ₁ m₁) (ρ₂ : Env) : S.Moved [] ρ₂ m ρ₂ m₁ :=
  ⟨h.bound, h.cell, fun _ _ => rfl⟩

/-- A location that is never assigned stays one. -/
theorem kept (h : S.Moved changed ρ m ρ₁ m₁) {x : Text} (hx : x ∉ changed)
    (hk : S.Kept m x (ρ x)) : S.Kept m₁ x (ρ₁ x) := by
  rw [h.env x hx]
  exact hk.mono h.bound

/-- A variable that is never assigned keeps its value. -/
theorem read (h : S.Moved changed ρ m ρ₁ m₁) {x : Text} (hx : x ∉ changed)
    (hk : S.Kept m x (ρ x)) : m₁.cell x (ρ₁ x) = m.cell x (ρ x) := by
  rw [h.env x hx]
  exact h.cell x _ hk

/-- One more variable is bound. -/
theorem push (x : Text) (v : Target.Value) (ρ : Env) (m : Store Target.Value) :
    S.Moved [x] ρ m (Function.update ρ x (m.fresh x)) (m.push x v) where
  bound y := by
    by_cases hy : y = x
    · rw [hy, Store.push_bound_self]
      exact Nat.le_succ _
    · rw [Store.push_bound_of_ne _ _ hy]
  cell y n hk := by
    -- the location is new, so it is none of those that are never assigned
    refine Store.push_cell_of_ne _ _ fun ⟨hy, hn⟩ => ?_
    rcases hk with ⟨_, hle⟩ | ⟨_, hzero⟩
    · rw [hn, hy] at hle
      exact absurd hle (Nat.not_succ_le_self _)
    · rw [hzero] at hn
      cases hn
  env y hy := Function.update_of_ne (fun h => hy (List.mem_singleton.2 h)) _ _

/-- A variable of the program is assigned. -/
theorem write {x : Text} {n : Nat} (v : Target.Value) (hx : x ∉ S.drawn)
    (hhalt : ¬ (x = S.halt ∧ n = 0)) (ρ : Env) (m : Store Target.Value) :
    S.Moved [] ρ m ρ (m.write x n v) where
  bound _ := Nat.le_refl _
  cell y k hk := by
    refine Store.write_cell_of_ne _ _ fun ⟨hy, hn⟩ => ?_
    rcases hk with ⟨hdrawn, _⟩ | ⟨hy', hzero⟩
    · exact hx (hy ▸ hdrawn)
    · exact hhalt ⟨hy ▸ hy', hn ▸ hzero⟩
  env _ _ := rfl

end Moved

/-- Environments still agree after some code was run. -/
theorem Agree.moved {free changed : List Text} {ρ ρ' ρ₁ : Env} {m m₁ : Store Target.Value}
    (h : S.Agree free ρ ρ') (hm : S.Moved changed ρ' m ρ₁ m₁)
    (hfree : ∀ x ∈ free, x ∉ changed) (hundefined : undefinedName ∉ changed) :
    S.Agree free ρ ρ₁ :=
  ⟨fun x hx => (hm.env x (hfree x hx)).trans (h.same x hx), h.halt,
    (hm.env _ hundefined).trans h.undefined⟩

namespace Ready

variable {c : Sexp} {changed changed' : List Text} {ρ ρ₁ : Env} {m m₁ : Store Target.Value}

theorem mono (h : S.Ready c changed ρ m) (hsub : ∀ x ∈ changed', x ∈ changed) :
    S.Ready c changed' ρ m :=
  ⟨h.receiver, h.kept, fun k hk hin => h.outside k hk (hsub k hin)⟩

/-- A continuation stays ready. -/
theorem moved (h : S.Ready c changed ρ m) (hm : S.Moved changed ρ m ρ₁ m₁) :
    S.Ready c changed ρ₁ m₁ :=
  ⟨h.receiver, fun k hk => hm.kept (h.outside k hk) (h.kept k hk), h.outside⟩

/-- A continuation has a value. -/
theorem exists_value (h : S.Ready c changed ρ m) : ∃ κ, Target.atomValue c ρ m = some κ := by
  cases h.receiver with
  | symbol _ => exact ⟨_, rfl⟩
  | lambda rv body => exact ⟨_, Target.atomValue_lambda _ _⟩

/-- In the environment that it was ready in, a continuation keeps its value. -/
theorem value_eq (h : S.Ready c changed ρ m) (hm : S.Moved [] ρ m ρ m₁) :
    Target.atomValue c ρ m₁ = Target.atomValue c ρ m := by
  cases hc : h.receiver with
  | @symbol k _ =>
    rw [Target.atomValue_symbol, Target.atomValue_symbol, hm.cell k _ (h.kept k rfl)]
  | lambda rv body => rw [Target.atomValue_lambda, Target.atomValue_lambda]

end Ready

namespace StoreRel

variable {m : Store Form.Value} {m' : Store Target.Value}

/-- A variable of the program is assigned in both stores. -/
theorem write (h : S.StoreRel m m') (x : Text) (n : Nat) {v : Form.Value} {v' : Target.Value}
    (hv : S.ValueRel v v') : S.StoreRel (m.write x n v) (m'.write x n v') where
  bound := h.bound
  cell y k hy hhalt := by
    by_cases hcell : y = x ∧ k = n
    · rw [hcell.1, hcell.2, Store.write_cell_self, Store.write_cell_self]
      exact hv
    · rw [Store.write_cell_of_ne _ _ hcell, Store.write_cell_of_ne _ _ hcell]
      exact h.cell y k hy hhalt
  trace := h.trace

/-- A variable of the program is bound in both stores. -/
theorem push (h : S.StoreRel m m') {x : Text} (hx : x ∉ S.drawn) {v : Form.Value}
    {v' : Target.Value} (hv : S.ValueRel v v') : S.StoreRel (m.push x v) (m'.push x v') where
  bound y hy := by
    by_cases hyx : y = x
    · rw [hyx, Store.push_bound_self, Store.push_bound_self, h.bound x hx]
    · rw [Store.push_bound_of_ne _ _ hyx, Store.push_bound_of_ne _ _ hyx, h.bound y hy]
  cell y k hy hhalt := by
    have hfresh : m'.fresh x = m.fresh x := congrArg (· + 1) (h.bound x hx)
    by_cases hcell : y = x ∧ k = m.fresh x
    · rw [hcell.1, hcell.2, Store.push_cell_self, ← hfresh, Store.push_cell_self]
      exact hv
    · rw [Store.push_cell_of_ne _ _ hcell, Store.push_cell_of_ne _ _ (hfresh ▸ hcell)]
      exact h.cell y k hy hhalt
  trace := h.trace

/-- A variable that was drawn is bound in the store of the converted program. -/
theorem push_drawn (h : S.StoreRel m m') {x : Text} (hx : x ∈ S.drawn) (v' : Target.Value) :
    S.StoreRel m (m'.push x v') where
  bound y hy := by
    have hne : y ≠ x := fun hyx => hy (hyx ▸ hx)
    rw [Store.push_bound_of_ne _ _ hne]
    exact h.bound y hy
  cell y k hy hhalt := by
    have hne : ¬ (y = x ∧ k = m'.fresh x) := fun hyx => hy (hyx.1 ▸ hx)
    rw [Store.push_cell_of_ne _ _ hne]
    exact h.cell y k hy hhalt
  trace := h.trace

/-- A call of an external procedure is recorded in both stores. -/
theorem record (h : S.StoreRel m m') (event : Event) :
    S.StoreRel (m.record event) (m'.record event) where
  bound := h.bound
  cell := h.cell
  trace := by
    show m'.trace ++ [event] = m.trace ++ [event]
    rw [h.trace]

end StoreRel

/-! ## Binding names side by side -/

variable {m : Store Form.Value} {m' : Store Target.Value} {ρ ρ' : Env} {xs : List Text}
  {vs : List Form.Value} {vs' : List Target.Value}

/-- Binding names of the program keeps the stores related. -/
theorem StoreRel.bindAll (h : S.StoreRel m m') (hxs : ∀ x ∈ xs, x ∉ S.drawn)
    (hvs : List.Forall₂ S.ValueRel vs vs') (ρ ρ' : Env) :
    S.StoreRel (Store.bindAll xs vs ρ m).2 (Store.bindAll xs vs' ρ' m').2 := by
  induction xs generalizing vs vs' m m' ρ ρ' with
  | nil => exact h
  | cons x xs ih =>
    obtain ⟨hx, hxs⟩ := List.forall_mem_cons.1 hxs
    cases hvs with
    | nil => exact h
    | cons hv hvs => exact ih (h.push hx hv) hxs hvs _ _

/-- Binding names changes nothing else. -/
theorem Moved.bindAll (xs : List Text) (vs' : List Target.Value) (ρ' : Env)
    (m' : Store Target.Value) :
    S.Moved xs ρ' m' (Store.bindAll xs vs' ρ' m').1 (Store.bindAll xs vs' ρ' m').2 := by
  induction xs generalizing vs' ρ' m' with
  | nil => exact .refl _ _ _
  | cons x xs ih =>
    cases vs' with
    | nil => exact .refl _ _ _
    | cons v' vs' =>
      have hfirst : S.Moved (x :: xs) ρ' m' _ _ := (Moved.push x v' ρ' m').mono fun y hy =>
        List.mem_singleton.1 hy ▸ List.mem_cons_self
      exact hfirst.trans ((ih vs' _ _).mono fun y hy => List.mem_cons_of_mem x hy)

/-- Names that are bound on both sides mean the same binding, and a local one. -/
theorem StoreRel.bindAll_env (h : S.StoreRel m m') (hxs : ∀ x ∈ xs, x ∉ S.drawn)
    (hvs : List.Forall₂ S.ValueRel vs vs') (hlength : xs.length = vs.length) (ρ ρ' : Env)
    {x : Text} (hx : x ∈ xs ∨ ρ' x = ρ x ∧ ρ x ≠ 0) :
    (Store.bindAll xs vs' ρ' m').1 x = (Store.bindAll xs vs ρ m).1 x ∧
      (Store.bindAll xs vs ρ m).1 x ≠ 0 := by
  induction xs generalizing vs vs' m m' ρ ρ' with
  | nil =>
    rcases hx with hx | hx
    · exact absurd hx List.not_mem_nil
    · exact hx
  | cons y xs ih =>
    obtain ⟨hy, hxs⟩ := List.forall_mem_cons.1 hxs
    cases hvs with
    | nil => cases hlength
    | cons hv hvs =>
      refine ih (h.push hy hv) hxs hvs (Nat.succ.inj hlength) _ _ ?_
      by_cases hxy : x = y
      · refine Or.inr ?_
        rw [hxy, Function.update_self, Function.update_self]
        exact ⟨congrArg (· + 1) (h.bound y hy), Nat.succ_ne_zero _⟩
      · rw [Function.update_of_ne hxy, Function.update_of_ne hxy]
        rcases hx with hx | hx
        · exact Or.inl ((List.mem_cons.1 hx).resolve_left hxy)
        · exact Or.inr hx

/-- **Inside a scope** environments agree on the names that it binds as well. -/
theorem Agree.bindAll {free inner : List Text} (hagree : S.Agree free ρ ρ')
    (h : S.StoreRel m m') (hxs : ∀ x ∈ xs, x ∉ S.drawn ∧ x ≠ undefinedName)
    (hvs : List.Forall₂ S.ValueRel vs vs') (hlength : xs.length = vs.length)
    (hinner : ∀ x ∈ inner, x ∈ xs ∨ x ∈ free) :
    S.Agree inner (Store.bindAll xs vs ρ m).1 (Store.bindAll xs vs' ρ' m').1 where
  same x hx := by
    by_cases hin : x ∈ xs
    · exact (h.bindAll_env (fun x hx => (hxs x hx).1) hvs hlength ρ ρ' (Or.inl hin)).1
    · rw [Store.bindAll_env_of_not_mem hin, Store.bindAll_env_of_not_mem hin]
      exact hagree.same x ((hinner x hx).resolve_left hin)
  halt hx := by
    by_cases hin : S.halt ∈ xs
    · exact (h.bindAll_env (fun x hx => (hxs x hx).1) hvs hlength ρ ρ' (Or.inl hin)).2
    · rw [Store.bindAll_env_of_not_mem hin]
      exact hagree.halt ((hinner _ hx).resolve_left hin)
  undefined := by
    rw [Store.bindAll_env_of_not_mem fun hin => (hxs _ hin).2 rfl]
    exact hagree.undefined

/-- Assigning local variables of the program keeps the stores related, and changes
nothing that is never assigned. -/
theorem StoreRel.assignAll (h : S.StoreRel m m') (hxs : ∀ x ∈ xs, x ∉ S.drawn)
    (hρ : ∀ x ∈ xs, ρ' x = ρ x ∧ ρ x ≠ 0) (hvs : List.Forall₂ S.ValueRel vs vs') :
    S.StoreRel (Store.assignAll xs vs ρ m) (Store.assignAll xs vs' ρ' m') ∧
      S.Moved [] ρ' m' ρ' (Store.assignAll xs vs' ρ' m') := by
  induction xs generalizing vs vs' m m' with
  | nil => exact ⟨h, .refl _ _ _⟩
  | cons x xs ih =>
    obtain ⟨hx, hxs⟩ := List.forall_mem_cons.1 hxs
    obtain ⟨⟨hsame, hlocal⟩, hρ⟩ := List.forall_mem_cons.1 hρ
    cases hvs with
    | nil => exact ⟨h, .refl _ _ _⟩
    | @cons v v' vs vs' hv hvs =>
      obtain ⟨hstore, hmoved⟩ := ih (h.write x (ρ x) hv) hxs hρ hvs
      have hwrite := Moved.write v' hx (fun hhalt => hlocal hhalt.2) ρ' m'
      rw [Store.assignAll, Store.assignAll, hsame]
      exact ⟨hstore, hwrite.trans hmoved⟩

/-- Whatever tidy forms change on their way, `undef` is not among it. -/
theorem Tidy.undefined_not_changed {fs : List Form} {names : List Text} (htidy : S.Tidy fs)
    (hfresh : S.Fresh names) : undefinedName ∉ Form.scopesAll fs ++ names := by
  intro hin
  rcases List.mem_append.1 hin with hin | hin
  · obtain ⟨f, hf, hin⟩ := Form.mem_scopesAll.1 hin
    have hbound := Form.mem_bindersAll.2 ⟨f, hf, Form.mem_binders_of_mem_scopes hin⟩
    exact (htidy.binders _ hbound).2 rfl
  · exact S.undefined_not_drawn (hfresh.mem _ hin)

/-- Only data are related to data. -/
theorem ValueRel.data_left {ds : List Datum} {ws : List Target.Value} :
    List.Forall₂ S.ValueRel (ds.map .datum) ws ↔ ws = ds.map .datum := by
  rw [List.forall₂_map_left_iff]
  refine Datum.forall₂_iff fun d w => ⟨fun h => ?_, fun h => ?_⟩
  · cases h
    rfl
  · rw [h]
    exact .datum d

/-- The same the other way round. -/
theorem ValueRel.data_right {ds : List Datum} {vs : List Form.Value} :
    List.Forall₂ S.ValueRel vs (ds.map .datum) ↔ vs = ds.map .datum := by
  rw [List.forall₂_map_right_iff]
  refine Datum.forall₂_flip_iff fun d v => ⟨fun h => ?_, fun h => ?_⟩
  · cases h
    rfl
  · rw [h]
    exact .datum d

/-- Values that are related count as true together. -/
theorem ValueRel.isTrue_eq {v : Form.Value} {w : Target.Value} (h : S.ValueRel v w) :
    w.isTrue = v.isTrue := by
  cases h with
  | datum d => rfl
  | closure _ _ _ _ => rfl

end Setting

/-- **The image of an atomic form holds its value.** -/
theorem AtomImage.value {S : Setting} {m : Store Form.Value} {m' : Store Target.Value} {ρ ρ' : Env}
    {f : Form} {names : List Text} {a : Sexp} (himage : AtomImage f names a)
    (htidy : S.Tidy [f]) (hfresh : S.Fresh names) (hagree : S.Agree f.free ρ ρ')
    (h : S.StoreRel m m') :
    ∃ w, Target.atomValue a ρ' m' = some w ∧ S.ValueRel (f.atomValue ρ m) w := by
  cases himage with
  | constant =>
    have hv := htidy.valid _ List.mem_cons_self
    cases hv with
    | constant hc =>
      rcases hc with hl | ⟨d, rfl⟩
      · cases a with
        | symbol x =>
          have hx : x ∈ (Form.constant (.symbol x)).free := by
            rw [Form.free]
            exact List.mem_singleton_self x
          have hdrawn : x ∉ S.drawn := htidy.free x (by simpa [Form.freeAll] using hx)
          refine ⟨_, rfl, ?_⟩
          rw [hagree.same x hx]
          -- a global variable of that name would be the final continuation
          refine h.cell x _ hdrawn fun ⟨hhalt, hzero⟩ => ?_
          subst hhalt
          exact hagree.halt hx hzero
        | list es => cases hl
        | _ => exact ⟨_, rfl, .datum _⟩
      · exact ⟨_, Target.atomValue_quote d, .datum _⟩
  | lambda hbody =>
    exact ⟨_, Target.atomValue_lambda _ _, .closure htidy hfresh hbody hagree⟩

end PassingStyle
