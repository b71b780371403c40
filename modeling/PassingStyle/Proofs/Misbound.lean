import PassingStyle.Proofs.Nameless

/-!
# Renaming is an alpha-renaming

Renaming a program keeps its nameless form and binds every name once. It fails for one
reason only, a scope whose binders are not in order: a parameter that is not a symbol, a
part of a recursive binding that is not a pair of a symbol and a value, or a name that
comes twice. Not every such scope counts. `Reached` tells the parts of an expression that
renaming comes to, which leaves out quoted data, and `Faulty` the expressions that have
such a scope among these parts.

That a faulty expression cannot be renamed is seen from a success: all parts that the
walk came to were renamed, so their binders were in order. The converse follows the walk
and asks of every step which fault can make it fail, `FailsOnly`.
-/

namespace PassingStyle

/-! ## Faulty expressions -/

namespace Sexp

/-- **The parts of an expression that renaming comes to.** It goes through functions,
recursive bindings and plain lists, but not into quoted data. -/
inductive Reached : Sexp → Sexp → Prop
  /-- The expression itself. -/
  | here (e : Sexp) : Reached e e
  /-- In the body of a function. -/
  | body {head x part : Sexp} {params bodies : List Sexp} : Keyword.of? head = some .lambda →
      x ∈ bodies → Reached x part → Reached (list (head :: list params :: bodies)) part
  /-- In a value of a recursive binding. -/
  | value {head first init part : Sexp} {s : Text} {bindings rest : List Sexp} :
      Keyword.of? head = some .letrec → list [symbol s, init] ∈ bindings → Reached init part →
      Reached (list (head :: list bindings :: first :: rest)) part
  /-- In the body of a recursive binding. -/
  | scope {head first x part : Sexp} {bindings rest : List Sexp} :
      Keyword.of? head = some .letrec → x ∈ first :: rest → Reached x part →
      Reached (list (head :: list bindings :: first :: rest)) part
  /-- In an element of a plain list. -/
  | element {head x part : Sexp} {args : List Sexp} : Scopeless head args → x ∈ head :: args →
      Reached x part → Reached (list (head :: args)) part

/-- **A scope whose binders are not in order.** -/
inductive Misbound : Sexp → Prop
  /-- A parameter of a function is not a symbol. -/
  | parameter {head p : Sexp} {params bodies : List Sexp} : Keyword.of? head = some .lambda →
      p ∈ params → parameterName? p = none → Misbound (list (head :: list params :: bodies))
  /-- A function has a parameter twice. -/
  | repeatedParameter {head : Sexp} {params bodies : List Sexp} :
      Keyword.of? head = some .lambda → ¬ (params.filterMap parameterName?).Nodup →
      Misbound (list (head :: list params :: bodies))
  /-- A part of a recursive binding is not a pair of a symbol and a value. -/
  | binding {head first b : Sexp} {bindings rest : List Sexp} : Keyword.of? head = some .letrec →
      b ∈ bindings → bindingName? b = none →
      Misbound (list (head :: list bindings :: first :: rest))
  /-- A recursive binding binds a name twice. -/
  | repeatedBinding {head first : Sexp} {bindings rest : List Sexp} :
      Keyword.of? head = some .letrec → ¬ (bindings.filterMap bindingName?).Nodup →
      Misbound (list (head :: list bindings :: first :: rest))

/-- **A faulty expression**: renaming comes to a scope whose binders are not in order. -/
def Faulty (e : Sexp) : Prop :=
  ∃ part, Reached e part ∧ Misbound part

end Sexp

namespace FreshExcept

variable {α β : Type} {P Q : Prop}

/-- **The action fails only if `P` holds**, and then with a refusal of that kind. -/
def FailsOnly (action : FreshExcept α) (P : Prop) : Prop :=
  ∀ ⦃t : NameTable⦄ ⦃err : FormError⦄ ⦃t' : NameTable⦄,
    action.outcome t = (.error err, t') → err.refusal = .malformed ∧ P

/-- A weaker reason. -/
theorem FailsOnly.mono {action : FreshExcept α} (h : action.FailsOnly P) (hpq : P → Q) :
    action.FailsOnly Q :=
  fun _ _ _ he => (h he).imp_right hpq

/-- A result is no failure. -/
theorem FailsOnly.pure (a : α) : FailsOnly (Pure.pure a : FreshExcept α) P := by
  intro t err t' h
  cases h

/-- A refusal for the reason `P`. -/
theorem FailsOnly.throw {err : FormError} (herr : err.refusal = .malformed) (hp : P) :
    FailsOnly (MonadExcept.throw err : FreshExcept α) P := by
  intro t err' t' h
  cases h
  exact ⟨herr, hp⟩

/-- Two steps fail where one of them does. -/
theorem FailsOnly.bind {x : FreshExcept α} {k : α → FreshExcept β} (hx : x.FailsOnly P)
    (hk : ∀ a t t', x.outcome t = (.ok a, t') → (k a).FailsOnly P) : (x >>= k).FailsOnly P := by
  intro t err t' h
  unfold outcome at h
  rw [ExceptT.run_bind, StateT.run_bind] at h
  rcases hrun : StateT.run (ExceptT.run x) t with ⟨e | a, t₁⟩
  · rw [hrun] at h
    cases h
    exact hx hrun
  · rw [hrun] at h
    exact hk a t t₁ hrun h

/-- Drawing names does not fail. -/
theorem FailsOnly.lift (action : Fresh α) : FailsOnly (monadLift action : FreshExcept α) P := by
  intro t err t' h
  cases h

end FreshExcept

namespace Alpha

open Sexp FreshExcept

/-- **Why names cannot be bound** in a scope: there is a binder that has none, a name
comes twice, or the scope binds one of them already. -/
def Unbindable (name? : Sexp → Option Text) (binders : List Sexp) (scope : Scope) : Prop :=
  (∃ b ∈ binders, name? b = none) ∨ ¬ (binders.filterMap name?).Nodup ∨
    ∃ s ∈ binders.filterMap name?, scope.find? s ≠ none

/-- In an empty scope the binders alone are the reason. -/
theorem Unbindable.of_nil {name? : Sexp → Option Text} {binders : List Sexp}
    (h : Unbindable name? binders []) :
    (∃ b ∈ binders, name? b = none) ∨ ¬ (binders.filterMap name?).Nodup := by
  rcases h with h | h | ⟨s, _, h⟩
  · exact .inl h
  · exact .inr h
  · exact absurd rfl h

/-- A reason among the binders that are left is one for all of them. -/
theorem Unbindable.cons {name? : Sexp → Option Text} {b : Sexp} {binders : List Sexp}
    {scope : Scope} {s q : Text} (hb : name? b = some s)
    (h : Unbindable name? binders ((s, q) :: scope)) : Unbindable name? (b :: binders) scope := by
  unfold Unbindable
  rw [List.filterMap_cons_some hb]
  rcases h with ⟨b', hmem, hnone⟩ | hnodup | ⟨x, hmem, hfind⟩
  · exact .inl ⟨b', List.mem_cons_of_mem b hmem, hnone⟩
  · exact .inr (.inl fun h => hnodup (List.nodup_cons.1 h).2)
  · by_cases hx : x = s
    · subst hx
      exact .inr (.inl fun h => (List.nodup_cons.1 h).1 hmem)
    · rw [Scope.Binds.find?_cons, if_neg hx] at hfind
      exact .inr (.inr ⟨x, List.mem_cons_of_mem s hmem, hfind⟩)

/-- The first name is bound already. -/
theorem Unbindable.bound {name? : Sexp → Option Text} {b : Sexp} {binders : List Sexp}
    {scope : Scope} {s q : Text} (hb : name? b = some s) (hfind : scope.find? s = some q) :
    Unbindable name? (b :: binders) scope := by
  unfold Unbindable
  rw [List.filterMap_cons_some hb]
  exact .inr (.inr ⟨s, List.mem_cons_self, by rw [hfind]; exact Option.some_ne_none q⟩)

/-- Parameters that cannot be bound. -/
theorem bindParameters_fails (ps : List Sexp) (scope : Scope) :
    (bindParameters ps scope).FailsOnly (Unbindable parameterName? ps scope) := by
  induction ps generalizing scope with
  | nil => exact .pure _
  | cons p ps ih =>
    cases p with
    | symbol s =>
      refine .bind (.lift _) fun a t t' ha => ?_
      cases ha
      cases hfind : scope.find? s with
      | some q =>
        simp only [Scope.bind?, hfind]
        exact .throw rfl (.bound rfl hfind)
      | none =>
        simp only [Scope.bind?, hfind]
        exact .bind ((ih _).mono (.cons rfl)) fun _ _ _ _ => .pure _
    | _ => exact .throw rfl (.inl ⟨_, List.mem_cons_self, rfl⟩)

/-- Parts of a recursive binding that cannot be bound. -/
theorem bindNames_fails (whole : Sexp) (bs : List Sexp) (scope : Scope) :
    (bindNames whole bs scope).FailsOnly (Unbindable bindingName? bs scope) := by
  induction bs generalizing scope with
  | nil => exact .pure _
  | cons b bs ih =>
    cases hb : bindingName? b with
    | none =>
      have hthrow : bindNames whole (b :: bs) scope = throw (.malformed whole) := by
        unfold bindNames
        split
        next heq => cases heq
        next heq => cases heq; cases hb
        · rfl
      rw [hthrow]
      exact .throw rfl (.inl ⟨b, List.mem_cons_self, hb⟩)
    | some s =>
      obtain ⟨init, rfl⟩ := eq_of_bindingName? hb
      refine .bind (.lift _) fun a t t' ha => ?_
      cases ha
      cases hfind : scope.find? s with
      | some q =>
        simp only [Scope.bind?, hfind]
        exact .throw rfl (.bound rfl hfind)
      | none =>
        simp only [Scope.bind?, hfind]
        exact (ih _).mono (.cons rfl)

/-- Several expressions fail where one of them does. -/
theorem renameAll_fails {P : Prop} (es : List Sexp) (r : Renaming)
    (h : ∀ e ∈ es, (rename r e).FailsOnly P) : (renameAll r es).FailsOnly P := by
  induction es with
  | nil => exact .pure _
  | cons e es ih =>
    obtain ⟨he, hes⟩ := List.forall_mem_cons.1 h
    unfold renameAll
    exact .bind he fun _ _ _ _ => .bind (ih hes) fun _ _ _ _ => .pure _

/-- The parts of a recursive binding fail where one of the values does. -/
theorem renameBindings_fails {P : Prop} (bs : List Sexp) (r : Renaming)
    (h : ∀ s init, .list [.symbol s, init] ∈ bs → (rename r init).FailsOnly P) :
    (renameBindings r bs).FailsOnly P := by
  induction bs with
  | nil => exact .pure _
  | cons b bs ih =>
    unfold renameBindings
    split
    next s init bs' heq =>
      cases heq
      refine .bind (h s init List.mem_cons_self) fun _ _ _ _ => ?_
      exact .bind (ih fun s init hmem => h s init (List.mem_cons_of_mem _ hmem)) fun _ _ _ _ =>
        .pure _
    · exact .pure _

/-- Renaming a plain list. -/
theorem rename_scopeless {head : Sexp} {args : List Sexp} (h : Scopeless head args) (r : Renaming) :
    rename r (.list (head :: args)) = do
      let head' ← rename r head
      let args' ← renameAll r args
      return .list (head' :: args') := by
  obtain ⟨hquote, hlambda, hletrec⟩ := h
  conv_lhs => unfold rename
  cases hk : Keyword.of? head with
  | none => rfl
  | some k =>
    cases k with
    | quote => grind
    | lambda => grind
    | letrec => grind
    | branch | sequence | assign => rfl

/-- **Renaming fails only on faulty expressions.** -/
theorem rename_fails : ∀ (e : Sexp) (r : Renaming), (rename r e).FailsOnly e.Faulty
  | .list [], _ => .pure _
  | .list (head :: args), r => by
    have ih : ∀ x ∈ head :: args, ∀ r, (rename r x).FailsOnly x.Faulty :=
      fun x hx r => rename_fails x r
    rcases scopeless_or head args with hscopeless | ⟨hk, d, rfl⟩ | ⟨hk, params, bodies, rfl⟩ |
      ⟨hk, bindings, first, rest, rfl⟩
    · have hpart : ∀ x ∈ head :: args, (rename r x).FailsOnly (Faulty (.list (head :: args))) :=
        fun x hx => (ih x hx r).mono fun ⟨part, hreached, hpart⟩ =>
          ⟨part, .element hscopeless hx hreached, hpart⟩
      rw [rename_scopeless hscopeless]
      exact .bind (hpart head List.mem_cons_self) fun _ _ _ _ =>
        .bind (renameAll_fails args r fun x hx => hpart x (List.mem_cons_of_mem head hx))
          fun _ _ _ _ => .pure _
    · unfold rename
      rw [hk]
      exact .pure _
    · have hbody : ∀ x ∈ bodies, ∀ r, (rename r x).FailsOnly
          (Faulty (.list (head :: .list params :: bodies))) := fun x hx r =>
        (ih x (by simp [hx]) r).mono fun ⟨part, hreached, hpart⟩ =>
          ⟨part, .body hk hx hreached, hpart⟩
      unfold rename
      rw [hk]
      refine .bind ((bindParameters_fails params []).mono fun h => ?_) fun a _ _ _ =>
        .bind (renameAll_fails bodies _ fun x hx => hbody x hx _) fun _ _ _ _ => .pure _
      rcases h.of_nil with ⟨p, hp, hnone⟩ | hnodup
      · exact ⟨_, .here _, .parameter hk hp hnone⟩
      · exact ⟨_, .here _, .repeatedParameter hk hnodup⟩
    · have hvalue : ∀ s init, .list [.symbol s, init] ∈ bindings → ∀ r, (rename r init).FailsOnly
          (Faulty (.list (head :: .list bindings :: first :: rest))) := fun s init hmem r =>
        (rename_fails init r).mono fun ⟨part, hreached, hpart⟩ =>
          ⟨part, .value hk hmem hreached, hpart⟩
      have hscope : ∀ x ∈ first :: rest, ∀ r, (rename r x).FailsOnly
          (Faulty (.list (head :: .list bindings :: first :: rest))) := fun x hx r =>
        (ih x (by simp_all) r).mono fun ⟨part, hreached, hpart⟩ =>
          ⟨part, .scope hk hx hreached, hpart⟩
      unfold rename
      rw [hk]
      refine .bind ((bindNames_fails _ bindings []).mono fun h => ?_) fun scope _ _ _ =>
        .bind (renameBindings_fails bindings _ fun s init hmem => hvalue s init hmem _)
          fun _ _ _ _ => .bind (hscope first List.mem_cons_self _) fun _ _ _ _ =>
            .bind (renameAll_fails rest _ fun x hx => hscope x (List.mem_cons_of_mem first hx) _)
              fun _ _ _ _ => .pure _
      rcases h.of_nil with ⟨b, hb, hnone⟩ | hnodup
      · exact ⟨_, .here _, .binding hk hb hnone⟩
      · exact ⟨_, .here _, .repeatedBinding hk hnodup⟩
  | .symbol _, _ => .pure _
  | .absent, _ | .number _, _ | .str _, _ | .bool _, _ | .nil, _ | .dot, _ => .pure _
termination_by e => sizeOf e
decreasing_by
  · have := List.sizeOf_lt_of_mem hx
    simp only [Sexp.list.sizeOf_spec]
    omega
  · subst_vars
    have := List.sizeOf_lt_of_mem hmem
    simp only [Sexp.list.sizeOf_spec, List.cons.sizeOf_spec, Sexp.symbol.sizeOf_spec] at this ⊢
    omega

/-- The elements of several expressions that were renamed were renamed. -/
theorem rename_ok_of_mem {es es' : List Sexp} {r : Renaming} {t t' : NameTable} {x : Sexp}
    (h : (renameAll r es).outcome t = (.ok es', t')) (hx : x ∈ es) :
    ∃ x' t₁ t₂, (rename r x).outcome t₁ = (.ok x', t₂) := by
  induction es generalizing es' t t' with
  | nil => exact absurd hx List.not_mem_nil
  | cons e es ih =>
    obtain ⟨e₁, es₁, t₁, he, hes, _⟩ := renameAll_cons_ok h
    rcases List.mem_cons.1 hx with rfl | hx
    · exact ⟨e₁, t, t₁, he⟩
    · exact ih hes hx

/-- The values of a recursive binding that was renamed were renamed. -/
theorem rename_ok_of_mem_bindings {pairs : List (Text × Sexp)} {bs' : List Sexp} {r : Renaming}
    {t t' : NameTable} {b : Text × Sexp} (h : (renameBindings r
      (pairs.map fun b => .list [.symbol b.1, b.2])).outcome t = (.ok bs', t')) (hb : b ∈ pairs) :
    ∃ x' t₁ t₂, (rename r b.2).outcome t₁ = (.ok x', t₂) := by
  induction pairs generalizing bs' t t' with
  | nil => exact absurd hb List.not_mem_nil
  | cons p pairs ih =>
    rw [List.map_cons] at h
    obtain ⟨init', bs₁, t₁, hinit, hrest, _⟩ := renameBindings_cons_ok h
    rcases List.mem_cons.1 hb with rfl | hb
    · exact ⟨init', t, t₁, hinit⟩
    · exact ih hrest hb

/-- A function that was renamed: its parameters were bound, and its body was renamed. -/
theorem rename_lambda_ok {head e' : Sexp} {params bodies : List Sexp} {r : Renaming}
    {t t' : NameTable} (hk : Keyword.of? head = some .lambda)
    (h : (rename r (.list (head :: .list params :: bodies))).outcome t = (.ok e', t')) :
    ∃ renamed scope t₁ bodies',
      (bindParameters params []).outcome t = (.ok (renamed, scope), t₁) ∧
      (renameAll (scope :: r) bodies).outcome t₁ = (.ok bodies', t') := by
  cases rename_list_cases h with
  | lambda _ hargs hbind hbodies =>
    cases hargs
    exact ⟨_, _, _, _, hbind, hbodies⟩
  | quote hk' | letrec hk' => rw [hk] at hk'; cases hk'
  | elements _ hne => exact absurd rfl (hne hk params bodies)

/-- A recursive binding that was renamed: its names were bound, and its values and its
body were renamed. -/
theorem rename_letrec_ok {head first e' : Sexp} {bindings rest : List Sexp} {r : Renaming}
    {t t' : NameTable} (hk : Keyword.of? head = some .letrec)
    (h : (rename r (.list (head :: .list bindings :: first :: rest))).outcome t = (.ok e', t')) :
    ∃ scope t₁ renamed t₂ first' t₃ rest',
      (bindNames (.list (head :: .list bindings :: first :: rest)) bindings []).outcome t
        = (.ok scope, t₁) ∧
      (renameBindings (scope :: r) bindings).outcome t₁ = (.ok renamed, t₂) ∧
      (rename (scope :: r) first).outcome t₂ = (.ok first', t₃) ∧
      (renameAll (scope :: r) rest).outcome t₃ = (.ok rest', t') := by
  cases rename_list_cases h with
  | letrec _ hargs hbind hrenamed hfirst hrest =>
    cases hargs
    exact ⟨_, _, _, _, _, _, _, hbind, hrenamed, hfirst, hrest⟩
  | quote hk' | lambda hk' => rw [hk] at hk'; cases hk'
  | elements _ _ hne => exact absurd rfl (hne hk bindings first rest)

/-- **All parts of an expression that was renamed were renamed**, each in its scopes. -/
theorem rename_ok_of_reached {e part : Sexp} (hpart : Reached e part) {r : Renaming} {e' : Sexp}
    {t t' : NameTable} (h : (rename r e).outcome t = (.ok e', t')) :
    ∃ r' part' t₁ t₂, (rename r' part).outcome t₁ = (.ok part', t₂) := by
  induction hpart generalizing r e' t t' with
  | here e => exact ⟨r, e', t, t', h⟩
  | body hk hx _ ih =>
    obtain ⟨_, _, _, _, _, hbodies⟩ := rename_lambda_ok hk h
    obtain ⟨x', t₁, t₂, hx'⟩ := rename_ok_of_mem hbodies hx
    exact ih hx'
  | value hk hmem _ ih =>
    obtain ⟨_, _, _, _, _, _, _, hbind, hrenamed, _, _⟩ := rename_letrec_ok hk h
    obtain ⟨pairs, _, rfl, _, _⟩ := bindNames_ok hbind
    obtain ⟨b, hb, heq⟩ := List.mem_map.1 hmem
    cases heq
    obtain ⟨x', t₁, t₂, hx'⟩ := rename_ok_of_mem_bindings hrenamed hb
    exact ih hx'
  | scope hk hx _ ih =>
    obtain ⟨_, _, _, _, _, _, _, _, _, hfirst, hrest⟩ := rename_letrec_ok hk h
    rcases List.mem_cons.1 hx with rfl | hx
    · exact ih hfirst
    · obtain ⟨x', t₁, t₂, hx'⟩ := rename_ok_of_mem hrest hx
      exact ih hx'
  | element hscopeless hx _ ih =>
    rw [rename_scopeless hscopeless] at h
    obtain ⟨head', t₁, hhead, h⟩ := outcome_bind_ok.1 h
    obtain ⟨args', t₂, hargs, h⟩ := outcome_bind_ok.1 h
    rcases List.mem_cons.1 hx with rfl | hx
    · exact ih hhead
    · obtain ⟨x', t₁, t₂, hx'⟩ := rename_ok_of_mem hargs hx
      exact ih hx'

/-- **The binders of a scope that was renamed are in order.** -/
theorem not_misbound_of_rename_ok {e e' : Sexp} {r : Renaming} {t t' : NameTable}
    (h : (rename r e).outcome t = (.ok e', t')) : ¬ Misbound e := by
  have hparams : ∀ {params scope renamed t t'}, (bindParameters params []).outcome t
      = (.ok (renamed, scope), t') → (∀ p ∈ params, parameterName? p ≠ none) ∧
        (params.filterMap parameterName?).Nodup := by
    intro params scope renamed t t' hbind
    obtain ⟨names, names', rfl, -, hbinds, -⟩ := bindParameters_ok hbind
    rw [filterMap_parameterName?]
    exact ⟨by simp [parameterName?], hbinds.nodup⟩
  have hbindings : ∀ {whole bindings scope t t'}, (bindNames whole bindings []).outcome t
      = (.ok scope, t') → (∀ b ∈ bindings, bindingName? b ≠ none) ∧
        (bindings.filterMap bindingName?).Nodup := by
    intro whole bindings scope t t' hbind
    obtain ⟨pairs, names', rfl, hbinds, -⟩ := bindNames_ok hbind
    rw [filterMap_bindingName?]
    refine ⟨fun b hb => ?_, hbinds.nodup⟩
    obtain ⟨p, -, rfl⟩ := List.mem_map.1 hb
    exact Option.some_ne_none p.1
  intro hfault
  cases hfault with
  | parameter hk hp hnone =>
    obtain ⟨_, _, _, _, hbind, _⟩ := rename_lambda_ok hk h
    exact (hparams hbind).1 _ hp hnone
  | repeatedParameter hk hnodup =>
    obtain ⟨_, _, _, _, hbind, _⟩ := rename_lambda_ok hk h
    exact hnodup (hparams hbind).2
  | binding hk hb hnone =>
    obtain ⟨_, _, _, _, _, _, _, hbind, _⟩ := rename_letrec_ok hk h
    exact (hbindings hbind).1 _ hb hnone
  | repeatedBinding hk hnodup =>
    obtain ⟨_, _, _, _, _, _, _, hbind, _⟩ := rename_letrec_ok hk h
    exact hnodup (hbindings hbind).2

end Alpha

/-! ## Renaming a program -/

/-- Outside of all scopes every name is free and keeps its spelling. -/
theorem Tracks.start {known : List Text} {t : NameTable}
    (h : ∀ s ∈ known, (s, programNames) ∈ t.taken) : Tracks [] [] [] known t :=
  ⟨fun _ _ => rfl, fun _ _ _ => rfl, h, fun _ => .inl rfl⟩

/-- Renaming a program is renaming it outside of all scopes, with its symbols reserved. -/
theorem outcome_alphatize (e : Sexp) (t : NameTable) :
    (alphatize e).outcome t
      = (Alpha.rename [] e).outcome (t.reserve programNames (Sexp.symbolsList [e])) :=
  rfl

/-- **Renaming all bound variables** keeps the nameless form. The names that the result
binds are pairwise different, none of them is a symbol of the program, and none was handed
out by the table before. It fails exactly on faulty programs, and says that a form is
malformed. -/
theorem alphatize_nameless {e : Sexp} {t : NameTable} {issued : List (Text × Text)}
    (ht : t.Issued issued) :
    (∀ e' t', (alphatize e).outcome t = (.ok e', t') →
      e'.nameless [] = e.nameless [] ∧ e'.declared.Nodup ∧
        ∀ x ∈ e'.declared, x ∉ e.symbols ∧ (x, programNames) ∉ issued) ∧
    ((∃ err t', (alphatize e).outcome t = (.error err, t')) ↔ e.Faulty) ∧
    ∀ err t', (alphatize e).outcome t = (.error err, t') → err.refusal = .malformed := by
  have hfails := Alpha.rename_fails e []
  have htaken : ∀ s ∈ e.symbols,
      (s, programNames) ∈ (t.reserve programNames (Sexp.symbolsList [e])).taken := by
    intro s hs
    exact NameTable.mem_taken_reserve.2 (.inr ⟨rfl, by simp [hs]⟩)
  rw [outcome_alphatize]
  refine ⟨fun e' t' h => ?_, ⟨fun ⟨err, t', h⟩ => (hfails h).2, fun hfaulty => ?_⟩,
    fun err t' h => (hfails h).1⟩
  · obtain ⟨hsame, hdraws⟩ := Alpha.rename_nameless e.symbols e h (.start htaken) fun _ hs => hs
    refine ⟨hsame, hdraws.nodup, fun x hx => ⟨fun hs => ?_, fun hissued => ?_⟩⟩
    · exact hdraws.fresh x hx (htaken x hs)
    · exact hdraws.fresh x hx ((ht.reserve programNames _).mem_taken hissued)
  · rcases hrun : (Alpha.rename [] e).outcome (t.reserve programNames (Sexp.symbolsList [e])) with
      ⟨err | e', t'⟩
    · exact ⟨err, t', rfl⟩
    · obtain ⟨part, hreached, hmisbound⟩ := hfaulty
      obtain ⟨_, _, _, _, hpart⟩ := Alpha.rename_ok_of_reached hreached hrun
      exact absurd hmisbound (Alpha.not_misbound_of_rename_ok hpart)

/-- The program `(lambda (if) (letrec ((if x)) (if (quote if))))`, where a recursive binding
shadows a parameter with the name of a keyword, from a table that has handed out `if0`. -/
theorem alphatize_nameless_shadowed :
    ∃ e' t', (alphatize (.list [Keyword.lambda.sexp, .list [.ofName "if"],
        .list [Keyword.letrec.sexp, .list [.list [.ofName "if", .ofName "x"]],
          .list [.ofName "if", .list [Keyword.quote.sexp, .ofName "if"]]]])).outcome
        (NameTable.empty.next "if" programNames).2 = (.ok e', t') ∧
      e' = .list [Keyword.lambda.sexp, .list [.ofName "if1"],
        .list [Keyword.letrec.sexp, .list [.list [.ofName "if2", .ofName "x"]],
          .list [.ofName "if2", .list [Keyword.quote.sexp, .ofName "if"]]]] ∧
      e'.nameless [] = .function [none] [.recursive [.value (.free "x")]
        [.list [.bound 0 0, .raw (.list [Keyword.quote.sexp, .ofName "if"])]]] ∧
      e'.declared.Nodup := by
  obtain ⟨e', t', h, rfl⟩ : ∃ e' t', (alphatize (.list [Keyword.lambda.sexp, .list [.ofName "if"],
      .list [Keyword.letrec.sexp, .list [.list [.ofName "if", .ofName "x"]],
        .list [.ofName "if", .list [Keyword.quote.sexp, .ofName "if"]]]])).outcome
      (NameTable.empty.next "if" programNames).2 = (.ok e', t') ∧
      e' = .list [Keyword.lambda.sexp, .list [.ofName "if1"],
        .list [Keyword.letrec.sexp, .list [.list [.ofName "if2", .ofName "x"]],
          .list [.ofName "if2", .list [Keyword.quote.sexp, .ofName "if"]]]] :=
    ⟨_, _, rfl, rfl⟩
  obtain ⟨hsame, hnodup, -⟩ := (alphatize_nameless (.next "if" programNames .empty)).1 _ _ h
  exact ⟨_, t', h, rfl, hsame.trans rfl, hnodup⟩

end PassingStyle
