import PassingStyle.Proofs.Renamed

/-!
# Nameless forms

The *nameless form* of an expression says of every variable where it is bound, by the
number of scopes between the variable and its binder and by the binder's place in its
scope; only variables that are free keep their names. Two expressions with the same
nameless form differ in the names of their bound variables and in nothing else.

The scopes are the ones that renaming sees: those of lists that have the shape of a
function or of a recursive binding, and no others. Quoted data is part of the nameless
form as it is. Everything else is a variable where it is a symbol, keywords and the
targets of assignments included. Since renaming looks at keywords without regard to
scopes, a nameless form may have a function whose parameter is called `lambda`, and in
its body lists that are functions nevertheless. It is the digit at the end of a fresh
name that keeps renaming from making a scope where there was none.

`Tracks` is the invariant: the names of the original and their new names are found at
the same places. It is kept under one more scope because the names that are bound there
are new.
-/

namespace PassingStyle

/-! ## Nameless forms -/

/-- **A nameless form.** -/
inductive Nameless where
  /-- A variable that is bound: the scopes in between, and the place in its scope. -/
  | bound (depth place : Nat)
  /-- A variable that is free. -/
  | free (name : Text)
  /-- An expression as it is. -/
  | raw (e : Sexp)
  /-- A function. A parameter is nothing but a place; what cannot be a parameter is kept
  as it is. -/
  | function (params : List (Option Sexp)) (body : List Nameless)
  /-- A recursive binding. -/
  | recursive (bindings body : List Nameless)
  /-- The value that a place of a recursive binding has. -/
  | value (init : Nameless)
  /-- Any other list. -/
  | list (items : List Nameless)
  deriving Repr

namespace Nameless

/-- Where a name is bound: the scopes in between, and the place in its scope. -/
def address? : List (List Text) → Text → Option (Nat × Nat)
  | [], _ => none
  | scope :: scopes, s =>
    match scope.idxOf? s with
    | some place => some (0, place)
    | none => (address? scopes s).map fun (depth, place) => (depth + 1, place)

/-- A variable inside the given scopes. -/
def reference (scopes : List (List Text)) (s : Text) : Nameless :=
  match address? scopes s with
  | some (depth, place) => bound depth place
  | none => free s

end Nameless

namespace Sexp

/-- The name that a parameter binds. -/
def parameterName? : Sexp → Option Text
  | symbol s => some s
  | _ => none

/-- What is left of a parameter without its name. -/
def unnamed : Sexp → Option Sexp
  | symbol _ => none
  | e => some e

/-- The name that a part of a recursive binding binds. -/
def bindingName? : Sexp → Option Text
  | list [symbol s, _] => some s
  | _ => none

mutual

/-- **The nameless form** of an expression inside the given scopes. -/
def nameless (scopes : List (List Text)) : Sexp → Nameless
  | symbol s => .reference scopes s
  | list (head :: args) =>
    let elements : Nameless := .list (nameless scopes head :: namelessAll scopes args)
    match Keyword.of? head with
    | some .quote =>
      match args with
      | [_] => .raw (list (head :: args))
      | _ => elements
    | some .lambda =>
      match args with
      | list params :: bodies =>
        .function (params.map unnamed)
          (namelessAll (params.filterMap parameterName? :: scopes) bodies)
      | _ => elements
    | some .letrec =>
      match args with
      | list bindings :: first :: rest =>
        let inner := bindings.filterMap bindingName? :: scopes
        .recursive (namelessBindings inner bindings)
          (nameless inner first :: namelessAll inner rest)
      | _ => elements
    | _ => elements
  | e => .raw e

/-- The nameless forms of several expressions. -/
def namelessAll (scopes : List (List Text)) : List Sexp → List Nameless
  | [] => []
  | x :: xs => nameless scopes x :: namelessAll scopes xs

/-- The nameless forms of what a recursive binding binds. -/
def namelessBindings (scopes : List (List Text)) : List Sexp → List Nameless
  | [] => []
  | list [symbol _, init] :: bs => .value (nameless scopes init) :: namelessBindings scopes bs
  | b :: bs => .raw b :: namelessBindings scopes bs

end

mutual

/-- **The names that an expression binds**, outside of quoted data. -/
def declared : Sexp → List Text
  | list (head :: args) =>
    let elements := declared head ++ declaredAll args
    match Keyword.of? head with
    | some .quote =>
      match args with
      | [_] => []
      | _ => elements
    | some .lambda =>
      match args with
      | list params :: bodies => params.filterMap parameterName? ++ declaredAll bodies
      | _ => elements
    | some .letrec =>
      match args with
      | list bindings :: first :: rest =>
        bindings.filterMap bindingName?
          ++ (declaredBindings bindings ++ (declared first ++ declaredAll rest))
      | _ => elements
    | _ => elements
  | _ => []

/-- The names that several expressions bind. -/
def declaredAll : List Sexp → List Text
  | [] => []
  | x :: xs => declared x ++ declaredAll xs

/-- The names that the values of a recursive binding bind. -/
def declaredBindings : List Sexp → List Text
  | [] => []
  | list [symbol _, init] :: bs => declared init ++ declaredBindings bs
  | _ :: bs => declaredBindings bs

end

/-- **A plain list**: neither quoted data nor a scope. -/
structure Scopeless (head : Sexp) (args : List Sexp) : Prop where
  /-- It has not the shape of quoted data. -/
  quote : Keyword.of? head = some .quote → ∀ d, args ≠ [d]
  /-- It has not the shape of a function. -/
  lambda : Keyword.of? head = some .lambda → ∀ ps bodies, args ≠ list ps :: bodies
  /-- It has not the shape of a recursive binding. -/
  letrec : Keyword.of? head = some .letrec → ∀ bs first rest, args ≠ list bs :: first :: rest

/-- A list that is not plain is quoted data, a function or a recursive binding. -/
theorem scopeless_or (head : Sexp) (args : List Sexp) : Scopeless head args ∨
    (Keyword.of? head = some .quote ∧ ∃ d, args = [d]) ∨
    (Keyword.of? head = some .lambda ∧ ∃ ps bodies, args = list ps :: bodies) ∨
    (Keyword.of? head = some .letrec ∧ ∃ bs first rest, args = list bs :: first :: rest) := by
  by_cases h : Scopeless head args
  · exact .inl h
  · right
    by_contra hne
    refine h ⟨fun hk d hd => hne ?_, fun hk ps bodies hps => hne ?_,
      fun hk bs first rest hbs => hne ?_⟩
    · exact .inl ⟨hk, d, hd⟩
    · exact .inr (.inl ⟨hk, ps, bodies, hps⟩)
    · exact .inr (.inr ⟨hk, bs, first, rest, hbs⟩)

section Equations

variable {head first : Sexp} {args bodies rest params bindings : List Sexp}

/-- The nameless form of a function. -/
theorem nameless_lambda (h : Keyword.of? head = some .lambda) (scopes : List (List Text)) :
    nameless scopes (list (head :: list params :: bodies))
      = .function (params.map unnamed)
        (namelessAll (params.filterMap parameterName? :: scopes) bodies) := by
  unfold nameless
  rw [h]

/-- The nameless form of a recursive binding. -/
theorem nameless_letrec (h : Keyword.of? head = some .letrec) (scopes : List (List Text)) :
    nameless scopes (list (head :: list bindings :: first :: rest))
      = .recursive (namelessBindings (bindings.filterMap bindingName? :: scopes) bindings)
        (namelessAll (bindings.filterMap bindingName? :: scopes) (first :: rest)) := by
  unfold nameless
  rw [h]
  rfl

/-- The nameless form of a plain list. -/
theorem Scopeless.nameless_eq (h : Scopeless head args) (scopes : List (List Text)) :
    nameless scopes (list (head :: args)) = .list (namelessAll scopes (head :: args)) := by
  obtain ⟨hquote, hlambda, hletrec⟩ := h
  unfold nameless
  cases hk : Keyword.of? head with
  | none => rfl
  | some k =>
    cases k with
    | quote => grind [namelessAll]
    | lambda => grind [namelessAll]
    | letrec => grind [namelessAll]
    | branch | sequence | assign => rfl

/-- The names that a function binds. -/
theorem declared_lambda (h : Keyword.of? head = some .lambda) :
    declared (list (head :: list params :: bodies))
      = params.filterMap parameterName? ++ declaredAll bodies := by
  unfold declared
  rw [h]

/-- The names that a recursive binding binds. -/
theorem declared_letrec (h : Keyword.of? head = some .letrec) :
    declared (list (head :: list bindings :: first :: rest))
      = bindings.filterMap bindingName?
        ++ (declaredBindings bindings ++ declaredAll (first :: rest)) := by
  unfold declared
  rw [h]
  rfl

/-- The names that a plain list binds. -/
theorem Scopeless.declared_eq (h : Scopeless head args) :
    declared (list (head :: args)) = declaredAll (head :: args) := by
  obtain ⟨hquote, hlambda, hletrec⟩ := h
  unfold declared
  cases hk : Keyword.of? head with
  | none => rfl
  | some k =>
    cases k with
    | quote => grind [declaredAll]
    | lambda => grind [declaredAll]
    | letrec => grind [declaredAll]
    | branch | sequence | assign => rfl

end Equations

/-- The names of parameters that are symbols. -/
theorem filterMap_parameterName? (names : List Text) :
    (names.map symbol).filterMap parameterName? = names := by
  simp [List.filterMap_map, Function.comp_def, parameterName?]

/-- Parameters that are symbols are nothing but places. -/
theorem map_unnamed (names : List Text) :
    (names.map symbol).map unnamed = List.replicate names.length none := by
  simp [Function.comp_def, unnamed]

/-- The names of bindings in order. -/
theorem filterMap_bindingName? (pairs : List (Text × Sexp)) :
    (pairs.map fun b => list [symbol b.1, b.2]).filterMap bindingName? = pairs.map Prod.fst := by
  simp [List.filterMap_map, Function.comp_def, bindingName?]

/-- A part of a recursive binding that binds a name. -/
theorem eq_of_bindingName? {b : Sexp} {s : Text} (h : bindingName? b = some s) :
    ∃ init, b = list [symbol s, init] := by
  unfold bindingName? at h
  split at h
  · cases h
    exact ⟨_, rfl⟩
  · cases h

end Sexp

/-! ## The invariant -/

namespace Nameless

/-- A name that the innermost scope binds. -/
theorem address?_cons_of_mem {scope : List Text} {s : Text} (h : s ∈ scope)
    (scopes : List (List Text)) :
    address? (scope :: scopes) s = (scope.idxOf? s).map (0, ·) := by
  unfold address?
  cases hplace : scope.idxOf? s with
  | none => exact absurd h (List.idxOf?_eq_none_iff.1 hplace)
  | some place => rfl

/-- A name that the innermost scope does not bind. -/
theorem address?_cons_of_not_mem {scope : List Text} {s : Text} (h : s ∉ scope)
    (scopes : List (List Text)) :
    address? (scope :: scopes) s
      = (address? scopes s).map fun (depth, place) => (depth + 1, place) := by
  rw [address?, List.idxOf?_eq_none_iff.2 h]

/-- Different names in the place of names stand at the same places. -/
theorem idxOf?_map {f : Text → Text} {scope : List Text} {s : Text} (hs : s ∈ scope)
    (hnodup : (scope.map f).Nodup) : (scope.map f).idxOf? (f s) = scope.idxOf? s := by
  induction scope with
  | nil => exact absurd hs List.not_mem_nil
  | cons x scope ih =>
    obtain ⟨hx, hnodup⟩ := List.nodup_cons.1 hnodup
    rw [List.map_cons, List.idxOf?_cons, List.idxOf?_cons]
    by_cases hxs : x = s
    · simp [hxs]
    · have hin : s ∈ scope := List.mem_of_ne_of_mem (Ne.symm hxs) hs
      have hne : f x ≠ f s := fun h => hx (h ▸ List.mem_map_of_mem hin)
      simp [hxs, hne, ih hin hnodup]

end Nameless

open Nameless

/-- **A renaming tracks the scopes**: the names of an original program, all of which are
known, are called inside the scopes `news` by names that stand where the originals stand
inside the scopes `olds`, and all these names are taken. -/
structure Tracks (r : Renaming) (olds news : List (List Text)) (known : List Text)
    (t : NameTable) : Prop where
  /-- Bound names stand at the same places. -/
  address : ∀ s ∈ known, address? news (r.apply s) = address? olds s
  /-- Free names keep their spelling. -/
  free : ∀ s ∈ known, address? olds s = none → r.apply s = s
  /-- No name can be drawn again. -/
  taken : ∀ s ∈ known, (r.apply s, programNames) ∈ t.taken
  /-- New names end in a digit. -/
  numbered : r.Numbered

namespace Tracks

variable {r : Renaming} {olds news : List (List Text)} {known : List Text} {t t' : NameTable}

/-- Drawing names does not hurt. -/
theorem mono (h : Tracks r olds news known t) {names : List Text} (hd : Draws t names t') :
    Tracks r olds news known t' :=
  { h with taken := fun s hs => hd.taken_subset (h.taken s hs) }

/-- **One more scope**, whose names were drawn. -/
theorem enter (h : Tracks r olds news known t) {ps qs : List Text} {scope : Scope}
    (hbinds : Scope.Binds [] ps qs scope) (hd : Draws t qs t') :
    Tracks (scope :: r) (ps :: olds) (qs :: news) known t' := by
  have hqs : ps.map (Renaming.apply (scope :: r)) = qs := hbinds.map_apply r
  have hnew : ∀ s ∈ known, r.apply s ∉ qs := fun s hs hmem => hd.fresh _ hmem (h.taken s hs)
  refine ⟨?_, ?_, ?_, h.numbered.cons hbinds hd.numbered⟩
  · intro s hs
    by_cases hps : s ∈ ps
    · rw [address?_cons_of_mem (hbinds.apply_mem r hps), address?_cons_of_mem hps, ← hqs,
        idxOf?_map hps (hqs.symm ▸ hd.nodup)]
    · rw [hbinds.apply_of_not_mem r hps, address?_cons_of_not_mem (hnew s hs),
        address?_cons_of_not_mem hps, h.address s hs]
  · intro s hs haddress
    by_cases hps : s ∈ ps
    · rw [address?_cons_of_mem hps, Option.map_eq_none_iff] at haddress
      exact absurd hps (List.idxOf?_eq_none_iff.1 haddress)
    · rw [address?_cons_of_not_mem hps, Option.map_eq_none_iff] at haddress
      rw [hbinds.apply_of_not_mem r hps]
      exact h.free s hs haddress
  · intro s hs
    by_cases hps : s ∈ ps
    · exact hd.mem_taken (hbinds.apply_mem r hps)
    · rw [hbinds.apply_of_not_mem r hps]
      exact hd.taken_subset (h.taken s hs)

/-- A variable refers to the same place under its new name. -/
theorem reference_eq (h : Tracks r olds news known t) {s : Text} (hs : s ∈ known) :
    reference news (r.apply s) = reference olds s := by
  unfold reference
  rw [h.address s hs]
  cases haddress : address? olds s with
  | none => rw [h.free s hs haddress]
  | some a => rfl

end Tracks

/-! ## Renaming keeps the nameless form -/

namespace Alpha

open Sexp FreshExcept

variable {r : Renaming} {olds news : List (List Text)} {known : List Text}

/-- **Renaming makes no scope** where there was none. -/
theorem scopeless_of_rename {head head' : Sexp} {args args' : List Sexp} {t t₁ t₂ t' : NameTable}
    (hr : r.Numbered) (h : Scopeless head args)
    (hhead : (rename r head).outcome t = (.ok head', t₁))
    (hargs : (renameAll r args).outcome t₂ = (.ok args', t')) : Scopeless head' args' := by
  have hkeyword : ∀ {k : Keyword}, Keyword.of? head' = some k → Keyword.of? head = some k := by
    intro k hk
    obtain ⟨s, rfl, hs⟩ := (rename_shape hhead).2 k.name (Keyword.eq_sexp_of_of? hk)
    rw [Keyword.eq_sexp_of_of? hk, Keyword.sexp, hs] at hk
    rw [hr.eq_of_apply hk] at hk
    exact hk
  have hshape := renameAll_shape hargs
  have hlist : ∀ {x : Sexp} {ps : List Sexp}, Sexp.isList (.list ps) = x.isList →
      ∃ qs, x = .list qs := fun hx => eq_list_of_isList hx.symm
  refine ⟨fun hk d hd => ?_, fun hk ps bodies hps => ?_, fun hk bs first rest hbs => ?_⟩
  · subst hd
    obtain ⟨x, rfl⟩ : ∃ x, args = [x] := by
      rw [← List.length_eq_one_iff]
      simpa using (congrArg List.length hshape).symm
    exact h.quote (hkeyword hk) x rfl
  · subst hps
    cases args with
    | nil => cases hshape
    | cons x xs =>
      obtain ⟨qs, rfl⟩ := hlist (List.cons.inj hshape).1
      exact h.lambda (hkeyword hk) qs xs rfl
  · subst hbs
    cases args with
    | nil => cases hshape
    | cons x args =>
      obtain ⟨qs, rfl⟩ := hlist (List.cons.inj hshape).1
      cases args with
      | nil => cases (List.cons.inj hshape).2
      | cons y xs => exact h.letrec (hkeyword hk) qs y xs rfl

/-- **The expression keeps its nameless form** when it is renamed, and the names that are
drawn for it are those that the result binds. -/
def Keeps (known : List Text) (e : Sexp) : Prop :=
  ∀ ⦃r : Renaming⦄ ⦃olds news : List (List Text)⦄ ⦃e' : Sexp⦄ ⦃t t' : NameTable⦄,
    (rename r e).outcome t = (.ok e', t') → Tracks r olds news known t →
    (∀ s ∈ e.symbols, s ∈ known) →
    e'.nameless news = e.nameless olds ∧ Draws t e'.declared t'

/-- Several expressions keep their nameless forms. -/
theorem renameAll_nameless {es es' : List Sexp} {t t' : NameTable}
    (hes : ∀ e ∈ es, Keeps known e) (h : (renameAll r es).outcome t = (.ok es', t'))
    (htracks : Tracks r olds news known t) (hknown : ∀ e ∈ es, ∀ s ∈ e.symbols, s ∈ known) :
    namelessAll news es' = namelessAll olds es ∧ Draws t (declaredAll es') t' := by
  induction es generalizing es' t with
  | nil =>
    cases h
    exact ⟨rfl, Draws.nil _⟩
  | cons e es ih =>
    obtain ⟨e₁, es₁, t₁, he, hrest, rfl⟩ := renameAll_cons_ok h
    obtain ⟨hkeeps, hes⟩ := List.forall_mem_cons.1 hes
    obtain ⟨hsymbols, hknown⟩ := List.forall_mem_cons.1 hknown
    obtain ⟨hsame, hdraws⟩ := hkeeps he htracks hsymbols
    obtain ⟨hsameRest, hdrawsRest⟩ := ih hes hrest (htracks.mono hdraws) hknown
    rw [namelessAll, namelessAll, hsame, hsameRest]
    exact ⟨rfl, hdraws.append hdrawsRest⟩

/-- The values of a recursive binding keep their nameless forms, and its names are called
as the renaming says. -/
theorem renameBindings_nameless {pairs : List (Text × Sexp)} {bs' : List Sexp}
    {t t' : NameTable} (hpairs : ∀ b ∈ pairs, Keeps known b.2)
    (h : (renameBindings r (pairs.map fun b => .list [.symbol b.1, b.2])).outcome t = (.ok bs', t'))
    (htracks : Tracks r olds news known t)
    (hknown : ∀ b ∈ pairs, ∀ s ∈ b.2.symbols, s ∈ known) :
    bs'.filterMap bindingName? = (pairs.map Prod.fst).map r.apply ∧
      namelessBindings news bs'
        = namelessBindings olds (pairs.map fun b => .list [.symbol b.1, b.2]) ∧
      Draws t (declaredBindings bs') t' := by
  induction pairs generalizing bs' t with
  | nil =>
    cases h
    exact ⟨rfl, rfl, Draws.nil _⟩
  | cons b pairs ih =>
    rw [List.map_cons] at h
    obtain ⟨init', bs₁, t₁, hinit, hrest, rfl⟩ := renameBindings_cons_ok h
    obtain ⟨hkeeps, hpairs⟩ := List.forall_mem_cons.1 hpairs
    obtain ⟨hsymbols, hknown⟩ := List.forall_mem_cons.1 hknown
    obtain ⟨hsame, hdraws⟩ := hkeeps hinit htracks hsymbols
    obtain ⟨hnames, hsameRest, hdrawsRest⟩ := ih hpairs hrest (htracks.mono hdraws) hknown
    refine ⟨?_, ?_, hdraws.append hdrawsRest⟩
    · simp [bindingName?, hnames]
    · rw [List.map_cons, namelessBindings, namelessBindings, hsame, hsameRest]

/-- A function keeps its nameless form. -/
theorem lambda_nameless {head : Sexp} {params renamed bodies bodies' : List Sexp} {scope : Scope}
    {t t₁ t' : NameTable} (hk : Keyword.of? head = some .lambda)
    (hbind : (bindParameters params []).outcome t = (.ok (renamed, scope), t₁))
    (hbodies : (renameAll (scope :: r) bodies).outcome t₁ = (.ok bodies', t'))
    (hkeeps : ∀ e ∈ bodies, Keeps known e) (htracks : Tracks r olds news known t)
    (hknown : ∀ e ∈ bodies, ∀ s ∈ e.symbols, s ∈ known) :
    nameless news (.list (head :: .list renamed :: bodies'))
        = nameless olds (.list (head :: .list params :: bodies)) ∧
      Draws t (declared (.list (head :: .list renamed :: bodies'))) t' := by
  obtain ⟨names, names', rfl, rfl, hbinds, hdraws⟩ := bindParameters_ok hbind
  obtain ⟨hsame, hdrawsBody⟩ := renameAll_nameless hkeeps hbodies (htracks.enter hbinds hdraws)
    hknown
  rw [nameless_lambda hk, nameless_lambda hk, declared_lambda hk, map_unnamed, map_unnamed,
    filterMap_parameterName?, filterMap_parameterName?, hbinds.length_eq, hsame]
  exact ⟨rfl, hdraws.append hdrawsBody⟩

/-- A recursive binding keeps its nameless form. -/
theorem letrec_nameless {head whole first first' : Sexp} {bindings renamed rest rest' : List Sexp}
    {scope : Scope} {t t₁ t₂ t₃ t' : NameTable} (hk : Keyword.of? head = some .letrec)
    (hbind : (bindNames whole bindings []).outcome t = (.ok scope, t₁))
    (hrenamed : (renameBindings (scope :: r) bindings).outcome t₁ = (.ok renamed, t₂))
    (hfirst : (rename (scope :: r) first).outcome t₂ = (.ok first', t₃))
    (hrest : (renameAll (scope :: r) rest).outcome t₃ = (.ok rest', t'))
    (hvalues : ∀ s init, .list [.symbol s, init] ∈ bindings → Keeps known init)
    (hbody : ∀ e ∈ first :: rest, Keeps known e) (htracks : Tracks r olds news known t)
    (hknown : ∀ s ∈ symbolsList (.list bindings :: first :: rest), s ∈ known) :
    nameless news (.list (head :: .list renamed :: first' :: rest'))
        = nameless olds (.list (head :: .list bindings :: first :: rest)) ∧
      Draws t (declared (.list (head :: .list renamed :: first' :: rest'))) t' := by
  obtain ⟨pairs, names', rfl, hbinds, hdraws⟩ := bindNames_ok hbind
  have hpair : ∀ b ∈ pairs, Sexp.list [.symbol b.1, b.2]
      ∈ pairs.map fun b => .list [.symbol b.1, b.2] := fun b hb => List.mem_map_of_mem hb
  obtain ⟨hkeepsFirst, hkeepsRest⟩ := List.forall_mem_cons.1 hbody
  have htracks' := htracks.enter hbinds hdraws
  obtain ⟨hbound, hsameValues, hdrawsValues⟩ := renameBindings_nameless
    (fun b hb => hvalues b.1 b.2 (hpair b hb)) hrenamed htracks' fun b hb s hs =>
      hknown s (by
        rw [symbolsList_cons, symbols_list, List.mem_append]
        exact .inl (mem_symbolsList.2 ⟨_, hpair b hb, by simp [hs]⟩))
  have htracks' := htracks'.mono hdrawsValues
  obtain ⟨hsame, hdrawsFirst⟩ := hkeepsFirst hfirst htracks' fun s hs =>
    hknown s (by simp [hs])
  obtain ⟨hsameRest, hdrawsRest⟩ := renameAll_nameless hkeepsRest hrest (htracks'.mono hdrawsFirst)
    fun e he s hs => hknown s (by simp [mem_symbolsList.2 ⟨e, he, hs⟩])
  rw [hbinds.map_apply r] at hbound
  rw [nameless_letrec hk, nameless_letrec hk, declared_letrec hk, filterMap_bindingName?, hbound,
    hsameValues, namelessAll, namelessAll, hsame, hsameRest]
  exact ⟨rfl, hdraws.append (hdrawsValues.append (hdrawsFirst.append hdrawsRest))⟩

/-- **Renaming keeps the nameless form.** -/
theorem rename_nameless (known : List Text) : ∀ e : Sexp, Keeps known e
  | .list [] => by
    intro _ _ _ _ _ _ h _ _
    cases h
    exact ⟨rfl, Draws.nil _⟩
  | .list (head :: args) => by
    intro r olds news e' t t' h htracks hknown
    have ih : ∀ x ∈ head :: args, Keeps known x := fun x hx => rename_nameless known x
    have hargs : ∀ e ∈ head :: args, ∀ s ∈ e.symbols, s ∈ known := fun e he s hs =>
      hknown s (mem_symbolsList.2 ⟨e, he, hs⟩)
    cases rename_list_cases h with
    | quote hk hd =>
      subst hd
      refine ⟨by simp only [nameless, hk], ?_⟩
      simp only [declared, hk]
      exact Draws.nil _
    | lambda hk hd hbind hbodies =>
      subst hd
      exact lambda_nameless hk hbind hbodies (fun x hx => ih x (by simp [hx])) htracks
        fun e he => hargs e (by simp [he])
    | letrec hk hd hbind hrenamed hfirst hrest =>
      subst hd
      exact letrec_nameless hk hbind hrenamed hfirst hrest
        (fun s init hmem => rename_nameless known init) (fun x hx => ih x (by simp_all)) htracks
        fun s hs => hknown s (by simp_all)
    | elements hquote hlambda hletrec hhead hrest =>
      have hscopeless : Scopeless head args := ⟨hquote, hlambda, hletrec⟩
      have hscopeless' := scopeless_of_rename htracks.numbered hscopeless hhead hrest
      obtain ⟨hsame, hdraws⟩ := ih head (by simp) hhead htracks (hargs head (by simp))
      obtain ⟨hsameArgs, hdrawsArgs⟩ := renameAll_nameless (fun x hx => ih x (by simp [hx])) hrest
        (htracks.mono hdraws) fun e he => hargs e (by simp [he])
      rw [hscopeless.nameless_eq, hscopeless'.nameless_eq, hscopeless'.declared_eq,
        namelessAll, namelessAll, hsame, hsameArgs]
      exact ⟨rfl, hdraws.append hdrawsArgs⟩
  | .symbol s => by
    intro _ _ _ _ _ _ h htracks hknown
    cases h
    exact ⟨htracks.reference_eq (hknown s (by simp)), Draws.nil _⟩
  | .absent | .number _ | .str _ | .bool _ | .nil | .dot => by
    intro _ _ _ _ _ _ h _ _
    cases h
    exact ⟨rfl, Draws.nil _⟩
termination_by e => sizeOf e
decreasing_by
  · have := List.sizeOf_lt_of_mem hx
    simp only [Sexp.list.sizeOf_spec]
    omega
  · subst_vars
    have := List.sizeOf_lt_of_mem hmem
    simp only [Sexp.list.sizeOf_spec, List.cons.sizeOf_spec, Sexp.symbol.sizeOf_spec] at this ⊢
    omega

end Alpha

end PassingStyle
