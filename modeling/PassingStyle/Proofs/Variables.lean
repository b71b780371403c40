import Mathlib.Data.List.Basic
import PassingStyle.Form

/-!
# The variables of a form

A name is *free* in a form if it stands for a variable that the form does not bind
itself; an assignment refers to the name that it assigns. The *scopes* of a form are
the names that its recursive bindings bind around the place where its value becomes
known. The conversion moves the continuation of the form to that place, so these are
the names of the program that a continuation comes to stand under. Functions
and branches have none: their continuation is bound to a variable before.

All names of a form are symbols of the expression that it was made from.
-/

namespace PassingStyle

/-- Texts that count as equal are equal. -/
instance Text.instLawfulBEq : LawfulBEq Text := inferInstance

namespace Sexp

/-- The symbols of several expressions are those of each of them. -/
theorem mem_symbolsList {x : Text} {es : List Sexp} :
    x ∈ symbolsList es ↔ ∃ e ∈ es, x ∈ e.symbols := by
  induction es with
  | nil => simp [symbolsList]
  | cons e es ih => simp [symbolsList, ih]

@[simp] theorem symbols_symbol (x : Text) : (symbol x).symbols = [x] := by
  rw [symbols]

@[simp] theorem symbols_list (es : List Sexp) : (list es).symbols = symbolsList es := by
  rw [symbols]

@[simp] theorem symbolsList_nil : symbolsList [] = [] := rfl

@[simp] theorem symbolsList_cons (e : Sexp) (es : List Sexp) :
    symbolsList (e :: es) = e.symbols ++ symbolsList es := rfl

/-- Names as expressions are their own symbols. -/
theorem symbolsList_map_symbol (names : List Text) :
    symbolsList (names.map symbol) = names := by
  induction names with
  | nil => rfl
  | cons x names ih => rw [List.map_cons, symbolsList_cons, symbols_symbol, ih]; rfl

end Sexp

namespace Form

/-! ## Induction -/

/-- **Induction on forms**, with the hypothesis for every part. -/
@[elab_as_elim]
theorem induction {motive : Form → Prop} (constant : ∀ e, motive (constant e))
    (lambda : ∀ params first rest, motive first → (∀ f ∈ rest, motive f) →
      motive (lambda params first rest))
    (branch : ∀ test yes no, motive test → motive yes → motive no →
      motive (branch test yes no))
    (sequence : ∀ first rest, motive first → (∀ f ∈ rest, motive f) →
      motive (sequence first rest))
    (assign : ∀ name value, motive value → motive (assign name value))
    (letrec : ∀ bindings first rest, (∀ b ∈ bindings, motive b.2) → motive first →
      (∀ f ∈ rest, motive f) → motive (letrec bindings first rest))
    (primitive : ∀ op args, (∀ f ∈ args, motive f) → motive (primitive op args))
    (call : ∀ fn args, motive fn → (∀ f ∈ args, motive f) → motive (call fn args))
    (f : Form) : motive f := by
  have rec' : ∀ g : Form, sizeOf g < sizeOf f → motive g := fun g _ =>
    induction constant lambda branch sequence assign letrec primitive call g
  have mem : ∀ {gs : List Form}, sizeOf gs < sizeOf f → ∀ g ∈ gs, motive g := fun h g hg =>
    rec' g (Nat.lt_trans (List.sizeOf_lt_of_mem hg) h)
  cases f with
  | constant e => exact constant e
  | lambda params first rest =>
    have hsize := Form.lambda.sizeOf_spec params first rest
    exact lambda params first rest (rec' first (by omega)) (mem (by omega))
  | branch test yes no =>
    have hsize := Form.branch.sizeOf_spec test yes no
    exact branch test yes no (rec' test (by omega)) (rec' yes (by omega)) (rec' no (by omega))
  | sequence first rest =>
    have hsize := Form.sequence.sizeOf_spec first rest
    exact sequence first rest (rec' first (by omega)) (mem (by omega))
  | assign name value =>
    have hsize := Form.assign.sizeOf_spec name value
    exact assign name value (rec' value (by omega))
  | letrec bindings first rest =>
    have hsize := Form.letrec.sizeOf_spec bindings first rest
    refine letrec bindings first rest ?_ (rec' first (by omega)) (mem (by omega))
    rintro ⟨x, value⟩ hb
    have hb := List.sizeOf_lt_of_mem hb
    have hpair := Prod.mk.sizeOf_spec x value
    exact rec' value (by omega)
  | primitive op args =>
    have hsize := Form.primitive.sizeOf_spec op args
    exact primitive op args (mem (by omega))
  | call fn args =>
    have hsize := Form.call.sizeOf_spec fn args
    exact call fn args (rec' fn (by omega)) (mem (by omega))
termination_by sizeOf f

/-! ## Free variables -/

mutual

/-- **The free variables of a form**, as often as they occur. -/
def free : Form → List Text
  | constant (.symbol x) => [x]
  | constant _ => []
  | lambda params first rest => (first.free ++ freeAll rest).filter (· ∉ params)
  | branch test yes no => test.free ++ (yes.free ++ no.free)
  | sequence first rest => first.free ++ freeAll rest
  | assign name value => name :: value.free
  | letrec bindings first rest =>
    (freeBindings bindings ++ (first.free ++ freeAll rest)).filter (· ∉ bindings.map Prod.fst)
  | primitive _ args => freeAll args
  | call fn args => fn.free ++ freeAll args

/-- The free variables of several forms. -/
def freeAll : List Form → List Text
  | [] => []
  | f :: fs => f.free ++ freeAll fs

/-- The free variables of the values of bindings. -/
def freeBindings : List (Text × Form) → List Text
  | [] => []
  | b :: bs => b.2.free ++ freeBindings bs

end

/-- A variable is free in several forms if it is in one of them. -/
theorem mem_freeAll {x : Text} {fs : List Form} : x ∈ freeAll fs ↔ ∃ f ∈ fs, x ∈ f.free := by
  induction fs with
  | nil => simp [freeAll]
  | cons f fs ih => simp [freeAll, ih]

/-- A variable is free in the values of bindings if it is in one of them. -/
theorem mem_freeBindings {x : Text} {bs : List (Text × Form)} :
    x ∈ freeBindings bs ↔ ∃ b ∈ bs, x ∈ b.2.free := by
  induction bs with
  | nil => simp [freeBindings]
  | cons b bs ih => simp [freeBindings, ih]

/-! ## Scopes -/

mutual

/-- **The names that are bound around the end of a form** by its recursive
bindings. -/
def scopes : Form → List Text
  | constant _ => []
  | lambda .. => []
  | branch .. => []
  | sequence first rest => first.scopes ++ scopesAll rest
  | assign _ value => value.scopes
  | letrec bindings first rest => bindings.map Prod.fst ++ (first.scopes ++ scopesAll rest)
  | primitive _ args => scopesAll args
  | call fn args => fn.scopes ++ scopesAll args

/-- The names bound around the end of several forms, one after the other. -/
def scopesAll : List Form → List Text
  | [] => []
  | f :: fs => f.scopes ++ scopesAll fs

end

/-- The scopes of several forms are those of each of them. -/
theorem mem_scopesAll {x : Text} {fs : List Form} :
    x ∈ scopesAll fs ↔ ∃ f ∈ fs, x ∈ f.scopes := by
  induction fs with
  | nil => simp [scopesAll]
  | cons f fs ih => simp [scopesAll, ih]

/-- An atomic form binds nothing around its end. -/
theorem scopes_of_isAtomic {f : Form} (h : f.isAtomic = true) : f.scopes = [] := by
  cases f with
  | constant e => rw [scopes]
  | lambda params first rest => rw [scopes]
  | _ => cases h

/-! ## Binders -/

mutual

/-- **The names that a form binds**, once for each place. -/
def binders : Form → List Text
  | constant _ => []
  | lambda params first rest => params ++ (first.binders ++ bindersAll rest)
  | branch test yes no => test.binders ++ (yes.binders ++ no.binders)
  | sequence first rest => first.binders ++ bindersAll rest
  | assign _ value => value.binders
  | letrec bindings first rest =>
    bindings.map Prod.fst ++ (bindersBindings bindings ++ (first.binders ++ bindersAll rest))
  | primitive _ args => bindersAll args
  | call fn args => fn.binders ++ bindersAll args

/-- The names that several forms bind. -/
def bindersAll : List Form → List Text
  | [] => []
  | f :: fs => f.binders ++ bindersAll fs

/-- The names that the values of bindings bind. -/
def bindersBindings : List (Text × Form) → List Text
  | [] => []
  | b :: bs => b.2.binders ++ bindersBindings bs

end

/-- A name is bound in several forms if it is in one of them. -/
theorem mem_bindersAll {x : Text} {fs : List Form} :
    x ∈ bindersAll fs ↔ ∃ f ∈ fs, x ∈ f.binders := by
  induction fs with
  | nil => simp [bindersAll]
  | cons f fs ih => simp [bindersAll, ih]

/-- A name is bound in the values of bindings if it is in one of them. -/
theorem mem_bindersBindings {x : Text} {bs : List (Text × Form)} :
    x ∈ bindersBindings bs ↔ ∃ b ∈ bs, x ∈ b.2.binders := by
  induction bs with
  | nil => simp [bindersBindings]
  | cons b bs ih => simp [bindersBindings, ih]

/-- The values of bindings bind what their forms bind. -/
theorem bindersBindings_eq (bs : List (Text × Form)) :
    bindersBindings bs = bindersAll (bs.map Prod.snd) := by
  induction bs with
  | nil => rfl
  | cons b bs ih => rw [bindersBindings, ih, List.map_cons, bindersAll]

/-- The values of bindings refer to what their forms refer to. -/
theorem freeBindings_eq (bs : List (Text × Form)) :
    freeBindings bs = freeAll (bs.map Prod.snd) := by
  induction bs with
  | nil => rfl
  | cons b bs ih => rw [freeBindings, ih, List.map_cons, freeAll]

/-- The names bound around the end of a form are bound in it. -/
theorem mem_binders_of_mem_scopes {f : Form} {x : Text} (hx : x ∈ f.scopes) : x ∈ f.binders := by
  induction f using induction with
  | sequence first rest ih ihs =>
    simp only [scopes, binders, List.mem_append, mem_scopesAll, mem_bindersAll] at *
    grind
  | assign name value ih =>
    simp only [scopes, binders] at *
    exact ih hx
  | letrec bindings first rest ihb ih ihs =>
    simp only [scopes, binders, List.mem_append, mem_scopesAll, mem_bindersAll] at *
    grind
  | primitive op args ihs =>
    simp only [scopes, binders, mem_scopesAll, mem_bindersAll] at *
    grind
  | call fn args ih ihs =>
    simp only [scopes, binders, List.mem_append, mem_scopesAll, mem_bindersAll] at *
    grind
  | _ =>
    rw [scopes] at hx
    exact absurd hx List.not_mem_nil

/-! ## Clean forms -/

/-- **A clean form** binds no name twice, and none that is also free in it. -/
structure Clean (f : Form) : Prop where
  /-- Every name is bound at one place at most. -/
  nodup : f.binders.Nodup
  /-- No name is both bound and free. -/
  apart : ∀ x ∈ f.binders, x ∉ f.free

/-! ## Symbols -/

/-- **All symbols of a form**, those of the expression that it was made from. -/
def symbols (f : Form) : List Text := f.toSexp.symbols

/-- The symbols of several forms are those of each of them. -/
theorem mem_symbolsList_toSexps {x : Text} {fs : List Form} :
    x ∈ Sexp.symbolsList (toSexps fs) ↔ ∃ f ∈ fs, x ∈ f.symbols := by
  induction fs with
  | nil => simp [toSexps]
  | cons f fs ih => simp [toSexps, symbols, ih]

/-- The symbols of bindings are their names and those of their values. -/
theorem mem_symbolsList_bindingsToSexps {x : Text} {bs : List (Text × Form)} :
    x ∈ Sexp.symbolsList (bindingsToSexps bs) ↔
      x ∈ bs.map Prod.fst ∨ ∃ b ∈ bs, x ∈ b.2.symbols := by
  induction bs with
  | nil => simp [bindingsToSexps]
  | cons b bs ih =>
    rw [bindingsToSexps, Sexp.symbolsList_cons, List.mem_append, ih]
    simp [symbols]
    grind

/-- The symbols of a function are its keyword, its parameters and those of its
body. -/
theorem mem_symbols_lambda {x : Text} {params : List Text} {first : Form} {rest : List Form} :
    x ∈ (lambda params first rest).symbols ↔
      x = Keyword.lambda.name ∨ x ∈ params ∨ ∃ f ∈ first :: rest, x ∈ f.symbols := by
  unfold symbols
  rw [toSexp]
  simp only [Sexp.symbols_list, Sexp.symbolsList_cons, Keyword.sexp, Sexp.symbols_symbol,
    Sexp.symbolsList_map_symbol, List.mem_append, List.mem_singleton, mem_symbolsList_toSexps,
    List.exists_mem_cons_iff, symbols]

theorem mem_symbols_branch {x : Text} {test yes no : Form} :
    x ∈ (branch test yes no).symbols ↔
      x = Keyword.branch.name ∨ x ∈ test.symbols ∨ x ∈ yes.symbols ∨ x ∈ no.symbols := by
  unfold symbols
  rw [toSexp]
  simp [Keyword.sexp]

theorem mem_symbols_sequence {x : Text} {first : Form} {rest : List Form} :
    x ∈ (sequence first rest).symbols ↔
      x = Keyword.sequence.name ∨ ∃ f ∈ first :: rest, x ∈ f.symbols := by
  unfold symbols
  rw [toSexp]
  simp only [Sexp.symbols_list, Sexp.symbolsList_cons, Keyword.sexp, Sexp.symbols_symbol,
    List.mem_append, List.mem_singleton, mem_symbolsList_toSexps, List.exists_mem_cons_iff, symbols]

theorem mem_symbols_assign {x name : Text} {value : Form} :
    x ∈ (assign name value).symbols ↔
      x = Keyword.assign.name ∨ x = name ∨ x ∈ value.symbols := by
  unfold symbols
  rw [toSexp]
  simp [Keyword.sexp]

theorem mem_symbols_letrec {x : Text} {bindings : List (Text × Form)} {first : Form}
    {rest : List Form} :
    x ∈ (letrec bindings first rest).symbols ↔
      x = Keyword.letrec.name ∨ x ∈ bindings.map Prod.fst ∨ (∃ b ∈ bindings, x ∈ b.2.symbols) ∨
        ∃ f ∈ first :: rest, x ∈ f.symbols := by
  unfold symbols
  rw [toSexp]
  simp only [Sexp.symbols_list, Sexp.symbolsList_cons, Keyword.sexp, Sexp.symbols_symbol,
    List.mem_append, List.mem_singleton, mem_symbolsList_toSexps, mem_symbolsList_bindingsToSexps,
    List.exists_mem_cons_iff, symbols, or_assoc]

theorem mem_symbols_primitive {x op : Text} {args : List Form} :
    x ∈ (primitive op args).symbols ↔ x = op ∨ ∃ f ∈ args, x ∈ f.symbols := by
  unfold symbols
  rw [toSexp]
  simp only [Sexp.symbols_list, Sexp.symbolsList_cons, Sexp.symbols_symbol,
    List.mem_append, List.mem_singleton, mem_symbolsList_toSexps, symbols]

theorem mem_symbols_call {x : Text} {fn : Form} {args : List Form} :
    x ∈ (call fn args).symbols ↔ ∃ f ∈ fn :: args, x ∈ f.symbols := by
  unfold symbols
  rw [toSexp]
  simp only [Sexp.symbols_list, Sexp.symbolsList_cons, List.mem_append, mem_symbolsList_toSexps,
    List.exists_mem_cons_iff, symbols]

/-- **Free variables are symbols of the expression.** -/
theorem mem_symbols_of_mem_free {f : Form} {x : Text} (hx : x ∈ f.free) : x ∈ f.symbols := by
  induction f using induction with
  | constant e =>
    cases e with
    | symbol s => simpa [free, symbols, toSexp] using hx
    | _ => simp [free] at hx
  | lambda params first rest ih ihs =>
    simp only [free, List.mem_filter, List.mem_append, mem_freeAll] at hx
    grind [mem_symbols_lambda]
  | branch test yes no ih₁ ih₂ ih₃ =>
    simp only [free, List.mem_append] at hx
    grind [mem_symbols_branch]
  | sequence first rest ih ihs =>
    simp only [free, List.mem_append, mem_freeAll] at hx
    grind [mem_symbols_sequence]
  | assign name value ih =>
    simp only [free, List.mem_cons] at hx
    grind [mem_symbols_assign]
  | letrec bindings first rest ihb ih ihs =>
    simp only [free, List.mem_filter, List.mem_append, mem_freeAll, mem_freeBindings] at hx
    grind [mem_symbols_letrec]
  | primitive op args ihs =>
    simp only [free, mem_freeAll] at hx
    grind [mem_symbols_primitive]
  | call fn args ih ihs =>
    simp only [free, List.mem_append, mem_freeAll] at hx
    grind [mem_symbols_call]

/-- **Bound names are symbols of the expression.** -/
theorem mem_symbols_of_mem_binders {f : Form} {x : Text} (hx : x ∈ f.binders) :
    x ∈ f.symbols := by
  induction f using induction with
  | constant e =>
    rw [binders] at hx
    exact absurd hx List.not_mem_nil
  | lambda params first rest ih ihs =>
    simp only [binders, List.mem_append, mem_bindersAll] at hx
    grind [mem_symbols_lambda]
  | branch test yes no ih₁ ih₂ ih₃ =>
    simp only [binders, List.mem_append] at hx
    grind [mem_symbols_branch]
  | sequence first rest ih ihs =>
    simp only [binders, List.mem_append, mem_bindersAll] at hx
    grind [mem_symbols_sequence]
  | assign name value ih =>
    simp only [binders] at hx
    grind [mem_symbols_assign]
  | letrec bindings first rest ihb ih ihs =>
    simp only [binders, List.mem_append, mem_bindersAll, mem_bindersBindings] at hx
    grind [mem_symbols_letrec]
  | primitive op args ihs =>
    simp only [binders, mem_bindersAll] at hx
    grind [mem_symbols_primitive]
  | call fn args ih ihs =>
    simp only [binders, List.mem_append, mem_bindersAll] at hx
    grind [mem_symbols_call]

end Form

end PassingStyle
