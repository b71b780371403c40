import PassingStyle.Pattern
import PassingStyle.Proofs.CoreGrammar

/-!
# Analysis with its guards

Analysis cannot go wrong here, because a form has the shape that conversion needs: bodies are
not empty, and names are symbols. This file drops these promises. A *loose* form may have an
empty body, or be no form at all, and it comes from taking expressions apart by patterns. What
a pattern calls by a name has to be there, and be a list where a list is needed; the forms of
a branch are found by their places. None of that is known beforehand, and whatever is missing
makes the analysis go wrong, which is not the same as a refusal.

It never goes wrong. One step follows the patterns, keyword by keyword, and gives what analysis
gives if the parts of the expression do; so by induction does the whole, whose calls are nested
no deeper than the expression is large.
-/

namespace PassingStyle

open Text

/-! ## Loose forms -/

/-- **A loose form**, about which nothing is promised. -/
inductive Loose where
  /-- A variable, a literal or quoted data. -/
  | constant (value : Sexp)
  /-- A function. -/
  | lambda (params : List Text) (body : List Loose)
  /-- A branch. -/
  | branch (test yes no : Loose)
  /-- A sequence. -/
  | sequence (body : List Loose)
  /-- An assignment. -/
  | assign (name : Text) (value : Loose)
  /-- A recursive binding; a body of several forms is a sequence. -/
  | letrec (bindings : List (Text × Loose)) (body : Loose)
  /-- A call of a primitive. -/
  | primitive (op : Text) (args : List Loose)
  /-- A call of any other function. -/
  | call (fn : Loose) (args : List Loose)
  /-- No form at all. -/
  | missing

/-- The form is a constant or a function. -/
def Loose.isAtomic : Loose → Bool
  | constant _ => true
  | lambda .. => true
  | _ => false

namespace Form

mutual

/-- **A form without its promises.** -/
def loosen : Form → Loose
  | constant e => .constant e
  | lambda params first rest => .lambda params (first.loosen :: loosenAll rest)
  | branch test yes no => .branch test.loosen yes.loosen no.loosen
  | sequence first rest => .sequence (first.loosen :: loosenAll rest)
  | assign name value => .assign name value.loosen
  | letrec bindings first [] => .letrec (loosenBindings bindings) first.loosen
  | letrec bindings first (next :: rest) =>
    .letrec (loosenBindings bindings) (.sequence (first.loosen :: next.loosen :: loosenAll rest))
  | primitive op args => .primitive op (loosenAll args)
  | call fn args => .call fn.loosen (loosenAll args)

/-- Several forms without their promises. -/
def loosenAll : List Form → List Loose
  | [] => []
  | f :: fs => f.loosen :: loosenAll fs

/-- Bindings without their promises. -/
def loosenBindings : List (Text × Form) → List (Text × Loose)
  | [] => []
  | (name, init) :: bs => (name, init.loosen) :: loosenBindings bs

end

/-- What is atomic stays so. -/
theorem isAtomic_loosen (f : Form) : f.loosen.isAtomic = f.isAtomic := by
  cases f with
  | letrec bindings first rest => cases rest <;> rfl
  | _ => rfl

end Form

/-! ## Guarded analysis -/

/-- **An analysis that may go wrong**, apart from refusing an expression. -/
abbrev Analysis := ExceptT FormError Option

namespace Analysis

/-- A step that goes wrong. -/
def wrong {α : Type} : Analysis α :=
  ExceptT.mk none

/-- **A step that does not go wrong.** -/
def checked {α : Type} (x : Except FormError α) : Analysis α :=
  ExceptT.mk (some x)

/-- Matching goes wrong on a pattern that is none. -/
def matched (p : Pattern) (e : Sexp) : Analysis (Option Bindings) :=
  match p.run e with
  | .ok b => pure b
  | .error _ => wrong

/-- The part of a match that a name stands for. -/
def part (b : Bindings) (name : Text) : Sexp :=
  (b.lookup name).getD .absent

/-- A part that has to be a list. -/
def listPart (b : Bindings) (name : Text) : Analysis (List Sexp) :=
  match part b name with
  | .list xs => pure xs
  | _ => wrong

/-- The form at a place, which has to be there. -/
def item (forms : List Loose) (n : Nat) : Analysis Loose :=
  match forms[n]? with
  | some f => pure f
  | none => wrong

/-- Quoted data. -/
def quotePattern : Pattern := .seq [.literal Keyword.quote.sexp, .wildcard]

/-- A function: a list of parameters, and the rest is its body. -/
def lambdaPattern : Pattern :=
  .seq [.literal Keyword.lambda.sexp, .seq [.rest "params"], .rest "body"]

/-- A branch. -/
def branchPattern : Pattern :=
  .seq [.literal Keyword.branch.sexp, .capture "test", .capture "then", .capture "else"]

/-- A sequence. -/
def sequencePattern : Pattern := .seq [.literal Keyword.sequence.sexp, .rest "body"]

/-- An assignment. -/
def assignPattern : Pattern :=
  .seq [.literal Keyword.assign.sexp, .capture "name", .capture "value"]

/-- A recursive binding: a list of bindings, the first form of the body and the others. -/
def letrecPattern : Pattern :=
  .seq [.literal Keyword.letrec.sexp, .seq [.rest "bindings"], .capture "body", .rest "more"]

/-- A part of a recursive binding. -/
def bindingPattern : Pattern := .seq [.capture "name", .capture "init"]

/-- A call. -/
def callPattern : Pattern := .seq [.capture "fn", .rest "args"]

/-- A part of the recursive binding `whole`. -/
def binding (self : Sexp → Analysis Loose) (whole b : Sexp) : Analysis (Text × Loose) := do
  match ← matched bindingPattern b with
  | none => throw (.malformed whole)
  | some parts =>
    match part parts "name" with
    | .symbol name =>
      let init ← self (part parts "init")
      if !init.isAtomic then throw (.initializer (part parts "init"))
      return (name, init)
    | _ => throw (.malformed whole)

/-- A call of anything but a keyword. -/
def call (self : Sexp → Analysis Loose) (e : Sexp) : Analysis Loose := do
  let parts := (← matched callPattern e).getD []
  let fn ← self (part parts "fn")
  let args ← listPart parts "args"
  return .call fn (← args.mapM self)

/-- **One step of a guarded analysis**, which calls `self` for the parts of an expression. -/
def step (isPrimitive : Text → Bool) (self : Sexp → Analysis Loose) (e : Sexp) :
    Analysis Loose :=
  match e.head? with
  | none => if e.isList then throw (.unsupported e) else return .constant e
  | some head =>
    match Keyword.of? head with
    | some .quote => do
      match ← matched quotePattern e with
      | none => throw (.malformed e)
      | some _ => return .constant e
    | some .lambda => do
      match ← matched lambdaPattern e with
      | none => throw (.malformed e)
      | some parts =>
        let names ← checked (Form.parameters e (← listPart parts "params"))
        let body ← listPart parts "body"
        if body.isEmpty then throw (.malformed e)
        return .lambda names (← body.mapM self)
    | some .branch => do
      match ← matched branchPattern e with
      | none => throw (.malformed e)
      | some parts =>
        let forms ← [part parts "test", part parts "then", part parts "else"].mapM self
        return .branch (← item forms 0) (← item forms 1) (← item forms 2)
    | some .sequence => do
      match ← matched sequencePattern e with
      | none => throw (.malformed e)
      | some parts =>
        let body ← listPart parts "body"
        if body.isEmpty then throw (.malformed e)
        return .sequence (← body.mapM self)
    | some .assign => do
      match ← matched assignPattern e with
      | none => throw (.malformed e)
      | some parts =>
        match part parts "name" with
        | .symbol name => return .assign name (← self (part parts "value"))
        | _ => throw (.malformed e)
    | some .letrec => do
      match ← matched letrecPattern e with
      | none => throw (.malformed e)
      | some parts =>
        let bindings ← (← listPart parts "bindings").mapM (binding self e)
        let more ← listPart parts "more"
        if more.isEmpty then
          return .letrec bindings (← self (part parts "body"))
        else
          return .letrec bindings (.sequence (← (part parts "body" :: more).mapM self))
    | none =>
      match head with
      | .symbol op =>
        if isPrimitive op then do
          let args ← listPart ((← matched callPattern e).getD []) "args"
          return .primitive op (← args.mapM self)
        else call self e
      | _ => call self e

/-- **A guarded analysis** whose calls are nested at most `depth` deep. -/
def run (isPrimitive : Text → Bool) : Nat → Sexp → Analysis Loose
  | 0, _ => wrong
  | depth + 1, e => step isPrimitive (run isPrimitive depth) e

/-! ## What the patterns match -/

section

-- matching does not compute by itself, so its equations are needed; they are made once, here
attribute [local simp] Pattern.bind Pattern.bindSeq

/-- A list that has the shape of a function. -/
theorem matched_lambda (params bodies : List Sexp) :
    matched lambdaPattern (.list (Keyword.lambda.sexp :: .list params :: bodies))
      = pure (some [(ofString "body", .list bodies), (ofString "params", .list params)]) := by
  simp only [matched, lambdaPattern, Pattern.run, Pattern.bind, Pattern.bindSeq]
  rfl

/-- A list that has not. -/
theorem matched_lambda_none {args : List Sexp} (h : ∀ ps bodies, args ≠ .list ps :: bodies) :
    matched lambdaPattern (.list (Keyword.lambda.sexp :: args)) = pure none := by
  match args, h with
  | .list ps :: bodies, h => exact absurd rfl (h ps bodies)
  | [], _ | .absent :: _, _ | .symbol _ :: _, _ | .number _ :: _, _ | .str _ :: _, _
  | .bool _ :: _, _ | .nil :: _, _ | .dot :: _, _ =>
    simp only [matched, lambdaPattern, Pattern.run, Pattern.bind, Pattern.bindSeq]
    rfl

/-- A list that has the shape of a branch. -/
theorem matched_branch (test yes no : Sexp) :
    matched branchPattern (.list [Keyword.branch.sexp, test, yes, no])
      = pure (some [(ofString "else", no), (ofString "then", yes), (ofString "test", test)]) := by
  simp only [matched, branchPattern, Pattern.run, Pattern.bind, Pattern.bindSeq]
  rfl

/-- A list that has not. -/
theorem matched_branch_none {args : List Sexp} (h : ∀ test yes no, args ≠ [test, yes, no]) :
    matched branchPattern (.list (Keyword.branch.sexp :: args)) = pure none := by
  match args, h with
  | [test, yes, no], h => exact absurd rfl (h test yes no)
  | [], _ | [_], _ | [_, _], _ | _ :: _ :: _ :: _ :: _, _ =>
    simp only [matched, branchPattern, Pattern.run, Pattern.bind, Pattern.bindSeq]
    rfl

/-- Every list with that head has the shape of a sequence. -/
theorem matched_sequence (body : List Sexp) :
    matched sequencePattern (.list (Keyword.sequence.sexp :: body))
      = pure (some [(ofString "body", .list body)]) := by
  simp only [matched, sequencePattern, Pattern.run, Pattern.bind, Pattern.bindSeq]
  rfl

/-- A list that has the shape of an assignment. -/
theorem matched_assign (name value : Sexp) :
    matched assignPattern (.list [Keyword.assign.sexp, name, value])
      = pure (some [(ofString "value", value), (ofString "name", name)]) := by
  simp only [matched, assignPattern, Pattern.run, Pattern.bind, Pattern.bindSeq]
  rfl

/-- A list that has not. -/
theorem matched_assign_none {args : List Sexp} (h : ∀ name value, args ≠ [name, value]) :
    matched assignPattern (.list (Keyword.assign.sexp :: args)) = pure none := by
  match args, h with
  | [name, value], h => exact absurd rfl (h name value)
  | [], _ | [_], _ | _ :: _ :: _ :: _, _ =>
    simp only [matched, assignPattern, Pattern.run, Pattern.bind, Pattern.bindSeq]
    rfl

/-- A list that has the shape of a recursive binding. -/
theorem matched_letrec (bindings rest : List Sexp) (first : Sexp) :
    matched letrecPattern (.list (Keyword.letrec.sexp :: .list bindings :: first :: rest))
      = pure (some [(ofString "more", .list rest), (ofString "body", first),
          (ofString "bindings", .list bindings)]) := by
  simp only [matched, letrecPattern, Pattern.run, Pattern.bind, Pattern.bindSeq]
  rfl

/-- A list that has not. -/
theorem matched_letrec_none {args : List Sexp}
    (h : ∀ bs first rest, args ≠ .list bs :: first :: rest) :
    matched letrecPattern (.list (Keyword.letrec.sexp :: args)) = pure none := by
  match args, h with
  | .list bs :: first :: rest, h => exact absurd rfl (h bs first rest)
  | [], _ | [.list _], _ | .absent :: _, _ | .symbol _ :: _, _ | .number _ :: _, _
  | .str _ :: _, _ | .bool _ :: _, _ | .nil :: _, _ | .dot :: _, _ =>
    simp only [matched, letrecPattern, Pattern.run, Pattern.bind, Pattern.bindSeq]
    rfl

/-- A list that has the shape of quoted data. -/
theorem matched_quote (d : Sexp) :
    matched quotePattern (.list [Keyword.quote.sexp, d]) = pure (some []) := by
  simp only [matched, quotePattern, Pattern.run, Pattern.bind, Pattern.bindSeq]
  rfl

/-- A list that has not. -/
theorem matched_quote_none {args : List Sexp} (h : ∀ d, args ≠ [d]) :
    matched quotePattern (.list (Keyword.quote.sexp :: args)) = pure none := by
  match args, h with
  | [d], h => exact absurd rfl (h d)
  | [], _ | _ :: _ :: _, _ =>
    simp only [matched, quotePattern, Pattern.run, Pattern.bind, Pattern.bindSeq]
    rfl

/-- Every list that is not empty has the shape of a call. -/
theorem matched_call (head : Sexp) (args : List Sexp) :
    matched callPattern (.list (head :: args))
      = pure (some [(ofString "args", .list args), (ofString "fn", head)]) := by
  simp only [matched, callPattern, Pattern.run, Pattern.bind, Pattern.bindSeq]
  rfl

/-- A pair. -/
theorem matched_binding (name init : Sexp) :
    matched bindingPattern (.list [name, init])
      = pure (some [(ofString "init", init), (ofString "name", name)]) := by
  simp only [matched, bindingPattern, Pattern.run, Pattern.bind, Pattern.bindSeq]
  rfl

/-- No pair. -/
theorem matched_binding_none {b : Sexp} (h : ∀ name init, b ≠ .list [name, init]) :
    matched bindingPattern b = pure none := by
  match b, h with
  | .list [name, init], h => exact absurd rfl (h name init)
  | .list [_], _ | .list (_ :: _ :: _ :: _), _ =>
    simp only [matched, bindingPattern, Pattern.run, Pattern.bind, Pattern.bindSeq]
    rfl
  | .list [], _ =>
    simp only [matched, bindingPattern, Pattern.run, Pattern.bind, Pattern.bindSeq]
  | .absent, _ | .symbol _, _ | .number _, _ | .str _, _ | .bool _, _ | .nil, _ | .dot, _ =>
    simp only [matched, bindingPattern, Pattern.run, Pattern.bind]

end

/-! ## Guarded analysis is analysis -/

variable {isPrimitive : Text → Bool} {self : Sexp → Analysis Loose}

/-- **The expression is analysed as it should**, up to promises. -/
def Settled (isPrimitive : Text → Bool) (self : Sexp → Analysis Loose) (e : Sexp) : Prop :=
  self e = checked ((Form.analyse isPrimitive e).map Form.loosen)

/-- Several expressions. -/
theorem mapM_settled (es : List Sexp) (h : ∀ x ∈ es, Settled isPrimitive self x) :
    es.mapM self = checked ((Form.analyseAll isPrimitive es).map Form.loosenAll) := by
  induction es with
  | nil => rfl
  | cons x es ih =>
    obtain ⟨hx, hes⟩ := List.forall_mem_cons.1 h
    rw [List.mapM_cons, hx, ih hes, Form.analyseAll]
    cases Form.analyse isPrimitive x <;> cases Form.analyseAll isPrimitive es <;> rfl

/-- A part of a recursive binding that does not bind a symbol. -/
theorem binding_malformed (whole : Sexp) {b : Sexp}
    (h : ∀ name init, b ≠ .list [.symbol name, init]) :
    binding self whole b = throw (.malformed whole) := by
  unfold binding
  by_cases hpair : ∃ x init, b = .list [x, init]
  · obtain ⟨x, init, rfl⟩ := hpair
    rw [matched_binding]
    cases x with
    | symbol name => exact absurd rfl (h name init)
    | _ => rfl
  · rw [matched_binding_none fun x init hb => hpair ⟨x, init, hb⟩]
    rfl

/-- A part of a recursive binding that binds a symbol. -/
theorem binding_pair (whole : Sexp) (name : Text) {init : Sexp}
    (h : Settled isPrimitive self init) :
    binding self whole (.list [.symbol name, init]) = checked (do
      let value ← Form.analyse isPrimitive init
      if !value.isAtomic then throw (.initializer init)
      return (name, value.loosen)) := by
  unfold binding
  rw [matched_binding]
  show (do
    let value ← self init
    if !value.isAtomic then throw (.initializer init)
    return (name, value) : Analysis (Text × Loose)) = _
  rw [h]
  cases Form.analyse isPrimitive init with
  | error err => rfl
  | ok f =>
    show (do
      if !f.loosen.isAtomic then throw (.initializer init)
      return (name, f.loosen) : Analysis (Text × Loose)) = checked (do
        if !f.isAtomic then throw (.initializer init)
        return (name, f.loosen))
    rw [f.isAtomic_loosen]
    cases f.isAtomic <;> rfl

/-- The parts of a recursive binding. -/
theorem mapM_binding (whole : Sexp) (bs : List Sexp)
    (h : ∀ name init, .list [.symbol name, init] ∈ bs → Settled isPrimitive self init) :
    bs.mapM (binding self whole)
      = checked ((Form.analyseBindings isPrimitive whole bs).map Form.loosenBindings) := by
  induction bs with
  | nil => rfl
  | cons b bs ih =>
    have hbs := ih fun name init hmem => h name init (List.mem_cons_of_mem b hmem)
    rw [List.mapM_cons, hbs]
    by_cases hpair : ∃ name init, b = .list [.symbol name, init]
    · obtain ⟨name, init, rfl⟩ := hpair
      rw [binding_pair whole name (h name init List.mem_cons_self),
        Form.analyseBindings.eq_2 isPrimitive whole]
      cases Form.analyse isPrimitive init with
      | error err => rfl
      | ok f =>
        show checked (do
            if !f.isAtomic then throw (.initializer init)
            return (name, f.loosen)) >>= _ = checked (Except.map Form.loosenBindings (do
          if !f.isAtomic then throw (.initializer init)
          return (name, f) :: (← Form.analyseBindings isPrimitive whole bs)))
        cases f.isAtomic <;> cases Form.analyseBindings isPrimitive whole bs <;> rfl
    · have hne : ∀ name init, b ≠ .list [.symbol name, init] := fun name init hb =>
        hpair ⟨name, init, hb⟩
      rw [binding_malformed whole hne, Form.analyseBindings.eq_3 isPrimitive whole b bs hne]
      rfl

/-! One step is right if the parts of the expression are analysed as they should, by one
lemma for each keyword. -/

/-- Quoted data. -/
theorem step_quote (args : List Sexp) :
    Settled isPrimitive (step isPrimitive self) (.list (Keyword.quote.sexp :: args)) := by
  unfold Settled step Form.analyse
  simp only [Sexp.head?, Keyword.of?_sexp]
  split
  · rw [matched_quote]
    rfl
  next hne =>
    rw [matched_quote_none hne]
    rfl

/-- Functions. -/
theorem step_lambda (args : List Sexp) (h : ∀ x ∈ args, Settled isPrimitive self x) :
    Settled isPrimitive (step isPrimitive self) (.list (Keyword.lambda.sexp :: args)) := by
  unfold Settled step Form.analyse
  simp only [Sexp.head?, Keyword.of?_sexp]
  split
  next ps bodies =>
    rw [matched_lambda]
    show (do
      let names ← checked (Form.parameters (.list (Keyword.lambda.sexp :: .list ps :: bodies)) ps)
      if bodies.isEmpty then
        throw (.malformed (.list (Keyword.lambda.sexp :: .list ps :: bodies)))
      return .lambda names (← bodies.mapM self) : Analysis Loose) = _
    cases Form.parameters (.list (Keyword.lambda.sexp :: .list ps :: bodies)) ps with
    | error err => rfl
    | ok names =>
      cases bodies with
      | nil => rfl
      | cons first rest =>
        show (do return Loose.lambda names (← (first :: rest).mapM self) : Analysis Loose)
          = checked ((do
            return Form.lambda names (← Form.analyse isPrimitive first)
              (← Form.analyseAll isPrimitive rest)).map Form.loosen)
        rw [mapM_settled _ (List.forall_mem_cons.1 h).2, Form.analyseAll]
        cases Form.analyse isPrimitive first <;> cases Form.analyseAll isPrimitive rest <;> rfl
  next hne =>
    rw [matched_lambda_none hne]
    rfl

/-- Branches. -/
theorem step_branch (args : List Sexp) (h : ∀ x ∈ args, Settled isPrimitive self x) :
    Settled isPrimitive (step isPrimitive self) (.list (Keyword.branch.sexp :: args)) := by
  unfold Settled step Form.analyse
  simp only [Sexp.head?, Keyword.of?_sexp]
  split
  next test yes no =>
    rw [matched_branch]
    show (do
      let forms ← [test, yes, no].mapM self
      return .branch (← item forms 0) (← item forms 1) (← item forms 2) : Analysis Loose) = _
    rw [mapM_settled _ h]
    simp only [Form.analyseAll]
    cases Form.analyse isPrimitive test <;> cases Form.analyse isPrimitive yes <;>
      cases Form.analyse isPrimitive no <;> rfl
  next hne =>
    rw [matched_branch_none hne]
    rfl

/-- Sequences. -/
theorem step_sequence (args : List Sexp) (h : ∀ x ∈ args, Settled isPrimitive self x) :
    Settled isPrimitive (step isPrimitive self) (.list (Keyword.sequence.sexp :: args)) := by
  unfold Settled step Form.analyse
  simp only [Sexp.head?, Keyword.of?_sexp]
  rw [matched_sequence]
  cases args with
  | nil => rfl
  | cons first rest =>
    show (do return Loose.sequence (← (first :: rest).mapM self) : Analysis Loose)
      = checked ((do
        return Form.sequence (← Form.analyse isPrimitive first)
          (← Form.analyseAll isPrimitive rest)).map Form.loosen)
    rw [mapM_settled _ h, Form.analyseAll]
    cases Form.analyse isPrimitive first <;> cases Form.analyseAll isPrimitive rest <;> rfl

/-- Assignments. -/
theorem step_assign (args : List Sexp) (h : ∀ x ∈ args, Settled isPrimitive self x) :
    Settled isPrimitive (step isPrimitive self) (.list (Keyword.assign.sexp :: args)) := by
  unfold Settled step Form.analyse
  simp only [Sexp.head?, Keyword.of?_sexp]
  split
  next name value =>
    rw [matched_assign]
    show (do return Loose.assign name (← self value) : Analysis Loose) = _
    rw [h value (by simp)]
    cases Form.analyse isPrimitive value <;> rfl
  next hne =>
    by_cases hpair : ∃ x value, args = [x, value]
    · obtain ⟨x, value, rfl⟩ := hpair
      rw [matched_assign]
      cases x with
      | symbol name => exact absurd rfl (hne name value)
      | _ => rfl
    · rw [matched_assign_none fun x value hargs => hpair ⟨x, value, hargs⟩]
      rfl

/-- Recursive bindings. -/
theorem step_letrec (args : List Sexp) (h : ∀ x ∈ args, Settled isPrimitive self x)
    (hinit : ∀ bs, .list bs ∈ args → ∀ name init, .list [.symbol name, init] ∈ bs →
      Settled isPrimitive self init) :
    Settled isPrimitive (step isPrimitive self) (.list (Keyword.letrec.sexp :: args)) := by
  unfold Settled step Form.analyse
  simp only [Sexp.head?, Keyword.of?_sexp]
  split
  next bs first rest =>
    rw [matched_letrec]
    show (do
      let bindings ← bs.mapM
        (binding self (.list (Keyword.letrec.sexp :: .list bs :: first :: rest)))
      if rest.isEmpty then return .letrec bindings (← self first)
      else return .letrec bindings (.sequence (← (first :: rest).mapM self)) : Analysis Loose) = _
    rw [mapM_binding _ bs (hinit bs List.mem_cons_self), h first (by simp),
      mapM_settled _ fun x hx => h x (List.mem_cons_of_mem _ hx), Form.analyseAll]
    cases Form.analyseBindings isPrimitive
      (.list (Keyword.letrec.sexp :: .list bs :: first :: rest)) bs with
    | error err => rfl
    | ok bindings =>
      show _ = checked ((do
        return Form.letrec bindings (← Form.analyse isPrimitive first)
          (← Form.analyseAll isPrimitive rest)).map Form.loosen)
      cases rest with
      | nil => cases Form.analyse isPrimitive first <;> rfl
      | cons next rest =>
        rw [Form.analyseAll]
        cases Form.analyse isPrimitive first <;> cases Form.analyse isPrimitive next <;>
          cases Form.analyseAll isPrimitive rest <;> rfl
  next hne =>
    rw [matched_letrec_none hne]
    rfl

/-- Calls, of primitives or of anything else. -/
theorem step_call {head : Sexp} (hk : Keyword.of? head = none) (args : List Sexp)
    (h : ∀ x ∈ head :: args, Settled isPrimitive self x) :
    Settled isPrimitive (step isPrimitive self) (.list (head :: args)) := by
  obtain ⟨hhead, hargs⟩ := List.forall_mem_cons.1 h
  have hcall : call self (.list (head :: args)) = checked (do
      return Loose.call (← Form.analyse isPrimitive head).loosen
        (Form.loosenAll (← Form.analyseAll isPrimitive args))) := by
    unfold call
    rw [matched_call]
    show (do return Loose.call (← self head) (← args.mapM self) : Analysis Loose) = _
    rw [hhead, mapM_settled _ hargs]
    cases Form.analyse isPrimitive head <;> cases Form.analyseAll isPrimitive args <;> rfl
  unfold Settled step Form.analyse
  dsimp only [Sexp.head?]
  rw [hk]
  dsimp only
  cases head with
  | symbol op =>
    dsimp only
    cases isPrimitive op with
    | true =>
      rw [if_pos rfl, if_pos rfl, matched_call]
      show (do return Loose.primitive op (← args.mapM self) : Analysis Loose) = _
      rw [mapM_settled _ hargs]
      cases Form.analyseAll isPrimitive args <;> rfl
    | false =>
      rw [if_neg Bool.false_ne_true, if_neg Bool.false_ne_true, hcall]
      cases Form.analyseAll isPrimitive args <;> rfl
  | _ =>
    dsimp only
    rw [hcall]
    cases Form.analyse isPrimitive _ <;> cases Form.analyseAll isPrimitive args <;> rfl

/-- **One step is right** if the parts of the expression are analysed as they should. -/
theorem step_settled (e : Sexp)
    (h : ∀ x, sizeOf x < sizeOf e → Settled isPrimitive self x) :
    Settled isPrimitive (step isPrimitive self) e := by
  cases e with
  | list es =>
    cases es with
    | nil => rfl
    | cons head args =>
      have hpart : ∀ x ∈ head :: args, Settled isPrimitive self x := fun x hx => h x (by
        have := List.sizeOf_lt_of_mem hx
        simp only [Sexp.list.sizeOf_spec]
        omega)
      have hargs := (List.forall_mem_cons.1 hpart).2
      cases hk : Keyword.of? head with
      | none => exact step_call hk args hpart
      | some k =>
        obtain rfl := Keyword.eq_sexp_of_of? hk
        cases k with
        | quote => exact step_quote args
        | lambda => exact step_lambda args hargs
        | branch => exact step_branch args hargs
        | sequence => exact step_sequence args hargs
        | assign => exact step_assign args hargs
        | letrec =>
          refine step_letrec args hargs fun bs hbs name init hmem => h init ?_
          have hlist := List.sizeOf_lt_of_mem hbs
          have hpair := List.sizeOf_lt_of_mem hmem
          simp only [Sexp.list.sizeOf_spec, List.cons.sizeOf_spec] at hlist hpair ⊢
          omega
  | _ => rfl

/-- **Guarded analysis does not go wrong** and gives what analysis gives, as soon as its calls
may be nested as deep as the expression is large. -/
theorem run_settled {depth : Nat} {e : Sexp} (h : sizeOf e < depth) :
    Settled isPrimitive (run isPrimitive depth) e := by
  induction depth generalizing e with
  | zero => exact absurd h (Nat.not_lt_zero _)
  | succ depth ih => exact step_settled e fun x hx => ih (by omega)

end Analysis

end PassingStyle
