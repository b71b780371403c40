import PassingStyle.Proofs.Hygiene
import PassingStyle.Proofs.Meaning.Store

/-!
# The meaning of converted programs

A converted program never returns, so it runs on a machine without a stack: the machine
either runs a call of the program, with an environment, or calls a function with
arguments, the last of which is the continuation. Atoms are evaluated on the way and run
nothing. The machine stops when the final continuation receives a value.

Where expressions of the program are inspected, this follows the shape of converted
programs: a list is a branch, a recursive binding, an assignment `(set-then! x a r)` with
more code `r` to run, a primitive `((cps op) a … c)`, or a call of a function. A function
may itself be called `set-then!`; an assignment is told from a call of it by the code that
follows, which hands over a value and is no continuation.
-/

namespace PassingStyle

/-- The variable that assignments refer to does not end in a digit. -/
theorem Text.EndsInDigit.ne_undefined {x : Text} (h : x.EndsInDigit) : x ≠ undefinedName :=
  h.ne rfl rfl

namespace Target

/-- **A value** of a converted program. -/
inductive Value where
  /-- A value that is no closure. -/
  | datum (d : Datum)
  /-- A function with the environment that it was made in. -/
  | closure (params : List Text) (body : Sexp) (env : Env)
  /-- The final continuation. -/
  | halt

namespace Value

/-- A function counts as true. -/
def isTrue : Value → Bool
  | datum d => d.isTrue
  | _ => true

/-- The value as data, unless it is a function. -/
def datum? : Value → Option Datum
  | datum d => some d
  | _ => none

end Value

/-- **The value of an atom**, if the expression is one. -/
def atomValue : Sexp → Env → Store Value → Option Value
  | .symbol x, ρ, m => some (m.cell x (ρ x))
  | .list [head, .list params, body], ρ, _ =>
    if Keyword.of? head = some .lambda then
      some (.closure (Sexp.parameterNames params) body ρ)
    else none
  | .list [head, d], _, _ =>
    if Keyword.of? head = some .quote then some (.datum (.constant (.list [head, d]))) else none
  | .list _, _, _ => none
  | e, _, _ => some (.datum (.constant e))

/-- **What a call does**, by its shape. -/
inductive View where
  /-- It branches. -/
  | branch (test yes no : Sexp)
  /-- It binds names recursively. -/
  | letrec (bindings : List (Text × Sexp)) (body : Sexp)
  /-- It assigns a variable and goes on. -/
  | assign (name : Text) (value rest : Sexp)
  /-- It applies a primitive. -/
  | primitive (op : Text) (args : List Sexp)
  /-- It calls a function. -/
  | call (fn : Sexp) (args : List Sexp)

/-- The names and values of bindings. -/
def bindings? : List Sexp → Option (List (Text × Sexp))
  | [] => some []
  | .list [.symbol x, a] :: bs => (bindings? bs).map ((x, a) :: ·)
  | _ :: _ => none

/-- The shape of a call of a function or a primitive, or of an assignment. -/
def viewCall : Sexp → List Sexp → View
  | .symbol s, [.symbol x, a, .list [c, v]] =>
    if s = Text.ofString "set-then!" then .assign x a (.list [c, v])
    else .call (.symbol s) [.symbol x, a, .list [c, v]]
  | .list [.symbol s, .symbol op], args =>
    if s = Text.ofString "cps" then .primitive op args
    else .call (.list [.symbol s, .symbol op]) args
  | head, args => .call head args

/-- **The shape of a call**, if the expression is one. -/
def view : Sexp → Option View
  | .list (head :: args) =>
    match Keyword.of? head, args with
    | some .branch, [test, yes, no] => some (.branch test yes no)
    | some .letrec, [.list bs, body] => (bindings? bs).map (.letrec · body)
    | some _, _ => none
    | none, args => some (viewCall head args)
  | _ => none

/-- **A state of the machine.** -/
inductive Config where
  /-- A call of the program is to be run. -/
  | run (e : Sexp) (ρ : Env) (m : Store Value)
  /-- A function is to be called. -/
  | call (fn : Value) (args : List Value) (m : Store Value)
  /-- The final continuation has received a value. -/
  | done (v : Value) (m : Store Value)

/-- Arguments that are data, with a continuation after them. -/
def receive (args : List Value) : Option (List Datum × Value) := do
  let κ ← args.getLast?
  let ds ← args.dropLast.mapM Value.datum?
  return (ds, κ)

/-- Running a call of the program. -/
def run (W : World) (ρ : Env) (m : Store Value) : View → Option Config
  | .branch test yes no => do
    let v ← atomValue test ρ m
    return .run (if v.isTrue then yes else no) ρ m
  | .letrec bindings body => do
    let xs := bindings.map Prod.fst
    let inside := Store.bindAll xs (xs.map fun _ => .datum .undefined) ρ m
    let vs ← bindings.mapM fun b => atomValue b.2 inside.1 inside.2
    return .run body inside.1 (Store.assignAll xs vs inside.1 inside.2)
  | .assign x a rest => do
    let v ← atomValue a ρ m
    return .run rest ρ (m.write x (ρ x) v)
  | .primitive op args => do
    let (ds, κ) ← receive (← args.mapM fun a => atomValue a ρ m)
    return .call κ [.datum (← W.delta op ds)] m
  | .call fn args => do
    return .call (← atomValue fn ρ m) (← args.mapM fun a => atomValue a ρ m) m

/-- **A step of the machine**; there is none when it has stopped, and none when it is
stuck. -/
def step (W : World) : Config → Option Config
  | .run e ρ m => (view e).bind (run W ρ m)
  | .call (.closure params body ρ) args m =>
    if params.length = args.length then
      some (.run body (Store.bindAll params args ρ m).1 (Store.bindAll params args ρ m).2)
    else none
  | .call (.datum (.external p)) args m => do
    let (ds, κ) ← receive args
    return .call κ [.datum (← W.oracle m.trace (p, ds))] (m.record (p, ds))
  | .call .halt [v] m => some (.done v m)
  | _ => none

/-- The state after so many steps, if the machine gets that far. -/
def after (W : World) : Nat → Config → Option Config
  | 0, s => some s
  | n + 1, s => (step W s).bind (after W n)

/-- The store that converted programs start with, where the global variable `halt` is
the final continuation. -/
def start (W : World) (halt : Text) : Store Value where
  cell x n := if x = halt ∧ n = 0 then .halt else .datum (W.globals x)
  bound _ := 0
  trace := []

/-! ## Steps in a row -/

section

variable {W : World} {n k : Nat} {s s' s'' : Config}

theorem after_add : after W (n + k) s = (after W n s).bind (after W k) := by
  induction n generalizing s with
  | zero => rw [Nat.zero_add]; rfl
  | succ n ih =>
    rw [Nat.add_right_comm, after, after]
    cases step W s with
    | none => rfl
    | some s₁ => exact ih

/-- One step and some more. -/
theorem after_succ (h : step W s = some s') : after W (n + 1) s = after W n s' := by
  rw [after, h]
  rfl

/-- **Some number of steps** leads from one state to another. -/
def Reaches (W : World) (s s' : Config) : Prop := ∃ n, after W n s = some s'

theorem Reaches.refl (s : Config) : Reaches W s s := ⟨0, rfl⟩

theorem Reaches.step (h : step W s = some s') : Reaches W s s' := ⟨1, by rw [after_succ h]; rfl⟩

theorem Reaches.trans (h : Reaches W s s') (h' : Reaches W s' s'') : Reaches W s s'' := by
  obtain ⟨n, hn⟩ := h
  obtain ⟨k, hk⟩ := h'
  exact ⟨n + k, by rw [after_add, hn]; exact hk⟩

/-- A machine that has stopped makes no step. -/
theorem after_done {v : Value} {m : Store Value} (h : after W n (.done v m) = some s) :
    s = .done v m := by
  cases n with
  | zero =>
    cases h
    rfl
  | succ n => cases h

/-- **There is one end at most.** -/
theorem Reaches.done_unique {v v' : Value} {m m' : Store Value} (h : Reaches W s (.done v m))
    (h' : Reaches W s (.done v' m')) : v' = v ∧ m' = m := by
  have hle : ∀ {n k : Nat} {v v' : Value} {m m' : Store Value}, n ≤ k →
      after W n s = some (.done v m) → after W k s = some (.done v' m') → v' = v ∧ m' = m := by
    intro n k v v' m m' hnk hn hk
    obtain ⟨j, rfl⟩ := Nat.le.dest hnk
    rw [after_add, hn] at hk
    cases after_done hk
    exact ⟨rfl, rfl⟩
  obtain ⟨n, hn⟩ := h
  obtain ⟨k, hk⟩ := h'
  rcases Nat.le_total n k with hnk | hkn
  · exact hle hnk hn hk
  · obtain ⟨rfl, rfl⟩ := hle hkn hk hn
    exact ⟨rfl, rfl⟩

/-- **The machine stops** after exactly so many steps. -/
def StopsIn (W : World) (n : Nat) (s : Config) : Prop := ∃ v m, after W n s = some (.done v m)

/-- The machine does one thing only: whatever it reaches, it reaches on its way to the
end. -/
theorem StopsIn.of_after (h : StopsIn W n s) (hk : after W k s = some s') :
    ∃ j, n = k + j ∧ StopsIn W j s' := by
  obtain ⟨v, m, h⟩ := h
  induction k generalizing n s with
  | zero =>
    cases hk
    exact ⟨n, (Nat.zero_add n).symm, v, m, h⟩
  | succ k ih =>
    cases hs : step W s with
    | none => rw [after, hs] at hk; cases hk
    | some s₁ =>
      rw [after_succ hs] at hk
      cases n with
      | zero => cases h; cases hs
      | succ n =>
        rw [after_succ hs] at h
        obtain ⟨j, rfl, hj⟩ := ih hk h
        exact ⟨j, by omega, hj⟩

/-- A machine that stops later than at once has a step to make. -/
theorem StopsIn.step (h : StopsIn W n s) (hs : ∀ v m, s ≠ .done v m) :
    ∃ s' j, step W s = some s' ∧ n = j + 1 ∧ StopsIn W j s' := by
  obtain ⟨v, m, h⟩ := h
  cases n with
  | zero => cases h; exact absurd rfl (hs v m)
  | succ n =>
    cases hs : Target.step W s with
    | none => rw [after, hs] at h; cases h
    | some s₁ =>
      rw [after_succ hs] at h
      exact ⟨s₁, n, rfl, rfl, v, m, h⟩

end

/-! ## What converted programs come to -/

section

variable (W : World) (halt : Text) (xs : List Text) (out : Sexp)

/-- **What a converted program comes to**, if it comes to its end, as seen through the
global variables `xs`. -/
def Gives (o : Observation) : Prop :=
  ∃ v m, Reaches W (.run out Env.global (start W halt)) (.done v m) ∧
    m.observe Value.datum? xs v = o

/-- **What a converted program that is a function comes to** when it is applied to data
and the final continuation. -/
def Answers (ds : List Datum) (o : Observation) : Prop :=
  ∃ fn v m, atomValue out Env.global (start W halt) = some fn ∧
    Reaches W (.call fn (ds.map .datum ++ [.halt]) (start W halt)) (.done v m) ∧
    m.observe Value.datum? xs v = o

end

/-! ## The steps of converted code -/

/-- Reading several values that may be missing. -/
theorem mapM_eq_some {α β : Type} {f : α → Option β} {xs : List α} {ys : List β} :
    xs.mapM f = some ys ↔ List.Forall₂ (fun x y => f x = some y) xs ys := by
  induction xs generalizing ys with
  | nil =>
    rw [List.mapM_nil, List.forall₂_nil_left_iff]
    exact ⟨fun h => (Option.some.inj h).symm, fun h => congrArg some h.symm⟩
  | cons x xs ih =>
    rw [List.mapM_cons, List.forall₂_cons_left_iff]
    constructor
    · intro h
      obtain ⟨y, hy, h⟩ := Option.bind_eq_some_iff.1 h
      obtain ⟨ys', hys, h⟩ := Option.bind_eq_some_iff.1 h
      exact ⟨y, ys', hy, ih.1 hys, (Option.some.inj h).symm⟩
    · rintro ⟨y, ys', hy, hys, rfl⟩
      rw [hy, ih.2 hys]
      rfl

/-- Data with a continuation after them are received. -/
theorem receive_eq_some {args : List Value} {ds : List Datum} {κ : Value} :
    receive args = some (ds, κ) ↔ args = ds.map .datum ++ [κ] := by
  have hdata : ∀ {vs : List Value}, vs.mapM Value.datum? = some ds ↔ vs = ds.map .datum := by
    intro vs
    rw [mapM_eq_some]
    refine Datum.forall₂_flip_iff fun d v => ⟨fun h => ?_, fun h => ?_⟩
    · cases v with
      | datum d' => rw [Option.some.inj h]
      | _ => cases h
    · rw [h]
      rfl
  unfold receive
  constructor
  · intro h
    obtain ⟨κ', hlast, h⟩ := Option.bind_eq_some_iff.1 h
    obtain ⟨ds', hds, h⟩ := Option.bind_eq_some_iff.1 h
    cases h
    obtain ⟨vs, rfl⟩ := List.getLast?_eq_some_iff.1 hlast
    rw [List.dropLast_concat] at hds
    rw [hdata.1 hds]
  · rintro rfl
    rw [List.getLast?_concat, List.dropLast_concat]
    show ((ds.map Value.datum).mapM Value.datum?).bind _ = _
    rw [hdata.2 rfl]
    rfl

/-- **A continuation** as an expression: a variable, or a function of one value. -/
inductive IsReceiver : Sexp → Prop
  /-- A variable. -/
  | symbol {k : Text} : Keyword.of? (.symbol k) = none → IsReceiver (.symbol k)
  /-- A function of one value. -/
  | lambda (rv : Text) (body : Sexp) : IsReceiver (Target.lambda [rv] body)

theorem IsReceiver.keyword_eq_none {c : Sexp} (h : IsReceiver c) : Keyword.of? c = none := by
  cases h with
  | symbol hk => exact hk
  | lambda rv body => rfl

section

variable {W : World} {ρ : Env} {m : Store Value}

@[simp] theorem atomValue_symbol (x : Text) :
    atomValue (.symbol x) ρ m = some (m.cell x (ρ x)) := rfl

@[simp] theorem atomValue_lambda (params : List Text) (body : Sexp) :
    atomValue (Target.lambda params body) ρ m = some (.closure params body ρ) := by
  show some (Value.closure (Sexp.parameterNames (params.map .symbol)) body ρ) = _
  rw [Sexp.parameterNames_map_symbol]

@[simp] theorem atomValue_quote (d : Sexp) :
    atomValue (.list [Keyword.quote.sexp, d]) ρ m =
      some (.datum (.constant (.list [Keyword.quote.sexp, d]))) := by
  cases d <;> rfl

/-- A list whose head is no keyword is a call or an assignment. -/
theorem view_of_head {head : Sexp} (h : Keyword.of? head = none) (args : List Sexp) :
    view (.list (head :: args)) = some (viewCall head args) := by
  unfold view
  dsimp only
  rw [h]

theorem step_run (e : Sexp) : step W (.run e ρ m) = (view e).bind (run W ρ m) := rfl

/-- A call whose function is an atom and whose last argument is a continuation is
nothing else. -/
theorem view_call {fn c : Sexp} {as : List Sexp} {w : Value} (hfn : Keyword.of? fn = none)
    (hw : atomValue fn ρ m = some w) (hc : IsReceiver c) :
    view (Target.call fn as c) = some (.call fn (as ++ [c])) := by
  show view (.list (fn :: (as ++ [c]))) = _
  rw [view_of_head hfn]
  congr 1
  unfold viewCall
  split
  next s x a c' v heq =>
    -- the last argument would be a list of two elements
    have hlast := congrArg List.getLast? heq
    rw [List.getLast?_concat] at hlast
    cases hc with
    | symbol _ => cases hlast
    | lambda rv body => cases hlast
  next s op args =>
    rw [if_neg]
    rintro rfl
    cases hw
  · rfl

theorem step_call {fn c : Sexp} {as : List Sexp} {w κ : Value} {vs : List Value}
    (hfn : Keyword.of? fn = none) (hc : IsReceiver c) (hw : atomValue fn ρ m = some w)
    (has : List.Forall₂ (fun a v => atomValue a ρ m = some v) as vs)
    (hκ : atomValue c ρ m = some κ) :
    step W (.run (Target.call fn as c) ρ m) = some (.call w (vs ++ [κ]) m) := by
  have hargs : (as ++ [c]).mapM (fun a => atomValue a ρ m) = some (vs ++ [κ]) :=
    mapM_eq_some.2 (List.rel_append has (.cons hκ .nil))
  rw [step_run, view_call hfn hw hc]
  show (do return Config.call (← atomValue fn ρ m) (← (as ++ [c]).mapM fun a => atomValue a ρ m) m)
    = _
  rw [hw, hargs]
  rfl

theorem step_pass {c a : Sexp} {κ v : Value} (hc : IsReceiver c) (hκ : atomValue c ρ m = some κ)
    (ha : atomValue a ρ m = some v) :
    step W (.run (Target.pass c a) ρ m) = some (.call κ [v] m) := by
  have hview : view (Target.pass c a) = some (.call c [a]) := by
    show view (.list [c, a]) = _
    rw [view_of_head hc.keyword_eq_none]
    congr 1
    unfold viewCall
    split
    next heq => cases heq
    next => cases hc
    · rfl
  rw [step_run, hview]
  have hargs : [a].mapM (fun a => atomValue a ρ m) = some [v] := mapM_eq_some.2 (.cons ha .nil)
  show (do return Config.call (← atomValue c ρ m) (← [a].mapM fun a => atomValue a ρ m) m) = _
  rw [hκ, hargs]
  rfl

theorem step_branch {test yes no : Sexp} {v : Value} (h : atomValue test ρ m = some v) :
    step W (.run (Target.branch test yes no) ρ m) =
      some (.run (if v.isTrue then yes else no) ρ m) := by
  show (do return Config.run (if (← atomValue test ρ m).isTrue then yes else no) ρ m) = _
  rw [h]
  rfl

theorem step_assign {x : Text} {a c : Sexp} {v : Value} (h : atomValue a ρ m = some v) :
    step W (.run (Target.assign x a c) ρ m) =
      some (.run (Target.pass c (.symbol undefinedName)) ρ (m.write x (ρ x) v)) := by
  show (do
    let v ← atomValue a ρ m
    return Config.run (Target.pass c (.symbol undefinedName)) ρ (m.write x (ρ x) v)) = _
  rw [h]
  rfl

/-- The names of a recursive binding, before it gives them their values. -/
def bindUnset (xs : List Text) (ρ : Env) (m : Store Value) : Env × Store Value :=
  Store.bindAll xs (xs.map fun _ => .datum .undefined) ρ m

theorem step_letrec {es : List Sexp} {bs : List (Text × Sexp)} {vs : List Value} (body : Sexp)
    (hes : bindings? es = some bs)
    (hvs : List.Forall₂ (fun b v => atomValue b.2 (bindUnset (bs.map Prod.fst) ρ m).1
      (bindUnset (bs.map Prod.fst) ρ m).2 = some v) bs vs) :
    step W (.run (Target.letrec es body) ρ m) =
      some (.run body (bindUnset (bs.map Prod.fst) ρ m).1
        (Store.assignAll (bs.map Prod.fst) vs (bindUnset (bs.map Prod.fst) ρ m).1
          (bindUnset (bs.map Prod.fst) ρ m).2)) := by
  show ((bindings? es).map (View.letrec · body)).bind (run W ρ m) = _
  rw [hes]
  show (bs.mapM fun b => atomValue b.2 (bindUnset (bs.map Prod.fst) ρ m).1
    (bindUnset (bs.map Prod.fst) ρ m).2).bind _ = _
  rw [mapM_eq_some.2 hvs]
  rfl

theorem step_primitive {op : Text} {as : List Sexp} {c : Sexp} {ds : List Datum} {d : Datum}
    {κ : Value} (has : List.Forall₂ (fun a v => atomValue a ρ m = some v) as (ds.map .datum))
    (hκ : atomValue c ρ m = some κ) (hd : W.delta op ds = some d) :
    step W (.run (Target.call (Target.primitive op) as c) ρ m) =
      some (.call κ [.datum d] m) := by
  have hargs : (as ++ [c]).mapM (fun a => atomValue a ρ m) = some (ds.map .datum ++ [κ]) :=
    mapM_eq_some.2 (List.rel_append has (.cons hκ .nil))
  show (do
    let (ds, κ) ← receive (← (as ++ [c]).mapM fun a => atomValue a ρ m)
    return Config.call κ [.datum (← W.delta op ds)] m) = _
  rw [hargs]
  show (receive (ds.map .datum ++ [κ])).bind _ = _
  rw [receive_eq_some.2 rfl]
  show (W.delta op ds).bind _ = _
  rw [hd]
  rfl

theorem step_closure {params : List Text} {body : Sexp} {args : List Value}
    (h : params.length = args.length) :
    step W (.call (.closure params body ρ) args m) =
      some (.run body (Store.bindAll params args ρ m).1 (Store.bindAll params args ρ m).2) :=
  if_pos h

theorem step_external {p : Text} {ds : List Datum} {d : Datum} {κ : Value}
    (h : W.oracle m.trace (p, ds) = some d) :
    step W (.call (.datum (.external p)) (ds.map .datum ++ [κ]) m) =
      some (.call κ [.datum d] (m.record (p, ds))) := by
  show (receive (ds.map .datum ++ [κ])).bind _ = _
  rw [receive_eq_some.2 rfl]
  show (W.oracle m.trace (p, ds)).bind _ = _
  rw [h]
  rfl

end

end Target

end PassingStyle
