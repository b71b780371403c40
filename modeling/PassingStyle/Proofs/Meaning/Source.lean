import PassingStyle.Proofs.Meaning.Store

/-!
# The meaning of programs

Programs are evaluated by value, with a store. A variable is read at its location, any
other constant is itself, and a function becomes a closure. Everything but `#f` counts
as true. An assignment has the value of the global variable `undef`. The names of a
recursive binding are bound before its values are taken.

The operands of a call, its function among them, are evaluated from left to right as far
as they are not atomic. Atomic operands are read when all others are known and the call
is made: an assignment in a later operand is seen by an earlier one that is a variable.
-/

namespace PassingStyle

/-- **A value** of a program. -/
inductive Form.Value where
  /-- A value that is no closure. -/
  | datum (d : Datum)
  /-- A function with the environment that it was made in. -/
  | closure (params : List Text) (first : Form) (rest : List Form) (env : Env)

/-- A closure counts as true. -/
def Form.Value.isTrue : Form.Value → Bool
  | datum d => d.isTrue
  | closure .. => true

/-- The value as data, unless it is a closure. -/
def Form.Value.datum? : Form.Value → Option Datum
  | datum d => some d
  | closure .. => none

/-- **The value of an atomic form**; it is not asked for that of any other form. -/
def Form.atomValue : Form → Env → Store Form.Value → Form.Value
  | constant (.symbol x), ρ, m => m.cell x (ρ x)
  | constant e, _, _ => .datum (.constant e)
  | lambda params first rest, ρ, _ => .closure params first rest ρ
  | _, _, _ => .datum .undefined

/-- **An operand** before its call is made: an atomic one that is still to be read, or
the value of any other one. -/
inductive Operand where
  /-- It is read when the call is made. -/
  | later (f : Form)
  /-- It is known. -/
  | known (v : Form.Value)

/-- The value of an operand when the call is made. -/
def Operand.value (ρ : Env) (m : Store Form.Value) : Operand → Form.Value
  | later f => f.atomValue ρ m
  | known v => v

/-- Entering the body of a recursive binding. -/
def Form.enterRec (bindings : List (Text × Form)) (ρ : Env) (m : Store Form.Value) :
    Env × Store Form.Value :=
  Store.bindRec (bindings.map Prod.fst) (.datum .undefined)
    (fun ρ m => bindings.map fun b => b.2.atomValue ρ m) ρ m

mutual

/-- **Evaluation** of a form to a value. -/
inductive Eval (W : World) : Form → Env → Store Form.Value → Form.Value → Store Form.Value → Prop
  /-- An atomic form has its value at once. -/
  | atom {f : Form} {ρ : Env} {m : Store Form.Value} : f.isAtomic = true →
      Eval W f ρ m (f.atomValue ρ m) m
  /-- A branch evaluates the side that its test decides for. -/
  | branch {test yes no : Form} {ρ : Env} {m m₁ m' : Store Form.Value} {u v : Form.Value} :
      Eval W test ρ m u m₁ → Eval W (if u.isTrue then yes else no) ρ m₁ v m' →
      Eval W (.branch test yes no) ρ m v m'
  /-- The last form of a sequence has the value of the sequence. -/
  | last {f : Form} {ρ : Env} {m m' : Store Form.Value} {v : Form.Value} :
      Eval W f ρ m v m' → Eval W (.sequence f []) ρ m v m'
  /-- The value of any other form of a sequence is not used. -/
  | next {f g : Form} {rest : List Form} {ρ : Env} {m m₁ m' : Store Form.Value} {u v : Form.Value} :
      Eval W f ρ m u m₁ → Eval W (.sequence g rest) ρ m₁ v m' →
      Eval W (.sequence f (g :: rest)) ρ m v m'
  /-- An assignment has the value of `undef`. -/
  | assign {name : Text} {value : Form} {ρ : Env} {m m₁ : Store Form.Value} {u : Form.Value} :
      Eval W value ρ m u m₁ →
      Eval W (.assign name value) ρ m ((m₁.write name (ρ name) u).cell undefinedName 0)
        (m₁.write name (ρ name) u)
  /-- The body of a recursive binding is evaluated inside it. -/
  | letrec {bindings : List (Text × Form)} {first : Form} {rest : List Form} {ρ : Env}
      {m m' : Store Form.Value} {v : Form.Value} :
      Eval W (.sequence first rest) (Form.enterRec bindings ρ m).1
        (Form.enterRec bindings ρ m).2 v m' →
      Eval W (.letrec bindings first rest) ρ m v m'
  /-- A primitive is applied to data. -/
  | primitive {op : Text} {args : List Form} {ρ : Env} {m m' : Store Form.Value}
      {operands : List Operand} {ds : List Datum} {d : Datum} :
      Operands W args ρ m operands m' → operands.map (·.value ρ m') = ds.map .datum →
      W.delta op ds = some d → Eval W (.primitive op args) ρ m (.datum d) m'
  /-- A function is applied to any values. -/
  | call {fn : Form} {args : List Form} {ρ : Env} {m m₁ m' : Store Form.Value} {o : Operand}
      {operands : List Operand} {v : Form.Value} :
      Operands W (fn :: args) ρ m (o :: operands) m₁ →
      Apply W (o.value ρ m₁) (operands.map (·.value ρ m₁)) m₁ v m' →
      Eval W (.call fn args) ρ m v m'

/-- **Evaluation of operands** up to the moment when the call is made. -/
inductive Operands (W : World) :
    List Form → Env → Store Form.Value → List Operand → Store Form.Value → Prop
  /-- No operand is left. -/
  | nil {ρ : Env} {m : Store Form.Value} : Operands W [] ρ m [] m
  /-- An atomic operand is read later. -/
  | later {f : Form} {fs : List Form} {ρ : Env} {m m' : Store Form.Value}
      {operands : List Operand} :
      f.isAtomic = true → Operands W fs ρ m operands m' →
      Operands W (f :: fs) ρ m (.later f :: operands) m'
  /-- Any other operand is evaluated. -/
  | known {f : Form} {fs : List Form} {ρ : Env} {m m₁ m' : Store Form.Value} {v : Form.Value}
      {operands : List Operand} :
      f.isAtomic = false → Eval W f ρ m v m₁ → Operands W fs ρ m₁ operands m' →
      Operands W (f :: fs) ρ m (.known v :: operands) m'

/-- **Application** of a function to arguments. -/
inductive Apply (W : World) :
    Form.Value → List Form.Value → Store Form.Value → Form.Value → Store Form.Value → Prop
  /-- The body of a closure is evaluated with its parameters bound. -/
  | closure {params : List Text} {first : Form} {rest : List Form} {ρ : Env}
      {args : List Form.Value} {m m' : Store Form.Value} {v : Form.Value} :
      params.length = args.length →
      Eval W (.sequence first rest) (Store.bindAll params args ρ m).1
        (Store.bindAll params args ρ m).2 v m' →
      Apply W (.closure params first rest ρ) args m v m'
  /-- The call of an external procedure goes into the trace, and the world answers. -/
  | external {p : Text} {ds : List Datum} {m : Store Form.Value} {d : Datum} :
      W.oracle m.trace (p, ds) = some d →
      Apply W (.datum (.external p)) (ds.map .datum) m (.datum d) (m.record (p, ds))

end

/-- The store that programs start with. -/
def World.start (W : World) : Store Form.Value where
  cell x _ := .datum (W.globals x)
  bound _ := 0
  trace := []

namespace Form

variable (W : World) (f : Form) (xs : List Text)

/-- **What a program comes to**, if it comes to its end, as seen through the global
variables `xs`. -/
def Gives (o : Observation) : Prop :=
  ∃ v m, Eval W f Env.global W.start v m ∧ m.observe Form.Value.datum? xs v = o

/-- **What a program that is a function comes to** when it is applied to data. -/
def Answers (ds : List Datum) (o : Observation) : Prop :=
  ∃ v m, Apply W (f.atomValue Env.global W.start) (ds.map .datum) W.start v m ∧
    m.observe Form.Value.datum? xs v = o

end Form

end PassingStyle
