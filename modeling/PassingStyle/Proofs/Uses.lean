import PassingStyle.Proofs.Hygiene

/-!
# Uses of names

The conversion writes two kinds of names that it neither made up nor found as variables:
the operator of a primitive, in `(cps op)`, and `undef`, which an assignment hands to its
continuation. They have a fixed meaning, and lose it in the scope of a binder that has the
same name. A *use* of a name is such an occurrence, together with whether it is shadowed in
this way, or a call of the name as a variable. A name in any other place is a value, and
values are not followed here.

`Form.uses` lists the uses of a name in a form and `Sexp.uses` those in a converted program.
They have to be taken from the same parts of a program, and not all of its parts have an
image: an atomic form in a body, unless it is the last one, is *idle* and left out by the
conversion. `Form.uses_cases` says where the uses of a form are, and what is known of them
follows by induction: which names have fixed uses, which of these uses are shadowed, and that
the registry alone decides whether a name is called or applied as a primitive.
-/

namespace PassingStyle

/-- **A use of a name**, other than as a value. -/
inductive Use where
  /-- It is the function of a call. -/
  | call
  /-- It has a fixed meaning, as the operator of a primitive or as `undef`; and whether it
  lies in the scope of a binder that has the same name. -/
  | fixed (shadowed : Bool)
  deriving DecidableEq, Repr

/-- The uses of a name that has a fixed meaning, if it is `y`. -/
def fixedUse (x y : Text) (shadowed : Bool) : List Use :=
  if x = y then [.fixed shadowed] else []

namespace Sexp

/-- The primitive that an operator is. -/
def primitive? : Sexp → Option Text
  | list [symbol s, symbol op] => if s = Text.ofString "cps" then some op else none
  | _ => none

/-- The list is an assignment, which hands over `undef`. -/
def isAssignment : Sexp → List Sexp → Bool
  | symbol s, [symbol _, _, list [_, symbol u]] =>
    s == Text.ofString "set-then!" && u == Text.ofString "undef"
  | _, _ => false

mutual

/-- **The uses of the name `x`** in a converted program, given whether a binder of that
name is around it. -/
def uses (x : Text) (bound : Bool) : Sexp → List Use
  | list (head :: args) =>
    match Keyword.of? head, args with
    | some .quote, [_] => []
    | some .lambda, [list params, body] =>
      body.uses x (bound || decide (x ∈ parameterNames params))
    | some .letrec, [list bindings, body] =>
      usesBindings x (bound || decide (x ∈ bindingNames bindings)) bindings ++
        body.uses x (bound || decide (x ∈ bindingNames bindings))
    | _, args =>
      (match head.primitive? with
        | some op => fixedUse x op bound
        | none => (if head = symbol x then [.call] else []) ++ head.uses x bound) ++
      ((if isAssignment head args then fixedUse x (Text.ofString "undef") bound else []) ++
        usesAll x bound args)
  | _ => []

/-- The uses of a name in several expressions. -/
def usesAll (x : Text) (bound : Bool) : List Sexp → List Use
  | [] => []
  | e :: es => e.uses x bound ++ usesAll x bound es

/-- The uses of a name in the values of bindings. -/
def usesBindings (x : Text) (bound : Bool) : List Sexp → List Use
  | [] => []
  | list [_, value] :: bs => value.uses x bound ++ usesBindings x bound bs
  | _ :: bs => usesBindings x bound bs

end

/-- The uses of a name at the head of a list. -/
def headUses (x : Text) (bound : Bool) (head : Sexp) : List Use :=
  match head.primitive? with
  | some op => fixedUse x op bound
  | none => (if head = symbol x then [.call] else []) ++ head.uses x bound

/-- The uses of a name in a list that neither is quoted data nor binds names. -/
theorem uses_list {x : Text} {bound : Bool} {head : Sexp} {args : List Sexp}
    (hquote : Keyword.of? head = some .quote → args.length ≠ 1)
    (hlambda : Keyword.of? head = some .lambda → args.length ≠ 2)
    (hletrec : Keyword.of? head = some .letrec → args.length ≠ 2) :
    (list (head :: args)).uses x bound = headUses x bound head ++
      ((if isAssignment head args then fixedUse x (Text.ofString "undef") bound else []) ++
        usesAll x bound args) := by
  conv_lhs => unfold uses
  split
  next hk => exact absurd rfl (hquote hk)
  next hk => exact absurd rfl (hlambda hk)
  next hk => exact absurd rfl (hletrec hk)
  next => rfl

/-- A list whose head is no keyword neither is quoted data nor binds names. -/
theorem uses_of_head {x : Text} {bound : Bool} {head : Sexp} {args : List Sexp}
    (hhead : Keyword.of? head = none) :
    (list (head :: args)).uses x bound = headUses x bound head ++
      ((if isAssignment head args then fixedUse x (Text.ofString "undef") bound else []) ++
        usesAll x bound args) := by
  refine uses_list ?_ ?_ ?_ <;> (rw [hhead]; exact nofun)

theorem usesAll_append (x : Text) (bound : Bool) (es es' : List Sexp) :
    usesAll x bound (es ++ es') = usesAll x bound es ++ usesAll x bound es' := by
  induction es with
  | nil => rfl
  | cons e es ih => rw [List.cons_append, usesAll, ih, usesAll, List.append_assoc]

end Sexp

namespace Form

/-- The form is the variable `x`. -/
def isVariable (x : Text) : Form → Bool
  | constant e => e == .symbol x
  | _ => false

/-- The form is not idle before these: its value is used, or evaluating it is a step. Idle
forms are left out by the conversion. -/
def isKept (f : Form) (rest : List Form) : Bool :=
  rest.isEmpty || !f.isAtomic

mutual

/-- **The uses of the name `x`** in a form: in calls of it, in calls of the primitive of
that name and, if it is `undef`, in assignments. Idle forms do not count. -/
def uses (x : Text) (bound : Bool) : Form → List Use
  | constant _ => []
  | lambda params first rest =>
    (if first.isKept rest then first.uses x (bound || decide (x ∈ params)) else []) ++
      usesBody x (bound || decide (x ∈ params)) rest
  | branch test yes no => test.uses x bound ++ (yes.uses x bound ++ no.uses x bound)
  | sequence first rest =>
    (if first.isKept rest then first.uses x bound else []) ++ usesBody x bound rest
  | assign _ value => value.uses x bound ++ fixedUse x (Text.ofString "undef") bound
  | letrec bindings first rest =>
    usesBindings x (bound || decide (x ∈ bindings.map Prod.fst)) bindings ++
      ((if first.isKept rest then
          first.uses x (bound || decide (x ∈ bindings.map Prod.fst)) else []) ++
        usesBody x (bound || decide (x ∈ bindings.map Prod.fst)) rest)
  | primitive op args => fixedUse x op bound ++ usesAll x bound args
  | call fn args =>
    (if fn.isVariable x then [.call] else []) ++ (fn.uses x bound ++ usesAll x bound args)

/-- The uses of a name in several forms. -/
def usesAll (x : Text) (bound : Bool) : List Form → List Use
  | [] => []
  | f :: fs => f.uses x bound ++ usesAll x bound fs

/-- The uses of a name in several forms that are evaluated for the value of the last
one. -/
def usesBody (x : Text) (bound : Bool) : List Form → List Use
  | [] => []
  | f :: fs => (if f.isKept fs then f.uses x bound else []) ++ usesBody x bound fs

/-- The uses of a name in the values of bindings. -/
def usesBindings (x : Text) (bound : Bool) : List (Text × Form) → List Use
  | [] => []
  | b :: bs => b.2.uses x bound ++ usesBindings x bound bs

end

mutual

/-- **The names that recursive bindings bind** in a form. -/
def letrecs : Form → List Text
  | constant _ => []
  | lambda _ first rest => first.letrecs ++ letrecsAll rest
  | branch test yes no => test.letrecs ++ (yes.letrecs ++ no.letrecs)
  | sequence first rest => first.letrecs ++ letrecsAll rest
  | assign _ value => value.letrecs
  | letrec bindings first rest =>
    bindings.map Prod.fst ++ (letrecsBindings bindings ++ (first.letrecs ++ letrecsAll rest))
  | primitive _ args => letrecsAll args
  | call fn args => fn.letrecs ++ letrecsAll args

/-- The names that recursive bindings bind in several forms. -/
def letrecsAll : List Form → List Text
  | [] => []
  | f :: fs => f.letrecs ++ letrecsAll fs

/-- The names that recursive bindings bind in the values of bindings. -/
def letrecsBindings : List (Text × Form) → List Text
  | [] => []
  | b :: bs => b.2.letrecs ++ letrecsBindings bs

end

end Form

/-! ## Counting uses -/

namespace Use

/-- The number of fixed uses. -/
def fixedCount (us : List Use) : Nat :=
  us.count (.fixed false) + us.count (.fixed true)

/-- All uses are calls or fixed. -/
theorem length_eq (us : List Use) : us.length = us.count .call + fixedCount us := by
  induction us with
  | nil => rfl
  | cons u us ih =>
    rw [fixedCount] at *
    rw [List.length_cons, ih]
    cases u with
    | call => simp; omega
    | fixed b => cases b <;> simp <;> omega

end Use

/-! ## Where uses come from -/

open Use

namespace Form

/-- A use in several forms is a use in one of them. -/
theorem exists_of_mem_usesAll {x : Text} {b : Bool} {u : Use} {fs : List Form}
    (hu : u ∈ usesAll x b fs) : ∃ f ∈ fs, u ∈ f.uses x b := by
  induction fs with
  | nil => exact absurd hu List.not_mem_nil
  | cons f fs ih =>
    rcases List.mem_append.1 hu with hu | hu
    · exact ⟨f, List.mem_cons_self, hu⟩
    · obtain ⟨g, hg, hu⟩ := ih hu
      exact ⟨g, List.mem_cons_of_mem _ hg, hu⟩

/-- A use in a body is a use in one of its forms. -/
theorem exists_of_mem_usesBody {x : Text} {b : Bool} {u : Use} {fs : List Form}
    (hu : u ∈ usesBody x b fs) : ∃ f ∈ fs, u ∈ f.uses x b := by
  induction fs with
  | nil => exact absurd hu List.not_mem_nil
  | cons f fs ih =>
    rcases List.mem_append.1 hu with hu | hu
    · split at hu
      · exact ⟨f, List.mem_cons_self, hu⟩
      · exact absurd hu List.not_mem_nil
    · obtain ⟨g, hg, hu⟩ := ih hu
      exact ⟨g, List.mem_cons_of_mem _ hg, hu⟩

/-- A use in the values of bindings is a use in one of them. -/
theorem exists_of_mem_usesBindings {x : Text} {b : Bool} {u : Use} {bs : List (Text × Form)}
    (hu : u ∈ usesBindings x b bs) : ∃ c ∈ bs, u ∈ c.2.uses x b := by
  induction bs with
  | nil => exact absurd hu List.not_mem_nil
  | cons c bs ih =>
    rcases List.mem_append.1 hu with hu | hu
    · exact ⟨c, List.mem_cons_self, hu⟩
    · obtain ⟨c', hc', hu⟩ := ih hu
      exact ⟨c', List.mem_cons_of_mem _ hc', hu⟩

/-- The name with a fixed use is that of the use. -/
theorem eq_of_mem_fixedUse {x y : Text} {b : Bool} {u : Use} (hu : u ∈ fixedUse x y b) :
    x = y ∧ u = .fixed b := by
  unfold fixedUse at hu
  split at hu
  next h => exact ⟨h, List.mem_singleton.1 hu⟩
  next => exact absurd hu List.not_mem_nil

/-- **A use is a use in a part**, in the scope of the names that the form binds there, or it
is one of the form itself. -/
theorem uses_cases {x : Text} {b : Bool} {u : Use} {f : Form} (hu : u ∈ f.uses x b) :
    match f with
    | constant _ => False
    | lambda params first rest =>
      ∃ g ∈ first :: rest, u ∈ g.uses x (b || decide (x ∈ params))
    | branch test yes no => u ∈ test.uses x b ∨ u ∈ yes.uses x b ∨ u ∈ no.uses x b
    | sequence first rest => ∃ g ∈ first :: rest, u ∈ g.uses x b
    | assign _ value => u ∈ value.uses x b ∨ x = Text.ofString "undef" ∧ u = .fixed b
    | letrec bindings first rest =>
      (∃ c ∈ bindings, u ∈ c.2.uses x (b || decide (x ∈ bindings.map Prod.fst))) ∨
        ∃ g ∈ first :: rest, u ∈ g.uses x (b || decide (x ∈ bindings.map Prod.fst))
    | primitive op args => (x = op ∧ u = .fixed b) ∨ ∃ g ∈ args, u ∈ g.uses x b
    | call fn args =>
      (fn = .constant (.symbol x) ∧ u = .call) ∨ ∃ g ∈ fn :: args, u ∈ g.uses x b := by
  cases f with
  | constant e => exact absurd hu List.not_mem_nil
  | lambda params first rest =>
    rw [uses] at hu
    exact exists_of_mem_usesBody (by rwa [usesBody])
  | branch test yes no =>
    simpa only [uses, List.mem_append] using hu
  | sequence first rest =>
    rw [uses] at hu
    exact exists_of_mem_usesBody (by rwa [usesBody])
  | assign name value =>
    rw [uses, List.mem_append] at hu
    exact hu.imp_right eq_of_mem_fixedUse
  | letrec bindings first rest =>
    rw [uses, List.mem_append] at hu
    exact hu.imp exists_of_mem_usesBindings
      fun hu => exists_of_mem_usesBody (by rwa [usesBody])
  | primitive op args =>
    rw [uses, List.mem_append] at hu
    exact hu.imp eq_of_mem_fixedUse exists_of_mem_usesAll
  | call fn args =>
    rw [uses, List.mem_append] at hu
    refine hu.imp (fun hu => ?_) fun hu => exists_of_mem_usesAll (by rwa [usesAll])
    split at hu
    next hfn =>
      refine ⟨?_, List.mem_singleton.1 hu⟩
      cases fn with
      | constant e => rw [isVariable, beq_iff_eq] at hfn; rw [hfn]
      | _ => cases hfn
    next => exact absurd hu List.not_mem_nil

/-- Names with a fixed meaning are symbols of the expression, or `undef`. -/
theorem mem_symbols_of_mem_uses {x : Text} {b s : Bool} {f : Form}
    (hu : .fixed s ∈ f.uses x b) : x ∈ f.symbols ∨ x = Text.ofString "undef" := by
  induction f using induction generalizing b with
  | constant e => exact (uses_cases hu).elim
  | lambda params first rest ih ihs =>
    have := uses_cases hu
    grind [mem_symbols_lambda]
  | branch test yes no ih₁ ih₂ ih₃ =>
    have := uses_cases hu
    grind [mem_symbols_branch]
  | sequence first rest ih ihs =>
    have := uses_cases hu
    grind [mem_symbols_sequence]
  | assign name value ih =>
    have := uses_cases hu
    grind [mem_symbols_assign]
  | letrec bindings first rest ihb ih ihs =>
    rcases uses_cases hu with ⟨c, hc, hu⟩ | hu
    · exact (ihb c hc hu).imp_left fun hx => mem_symbols_letrec.2 (by grind)
    · grind [mem_symbols_letrec]
  | primitive op args ihs =>
    have := uses_cases hu
    grind [mem_symbols_primitive]
  | call fn args ih ihs =>
    have := uses_cases hu
    grind [mem_symbols_call]

/-- **A shadowed use is in the scope of a binder** of the name: one around the form, or one
of the form. -/
theorem mem_binders_of_mem_uses {x : Text} {b : Bool} {f : Form}
    (hu : .fixed true ∈ f.uses x b) : b = true ∨ x ∈ f.binders := by
  induction f using induction generalizing b with
  | constant e => exact (uses_cases hu).elim
  | lambda params first rest ih ihs =>
    have := uses_cases hu
    simp only [binders, List.mem_append, mem_bindersAll]
    grind
  | branch test yes no ih₁ ih₂ ih₃ =>
    have := uses_cases hu
    simp only [binders, List.mem_append]
    grind
  | sequence first rest ih ihs =>
    have := uses_cases hu
    simp only [binders, List.mem_append, mem_bindersAll]
    grind
  | assign name value ih =>
    have := uses_cases hu
    rw [binders]
    grind
  | letrec bindings first rest ihb ih ihs =>
    simp only [binders, List.mem_append, mem_bindersAll, mem_bindersBindings]
    rcases uses_cases hu with ⟨c, hc, hu⟩ | hu
    · have := ihb c hc hu
      grind
    · grind
  | primitive op args ihs =>
    have := uses_cases hu
    simp only [binders, mem_bindersAll]
    grind
  | call fn args ih ihs =>
    have := uses_cases hu
    simp only [binders, List.mem_append, mem_bindersAll]
    grind

/-- In the scope of a binder every fixed use is shadowed. -/
theorem not_mem_uses_of_bound {x : Text} {f : Form} : .fixed false ∉ f.uses x true := by
  induction f using induction with
  | letrec bindings first rest ihb ih ihs =>
    intro hu
    have := uses_cases hu
    simp only [Bool.true_or] at this
    grind
  | _ =>
    intro hu
    have := uses_cases hu
    grind

/-- **The registry decides** what a use is: of a primitive it is fixed, and of any other
name, `undef` apart, it is a call. -/
theorem Valid.uses_eq {isPrimitive : Text → Bool} {x : Text} (hx : x ≠ Text.ofString "undef")
    {f : Form} (hv : f.Valid isPrimitive) {b : Bool} {u : Use} (hu : u ∈ f.uses x b) :
    u = .call ↔ isPrimitive x = false := by
  induction f using induction generalizing b with
  | constant e => exact (uses_cases hu).elim
  | lambda params first rest ih ihs =>
    have := uses_cases hu
    cases hv
    grind
  | branch test yes no ih₁ ih₂ ih₃ =>
    have := uses_cases hu
    cases hv
    grind
  | sequence first rest ih ihs =>
    have := uses_cases hu
    cases hv
    grind
  | assign name value ih =>
    have := uses_cases hu
    cases hv
    grind
  | letrec bindings first rest ihb ih ihs =>
    cases hv with
    | letrec vbindings _ vfirst vrest =>
      rcases uses_cases hu with ⟨c, hc, hu⟩ | hu
      · exact ihb c hc (vbindings c hc) hu
      · grind
  | primitive op args ihs =>
    have := uses_cases hu
    cases hv
    grind
  | call fn args ih ihs =>
    have := uses_cases hu
    cases hv
    grind

/-- The names that recursive bindings bind in several forms are those of each of them. -/
theorem mem_letrecsAll {x : Text} {fs : List Form} :
    x ∈ letrecsAll fs ↔ ∃ f ∈ fs, x ∈ f.letrecs := by
  induction fs with
  | nil => simp [letrecsAll]
  | cons f fs ih => simp [letrecsAll, ih]

theorem mem_letrecsBindings {x : Text} {bs : List (Text × Form)} :
    x ∈ letrecsBindings bs ↔ ∃ b ∈ bs, x ∈ b.2.letrecs := by
  induction bs with
  | nil => simp [letrecsBindings]
  | cons b bs ih => simp [letrecsBindings, ih]

/-- What a recursive binding binds is bound. -/
theorem mem_binders_of_mem_letrecs {x : Text} {f : Form} (hx : x ∈ f.letrecs) :
    x ∈ f.binders := by
  induction f using induction with
  | constant e => exact absurd hx List.not_mem_nil
  | lambda params first rest ih ihs =>
    simp only [letrecs, binders, List.mem_append, mem_letrecsAll, mem_bindersAll] at *
    grind
  | branch test yes no ih₁ ih₂ ih₃ =>
    simp only [letrecs, binders, List.mem_append] at *
    grind
  | sequence first rest ih ihs =>
    simp only [letrecs, binders, List.mem_append, mem_letrecsAll, mem_bindersAll] at *
    grind
  | assign name value ih =>
    rw [letrecs] at hx
    rw [binders]
    exact ih hx
  | letrec bindings first rest ihb ih ihs =>
    simp only [letrecs, binders, List.mem_append, mem_letrecsAll, mem_bindersAll,
      mem_letrecsBindings, mem_bindersBindings] at *
    grind
  | primitive op args ihs =>
    simp only [letrecs, binders, mem_letrecsAll, mem_bindersAll] at *
    grind
  | call fn args ih ihs =>
    simp only [letrecs, binders, List.mem_append, mem_letrecsAll, mem_bindersAll] at *
    grind

/-- A numbered name that is no symbol of the expression has no fixed meaning. -/
theorem fixedCount_eq_zero {x : Text} {b : Bool} {f : Form} (hdigit : x.EndsInDigit)
    (hx : x ∉ f.symbols) : fixedCount (f.uses x b) = 0 := by
  have hnone (s : Bool) : .fixed s ∉ f.uses x b := fun hu => by
    rcases mem_symbols_of_mem_uses hu with hin | heq
    · exact hx hin
    · exact hdigit.ne rfl rfl heq
  rw [fixedCount, List.count_eq_zero.2 (hnone false), List.count_eq_zero.2 (hnone true)]

end Form

end PassingStyle
