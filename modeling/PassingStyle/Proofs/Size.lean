import PassingStyle.Proofs.Placement

/-!
# The size of converted programs

A conversion that copied its continuation would double it at every branch, and the code of
nested branches would be exponential in the size of the program. `Valid.settles` says that it
does not: the code around a continuation is one place, in which the continuation stands once.
What is left to show is that this place is small.

Expressions are measured by their *nodes*, one for every atom and one for every list. An
image has at most eight nodes for each node of its form, besides those of its continuation.
The induction needs room in two places. A form that is not atomic pays for the function that
receives its value, and for the variable that holds the value afterwards; so its image stays
five nodes below the bound. And what holds an operand is part of the code that comes after
the operands, where it would be counted twice; so the bound for operands has it on the side
of the image.
-/

namespace PassingStyle

/-! ## Nodes -/

namespace Sexp

mutual

/-- **The size of an expression**: the number of its atoms and lists. -/
def size : Sexp → Nat
  | list xs => sizeAll xs + 1
  | _ => 1

/-- The size of several expressions. -/
def sizeAll : List Sexp → Nat
  | [] => 0
  | x :: xs => x.size + sizeAll xs

end

/-- Every expression has a node. -/
theorem size_pos (e : Sexp) : 0 < e.size := by
  cases e <;> simp [size]

@[simp] theorem size_symbol (s : Text) : (symbol s).size = 1 := rfl

@[simp] theorem size_list (xs : List Sexp) : (list xs).size = sizeAll xs + 1 := rfl

@[simp] theorem sizeAll_nil : sizeAll [] = 0 := rfl

@[simp] theorem sizeAll_cons (x : Sexp) (xs : List Sexp) :
    sizeAll (x :: xs) = x.size + sizeAll xs := rfl

@[simp] theorem sizeAll_append (xs ys : List Sexp) :
    sizeAll (xs ++ ys) = sizeAll xs + sizeAll ys := by
  induction xs with
  | nil => simp
  | cons x xs ih => simp [ih, Nat.add_assoc]

@[simp] theorem sizeAll_map_symbol (names : List Text) :
    sizeAll (names.map symbol) = names.length := by
  induction names with
  | nil => rfl
  | cons x names ih => simp [ih, Nat.add_comm]

end Sexp

/-- The size of a keyword. -/
@[simp] theorem Keyword.size_sexp (k : Keyword) : k.sexp.size = 1 := rfl

namespace Place

/-- **The size of a place**: the nodes around it. -/
def size : Place → Nat
  | here => 0
  | inside before place after => Sexp.sizeAll before + place.size + Sexp.sizeAll after + 1

/-- What stands at a place is there once. -/
theorem size_fill (p : Place) (e : Sexp) : (p.fill e).size = p.size + e.size := by
  induction p with
  | here => rw [fill, size, Nat.zero_add]
  | inside before p after ih =>
    simp only [fill, size, Sexp.size_list, Sexp.sizeAll_append, Sexp.sizeAll_cons, ih]
    omega

end Place

namespace Target

@[simp] theorem size_lambda (params : List Text) (body : Sexp) :
    (lambda params body).size = params.length + body.size + 3 := by
  simp only [lambda, Sexp.size_list, Sexp.sizeAll_cons, Sexp.sizeAll_map_symbol,
    Sexp.sizeAll_nil, Keyword.size_sexp]
  omega

@[simp] theorem size_pass (cont value : Sexp) :
    (pass cont value).size = cont.size + value.size + 1 := by
  simp only [pass, Sexp.size_list, Sexp.sizeAll_cons, Sexp.sizeAll_nil, Nat.add_zero]

@[simp] theorem size_branch (test yes no : Sexp) :
    (branch test yes no).size = test.size + yes.size + no.size + 2 := by
  simp only [branch, Sexp.size_list, Sexp.sizeAll_cons, Sexp.sizeAll_nil, Keyword.size_sexp]
  omega

@[simp] theorem size_assign (name : Text) (value cont : Sexp) :
    (assign name value cont).size = value.size + cont.size + 5 := by
  simp only [assign, Sexp.size_list, Sexp.sizeAll_cons, Sexp.sizeAll_nil, Sexp.size_symbol,
    size_pass]
  omega

@[simp] theorem size_letrec (bindings : List Sexp) (body : Sexp) :
    (letrec bindings body).size = Sexp.sizeAll bindings + body.size + 3 := by
  simp only [letrec, Sexp.size_list, Sexp.sizeAll_cons, Sexp.sizeAll_nil, Keyword.size_sexp]
  omega

@[simp] theorem size_call (fn : Sexp) (args : List Sexp) (cont : Sexp) :
    (call fn args cont).size = Sexp.sizeAll (fn :: args) + cont.size + 1 := by
  simp only [call, List.cons_append, Sexp.size_list, Sexp.sizeAll_cons, Sexp.sizeAll_append,
    Sexp.sizeAll_nil]
  omega

@[simp] theorem size_primitive (op : Text) : (primitive op).size = 3 := rfl

end Target

namespace Form

/-- **The size of a form** is that of the expression that it is written as. -/
def size (f : Form) : Nat := f.toSexp.size

/-- The size of several forms. -/
def sizeAll (fs : List Form) : Nat := Sexp.sizeAll (toSexps fs)

/-- The size of the bindings of a recursive binding. -/
def sizeBindings (bs : List (Text × Form)) : Nat := Sexp.sizeAll (bindingsToSexps bs)

variable {first : Form} {rest args : List Form}

@[simp] theorem size_constant (e : Sexp) : (constant e).size = e.size := by
  rw [size, toSexp]

@[simp] theorem sizeAll_nil : sizeAll [] = 0 := rfl

@[simp] theorem sizeAll_cons (f : Form) (fs : List Form) :
    sizeAll (f :: fs) = f.size + sizeAll fs := rfl

@[simp] theorem size_lambda (params : List Text) :
    (lambda params first rest).size = params.length + sizeAll (first :: rest) + 3 := by
  simp only [size, toSexp, Sexp.size_list, Sexp.sizeAll_cons, Sexp.sizeAll_map_symbol,
    Keyword.size_sexp, sizeAll, toSexps]
  omega

@[simp] theorem size_branch (test yes no : Form) :
    (branch test yes no).size = test.size + yes.size + no.size + 2 := by
  simp only [size, toSexp, Sexp.size_list, Sexp.sizeAll_cons, Sexp.sizeAll_nil,
    Keyword.size_sexp]
  omega

@[simp] theorem size_sequence : (sequence first rest).size = sizeAll (first :: rest) + 2 := by
  simp only [size, toSexp, Sexp.size_list, Sexp.sizeAll_cons, Keyword.size_sexp, sizeAll, toSexps]
  omega

@[simp] theorem size_assign (name : Text) (value : Form) :
    (assign name value).size = value.size + 3 := by
  simp only [size, toSexp, Sexp.size_list, Sexp.sizeAll_cons, Sexp.sizeAll_nil, Sexp.size_symbol,
    Keyword.size_sexp]
  omega

@[simp] theorem size_letrec (bindings : List (Text × Form)) :
    (letrec bindings first rest).size = sizeBindings bindings + sizeAll (first :: rest) + 3 := by
  simp only [size, toSexp, Sexp.size_list, Sexp.sizeAll_cons, Keyword.size_sexp, sizeAll,
    sizeBindings, toSexps]
  omega

@[simp] theorem size_primitive (op : Text) : (primitive op args).size = sizeAll args + 2 := by
  simp only [size, toSexp, Sexp.size_list, Sexp.sizeAll_cons, Sexp.size_symbol, sizeAll]
  omega

@[simp] theorem size_call (fn : Form) : (call fn args).size = sizeAll (fn :: args) + 1 := by
  simp only [size, toSexp, Sexp.size_list, Sexp.sizeAll_cons, sizeAll, toSexps]

@[simp] theorem sizeBindings_cons (x : Text) (f : Form) (bs : List (Text × Form)) :
    sizeBindings ((x, f) :: bs) = f.size + sizeBindings bs + 2 := by
  simp only [sizeBindings, bindingsToSexps, Sexp.size_list, Sexp.sizeAll_cons, Sexp.sizeAll_nil,
    Sexp.size_symbol, size]
  omega

end Form

/-! ## Images are small -/

mutual

/-- The image of an atomic form, with what it costs to hand it over. -/
theorem AtomImage.size_le {f : Form} {names : List Text} {a : Sexp} :
    AtomImage f names a → a.size + 6 ≤ 8 * f.size
  | .constant e => by
    have := e.size_pos
    rw [Form.size_constant]
    omega
  | .lambda hbody => by
    have := hbody.size_le
    rw [Form.size_sequence, Sexp.size_symbol] at this
    rw [Form.size_lambda, Target.size_lambda, List.length_append, List.length_singleton]
    omega

/-- **The image of a form** has at most eight nodes for each of the form, besides those of
its continuation; five are left for the form to be an operand. -/
theorem Image.size_le {f : Form} {c : Sexp} {names : List Text} {out : Sexp} :
    Image f c names out → out.size + 5 ≤ c.size + 8 * f.size
  | .atom ha => by
    have := ha.size_le
    rw [Target.size_pass]
    omega
  | .branch hyes hno htest => by
    have hyes := hyes.size_le
    have hno := hno.size_le
    have htest := htest.size_le
    rw [Form.size_branch, Target.size_pass, Target.size_lambda, List.length_singleton]
    simp only [Target.size_branch, Form.sizeAll_cons, Form.sizeAll_nil, Sexp.sizeAll_cons,
      Sexp.sizeAll_nil, Sexp.size_symbol] at *
    omega
  | .last h => by
    have := h.size_le
    rw [Form.size_sequence, Form.sizeAll_cons]
    omega
  | .next hrest hfirst => by
    have hrest := hrest.size_le
    have hfirst := hfirst.size_le
    simp only [Form.size_sequence, Form.sizeAll_cons, Form.sizeAll_nil] at *
    omega
  | .assign h => by
    have := h.size_le
    simp only [Form.size_assign, Form.sizeAll_cons, Form.sizeAll_nil, Target.size_assign,
      Sexp.sizeAll_cons] at *
    omega
  | .letrec hbindings hbody => by
    have hbindings := hbindings.size_le
    have hbody := hbody.size_le
    rw [Form.size_sequence] at hbody
    rw [Form.size_letrec, Target.size_letrec]
    omega
  | .primitive h => by
    have := h.size_le
    rw [Target.size_call, Sexp.sizeAll_cons, Target.size_primitive] at this
    rw [Form.size_primitive]
    omega
  | .call h => by
    have := h.size_le
    rw [Target.size_call] at this
    rw [Form.size_call]
    omega

/-- Code with operands before it, which it has besides its own nodes. -/
theorem OperandsImage.size_le {fs : List Form} {names : List Text} {as : List Sexp}
    {body out : Sexp} : OperandsImage fs names as body out →
    out.size + Sexp.sizeAll as ≤ body.size + 8 * Form.sizeAll fs
  | .nil => Nat.le_refl _
  | .atomic ha hrest => by
    have ha := ha.size_le
    have hrest := hrest.size_le
    rw [Form.sizeAll_cons, Sexp.sizeAll_cons]
    omega
  | .settled _ hrest h => by
    have hrest := hrest.size_le
    have h := h.size_le
    rw [Target.size_lambda, List.length_singleton] at h
    rw [Form.sizeAll_cons, Sexp.sizeAll_cons, Sexp.size_symbol]
    omega

/-- The values of bindings, each with its name. -/
theorem BindingsImage.size_le {bs : List (Text × Form)} {names : List Text} {es : List Sexp} :
    BindingsImage bs names es → Sexp.sizeAll es ≤ 8 * Form.sizeBindings bs
  | .nil => Nat.zero_le _
  | .cons ha hrest => by
    have ha := ha.size_le
    have hrest := hrest.size_le
    rw [Form.sizeBindings_cons]
    simp only [Sexp.sizeAll_cons, Sexp.size_list, Sexp.size_symbol, Sexp.sizeAll_nil]
    omega

end

/-! ## The continuation stands at one place -/

namespace Form

/-- **The place of the continuation** of a form, whatever the continuation is: there is
one, and at most eight nodes around it for each node of the form. -/
theorem Valid.place {isPrimitive : Text → Bool} {f : Form} (hv : f.Valid isPrimitive)
    (t : NameTable) : ∃ (place : Place) (t' : NameTable),
      (∀ c, f.convert (.object c) t = (place.fill c, t')) ∧ place.size ≤ 8 * f.size := by
  obtain ⟨place, t', hbuilt⟩ := hv.settles.object t
  refine ⟨place, t', hbuilt.fill, ?_⟩
  -- any continuation will do to count the nodes around it
  obtain ⟨names, himage, _⟩ := hv.converts.object .absent t
  rw [hbuilt.fill] at himage
  have := himage.size_le
  rw [Place.size_fill] at this
  omega

end Form

namespace Convert

variable {isPrimitive : Text → Bool} {e : Sexp} {f : Form}

/-- An expression that has a form is converted from the table in which its symbols and those
of its continuation are reserved. -/
theorem outcome_withObject (hf : Form.analyse isPrimitive e = .ok f) (c : Sexp) (t : NameTable) :
    (withObject isPrimitive e c).outcome t =
      (.ok (f.convert (.object c) (t.reserve programNames (Sexp.symbolsList [e, c]))).1,
        (f.convert (.object c) (t.reserve programNames (Sexp.symbolsList [e, c]))).2) := by
  refine FreshExcept.outcome_bind_ok.2 ⟨(), _, rfl, ?_⟩
  exact FreshExcept.outcome_bind_ok.2 ⟨f, _, outcome_analyse.2 ⟨hf, rfl⟩, rfl⟩

/-- **The continuation is never copied.** For every table there is exactly one place at
which the conversion of an expression that has a form puts its continuation, whatever that
is. The expression is converted with a continuation by filling this place, and the result
has at most eight nodes for each node of the expression, besides those of the
continuation. -/
theorem withObject_fills_place (hf : Form.analyse isPrimitive e = .ok f) :
    (∀ t, ∃! place : Place, ∃ t', ∀ c, f.convert (.object c) t = (place.fill c, t')) ∧
    ∀ c t, ∃ (place : Place) (t' : NameTable),
      (withObject isPrimitive e c).outcome t = (.ok (place.fill c), t') ∧
      (∀ c', f.convert (.object c') (t.reserve programNames (Sexp.symbolsList [e, c])) =
        (place.fill c', t')) ∧
      (place.fill c).size ≤ c.size + 8 * e.size := by
  obtain ⟨hv, hwritten⟩ := Form.analyse_eq_ok isPrimitive e f hf
  refine ⟨fun t => ?_, fun c t => ?_⟩
  · obtain ⟨place, t', hfill, _⟩ := hv.place t
    refine ⟨place, ⟨t', hfill⟩, ?_⟩
    rintro other ⟨t'', hother⟩
    exact Place.eq_of_fill fun x =>
      congrArg Prod.fst ((hother (.symbol x)).symm.trans (hfill (.symbol x)))
  · obtain ⟨place, t', hfill, hsize⟩ :=
      hv.place (t.reserve programNames (Sexp.symbolsList [e, c]))
    refine ⟨place, t', ?_, hfill, ?_⟩
    · rw [outcome_withObject hf, hfill]
    · rw [Form.size, hwritten] at hsize
      rw [Place.size_fill]
      omega

/-- The branch `(if (if a b c) d e)`, whose continuation `k` both sides of both branches lead
to, and where it stands once. -/
theorem withObject_fills_place_branches :
    let e : Sexp := .list [Keyword.branch.sexp,
      .list [Keyword.branch.sexp, .ofName "a", .ofName "b", .ofName "c"], .ofName "d", .ofName "e"]
    let out : Sexp := Target.pass (Target.lambda ["k0"] (Target.pass (Target.lambda ["k1"]
        (Target.branch (.ofName "a") (Target.pass (.ofName "k1") (.ofName "b"))
          (Target.pass (.ofName "k1") (.ofName "c"))))
      (Target.lambda ["rv0"] (Target.branch (.ofName "rv0")
        (Target.pass (.ofName "k0") (.ofName "d")) (Target.pass (.ofName "k0") (.ofName "e"))))))
      (.ofName "k")
    (∃ f, Form.analyse defaultPrimitives.contains e = .ok f) ∧
      ∃ place : Place, place.fill (.ofName "k") = out ∧ out.size ≤ 1 + 8 * e.size := by
  intro e out
  obtain ⟨f, hf⟩ : ∃ f, Form.analyse defaultPrimitives.contains e = .ok f := ⟨_, rfl⟩
  refine ⟨⟨f, hf⟩, ?_⟩
  obtain ⟨place, t', hout, _, hsize⟩ := (withObject_fills_place hf).2 (.ofName "k") .empty
  have hrun : ((withObject defaultPrimitives.contains e (.ofName "k")).outcome
      .empty).1.toOption = some out := by decide +kernel
  rw [hout] at hrun
  have hplace : place.fill (.ofName "k") = out := Option.some.inj hrun
  exact ⟨place, hplace, hplace ▸ hsize⟩

end Convert

end PassingStyle
