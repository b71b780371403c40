import PassingStyle.Proofs.Guarded.Analysis
import PassingStyle.Proofs.Outcome
import PassingStyle.Proofs.Placement

/-!
# Conversion with its guards

Four functions convert a loose form: `m` an atomic form by itself, `tc` with an expression as
the continuation, `tk` with a builder, and `tsk` several forms from left to right. They rely on
each other for what they do not check. An atomic form is all that `m` can deal with, also
among the values of a recursive binding, and a body is taken to have a first form.

On the forms of accepted expressions they never go wrong, and give what conversion gives. So
the conversion of a program ends well on every expression whatsoever, with a result if the
expression belongs to the grammar of programs and with a refusal if it does not.
-/

namespace PassingStyle

open Text

/-- **A conversion that may go wrong.** -/
abbrev Guarded := StateT NameTable Option

/-- **A step of a conversion that does not go wrong.** -/
def total {α : Type} (x : Fresh α) : Guarded α := fun t => some (x t)

namespace Loose

mutual

/-- An atomic form by itself; other forms go wrong. -/
def m : Loose → Guarded Sexp
  | constant e => return e
  | lambda params body => do
    let k ← total (freshName "k")
    return Target.lambda (params ++ [k]) (← tcBody body (.symbol k))
  | _ => failure
termination_by f => (sizeOf f, 0)

/-- A form with the expression `c` as its continuation. -/
def tc (f : Loose) (c : Sexp) : Guarded Sexp :=
  match f with
  | constant e => return Target.pass c (← m (constant e))
  | lambda params body => return Target.pass c (← m (lambda params body))
  | branch test yes no => do
    let k ← total (freshName "k")
    let body ← tk test fun t =>
      return Target.branch t (← tc yes (.symbol k)) (← tc no (.symbol k))
    return Target.pass (Target.lambda [k] body) c
  | sequence body => tcBody body c
  | assign name value => tk value fun v => return Target.assign name v c
  | letrec bindings body => return Target.letrec (← mBindings bindings) (← tc body c)
  | primitive op args => tsk args fun vs => return Target.call (Target.primitive op) vs c
  | call fn args => tk fn fun f => tsk args fun vs => return Target.call f vs c
  | missing => failure
termination_by (sizeOf f, 1)

/-- The forms of a body with the expression `c` as their continuation; a body without forms
goes wrong. -/
def tcBody (body : List Loose) (c : Sexp) : Guarded Sexp :=
  match body with
  | [] => failure
  | [f] => tc f c
  | f :: next :: rest => tk f fun _ => tcBody (next :: rest) c
termination_by (sizeOf body, 0)

/-- A form with a builder as its continuation. -/
def tk (f : Loose) (k : Sexp → Guarded Sexp) : Guarded Sexp := do
  if f.isAtomic then k (← m f)
  else
    let rv ← total (freshName "rv")
    tc f (Target.lambda [rv] (← k (.symbol rv)))
termination_by (sizeOf f, 2)

/-- Several forms from left to right. -/
def tsk (forms : List Loose) (k : List Sexp → Guarded Sexp) : Guarded Sexp :=
  match forms with
  | [] => k []
  | f :: fs => tk f fun v => tsk fs fun vs => k (v :: vs)
termination_by (sizeOf forms, 0)

/-- The bindings of a recursive binding. -/
def mBindings (bindings : List (Text × Loose)) : Guarded (List Sexp) :=
  match bindings with
  | [] => return []
  | (name, init) :: bs => return .list [.symbol name, ← m init] :: (← mBindings bs)
termination_by (sizeOf bindings, 0)

end

end Loose

/-! ## Guarded conversion is conversion -/

namespace Form

/-- **What is shown of a form**: its guarded conversion does not go wrong and gives what its
conversion gives, by itself if it is atomic and with a continuation. -/
structure Safe (f : Form) : Prop where
  /-- By itself. -/
  atom : f.isAtomic = true → f.loosen.m = total f.convertAtom
  /-- With an expression as its continuation. -/
  object : ∀ c : Sexp, f.loosen.tc c = total (f.convert (.object c))

/-- A form that is not atomic is only converted with a continuation. -/
theorem Safe.of_object {f : Form} (hf : f.isAtomic = false)
    (object : ∀ c : Sexp, f.loosen.tc c = total (f.convert (.object c))) : Safe f where
  atom ha := by rw [hf] at ha; cases ha
  object := object

/-- With a builder as its continuation. -/
theorem Safe.builder {f : Form} (h : Safe f) (k : Sexp → Fresh Sexp) :
    (f.loosen.tk fun v => total (k v)) = total (f.convert (.builder k)) := by
  funext t
  rw [Loose.tk, f.isAtomic_loosen]
  cases hatomic : f.isAtomic with
  | true =>
    rw [if_pos rfl, h.atom hatomic]
    show some (k (f.convertAtom t).1 (f.convertAtom t).2) = some (f.convert (.builder k) t)
    rw [convert_atomic hatomic]
    rfl
  | false =>
    rw [if_neg Bool.false_ne_true]
    show f.loosen.tc (Target.lambda [(freshName "rv" t).1]
        (k (.symbol (freshName "rv" t).1) (freshName "rv" t).2).1)
        (k (.symbol (freshName "rv" t).1) (freshName "rv" t).2).2 = some (f.convert (.builder k) t)
    rw [h.object, convert_builder hatomic]
    rfl

/-- The forms of a body. -/
theorem tcBody_loosen {first : Form} {rest : List Form} (hfirst : Safe first)
    (hrest : ∀ f ∈ rest, Safe f) (c : Sexp) :
    Loose.tcBody (first.loosen :: loosenAll rest) c = total (first.convert (sequel rest c)) := by
  induction rest generalizing first with
  | nil =>
    rw [loosenAll, Loose.tcBody, sequel, hfirst.object]
  | cons next rest ih =>
    obtain ⟨hnext, hrest⟩ := List.forall_mem_cons.1 hrest
    rw [loosenAll, Loose.tcBody, ih hnext hrest, sequel]
    exact hfirst.builder fun _ => next.convert (sequel rest c)

/-- Several forms from left to right. -/
theorem tsk_loosen {fs : List Form} (hfs : ∀ f ∈ fs, Safe f) (k : List Sexp → Fresh Sexp) :
    (Loose.tsk (loosenAll fs) fun vs => total (k vs)) = total (convertAll fs k) := by
  induction fs generalizing k with
  | nil => rw [loosenAll, Loose.tsk, convertAll]
  | cons f fs ih =>
    obtain ⟨hf, hfs⟩ := List.forall_mem_cons.1 hfs
    rw [loosenAll, Loose.tsk, convertAll, ← hf.builder]
    congr 1
    funext v
    exact ih hfs fun vs => k (v :: vs)

/-- The bindings of a recursive binding, whose values are atomic. -/
theorem mBindings_loosen {bs : List (Text × Form)} (hbs : ∀ b ∈ bs, Safe b.2)
    (hatomic : ∀ b ∈ bs, b.2.isAtomic = true) :
    Loose.mBindings (loosenBindings bs) = total (convertBindings bs) := by
  induction bs with
  | nil =>
    rw [loosenBindings, Loose.mBindings, convertBindings]
    rfl
  | cons b bs ih =>
    obtain ⟨name, init⟩ := b
    obtain ⟨hinit, hbs⟩ := List.forall_mem_cons.1 hbs
    obtain ⟨hatom, hatomic⟩ := List.forall_mem_cons.1 hatomic
    rw [loosenBindings, Loose.mBindings, ih hbs hatomic, hinit.atom hatom, convertBindings]
    rfl

/-- **Guarded conversion does not go wrong** on what analysis accepts. -/
theorem Valid.safe {isPrimitive : Text → Bool} {f : Form} (hv : f.Valid isPrimitive) :
    Safe f := by
  induction hv with
  | @constant e hc =>
    have hatom : (Form.constant e).loosen.m = total (Form.constant e).convertAtom := by
      rw [loosen, Loose.m, convertAtom, convert]
      rfl
    refine ⟨fun _ => hatom, fun c => ?_⟩
    rw [loosen, Loose.tc, ← loosen, hatom, convertAtom, convert, convert]
    rfl
  | @lambda params first rest _ _ ihfirst ihrest =>
    have hatom : (Form.lambda params first rest).loosen.m
        = total (Form.lambda params first rest).convertAtom := by
      rw [loosen, Loose.m, convertAtom, convert]
      simp only [tcBody_loosen ihfirst ihrest]
      rfl
    refine ⟨fun _ => hatom, fun c => ?_⟩
    rw [loosen, Loose.tc, ← loosen, hatom, convertAtom, convert, convert]
    rfl
  | @branch test yes no _ _ _ ihtest ihyes ihno =>
    refine .of_object rfl fun c => ?_
    have hbody (k : Text) : (test.loosen.tk fun t => do
        return Target.branch t (← yes.loosen.tc (.symbol k)) (← no.loosen.tc (.symbol k)))
        = total (test.convert (.builder fun t => do
          let y ← yes.convert (.object (.symbol k))
          let n ← no.convert (.object (.symbol k))
          return Target.branch t y n)) := by
      rw [ihyes.object, ihno.object, ← ihtest.builder]
      rfl
    rw [loosen, Loose.tc, convert]
    simp only [hbody]
    rfl
  | @sequence first rest _ _ ihfirst ihrest =>
    refine .of_object rfl fun c => ?_
    rw [loosen, Loose.tc, convert, tcBody_loosen ihfirst ihrest]
    rfl
  | @assign name value _ ihvalue =>
    refine .of_object rfl fun c => ?_
    rw [loosen, Loose.tc, convert]
    exact ihvalue.builder fun v => return Target.assign name v c
  | @letrec bindings first rest _ hatomic _ _ ihbindings ihfirst ihrest =>
    refine .of_object rfl fun c => ?_
    cases rest with
    | nil =>
      rw [loosen, Loose.tc, mBindings_loosen ihbindings hatomic, ihfirst.object, convert]
      rfl
    | cons next rest =>
      rw [loosen, Loose.tc, mBindings_loosen ihbindings hatomic, Loose.tc, ← loosenAll,
        tcBody_loosen ihfirst ihrest, convert]
      rfl
  | @primitive op args _ _ _ ihargs =>
    refine .of_object rfl fun c => ?_
    rw [loosen, Loose.tc, convert]
    exact tsk_loosen ihargs fun vs => return Target.call (Target.primitive op) vs c
  | @call fn args _ _ _ ihfn ihargs =>
    refine .of_object rfl fun c => ?_
    rw [loosen, Loose.tc, convert]
    show _ = total (fn.convert (.builder fun f => convertAll args fun vs =>
      return Target.call f vs c))
    rw [← ihfn.builder]
    congr 1
    funext f
    exact tsk_loosen ihargs fun vs => return Target.call f vs c

end Form

/-! ## Programs -/

/-- A whole program: a function by itself, and anything else hands its value to `halt`. -/
def Loose.program (f : Loose) (halt : Text) : Guarded Sexp :=
  match f with
  | lambda params body => (lambda params body).m
  | f => f.tc (.symbol halt)

/-- The whole program is converted without going wrong. -/
theorem Form.Safe.program {f : Form} (h : f.Safe) (halt : Text) :
    f.loosen.program halt = total (f.convertProgram halt) := by
  cases f with
  | lambda params first rest => exact h.atom rfl
  | letrec bindings first rest =>
    cases rest with
    | nil => exact h.object (.symbol halt)
    | cons next rest => exact h.object (.symbol halt)
  | _ => exact h.object (.symbol halt)

/-- How a refusal of this kind begins. -/
theorem Refusal.message_prefix_iff (kind : Refusal) (err : FormError) :
    kind.message <+: err.message ↔ kind = err.refusal := by
  have hhead (k : Refusal) (rest : Text) : (k.message ++ rest).head? = k.message.head? := by
    cases k <;> rfl
  have hinj (k k' : Refusal) : k.message.head? = k'.message.head? → k = k' := by
    cases k <;> cases k' <;> decide
  constructor
  · rintro ⟨rest, h⟩
    refine hinj kind err.refusal ?_
    rw [← hhead kind rest, h, FormError.message, List.append_assoc, hhead]
  · rintro rfl
    rw [FormError.message, List.append_assoc]
    exact List.prefix_append _ _

namespace Convert

/-- **A guarded conversion of a program**, whose analysis nests its calls at most `depth`
deep. -/
def guarded (isPrimitive : Text → Bool) (depth : Nat) (e : Sexp) (halt : Text) :
    Guarded (Except FormError Sexp) := do
  total (reserveSymbols [e, .symbol halt])
  match Analysis.run isPrimitive depth e with
  | none => failure
  | some (.error err) => return .error err
  | some (.ok f) => return .ok (← f.program halt)

variable {isPrimitive : Text → Bool} {e : Sexp} {halt : Text} {t : NameTable}

/-- What the conversion of an expression with a form gives. -/
theorem outcome_program_ok {f : Form} (h : Form.analyse isPrimitive e = .ok f) :
    (program isPrimitive e halt).outcome t =
      ((f.convertProgram halt (t.reserve programNames
        (Sexp.symbolsList [e, .symbol halt]))).map .ok id) := by
  unfold program analyse
  rw [h]
  rfl

/-- What the conversion of an expression without a form gives. -/
theorem outcome_program_error {err : FormError} (h : Form.analyse isPrimitive e = .error err) :
    (program isPrimitive e halt).outcome t =
      (.error err, t.reserve programNames (Sexp.symbolsList [e, .symbol halt])) := by
  unfold program analyse
  rw [h]
  rfl

/-- **The guarded conversion does not go wrong**, and gives what the conversion gives. -/
theorem guarded_eq {depth : Nat} (hdepth : sizeOf e < depth) :
    guarded isPrimitive depth e halt t = some ((program isPrimitive e halt).outcome t) := by
  unfold guarded
  rw [Analysis.run_settled hdepth]
  cases h : Form.analyse isPrimitive e with
  | error err =>
    rw [outcome_program_error h]
    rfl
  | ok f =>
    obtain ⟨hv, -⟩ := Form.analyse_eq_ok isPrimitive e f h
    rw [outcome_program_ok h]
    show (do
      total (reserveSymbols [e, .symbol halt])
      return .ok (← f.loosen.program halt) : Guarded (Except FormError Sexp)) t = _
    rw [hv.safe.program]
    rfl

/-- **Conversion is safe, and accepts exactly the grammar.** Its guarded form never goes wrong,
whatever the expression, the primitives and the table are; it succeeds on the programs of the
grammar and on nothing else; a refusal is of exactly one kind and the same for all primitives;
and the form of an accepted expression is written as that expression. -/
theorem program_safe (isPrimitive : Text → Bool) (e : Sexp) (halt : Text) (t : NameTable) :
    (∀ depth, sizeOf e < depth → guarded isPrimitive depth e halt t
      = some ((program isPrimitive e halt).outcome t)) ∧
    ((∃ out t', (program isPrimitive e halt).outcome t = (.ok out, t')) ↔ e.Core) ∧
    (∀ err t', (program isPrimitive e halt).outcome t = (.error err, t') →
      (∀ kind : Refusal, kind.message <+: err.message ↔ kind = err.refusal) ∧
      ∀ isPrimitive', (program isPrimitive' e halt).outcome t = (.error err, t')) ∧
    ∀ f, Form.analyse isPrimitive e = .ok f → f.toSexp = e := by
  refine ⟨fun depth hdepth => guarded_eq hdepth, ?_, fun err t' h => ?_, fun f h =>
    (Form.analyse_eq_ok isPrimitive e f h).2⟩
  · rw [← Form.analyse_ok_iff isPrimitive]
    constructor
    · rintro ⟨out, t', h⟩
      obtain ⟨f, hf, -⟩ := program_ok h
      exact ⟨f, hf⟩
    · rintro ⟨f, hf⟩
      exact ⟨_, _, outcome_program_ok hf⟩
  · refine ⟨fun kind => kind.message_prefix_iff err, fun isPrimitive' => ?_⟩
    cases hf : Form.analyse isPrimitive e with
    | ok f =>
      rw [outcome_program_ok hf] at h
      cases h
    | error err' =>
      rw [outcome_program_error hf] at h
      cases h
      exact outcome_program_error ((Form.analyse_error_iff isPrimitive isPrimitive').1 hf)

end Convert

end PassingStyle
