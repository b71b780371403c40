import PassingStyle.Proofs.Image

/-!
# The leaves of programs

The *leaves* of an expression are its atoms from left to right. Much of what is true of a
converted program can be said of them alone, since the conversion makes up no atoms but names
and a few words: the keywords, and the symbols with a fixed meaning. All other leaves are those
of the program. So a property of atoms that holds of the words, of the names and of the leaves
of a program holds of the leaves of what the program is converted to, as `Image.over` says.
-/

namespace PassingStyle

/-! ## Leaves -/

namespace Sexp

mutual

/-- **The leaves of an expression**: its atoms from left to right. -/
def leaves : Sexp → List Sexp
  | list xs => leavesAll xs
  | e => [e]

/-- The leaves of several expressions. -/
def leavesAll : List Sexp → List Sexp
  | [] => []
  | x :: xs => leaves x ++ leavesAll xs

end

@[simp] theorem leaves_symbol (s : Text) : (symbol s).leaves = [symbol s] := by
  rw [leaves]
  exact nofun

@[simp] theorem leaves_list (xs : List Sexp) : (list xs).leaves = leavesAll xs := by
  rw [leaves]

@[simp] theorem leavesAll_nil : leavesAll [] = [] := rfl

@[simp] theorem leavesAll_cons (x : Sexp) (xs : List Sexp) :
    leavesAll (x :: xs) = x.leaves ++ leavesAll xs := rfl

/-- An atom is its own leaf. -/
theorem leaves_atom {e : Sexp} (h : e.isList = false) : e.leaves = [e] := by
  cases e with
  | list xs => cases h
  | _ => rw [leaves]; exact nofun

/-- **An expression over a property**: all its leaves have it. -/
def Over (P : Sexp → Prop) (e : Sexp) : Prop :=
  ∀ a ∈ e.leaves, P a

variable {P : Sexp → Prop}

@[simp] theorem over_symbol {s : Text} : (symbol s).Over P ↔ P (symbol s) := by
  simp [Over]

theorem forall_mem_leavesAll {xs : List Sexp} :
    (∀ a ∈ leavesAll xs, P a) ↔ ∀ x ∈ xs, x.Over P := by
  induction xs with
  | nil => simp
  | cons x xs ih => simp [ih, Over, or_imp, forall_and]

@[simp] theorem over_list {xs : List Sexp} : (list xs).Over P ↔ ∀ x ∈ xs, x.Over P := by
  rw [Over, leaves_list, forall_mem_leavesAll]

mutual

/-- Leaves are no lists. -/
theorem isList_of_mem_leaves {a : Sexp} : ∀ {e : Sexp}, a ∈ e.leaves → a.isList = false
  | list xs, h => isList_of_mem_leavesAll (leaves_list xs ▸ h)
  | absent, h | symbol _, h | number _, h | str _, h | bool _, h | nil, h | dot, h => by
    rw [leaves_atom rfl] at h
    rw [List.mem_singleton.1 h]
    rfl

theorem isList_of_mem_leavesAll {a : Sexp} : ∀ {xs : List Sexp}, a ∈ leavesAll xs → a.isList = false
  | [], h => absurd h List.not_mem_nil
  | _ :: _, h => (List.mem_append.1 h).elim isList_of_mem_leaves isList_of_mem_leavesAll

end

mutual

/-- The symbols of an expression are the symbols among its leaves. -/
theorem symbol_mem_leaves {s : Text} : ∀ {e : Sexp}, symbol s ∈ e.leaves ↔ s ∈ e.symbols
  | list xs => by rw [leaves_list, symbols_list, symbol_mem_leavesAll]
  | symbol _ => by simp
  | absent | number _ | str _ | bool _ | nil | dot => by
    rw [leaves_atom rfl]
    simp [symbols]

theorem symbol_mem_leavesAll {s : Text} :
    ∀ {xs : List Sexp}, symbol s ∈ leavesAll xs ↔ s ∈ symbolsList xs
  | [] => by simp [symbolsList]
  | x :: xs => by
    rw [leavesAll_cons, symbolsList_cons, List.mem_append, List.mem_append, symbol_mem_leaves,
      symbol_mem_leavesAll]

end

end Sexp

/-! ## The leaves of forms -/

/-- **The words of converted programs** have a property: the keywords, and the symbols with a
fixed meaning. -/
structure Words (P : Sexp → Prop) : Prop where
  /-- The keywords. -/
  keyword : ∀ k : Keyword, P k.sexp
  /-- The head of an assignment. -/
  setThen : P (.ofName "set-then!")
  /-- The value of an assignment. -/
  undef : P (.ofName "undef")
  /-- The head of an operator. -/
  cps : P (.ofName "cps")

/-- **A form over a property**, which the words of converted programs have as well. -/
structure Form.Over (P : Sexp → Prop) (f : Form) : Prop where
  /-- The words have the property. -/
  words : Words P
  /-- The leaves of the form have the property. -/
  leaves : f.toSexp.Over P

namespace Form.Over

open Sexp

variable {P : Sexp → Prop} {first test yes no fn value : Form} {rest args : List Form}

theorem forall_toSexps {fs : List Form} :
    (∀ x ∈ toSexps fs, x.Over P) ↔ ∀ f ∈ fs, f.toSexp.Over P := by
  induction fs with
  | nil => simp [toSexps]
  | cons f fs ih => simp [toSexps, ih]

/-- A constant is its own expression. -/
theorem constant {e : Sexp} (h : (Form.constant e).Over P) : e.Over P := by
  have := h.leaves
  rwa [toSexp] at this

/-- A sequence is over a property if its forms are. -/
theorem sequence_iff : (Form.sequence first rest).Over P ↔
    Words P ∧ ∀ f ∈ first :: rest, f.Over P := by
  refine ⟨fun ⟨hw, h⟩ => ⟨hw, fun f hf => ⟨hw, ?_⟩⟩, fun ⟨hw, h⟩ => ⟨hw, ?_⟩⟩
  · rw [toSexp, ← toSexps] at h
    exact forall_toSexps.1 (List.forall_mem_cons.1 (over_list.1 h)).2 f hf
  · rw [toSexp, ← toSexps]
    exact over_list.2 (List.forall_mem_cons.2
      ⟨over_symbol.2 (hw.keyword .sequence), forall_toSexps.2 fun f hf => (h f hf).leaves⟩)

/-- The body of a function is like a sequence. -/
theorem lambda {params : List Text} (h : (Form.lambda params first rest).Over P) :
    (∀ p ∈ params, P (symbol p)) ∧ (Form.sequence first rest).Over P := by
  obtain ⟨hw, h⟩ := h
  rw [toSexp, ← toSexps, over_list, List.forall_mem_cons, List.forall_mem_cons, forall_toSexps] at h
  obtain ⟨_, hparams, hbody⟩ := h
  refine ⟨fun p hp => ?_, sequence_iff.2 ⟨hw, fun f hf => ⟨hw, hbody f hf⟩⟩⟩
  exact over_symbol.1 (over_list.1 hparams _ (List.mem_map_of_mem hp))

theorem branch (h : (Form.branch test yes no).Over P) :
    test.Over P ∧ yes.Over P ∧ no.Over P := by
  obtain ⟨hw, h⟩ := h
  rw [toSexp, over_list] at h
  exact ⟨⟨hw, h _ (by simp)⟩, ⟨hw, h _ (by simp)⟩, ⟨hw, h _ (by simp)⟩⟩

theorem assign {name : Text} (h : (Form.assign name value).Over P) :
    P (symbol name) ∧ value.Over P := by
  obtain ⟨hw, h⟩ := h
  rw [toSexp, over_list] at h
  exact ⟨over_symbol.1 (h _ (by simp)), hw, h _ (by simp)⟩

theorem letrec {bindings : List (Text × Form)} (h : (Form.letrec bindings first rest).Over P) :
    (∀ b ∈ bindings, P (symbol b.1) ∧ b.2.Over P) ∧ (Form.sequence first rest).Over P := by
  obtain ⟨hw, h⟩ := h
  rw [toSexp, ← toSexps, over_list, List.forall_mem_cons, List.forall_mem_cons, forall_toSexps] at h
  obtain ⟨_, hbindings, hbody⟩ := h
  refine ⟨?_, sequence_iff.2 ⟨hw, fun f hf => ⟨hw, hbody f hf⟩⟩⟩
  clear hbody
  induction bindings with
  | nil => exact nofun
  | cons b bs ih =>
    rw [bindingsToSexps, over_list, List.forall_mem_cons] at hbindings
    have hb := over_list.1 hbindings.1
    exact List.forall_mem_cons.2 ⟨⟨over_symbol.1 (hb _ (by simp)), hw, hb _ (by simp)⟩,
      ih (over_list.2 hbindings.2)⟩

theorem primitive {op : Text} (h : (Form.primitive op args).Over P) :
    P (symbol op) ∧ ∀ f ∈ args, f.Over P := by
  obtain ⟨hw, h⟩ := h
  rw [toSexp, over_list, List.forall_mem_cons, forall_toSexps] at h
  exact ⟨over_symbol.1 h.1, fun f hf => ⟨hw, h.2 f hf⟩⟩

theorem call (h : (Form.call fn args).Over P) : ∀ f ∈ fn :: args, f.Over P := by
  obtain ⟨hw, h⟩ := h
  rw [toSexp, ← toSexps, over_list, forall_toSexps] at h
  exact fun f hf => ⟨hw, h f hf⟩

end Form.Over

/-! ## The leaves of images -/

namespace Target

open Sexp

variable {P : Sexp → Prop}

theorem over_lambda (hw : Words P) {params : List Text} {body : Sexp}
    (hparams : ∀ p ∈ params, P (symbol p)) (hbody : body.Over P) :
    (Target.lambda params body).Over P := by
  have hkeyword : Keyword.lambda.sexp.Over P := over_symbol.2 (hw.keyword .lambda)
  simpa [Target.lambda, hkeyword, hbody] using hparams

theorem over_pass {cont value : Sexp} (hcont : cont.Over P) (hvalue : value.Over P) :
    (Target.pass cont value).Over P := by
  simp [Target.pass, hcont, hvalue]

theorem over_branch (hw : Words P) {test yes no : Sexp} (htest : test.Over P) (hyes : yes.Over P)
    (hno : no.Over P) : (Target.branch test yes no).Over P := by
  have hkeyword : Keyword.branch.sexp.Over P := over_symbol.2 (hw.keyword .branch)
  simp [Target.branch, hkeyword, htest, hyes, hno]

theorem over_assign (hw : Words P) {name : Text} {value cont : Sexp} (hname : P (symbol name))
    (hvalue : value.Over P) (hcont : cont.Over P) : (Target.assign name value cont).Over P := by
  have hset : (Sexp.ofName "set-then!").Over P := over_symbol.2 hw.setThen
  have hundef : (Sexp.ofName "undef").Over P := over_symbol.2 hw.undef
  simp [Target.assign, hset, hname, hvalue, over_pass hcont hundef]

theorem over_letrec (hw : Words P) {bindings : List Sexp} {body : Sexp}
    (hbindings : ∀ b ∈ bindings, b.Over P) (hbody : body.Over P) :
    (Target.letrec bindings body).Over P := by
  have hkeyword : Keyword.letrec.sexp.Over P := over_symbol.2 (hw.keyword .letrec)
  simpa [Target.letrec, hkeyword, hbody] using hbindings

theorem over_call {fn cont : Sexp} {args : List Sexp} (hargs : ∀ a ∈ fn :: args, a.Over P)
    (hcont : cont.Over P) : (Target.call fn args cont).Over P :=
  over_list.2 (List.forall_mem_append.2 ⟨hargs, List.forall_mem_singleton.2 hcont⟩)

theorem over_primitive (hw : Words P) {op : Text} (hop : P (symbol op)) :
    (Target.primitive op).Over P := by
  have hcps : (Sexp.ofName "cps").Over P := over_symbol.2 hw.cps
  simp [Target.primitive, hcps, hop]

end Target

section Images

variable {P : Sexp → Prop}

mutual

/-- The leaves of the image of an atomic form. -/
theorem AtomImage.over {f : Form} {names : List Text} {a : Sexp} :
    AtomImage f names a → f.Over P → (∀ g ∈ names, P (.symbol g)) → a.Over P
  | .constant _, hf, _ => hf.constant
  | .lambda hbody, hf, hn => by
    obtain ⟨hk, hn⟩ := List.forall_mem_cons.1 hn
    obtain ⟨hparams, hf'⟩ := hf.lambda
    exact Target.over_lambda hf.words
      (List.forall_mem_append.2 ⟨hparams, List.forall_mem_singleton.2 hk⟩)
      (hbody.over hf' hn (Sexp.over_symbol.2 hk))
termination_by structural h => h

/-- **The leaves of the image of a form** are words, names, and leaves of the form and of the
continuation. -/
theorem Image.over {f : Form} {c : Sexp} {names : List Text} {out : Sexp} :
    Image f c names out → f.Over P → (∀ g ∈ names, P (.symbol g)) → c.Over P → out.Over P
  | .atom ha, hf, hn, hc => Target.over_pass hc (ha.over hf hn)
  | .branch hyes hno htest, hf, hn, hc => by
    obtain ⟨hn, hn'⟩ := List.forall_mem_append.1 hn
    obtain ⟨hk, hn⟩ := List.forall_mem_cons.1 hn
    obtain ⟨hny, hnn⟩ := List.forall_mem_append.1 hn'
    obtain ⟨ftest, fyes, fno⟩ := hf.branch
    obtain ⟨ha, hbody⟩ := htest.over hf.words (List.forall_mem_singleton.2 ftest) hn
    have hcont := Sexp.over_symbol.2 hk
    refine Target.over_pass (Target.over_lambda hf.words (List.forall_mem_singleton.2 hk) ?_) hc
    exact hbody (Target.over_branch hf.words (ha _ List.mem_cons_self) (hyes.over fyes hny hcont)
      (hno.over fno hnn hcont))
  | .last h, hf, hn, hc => h.over ((Form.Over.sequence_iff.1 hf).2 _ List.mem_cons_self) hn hc
  | .next hrest hfirst, hf, hn, hc => by
    obtain ⟨hn, hn'⟩ := List.forall_mem_append.1 hn
    obtain ⟨hw, hf⟩ := Form.Over.sequence_iff.1 hf
    obtain ⟨ffirst, frest⟩ := List.forall_mem_cons.1 hf
    exact (hfirst.over hw (List.forall_mem_singleton.2 ffirst) hn).2
      (hrest.over (Form.Over.sequence_iff.2 ⟨hw, frest⟩) hn' hc)
  | .assign h, hf, hn, hc => by
    obtain ⟨hname, fvalue⟩ := hf.assign
    obtain ⟨ha, hout⟩ := h.over hf.words (List.forall_mem_singleton.2 fvalue) hn
    exact hout (Target.over_assign hf.words hname (ha _ List.mem_cons_self) hc)
  | .letrec hbindings hbody, hf, hn, hc => by
    obtain ⟨hn, hn'⟩ := List.forall_mem_append.1 hn
    obtain ⟨fbindings, fbody⟩ := hf.letrec
    exact Target.over_letrec hf.words (hbindings.over hf.words fbindings hn)
      (hbody.over fbody hn' hc)
  | .primitive h, hf, hn, hc => by
    obtain ⟨hop, fargs⟩ := hf.primitive
    obtain ⟨has, hout⟩ := h.over hf.words fargs hn
    exact hout (Target.over_call
      (List.forall_mem_cons.2 ⟨Target.over_primitive hf.words hop, has⟩) hc)
  | .call h, hf, hn, hc => by
    obtain ⟨has, hout⟩ := h.over hf.words hf.call hn
    exact hout (Target.over_call has hc)
termination_by structural h => h

/-- The leaves of what holds the operands, and of the code around `body`. -/
theorem OperandsImage.over {fs : List Form} {names : List Text} {as : List Sexp}
    {body out : Sexp} (hw : Words P) : OperandsImage fs names as body out →
    (∀ f ∈ fs, f.Over P) → (∀ g ∈ names, P (.symbol g)) →
    (∀ a ∈ as, a.Over P) ∧ (body.Over P → out.Over P)
  | .nil, _, _ => ⟨nofun, id⟩
  | .atomic ha hrest, hf, hn => by
    obtain ⟨hn, hn'⟩ := List.forall_mem_append.1 hn
    obtain ⟨hf, hfs⟩ := List.forall_mem_cons.1 hf
    obtain ⟨has, hout⟩ := hrest.over hw hfs hn'
    exact ⟨List.forall_mem_cons.2 ⟨ha.over hf hn, has⟩, hout⟩
  | .settled _ hrest h, hf, hn => by
    obtain ⟨hn, hn'⟩ := List.forall_mem_append.1 hn
    obtain ⟨hrv, hn⟩ := List.forall_mem_cons.1 hn
    obtain ⟨hf, hfs⟩ := List.forall_mem_cons.1 hf
    obtain ⟨has, hout⟩ := hrest.over hw hfs hn'
    refine ⟨List.forall_mem_cons.2 ⟨Sexp.over_symbol.2 hrv, has⟩, fun hbody => ?_⟩
    exact h.over hf hn (Target.over_lambda hw (List.forall_mem_singleton.2 hrv) (hout hbody))
termination_by structural h => h

/-- The leaves of bindings. -/
theorem BindingsImage.over {bs : List (Text × Form)} {names : List Text} {es : List Sexp}
    (hw : Words P) : BindingsImage bs names es → (∀ b ∈ bs, P (.symbol b.1) ∧ b.2.Over P) →
    (∀ g ∈ names, P (.symbol g)) → ∀ e ∈ es, e.Over P
  | .nil, _, _ => nofun
  | .cons ha hrest, hb, hn => by
    obtain ⟨hn, hn'⟩ := List.forall_mem_append.1 hn
    obtain ⟨⟨hx, hf⟩, hbs⟩ := List.forall_mem_cons.1 hb
    refine List.forall_mem_cons.2 ⟨?_, hrest.over hw hbs hn'⟩
    simp [hx, ha.over hf hn]
termination_by structural h => h

end

end Images

end PassingStyle
