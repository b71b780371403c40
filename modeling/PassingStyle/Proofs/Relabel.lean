import Mathlib.Logic.Equiv.Basic
import PassingStyle.Proofs.Leaves

/-!
# Two images of one form

Two conversions of one form differ in the names that they draw and in nothing else. On the
conversion itself that is hard to see: a name is drawn in one place, handed to a builder, and
ends up in code that is built later, and the two runs may pick their names in tables that have
nothing in common. The rules for converted programs make it a matter of one induction. The
form decides which rule applies, so two derivations for one form have the same shape, and they
list their names in the same order. Any relabelling of symbols that takes the names of one list
to those of the other, place by place, takes one program to the other, provided that it leaves
alone what both have in common: the symbols of the form and the words of the language.

`Image.relabel` is that induction. `exists_perm_map` provides the relabelling, which is a
permutation of all names, since neither list has a name twice.
-/

namespace PassingStyle

/-! ## Relabelling -/

namespace Sexp

mutual

/-- **Relabelling** the symbols of an expression, wherever they stand. -/
def relabel (σ : Text → Text) : Sexp → Sexp
  | symbol s => symbol (σ s)
  | list xs => list (relabelAll σ xs)
  | e => e

/-- Relabelling the symbols of several expressions. -/
def relabelAll (σ : Text → Text) : List Sexp → List Sexp
  | [] => []
  | x :: xs => relabel σ x :: relabelAll σ xs

end

variable {σ : Text → Text}

@[simp] theorem relabel_symbol (s : Text) : (symbol s).relabel σ = symbol (σ s) := by
  rw [relabel]

@[simp] theorem relabel_list (xs : List Sexp) : (list xs).relabel σ = list (relabelAll σ xs) := by
  rw [relabel]

/-- Several expressions are relabelled one by one. -/
theorem relabelAll_eq_map (xs : List Sexp) : relabelAll σ xs = xs.map (relabel σ) := by
  induction xs with
  | nil => rfl
  | cons x xs ih => rw [relabelAll, ih, List.map_cons]

/-- **An expression that stays** as it is. -/
def Stays (σ : Text → Text) (e : Sexp) : Prop :=
  e.relabel σ = e

@[simp] theorem stays_symbol {s : Text} : (symbol s).Stays σ ↔ σ s = s := by
  rw [Stays, relabel_symbol, symbol.injEq]

mutual

/-- An expression stays if its leaves do. -/
theorem relabel_eq_self : ∀ e : Sexp, e.Over (Stays σ) → e.relabel σ = e
  | list xs, h => by rw [relabel_list, relabelAll_eq_self xs (over_list.1 h)]
  | symbol s, h => by rw [relabel_symbol, stays_symbol.1 (over_symbol.1 h)]
  | absent, _ | number _, _ | str _, _ | bool _, _ | nil, _ | dot, _ => by rw [relabel] <;> simp

/-- Several expressions stay if their leaves do. -/
theorem relabelAll_eq_self : ∀ xs : List Sexp, (∀ x ∈ xs, x.Over (Stays σ)) → relabelAll σ xs = xs
  | [], _ => rfl
  | x :: xs, h => by
    obtain ⟨hx, hxs⟩ := List.forall_mem_cons.1 h
    rw [relabelAll, relabel_eq_self x hx, relabelAll_eq_self xs hxs]

end

/-- The leaves of an expression stay if its symbols do. -/
theorem over_stays {e : Sexp} (h : ∀ s ∈ e.symbols, σ s = s) : e.Over (Stays σ) := by
  intro a ha
  have hatom := isList_of_mem_leaves ha
  cases a with
  | symbol s => exact stays_symbol.2 (h s (symbol_mem_leaves.1 ha))
  | list xs => cases hatom
  | _ => rw [Stays, relabel] <;> simp

end Sexp

/-- **The words of the language stay** if all names do that do not end in a digit. -/
theorem Words.stays {σ : Text → Text} (h : ∀ x : Text, ¬ x.EndsInDigit → σ x = x) :
    Words (Sexp.Stays σ) := by
  have hword : ∀ {x : Text} {b : UInt8}, x.getLast? = some b → Text.isDigit b = false →
      (Sexp.symbol x).Stays σ := fun hlast hb =>
    Sexp.stays_symbol.2 (h _ fun hdigit => hdigit.ne hlast hb rfl)
  refine ⟨fun k => Sexp.stays_symbol.2 (h _ fun hdigit => ?_), hword rfl rfl, hword rfl rfl,
    hword rfl rfl⟩
  have := hdigit.keyword_eq_none
  cases k <;> cases this

/-! ### The pieces of converted programs -/

namespace Target

open Sexp

variable {σ : Text → Text}

theorem relabel_lambda (h : Words (Stays σ)) (params : List Text) (body : Sexp) :
    (Target.lambda params body).relabel σ = Target.lambda (params.map σ) (body.relabel σ) := by
  have hkeyword : Keyword.lambda.sexp.relabel σ = Keyword.lambda.sexp := h.keyword .lambda
  simp [Target.lambda, relabelAll, hkeyword, relabelAll_eq_map, Function.comp_def]

theorem relabel_pass (cont value : Sexp) :
    (Target.pass cont value).relabel σ = Target.pass (cont.relabel σ) (value.relabel σ) := by
  simp [Target.pass, relabelAll]

theorem relabel_branch (h : Words (Stays σ)) (test yes no : Sexp) :
    (Target.branch test yes no).relabel σ =
      Target.branch (test.relabel σ) (yes.relabel σ) (no.relabel σ) := by
  have hkeyword : Keyword.branch.sexp.relabel σ = Keyword.branch.sexp := h.keyword .branch
  simp [Target.branch, relabelAll, hkeyword]

theorem relabel_assign (h : Words (Stays σ)) (name : Text) (value cont : Sexp) :
    (Target.assign name value cont).relabel σ =
      Target.assign (σ name) (value.relabel σ) (cont.relabel σ) := by
  have hset := stays_symbol.1 h.setThen
  have hundef := stays_symbol.1 h.undef
  simp [Target.assign, relabelAll, relabel_pass, hset, hundef]

theorem relabel_letrec (h : Words (Stays σ)) (bindings : List Sexp) (body : Sexp) :
    (Target.letrec bindings body).relabel σ =
      Target.letrec (relabelAll σ bindings) (body.relabel σ) := by
  have hkeyword : Keyword.letrec.sexp.relabel σ = Keyword.letrec.sexp := h.keyword .letrec
  simp [Target.letrec, relabelAll, hkeyword]

theorem relabel_call (fn : Sexp) (args : List Sexp) (cont : Sexp) :
    (Target.call fn args cont).relabel σ =
      Target.call (fn.relabel σ) (relabelAll σ args) (cont.relabel σ) := by
  simp [Target.call, relabelAll_eq_map]

theorem relabel_primitive (h : Words (Stays σ)) (op : Text) :
    (Target.primitive op).relabel σ = Target.primitive (σ op) := by
  have hcps := stays_symbol.1 h.cps
  simp [Target.primitive, relabelAll, hcps]

end Target


/-! ## Two images of one form -/

/-- Only atomic forms have an image by themselves. -/
theorem AtomImage.isAtomic {f : Form} {names : List Text} {a : Sexp} (h : AtomImage f names a) :
    f.isAtomic = true := by
  cases h <;> rfl

/-- Names that stay. -/
theorem map_eq_self {σ : Text → Text} {names : List Text}
    (h : ∀ s ∈ names, (Sexp.symbol s).Stays σ) : names.map σ = names :=
  (List.map_congr_left fun s hs => Sexp.stays_symbol.1 (h s hs)).trans (List.map_id' _)

/-- Names in two parts. -/
theorem map_append_eq {σ : Text → Text} {names₁ names₂ names₁' names₂' : List Text}
    (h : (names₁ ++ names₂).map σ = names₁' ++ names₂') (hlength : names₁.length = names₁'.length) :
    names₁.map σ = names₁' ∧ names₂.map σ = names₂' := by
  rw [List.map_append] at h
  exact List.append_inj h (by rw [List.length_map, hlength])

mutual

/-- Two images of an atomic form. -/
theorem AtomImage.relabel {f : Form} {names names' : List Text} {a a' : Sexp} :
    AtomImage f names a → AtomImage f names' a' → names.length = names'.length ∧
      ∀ {σ : Text → Text}, f.Over (Sexp.Stays σ) → names.map σ = names' → a.relabel σ = a'
  | .constant e, h' => by
    cases h' with
    | constant =>
      exact ⟨rfl, fun hf _ => Sexp.relabel_eq_self _ hf.constant⟩
  | .lambda hbody, h' => by
    cases h' with
    | lambda hbody' =>
      obtain ⟨hlength, hrelabel⟩ := hbody.relabel hbody'
      refine ⟨by simp [hlength], fun {σ} hf hnames => ?_⟩
      obtain ⟨hk, hnames⟩ := List.cons.inj hnames
      obtain ⟨hparams, hf⟩ := hf.lambda
      rw [Target.relabel_lambda hf.words, hrelabel hf (by rw [Sexp.relabel_symbol, hk]) hnames,
        List.map_append, map_eq_self hparams, List.map_singleton, hk]
termination_by structural h _ => h

/-- **Two images of a form** have equally many names. A relabelling that takes the names and
the continuation of one to those of the other takes one program to the other. -/
theorem Image.relabel {f : Form} {c c' : Sexp} {names names' : List Text} {out out' : Sexp} :
    Image f c names out → Image f c' names' out' → names.length = names'.length ∧
      ∀ {σ : Text → Text}, f.Over (Sexp.Stays σ) → c.relabel σ = c' → names.map σ = names' →
        out.relabel σ = out'
  | .atom ha, h' => by
    cases h' with
    | atom ha' =>
      obtain ⟨hlength, hrelabel⟩ := ha.relabel ha'
      refine ⟨hlength, fun hf hc hnames => ?_⟩
      rw [Target.relabel_pass, hc, hrelabel hf hnames]
    | _ => cases ha
  | .branch hyes hno htest, h' => by
    cases h' with
    | atom ha' => cases ha'
    | branch hyes' hno' htest' =>
      obtain ⟨hlengthYes, hyes⟩ := hyes.relabel hyes'
      obtain ⟨hlengthNo, hno⟩ := hno.relabel hno'
      obtain ⟨hlength, htest⟩ := htest.relabel htest'
      refine ⟨by simp [hlength, hlengthYes, hlengthNo], fun {σ} hf hc hnames => ?_⟩
      obtain ⟨vtest, vyes, vno⟩ := hf.branch
      obtain ⟨hnames, hnames'⟩ := map_append_eq hnames (by simp [hlength])
      obtain ⟨hk, hnames⟩ := List.cons.inj hnames
      obtain ⟨hnamesYes, hnamesNo⟩ := map_append_eq hnames' hlengthYes
      have hcont := (Sexp.relabel_symbol _).trans (congrArg Sexp.symbol hk)
      obtain ⟨ha, hbody⟩ := htest (List.forall_mem_singleton.2 vtest) hnames
      obtain ⟨ha, _⟩ := List.cons.inj ha
      rw [Target.relabel_pass, Target.relabel_lambda hf.words, hc, List.map_singleton, hk, hbody]
      rw [Target.relabel_branch hf.words, ha, hyes vyes hcont hnamesYes, hno vno hcont hnamesNo]
  | .last h, h' => by
    cases h' with
    | atom ha' => cases ha'
    | last h' =>
      obtain ⟨hlength, hrelabel⟩ := h.relabel h'
      exact ⟨hlength, fun hf hc hnames =>
        hrelabel ((Form.Over.sequence_iff.1 hf).2 _ List.mem_cons_self) hc hnames⟩
  | .next hrest hfirst, h' => by
    cases h' with
    | atom ha' => cases ha'
    | next hrest' hfirst' =>
      obtain ⟨hlengthRest, hrest⟩ := hrest.relabel hrest'
      obtain ⟨hlength, hfirst⟩ := hfirst.relabel hfirst'
      refine ⟨by simp [hlength, hlengthRest], fun hf hc hnames => ?_⟩
      obtain ⟨hw, hf⟩ := Form.Over.sequence_iff.1 hf
      obtain ⟨hfirstFixed, hrestFixed⟩ := List.forall_mem_cons.1 hf
      obtain ⟨hnames, hnamesRest⟩ := map_append_eq hnames hlength
      exact (hfirst (List.forall_mem_singleton.2 hfirstFixed) hnames).2
        (hrest (Form.Over.sequence_iff.2 ⟨hw, hrestFixed⟩) hc hnamesRest)
  | .assign h, h' => by
    cases h' with
    | atom ha' => cases ha'
    | assign h' =>
      obtain ⟨hlength, hrelabel⟩ := h.relabel h'
      refine ⟨hlength, fun hf hc hnames => ?_⟩
      obtain ⟨hname, hvalue⟩ := hf.assign
      obtain ⟨ha, hout⟩ := hrelabel (List.forall_mem_singleton.2 hvalue) hnames
      refine hout ?_
      rw [Target.relabel_assign hf.words, Sexp.stays_symbol.1 hname, (List.cons.inj ha).1, hc]
  | .letrec hbindings hbody, h' => by
    cases h' with
    | atom ha' => cases ha'
    | letrec hbindings' hbody' =>
      obtain ⟨hlength, hbindings⟩ := hbindings.relabel hbindings'
      obtain ⟨hlengthBody, hbody⟩ := hbody.relabel hbody'
      refine ⟨by simp [hlength, hlengthBody], fun hf hc hnames => ?_⟩
      obtain ⟨hnames, hnamesBody⟩ := map_append_eq hnames hlength
      obtain ⟨hbs, hfbody⟩ := hf.letrec
      rw [Target.relabel_letrec hf.words, hbindings hbs hnames, hbody hfbody hc hnamesBody]
  | .primitive h, h' => by
    cases h' with
    | atom ha' => cases ha'
    | primitive h' =>
      obtain ⟨hlength, hrelabel⟩ := h.relabel h'
      refine ⟨hlength, fun hf hc hnames => ?_⟩
      obtain ⟨hop, hargs⟩ := hf.primitive
      obtain ⟨has, hout⟩ := hrelabel hargs hnames
      refine hout ?_
      rw [Target.relabel_call, Target.relabel_primitive hf.words, Sexp.stays_symbol.1 hop, has,
        hc]
  | .call h, h' => by
    cases h' with
    | atom ha' => cases ha'
    | call h' =>
      obtain ⟨hlength, hrelabel⟩ := h.relabel h'
      refine ⟨hlength, fun hf hc hnames => ?_⟩
      obtain ⟨has, hout⟩ := hrelabel hf.call hnames
      obtain ⟨ha, has⟩ := List.cons.inj has
      refine hout ?_
      rw [Target.relabel_call, ha, has, hc]
termination_by structural h _ => h

/-- Two images of several forms: what holds their values is relabelled, and so is the code
before `body`, if `body` is. -/
theorem OperandsImage.relabel {fs : List Form} {names names' : List Text} {as as' : List Sexp}
    {body body' out out' : Sexp} :
    OperandsImage fs names as body out → OperandsImage fs names' as' body' out' →
      names.length = names'.length ∧
      ∀ {σ : Text → Text}, (∀ f ∈ fs, f.Over (Sexp.Stays σ)) → names.map σ = names' →
        Sexp.relabelAll σ as = as' ∧ (body.relabel σ = body' → out.relabel σ = out')
  | .nil, h' => by
    cases h' with
    | nil => exact ⟨rfl, fun _ _ => ⟨rfl, id⟩⟩
  | .atomic ha hrest, h' => by
    cases h' with
    | atomic ha' hrest' =>
      obtain ⟨hlength, ha⟩ := ha.relabel ha'
      obtain ⟨hlengthRest, hrest⟩ := hrest.relabel hrest'
      refine ⟨by simp [hlength, hlengthRest], fun hf hnames => ?_⟩
      obtain ⟨hf, hfs⟩ := List.forall_mem_cons.1 hf
      obtain ⟨hnames, hnamesRest⟩ := map_append_eq hnames hlength
      obtain ⟨has, hout⟩ := hrest hfs hnamesRest
      exact ⟨by rw [Sexp.relabelAll, ha hf hnames, has], hout⟩
    | settled hf _ _ =>
      rw [ha.isAtomic] at hf
      cases hf
  | .settled hatomic hrest h, h' => by
    cases h' with
    | atomic ha' _ =>
      rw [ha'.isAtomic] at hatomic
      cases hatomic
    | settled _ hrest' h' =>
      obtain ⟨hlengthRest, hrest⟩ := hrest.relabel hrest'
      obtain ⟨hlength, h⟩ := h.relabel h'
      refine ⟨by simp [hlength, hlengthRest], fun {σ} hf hnames => ?_⟩
      obtain ⟨hf, hfs⟩ := List.forall_mem_cons.1 hf
      obtain ⟨hnames, hnamesRest⟩ := map_append_eq hnames (by simp [hlength])
      obtain ⟨hrv, hnames⟩ := List.cons.inj hnames
      obtain ⟨has, hout⟩ := hrest hfs hnamesRest
      refine ⟨by rw [Sexp.relabelAll, Sexp.relabel_symbol, hrv, has], fun hbody => h hf ?_ hnames⟩
      rw [Target.relabel_lambda hf.words, List.map_singleton, hrv, hout hbody]
termination_by structural h _ => h

/-- Two images of the bindings of a recursive binding. -/
theorem BindingsImage.relabel {bs : List (Text × Form)} {names names' : List Text}
    {es es' : List Sexp} : BindingsImage bs names es → BindingsImage bs names' es' →
      names.length = names'.length ∧
      ∀ {σ : Text → Text}, (∀ b ∈ bs, (Sexp.symbol b.1).Stays σ ∧ b.2.Over (Sexp.Stays σ)) → names.map σ = names' →
        Sexp.relabelAll σ es = es'
  | .nil, h' => by
    cases h' with
    | nil => exact ⟨rfl, fun _ _ => rfl⟩
  | .cons ha hrest, h' => by
    cases h' with
    | cons ha' hrest' =>
      obtain ⟨hlength, ha⟩ := ha.relabel ha'
      obtain ⟨hlengthRest, hrest⟩ := hrest.relabel hrest'
      refine ⟨by simp [hlength, hlengthRest], fun hf hnames => ?_⟩
      obtain ⟨⟨hx, hf⟩, hfs⟩ := List.forall_mem_cons.1 hf
      obtain ⟨hnames, hnamesRest⟩ := map_append_eq hnames hlength
      rw [Sexp.relabelAll, hrest hfs hnamesRest, Sexp.relabel_list, Sexp.relabelAll,
        Sexp.relabel_symbol, Sexp.relabelAll, ha hf hnames, Sexp.stays_symbol.1 hx,
        Sexp.relabelAll]
termination_by structural h _ => h

end

/-! ## A permutation between two lists of names -/

/-- **Two lists of names that are as long as each other** have a permutation between them, if
no name stands twice in one of them. It moves none but these names. -/
theorem exists_perm_map {names names' : List Text} (hlength : names.length = names'.length)
    (hnames : names.Nodup) (hnames' : names'.Nodup) : ∃ σ : Equiv.Perm Text,
      names.map σ = names' ∧ ∀ x, σ x ≠ x → x ∈ names ∨ x ∈ names' := by
  induction names generalizing names' with
  | nil =>
    cases names' with
    | nil => exact ⟨Equiv.refl Text, rfl, fun x hx => absurd rfl hx⟩
    | cons y ys => cases hlength
  | cons x xs ih =>
    cases names' with
    | nil => cases hlength
    | cons y ys =>
      obtain ⟨hx, hxs⟩ := List.nodup_cons.1 hnames
      obtain ⟨hy, hys⟩ := List.nodup_cons.1 hnames'
      obtain ⟨τ, hmap, hmoved⟩ := ih (Nat.succ.inj hlength) hxs hys
      -- afterwards the image of `x` is exchanged for `y`, which is no other name's image
      have hkeep : ∀ z, z ≠ x → τ z ≠ y → (τ.trans (Equiv.swap (τ x) y)) z = τ z := fun z hzx hzy =>
        Equiv.swap_apply_of_ne_of_ne (fun h => hzx (τ.injective h)) hzy
      refine ⟨τ.trans (Equiv.swap (τ x) y), ?_, fun z hz => ?_⟩
      · rw [List.map_cons, Equiv.trans_apply, Equiv.swap_apply_left, ← hmap]
        refine congrArg _ (List.map_congr_left fun z hz => hkeep z (fun h => hx (h ▸ hz)) fun h => ?_)
        exact hy (h ▸ hmap ▸ List.mem_map_of_mem hz)
      · by_cases hzx : z = x
        · exact Or.inl (hzx ▸ List.mem_cons_self)
        by_cases hzτ : τ z = z
        · by_cases hzy : z = y
          · exact Or.inr (hzy ▸ List.mem_cons_self)
          · exact absurd ((hkeep z hzx fun h => hzy (hzτ.symm.trans h)).trans hzτ) hz
        · exact (hmoved z hzτ).imp (List.mem_cons_of_mem x) (List.mem_cons_of_mem y)

end PassingStyle
