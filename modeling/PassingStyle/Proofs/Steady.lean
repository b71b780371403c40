import PassingStyle.Proofs.Nameless
import PassingStyle.Proofs.Relabel

/-!
# Relabelling keeps the nameless form

The names that a conversion makes up are bound where they are used. A relabelling that moves
no other names therefore gives a program with the same nameless form, which is to say an
alpha-equivalent one.

An expression is *steady* for some names if its nameless form does not change inside scopes
that bind these names. The image of a form is steady if its continuation is: each name that was
drawn is bound around all its uses. For operands the names are those that are bound between
them and the code that comes after them. The final continuation must be neither `quote` nor
`lambda`, since a value that is handed to one of these words would be data, or the parameters of
a function.
-/

namespace PassingStyle

open Sexp Nameless

/-! ## Addresses -/

namespace Nameless

variable {σ : Text → Text}

/-- Names stand at the same places after a one-to-one relabelling. -/
theorem address?_map (hσ : Function.Injective σ) (scopes : List (List Text)) (s : Text) :
    address? (scopes.map (List.map σ)) (σ s) = address? scopes s := by
  induction scopes with
  | nil => rfl
  | cons scope scopes ih =>
    have hplace : (scope.map σ).idxOf? (σ s) = scope.idxOf? s := by
      induction scope with
      | nil => rfl
      | cons x scope ih' => simp [List.idxOf?_cons, hσ.eq_iff, ih']
    rw [List.map_cons, address?, address?, hplace, ih]

/-- A name that one of the scopes binds has an address. -/
theorem address?_ne_none {scopes : List (List Text)} {s : Text} (h : s ∈ scopes.flatten) :
    address? scopes s ≠ none := by
  induction scopes with
  | nil => exact absurd h List.not_mem_nil
  | cons scope scopes ih =>
    by_cases hs : s ∈ scope
    · rw [address?_cons_of_mem hs, Ne, Option.map_eq_none_iff, List.idxOf?_eq_none_iff]
      exact fun hnot => hnot hs
    · rw [address?_cons_of_not_mem hs, Ne, Option.map_eq_none_iff]
      exact ih ((List.mem_append.1 h).resolve_left hs)

end Nameless

/-! ## Steady expressions -/

/-- **An expression is steady** under a relabelling if it keeps its nameless form, inside all
scopes that bind the names `bound`. -/
def Sexp.Steady (σ : Text → Text) (bound : List Text) (e : Sexp) : Prop :=
  ∀ scopes : List (List Text), (∀ x ∈ bound, x ∈ scopes.flatten) →
    nameless (scopes.map (List.map σ)) (e.relabel σ) = nameless scopes e

namespace Sexp.Steady

variable {σ : Text → Text} {bound bound' : List Text}

/-- Only fewer scopes are left if more names have to be bound. -/
theorem mono {e : Sexp} (h : e.Steady σ bound) (hsub : ∀ x ∈ bound, x ∈ bound') :
    e.Steady σ bound' := fun scopes hscopes => h scopes fun x hx => hscopes x (hsub x hx)

/-- A variable that is bound, or that keeps its name. -/
theorem symbol (hσ : Function.Injective σ) {x : Text} (h : x ∈ bound ∨ (Sexp.symbol x).Stays σ) :
    (Sexp.symbol x).Steady σ bound := by
  intro scopes hscopes
  rw [relabel_symbol, nameless, nameless, reference, reference, address?_map hσ]
  cases haddress : address? scopes x with
  | some a => rfl
  | none =>
    rcases h with h | h
    · exact absurd haddress (address?_ne_none (hscopes x h))
    · rw [stays_symbol.1 h]

/-- A constant that is left as it is. -/
theorem constant (hσ : Function.Injective σ) {e : Sexp} (hc : Form.IsConstant e)
    (h : e.Over (Stays σ)) : e.Steady σ bound := by
  rcases hc with hl | ⟨d, rfl⟩
  · cases e with
    | symbol s => exact symbol hσ (Or.inr (over_symbol.1 h))
    | list es => cases hl
    | _ => exact fun _ _ => rfl
  · intro scopes _
    rw [relabel_eq_self _ h]
    rfl

/-- Several expressions. -/
theorem namelessAll_eq {es : List Sexp} (h : ∀ e ∈ es, e.Steady σ bound)
    {scopes : List (List Text)} (hscopes : ∀ x ∈ bound, x ∈ scopes.flatten) :
    namelessAll (scopes.map (List.map σ)) (relabelAll σ es) = namelessAll scopes es := by
  induction es with
  | nil => rfl
  | cons e es ih =>
    obtain ⟨he, hes⟩ := List.forall_mem_cons.1 h
    rw [relabelAll, namelessAll, namelessAll, he scopes hscopes, ih hes]

/-- A plain list. -/
theorem list {head : Sexp} {args : List Sexp} (hplain : Scopeless head args)
    (hplain' : Scopeless (head.relabel σ) (relabelAll σ args))
    (h : ∀ e ∈ head :: args, e.Steady σ bound) : (Sexp.list (head :: args)).Steady σ bound := by
  intro scopes hscopes
  rw [relabel_list, relabelAll, hplain'.nameless_eq, hplain.nameless_eq, ← relabelAll,
    namelessAll_eq h hscopes]

end Sexp.Steady

/-- A list whose head is no keyword is plain. -/
theorem Sexp.scopeless_of_keyword {head : Sexp} (h : Keyword.of? head = none) (args : List Sexp) :
    Scopeless head args :=
  ⟨by rw [h]; nofun, by rw [h]; nofun, by rw [h]; nofun⟩

/-- **Code that can be handed a value**: in front of one value it makes neither data nor a
function. -/
def Sexp.TakesValue (c : Sexp) : Prop :=
  Keyword.of? c ≠ some .quote ∧ Keyword.of? c ≠ some .lambda

namespace Sexp.TakesValue

variable {c : Sexp}

theorem of_keyword (h : Keyword.of? c = none) : c.TakesValue := by
  rw [TakesValue, h]
  exact ⟨nofun, nofun⟩

/-- Code with a value is a plain list. -/
theorem scopeless (h : c.TakesValue) (value : Sexp) : Scopeless c [value] :=
  ⟨fun hk => absurd hk h.1, fun hk => absurd hk h.2, fun _ _ _ _ hargs => by cases hargs⟩

end Sexp.TakesValue

namespace Words

variable {σ : Text → Text}

/-- An expression becomes a keyword by a one-to-one relabelling that keeps them only if it is
that keyword. -/
theorem keyword_of_relabel (hw : Words (Stays σ)) (hσ : Function.Injective σ) {e : Sexp}
    {k : Keyword} (h : Keyword.of? (e.relabel σ) = some k) : Keyword.of? e = some k := by
  cases e with
  | symbol s =>
    have heq := (Keyword.eq_sexp_of_of? h).trans (hw.keyword k).symm
    rw [Keyword.sexp, relabel_symbol, relabel_symbol] at heq
    rw [hσ (Sexp.symbol.inj heq)]
    exact Keyword.of?_sexp k
  | _ => cases h

/-- No other expression becomes a keyword. -/
theorem keyword_relabel (hw : Words (Stays σ)) (hσ : Function.Injective σ) {e : Sexp}
    (h : Keyword.of? e = none) : Keyword.of? (e.relabel σ) = none :=
  Option.eq_none_iff_forall_ne_some.2 fun _ hk =>
    nomatch (hw.keyword_of_relabel hσ hk).symm.trans h

/-- Code can be handed a value after the relabelling as well. -/
theorem takesValue_relabel (hw : Words (Stays σ)) (hσ : Function.Injective σ) {c : Sexp}
    (h : c.TakesValue) : (c.relabel σ).TakesValue :=
  ⟨mt (hw.keyword_of_relabel hσ) h.1, mt (hw.keyword_of_relabel hσ) h.2⟩

end Words

namespace Target

variable {σ : Text → Text} {bound : List Text}

/-- A function binds its parameters. -/
theorem steady_lambda (hw : Words (Stays σ)) {params : List Text} {body : Sexp}
    (h : body.Steady σ (params ++ bound)) : (Target.lambda params body).Steady σ bound := by
  intro scopes hscopes
  have hbody := h (params :: scopes) fun x hx => by
    rw [List.flatten_cons]
    rcases List.mem_append.1 hx with hx | hx
    · exact List.mem_append_left _ hx
    · exact List.mem_append_right _ (hscopes x hx)
  rw [relabel_lambda hw, Target.lambda, Target.lambda, nameless_lambda rfl, nameless_lambda rfl,
    filterMap_parameterName?, filterMap_parameterName?, map_unnamed, map_unnamed, List.length_map]
  rw [List.map_cons] at hbody
  rw [namelessAll, namelessAll, hbody]
  rfl

/-- A recursive binding binds its names. -/
theorem steady_letrec (hw : Words (Stays σ)) {pairs : List (Text × Sexp)} {body : Sexp}
    (hpairs : ∀ b ∈ pairs, b.2.Steady σ (pairs.map Prod.fst ++ bound))
    (h : body.Steady σ (pairs.map Prod.fst ++ bound)) :
    (Target.letrec (pairs.map fun b => .list [.symbol b.1, b.2]) body).Steady σ bound := by
  intro scopes hscopes
  have hin : ∀ x ∈ pairs.map Prod.fst ++ bound, x ∈ (pairs.map Prod.fst :: scopes).flatten := by
    intro x hx
    rw [List.flatten_cons]
    rcases List.mem_append.1 hx with hx | hx
    · exact List.mem_append_left _ hx
    · exact List.mem_append_right _ (hscopes x hx)
  have hrelabel : ∀ pairs : List (Text × Sexp),
      relabelAll σ (pairs.map fun b => .list [.symbol b.1, b.2]) =
        (pairs.map fun b => (σ b.1, b.2.relabel σ)).map fun b => .list [.symbol b.1, b.2] := by
    intro pairs
    rw [relabelAll_eq_map, List.map_map, List.map_map]
    exact List.map_congr_left fun b _ => by simp [relabelAll]
  have hnames : (pairs.map fun b => (σ b.1, b.2.relabel σ)).map Prod.fst =
      (pairs.map Prod.fst).map σ := by
    rw [List.map_map, List.map_map]
    rfl
  have hvalues : ∀ inner : List (Text × Sexp), inner ⊆ pairs →
      namelessBindings ((pairs.map Prod.fst :: scopes).map (List.map σ))
        ((inner.map fun b => (σ b.1, b.2.relabel σ)).map fun b => .list [.symbol b.1, b.2]) =
      namelessBindings (pairs.map Prod.fst :: scopes)
        (inner.map fun b => .list [.symbol b.1, b.2]) := by
    intro inner hinner
    induction inner with
    | nil => rfl
    | cons b inner ih =>
      obtain ⟨hb, hinner⟩ := List.cons_subset.1 hinner
      simp only [List.map_cons, namelessBindings]
      rw [← List.map_cons, hpairs b hb _ hin, ih hinner]
  rw [relabel_letrec hw, hrelabel, Target.letrec, Target.letrec, nameless_letrec rfl,
    nameless_letrec rfl, filterMap_bindingName?, filterMap_bindingName?, hnames, ← List.map_cons,
    hvalues pairs (List.Subset.refl _), namelessAll, namelessAll, h _ hin]
  rfl

/-- Any other piece whose head is no keyword binds nothing. -/
theorem steady_list (hw : Words (Stays σ)) (hσ : Function.Injective σ) {head : Sexp}
    {args : List Sexp} (hhead : Keyword.of? head = none)
    (h : ∀ e ∈ head :: args, e.Steady σ bound) : (Sexp.list (head :: args)).Steady σ bound :=
  .list (scopeless_of_keyword hhead args)
    (scopeless_of_keyword (hw.keyword_relabel hσ hhead) _) h

/-- A branch binds nothing, though its head is a keyword. -/
theorem steady_branch (hw : Words (Stays σ)) (hσ : Function.Injective σ) {test yes no : Sexp}
    (htest : test.Steady σ bound) (hyes : yes.Steady σ bound) (hno : no.Steady σ bound) :
    (Target.branch test yes no).Steady σ bound := by
  have hplain : ∀ args, Scopeless Keyword.branch.sexp args := fun args =>
    ⟨by nofun, by nofun, by nofun⟩
  refine .list (hplain _) (by rw [hw.keyword]; exact hplain _) ?_
  have hword : Keyword.branch.sexp.Steady σ bound := .symbol hσ (Or.inr (hw.keyword .branch))
  simp [hword, htest, hyes, hno]

/-- A value that is passed on stays in its place. -/
theorem steady_pass (hw : Words (Stays σ)) (hσ : Function.Injective σ) {cont value : Sexp}
    (htakes : cont.TakesValue) (hcont : cont.Steady σ bound)
    (hvalue : value.Steady σ bound) : (Target.pass cont value).Steady σ bound :=
  .list (htakes.scopeless _) ((hw.takesValue_relabel hσ htakes).scopeless _)
    (by simp [hcont, hvalue])

theorem steady_assign (hw : Words (Stays σ)) (hσ : Function.Injective σ) {name : Text}
    {value cont : Sexp} (hname : (symbol name).Stays σ) (htakes : cont.TakesValue)
    (hvalue : value.Steady σ bound) (hcont : cont.Steady σ bound) :
    (Target.assign name value cont).Steady σ bound := by
  have hset : (Sexp.ofName "set-then!").Steady σ bound := .symbol hσ (Or.inr hw.setThen)
  have hundef : (Sexp.ofName "undef").Steady σ bound := .symbol hσ (Or.inr hw.undef)
  have hname : (Sexp.symbol name).Steady σ bound := .symbol hσ (Or.inr hname)
  have hpass := steady_pass hw hσ htakes hcont hundef
  exact steady_list hw hσ rfl (by simp [hset, hname, hvalue, hpass])

theorem steady_call (hw : Words (Stays σ)) (hσ : Function.Injective σ) {fn cont : Sexp}
    {args : List Sexp} (hkeyword : Keyword.of? fn = none)
    (hargs : ∀ a ∈ fn :: args, a.Steady σ bound) (hcont : cont.Steady σ bound) :
    (Target.call fn args cont).Steady σ bound := by
  refine steady_list hw hσ hkeyword fun e he => ?_
  rcases List.mem_append.1 (List.cons_append ▸ he : e ∈ (fn :: args) ++ [cont]) with he | he
  · exact hargs e he
  · rwa [List.mem_singleton.1 he]

theorem steady_primitive (hw : Words (Stays σ)) (hσ : Function.Injective σ) {op : Text}
    (hop : (symbol op).Stays σ) : (Target.primitive op).Steady σ bound := by
  have hcps : (Sexp.ofName "cps").Steady σ bound := .symbol hσ (Or.inr hw.cps)
  have hop : (Sexp.symbol op).Steady σ bound := .symbol hσ (Or.inr hop)
  exact steady_list hw hσ rfl (by simp [hcps, hop])

end Target

/-! ## Converted programs are steady -/

section Images

variable {isPrimitive : Text → Bool} {σ : Text → Text}

mutual

/-- The image of an atomic form is closed but for the symbols of the form. -/
theorem AtomImage.steady (hσ : Function.Injective σ) {f : Form} {names : List Text} {a : Sexp} :
    AtomImage f names a → f.Valid isPrimitive → f.Over (Stays σ) → (∀ g ∈ names, g.EndsInDigit) →
    a.Steady σ []
  | .constant e, hv, hf, _ => by
    cases hv with
    | constant hc =>
      exact .constant hσ hc hf.constant
  | .lambda hbody, hv, hf, hn => by
    obtain ⟨hk, hn⟩ := List.forall_mem_cons.1 hn
    cases hv with
    | lambda vfirst vrest =>
      refine Target.steady_lambda hf.words ?_
      exact hbody.steady hσ (.sequence vfirst vrest) hf.lambda.2 hn (.of_keyword hk.keyword_eq_none)
        (.symbol hσ (Or.inl (by simp)))
termination_by structural h => h

/-- **The image of a form** is as steady as its continuation. -/
theorem Image.steady (hσ : Function.Injective σ) {f : Form} {c : Sexp} {names : List Text}
    {out : Sexp} {bound : List Text} : Image f c names out → f.Valid isPrimitive → f.Over (Stays σ) →
    (∀ g ∈ names, g.EndsInDigit) → c.TakesValue → c.Steady σ bound → out.Steady σ bound
  | .atom ha, hv, hf, hn, hk, hc =>
    Target.steady_pass hf.words hσ hk hc ((ha.steady hσ hv hf hn).mono nofun)
  | .branch hyes hno htest, hv, hf, hn, hk, hc => by
    obtain ⟨hn, hn'⟩ := List.forall_mem_append.1 hn
    obtain ⟨hkdigit, hn⟩ := List.forall_mem_cons.1 hn
    obtain ⟨hny, hnn⟩ := List.forall_mem_append.1 hn'
    obtain ⟨ftest, fyes, fno⟩ := hf.branch
    cases hv with
    | branch vtest vyes vno =>
      obtain ⟨held, ha, hbody⟩ := htest.steady hσ hf.words (by simpa using vtest)
        (by simpa using ftest) hn
      refine Target.steady_pass hf.words hσ (.of_keyword rfl)
        (Target.steady_lambda hf.words (hbody ?_)) hc
      have hcont : ∀ {k : Text}, (Sexp.symbol k).Steady σ (held ++ ([k] ++ bound)) :=
        .symbol hσ (Or.inl (by simp))
      exact Target.steady_branch hf.words hσ
        ((ha _ List.mem_cons_self).mono fun x hx => List.mem_append_left _ hx)
        (hyes.steady hσ vyes fyes hny (.of_keyword hkdigit.keyword_eq_none) hcont)
        (hno.steady hσ vno fno hnn (.of_keyword hkdigit.keyword_eq_none) hcont)
  | .last h, hv, hf, hn, hk, hc => by
    cases hv with
    | sequence vfirst _ =>
      exact h.steady hσ vfirst ((Form.Over.sequence_iff.1 hf).2 _ List.mem_cons_self) hn hk hc
  | .next hrest hfirst, hv, hf, hn, hk, hc => by
    obtain ⟨hn, hn'⟩ := List.forall_mem_append.1 hn
    obtain ⟨hw, hf⟩ := Form.Over.sequence_iff.1 hf
    obtain ⟨ffirst, frest⟩ := List.forall_mem_cons.1 hf
    cases hv with
    | sequence vfirst vrest =>
      obtain ⟨vnext, vrest⟩ := List.forall_mem_cons.1 vrest
      obtain ⟨held, _, hout⟩ := hfirst.steady hσ hw (by simpa using vfirst)
        (by simpa using ffirst) hn
      refine hout ?_
      exact hrest.steady hσ (.sequence vnext vrest) (Form.Over.sequence_iff.2 ⟨hw, frest⟩) hn' hk
        (hc.mono fun x hx => List.mem_append_right _ hx)
  | .assign h, hv, hf, hn, hk, hc => by
    obtain ⟨hname, fvalue⟩ := hf.assign
    cases hv with
    | assign vvalue =>
      obtain ⟨held, ha, hout⟩ := h.steady hσ hf.words (by simpa using vvalue)
        (by simpa using fvalue) hn
      exact hout (Target.steady_assign hf.words hσ hname hk
        ((ha _ List.mem_cons_self).mono fun x hx => List.mem_append_left _ hx)
        (hc.mono fun x hx => List.mem_append_right _ hx))
  | .letrec hbindings hbody, hv, hf, hn, hk, hc => by
    obtain ⟨hn, hn'⟩ := List.forall_mem_append.1 hn
    obtain ⟨fbindings, fbody⟩ := hf.letrec
    cases hv with
    | letrec vbindings _ vfirst vrest =>
      obtain ⟨pairs, rfl, hpairs⟩ := hbindings.steady hσ vbindings (fun b hb => (fbindings b hb).2) hn
      refine Target.steady_letrec hf.words (fun b hb => (hpairs b hb).mono nofun) ?_
      exact hbody.steady hσ (.sequence vfirst vrest) fbody hn' hk
        (hc.mono fun x hx => List.mem_append_right _ hx)
  | .primitive h, hv, hf, hn, hk, hc => by
    obtain ⟨hop, fargs⟩ := hf.primitive
    cases hv with
    | primitive _ _ vargs =>
      obtain ⟨held, has, hout⟩ := h.steady hσ hf.words vargs fargs hn
      refine hout (Target.steady_call hf.words hσ rfl (List.forall_mem_cons.2 ⟨?_, fun a ha => ?_⟩) ?_)
      · exact Target.steady_primitive hf.words hσ hop
      · exact (has a ha).mono fun x hx => List.mem_append_left _ hx
      · exact hc.mono fun x hx => List.mem_append_right _ hx
  | .call h, hv, hf, hn, hk, hc => by
    have hkeyword := h.keyword_eq_none hv hn
    cases hv with
    | call _ vfn vargs =>
      obtain ⟨held, has, hout⟩ := h.steady hσ hf.words (List.forall_mem_cons.2 ⟨vfn, vargs⟩) hf.call
        hn
      exact hout (Target.steady_call hf.words hσ hkeyword
        (fun a ha => (has a ha).mono fun x hx => List.mem_append_left _ hx)
        (hc.mono fun x hx => List.mem_append_right _ hx))
termination_by structural h => h

/-- What holds the operands is closed but for names that are bound around `body`. -/
theorem OperandsImage.steady (hσ : Function.Injective σ) {fs : List Form} {names : List Text}
    {as : List Sexp} {body out : Sexp} (hw : Words (Stays σ)) : OperandsImage fs names as body out →
    (∀ f ∈ fs, f.Valid isPrimitive) → (∀ f ∈ fs, f.Over (Stays σ)) → (∀ g ∈ names, g.EndsInDigit) →
    ∃ held : List Text, (∀ a ∈ as, a.Steady σ held) ∧
      ∀ {bound : List Text}, body.Steady σ (held ++ bound) → out.Steady σ bound
  | .nil, _, _, _ => ⟨[], nofun, fun h => h⟩
  | .atomic ha hrest, hv, hf, hn => by
    obtain ⟨hn, hn'⟩ := List.forall_mem_append.1 hn
    obtain ⟨vf, vfs⟩ := List.forall_mem_cons.1 hv
    obtain ⟨ff, ffs⟩ := List.forall_mem_cons.1 hf
    obtain ⟨held, has, hout⟩ := hrest.steady hσ hw vfs ffs hn'
    exact ⟨held, List.forall_mem_cons.2 ⟨(ha.steady hσ vf ff hn).mono nofun, has⟩, hout⟩
  | @OperandsImage.settled _ _ rv _ _ _ _ _ _ _ hrest h, hv, hf, hn => by
    obtain ⟨hn, hn'⟩ := List.forall_mem_append.1 hn
    obtain ⟨_, hn⟩ := List.forall_mem_cons.1 hn
    obtain ⟨vf, vfs⟩ := List.forall_mem_cons.1 hv
    obtain ⟨ff, ffs⟩ := List.forall_mem_cons.1 hf
    obtain ⟨held, has, hout⟩ := hrest.steady hσ hw vfs ffs hn'
    refine ⟨rv :: held, List.forall_mem_cons.2 ⟨.symbol hσ (Or.inl List.mem_cons_self),
      fun a ha => (has a ha).mono fun x hx => List.mem_cons_of_mem _ hx⟩, fun {bound} hbody => ?_⟩
    refine h.steady hσ vf ff hn (.of_keyword rfl)
      (Target.steady_lambda hw (hout (hbody.mono fun x hx => ?_)))
    grind
termination_by structural h => h

/-- The values of bindings are closed but for the symbols of their forms. -/
theorem BindingsImage.steady (hσ : Function.Injective σ) {bs : List (Text × Form)}
    {names : List Text} {es : List Sexp} : BindingsImage bs names es →
    (∀ b ∈ bs, b.2.Valid isPrimitive) → (∀ b ∈ bs, b.2.Over (Stays σ)) → (∀ g ∈ names, g.EndsInDigit) →
    ∃ pairs : List (Text × Sexp), es = pairs.map (fun b => .list [.symbol b.1, b.2]) ∧
      ∀ b ∈ pairs, b.2.Steady σ []
  | .nil, _, _, _ => ⟨[], rfl, nofun⟩
  | @BindingsImage.cons x _ _ _ _ a _ ha hrest, hv, hf, hn => by
    obtain ⟨hn, hn'⟩ := List.forall_mem_append.1 hn
    obtain ⟨vb, vbs⟩ := List.forall_mem_cons.1 hv
    obtain ⟨fb, fbs⟩ := List.forall_mem_cons.1 hf
    obtain ⟨pairs, rfl, hpairs⟩ := hrest.steady hσ vbs fbs hn'
    exact ⟨(x, a) :: pairs, rfl, List.forall_mem_cons.2 ⟨ha.steady hσ vb fb hn, hpairs⟩⟩
termination_by structural h => h

end

end Images

end PassingStyle
