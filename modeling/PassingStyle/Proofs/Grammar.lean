import PassingStyle.Proofs.Outcome

/-!
# Converted programs are in continuation-passing style

A converted program is built from *calls*, *continuations* and *atoms*. A call is
something to run: it hands an atom to a continuation, binds a continuation, branches,
assigns, binds recursively, or calls a primitive or a function, and a continuation is
the last thing it mentions. Atoms are what a call computes with; evaluating one runs
nothing. So a call never stands where a value is needed.

`Convert.program_grammar` says that the conversion of a program is an atom if the
program is a function, and a call if it is anything else. The symbols that occur as
continuations are `halt` and variables that the conversion made up, and no keyword
stands at the head of a call of a function; unless `halt` is itself a keyword, an
expression is therefore never both a call and an atom.
-/

namespace PassingStyle

/-! ## The grammar -/

mutual

/-- **A call**, in a program that ends in `halt`. -/
inductive IsCall (halt : Text) : Sexp → Prop
  /-- Handing an atom to a continuation: `(c a)`. -/
  | pass {c a : Sexp} : IsCont halt c → IsAtom halt a → IsCall halt (.list [c, a])
  /-- Binding a continuation: `((lambda (k) call) c)`. -/
  | bind {k : Text} {body c : Sexp} : IsCall halt body → IsCont halt c →
      IsCall halt (.list [.list [Keyword.lambda.sexp, .list [.symbol k], body], c])
  /-- A branch: `(if a call call)`. -/
  | branch {test yes no : Sexp} : IsAtom halt test → IsCall halt yes → IsCall halt no →
      IsCall halt (.list [Keyword.branch.sexp, test, yes, no])
  /-- An assignment: `(set-then! v a (c undef))`. -/
  | assign {v : Text} {a c : Sexp} : IsAtom halt a → IsCont halt c →
      IsCall halt (.list [.ofName "set-then!", .symbol v, a, .list [c, .ofName "undef"]])
  /-- A recursive binding: `(letrec ((v a) …) call)`. -/
  | letrec {bindings : List Sexp} {body : Sexp} : (∀ b ∈ bindings, IsBinding halt b) →
      IsCall halt body → IsCall halt (.list [Keyword.letrec.sexp, .list bindings, body])
  /-- A call of a primitive: `((cps op) a … c)`. -/
  | primitive {op : Text} {args : List Sexp} {c : Sexp} : (∀ a ∈ args, IsAtom halt a) →
      IsCont halt c → IsCall halt (.list (.list [.ofName "cps", .symbol op] :: args ++ [c]))
  /-- A call of a function: `(a a … c)`. -/
  | call {fn : Sexp} {args : List Sexp} {c : Sexp} : Keyword.of? fn = none →
      IsAtom halt fn → (∀ a ∈ args, IsAtom halt a) → IsCont halt c →
      IsCall halt (.list (fn :: args ++ [c]))

/-- **A continuation.** -/
inductive IsCont (halt : Text) : Sexp → Prop
  /-- A variable, or the end of the program. -/
  | symbol {k : Text} : k = halt ∨ Keyword.of? (.symbol k) = none → IsCont halt (.symbol k)
  /-- A function of a value: `(lambda (rv) call)`. -/
  | lambda {rv : Text} {body : Sexp} : IsCall halt body →
      IsCont halt (.list [Keyword.lambda.sexp, .list [.symbol rv], body])

/-- **An atom.** -/
inductive IsAtom (halt : Text) : Sexp → Prop
  /-- Anything that is no list. -/
  | simple {e : Sexp} : e.isList = false → IsAtom halt e
  /-- Quoted data. -/
  | quote (d : Sexp) : IsAtom halt (.list [Keyword.quote.sexp, d])
  /-- A function: `(lambda (v … k) call)`. -/
  | lambda {params : List Text} {k : Text} {body : Sexp} : IsCall halt body →
      IsAtom halt (.list [Keyword.lambda.sexp, .list ((params ++ [k]).map .symbol), body])

/-- **A binding** of a recursive binding: `(v a)`. -/
inductive IsBinding (halt : Text) : Sexp → Prop
  /-- A name with an atom. -/
  | mk {v : Text} {a : Sexp} : IsAtom halt a → IsBinding halt (.list [.symbol v, a])

end

/-! ## Calls are no atoms -/

/-- An atom that is a list begins with the keyword of quoted data or of a
function. -/
theorem IsAtom.keyword_head {halt : Text} {h : Sexp} {es : List Sexp}
    (ha : IsAtom halt (.list (h :: es))) :
    Keyword.of? h = some .quote ∨ Keyword.of? h = some .lambda := by
  cases ha with
  | simple hl => cases hl
  | quote d => exact Or.inl rfl
  | lambda _ => exact Or.inr rfl

/-- A continuation is not one of the keywords, unless the program ends in one. -/
theorem IsCont.keyword_eq_none {halt : Text} {c : Sexp}
    (hhalt : Keyword.of? (.symbol halt) = none) (hc : IsCont halt c) : Keyword.of? c = none := by
  cases hc with
  | symbol hk =>
    rcases hk with rfl | hk
    · exact hhalt
    · exact hk
  | lambda _ => rfl

/-- A call is a list, and it begins neither like quoted data nor like a function. -/
theorem IsCall.head {halt : Text} {e : Sexp} (hhalt : Keyword.of? (.symbol halt) = none)
    (he : IsCall halt e) : ∃ h es, e = .list (h :: es) ∧
      Keyword.of? h ≠ some .quote ∧ Keyword.of? h ≠ some .lambda := by
  cases he with
  | @pass c a hc _ =>
    refine ⟨c, [a], rfl, ?_⟩
    rw [hc.keyword_eq_none hhalt]
    exact ⟨nofun, nofun⟩
  | @call fn args c hfn _ _ _ =>
    refine ⟨fn, args ++ [c], rfl, ?_⟩
    rw [hfn]
    exact ⟨nofun, nofun⟩
  | bind _ _ => exact ⟨_, _, rfl, nofun, nofun⟩
  | primitive _ _ => exact ⟨_, _, rfl, nofun, nofun⟩
  | _ => exact ⟨_, _, rfl, by decide, by decide⟩

/-- **No call is an atom**, unless the program ends in a keyword. -/
theorem IsCall.not_isAtom {halt : Text} {e : Sexp} (hhalt : Keyword.of? (.symbol halt) = none)
    (he : IsCall halt e) : ¬ IsAtom halt e := by
  intro ha
  obtain ⟨h, es, rfl, hquote, hlambda⟩ := he.head hhalt
  rcases ha.keyword_head with hk | hk
  · exact hquote hk
  · exact hlambda hk

/-! ## Converted programs follow the grammar -/

mutual

/-- The image of an atomic form is an atom. -/
theorem AtomImage.isAtom {isPrimitive : Text → Bool} (halt : Text) {f : Form}
    {names : List Text} {a : Sexp} : AtomImage f names a → f.Valid isPrimitive →
    (∀ x ∈ names, x.EndsInDigit) → IsAtom halt a
  | .constant e, hv, _ => by
    cases hv with
    | constant hc =>
      rcases hc with hl | ⟨d, rfl⟩
      · exact .simple hl
      · exact .quote d
  | .lambda hbody, hv, hn => by
    obtain ⟨hk, hn⟩ := List.forall_mem_cons.1 hn
    cases hv with
    | lambda hfirst hrest =>
      exact .lambda (hbody.isCall halt (.sequence hfirst hrest) hn
        (.symbol (Or.inr hk.keyword_eq_none)))

/-- The image of a form is a call. -/
theorem Image.isCall {isPrimitive : Text → Bool} (halt : Text) {f : Form} {c : Sexp}
    {names : List Text} {out : Sexp} : Image f c names out → f.Valid isPrimitive →
    (∀ x ∈ names, x.EndsInDigit) → IsCont halt c → IsCall halt out
  | .atom ha, hv, hn, hc => .pass hc (ha.isAtom halt hv hn)
  | .branch hyes hno htest, hv, hn, hc => by
    obtain ⟨hn, hn'⟩ := List.forall_mem_append.1 hn
    obtain ⟨hk, hn⟩ := List.forall_mem_cons.1 hn
    obtain ⟨hny, hnn⟩ := List.forall_mem_append.1 hn'
    cases hv with
    | branch vtest vyes vno =>
      have hkc : IsCont halt (.symbol _) := .symbol (Or.inr hk.keyword_eq_none)
      obtain ⟨htest, hbody⟩ := htest.isCall halt (by simpa using vtest) hn
      exact .bind (hbody (.branch (htest _ List.mem_cons_self)
        (hyes.isCall halt vyes hny hkc) (hno.isCall halt vno hnn hkc))) hc
  | .last h, hv, hn, hc => by
    cases hv with
    | sequence hfirst _ => exact h.isCall halt hfirst hn hc
  | .next hrest hfirst, hv, hn, hc => by
    obtain ⟨hn, hn'⟩ := List.forall_mem_append.1 hn
    cases hv with
    | sequence vfirst vrest =>
      obtain ⟨vnext, vrest⟩ := List.forall_mem_cons.1 vrest
      exact (hfirst.isCall halt (by simpa using vfirst) hn).2
        (hrest.isCall halt (.sequence vnext vrest) hn' hc)
  | .assign h, hv, hn, hc => by
    cases hv with
    | assign vvalue =>
      obtain ⟨ha, hbody⟩ := h.isCall halt (by simpa using vvalue) hn
      exact hbody (.assign (ha _ List.mem_cons_self) hc)
  | .letrec hbindings hbody, hv, hn, hc => by
    obtain ⟨hn, hn'⟩ := List.forall_mem_append.1 hn
    cases hv with
    | letrec vbindings _ vfirst vrest =>
      exact .letrec (hbindings.isBinding halt vbindings hn)
        (hbody.isCall halt (.sequence vfirst vrest) hn' hc)
  | .primitive h, hv, hn, hc => by
    cases hv with
    | primitive _ _ vargs =>
      obtain ⟨has, hbody⟩ := h.isCall halt vargs hn
      exact hbody (.primitive has hc)
  | .call h, hv, hn, hc => by
    have hkeyword := h.keyword_eq_none hv hn
    cases hv with
    | call _ vfn vargs =>
      obtain ⟨has, hbody⟩ := h.isCall halt (List.forall_mem_cons.2 ⟨vfn, vargs⟩) hn
      obtain ⟨ha, has⟩ := List.forall_mem_cons.1 has
      exact hbody (.call hkeyword ha has hc)

/-- Operands are held by atoms, and what runs them before a call is a call. -/
theorem OperandsImage.isCall {isPrimitive : Text → Bool} (halt : Text) {fs : List Form}
    {names : List Text} {as : List Sexp} {body out : Sexp} :
    OperandsImage fs names as body out → (∀ f ∈ fs, f.Valid isPrimitive) →
    (∀ x ∈ names, x.EndsInDigit) →
    (∀ a ∈ as, IsAtom halt a) ∧ (IsCall halt body → IsCall halt out)
  | .nil, _, _ => ⟨fun _ h => absurd h List.not_mem_nil, id⟩
  | .atomic ha hrest, hv, hn => by
    obtain ⟨hn, hn'⟩ := List.forall_mem_append.1 hn
    obtain ⟨vf, vfs⟩ := List.forall_mem_cons.1 hv
    obtain ⟨has, hbody⟩ := hrest.isCall halt vfs hn'
    exact ⟨List.forall_mem_cons.2 ⟨ha.isAtom halt vf hn, has⟩, hbody⟩
  | .settled _ hrest h, hv, hn => by
    obtain ⟨hn, hn'⟩ := List.forall_mem_append.1 hn
    obtain ⟨_, hn⟩ := List.forall_mem_cons.1 hn
    obtain ⟨vf, vfs⟩ := List.forall_mem_cons.1 hv
    obtain ⟨has, hbody⟩ := hrest.isCall halt vfs hn'
    exact ⟨List.forall_mem_cons.2 ⟨.simple rfl, has⟩,
      fun hb => h.isCall halt vf hn (.lambda (hbody hb))⟩

/-- The bindings of a recursive binding hold atoms. -/
theorem BindingsImage.isBinding {isPrimitive : Text → Bool} (halt : Text)
    {bs : List (Text × Form)} {names : List Text} {es : List Sexp} :
    BindingsImage bs names es → (∀ b ∈ bs, b.2.Valid isPrimitive) →
    (∀ x ∈ names, x.EndsInDigit) → ∀ e ∈ es, IsBinding halt e
  | .nil, _, _ => fun _ h => absurd h List.not_mem_nil
  | .cons ha hrest, hv, hn => by
    obtain ⟨hn, hn'⟩ := List.forall_mem_append.1 hn
    obtain ⟨vb, vbs⟩ := List.forall_mem_cons.1 hv
    exact List.forall_mem_cons.2
      ⟨.mk (ha.isAtom halt vb hn), hrest.isBinding halt vbs hn'⟩

end

/-! ## Whole programs -/

/-- **Converted programs are in continuation-passing style.** A program that is
written as a function becomes an atom and any other one a call; and no call is an
atom, so that none is an operand, a function that is called, a test, an assigned
value or a value that is bound recursively. -/
theorem Convert.program_grammar {isPrimitive : Text → Bool} {e out : Sexp} {halt : Text}
    {t t' : NameTable} (h : (Convert.program isPrimitive e halt).outcome t = (.ok out, t')) :
    ((∃ args, e = .list (Keyword.lambda.sexp :: args)) → IsAtom halt out) ∧
    ((¬ ∃ args, e = .list (Keyword.lambda.sexp :: args)) → IsCall halt out) ∧
    (Keyword.of? (.symbol halt) = none → ∀ x, IsCall halt x → ¬ IsAtom halt x) := by
  obtain ⟨f, hf, hout⟩ := Convert.program_ok h
  obtain ⟨hv, hwritten⟩ := Form.analyse_eq_ok isPrimitive e f hf
  obtain ⟨names, hdraws, himage⟩ := hv.convertProgram_image halt
    (t.reserve programNames (Sexp.symbolsList [e, .symbol halt]))
  rw [hout] at himage
  refine ⟨fun ⟨args, hargs⟩ => ?_, fun hargs => ?_, fun hhalt x hx => hx.not_isAtom hhalt⟩
  · obtain ⟨params, first, rest, hlambda⟩ := hv.eq_lambda (hwritten.trans hargs)
    rcases himage with ⟨_, himage⟩ | ⟨hne, _⟩
    · exact himage.isAtom halt hv hdraws.numbered
    · exact absurd hlambda (hne params first rest)
  · rcases himage with ⟨⟨params, first, rest, hlambda⟩, _⟩ | ⟨_, himage⟩
    · rw [hlambda, Form.toSexp] at hwritten
      exact absurd ⟨_, hwritten.symm⟩ hargs
    · exact himage.isCall halt hv hdraws.numbered (.symbol (Or.inl rfl))

/-- The program `(f (g x))` becomes the call `(g x (lambda (rv0) (f rv0 halt)))`,
which is no atom. -/
theorem Convert.program_grammar_nested_call :
    IsCall "halt" (Target.call (.ofName "g") [.ofName "x"] (Target.lambda ["rv0"]
      (Target.call (.ofName "f") [.ofName "rv0"] (.ofName "halt")))) ∧
    ¬ IsAtom "halt" (Target.call (.ofName "g") [.ofName "x"] (Target.lambda ["rv0"]
      (Target.call (.ofName "f") [.ofName "rv0"] (.ofName "halt")))) := by
  have h : (Convert.program defaultPrimitives.contains
      (.list [.ofName "f", .list [.ofName "g", .ofName "x"]]) "halt").outcome .empty =
      (.ok (Target.call (.ofName "g") [.ofName "x"] (Target.lambda ["rv0"]
        (Target.call (.ofName "f") [.ofName "rv0"] (.ofName "halt")))),
        ⟨[(("rv", "cps"), 1)], [("rv0", "cps"), ("halt", "cps"), ("x", "cps"), ("g", "cps"),
          ("f", "cps")]⟩) := rfl
  obtain ⟨_, hcall, hatom⟩ := Convert.program_grammar h
  have hout := hcall fun ⟨_, h⟩ => absurd (List.cons.inj (Sexp.list.inj h)).1 (by decide)
  exact ⟨hout, hatom rfl _ hout⟩

end PassingStyle
