import PassingStyle.Proofs.Hygiene
import PassingStyle.Proofs.Renamed

/-!
# Where the final continuation stands

The conversion of a program uses its continuation exactly once. Where it stands does
not depend on what it is: for every form and every table there is one *place*, an
expression with a hole, such that converting the form with the continuation `c` gives
that place filled with `c`. The place may lie inside functions that receive a value and
inside recursive bindings of the program, because the conversion of a recursive binding
moves the continuation into its scope.

The names that are bound around the place are therefore the names of these recursive
bindings, and names that the conversion has drawn. The latter are kept apart from the
final continuation `halt`, which is reserved before. The former are kept apart from
`halt` only if they were not drawn before it was reserved, and that is what happens when
a compiler renames the variables of a program first: the renaming reserves the symbols
of the program and nothing else. `Compiler.convert_captures_iff` says when `halt` is
captured by a binding of the program.
-/

namespace PassingStyle

/-! ## Places -/

/-- The names that a list binds for one of its elements, given the elements before it.
A function binds its parameters in its body, a recursive binding its names in its
values and in its body. -/
def Sexp.boundFor : List Sexp → Sexp → List Text
  | [head], list bindings =>
    if Keyword.of? head = some .letrec then bindingNames bindings else []
  | head :: list names :: _, _ =>
    match Keyword.of? head with
    | some .lambda => parameterNames names
    | some .letrec => bindingNames names
    | _ => []
  | _, _ => []

/-- **A place in an expression**: the expression with a hole in it. -/
inductive Place where
  /-- The whole expression. -/
  | here
  /-- A place in an element of a list. -/
  | inside (before : List Sexp) (place : Place) (after : List Sexp)

namespace Place

/-- The expression with `e` at the place. -/
def fill : Place → Sexp → Sexp
  | here, e => e
  | inside before place after, e => .list (before ++ place.fill e :: after)

/-- **The names that are bound around the place**, with `e` there. -/
def scope : Place → Sexp → List Text
  | here, _ => []
  | inside before place _, e => Sexp.boundFor before (place.fill e) ++ place.scope e

/-- A place in what stands at a place. -/
def comp : Place → Place → Place
  | here, q => q
  | inside before p after, q => inside before (p.comp q) after

theorem fill_comp (p q : Place) (e : Sexp) : (p.comp q).fill e = p.fill (q.fill e) := by
  induction p with
  | here => rfl
  | inside before p after ih => rw [comp, fill, fill, ih]

theorem scope_comp (p q : Place) (e : Sexp) :
    (p.comp q).scope e = p.scope (q.fill e) ++ q.scope e := by
  induction p with
  | here => rfl
  | inside before p after ih => rw [comp, scope, scope, ih, fill_comp, List.append_assoc]

/-- What stands at a place can be read off. -/
theorem fill_injective {p : Place} {e e' : Sexp} (h : p.fill e = p.fill e') : e = e' := by
  induction p with
  | here => exact h
  | inside before p after ih =>
    obtain ⟨_, h⟩ := List.append_inj (Sexp.list.inj h) rfl
    exact ih (List.cons.inj h).1

/-- **A place is determined by its fillings** with symbols. -/
theorem eq_of_fill {p q : Place} (h : ∀ x, p.fill (.symbol x) = q.fill (.symbol x)) : p = q := by
  -- the hole of one cannot lie in a part that the other one fixes
  have hlength : ∀ {before before' after after' : List Sexp} {p q : Place},
      (∀ x, before ++ p.fill (.symbol x) :: after = before' ++ q.fill (.symbol x) :: after') →
      before'.length ≤ before.length := by
    intro before before' after after' p q h
    by_contra hlt
    rw [not_le] at hlt
    have hfixed : ∀ x, some (p.fill (.symbol x)) = before'[before.length]? := by
      intro x
      have := congrArg (·[before.length]?) (h x)
      simp only [List.getElem?_append_left hlt, List.getElem?_append_right (Nat.le_refl _)] at this
      simpa using this
    have hsame := Option.some.inj ((hfixed []).trans (hfixed [0]).symm)
    cases fill_injective hsame
  induction p generalizing q with
  | here =>
    cases q with
    | here => rfl
    | inside before q after => cases h []
  | inside before p after ih =>
    cases q with
    | here => cases h []
    | inside before' q after' =>
      have h : ∀ x, before ++ p.fill (.symbol x) :: after =
          before' ++ q.fill (.symbol x) :: after' := fun x => Sexp.list.inj (h x)
      have hbefore := Nat.le_antisymm (hlength fun x => (h x).symm) (hlength h)
      have hparts := fun x => List.append_inj (h x) hbefore
      obtain ⟨rfl, hafter⟩ := hparts []
      obtain ⟨_, rfl⟩ := List.cons.inj hafter
      rw [ih fun x => (List.cons.inj (hparts x).2).1]

/-- A call whose head is no keyword binds nothing. -/
theorem scope_call {fn : Sexp} (hfn : Keyword.of? fn = none) (as : List Sexp) (c : Sexp) :
    (inside (fn :: as) here []).scope c = [] := by
  show Sexp.boundFor (fn :: as) c ++ [] = []
  rw [List.append_nil]
  unfold Sexp.boundFor
  split
  next heq =>
    cases heq
    rw [hfn]
    rfl
  next heq =>
    cases heq
    rw [hfn]
  · rfl

end Place

/-- **Code that is built around a continuation**: from the table `t`, whatever the
continuation is, it ends up at one place. There the names `bound` are bound, and
otherwise only names that were free in the table. -/
structure BuiltAround (build : Sexp → Fresh Sexp) (t : NameTable) (bound : List Text)
    (place : Place) (t' : NameTable) : Prop where
  /-- The continuation stands at the place. -/
  fill : ∀ c, build c t = (place.fill c, t')
  /-- What was taken stays taken. -/
  taken : ∀ p ∈ t.taken, p ∈ t'.taken
  /-- The names are bound around it. -/
  mem_scope : ∀ c, ∀ x ∈ bound, x ∈ place.scope c
  /-- So is nothing else that was taken. -/
  of_mem_scope : ∀ c, ∀ x ∈ place.scope c, x ∈ bound ∨ (x, programNames) ∉ t.taken

/-- Code that is built around its continuation without drawing names or binding any. -/
theorem BuiltAround.of_scope_nil {build : Sexp → Sexp} {place : Place} (t : NameTable)
    (hfill : ∀ c, build c = place.fill c) (hscope : ∀ c, place.scope c = []) :
    BuiltAround (fun c => pure (build c)) t [] place t where
  fill c := by rw [← hfill]; rfl
  taken _ hp := hp
  mem_scope _ _ hx := absurd hx List.not_mem_nil
  of_mem_scope c x hx := by rw [hscope] at hx; exact absurd hx List.not_mem_nil

/-! ## Every form is built around its continuation -/

namespace Form

/-- An atomic form hands its image to its continuation, whatever that is. -/
theorem convert_atomic {f : Form} (hf : f.isAtomic = true) (κ : Cont) (t : NameTable) :
    f.convert κ t = κ.plug (f.convertAtom t).1 (f.convertAtom t).2 := by
  cases f with
  | constant e =>
    rw [convertAtom, convert, convert]
    rfl
  | lambda params first rest =>
    rw [convertAtom, convert, convert]
    rfl
  | _ => cases hf

/-- The expressions that can hold the value of a form: its own image if it is atomic,
and a variable that was drawn otherwise. -/
def HeldBy (f : Form) (a : Sexp) : Prop :=
  (f.isAtomic = true ∧ ∃ t, a = (f.convertAtom t).1) ∨ ∃ rv : Text, rv.EndsInDigit ∧ a = .symbol rv

/-- The function of a call is never held by a keyword. -/
theorem HeldBy.keyword_eq_none {isPrimitive : Text → Bool} {fn : Form} {args : List Form}
    {a : Sexp} (h : fn.HeldBy a) (hv : (call fn args).Valid isPrimitive) :
    Keyword.of? a = none := by
  cases hv with
  | call hfn _ _ =>
    rcases h with ⟨hatomic, t, rfl⟩ | ⟨rv, hrv, rfl⟩
    · cases fn with
      | constant e =>
        rw [convertAtom, convert]
        cases e with
        | symbol s => exact (hfn s rfl).1
        | _ => rfl
      | lambda params first rest =>
        rw [convertAtom, convert]
        rfl
      | _ => cases hatomic
    · exact hrv.keyword_eq_none

/-- **What is shown of a form**: its conversion is built around its continuation, and so
is the rest of the code when the form is an operand of it. -/
structure Settles (f : Form) : Prop where
  /-- With an expression as its continuation. -/
  object : ∀ t, ∃ place t',
    BuiltAround (fun c => f.convert (.object c)) t f.scopes place t'
  /-- With a builder as its continuation. -/
  operand : ∀ (k : Sexp → Sexp → Fresh Sexp) (bound : List Text),
    (∀ a, f.HeldBy a → ∀ t, ∃ place t', BuiltAround (fun c => k c a) t bound place t') →
    ∀ t, ∃ place t',
      BuiltAround (fun c => f.convert (.builder (k c))) t (f.scopes ++ bound) place t'

/-- An atomic form leaves the continuation where its own code puts it. -/
theorem Settles.of_atomic {f : Form} (hf : f.isAtomic = true)
    (htaken : ∀ t, ∀ p ∈ t.taken, p ∈ (f.convertAtom t).2.taken) : Settles f where
  object t := by
    have hscopes := scopes_of_isAtomic hf
    refine ⟨.inside [] .here [(f.convertAtom t).1], (f.convertAtom t).2, ?_, htaken t, ?_, ?_⟩
    · intro c
      rw [convert_atomic hf]
      rfl
    · rw [hscopes]
      exact nofun
    · intro c x hx
      exact absurd hx List.not_mem_nil
  operand k bound hk t := by
    obtain ⟨place, t', h⟩ := hk _ (Or.inl ⟨hf, t, rfl⟩) (f.convertAtom t).2
    rw [scopes_of_isAtomic hf, List.nil_append]
    refine ⟨place, t', ?_, fun p hp => h.taken p (htaken t p hp), h.mem_scope, ?_⟩
    · intro c
      rw [convert_atomic hf]
      exact h.fill c
    · intro c x hx
      rcases h.of_mem_scope c x hx with hx | hx
      · exact Or.inl hx
      · exact Or.inr fun hin => hx (htaken t _ hin)

/-- Any other form puts the rest of the code where its continuation stands, as a
function of a variable that was drawn. -/
theorem Settles.of_object {f : Form} (hf : f.isAtomic = false)
    (object : ∀ t, ∃ place t',
      BuiltAround (fun c => f.convert (.object c)) t f.scopes place t') : Settles f where
  object := object
  operand k bound hk t := by
    let rv := (freshName "rv" t).1
    have hdraw := Draws.single "rv" t
    have hrv := hdraw.numbered rv List.mem_cons_self
    obtain ⟨place, t₁, hrest⟩ := hk (.symbol rv) (Or.inr ⟨rv, hrv, rfl⟩) (freshName "rv" t).2
    obtain ⟨outer, t', hf'⟩ := object t₁
    have hlambda : ∀ c, (Place.inside [Keyword.lambda.sexp, .list [.symbol rv]] place []).scope c =
        rv :: place.scope c := fun c => rfl
    have htaken : ∀ p ∈ t.taken, p ∈ t₁.taken := fun p hp =>
      hrest.taken p (hdraw.taken_subset hp)
    refine ⟨outer.comp (.inside [Keyword.lambda.sexp, .list [.symbol rv]] place []), t', ?_,
      fun p hp => hf'.taken p (htaken p hp), ?_, ?_⟩
    · intro c
      rw [Place.fill_comp, ← hf'.fill, convert_builder hf, hrest.fill]
      rfl
    · intro c x hx
      rw [Place.scope_comp, hlambda, List.mem_append, List.mem_cons]
      rcases List.mem_append.1 hx with hx | hx
      · exact Or.inl (hf'.mem_scope _ x hx)
      · exact Or.inr (Or.inr (hrest.mem_scope c x hx))
    · intro c x hx
      rw [Place.scope_comp, hlambda, List.mem_append, List.mem_cons] at hx
      rw [List.mem_append]
      rcases hx with hx | rfl | hx
      · rcases hf'.of_mem_scope _ x hx with hx | hx
        · exact Or.inl (Or.inl hx)
        · exact Or.inr fun hin => hx (htaken _ hin)
      · exact Or.inr (hdraw.fresh _ List.mem_cons_self)
      · rcases hrest.of_mem_scope c x hx with hx | hx
        · exact Or.inl (Or.inr hx)
        · exact Or.inr fun hin => hx (hdraw.taken_subset hin)

/-- A body is built around its continuation like a sequence. -/
theorem settles_sequel {first : Form} {rest : List Form} (hfirst : Settles first)
    (hrest : ∀ f ∈ rest, Settles f) (t : NameTable) : ∃ place t',
    BuiltAround (fun c => first.convert (sequel rest c)) t (first.scopes ++ scopesAll rest)
      place t' := by
  induction rest generalizing first t with
  | nil =>
    rw [scopesAll, List.append_nil]
    simp only [sequel]
    exact hfirst.object t
  | cons g rest ih =>
    obtain ⟨hg, hrest⟩ := List.forall_mem_cons.1 hrest
    rw [scopesAll]
    simp only [sequel]
    exact hfirst.operand (fun c _ => g.convert (sequel rest c)) _ (fun _ _ t => ih hg hrest t) t

/-- Several operands leave the continuation where the code after them puts it, under
their own recursive bindings. -/
theorem settles_convertAll {fs : List Form} (hfs : ∀ f ∈ fs, Settles f)
    (k : Sexp → List Sexp → Fresh Sexp) (bound : List Text)
    (hk : ∀ as t, ∃ place t', BuiltAround (fun c => k c as) t bound place t') (t : NameTable) :
    ∃ place t', BuiltAround (fun c => convertAll fs (k c)) t (scopesAll fs ++ bound) place t' := by
  induction fs generalizing k t with
  | nil =>
    simp only [convertAll]
    exact hk [] t
  | cons f fs ih =>
    obtain ⟨hf, hfs⟩ := List.forall_mem_cons.1 hfs
    rw [scopesAll, List.append_assoc]
    simp only [convertAll]
    exact hf.operand (fun c v => convertAll fs fun vs => k c (v :: vs)) _
      (fun v _ t => ih hfs (fun c vs => k c (v :: vs)) (fun vs t => hk (v :: vs) t) t) t

/-- A call is built around its continuation if no keyword stands at its head. -/
theorem builtAround_call {fn : Sexp} (hfn : Keyword.of? fn = none) (as : List Sexp)
    (t : NameTable) : ∃ place t',
    BuiltAround (fun c => pure (Target.call fn as c)) t [] place t' :=
  ⟨.inside (fn :: as) .here [], t, .of_scope_nil t (fun _ => rfl) (Place.scope_call hfn as)⟩

/-- **Every valid form is built around its continuation**, under the names that its
recursive bindings bind around its end. -/
theorem Valid.settles {isPrimitive : Text → Bool} {f : Form} (hv : f.Valid isPrimitive) :
    Settles f := by
  have htaken : ∀ {f : Form}, f.Valid isPrimitive → f.isAtomic = true →
      ∀ t, ∀ p ∈ t.taken, p ∈ (f.convertAtom t).2.taken := by
    intro f hv hf t p hp
    obtain ⟨names, _, hdraws⟩ := hv.converts.atom hf t
    exact hdraws.taken_subset hp
  induction hv with
  | @constant e he => exact .of_atomic rfl (htaken (.constant he) rfl)
  | @lambda params first rest vfirst vrest _ _ =>
    exact .of_atomic rfl (htaken (.lambda vfirst vrest) rfl)
  | @branch test yes no vtest vyes vno _ _ _ =>
    refine .of_object rfl fun t => ?_
    -- the code before the continuation is built without it
    obtain ⟨k, body, t', hconvert⟩ : ∃ (k : Text) (body : Sexp) (t' : NameTable), ∀ c,
        (Form.branch test yes no).convert (.object c) t =
          (Target.pass (Target.lambda [k] body) c, t') :=
      ⟨_, _, _, fun c => by rw [convert]; rfl⟩
    obtain ⟨names, _, hdraws⟩ := (Valid.branch vtest vyes vno).converts.object .absent t
    rw [hconvert] at hdraws
    refine ⟨.inside [Target.lambda [k] body] .here [], t', hconvert,
      fun p hp => hdraws.taken_subset hp, ?_, fun c x hx => ?_⟩
    · rw [scopes]
      exact fun c x hx => absurd hx List.not_mem_nil
    · rw [Place.scope_call rfl] at hx
      exact absurd hx List.not_mem_nil
  | @sequence first rest _ _ ihfirst ihrest =>
    refine .of_object rfl fun t => ?_
    simp only [convert]
    exact settles_sequel ihfirst ihrest t
  | @assign name value _ ihvalue =>
    refine .of_object rfl fun t => ?_
    simp only [convert]
    have := ihvalue.operand (fun c v => pure (Target.assign name v c)) [] (fun a _ t =>
      ⟨.inside [.ofName "set-then!", .symbol name, a] (.inside [] .here [.ofName "undef"]) [], t,
        .of_scope_nil t (fun c => rfl) fun c => rfl⟩) t
    rw [List.append_nil] at this
    exact this
  | @letrec bindings first rest vbindings hatomic _ _ _ ihfirst ihrest =>
    refine .of_object rfl fun t => ?_
    obtain ⟨names, himage, hdraws⟩ := convertBindings_image
      (fun b hb => (vbindings b hb).converts) hatomic t
    obtain ⟨place, t', hbody⟩ := settles_sequel ihfirst ihrest (convertBindings bindings t).2
    have hscope : ∀ c, (Place.inside [Keyword.letrec.sexp, .list (convertBindings bindings t).1]
        place []).scope c = bindings.map Prod.fst ++ place.scope c := by
      intro c
      rw [← himage.bindingNames]
      rfl
    refine ⟨.inside [Keyword.letrec.sexp, .list (convertBindings bindings t).1] place [], t', ?_,
      fun p hp => hbody.taken p (hdraws.taken_subset hp), ?_, ?_⟩
    · intro c
      have hfill := hbody.fill c
      simp only [convert]
      show (Target.letrec (convertBindings bindings t).1
        (first.convert (sequel rest c) (convertBindings bindings t).2).1,
        (first.convert (sequel rest c) (convertBindings bindings t).2).2) = _
      rw [hfill]
      rfl
    · intro c x hx
      rw [hscope, List.mem_append]
      rw [scopes, List.mem_append] at hx
      rcases hx with hx | hx
      · exact Or.inl hx
      · exact Or.inr (hbody.mem_scope c x hx)
    · intro c x hx
      rw [hscope, List.mem_append] at hx
      rw [scopes, List.mem_append]
      rcases hx with hx | hx
      · exact Or.inl (Or.inl hx)
      · rcases hbody.of_mem_scope c x hx with hx | hx
        · exact Or.inl (Or.inr hx)
        · exact Or.inr fun hin => hx (hdraws.taken_subset hin)
  | @primitive op args _ _ _ ihargs =>
    refine .of_object rfl fun t => ?_
    simp only [convert]
    have := settles_convertAll ihargs (fun c vs => pure (Target.call (Target.primitive op) vs c)) []
      (fun as t => builtAround_call rfl as t) t
    rw [List.append_nil] at this
    rw [scopes]
    exact this
  | @call fn args hfn vfn vargs ihfn ihargs =>
    refine .of_object rfl fun t => ?_
    simp only [convert]
    rw [scopes]
    refine ihfn.operand (fun c f => convertAll args fun vs => pure (Target.call f vs c)) _
      (fun a ha t => ?_) t
    have hkeyword := ha.keyword_eq_none (.call hfn vfn vargs)
    have := settles_convertAll ihargs (fun c vs => pure (Target.call a vs c)) []
      (fun as t => builtAround_call hkeyword as t) t
    rw [List.append_nil] at this
    exact this

/-- **The end of a program**: whatever the final continuation is called, the converted
program has it at this place. -/
def EndsAt (f : Form) (t : NameTable) (place : Place) : Prop :=
  ∀ halt, (f.convertProgram halt t).1 = place.fill (.symbol halt)

/-- **The names bound around the end of a program** are those of its recursive
bindings, as far as they were taken before. A function has no end: it does not mention
the final continuation. -/
theorem Valid.endsAt {isPrimitive : Text → Bool} {f : Form} (hv : f.Valid isPrimitive)
    (t : NameTable) :
    ((∃ params first rest, f = .lambda params first rest) ∨ ∃ place, f.EndsAt t place) ∧
    ∀ place, f.EndsAt t place → ∀ halt, (halt, programNames) ∈ t.taken →
      (halt ∈ place.scope (.symbol halt) ↔ halt ∈ f.scopes) := by
  by_cases hlambda : ∃ params first rest, f = .lambda params first rest
  · refine ⟨Or.inl hlambda, fun place hplace => ?_⟩
    obtain ⟨params, first, rest, rfl⟩ := hlambda
    cases Place.fill_injective ((hplace []).symm.trans (hplace [0]))
  · obtain ⟨place, t', hbuilt⟩ := hv.settles.object t
    have hends : f.EndsAt t place := by
      intro halt
      have hprogram : f.convertProgram halt = f.convert (.object (.symbol halt)) := by
        cases f with
        | lambda params first rest => exact absurd ⟨_, _, _, rfl⟩ hlambda
        | _ => rfl
      rw [hprogram, hbuilt.fill]
    refine ⟨Or.inr ⟨place, hends⟩, fun place' hplace' halt htaken => ?_⟩
    obtain rfl : place' = place :=
      Place.eq_of_fill fun x => (hplace' x).symm.trans (hends x)
    refine ⟨fun hin => ?_, fun hin => hbuilt.mem_scope _ halt hin⟩
    rcases hbuilt.of_mem_scope _ halt hin with hin | hin
    · exact hin
    · exact absurd htaken hin

end Form

/-! ## The compiler -/

namespace Compiler

/-- **When the final continuation is captured.** A compiler that renames variables puts
`halt` where a binding of the output has the same name if and only if the renaming has
given that name to a recursive binding around the end of the program. It can do that
only if `halt` ends in a digit, does not occur in the program, and was free in the table
that the compiler started with. -/
theorem convert_captures_iff {c c' : Compiler} {e out : Sexp}
    (halpha : c.settings.alphatize = true) (h : outcome (convert e) c = (.ok out, c')) :
    ∃ e' t f, (PassingStyle.alphatize e).outcome c.names = (.ok e', t) ∧
      Form.analyse c.settings.primitives.contains e' = .ok f ∧
      ((∃ params first rest, f = .lambda params first rest) ∨ ∃ place, f.EndsAt
        (t.reserve programNames (Sexp.symbolsList [e', .symbol c.settings.finalCont])) place) ∧
      (∀ place, f.EndsAt
          (t.reserve programNames (Sexp.symbolsList [e', .symbol c.settings.finalCont])) place →
        out = place.fill (.symbol c.settings.finalCont) ∧
        (c.settings.finalCont ∈ place.scope (.symbol c.settings.finalCont) ↔
          c.settings.finalCont ∈ f.scopes)) ∧
      (c.settings.finalCont ∈ f.scopes → c.settings.finalCont.EndsInDigit ∧
        c.settings.finalCont ∉ e.symbols ∧
        (c.settings.finalCont, programNames) ∉ c.names.taken) := by
  obtain ⟨e', t, hrename, hprogram⟩ := convert_ok halpha h
  obtain ⟨f, hf, hout⟩ := Convert.program_ok hprogram
  obtain ⟨hv, _⟩ := Form.analyse_eq_ok _ e' f hf
  obtain ⟨_, hbinders⟩ := alphatize_clean hrename hf
  obtain ⟨hexists, hscope⟩ := hv.endsAt
    (t.reserve programNames (Sexp.symbolsList [e', .symbol c.settings.finalCont]))
  refine ⟨e', t, f, hrename, hf, hexists, fun place hplace => ⟨?_, ?_⟩,
    fun hin => hbinders _ (Form.mem_binders_of_mem_scopes hin)⟩
  · have := hplace c.settings.finalCont
    rwa [hout] at this
  · refine hscope place hplace _ (NameTable.mem_taken_reserve.2 (Or.inr ⟨rfl, ?_⟩))
    simp [Sexp.symbolsList]

/-- The program `(letrec ((x #t)) x)` that ends in `x0` becomes
`(letrec ((x0 #t)) (x0 x0))`: the variable is renamed to the name of the final
continuation, which is captured. -/
theorem convert_captures_renamed_variable : ∃ place : Place,
    Target.letrec [.list [.ofName "x0", .bool true]] (Target.pass (.ofName "x0") (.ofName "x0")) =
      place.fill (.ofName "x0") ∧ Text.ofString "x0" ∈ place.scope (.ofName "x0") := by
  have hconvert : outcome (convert (.list [Keyword.letrec.sexp,
      .list [.list [.ofName "x", .bool true]], .ofName "x"]))
      { settings := { alphatize := true, halt := "x0" } } = (.ok (Target.letrec
        [.list [.ofName "x0", .bool true]] (Target.pass (.ofName "x0") (.ofName "x0"))), _) := rfl
  obtain ⟨e', t, f, hrename, hf, hexists, hplaces, _⟩ := convert_captures_iff rfl hconvert
  cases hrename
  cases hf
  rcases hexists with ⟨_, _, _, hlambda⟩ | ⟨place, hplace⟩
  · cases hlambda
  · obtain ⟨hfill, hscope⟩ := hplaces place hplace
    exact ⟨place, hfill, hscope.2 List.mem_cons_self⟩

end Compiler

end PassingStyle
