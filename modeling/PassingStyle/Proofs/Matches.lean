import PassingStyle.Proofs.Meaning.Alike
import PassingStyle.Proofs.Steady

/-!
# Conversions of alike forms

Two forms that differ in the names of their variables are converted to programs that differ in
names only. The two conversions cannot be compared by a relabelling: where one form binds a
name twice the other may bind two, so there is no map from the names of one program to those of
the other. What takes the place of the map is a relation between names that grows with every
scope, the one by which forms are alike.

Two expressions *match* under such a relation if they have the same nameless form inside any
scopes that place the names alike. Matching is kept by every piece of a converted program, and
under a function the parameters correspond as well. So images of alike forms match if their
continuations do, `Image.matches`. For operands the relation grows from the first one to the
last, and what comes after them has to match under the relation that is reached in the end.

A continuation is put inside the scopes of variables that the conversion makes up. It is not
captured there because nothing corresponds to a name that is still to be drawn, `Naming.Ready`.
No continuation is put inside the scope of a function of the program. It would be in that of a
recursive binding, and there the names of the program do capture; forms with recursive bindings
are therefore left out, `Form.Suits`.
-/

namespace PassingStyle

open Sexp Nameless

/-! ## Names that correspond -/

namespace Naming

variable {R M : Naming} {xs ys : List Text}

/-- More names correspond inside a scope if more do outside. -/
theorem push_mono (h : R ≤ M) (x y : Text) : R.push x y ≤ M.push x y := by
  rintro s t (hst | ⟨hs, ht, hst⟩)
  · exact Or.inl hst
  · exact Or.inr ⟨hs, ht, h _ _ hst⟩

theorem bind_mono (h : R ≤ M) (xs ys : List Text) : bind xs ys R ≤ bind xs ys M := by
  induction xs generalizing ys R M with
  | nil => exact h
  | cons x xs ih =>
    cases ys with
    | nil => exact h
    | cons y ys => exact ih (push_mono h x y) ys

/-- The last of several names is bound last. -/
theorem bind_concat (R : Naming) (hlength : xs.length = ys.length) (x y : Text) :
    bind (xs ++ [x]) (ys ++ [y]) R = (bind xs ys R).push x y := by
  induction xs generalizing ys R with
  | nil =>
    obtain rfl := List.length_eq_zero_iff.1 hlength.symm
    rfl
  | cons z xs ih =>
    cases ys with
    | nil => cases hlength
    | cons w ys => exact ih _ (Nat.succ.inj hlength)

/-- **Names correspond inside a scope** if they stand at the same place, or if neither is bound
there and they correspond outside. -/
theorem bind_cases (hxs : xs.Nodup) (hys : ys.Nodup) (hlength : xs.length = ys.length)
    {s t : Text} (h : bind xs ys R s t) :
    (s ∈ xs ∧ t ∈ ys ∧ xs.idxOf? s = ys.idxOf? t) ∨ (s ∉ xs ∧ t ∉ ys ∧ R s t) := by
  induction xs generalizing ys R with
  | nil =>
    obtain rfl := List.length_eq_zero_iff.1 hlength.symm
    exact Or.inr ⟨List.not_mem_nil, List.not_mem_nil, h⟩
  | cons x xs ih =>
    cases ys with
    | nil => cases hlength
    | cons y ys =>
      obtain ⟨hx, hxs⟩ := List.nodup_cons.1 hxs
      obtain ⟨hy, hys⟩ := List.nodup_cons.1 hys
      rw [List.mem_cons, List.mem_cons, List.idxOf?_cons, List.idxOf?_cons]
      rcases ih hxs hys (Nat.succ.inj hlength) h with ⟨hs, ht, hplace⟩ | ⟨hs, ht, hst⟩
      · have hsx : x ≠ s := fun he => hx (he ▸ hs)
        have hty : y ≠ t := fun he => hy (he ▸ ht)
        exact Or.inl ⟨Or.inr hs, Or.inr ht, by simp [hsx, hty, hplace]⟩
      · rcases hst with ⟨rfl, rfl⟩ | ⟨hsx, hty, hst⟩
        · exact Or.inl ⟨Or.inl rfl, Or.inl rfl, by simp⟩
        · exact Or.inr ⟨by simp [hs, hsx], by simp [ht, hty], hst⟩

/-- **Names that correspond are placed alike** in the scopes around them: they refer to the
same. -/
def Placed (M : Naming) (olds news : List (List Text)) : Prop :=
  ∀ s t, M s t → reference olds s = reference news t

/-- They are in one more scope. -/
theorem Placed.scope {olds news : List (List Text)} (h : R.Placed olds news) (hxs : xs.Nodup)
    (hys : ys.Nodup) (hlength : xs.length = ys.length) :
    (bind xs ys R).Placed (xs :: olds) (ys :: news) := by
  intro s t hst
  unfold reference
  rcases bind_cases hxs hys hlength hst with ⟨hs, ht, hplace⟩ | ⟨hs, ht, hst⟩
  · obtain ⟨place, ht'⟩ := Option.isSome_iff_exists.1 (List.isSome_idxOf?.2 ht)
    rw [address?_cons_of_mem hs, address?_cons_of_mem ht, hplace, ht']
    rfl
  · rw [address?_cons_of_not_mem hs, address?_cons_of_not_mem ht]
    have hsame := h s t hst
    unfold reference at hsame
    cases hold : address? olds s with
    | none => cases hnew : address? news t <;> simp_all
    | some a => cases hnew : address? news t <;> simp_all

end Naming

/-! ## Expressions that match -/

/-- **Expressions match** if they have the same nameless form wherever the names that correspond
are placed alike. -/
def Sexp.Matches (M : Naming) (e e' : Sexp) : Prop :=
  ∀ ⦃olds news : List (List Text)⦄, M.Placed olds news → e.nameless olds = e'.nameless news

namespace Sexp.Matches

variable {M M' : Naming}

/-- More names may correspond. -/
theorem mono {e e' : Sexp} (h : e.Matches M e') (hle : M ≤ M') : e.Matches M' e' :=
  fun _ _ hplaced => h fun s t hst => hplaced s t (hle s t hst)

/-- Names that correspond. -/
theorem symbol {s t : Text} (h : M s t) : (Sexp.symbol s).Matches M (.symbol t) := by
  intro olds news hplaced
  rw [nameless, nameless, hplaced s t h]

/-- A constant that is no symbol matches itself. -/
theorem constant {e : Sexp} (he : Form.IsConstant e) (hsymbol : ∀ s, e ≠ .symbol s) :
    e.Matches M e := by
  intro olds news _
  rcases he with he | ⟨d, rfl⟩
  · cases e with
    | symbol s => exact absurd rfl (hsymbol s)
    | list es => cases he
    | _ => rfl
  · rfl

/-- Several expressions. -/
theorem namelessAll_eq {es es' : List Sexp} (h : List.Forall₂ (Sexp.Matches M) es es')
    {olds news : List (List Text)} (hplaced : M.Placed olds news) :
    namelessAll olds es = namelessAll news es' := by
  induction h with
  | nil => rfl
  | cons he _ ih => rw [namelessAll, namelessAll, he hplaced, ih]

/-- Plain lists. -/
theorem list {head head' : Sexp} {args args' : List Sexp} (hplain : Scopeless head args)
    (hplain' : Scopeless head' args')
    (h : List.Forall₂ (Sexp.Matches M) (head :: args) (head' :: args')) :
    (Sexp.list (head :: args)).Matches M (.list (head' :: args')) := by
  intro olds news hplaced
  rw [hplain.nameless_eq, hplain'.nameless_eq, namelessAll_eq h hplaced]

end Sexp.Matches

namespace Target

variable {M : Naming}

/-- Functions match if their bodies do where their parameters correspond. -/
theorem matches_lambda {params params' : List Text} {body body' : Sexp} (hnodup : params.Nodup)
    (hnodup' : params'.Nodup) (hlength : params.length = params'.length)
    (h : body.Matches (M.bind params params') body') :
    (Target.lambda params body).Matches M (Target.lambda params' body') := by
  intro olds news hplaced
  rw [Target.lambda, Target.lambda, nameless_lambda rfl, nameless_lambda rfl,
    filterMap_parameterName?, filterMap_parameterName?, map_unnamed, map_unnamed, hlength,
    namelessAll, namelessAll, h (hplaced.scope hnodup hnodup' hlength)]
  rfl

/-- Calls whose heads are no keywords match if their parts do. -/
theorem matches_call {fn fn' cont cont' : Sexp} {args args' : List Sexp}
    (hfn : Keyword.of? fn = none) (hfn' : Keyword.of? fn' = none)
    (h : List.Forall₂ (Sexp.Matches M) (fn :: args) (fn' :: args')) (hcont : cont.Matches M cont') :
    (Target.call fn args cont).Matches M (Target.call fn' args' cont') :=
  .list (scopeless_of_keyword hfn _) (scopeless_of_keyword hfn' _)
    (List.rel_append h (.cons hcont .nil))

/-- Continuations that are no keywords get values that match. -/
theorem matches_pass {cont cont' value value' : Sexp} (hk : Keyword.of? cont = none)
    (hk' : Keyword.of? cont' = none) (hcont : cont.Matches M cont')
    (hvalue : value.Matches M value') :
    (Target.pass cont value).Matches M (Target.pass cont' value') :=
  .list (scopeless_of_keyword hk _) (scopeless_of_keyword hk' _) (.cons hcont (.cons hvalue .nil))

/-- Branches match if their parts do. -/
theorem matches_branch {test test' yes yes' no no' : Sexp}
    (hword : M Keyword.branch.name Keyword.branch.name) (htest : test.Matches M test')
    (hyes : yes.Matches M yes') (hno : no.Matches M no') :
    (Target.branch test yes no).Matches M (Target.branch test' yes' no') := by
  have hplain : ∀ args, Scopeless Keyword.branch.sexp args := fun args =>
    ⟨by nofun, by nofun, by nofun⟩
  exact .list (hplain _) (hplain _)
    (.cons (.symbol hword) (.cons htest (.cons hyes (.cons hno .nil))))

/-- Assignments match if the words in them stand for themselves. -/
theorem matches_assign {name name' : Text} {value value' cont cont' : Sexp}
    (hset : M (.ofString "set-then!") (.ofString "set-then!"))
    (hundef : M (.ofString "undef") (.ofString "undef")) (hname : M name name')
    (hk : Keyword.of? cont = none) (hk' : Keyword.of? cont' = none)
    (hvalue : value.Matches M value') (hcont : cont.Matches M cont') :
    (Target.assign name value cont).Matches M (Target.assign name' value' cont') :=
  .list (scopeless_of_keyword rfl _) (scopeless_of_keyword rfl _)
    (.cons (.symbol hset) (.cons (.symbol hname) (.cons hvalue
      (.cons (matches_pass hk hk' hcont (.symbol hundef)) .nil))))

/-- An operator matches itself. -/
theorem matches_primitive {op : Text} (hcps : M (.ofString "cps") (.ofString "cps"))
    (hop : M op op) :
    (Target.primitive op).Matches M (Target.primitive op) :=
  .list (scopeless_of_keyword rfl _) (scopeless_of_keyword rfl _)
    (.cons (.symbol hcps) (.cons (.symbol hop) .nil))

end Target


/-! ## Names that are drawn -/

/-- **The markers** of converted programs, the symbols with a fixed meaning. -/
def Target.markers : List Text := ["undef", "cps", "set-then!"]

/-- A name that ends in a digit is no marker. -/
theorem Text.EndsInDigit.not_mem_markers {x : Text} (h : x.EndsInDigit) : x ∉ Target.markers := by
  simp only [Target.markers, List.mem_cons, List.not_mem_nil, or_false, not_or]
  exact ⟨h.ne rfl rfl, h.ne rfl rfl, h.ne rfl rfl⟩

/-- **A form that suits** the names `fixed`, which stand for themselves, and the names that are
`drawn` in its conversion: no function has one of them as a parameter, or a parameter twice, and
there is no recursive binding. The operators are among what is fixed. -/
inductive Form.Suits (isPrimitive : Text → Bool) (fixed drawn : List Text) : Form → Prop
  | constant {e : Sexp} : IsConstant e → Suits isPrimitive fixed drawn (.constant e)
  | lambda {params : List Text} {first : Form} {rest : List Form} : params.Nodup →
      (∀ p ∈ params, p ∉ fixed ∧ p ∉ drawn) →
      (∀ f ∈ first :: rest, Suits isPrimitive fixed drawn f) →
      Suits isPrimitive fixed drawn (.lambda params first rest)
  | branch {test yes no : Form} : Suits isPrimitive fixed drawn test →
      Suits isPrimitive fixed drawn yes → Suits isPrimitive fixed drawn no →
      Suits isPrimitive fixed drawn (.branch test yes no)
  | sequence {first : Form} {rest : List Form} :
      (∀ f ∈ first :: rest, Suits isPrimitive fixed drawn f) →
      Suits isPrimitive fixed drawn (.sequence first rest)
  | assign {name : Text} {value : Form} : Suits isPrimitive fixed drawn value →
      Suits isPrimitive fixed drawn (.assign name value)
  | primitive {op : Text} {args : List Form} : op ∈ fixed →
      (∀ f ∈ args, Suits isPrimitive fixed drawn f) →
      Suits isPrimitive fixed drawn (.primitive op args)
  | call {fn : Form} {args : List Form} : (Form.call fn args).Valid isPrimitive →
      (∀ f ∈ fn :: args, Suits isPrimitive fixed drawn f) →
      Suits isPrimitive fixed drawn (.call fn args)

/-- **A supply of names**, those that are left of the names `drawn` in a conversion. -/
structure Supply (drawn names : List Text) : Prop where
  /-- No name is drawn twice. -/
  nodup : names.Nodup
  /-- They are drawn. -/
  subset : names ⊆ drawn
  /-- They end in a digit. -/
  numbered : ∀ x ∈ names, x.EndsInDigit

namespace Supply

variable {drawn names names₁ fixed params : List Text} {k : Text}

theorem sublist (h : Supply drawn names) (hsub : names₁.Sublist names) : Supply drawn names₁ where
  nodup := h.nodup.sublist hsub
  subset := fun _ hx => h.subset (hsub.subset hx)
  numbered x hx := h.numbered x (hsub.subset hx)

/-- The continuation of a function is a parameter that it does not have already. -/
theorem nodup_concat (h : Supply drawn (k :: names)) (hparams : params.Nodup)
    (hsuits : ∀ p ∈ params, p ∉ fixed ∧ p ∉ drawn) : (params ++ [k]).Nodup := by
  refine List.nodup_append'.2 ⟨hparams, List.nodup_singleton k, fun p hp hk => ?_⟩
  exact (hsuits p hp).2 (List.mem_singleton.1 hk ▸ h.subset List.mem_cons_self)

end Supply

/-- **The correspondence is ready** for names that are left in the supplies: what is fixed
corresponds to itself, and nothing corresponds to a name that is left. -/
structure Naming.Ready (fixed drawn drawn' : List Text) (M : Naming) (names names' : List Text) :
    Prop where
  /-- The words of converted programs are fixed. -/
  words : Keyword.branch.name ∈ fixed ∧ Target.markers ⊆ fixed
  /-- What is fixed corresponds to itself. -/
  fixed : ∀ w ∈ fixed, M w w
  /-- Nothing corresponds to a name that is left. -/
  avoids : ∀ s t, M s t → s ∉ names ∧ t ∉ names'
  /-- The names that are left on one side. -/
  left : Supply drawn names
  /-- The names that are left on the other side. -/
  right : Supply drawn' names'

namespace Naming.Ready

variable {fixed drawn drawn' : List Text} {M : Naming} {names names₁ names' names₁' : List Text}

/-- Fewer names are left. -/
theorem mono (h : M.Ready fixed drawn drawn' names names') (hsub : names₁.Sublist names)
    (hsub' : names₁'.Sublist names') : M.Ready fixed drawn drawn' names₁ names₁' where
  words := h.words
  fixed := h.fixed
  avoids s t hst := ⟨fun hs => (h.avoids s t hst).1 (hsub.subset hs),
    fun ht => (h.avoids s t hst).2 (hsub'.subset ht)⟩
  left := h.left.sublist hsub
  right := h.right.sublist hsub'

/-- One more name is bound on either side, which is neither fixed nor left. -/
theorem push (h : M.Ready fixed drawn drawn' names names') {x y : Text}
    (hx : x ∉ fixed ∧ x ∉ names) (hy : y ∉ fixed ∧ y ∉ names') :
    (M.push x y).Ready fixed drawn drawn' names names' where
  words := h.words
  fixed w hw := Or.inr ⟨fun he => hx.1 (he ▸ hw), fun he => hy.1 (he ▸ hw), h.fixed w hw⟩
  avoids s t hst := by
    rcases hst with ⟨rfl, rfl⟩ | ⟨_, _, hst⟩
    · exact ⟨hx.2, hy.2⟩
    · exact h.avoids s t hst
  left := h.left
  right := h.right

/-- **A name is drawn** on either side, and bound there. What corresponded still does. -/
theorem draw {k k' : Text} (h : M.Ready fixed drawn drawn' (k :: names) (k' :: names')) :
    M ≤ M.push k k' ∧ (M.push k k').Ready fixed drawn drawn' names names' := by
  have hnew : ∀ s t, M s t → s ≠ k ∧ t ≠ k' := fun s t hst =>
    ⟨fun he => (h.avoids s t hst).1 (he ▸ List.mem_cons_self),
      fun he => (h.avoids s t hst).2 (he ▸ List.mem_cons_self)⟩
  refine ⟨fun s t hst => Or.inr ⟨(hnew s t hst).1, (hnew s t hst).2, hst⟩,
    (h.mono (List.sublist_cons_self k names) (List.sublist_cons_self k' names')).push ?_ ?_⟩
  · exact ⟨fun hk => (hnew k k (h.fixed k hk)).1 rfl, (List.nodup_cons.1 h.left.nodup).1⟩
  · exact ⟨fun hk => (hnew k' k' (h.fixed k' hk)).2 rfl, (List.nodup_cons.1 h.right.nodup).1⟩

/-- The parameters of functions are bound on either side. -/
theorem bind (h : M.Ready fixed drawn drawn' names names') {ps qs : List Text}
    (hps : ∀ p ∈ ps, p ∉ fixed ∧ p ∉ drawn) (hqs : ∀ q ∈ qs, q ∉ fixed ∧ q ∉ drawn') :
    (bind ps qs M).Ready fixed drawn drawn' names names' := by
  induction ps generalizing qs M with
  | nil => exact h
  | cons p ps ih =>
    cases qs with
    | nil => exact h
    | cons q qs =>
      obtain ⟨hp, hps⟩ := List.forall_mem_cons.1 hps
      obtain ⟨hq, hqs⟩ := List.forall_mem_cons.1 hqs
      exact ih (h.push ⟨hp.1, fun hin => hp.2 (h.left.subset hin)⟩
        ⟨hq.1, fun hin => hq.2 (h.right.subset hin)⟩) hps hqs

end Naming.Ready

/-- **Names that are not drawn** correspond to themselves. -/
def Naming.undrawn (drawn drawn' : List Text) : Naming := fun s t =>
  s = t ∧ s ∉ drawn ∧ s ∉ drawn'

/-- Outside of all scopes they are placed alike. -/
theorem Naming.placed_undrawn (drawn drawn' : List Text) : (undrawn drawn drawn').Placed [] [] := by
  rintro s t ⟨rfl, -⟩
  rfl

/-- What is fixed in a converted program: its words, and the operators. -/
def Target.fixed (ops : List Text) : List Text :=
  Keyword.branch.name :: (Target.markers ++ ops)

/-- **In the beginning** all names are left that are drawn. -/
theorem Naming.Ready.start {t t₁ t' t₁' : NameTable} {drawn drawn' ops : List Text}
    (hdraws : Draws t drawn t₁) (hdraws' : Draws t' drawn' t₁')
    (hops : ∀ op ∈ ops, op ∉ drawn ∧ op ∉ drawn') :
    (Naming.undrawn drawn drawn').Ready (Target.fixed ops) drawn drawn' drawn drawn' where
  words := ⟨List.mem_cons_self, fun _ hx => List.mem_cons_of_mem _ (List.mem_append_left _ hx)⟩
  fixed w hw := by
    have hword : ∀ {x : Text}, ¬ x.EndsInDigit → Naming.undrawn drawn drawn' x x := fun hx =>
      ⟨rfl, fun hin => hx (hdraws.numbered _ hin), fun hin => hx (hdraws'.numbered _ hin)⟩
    rcases List.mem_cons.1 hw with rfl | hw
    · exact hword fun hdigit => hdigit.ne rfl rfl rfl
    · rcases List.mem_append.1 hw with hw | hw
      · exact hword fun hdigit => hdigit.not_mem_markers hw
      · exact ⟨rfl, hops w hw⟩
  avoids := by
    rintro s t ⟨rfl, hs⟩
    exact hs
  left := ⟨hdraws.nodup, fun _ hx => hx, hdraws.numbered⟩
  right := ⟨hdraws'.nodup, fun _ hx => hx, hdraws'.numbered⟩

/-! ## Images of alike forms -/

section Images

variable {isPrimitive : Text → Bool} {fixed drawn drawn' : List Text}

mutual

/-- **The images of alike atomic forms match.** -/
theorem AtomImage.matches {f : Form} {names : List Text} {a : Sexp} {R M : Naming} {g : Form}
    {names' : List Text} {a' : Sexp} : AtomImage f names a → Alike R f g → AtomImage g names' a' →
    f.Suits isPrimitive fixed drawn → g.Suits isPrimitive fixed drawn' → R ≤ M →
    M.Ready fixed drawn drawn' names names' → a.Matches M a'
  | .constant _, halike, himage', hf, _, hle, _ => by
    cases hf with | constant hconstant => ?_
    cases halike with
    | symbol hst =>
      cases himage'
      exact .symbol (hle _ _ hst)
    | constant he =>
      cases himage'
      exact .constant hconstant he
  | .lambda hbody, halike, himage', hf, hg, hle, h => by
    cases halike with | lambda hlength hparts => ?_
    cases himage' with | lambda hbody' => ?_
    cases hf with | lambda hnodup hps hf => ?_
    cases hg with | lambda hnodup' hqs hg => ?_
    obtain ⟨hdraw, hready⟩ := (h.bind hps hqs).draw
    have hk := h.left.numbered _ List.mem_cons_self
    have hk' := h.right.numbered _ List.mem_cons_self
    -- inside, the parameters correspond, and after them the continuations
    have hbody := hbody.matches (.sequence hparts) hbody' (.sequence hf) (.sequence hg)
      ((Naming.bind_mono hle _ _).trans hdraw) hready hk.keyword_eq_none
      hk'.keyword_eq_none (.symbol (Or.inl ⟨rfl, rfl⟩))
    rw [← Naming.bind_concat _ hlength] at hbody
    exact Target.matches_lambda (h.left.nodup_concat hnodup hps) (h.right.nodup_concat hnodup' hqs)
      (by simp [hlength]) hbody
termination_by structural h => h

/-- **The images of alike forms match** if their continuations do. -/
theorem Image.matches {f : Form} {c : Sexp} {names : List Text} {out : Sexp} {R M : Naming}
    {g : Form} {c' : Sexp} {names' : List Text} {out' : Sexp} : Image f c names out →
    Alike R f g → Image g c' names' out' →
    f.Suits isPrimitive fixed drawn → g.Suits isPrimitive fixed drawn' → R ≤ M →
    M.Ready fixed drawn drawn' names names' → Keyword.of? c = none → Keyword.of? c' = none →
    c.Matches M c' → out.Matches M out'
  | .atom ha, halike, himage', hf, hg, hle, h, hk, hk', hc => by
    have hatomic := halike.isAtomic_eq.trans ha.isAtomic
    cases himage' with
    | atom ha' => exact Target.matches_pass hk hk' hc (ha.matches halike ha' hf hg hle h)
    | _ => cases hatomic
  | .branch hyes hno htest, halike, himage', hf, hg, hle, h, hk, hk', hc => by
    cases halike with | branch atest ayes ano => ?_
    cases himage' with
    | atom ha' => cases ha'
    | branch hyes' hno' htest' => ?_
    cases hf with | branch ftest fyes fno => ?_
    cases hg with | branch gtest gyes gno => ?_
    have hkdigit := h.left.numbered _ List.mem_cons_self
    have hkdigit' := h.right.numbered _ List.mem_cons_self
    obtain ⟨hdraw, h⟩ := h.draw
    obtain ⟨M', hle', h, has, hbody⟩ := htest.matches (.cons atest .nil) htest'
      (List.forall_mem_singleton.2 ftest) (List.forall_mem_singleton.2 gtest)
      (hle.trans hdraw) h
    have hle₁ := (hle.trans hdraw).trans hle'
    have hcont := Sexp.Matches.symbol (hle' _ _ (Or.inl ⟨rfl, rfl⟩))
    have hyes := hyes.matches ayes hyes' fyes gyes hle₁
      (h.mono (List.sublist_append_left _ _) (List.sublist_append_left _ _))
      hkdigit.keyword_eq_none hkdigit'.keyword_eq_none hcont
    have hno := hno.matches ano hno' fno gno hle₁
      (h.mono (List.sublist_append_right _ _) (List.sublist_append_right _ _))
      hkdigit.keyword_eq_none hkdigit'.keyword_eq_none hcont
    match has with
    | .cons ha _ =>
      exact Target.matches_pass rfl rfl (Target.matches_lambda (List.nodup_singleton _)
        (List.nodup_singleton _) rfl
        (hbody (Target.matches_branch (h.fixed _ h.words.1) ha hyes hno))) hc
  | .last hone, halike, himage', hf, hg, hle, h, hk, hk', hc => by
    cases halike with | sequence aparts => ?_
    cases aparts with | cons aone arest => ?_
    cases arest
    cases himage' with
    | atom ha' => cases ha'
    | last hone' => ?_
    cases hf with | sequence hf => ?_
    cases hg with | sequence hg => ?_
    exact hone.matches aone hone' (hf _ List.mem_cons_self) (hg _ List.mem_cons_self) hle h hk hk'
      hc
  | .next hrest hfirst, halike, himage', hf, hg, hle, h, hk, hk', hc => by
    cases halike with | sequence aparts => ?_
    cases aparts with | cons afirst arest => ?_
    cases himage' with
    | atom ha' => cases ha'
    | last _ => cases arest
    | next hrest' hfirst' => ?_
    cases hf with | sequence hf => ?_
    cases hg with | sequence hg => ?_
    obtain ⟨ffirst, frest⟩ := List.forall_mem_cons.1 hf
    obtain ⟨gfirst, grest⟩ := List.forall_mem_cons.1 hg
    obtain ⟨M', hle', h, -, hout⟩ := hfirst.matches (.cons afirst .nil) hfirst'
      (List.forall_mem_singleton.2 ffirst) (List.forall_mem_singleton.2 gfirst) hle h
    exact hout (hrest.matches (.sequence arest) hrest' (.sequence frest)
      (.sequence grest) (hle.trans hle') h hk hk' (hc.mono hle'))
  | .assign hvalue, halike, himage', hf, hg, hle, h, hk, hk', hc => by
    cases halike with | assign hname avalue => ?_
    cases himage' with
    | atom ha' => cases ha'
    | assign hvalue' => ?_
    cases hf with | assign fvalue => ?_
    cases hg with | assign gvalue => ?_
    rw [← List.append_nil names, ← List.append_nil names'] at h
    obtain ⟨M', hle', h, has, hout⟩ := hvalue.matches (.cons avalue .nil) hvalue'
      (List.forall_mem_singleton.2 fvalue) (List.forall_mem_singleton.2 gvalue) hle h
    match has with
    | .cons ha _ =>
      exact hout (Target.matches_assign (h.fixed _ (h.words.2 (by decide)))
        (h.fixed _ (h.words.2 (by decide))) (hle' _ _ (hle _ _ hname)) hk hk' ha (hc.mono hle'))
  | .letrec _ _, _, _, hf, _, _, _, _, _, _ => nomatch hf
  | .primitive hargs, halike, himage', hf, hg, hle, h, hk, hk', hc => by
    cases halike with | primitive aargs => ?_
    cases himage' with
    | atom ha' => cases ha'
    | primitive hargs' => ?_
    cases hf with | primitive hop fargs => ?_
    cases hg with | primitive _ gargs => ?_
    rw [← List.append_nil names, ← List.append_nil names'] at h
    obtain ⟨M', hle', h, has, hout⟩ := hargs.matches aargs hargs' fargs gargs hle h
    have hprimitive := Target.matches_primitive (h.fixed _ (h.words.2 (by decide)))
      (h.fixed _ hop)
    exact hout (Target.matches_call rfl rfl (.cons hprimitive has) (hc.mono hle'))
  | .call hparts, halike, himage', hf, hg, hle, h, hk, hk', hc => by
    cases halike with | call aparts => ?_
    cases himage' with
    | atom ha' => cases ha'
    | call hparts' => ?_
    cases hf with | call hv fparts => ?_
    cases hg with | call hv' gparts => ?_
    have hkeyword := hparts.keyword_eq_none hv h.left.numbered
    have hkeyword' := hparts'.keyword_eq_none hv' h.right.numbered
    rw [← List.append_nil names, ← List.append_nil names'] at h
    obtain ⟨M', hle', h, has, hout⟩ := hparts.matches aparts hparts' fparts gparts hle h
    exact hout (Target.matches_call hkeyword hkeyword' has (hc.mono hle'))
termination_by structural h => h

/-- **Operands of alike forms** are held by expressions that match, where the names that are bound
around them correspond. -/
theorem OperandsImage.matches {fs : List Form} {names : List Text} {as : List Sexp}
    {body out : Sexp} {R M : Naming} {gs : List Form} {names' : List Text} {as' : List Sexp}
    {body' out' : Sexp} {more more' : List Text} : OperandsImage fs names as body out →
    AlikeAll R fs gs → OperandsImage gs names' as' body' out' →
    (∀ f ∈ fs, f.Suits isPrimitive fixed drawn) → (∀ g ∈ gs, g.Suits isPrimitive fixed drawn') →
    R ≤ M → M.Ready fixed drawn drawn' (names ++ more) (names' ++ more') →
    ∃ M', M ≤ M' ∧ M'.Ready fixed drawn drawn' more more' ∧
      List.Forall₂ (Sexp.Matches M') as as' ∧ (body.Matches M' body' → out.Matches M out')
  | .nil, halike, himage', _, _, _, h => by
    cases halike
    cases himage'
    exact ⟨M, le_rfl, h, .nil, fun hbody => hbody⟩
  | .atomic ha hrest, halike, himage', hf, hg, hle, h => by
    cases halike with | cons aone arest => ?_
    obtain ⟨ff, ffs⟩ := List.forall_mem_cons.1 hf
    obtain ⟨gg, ggs⟩ := List.forall_mem_cons.1 hg
    have hatomic := aone.isAtomic_eq.trans ha.isAtomic
    cases himage' with
    | atomic ha' hrest' =>
      rw [List.append_assoc, List.append_assoc] at h
      have ha := ha.matches aone ha' ff gg hle
        (h.mono (List.sublist_append_left _ _) (List.sublist_append_left _ _))
      obtain ⟨M', hle', h, has, hout⟩ := hrest.matches arest hrest' ffs ggs hle
        (h.mono (List.sublist_append_right _ _) (List.sublist_append_right _ _))
      exact ⟨M', hle', h, .cons (ha.mono hle') has, hout⟩
    | settled hnot _ _ =>
      rw [hatomic] at hnot
      cases hnot
  | .settled hnot hrest hone, halike, himage', hf, hg, hle, h => by
    cases halike with | cons aone arest => ?_
    obtain ⟨ff, ffs⟩ := List.forall_mem_cons.1 hf
    obtain ⟨gg, ggs⟩ := List.forall_mem_cons.1 hg
    have hnot' := aone.isAtomic_eq.trans hnot
    cases himage' with
    | atomic ha' _ =>
      rw [ha'.isAtomic] at hnot'
      cases hnot'
    | settled _ hrest' hone' =>
      simp only [List.cons_append, List.append_assoc] at h
      obtain ⟨hdraw, h₁⟩ := h.draw
      obtain ⟨M', hle', hready, has, hout⟩ := hrest.matches arest hrest' ffs ggs
        (hle.trans hdraw) (h₁.mono (List.sublist_append_right _ _) (List.sublist_append_right _ _))
      refine ⟨M', hdraw.trans hle', hready,
        .cons (.symbol (hle' _ _ (Or.inl ⟨rfl, rfl⟩))) has, fun hbody => ?_⟩
      -- the rest is in the continuation of the first operand, where its value has a name
      exact hone.matches aone hone' ff gg hle
        (h.mono (.cons _ (List.sublist_append_left _ _)) (.cons _ (List.sublist_append_left _ _)))
        rfl rfl (Target.matches_lambda (List.nodup_singleton _) (List.nodup_singleton _) rfl
          (hout hbody))
termination_by structural h => h

end

/-- **The conversions of alike forms match**, whatever the tables are, under a relation that is
ready for the names that are drawn. -/
theorem Form.Valid.convertProgram_matches {f g : Form} (hv : f.Valid isPrimitive)
    (hv' : g.Valid isPrimitive) (halt : Text) (t t' : NameTable) : ∃ drawn drawn',
    Draws t drawn (f.convertProgram halt t).2 ∧ Draws t' drawn' (g.convertProgram halt t').2 ∧
      ∀ {M : Naming} {fixed : List Text}, Alike M f g → f.Suits isPrimitive fixed drawn →
        g.Suits isPrimitive fixed drawn' → M.Ready fixed drawn drawn' drawn drawn' →
        Keyword.of? (.symbol halt) = none → M halt halt →
        (f.convertProgram halt t).1.Matches M (g.convertProgram halt t').1 := by
  obtain ⟨drawn, hdraws, himage⟩ := hv.convertProgram_image halt t
  obtain ⟨drawn', hdraws', himage'⟩ := hv'.convertProgram_image halt t'
  refine ⟨drawn, drawn', hdraws, hdraws', fun halike hf hg hready hkeyword hhalt => ?_⟩
  rcases himage with ⟨⟨params, first, rest, rfl⟩, himage⟩ | ⟨hnot, himage⟩
  · rcases himage' with ⟨_, himage'⟩ | ⟨hnot, _⟩
    · exact himage.matches halike himage' hf hg le_rfl hready
    · cases halike with
      | lambda => exact absurd rfl (hnot _ _ _)
  · rcases himage' with ⟨⟨params, first, rest, rfl⟩, _⟩ | ⟨_, himage'⟩
    · obtain ⟨params', first', rest', rfl⟩ := halike.eq_lambda
      exact absurd rfl (hnot _ _ _)
    · exact himage.matches halike himage' hf hg le_rfl hready hkeyword hkeyword (.symbol hhalt)

end Images

end PassingStyle
