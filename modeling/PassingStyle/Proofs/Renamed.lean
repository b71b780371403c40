import PassingStyle.Proofs.Outcome

/-!
# Renamed programs

Renaming draws a fresh name for every variable that a function or a recursive binding
binds, and puts it wherever the variable is used. Like the conversion it is described
by a relation with one rule for each form: `Renamed r f g names` says that inside the
scopes `r` the form `f` is renamed to `g`, and that `names` are the names drawn on the
way. The description starts from the renamed expression, of which it is known that it
has a form; the form `f` is the one that the original expression has if its variables
are read before its keywords.

`Alpha.rename_ok` says that a renaming that succeeds follows the rules. From there it
is a short way to what renaming is for. In the form of a renamed program every name is
bound at most once, and no name that is bound is also free; such a form is called
*clean*, and so are all its parts.
-/

namespace PassingStyle

/-! ## Scopes -/

/-- **Binding names in a scope**: the scope `inner` is `scope` with the names `ps`
added, which are called `qs` there. -/
structure Scope.Binds (scope : Scope) (ps qs : List Text) (inner : Scope) : Prop where
  /-- No name is bound twice. -/
  nodup : ps.Nodup
  /-- None of the names was bound before. -/
  unbound : ∀ s ∈ ps, scope.find? s = none
  /-- Each of them has its new name. -/
  bound : ps.map inner.find? = qs.map some
  /-- All others are as before. -/
  outside : ∀ s, s ∉ ps → inner.find? s = scope.find? s

namespace Scope.Binds

/-- Binding no name. -/
theorem nil (scope : Scope) : Binds scope [] [] scope :=
  ⟨List.nodup_nil, nofun, rfl, fun _ _ => rfl⟩

/-- Looking a name up in a scope with one more name. -/
theorem find?_cons (scope : Scope) (s q x : Text) :
    Scope.find? ((s, q) :: scope) x = if x = s then some q else scope.find? x := by
  unfold Scope.find?
  rw [List.lookup_cons]
  by_cases h : x = s
  · rw [if_pos h, beq_iff_eq.2 h]
  · rw [if_neg h, beq_eq_false_iff_ne.2 h]

/-- Binding one more name first. -/
theorem cons {scope inner : Scope} {s q : Text} {ps qs : List Text}
    (hs : scope.find? s = none) (h : Binds ((s, q) :: scope) ps qs inner) :
    Binds scope (s :: ps) (q :: qs) inner := by
  have hnot : s ∉ ps := fun hin => by
    have := h.unbound s hin
    rw [find?_cons, if_pos rfl] at this
    cases this
  have hne : ∀ x ∈ ps, x ≠ s := fun x hx he => hnot (he ▸ hx)
  refine ⟨List.nodup_cons.2 ⟨hnot, h.nodup⟩, ?_, ?_, ?_⟩
  · refine List.forall_mem_cons.2 ⟨hs, fun x hx => ?_⟩
    have := h.unbound x hx
    rwa [find?_cons, if_neg (hne x hx)] at this
  · rw [List.map_cons, List.map_cons, h.bound, h.outside s hnot, find?_cons, if_pos rfl]
  · intro x hx
    rw [List.mem_cons, not_or] at hx
    rw [h.outside x hx.2, find?_cons, if_neg hx.1]

variable {scope inner : Scope} {ps qs : List Text} (r : Renaming)

/-- There are as many new names as names. -/
theorem length_eq (h : Binds scope ps qs inner) : ps.length = qs.length := by
  have := congrArg List.length h.bound
  rwa [List.length_map, List.length_map] at this

/-- Inside the scope the names are called by their new names. -/
theorem map_apply (h : Binds [] ps qs inner) : ps.map (Renaming.apply (inner :: r)) = qs := by
  have happly : ∀ s x, inner.find? s = some x → Renaming.apply (inner :: r) s = x := by
    intro s x hx
    unfold Renaming.apply
    rw [List.findSome?_cons, hx]
    rfl
  have hbound := h.bound
  clear h
  induction ps generalizing qs with
  | nil =>
    cases qs with
    | nil => rfl
    | cons q qs => cases hbound
  | cons s ps ih =>
    cases qs with
    | nil => cases hbound
    | cons q qs =>
      rw [List.map_cons, List.map_cons] at hbound
      obtain ⟨hs, hps⟩ := List.cons.inj hbound
      rw [List.map_cons, ih hps, happly s q hs]

/-- A name that is bound there is called by one of the new names. -/
theorem apply_mem (h : Binds [] ps qs inner) {s : Text} (hs : s ∈ ps) :
    Renaming.apply (inner :: r) s ∈ qs := by
  rw [← h.map_apply r]
  exact List.mem_map_of_mem hs

/-- Any other name is called as it was around the scope. -/
theorem apply_of_not_mem (h : Binds [] ps qs inner) {s : Text} (hs : s ∉ ps) :
    Renaming.apply (inner :: r) s = r.apply s := by
  unfold Renaming.apply
  rw [List.findSome?_cons, h.outside s hs]
  rfl

end Scope.Binds

/-- **A numbered renaming**: whatever it does not leave alone, it gives a name that
ends in a digit. -/
def Renaming.Numbered (r : Renaming) : Prop :=
  ∀ s, r.apply s = s ∨ (r.apply s).EndsInDigit

/-- A renaming stays numbered when names are bound that were drawn. -/
theorem Renaming.Numbered.cons {r : Renaming} (hr : r.Numbered) {ps qs : List Text}
    {inner : Scope} (h : Scope.Binds [] ps qs inner) (hqs : ∀ q ∈ qs, q.EndsInDigit) :
    Renaming.Numbered (inner :: r) := by
  intro s
  by_cases hs : s ∈ ps
  · exact Or.inr (hqs _ (h.apply_mem r hs))
  · rw [h.apply_of_not_mem r hs]
    exact hr s

/-- Only a keyword is renamed to that keyword. -/
theorem Renaming.Numbered.eq_of_apply {r : Renaming} (hr : r.Numbered) {s : Text} {k : Keyword}
    (h : Keyword.of? (.symbol (r.apply s)) = some k) : r.apply s = s := by
  rcases hr s with hs | hs
  · exact hs
  · rw [hs.keyword_eq_none] at h
    cases h

/-! ## The rules -/

mutual

/-- **A renamed form**: inside the scopes `r`, the form `f` is renamed to `g`, and the
names are drawn on the way. -/
inductive Renamed : Renaming → Form → Form → List Text → Prop
  /-- A variable is called as its scope says. -/
  | symbol {r : Renaming} (s : Text) :
      Renamed r (.constant (.symbol s)) (.constant (.symbol (r.apply s))) []
  /-- Other constants stay as they are. -/
  | constant {r : Renaming} {e : Sexp} : (∀ s, e ≠ .symbol s) →
      Renamed r (.constant e) (.constant e) []
  /-- The parameters of a function get new names. -/
  | lambda {r : Renaming} {scope : Scope} {params params' : List Text} {first first' : Form}
      {rest rest' : List Form} {names : List Text} :
      Scope.Binds [] params params' scope →
      RenamedAll (scope :: r) (first :: rest) (first' :: rest') names →
      Renamed r (.lambda params first rest) (.lambda params' first' rest') (params' ++ names)
  /-- A branch is renamed part by part. -/
  | branch {r : Renaming} {test yes no test' yes' no' : Form} {names : List Text} :
      RenamedAll r [test, yes, no] [test', yes', no'] names →
      Renamed r (.branch test yes no) (.branch test' yes' no') names
  /-- A sequence is renamed part by part. -/
  | sequence {r : Renaming} {first first' : Form} {rest rest' : List Form}
      {names : List Text} :
      RenamedAll r (first :: rest) (first' :: rest') names →
      Renamed r (.sequence first rest) (.sequence first' rest') names
  /-- The variable of an assignment is called as its scope says. -/
  | assign {r : Renaming} {name : Text} {value value' : Form} {names : List Text} :
      Renamed r value value' names →
      Renamed r (.assign name value) (.assign (r.apply name) value') names
  /-- The names of a recursive binding are new in its values and in its body. -/
  | letrec {r : Renaming} {scope : Scope} {bs bs' : List (Text × Form)} {first first' : Form}
      {rest rest' : List Form} {names namesBody : List Text} :
      Scope.Binds [] (bs.map Prod.fst) (bs'.map Prod.fst) scope →
      RenamedAll (scope :: r) (bs.map Prod.snd) (bs'.map Prod.snd) names →
      RenamedAll (scope :: r) (first :: rest) (first' :: rest') namesBody →
      Renamed r (.letrec bs first rest) (.letrec bs' first' rest')
        (bs'.map Prod.fst ++ (names ++ namesBody))
  /-- The operator of a primitive is called as its scope says. -/
  | primitive {r : Renaming} {op : Text} {args args' : List Form} {names : List Text} :
      RenamedAll r args args' names →
      Renamed r (.primitive op args) (.primitive (r.apply op) args') names
  /-- A call is renamed part by part. -/
  | call {r : Renaming} {fn fn' : Form} {args args' : List Form} {names : List Text} :
      RenamedAll r (fn :: args) (fn' :: args') names →
      Renamed r (.call fn args) (.call fn' args') names

/-- **Several renamed forms.** -/
inductive RenamedAll : Renaming → List Form → List Form → List Text → Prop
  /-- No form is left. -/
  | nil {r : Renaming} : RenamedAll r [] [] []
  /-- One form after the other. -/
  | cons {r : Renaming} {f g : Form} {fs gs : List Form} {names namesRest : List Text} :
      Renamed r f g names → RenamedAll r fs gs namesRest →
      RenamedAll r (f :: fs) (g :: gs) (names ++ namesRest)

end

/-- Renaming keeps the number of forms. -/
theorem RenamedAll.length_eq {r : Renaming} {fs gs : List Form} {names : List Text}
    (h : RenamedAll r fs gs names) : fs.length = gs.length := by
  induction gs generalizing fs names with
  | nil =>
    cases h
    rfl
  | cons g gs ih =>
    cases h with
    | cons _ hs => rw [List.length_cons, List.length_cons, ih hs]

/-- A form that is renamed to a variable is a variable. -/
theorem Renamed.eq_variable {r : Renaming} {f : Form} {x : Text} {names : List Text}
    (h : Renamed r f (.constant (.symbol x)) names) :
    ∃ s, f = .constant (.symbol s) ∧ x = r.apply s ∧ names = [] := by
  cases h with
  | symbol s => exact ⟨s, rfl, rfl, rfl⟩
  | constant he => exact absurd rfl (he x)

/-- A list is a list of something. -/
theorem Sexp.eq_list_of_isList {e : Sexp} (h : e.isList = true) : ∃ es, e = .list es := by
  cases e with
  | list es => exact ⟨es, rfl⟩
  | _ => cases h

/-! ## Renaming follows the rules -/

namespace Alpha

open FreshExcept

/-- **One parameter was bound**: it is a symbol that the scope did not bind, and the others
were bound after it. -/
theorem bindParameters_cons_ok {p : Sexp} {ps renamed : List Sexp} {scope inner : Scope}
    {t t' : NameTable}
    (h : (bindParameters (p :: ps) scope).outcome t = (.ok (renamed, inner), t')) :
    ∃ s rest, p = .symbol s ∧ renamed = .symbol (freshName s t).1 :: rest ∧
      scope.find? s = none ∧
      (bindParameters ps ((s, (freshName s t).1) :: scope)).outcome (freshName s t).2 =
        (.ok (rest, inner), t') := by
  cases p with
  | symbol s =>
    obtain ⟨⟨q, extended⟩, t₁, hfresh, h⟩ := outcome_bind_ok.1 h
    cases hfresh
    dsimp only at h
    unfold Scope.bind? at h
    cases hfind : scope.find? s with
    | some _ =>
      rw [hfind] at h
      cases h
    | none =>
      rw [hfind] at h
      obtain ⟨⟨rest, inner'⟩, t₂, hrest, h⟩ := outcome_bind_ok.1 h
      cases h
      exact ⟨s, rest, rfl, rfl, hfind, hrest⟩
  | _ => cases h

/-- The parameters of a function are bound to names that were drawn. -/
theorem bindParameters_ok {ps : List Sexp} {scope inner : Scope} {t t' : NameTable}
    {renamed : List Sexp}
    (h : (bindParameters ps scope).outcome t = (.ok (renamed, inner), t')) :
    ∃ names names', ps = names.map .symbol ∧ renamed = names'.map .symbol ∧
      Scope.Binds scope names names' inner ∧ Draws t names' t' := by
  induction ps generalizing scope t renamed with
  | nil =>
    cases h
    exact ⟨[], [], rfl, rfl, .nil _, Draws.nil _⟩
  | cons p ps ih =>
    obtain ⟨s, rest, rfl, rfl, hfind, hrest⟩ := bindParameters_cons_ok h
    obtain ⟨names, names', rfl, rfl, hbinds, hdraws⟩ := ih hrest
    exact ⟨s :: names, (freshName s t).1 :: names', rfl, rfl, hbinds.cons hfind,
      (Draws.single s t).append hdraws⟩

/-- **One name of a recursive binding was bound**: the binding has its shape, the scope did
not bind the name, and the others were bound after it. -/
theorem bindNames_cons_ok {whole b : Sexp} {bs : List Sexp} {scope inner : Scope}
    {t t' : NameTable} (h : (bindNames whole (b :: bs) scope).outcome t = (.ok inner, t')) :
    ∃ s init, b = .list [.symbol s, init] ∧ scope.find? s = none ∧
      (bindNames whole bs ((s, (freshName s t).1) :: scope)).outcome (freshName s t).2 =
        (.ok inner, t') := by
  unfold bindNames at h
  split at h
  next heq => cases heq
  next scope _ _ s init bs' heq =>
    cases heq
    obtain ⟨⟨q, extended⟩, t₁, hfresh, h⟩ := outcome_bind_ok.1 h
    cases hfresh
    dsimp only at h
    unfold Scope.bind? at h
    cases hfind : scope.find? s with
    | some _ =>
      rw [hfind] at h
      cases h
    | none =>
      rw [hfind] at h
      exact ⟨s, init, rfl, hfind, h⟩
  · cases h

/-- The names of a recursive binding are bound to names that were drawn. -/
theorem bindNames_ok {whole : Sexp} {bs : List Sexp} {scope inner : Scope} {t t' : NameTable}
    (h : (bindNames whole bs scope).outcome t = (.ok inner, t')) :
    ∃ (pairs : List (Text × Sexp)) (names' : List Text),
      bs = pairs.map (fun b => .list [.symbol b.1, b.2]) ∧
      Scope.Binds scope (pairs.map Prod.fst) names' inner ∧ Draws t names' t' := by
  induction bs generalizing scope t with
  | nil =>
    cases h
    exact ⟨[], [], rfl, .nil _, Draws.nil _⟩
  | cons b bs ih =>
    obtain ⟨s, init, rfl, hfind, hrest⟩ := bindNames_cons_ok h
    obtain ⟨pairs, names', rfl, hbinds, hdraws⟩ := ih hrest
    exact ⟨(s, init) :: pairs, (freshName s t).1 :: names', rfl, hbinds.cons hfind,
      (Draws.single s t).append hdraws⟩

/-- **The ways to rename a list**, by its head and its shape. -/
inductive ListCases (r : Renaming) (head : Sexp) (args : List Sexp) (t : NameTable) :
    Sexp → NameTable → Prop
  /-- Quoted data is left as it is. -/
  | quote {d : Sexp} : Keyword.of? head = some .quote → args = [d] →
      ListCases r head args t (.list (head :: args)) t
  /-- The body of a function is renamed in its scope. -/
  | lambda {params renamed bodies bodies' : List Sexp} {scope : Scope} {t₁ t' : NameTable} :
      Keyword.of? head = some .lambda → args = .list params :: bodies →
      (bindParameters params []).outcome t = (.ok (renamed, scope), t₁) →
      (renameAll (scope :: r) bodies).outcome t₁ = (.ok bodies', t') →
      ListCases r head args t (.list (head :: .list renamed :: bodies')) t'
  /-- The values and the body of a recursive binding are renamed in its scope. -/
  | letrec {bindings renamed rest rest' : List Sexp} {first first' : Sexp} {scope : Scope}
      {t₁ t₂ t₃ t' : NameTable} :
      Keyword.of? head = some .letrec → args = .list bindings :: first :: rest →
      (bindNames (.list (head :: args)) bindings []).outcome t = (.ok scope, t₁) →
      (renameBindings (scope :: r) bindings).outcome t₁ = (.ok renamed, t₂) →
      (rename (scope :: r) first).outcome t₂ = (.ok first', t₃) →
      (renameAll (scope :: r) rest).outcome t₃ = (.ok rest', t') →
      ListCases r head args t (.list (head :: .list renamed :: first' :: rest')) t'
  /-- Any other list is renamed element by element. -/
  | elements {head' : Sexp} {args' : List Sexp} {t₁ t' : NameTable} :
      (Keyword.of? head = some .quote → ∀ d, args ≠ [d]) →
      (Keyword.of? head = some .lambda → ∀ ps bodies, args ≠ .list ps :: bodies) →
      (Keyword.of? head = some .letrec → ∀ bs first rest, args ≠ .list bs :: first :: rest) →
      (rename r head).outcome t = (.ok head', t₁) →
      (renameAll r args).outcome t₁ = (.ok args', t') →
      ListCases r head args t (.list (head' :: args')) t'

/-- A list is renamed in one of these ways. -/
theorem rename_list_cases {r : Renaming} {head e' : Sexp} {args : List Sexp} {t t' : NameTable}
    (h : (rename r (.list (head :: args))).outcome t = (.ok e', t')) :
    ListCases r head args t e' t' := by
  have helements (h : (do
        let head ← rename r head
        let args ← renameAll r args
        return Sexp.list (head :: args) : FreshExcept Sexp).outcome t = (.ok e', t')) :
      ∃ head' args' t₁, (rename r head).outcome t = (.ok head', t₁) ∧
        (renameAll r args).outcome t₁ = (.ok args', t') ∧ e' = .list (head' :: args') := by
    obtain ⟨head', t₁, hhead, h⟩ := outcome_bind_ok.1 h
    obtain ⟨args', t₂, hargs, h⟩ := outcome_bind_ok.1 h
    cases h
    exact ⟨head', args', t₁, hhead, hargs, rfl⟩
  unfold rename at h
  dsimp only at h
  cases hk : Keyword.of? head with
  | none =>
    rw [hk] at h
    obtain ⟨head', args', t₁, hhead, hargs, rfl⟩ := helements h
    exact .elements (by rw [hk]; nofun) (by rw [hk]; nofun) (by rw [hk]; nofun) hhead hargs
  | some k =>
    rw [hk] at h
    cases k with
    | quote =>
      dsimp only at h
      split at h
      · cases h
        exact .quote hk rfl
      next hne =>
        obtain ⟨head', args', t₁, hhead, hargs, rfl⟩ := helements h
        exact .elements (fun _ => hne) (by rw [hk]; nofun) (by rw [hk]; nofun) hhead hargs
    | lambda =>
      dsimp only at h
      split at h
      · obtain ⟨⟨renamed, scope⟩, t₁, hbind, h⟩ := outcome_bind_ok.1 h
        obtain ⟨bodies', t₂, hbodies, h⟩ := outcome_bind_ok.1 h
        cases h
        exact .lambda hk rfl hbind hbodies
      next hne =>
        obtain ⟨head', args', t₁, hhead, hargs, rfl⟩ := helements h
        exact .elements (by rw [hk]; nofun) (fun _ => hne) (by rw [hk]; nofun) hhead hargs
    | letrec =>
      dsimp only at h
      split at h
      · obtain ⟨scope, t₁, hbind, h⟩ := outcome_bind_ok.1 h
        obtain ⟨renamed, t₂, hrenamed, h⟩ := outcome_bind_ok.1 h
        obtain ⟨body, t₃, hfirst, h⟩ := outcome_bind_ok.1 h
        obtain ⟨rest', t₄, hrest, h⟩ := outcome_bind_ok.1 h
        cases h
        exact .letrec hk rfl hbind hrenamed hfirst hrest
      next hne =>
        obtain ⟨head', args', t₁, hhead, hargs, rfl⟩ := helements h
        exact .elements (by rw [hk]; nofun) (by rw [hk]; nofun) (fun _ => hne) hhead hargs
    | _ =>
      obtain ⟨head', args', t₁, hhead, hargs, rfl⟩ := helements h
      exact .elements (by rw [hk]; nofun) (by rw [hk]; nofun) (by rw [hk]; nofun) hhead hargs

/-- **Lists stay lists and symbols come from symbols.** -/
theorem rename_shape {r : Renaming} {e e' : Sexp} {t t' : NameTable}
    (h : (rename r e).outcome t = (.ok e', t')) :
    e'.isList = e.isList ∧ ∀ x, e' = .symbol x → ∃ s, e = .symbol s ∧ x = r.apply s := by
  cases e with
  | symbol s =>
    cases h
    exact ⟨rfl, fun x hx => ⟨s, rfl, (Sexp.symbol.inj hx).symm⟩⟩
  | list es =>
    cases es with
    | nil =>
      cases h
      exact ⟨rfl, nofun⟩
    | cons head args =>
      have hlist : ∃ es, e' = .list es := by
        cases rename_list_cases h with
        | _ => exact ⟨_, rfl⟩
      obtain ⟨es, rfl⟩ := hlist
      exact ⟨rfl, nofun⟩
  | _ =>
    cases h
    exact ⟨rfl, nofun⟩

/-- Renaming several expressions renames the first one and then the others. -/
theorem renameAll_cons_ok {r : Renaming} {e : Sexp} {es es' : List Sexp} {t t' : NameTable}
    (h : (renameAll r (e :: es)).outcome t = (.ok es', t')) : ∃ e₁ es₁ t₁,
      (rename r e).outcome t = (.ok e₁, t₁) ∧ (renameAll r es).outcome t₁ = (.ok es₁, t') ∧
      es' = e₁ :: es₁ := by
  unfold renameAll at h
  obtain ⟨e₁, t₁, he, h⟩ := outcome_bind_ok.1 h
  obtain ⟨es₁, t₂, hes, h⟩ := outcome_bind_ok.1 h
  cases h
  exact ⟨e₁, es₁, t₁, he, hes, rfl⟩

/-- Renaming several bindings renames the value of the first one and then the others. -/
theorem renameBindings_cons_ok {r : Renaming} {s : Text} {init : Sexp} {bs bs' : List Sexp}
    {t t' : NameTable}
    (h : (renameBindings r (.list [.symbol s, init] :: bs)).outcome t = (.ok bs', t')) :
    ∃ init' bs₁ t₁, (rename r init).outcome t = (.ok init', t₁) ∧
      (renameBindings r bs).outcome t₁ = (.ok bs₁, t') ∧
      bs' = .list [.symbol (r.apply s), init'] :: bs₁ := by
  unfold renameBindings at h
  obtain ⟨init', t₁, hinit, h⟩ := outcome_bind_ok.1 h
  obtain ⟨bs₁, t₂, hrest, h⟩ := outcome_bind_ok.1 h
  cases h
  exact ⟨init', bs₁, t₁, hinit, hrest, rfl⟩

/-- Renaming several expressions keeps their number and which of them are lists. -/
theorem renameAll_shape {r : Renaming} {es es' : List Sexp} {t t' : NameTable}
    (h : (renameAll r es).outcome t = (.ok es', t')) :
    es'.map Sexp.isList = es.map Sexp.isList := by
  induction es generalizing es' t with
  | nil =>
    cases h
    rfl
  | cons e es ih =>
    obtain ⟨e₁, es₁, t₁, he, hes, rfl⟩ := renameAll_cons_ok h
    rw [List.map_cons, List.map_cons, ih hes, (rename_shape he).1]

/-- A keyword comes from that keyword. -/
theorem eq_sexp_of_rename {r : Renaming} (hr : r.Numbered) {e : Sexp} {k : Keyword}
    {t t' : NameTable} (h : (rename r e).outcome t = (.ok k.sexp, t')) : e = k.sexp := by
  obtain ⟨s, rfl, hs⟩ := (rename_shape h).2 k.name rfl
  have hof : Keyword.of? (.symbol (r.apply s)) = some k := by
    rw [← hs]
    exact Keyword.of?_sexp k
  rw [Keyword.sexp, hs, hr.eq_of_apply hof]

/-- One expression comes from one. -/
theorem exists_eq_singleton {r : Renaming} {es : List Sexp} {d : Sexp} {t t' : NameTable}
    (h : (renameAll r es).outcome t = (.ok [d], t')) : ∃ d', es = [d'] := by
  have hlength := congrArg List.length (renameAll_shape h)
  rw [List.length_map, List.length_map] at hlength
  exact List.length_eq_one_iff.1 hlength.symm

/-- Expressions that begin with a list come from such ones. -/
theorem exists_eq_list_cons {r : Renaming} {es es' qs : List Sexp} {t t' : NameTable}
    (h : (renameAll r es).outcome t = (.ok (.list qs :: es'), t')) :
    ∃ ps rest, es = .list ps :: rest ∧ rest.length = es'.length := by
  have hshape := renameAll_shape h
  cases es with
  | nil => cases hshape
  | cons e rest =>
    obtain ⟨hlist, hrest⟩ := List.cons.inj hshape
    obtain ⟨ps, rfl⟩ := Sexp.eq_list_of_isList hlist.symm
    have hlength := congrArg List.length hrest
    rw [List.length_map, List.length_map] at hlength
    exact ⟨ps, rest, rfl, hlength.symm⟩

/-- **The form comes from an expression**: it is a renaming of a form that is written as the
expression, and names were drawn for it from `t` to `t'`. -/
def ComesFrom (r : Renaming) (t t' : NameTable) (e : Sexp) (g : Form) : Prop :=
  ∃ f names, f.toSexp = e ∧ Renamed r f g names ∧ Draws t names t'

/-- **Forms come from expressions**, one after the other. -/
def AllComeFrom (r : Renaming) (t t' : NameTable) (es : List Sexp) (gs : List Form) : Prop :=
  ∃ fs names, Form.toSexps fs = es ∧ RenamedAll r fs gs names ∧ Draws t names t'

namespace AllComeFrom

variable {r : Renaming} {t t' : NameTable} {head : Sexp} {args : List Sexp} {gs : List Form}

/-- A keyword in front of forms is renamed like one of them. -/
theorem tail {s : Text} (h : AllComeFrom r t t' (head :: args) (.constant (.symbol s) :: gs)) :
    AllComeFrom r t t' args gs := by
  obtain ⟨fs, names, hfs, hall, hdraws⟩ := h
  cases hall with
  | cons hone hall =>
    obtain ⟨s, rfl, _, rfl⟩ := hone.eq_variable
    rw [Form.toSexps] at hfs
    exact ⟨_, _, (List.cons.inj hfs).2, hall, hdraws⟩

/-- A branch comes from its three parts. -/
theorem branch {test yes no : Form} (h : AllComeFrom r t t' args [test, yes, no]) :
    ComesFrom r t t' (.list (Keyword.branch.sexp :: args)) (.branch test yes no) := by
  obtain ⟨fs, names, rfl, hall, hdraws⟩ := h
  obtain ⟨f₁, f₂, f₃, rfl⟩ := List.length_eq_three.1 hall.length_eq
  exact ⟨.branch f₁ f₂ f₃, names, rfl, .branch hall, hdraws⟩

/-- A sequence comes from its forms. -/
theorem sequence {first : Form} {rest : List Form} (h : AllComeFrom r t t' args (first :: rest)) :
    ComesFrom r t t' (.list (Keyword.sequence.sexp :: args)) (.sequence first rest) := by
  obtain ⟨fs, names, rfl, hall, hdraws⟩ := h
  cases fs with
  | nil => cases hall
  | cons f fs => exact ⟨.sequence f fs, names, rfl, .sequence hall, hdraws⟩

/-- An assignment comes from its variable and its value. -/
theorem assign {name : Text} {value : Form}
    (h : AllComeFrom r t t' args [.constant (.symbol name), value]) :
    ComesFrom r t t' (.list (Keyword.assign.sexp :: args)) (.assign name value) := by
  obtain ⟨fs, names, rfl, hall, hdraws⟩ := h
  cases hall with
  | cons hname hall =>
    obtain ⟨s, rfl, rfl, rfl⟩ := hname.eq_variable
    cases hall with
    | cons hvalue hnil =>
      cases hnil
      rw [List.nil_append, List.append_nil] at hdraws
      exact ⟨.assign s _, _, rfl, .assign hvalue, hdraws⟩

/-- The call of a primitive comes from the primitive and its arguments. -/
theorem primitive {op : Text}
    (h : AllComeFrom r t t' (head :: args) (.constant (.symbol op) :: gs)) :
    ComesFrom r t t' (.list (head :: args)) (.primitive op gs) := by
  obtain ⟨fs, names, hfs, hall, hdraws⟩ := h
  cases hall with
  | cons hop hall =>
    obtain ⟨s, rfl, rfl, rfl⟩ := hop.eq_variable
    refine ⟨.primitive s _, _, ?_, .primitive hall, hdraws⟩
    rw [Form.toSexp, ← hfs]
    rfl

/-- The call of a function comes from the function and its arguments. -/
theorem call {fn : Form} (h : AllComeFrom r t t' (head :: args) (fn :: gs)) :
    ComesFrom r t t' (.list (head :: args)) (.call fn gs) := by
  obtain ⟨fs, names, hfs, hall, hdraws⟩ := h
  cases fs with
  | nil => cases hall
  | cons f fs =>
    refine ⟨.call f fs, names, ?_, .call hall, hdraws⟩
    rw [Form.toSexp, ← hfs]
    rfl

end AllComeFrom

/-- **Renaming element by element.** Every form but functions, recursive bindings and
quoted data is renamed through its parts, where its keyword counts as one of them. -/
theorem elements_ok {isPrimitive : Text → Bool} {r : Renaming} (hr : r.Numbered)
    {head head' : Sexp} {args args' : List Sexp} {t t₁ t' : NameTable} {g : Form}
    (hquote : Keyword.of? head = some .quote → ∀ d, args ≠ [d])
    (hlambda : Keyword.of? head = some .lambda → ∀ ps bodies, args ≠ .list ps :: bodies)
    (hletrec : Keyword.of? head = some .letrec →
      ∀ bs first rest, args ≠ .list bs :: first :: rest)
    (hhead : (rename r head).outcome t = (.ok head', t₁))
    (hargs : (renameAll r args).outcome t₁ = (.ok args', t'))
    (ih : ∀ gs : List Form, (∀ g ∈ gs, g.Valid isPrimitive) → Form.toSexps gs = head' :: args' →
      AllComeFrom r t t' (head :: args) gs)
    (hg : g.Valid isPrimitive) (hwritten : g.toSexp = .list (head' :: args')) :
    ComesFrom r t t' (.list (head :: args)) g := by
  have hparts : ∀ {k : Keyword} (gs : List Form), k.sexp = head' →
      (∀ g ∈ gs, g.Valid isPrimitive) → Form.toSexps gs = args' → AllComeFrom r t t' args gs := by
    intro k gs hk hvalid hgs
    subst hk
    exact (ih (.constant k.sexp :: gs)
      (List.forall_mem_cons.2 ⟨.constant (Or.inl rfl), hvalid⟩)
      (by rw [Form.toSexps, Form.toSexp, hgs])).tail
  cases hg with
  | constant hc =>
    rw [Form.toSexp] at hwritten
    rw [hwritten] at hc
    rcases hc with hl | ⟨d, hd⟩
    · cases hl
    · obtain ⟨rfl, rfl⟩ := List.cons.inj (Sexp.list.inj hd)
      obtain rfl := eq_sexp_of_rename hr hhead
      obtain ⟨d', rfl⟩ := exists_eq_singleton hargs
      exact absurd rfl (hquote (Keyword.of?_sexp _) d')
  | lambda _ _ =>
    rw [Form.toSexp] at hwritten
    obtain ⟨rfl, rfl⟩ := List.cons.inj (Sexp.list.inj hwritten)
    obtain rfl := eq_sexp_of_rename hr hhead
    obtain ⟨ps, bodies, rfl, -⟩ := exists_eq_list_cons hargs
    exact absurd rfl (hlambda (Keyword.of?_sexp _) ps bodies)
  | letrec _ _ _ _ =>
    rw [Form.toSexp] at hwritten
    obtain ⟨rfl, rfl⟩ := List.cons.inj (Sexp.list.inj hwritten)
    obtain rfl := eq_sexp_of_rename hr hhead
    obtain ⟨bs, bodies, rfl, hlength⟩ := exists_eq_list_cons hargs
    cases bodies with
    | nil => cases hlength
    | cons first rest => exact absurd rfl (hletrec (Keyword.of?_sexp _) bs first rest)
  | branch vtest vyes vno =>
    rw [Form.toSexp] at hwritten
    obtain ⟨hk, hargs'⟩ := List.cons.inj (Sexp.list.inj hwritten)
    obtain rfl := eq_sexp_of_rename hr (hk ▸ hhead)
    exact (hparts [_, _, _] hk (by simp [vtest, vyes, vno]) hargs').branch
  | sequence vfirst vrest =>
    rw [Form.toSexp] at hwritten
    obtain ⟨hk, hargs'⟩ := List.cons.inj (Sexp.list.inj hwritten)
    obtain rfl := eq_sexp_of_rename hr (hk ▸ hhead)
    exact (hparts (_ :: _) hk (List.forall_mem_cons.2 ⟨vfirst, vrest⟩) hargs').sequence
  | @assign name value vvalue =>
    rw [Form.toSexp] at hwritten
    obtain ⟨hk, hargs'⟩ := List.cons.inj (Sexp.list.inj hwritten)
    obtain rfl := eq_sexp_of_rename hr (hk ▸ hhead)
    have vname : (Form.constant (.symbol name)).Valid isPrimitive := .constant (Or.inl rfl)
    exact (hparts [.constant (.symbol name), value] hk (by simp [vname, vvalue]) hargs').assign
  | @primitive op args₁ _ _ vargs =>
    rw [Form.toSexp] at hwritten
    obtain ⟨rfl, hargs'⟩ := List.cons.inj (Sexp.list.inj hwritten)
    exact (ih (.constant (.symbol op) :: args₁)
      (List.forall_mem_cons.2 ⟨.constant (Or.inl rfl), vargs⟩)
      (by rw [Form.toSexps, Form.toSexp, hargs'])).primitive
  | @call fn args₁ _ vfn vargs =>
    rw [Form.toSexp] at hwritten
    exact (ih (fn :: args₁) (List.forall_mem_cons.2 ⟨vfn, vargs⟩) (Sexp.list.inj hwritten)).call

mutual

/-- **Renaming follows the rules**: if an expression is renamed to what is written as
a valid form, then it is itself written as a form, of which that one is a renaming, and
the names were drawn. -/
theorem rename_ok (isPrimitive : Text → Bool) {r : Renaming} (hr : r.Numbered) :
    ∀ (e : Sexp) {e' : Sexp} {t t' : NameTable} {g : Form},
    (rename r e).outcome t = (.ok e', t') → g.Valid isPrimitive → g.toSexp = e' →
    ∃ f names, f.toSexp = e ∧ Renamed r f g names ∧ Draws t names t'
  | .list [], e', t, t', g, h, hg, hwritten => by
    cases h
    -- no form is written as the empty list
    cases hg with
    | constant hc =>
      rw [Form.toSexp] at hwritten
      rw [hwritten] at hc
      rcases hc with hl | ⟨d, hd⟩
      · cases hl
      · cases hd
    | _ =>
      rw [Form.toSexp] at hwritten
      cases hwritten
  | .list (head :: args), e', t, t', g, h, hg, hwritten => by
    cases rename_list_cases h with
    | quote hk hargs =>
      obtain rfl := Keyword.eq_sexp_of_of? hk
      have hconstant : (Form.constant (.list (Keyword.quote.sexp :: args))).Valid isPrimitive := by
        rw [hargs]
        exact .constant (Or.inr ⟨_, rfl⟩)
      obtain rfl : g = .constant (.list (Keyword.quote.sexp :: args)) := by
        have hanalyse := hg.analyse_toSexp
        rw [hwritten] at hanalyse
        exact Except.ok.inj (hanalyse.symm.trans hconstant.analyse_toSexp)
      exact ⟨_, [], rfl, .constant nofun, Draws.nil t⟩
    | @lambda params renamed bodies bodies' scope t₁ _ hk hargs hbind hbodies =>
      obtain rfl := Keyword.eq_sexp_of_of? hk
      obtain ⟨names, names', rfl, rfl, hbinds, hdraws⟩ := bindParameters_ok hbind
      obtain ⟨params', first', rest', rfl⟩ := hg.eq_lambda hwritten
      rw [Form.toSexp] at hwritten
      obtain ⟨hparams, hbodies'⟩ :=
        List.cons.inj (List.cons.inj (Sexp.list.inj hwritten)).2
      obtain rfl : params' = names' :=
        List.map_injective_iff.2 (fun _ _ => Sexp.symbol.inj) (Sexp.list.inj hparams)
      cases hg with
      | lambda vfirst vrest =>
        obtain ⟨fs, namesBody, hfs, hall, hdrawsBody⟩ := renameAll_ok isPrimitive
          (hr.cons hbinds hdraws.numbered) bodies hbodies (List.forall_mem_cons.2 ⟨vfirst, vrest⟩)
          hbodies'
        match fs, hall with
        | f :: fs, hall =>
          refine ⟨.lambda names f fs, _, ?_, .lambda hbinds hall, hdraws.append hdrawsBody⟩
          rw [Form.toSexp, hargs, ← hfs]
          rfl
    | @letrec bindings renamed rest rest' first first' scope t₁ t₂ t₃ _ hk hargs hbind hrenamed
        hfirst hrest =>
      obtain rfl := Keyword.eq_sexp_of_of? hk
      obtain ⟨pairs, names', hpairs, hbinds, hdraws⟩ := bindNames_ok hbind
      have hr' := hr.cons hbinds hdraws.numbered
      obtain ⟨bs', g₁, gs, rfl⟩ := hg.eq_letrec hwritten
      rw [Form.toSexp] at hwritten
      obtain ⟨hbs', hbodies'⟩ := List.cons.inj (List.cons.inj (Sexp.list.inj hwritten)).2
      obtain ⟨hg₁, hgs⟩ := List.cons.inj hbodies'
      cases hg with
      | letrec vbs _ vfirst vrest =>
        obtain ⟨bs, namesBs, hbs, hfst, hnames, hall, hdrawsBs⟩ := renameBindings_ok isPrimitive
          hr' bindings pairs hpairs hrenamed vbs (Sexp.list.inj hbs')
        obtain ⟨f, namesFirst, hf, hone, hdrawsFirst⟩ := rename_ok isPrimitive hr' first hfirst
          vfirst hg₁
        obtain ⟨fs, namesRest, hfs, hrest, hdrawsRest⟩ := renameAll_ok isPrimitive hr' rest hrest
          vrest hgs
        rw [← hfst] at hbinds
        obtain rfl : bs'.map Prod.fst = names' := hnames.trans (hbinds.map_apply r)
        refine ⟨.letrec bs f fs, _, ?_, .letrec hbinds hall (.cons hone hrest),
          hdraws.append (hdrawsBs.append (hdrawsFirst.append hdrawsRest))⟩
        rw [Form.toSexp, hargs, hbs, hf, hfs]
    | @elements head' args' t₁ _ hquote hlambda hletrec hhead hargs =>
      refine elements_ok hr hquote hlambda hletrec hhead hargs (fun gs hvalid hgs => ?_) hg hwritten
      refine renameAll_ok isPrimitive hr (head :: args) ?_ hvalid hgs
      exact outcome_bind_ok.2 ⟨head', t₁, hhead, outcome_bind_ok.2 ⟨args', t', hargs, rfl⟩⟩
  | .symbol s, e', t, t', g, h, hg, hwritten => by
    cases h
    obtain rfl := Form.eq_constant_of_toSexp hwritten
    exact ⟨.constant (.symbol s), [], by rw [Form.toSexp], .symbol s, Draws.nil t⟩
  | .absent, e', t, t', g, h, hg, hwritten | .number _, e', t, t', g, h, hg, hwritten
  | .str _, e', t, t', g, h, hg, hwritten | .bool _, e', t, t', g, h, hg, hwritten
  | .nil, e', t, t', g, h, hg, hwritten | .dot, e', t, t', g, h, hg, hwritten => by
    cases h
    have hanalyse := hg.analyse_toSexp
    rw [hwritten] at hanalyse
    cases hanalyse
    exact ⟨_, [], hwritten, .constant nofun, Draws.nil t⟩
termination_by e => sizeOf e
decreasing_by
  all_goals
    try subst_vars
    simp only [Sexp.list.sizeOf_spec, List.cons.sizeOf_spec]
    omega

/-- Several expressions, one after the other. -/
theorem renameAll_ok (isPrimitive : Text → Bool) {r : Renaming} (hr : r.Numbered) :
    ∀ (es : List Sexp) {es' : List Sexp} {t t' : NameTable} {gs : List Form},
    (renameAll r es).outcome t = (.ok es', t') → (∀ g ∈ gs, g.Valid isPrimitive) →
    Form.toSexps gs = es' →
    ∃ fs names, Form.toSexps fs = es ∧ RenamedAll r fs gs names ∧ Draws t names t'
  | [], es', t, t', gs, h, hgs, hwritten => by
    cases h
    cases gs with
    | nil => exact ⟨[], [], rfl, .nil, Draws.nil t⟩
    | cons g gs => cases hwritten
  | e :: es, es', t, t', gs, h, hgs, hwritten => by
    obtain ⟨e₁, es₁, t₁, he, hes, rfl⟩ := renameAll_cons_ok h
    cases gs with
    | nil => cases hwritten
    | cons g gs =>
      obtain ⟨hg, hgs⟩ := List.forall_mem_cons.1 hgs
      rw [Form.toSexps] at hwritten
      obtain ⟨hwritten, hwrittenAll⟩ := List.cons.inj hwritten
      obtain ⟨f, names, hf, hone, hdraws⟩ := rename_ok isPrimitive hr e he hg hwritten
      obtain ⟨fs, namesRest, hfs, hall, hdrawsRest⟩ :=
        renameAll_ok isPrimitive hr es hes hgs hwrittenAll
      refine ⟨f :: fs, _, ?_, .cons hone hall, hdraws.append hdrawsRest⟩
      rw [Form.toSexps, hf, hfs]
termination_by es => sizeOf es
decreasing_by
  all_goals
    try subst_vars
    simp only [List.cons.sizeOf_spec]
    omega

/-- The bindings of a recursive binding, one after the other. -/
theorem renameBindings_ok (isPrimitive : Text → Bool) {r : Renaming} (hr : r.Numbered) :
    ∀ (es : List Sexp) (pairs : List (Text × Sexp)) {es' : List Sexp} {t t' : NameTable}
      {bs' : List (Text × Form)},
    es = pairs.map (fun b => .list [.symbol b.1, b.2]) →
    (renameBindings r es).outcome t = (.ok es', t') → (∀ b ∈ bs', b.2.Valid isPrimitive) →
    Form.bindingsToSexps bs' = es' →
    ∃ (bs : List (Text × Form)) (names : List Text), Form.bindingsToSexps bs = es ∧
      bs.map Prod.fst = pairs.map Prod.fst ∧
      bs'.map Prod.fst = (bs.map Prod.fst).map r.apply ∧
      RenamedAll r (bs.map Prod.snd) (bs'.map Prod.snd) names ∧ Draws t names t'
  | [], pairs, es', t, t', bs', hpairs, h, hbs', hwritten => by
    cases h
    cases pairs with
    | nil =>
      cases bs' with
      | nil => exact ⟨[], [], rfl, rfl, rfl, .nil, Draws.nil t⟩
      | cons b bs => cases hwritten
    | cons p pairs => cases hpairs
  | e :: es, pairs, es', t, t', bs', hpairs, h, hbs', hwritten => by
    cases pairs with
    | nil => cases hpairs
    | cons p pairs =>
      obtain ⟨he, hrest⟩ := List.cons.inj hpairs
      subst he
      obtain ⟨value, es₁, t₁, hvalue, hes, rfl⟩ := renameBindings_cons_ok h
      cases bs' with
      | nil => cases hwritten
      | cons b bs' =>
        obtain ⟨hb, hbs'⟩ := List.forall_mem_cons.1 hbs'
        rw [Form.bindingsToSexps] at hwritten
        obtain ⟨hwritten, hwrittenAll⟩ := List.cons.inj hwritten
        obtain ⟨hname, hinit⟩ := List.cons.inj (Sexp.list.inj hwritten)
        obtain ⟨f, names, hf, hone, hdraws⟩ := rename_ok isPrimitive hr p.2 hvalue hb
          (List.cons.inj hinit).1
        obtain ⟨bs, namesRest, hbs, hfst, hnames, hall, hdrawsRest⟩ :=
          renameBindings_ok isPrimitive hr es pairs hrest hes hbs' hwrittenAll
        refine ⟨(p.1, f) :: bs, _, ?_, ?_, ?_, .cons hone hall, hdraws.append hdrawsRest⟩
        · rw [Form.bindingsToSexps, hf, hbs]
        · rw [List.map_cons, List.map_cons, hfst]
        · rw [List.map_cons, List.map_cons, List.map_cons, hnames, Sexp.symbol.inj hname]
termination_by es => sizeOf es
decreasing_by
  all_goals
    try subst_vars
    simp only [Sexp.list.sizeOf_spec, List.cons.sizeOf_spec, List.nil.sizeOf_spec]
    omega

end

end Alpha

/-! ## Renamed programs are clean -/

mutual

/-- A renamed form binds exactly the names that were drawn. -/
theorem Renamed.binders_eq {r : Renaming} {f g : Form} {names : List Text} :
    Renamed r f g names → g.binders = names
  | .symbol s => by rw [Form.binders]
  | .constant _ => by rw [Form.binders]
  | .lambda _ h => by
    rw [Form.binders, ← h.binders_eq]
    rfl
  | .branch h => by
    rw [Form.binders, ← h.binders_eq]
    simp only [Form.bindersAll, List.append_nil]
  | .sequence h => by
    rw [Form.binders, ← h.binders_eq]
    rfl
  | .assign h => by rw [Form.binders, h.binders_eq]
  | .letrec _ hbs hbody => by
    rw [Form.binders, Form.bindersBindings_eq, hbs.binders_eq, ← hbody.binders_eq]
    rfl
  | .primitive h => by rw [Form.binders, h.binders_eq]
  | .call h => by
    rw [Form.binders, ← h.binders_eq]
    rfl

theorem RenamedAll.binders_eq {r : Renaming} {fs gs : List Form} {names : List Text} :
    RenamedAll r fs gs names → Form.bindersAll gs = names
  | .nil => rfl
  | .cons h hs => by rw [Form.bindersAll, h.binders_eq, hs.binders_eq]

end

/-- A variable that is free inside a scope is bound there or free around it. -/
theorem Scope.Binds.free {scope : Scope} {ps qs : List Text} (h : Scope.Binds [] ps qs scope)
    {r : Renaming} {free : List Text} {x : Text}
    (hx : ∃ s ∈ free, x = Renaming.apply (scope :: r) s) (hqs : x ∉ qs) :
    ∃ s ∈ free.filter (· ∉ ps), x = r.apply s := by
  obtain ⟨s, hs, rfl⟩ := hx
  have hps : s ∉ ps := fun hps => hqs (h.apply_mem r hps)
  exact ⟨s, List.mem_filter.2 ⟨hs, decide_eq_true hps⟩, h.apply_of_not_mem r hps⟩

mutual

/-- The free variables of a renamed form are those of the form, called as the scopes
say. -/
theorem Renamed.free {r : Renaming} {f g : Form} {names : List Text} :
    Renamed r f g names → ∀ x ∈ g.free, ∃ s ∈ f.free, x = r.apply s
  | .symbol s, x, hx => by
    rw [Form.free, List.mem_singleton] at hx
    exact ⟨s, by rw [Form.free]; exact List.mem_singleton_self s, hx⟩
  | .constant he, x, hx => by
    rw [Form.free] at hx
    · exact absurd hx List.not_mem_nil
    · exact he
  | .lambda hbinds h, x, hx => by
    rw [Form.free, List.mem_filter, decide_eq_true_eq] at hx
    rw [Form.free]
    exact hbinds.free (h.free x hx.1) hx.2
  | .branch h, x, hx => by
    have h := h.free x
    simp only [Form.free, Form.freeAll, List.append_nil] at *
    exact h hx
  | .sequence h, x, hx => by
    rw [Form.free] at *
    exact h.free x hx
  | @Renamed.assign _ name _ _ _ h, x, hx => by
    rw [Form.free] at *
    rcases List.mem_cons.1 hx with rfl | hx
    · exact ⟨name, List.mem_cons_self, rfl⟩
    · obtain ⟨s, hs, rfl⟩ := h.free x hx
      exact ⟨s, List.mem_cons_of_mem _ hs, rfl⟩
  | .letrec hbinds hbs hbody, x, hx => by
    rw [Form.free, List.mem_filter, decide_eq_true_eq, Form.freeBindings_eq] at hx
    rw [Form.free, Form.freeBindings_eq]
    refine hbinds.free ?_ hx.2
    rcases List.mem_append.1 hx.1 with hx | hx
    · obtain ⟨s, hs, rfl⟩ := hbs.free x hx
      exact ⟨s, List.mem_append_left _ hs, rfl⟩
    · obtain ⟨s, hs, rfl⟩ := hbody.free x hx
      exact ⟨s, List.mem_append_right _ hs, rfl⟩
  | .primitive h, x, hx => by
    rw [Form.free] at *
    exact h.free x hx
  | .call h, x, hx => by
    rw [Form.free] at *
    exact h.free x hx

theorem RenamedAll.free {r : Renaming} {fs gs : List Form} {names : List Text} :
    RenamedAll r fs gs names → ∀ x ∈ Form.freeAll gs, ∃ s ∈ Form.freeAll fs, x = r.apply s
  | .nil, x, hx => absurd hx List.not_mem_nil
  | .cons h hs, x, hx => by
    rw [Form.freeAll] at *
    rcases List.mem_append.1 hx with hx | hx
    · obtain ⟨s, hs, rfl⟩ := h.free x hx
      exact ⟨s, List.mem_append_left _ hs, rfl⟩
    · obtain ⟨s, hs, rfl⟩ := hs.free x hx
      exact ⟨s, List.mem_append_right _ hs, rfl⟩

end

/-- **A program was renamed**: the form that it has afterwards is a renaming of a form
that it was written as, and the names were drawn with all its symbols reserved. -/
theorem alphatize_ok {isPrimitive : Text → Bool} {e e' : Sexp} {t t' : NameTable} {g : Form}
    (h : (alphatize e).outcome t = (.ok e', t')) (hg : Form.analyse isPrimitive e' = .ok g) :
    ∃ f names, f.toSexp = e ∧ Renamed [] f g names ∧
      Draws (t.reserve programNames (Sexp.symbolsList [e])) names t' := by
  obtain ⟨hv, hwritten⟩ := Form.analyse_eq_ok isPrimitive e' g hg
  unfold alphatize at h
  obtain ⟨_, t₁, hreserve, h⟩ := FreshExcept.outcome_bind_ok.1 h
  cases hreserve
  exact Alpha.rename_ok isPrimitive (fun s => Or.inl rfl) e h hv hwritten

/-- **The form of a renamed program is clean**, and what it binds is new: it ends in a
digit, and it was neither a symbol of the program nor taken. -/
theorem alphatize_clean {isPrimitive : Text → Bool} {e e' : Sexp} {t t' : NameTable} {g : Form}
    (h : (alphatize e).outcome t = (.ok e', t')) (hg : Form.analyse isPrimitive e' = .ok g) :
    g.Clean ∧ ∀ x ∈ g.binders,
      x.EndsInDigit ∧ x ∉ e.symbols ∧ (x, programNames) ∉ t.taken := by
  obtain ⟨f, names, hwritten, hrenamed, hdraws⟩ := alphatize_ok h hg
  have hnew : ∀ x ∈ g.binders, x.EndsInDigit ∧ x ∉ e.symbols ∧ (x, programNames) ∉ t.taken := by
    intro x hx
    rw [hrenamed.binders_eq] at hx
    refine ⟨hdraws.numbered x hx, fun hin => hdraws.fresh x hx ?_, fun hin => hdraws.fresh x hx ?_⟩
    · exact NameTable.mem_taken_reserve.2 (Or.inr ⟨rfl, List.mem_append_left _ hin⟩)
    · exact NameTable.mem_taken_reserve.2 (Or.inl hin)
  refine ⟨⟨?_, fun x hx hfree => ?_⟩, hnew⟩
  · rw [hrenamed.binders_eq]
    exact hdraws.nodup
  · obtain ⟨s, hs, rfl⟩ := hrenamed.free x hfree
    have := Form.mem_symbols_of_mem_free hs
    rw [Form.symbols, hwritten] at this
    exact (hnew _ hx).2.1 this

end PassingStyle
