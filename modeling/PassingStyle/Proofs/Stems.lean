import PassingStyle.Proofs.Leaves
import PassingStyle.Proofs.Renamed

/-!
# Renaming keeps the leaves

Renaming a program changes no more than its leaves, and of a leaf no more than that a number
comes behind a symbol: the leaves keep their places and their stems. That is so for every
expression that is renamed, whether or not it is a program, and it says where the new names
come from, which the freshness of these names does not.

The walk goes through the scopes. A scope calls each name that it binds by a name with the same
stem, and a name that no scope binds is left alone, so the renaming keeps stems at every place.
-/

namespace PassingStyle

/-! ## Stems -/

/-- **The same stem**: the same atom, or the same symbol with a number behind it. -/
def Sexp.SameStem (a b : Sexp) : Prop :=
  b = a ∨ ∃ s n, a = .symbol s ∧ b = .symbol (NameTable.nameOf s n)

/-- A scope keeps the stems of its names. -/
def Scope.KeepsStems (scope : Scope) : Prop :=
  ∀ s x, scope.find? s = some x → ∃ n, x = NameTable.nameOf s n

/-- A renaming keeps the stems of all names. -/
def Renaming.KeepsStems (r : Renaming) : Prop :=
  ∀ s, (Sexp.symbol s).SameStem (.symbol (r.apply s))

/-- Binding one more name. -/
theorem Scope.KeepsStems.cons {scope : Scope} (h : scope.KeepsStems) (s : Text) (n : Nat) :
    Scope.KeepsStems ((s, NameTable.nameOf s n) :: scope) := by
  intro s' x hx
  rw [Scope.Binds.find?_cons] at hx
  split_ifs at hx with hs
  · exact ⟨n, by rw [hs, ← Option.some.inj hx]⟩
  · exact h s' x hx

/-- One more scope. -/
theorem Renaming.KeepsStems.cons {r : Renaming} (hr : r.KeepsStems) {scope : Scope}
    (h : scope.KeepsStems) : Renaming.KeepsStems (scope :: r) := by
  intro s
  unfold Renaming.apply
  rw [List.findSome?_cons]
  cases hfind : scope.find? s with
  | some x =>
    obtain ⟨n, rfl⟩ := h s x hfind
    exact Or.inr ⟨s, n, rfl, rfl⟩
  | none => exact hr s

/-! ## The leaves of renamed expressions -/

namespace Alpha

open FreshExcept Sexp

/-- The parameters of a function keep their stems. -/
theorem bindParameters_leaves {ps : List Sexp} {scope inner : Scope} {t t' : NameTable}
    {renamed : List Sexp} (hscope : scope.KeepsStems)
    (h : (bindParameters ps scope).outcome t = (.ok (renamed, inner), t')) :
    inner.KeepsStems ∧ List.Forall₂ SameStem (leavesAll ps) (leavesAll renamed) := by
  induction ps generalizing scope t renamed with
  | nil =>
    cases h
    exact ⟨hscope, .nil⟩
  | cons p ps ih =>
    obtain ⟨s, rest, rfl, rfl, _, hrest⟩ := bindParameters_cons_ok h
    obtain ⟨hinner, hleaves⟩ := ih (hscope.cons s _) hrest
    refine ⟨hinner, ?_⟩
    rw [leavesAll_cons, leavesAll_cons, leaves_symbol, leaves_symbol]
    exact .cons (Or.inr ⟨s, _, rfl, rfl⟩) hleaves

/-- The names of a recursive binding keep their stems. -/
theorem bindNames_keepsStems {whole : Sexp} {bs : List Sexp} {scope inner : Scope}
    {t t' : NameTable} (hscope : scope.KeepsStems)
    (h : (bindNames whole bs scope).outcome t = (.ok inner, t')) : inner.KeepsStems := by
  induction bs generalizing scope t with
  | nil =>
    cases h
    exact hscope
  | cons b bs ih =>
    obtain ⟨s, init, rfl, _, hrest⟩ := bindNames_cons_ok h
    exact ih (hscope.cons s _) hrest

/-- **The leaves keep their places and their stems** when the expression is renamed. -/
def KeepsLeaves (e : Sexp) : Prop :=
  ∀ ⦃r : Renaming⦄ ⦃e' : Sexp⦄ ⦃t t' : NameTable⦄, (rename r e).outcome t = (.ok e', t') →
    r.KeepsStems → List.Forall₂ SameStem e.leaves e'.leaves

/-- Leaves that stay as they are. -/
theorem forall₂_sameStem_self (as : List Sexp) : List.Forall₂ SameStem as as :=
  List.forall₂_same.2 fun _ _ => Or.inl rfl

variable {r : Renaming}

/-- Several expressions keep their leaves. -/
theorem renameAll_leaves {es es' : List Sexp} {t t' : NameTable} (hr : r.KeepsStems)
    (hes : ∀ e ∈ es, KeepsLeaves e) (h : (renameAll r es).outcome t = (.ok es', t')) :
    List.Forall₂ SameStem (leavesAll es) (leavesAll es') := by
  induction es generalizing es' t with
  | nil =>
    cases h
    exact .nil
  | cons e es ih =>
    obtain ⟨e₁, es₁, t₁, he, hrest, rfl⟩ := renameAll_cons_ok h
    obtain ⟨hkeeps, hes⟩ := List.forall_mem_cons.1 hes
    exact List.rel_append (hkeeps he hr) (ih hes hrest)

/-- The bindings of a recursive binding keep their leaves. -/
theorem renameBindings_leaves {pairs : List (Text × Sexp)} {bs' : List Sexp} {t t' : NameTable}
    (hr : r.KeepsStems) (hpairs : ∀ b ∈ pairs, KeepsLeaves b.2)
    (h : (renameBindings r (pairs.map fun b => .list [.symbol b.1, b.2])).outcome t = (.ok bs', t')) :
    List.Forall₂ SameStem (leavesAll (pairs.map fun b => .list [.symbol b.1, b.2]))
      (leavesAll bs') := by
  induction pairs generalizing bs' t with
  | nil =>
    cases h
    exact .nil
  | cons b pairs ih =>
    rw [List.map_cons] at h ⊢
    obtain ⟨init', bs₁, t₁, hinit, hrest, rfl⟩ := renameBindings_cons_ok h
    obtain ⟨hkeeps, hpairs⟩ := List.forall_mem_cons.1 hpairs
    have hpair := List.Forall₂.cons (hr b.1)
      (List.rel_append (hkeeps hinit hr) (forall₂_sameStem_self []))
    rw [leavesAll_cons, leavesAll_cons, leaves_list, leaves_list, leavesAll_cons, leavesAll_cons,
      leavesAll_cons, leavesAll_cons, leaves_symbol, leaves_symbol]
    exact List.rel_append hpair (ih hpairs hrest)

/-- **Renaming keeps the leaves in their places**, and their stems: it puts numbers behind
some of the symbols. -/
theorem rename_leaves : ∀ e : Sexp, KeepsLeaves e
  | .list [] => by
    intro _ _ _ _ h _
    cases h
    exact forall₂_sameStem_self _
  | .list (head :: args) => by
    intro r e' t t' h hr
    have ih : ∀ x ∈ head :: args, KeepsLeaves x := fun x hx => rename_leaves x
    have hnil : Scope.KeepsStems [] := nofun
    cases rename_list_cases h with
    | quote => exact forall₂_sameStem_self _
    | lambda hk hd hbind hbodies =>
      subst hd
      obtain ⟨hscope, hparams⟩ := bindParameters_leaves hnil hbind
      have hbodies := renameAll_leaves (hr.cons hscope) (fun x hx => ih x (by simp [hx])) hbodies
      rw [leaves_list, leaves_list, leavesAll_cons, leavesAll_cons, leavesAll_cons, leavesAll_cons,
        leaves_list, leaves_list]
      exact List.rel_append (forall₂_sameStem_self _) (List.rel_append hparams hbodies)
    | letrec hk hd hbind hrenamed hfirst hrest =>
      subst hd
      have hr' := hr.cons (bindNames_keepsStems hnil hbind)
      obtain ⟨pairs, names', rfl, _, _⟩ := bindNames_ok hbind
      have hmem : ∀ b ∈ pairs, Sexp.list [.symbol b.1, b.2]
          ∈ pairs.map fun b => .list [.symbol b.1, b.2] := fun b hb => List.mem_map_of_mem hb
      have hbindings := renameBindings_leaves hr' (fun b hb => rename_leaves b.2) hrenamed
      have hfirst := ih _ (by simp) hfirst hr'
      have hrest := renameAll_leaves hr' (fun x hx => ih x (by simp [hx])) hrest
      simp only [leaves_list, leavesAll_cons]
      exact List.rel_append (forall₂_sameStem_self _)
        (List.rel_append hbindings (List.rel_append hfirst hrest))
    | elements _ _ _ hhead hrest =>
      have hhead := ih head (by simp) hhead hr
      exact List.rel_append hhead (renameAll_leaves hr (fun x hx => ih x (by simp [hx])) hrest)
  | .symbol s => by
    intro _ _ _ _ h hr
    cases h
    rw [leaves_symbol, leaves_symbol]
    exact .cons (hr s) .nil
  | .absent | .number _ | .str _ | .bool _ | .nil | .dot => by
    intro _ _ _ _ h _
    cases h
    exact forall₂_sameStem_self _
termination_by e => sizeOf e
decreasing_by
  · have := List.sizeOf_lt_of_mem hx
    simp only [Sexp.list.sizeOf_spec]
    omega
  · subst_vars
    have := List.sizeOf_lt_of_mem (hmem b hb)
    simp only [Sexp.list.sizeOf_spec, List.cons.sizeOf_spec, Sexp.symbol.sizeOf_spec] at this ⊢
    omega

end Alpha

/-- **The leaves of a renamed program** are those of the program, but for numbers. -/
theorem alphatize_leaves {e e' : Sexp} {t t' : NameTable}
    (h : (alphatize e).outcome t = (.ok e', t')) :
    List.Forall₂ Sexp.SameStem e.leaves e'.leaves := by
  unfold alphatize at h
  obtain ⟨_, t₁, hreserve, h⟩ := FreshExcept.outcome_bind_ok.1 h
  exact Alpha.rename_leaves e h fun s => Or.inl rfl

end PassingStyle
