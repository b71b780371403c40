import PassingStyle.Proofs.Hygiene
import PassingStyle.Proofs.Renamed

/-!
# Every name is bound once

A compiler that renames variables gives every binder of a program a name of its own before
it converts the program. The conversion then adds binders, for which it makes up names, and
it copies no code that holds a binder. Both passes draw their names from one table: the
second one starts where the first one ended. So in the output no name is bound twice, and
none that is bound occurs in the program.

What a step does is said by `BindsNew t bound t'`. It is about a table before and after the
step, and about the names that are bound in what the step produces. Such steps compose, so a
whole run of the compiler is like one step: no two of its outputs bind the same name.
-/

namespace PassingStyle

/-! ## Binding new names -/

/-- **Binding new names**: from the table `t` to the table `t'`, the names in `bound` are
bound, each of them once, and each of them was drawn on the way. -/
structure BindsNew (t : NameTable) (bound : List Text) (t' : NameTable) : Prop where
  /-- No name is bound twice. -/
  nodup : bound.Nodup
  /-- None of the names was taken. -/
  fresh : ∀ x ∈ bound, (x, programNames) ∉ t.taken
  /-- All of them are taken afterwards. -/
  taken : ∀ x ∈ bound, (x, programNames) ∈ t'.taken
  /-- What was taken stays taken. -/
  kept : ∀ p ∈ t.taken, p ∈ t'.taken

namespace BindsNew

variable {t t₁ t' : NameTable} {bound bound₁ bound₂ : List Text}

/-- Binding nothing. -/
theorem nil (t : NameTable) : BindsNew t [] t :=
  ⟨List.nodup_nil, nofun, nofun, fun _ hp => hp⟩

/-- Reserving names binds nothing. -/
theorem reserve (t : NameTable) (ns : Text) (names : List Text) :
    BindsNew t [] (t.reserve ns names) :=
  ⟨List.nodup_nil, nofun, nofun, fun _ hp => NameTable.mem_taken_reserve.2 (Or.inl hp)⟩

/-- The names that were drawn may be bound, once each. -/
theorem of_draws (h : Draws t bound t') : BindsNew t bound t' :=
  ⟨h.nodup, h.fresh, fun _ hx => h.mem_taken hx, fun _ hp => h.taken_subset hp⟩

/-- **Steps compose.** What the second one binds was not taken when it began, and so it is
not bound by the first. -/
theorem append (h₁ : BindsNew t bound₁ t₁) (h₂ : BindsNew t₁ bound₂ t') :
    BindsNew t (bound₁ ++ bound₂) t' where
  nodup := List.nodup_append.2 ⟨h₁.nodup, h₂.nodup, fun x hx y hy hxy =>
    h₂.fresh y hy (hxy ▸ h₁.taken x hx)⟩
  fresh x hx := by
    rcases List.mem_append.1 hx with hx | hx
    · exact h₁.fresh x hx
    · exact fun hin => h₂.fresh x hx (h₁.kept _ hin)
  taken x hx := by
    rcases List.mem_append.1 hx with hx | hx
    · exact h₂.kept _ (h₁.taken x hx)
    · exact h₂.taken x hx
  kept p hp := h₂.kept p (h₁.kept p hp)

/-- Not all names have to be bound that could be. -/
theorem subperm (h : BindsNew t bound t') (hsub : bound₁.Subperm bound) :
    BindsNew t bound₁ t' where
  nodup := List.nodup_iff_count_le_one.2 fun x =>
    (hsub.count_le x).trans (List.nodup_iff_count_le_one.1 h.nodup x)
  fresh x hx := h.fresh x (hsub.subset hx)
  taken x hx := h.taken x (hsub.subset hx)
  kept := h.kept

end BindsNew

/-! ## Renaming, then converting -/

/-- **Renaming** binds new names: those of the form that the renamed program has. None of
them is a symbol of the program. -/
theorem alphatize_bindsNew {isPrimitive : Text → Bool} {e e' : Sexp} {t t' : NameTable} {f : Form}
    (h : (alphatize e).outcome t = (.ok e', t')) (hf : Form.analyse isPrimitive e' = .ok f) :
    BindsNew (t.reserve programNames (Sexp.symbolsList [e])) f.binders t' := by
  obtain ⟨_, names, _, hrenamed, hdraws⟩ := alphatize_ok h hf
  rw [hrenamed.binders_eq]
  exact .of_draws hdraws

/-- **Converting a program** copies no binder: the names that are bound in the output are
those that its form binds and those that were drawn, none more often than there. -/
theorem Convert.program_subperm {isPrimitive : Text → Bool} {e out : Sexp} {halt : Text}
    {t t' : NameTable} (hhalt : Keyword.of? (.symbol halt) = none)
    (h : (program isPrimitive e halt).outcome t = (.ok out, t')) : ∃ f names,
    Form.analyse isPrimitive e = .ok f ∧ out.binders.Subperm (f.binders ++ names) ∧
      Draws (t.reserve programNames (Sexp.symbolsList [e, .symbol halt])) names t' := by
  obtain ⟨f, hf, hout⟩ := program_ok h
  obtain ⟨hv, _⟩ := Form.analyse_eq_ok isPrimitive e f hf
  obtain ⟨names, hdraws, himage⟩ := hv.convertProgram_image halt
    (t.reserve programNames (Sexp.symbolsList [e, .symbol halt]))
  rw [hout] at hdraws himage
  refine ⟨f, names, hf, List.subperm_ext_iff.2 fun x _ => ?_, hdraws⟩
  rw [List.count_append]
  rcases himage with ⟨_, himage⟩ | ⟨_, himage⟩
  · exact himage.count_binders x hv hdraws.numbered
  · exact himage.count_binders x hv hdraws.numbered hhalt

namespace Compiler

variable {c c' : Compiler} {e out : Sexp} {es outs : List Sexp}

/-- **One conversion** binds new names, none of which is a symbol of the program. -/
theorem convert_bindsNew (halpha : c.settings.alphatize = true)
    (hhalt : Keyword.of? (.symbol c.settings.finalCont) = none)
    (h : outcome (convert e) c = (.ok out, c')) :
    BindsNew (c.names.reserve programNames (Sexp.symbolsList [e])) out.binders c'.names := by
  obtain ⟨e', t, hrename, hprogram⟩ := convert_ok halpha h
  obtain ⟨f, names, hf, hsub, hdraws⟩ := Convert.program_subperm hhalt hprogram
  have hconverted : BindsNew t names c'.names :=
    (BindsNew.reserve t programNames _).append (.of_draws hdraws)
  exact ((alphatize_bindsNew hrename hf).append hconverted).subperm hsub

/-- **Every name is bound once** in the output of a compiler that renames variables, and no
name that is bound there occurs in the program. The names of the variables and the names
that the conversion has made up are told apart from each other as well, since both were new
to the compiler's table. -/
theorem convert_binds_once (halpha : c.settings.alphatize = true)
    (hhalt : Keyword.of? (.symbol c.settings.finalCont) = none)
    (h : outcome (convert e) c = (.ok out, c')) :
    out.binders.Nodup ∧ ∀ x ∈ out.binders, x ∉ e.symbols := by
  have hbinds := convert_bindsNew halpha hhalt h
  refine ⟨hbinds.nodup, fun x hx hsymbol => hbinds.fresh x hx ?_⟩
  refine NameTable.mem_taken_reserve.2 (Or.inr ⟨rfl, ?_⟩)
  exact Sexp.mem_symbolsList.2 ⟨e, List.mem_cons_self, hsymbol⟩

/-- The program `(letrec ((x (lambda (x) (x k0)))) (x (x #t)))`, which binds `x` twice and
mentions `k0`. -/
theorem convert_binds_once_letrec :
    let e : Sexp := .list [Keyword.letrec.sexp, .list [.list [.ofName "x",
      Target.lambda ["x"] (.list [.ofName "x", .ofName "k0"])]],
      .list [.ofName "x", .list [.ofName "x", .bool true]]]
    let out : Sexp := Target.letrec [.list [.ofName "x0",
        Target.lambda ["x1", "k1"] (Target.call (.ofName "x1") [.ofName "k0"] (.ofName "k1"))]]
      (Target.call (.ofName "x0") [.bool true]
        (Target.lambda ["rv0"] (Target.call (.ofName "x0") [.ofName "rv0"] (.ofName "halt"))))
    out.binders = ["x0", "x1", "k1", "rv0"] ∧ out.binders.Nodup ∧ ∀ x ∈ out.binders, x ∉ e.symbols := by
  intro e out
  have hrun : (outcome (convert e) { settings := { alphatize := true } }).1.toOption = some out := by
    decide +kernel
  obtain ⟨c', hout⟩ := outcome_of_toOption hrun
  exact ⟨rfl, convert_binds_once rfl rfl hout⟩

/-- **A whole run** binds new names: no name is bound at two places, be it in one output or
in two of them. -/
theorem convertAll_bindsNew (halpha : c.settings.alphatize = true)
    (hhalt : Keyword.of? (.symbol c.settings.finalCont) = none)
    (h : outcome (convertAll es) c = (.ok outs, c')) :
    BindsNew c.names (Sexp.bindersAll outs) c'.names := by
  induction es generalizing c outs with
  | nil =>
    cases h
    exact .nil _
  | cons e es ih =>
    unfold convertAll at h
    rw [List.mapM_cons] at h
    obtain ⟨out, c₁, hout, h⟩ := outcome_bind_ok.1 h
    obtain ⟨outs', c₂, houts, h⟩ := outcome_bind_ok.1 h
    cases h
    have hsettings : c₁.settings = c.settings := by
      have := (KeepsSettings.convert e c).1
      rwa [hout] at this
    have hfirst := (BindsNew.reserve _ _ _).append (convert_bindsNew halpha hhalt hout)
    exact hfirst.append (ih (by rwa [hsettings]) (by rwa [hsettings]) houts)

end Compiler

end PassingStyle
