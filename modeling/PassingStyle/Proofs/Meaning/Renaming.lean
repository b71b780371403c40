import PassingStyle.Proofs.Meaning.Alike
import PassingStyle.Proofs.Renamed

/-!
# Renaming keeps the meaning

Renaming knows the scopes of a program but not its primitives, and inside a scope it
renames every symbol that the scope binds, keywords included. Analysis on the other hand
knows no scopes. The two read a program in the same way if all names that it binds are
*plain*, and if no primitive is among the names that were drawn for them. Then the form
of the renamed program is like the form of the program, and both come to the same.

Without that they may not. In `((lambda (if) (if 1 2 3)) f)` analysis sees a branch, but
the renamed program calls `f`.
-/

namespace PassingStyle

/-! ## The program that was renamed -/

/-- **A plain name**: neither a keyword nor a primitive. -/
structure Plain (isPrimitive : Text → Bool) (x : Text) : Prop where
  /-- It is no keyword. -/
  keyword : Keyword.of? (.symbol x) = none
  /-- It is no primitive. -/
  primitive : isPrimitive x = false

/-- **A sparing renaming** renames plain names only, and makes no primitives. -/
def Renaming.Sparing (isPrimitive : Text → Bool) (r : Renaming) : Prop :=
  ∀ s, r.apply s = s ∨ Plain isPrimitive s ∧ isPrimitive (r.apply s) = false

theorem Renaming.Sparing.cons {isPrimitive : Text → Bool} {r : Renaming}
    (hr : r.Sparing isPrimitive) {ps qs : List Text} {scope : Scope}
    (h : Scope.Binds [] ps qs scope) (hps : ∀ p ∈ ps, Plain isPrimitive p)
    (hqs : ∀ q ∈ qs, isPrimitive q = false) :
    Renaming.Sparing isPrimitive (scope :: r) := by
  intro s
  by_cases hs : s ∈ ps
  · exact Or.inr ⟨hps s hs, hqs _ (h.apply_mem r hs)⟩
  · rw [h.apply_of_not_mem r hs]
    exact hr s

namespace Form

variable {isPrimitive : Text → Bool} {f : Form}

theorem bindings_toSexps_eq {bs bs' : List (Text × Form)}
    (h : bindingsToSexps bs = bindingsToSexps bs') :
    bs.map Prod.fst = bs'.map Prod.fst ∧
      toSexps (bs.map Prod.snd) = toSexps (bs'.map Prod.snd) := by
  induction bs generalizing bs' with
  | nil =>
    cases bs' with
    | nil => exact ⟨rfl, rfl⟩
    | cons b bs' => cases h
  | cons b bs ih =>
    cases bs' with
    | nil => cases h
    | cons b' bs' =>
      rw [bindingsToSexps, bindingsToSexps] at h
      obtain ⟨hb, hbs⟩ := List.cons.inj h
      obtain ⟨hname, hvalue⟩ := List.cons.inj (Sexp.list.inj hb)
      obtain ⟨hnames, hvalues⟩ := ih hbs
      simp only [List.map_cons, toSexps, Sexp.symbol.inj hname, hnames, hvalues,
        (List.cons.inj hvalue).1, and_self]

/-- **A form is the only reading** of how it is written, among the valid forms that bind plain
names only. -/
def SoleReading (isPrimitive : Text → Bool) (f' : Form) : Prop :=
  ∀ f : Form, f.Valid isPrimitive → (∀ x ∈ f.binders, Plain isPrimitive x) →
    f.toSexp = f'.toSexp → f = f'

/-- **Forms are the only reading** of how they are written. -/
def SoleReadings (isPrimitive : Text → Bool) (fs' : List Form) : Prop :=
  ∀ fs : List Form, (∀ f ∈ fs, f.Valid isPrimitive) →
    (∀ x ∈ bindersAll fs, Plain isPrimitive x) → toSexps fs = toSexps fs' → fs = fs'

theorem SoleReadings.nil : SoleReadings isPrimitive [] := by
  intro fs _ _ h
  cases fs with
  | nil => rfl
  | cons f fs => cases h

theorem SoleReadings.cons {f' : Form} {fs' : List Form} (hone : f'.SoleReading isPrimitive)
    (hall : SoleReadings isPrimitive fs') : SoleReadings isPrimitive (f' :: fs') := by
  intro fs hfs hplain h
  cases fs with
  | nil => cases h
  | cons f fs =>
    obtain ⟨vf, vfs⟩ := List.forall_mem_cons.1 hfs
    rw [bindersAll] at hplain
    obtain ⟨hplain, hplain'⟩ := List.forall_mem_append.1 hplain
    rw [toSexps, toSexps] at h
    obtain ⟨h, hs⟩ := List.cons.inj h
    rw [hone f vf hplain h, hall fs vfs hplain' hs]

namespace SoleReading

variable {first : Form} {rest args : List Form}

/-- Only a variable is written as a symbol. -/
theorem symbol (s : Text) : (constant (.symbol s)).SoleReading isPrimitive := by
  intro f _ _ h
  rw [toSexp] at h
  exact eq_constant_of_toSexp h

/-- Analysis gives no two readings. -/
theorem of_valid {f' : Form} (hf' : f'.Valid isPrimitive) : f'.SoleReading isPrimitive := by
  intro f hf _ h
  have hanalyse := hf'.analyse_toSexp
  rw [← h] at hanalyse
  exact Except.ok.inj (hf.analyse_toSexp.symm.trans hanalyse)

/-- A function, whose parameters are plain. -/
theorem lambda {params : List Text}
    (hbody : (∀ p ∈ params, Plain isPrimitive p) → SoleReadings isPrimitive (first :: rest)) :
    (Form.lambda params first rest).SoleReading isPrimitive := by
  intro f hf hplain h
  rw [toSexp] at h
  obtain ⟨params', first', rest', rfl⟩ := hf.eq_lambda h
  rw [toSexp] at h
  obtain ⟨hparams, hbodies⟩ := List.cons.inj (List.cons.inj (Sexp.list.inj h)).2
  obtain rfl := List.map_injective_iff.2 (fun _ _ => Sexp.symbol.inj) (Sexp.list.inj hparams)
  rw [binders] at hplain
  obtain ⟨hparams, hplain⟩ := List.forall_mem_append.1 hplain
  cases hf with
  | lambda vfirst vrest =>
    obtain ⟨rfl, rfl⟩ := List.cons.inj
      (hbody hparams _ (List.forall_mem_cons.2 ⟨vfirst, vrest⟩) hplain hbodies)
    rfl

/-- A branch. -/
theorem branch {test yes no : Form} (hparts : SoleReadings isPrimitive [test, yes, no]) :
    (Form.branch test yes no).SoleReading isPrimitive := by
  intro f hf hplain h
  rw [toSexp] at h
  have hkeyword := hf.keyword?_eq h
  cases hf with
  | branch vtest vyes vno =>
    rw [toSexp] at h
    rw [binders] at hplain
    have hparts := hparts [_, _, _] (by simp [vtest, vyes, vno]) (by simpa [bindersAll] using hplain)
      (List.cons.inj (Sexp.list.inj h)).2
    simp only [List.cons.injEq, and_true] at hparts
    obtain ⟨rfl, rfl, rfl⟩ := hparts
    rfl
  | _ => cases hkeyword

/-- A sequence. -/
theorem sequence (hparts : SoleReadings isPrimitive (first :: rest)) :
    (Form.sequence first rest).SoleReading isPrimitive := by
  intro f hf hplain h
  rw [toSexp] at h
  have hkeyword := hf.keyword?_eq h
  cases hf with
  | sequence vfirst vrest =>
    rw [toSexp] at h
    rw [binders] at hplain
    obtain ⟨rfl, rfl⟩ := List.cons.inj (hparts _ (List.forall_mem_cons.2 ⟨vfirst, vrest⟩) hplain
      (List.cons.inj (Sexp.list.inj h)).2)
    rfl
  | _ => cases hkeyword

/-- An assignment. -/
theorem assign {name : Text} {value : Form} (hvalue : value.SoleReading isPrimitive) :
    (Form.assign name value).SoleReading isPrimitive := by
  intro f hf hplain h
  rw [toSexp] at h
  have hkeyword := hf.keyword?_eq h
  cases hf with
  | assign vvalue =>
    rw [toSexp] at h
    rw [binders] at hplain
    obtain ⟨hname, h⟩ := List.cons.inj (List.cons.inj (Sexp.list.inj h)).2
    rw [hvalue _ vvalue hplain (List.cons.inj h).1, Sexp.symbol.inj hname]
  | _ => cases hkeyword

/-- A recursive binding, whose names are plain. -/
theorem letrec {bindings : List (Text × Form)}
    (hvalues : (∀ x ∈ bindings.map Prod.fst, Plain isPrimitive x) →
      SoleReadings isPrimitive (bindings.map Prod.snd))
    (hbody : (∀ x ∈ bindings.map Prod.fst, Plain isPrimitive x) →
      SoleReadings isPrimitive (first :: rest)) :
    (Form.letrec bindings first rest).SoleReading isPrimitive := by
  intro f hf hplain h
  rw [toSexp] at h
  obtain ⟨bindings', first', rest', rfl⟩ := hf.eq_letrec h
  rw [toSexp] at h
  obtain ⟨hbindings, hbodies⟩ := List.cons.inj (List.cons.inj (Sexp.list.inj h)).2
  obtain ⟨hfst, hsnd⟩ := bindings_toSexps_eq (Sexp.list.inj hbindings)
  rw [binders, bindersBindings_eq] at hplain
  obtain ⟨hbound, hplain⟩ := List.forall_mem_append.1 hplain
  obtain ⟨hplain, hplain'⟩ := List.forall_mem_append.1 hplain
  rw [hfst] at hbound
  cases hf with
  | letrec vbs _ vfirst vrest =>
    obtain ⟨rfl, rfl⟩ := List.cons.inj
      (hbody hbound _ (List.forall_mem_cons.2 ⟨vfirst, vrest⟩) hplain' hbodies)
    rw [List.zip_of_prod hfst (hvalues hbound _ (List.forall_mem_map.2 vbs) hplain hsnd),
      ← List.zip_of_prod rfl rfl]

/-- The call of a primitive, which is no call of a function. -/
theorem primitive {op : Text} (hop : Keyword.of? (.symbol op) = none)
    (hprimitive : isPrimitive op = true) (hargs : SoleReadings isPrimitive args) :
    (Form.primitive op args).SoleReading isPrimitive := by
  intro f hf hplain h
  rw [toSexp] at h
  have hkeyword := hf.keyword?_eq h
  rw [hop] at hkeyword
  cases hf with
  | primitive _ _ vargs =>
    rw [toSexp] at h
    rw [binders] at hplain
    obtain ⟨hop, h⟩ := List.cons.inj (Sexp.list.inj h)
    rw [hargs _ vargs hplain h, Sexp.symbol.inj hop]
  | call hfn _ _ =>
    rw [toSexp] at h
    obtain rfl := eq_constant_of_toSexp (List.cons.inj (Sexp.list.inj h)).1
    rw [(hfn op rfl).2] at hprimitive
    cases hprimitive
  | _ => cases hkeyword

/-- The call of a function, which is no primitive. -/
theorem call {fn : Form} (hhead : ∀ s, fn.toSexp = .symbol s → Plain isPrimitive s)
    (hfn : fn.SoleReading isPrimitive) (hargs : SoleReadings isPrimitive args) :
    (Form.call fn args).SoleReading isPrimitive := by
  intro f hf hplain h
  rw [toSexp] at h
  have hkeyword := hf.keyword?_eq h
  have hnone : Keyword.of? fn.toSexp = none := by
    cases hs : fn.toSexp with
    | symbol s => exact (hhead s hs).keyword
    | _ => rfl
  rw [hnone] at hkeyword
  cases hf with
  | call _ vfn vargs =>
    rw [toSexp] at h
    rw [binders] at hplain
    obtain ⟨hplain, hplain'⟩ := List.forall_mem_append.1 hplain
    obtain ⟨hfn', hargs'⟩ := List.cons.inj (Sexp.list.inj h)
    rw [hfn _ vfn hplain hfn', hargs _ vargs hplain' hargs']
  | primitive _ hprimitive _ =>
    rw [toSexp] at h
    have := (hhead _ (List.cons.inj (Sexp.list.inj h)).1.symm).primitive
    rw [hprimitive] at this
    cases this
  | _ => cases hkeyword

end SoleReading

end Form

/-- A primitive that is called was a primitive before it was renamed. -/
theorem Renaming.Sparing.apply_of_primitive {isPrimitive : Text → Bool} {r : Renaming}
    (hr : r.Sparing isPrimitive) {op : Text} (h : isPrimitive (r.apply op) = true) :
    r.apply op = op := by
  refine (hr op).resolve_right fun hplain => ?_
  rw [hplain.2] at h
  cases h

/-- A variable that is called was plain before it was renamed. -/
theorem Renamed.plain_of_toSexp {isPrimitive : Text → Bool} {r : Renaming} {f g : Form}
    {names : List Text} (h : Renamed r f g names) (hr : r.Sparing isPrimitive)
    (hcalled : ∀ s, g = .constant (.symbol s) →
      Keyword.of? (.symbol s) = none ∧ isPrimitive s = false) {s : Text}
    (hs : f.toSexp = .symbol s) : Plain isPrimitive s := by
  obtain rfl := Form.eq_constant_of_toSexp hs
  rcases hr s with hsame | hplain
  · cases h with
    | symbol _ =>
      obtain ⟨hkeyword, hprimitive⟩ := hcalled _ rfl
      rw [hsame] at hkeyword hprimitive
      exact ⟨hkeyword, hprimitive⟩
    | constant he => exact absurd rfl (he s)
  · exact hplain.1

mutual

/-- **Renaming reads a program as analysis does** if what it renames is plain. -/
theorem Renamed.soleReading {isPrimitive : Text → Bool} {r : Renaming} {f g : Form}
    {names : List Text} : Renamed r f g names → g.Valid isPrimitive → r.Sparing isPrimitive →
    (∀ x ∈ names, isPrimitive x = false) → f.SoleReading isPrimitive
  | .symbol s, _, _, _ => .symbol s
  | .constant _, hg, _, _ => .of_valid hg
  | .lambda hbinds hbody, hg, hr, hnames => by
    obtain ⟨hparams, hnames⟩ := List.forall_mem_append.1 hnames
    cases hg with
    | lambda wfirst wrest =>
      exact .lambda fun hplain => hbody.soleReadings (List.forall_mem_cons.2 ⟨wfirst, wrest⟩)
        (hr.cons hbinds hplain hparams) hnames
  | .branch hparts, hg, hr, hnames => by
    cases hg with
    | branch wtest wyes wno =>
      exact .branch (hparts.soleReadings (by simp [wtest, wyes, wno]) hr hnames)
  | .sequence hparts, hg, hr, hnames => by
    cases hg with
    | sequence wfirst wrest =>
      exact .sequence (hparts.soleReadings (List.forall_mem_cons.2 ⟨wfirst, wrest⟩) hr hnames)
  | .assign hvalue, hg, hr, hnames => by
    cases hg with
    | assign wvalue => exact .assign (hvalue.soleReading wvalue hr hnames)
  | .letrec hbinds hbs hbody, hg, hr, hnames => by
    obtain ⟨hnew, hnames⟩ := List.forall_mem_append.1 hnames
    obtain ⟨hnames, hnames'⟩ := List.forall_mem_append.1 hnames
    cases hg with
    | letrec wbs _ wfirst wrest =>
      exact .letrec
        (fun hplain => hbs.soleReadings (List.forall_mem_map.2 wbs)
          (hr.cons hbinds hplain hnew) hnames)
        (fun hplain => hbody.soleReadings (List.forall_mem_cons.2 ⟨wfirst, wrest⟩)
          (hr.cons hbinds hplain hnew) hnames')
  | .primitive hargs, hg, hr, hnames => by
    cases hg with
    | primitive hop hprimitive wargs =>
      rw [hr.apply_of_primitive hprimitive] at hop hprimitive
      exact .primitive hop hprimitive (hargs.soleReadings wargs hr hnames)
  | .call (.cons hfn hargs), hg, hr, hnames => by
    obtain ⟨hnames, hnames'⟩ := List.forall_mem_append.1 hnames
    cases hg with
    | call hcalled wfn wargs =>
      exact .call (fun _ => hfn.plain_of_toSexp hr hcalled) (hfn.soleReading wfn hr hnames)
        (hargs.soleReadings wargs hr hnames')

/-- Several forms. -/
theorem RenamedAll.soleReadings {isPrimitive : Text → Bool} {r : Renaming} {fs gs : List Form}
    {names : List Text} : RenamedAll r fs gs names → (∀ g ∈ gs, g.Valid isPrimitive) →
    r.Sparing isPrimitive → (∀ x ∈ names, isPrimitive x = false) →
    Form.SoleReadings isPrimitive fs
  | .nil, _, _, _ => .nil
  | .cons hone hall, hgs, hr, hnames => by
    obtain ⟨wg, wgs⟩ := List.forall_mem_cons.1 hgs
    obtain ⟨hnames, hnames'⟩ := List.forall_mem_append.1 hnames
    exact .cons (hone.soleReading wg hr hnames) (hall.soleReadings wgs hr hnames')

end

/-! ## Renamed forms are alike -/

/-- **A renaming fits** names that correspond, for forms with the given free variables and
binders, in which the names are still to be drawn. -/
structure Renaming.Fits (isPrimitive : Text → Bool) (r : Renaming) (R : Naming)
    (free binders names : List Text) : Prop where
  /-- It is sparing. -/
  sparing : r.Sparing isPrimitive
  /-- What is bound is plain. -/
  plain : ∀ x ∈ binders, Plain isPrimitive x
  /-- No primitive will be drawn. -/
  primitive : ∀ x ∈ names, isPrimitive x = false
  /-- No name will be drawn twice. -/
  nodup : names.Nodup
  /-- Variables correspond to what they are called. -/
  corresponds : ∀ s ∈ free, R s (r.apply s)
  /-- No variable is called by a name that will be drawn. -/
  fresh : ∀ s ∈ free, r.apply s ∉ names

namespace Renaming.Fits

variable {isPrimitive : Text → Bool} {r : Renaming} {R : Naming}
  {free free' binders binders' names names' : List Text}

/-- It fits parts of the forms. -/
theorem mono (h : r.Fits isPrimitive R free binders names) (hfree : ∀ x ∈ free', x ∈ free)
    (hbinders : ∀ x ∈ binders', x ∈ binders) (hnames : names'.Sublist names) :
    r.Fits isPrimitive R free' binders' names' where
  sparing := h.sparing
  plain x hx := h.plain x (hbinders x hx)
  primitive x hx := h.primitive x (hnames.subset hx)
  nodup := h.nodup.sublist hnames
  corresponds s hs := h.corresponds s (hfree s hs)
  fresh s hs hin := h.fresh s (hfree s hs) (hnames.subset hin)

/-- **Inside a scope** it fits the names that correspond there. -/
theorem scope {scope : Scope} {ps qs : List Text} (hbinds : Scope.Binds [] ps qs scope)
    (h : r.Fits isPrimitive R free (ps ++ binders) (qs ++ names))
    (hfree : ∀ s ∈ free', s ∉ ps → s ∈ free) :
    Renaming.Fits isPrimitive (scope :: r) (R.bind ps qs) free' binders names := by
  obtain ⟨hqs, hnames, hdisjoint⟩ := List.nodup_append'.1 h.nodup
  obtain ⟨hplain, hplain'⟩ := List.forall_mem_append.1 h.plain
  obtain ⟨hprimitive, hprimitive'⟩ := List.forall_mem_append.1 h.primitive
  have hmap := hbinds.map_apply r
  refine ⟨h.sparing.cons hbinds hplain hprimitive, hplain', hprimitive', hnames,
    fun s hs => ?_, fun s hs => ?_⟩
  · by_cases hps : s ∈ ps
    · have hself := Naming.bind_self R hbinds.nodup hqs hbinds.length_eq
      rw [← hmap, List.forall₂_map_right_iff, List.forall₂_same] at hself
      rw [← hmap]
      exact hself s hps
    -- what a name is called around the scope is not drawn for it again
    · have hnew := h.fresh s (hfree s hs hps)
      rw [List.mem_append, not_or] at hnew
      rw [hbinds.apply_of_not_mem r hps]
      exact Naming.bind_of_not_mem hps hnew.1 (h.corresponds s (hfree s hs hps))
  · by_cases hps : s ∈ ps
    · exact fun hin => hdisjoint (hbinds.apply_mem r hps) hin
    · rw [hbinds.apply_of_not_mem r hps]
      exact fun hin => h.fresh s (hfree s hs hps) (List.mem_append_right _ hin)

end Renaming.Fits

mutual

/-- **A renamed form is like the form.** -/
theorem Renamed.alike {isPrimitive : Text → Bool} {r : Renaming} {R : Naming} {f g : Form}
    {names : List Text} : Renamed r f g names → f.Valid isPrimitive →
    r.Fits isPrimitive R f.free f.binders names → Alike R f g
  | .symbol s, hv, h =>
    .symbol (h.corresponds s (by rw [Form.free]; exact List.mem_singleton_self s))
  | .constant he, hv, h => .constant he
  | .lambda hbinds hbody, hv, h => by
    rw [Form.free, Form.binders] at h
    cases hv with
    | lambda vfirst vrest =>
      exact .lambda hbinds.length_eq (hbody.alike (List.forall_mem_cons.2 ⟨vfirst, vrest⟩)
        (h.scope hbinds fun s hs hps => List.mem_filter.2 ⟨hs, decide_eq_true hps⟩))
  | .branch hparts, hv, h => by
    cases hv with
    | branch vtest vyes vno =>
      have hparts := hparts.alike (by simp [vtest, vyes, vno]) (h.mono (fun x hx => by
        simpa only [Form.free, Form.freeAll, List.append_nil] using hx) (fun x hx => by
        simpa only [Form.binders, Form.bindersAll, List.append_nil] using hx) (.refl _))
      match hparts with
      | .cons htest (.cons hyes (.cons hno .nil)) => exact .branch htest hyes hno
  | .sequence hparts, hv, h => by
    rw [Form.free, Form.binders] at h
    cases hv with
    | sequence vfirst vrest =>
      exact .sequence (hparts.alike (List.forall_mem_cons.2 ⟨vfirst, vrest⟩) h)
  | .assign hvalue, hv, h => by
    rw [Form.free, Form.binders] at h
    cases hv with
    | assign vvalue =>
      exact .assign (h.corresponds _ List.mem_cons_self) (hvalue.alike vvalue
        (h.mono (fun x hx => List.mem_cons_of_mem _ hx) (fun x hx => hx) (.refl _)))
  | .letrec hbinds hbs hbody, hv, h => by
    rw [Form.free, Form.binders, Form.freeBindings_eq, Form.bindersBindings_eq] at h
    have hnew := (List.nodup_append'.1 h.nodup).1
    have hinner := h.scope hbinds fun s hs hps => List.mem_filter.2 ⟨hs, decide_eq_true hps⟩
    cases hv with
    | letrec vbs _ vfirst vrest =>
      refine .letrec hbinds.nodup hnew hbinds.length_eq
        (hbs.alike (List.forall_mem_map.2 vbs) ?_)
        (hbody.alike (List.forall_mem_cons.2 ⟨vfirst, vrest⟩) ?_)
      · exact hinner.mono (fun x hx => List.mem_append_left _ hx)
          (fun x hx => List.mem_append_left _ hx) (List.sublist_append_left _ _)
      · exact hinner.mono (fun x hx => List.mem_append_right _ hx)
          (fun x hx => List.mem_append_right _ hx) (List.sublist_append_right _ _)
  | @Renamed.primitive _ op _ _ _ hargs, hv, h => by
    rw [Form.free, Form.binders] at h
    cases hv with
    | primitive _ hprimitive vargs =>
      have hsame : r.apply op = op := (h.sparing op).resolve_right fun hplain => by
        rw [hplain.1.primitive] at hprimitive
        cases hprimitive
      rw [hsame]
      exact .primitive (hargs.alike vargs h)
  | .call hparts, hv, h => by
    rw [Form.free, Form.binders] at h
    cases hv with
    | call _ vfn vargs => exact .call (hparts.alike (List.forall_mem_cons.2 ⟨vfn, vargs⟩) h)

theorem RenamedAll.alike {isPrimitive : Text → Bool} {r : Renaming} {R : Naming}
    {fs gs : List Form} {names : List Text} : RenamedAll r fs gs names →
    (∀ f ∈ fs, f.Valid isPrimitive) →
    r.Fits isPrimitive R (Form.freeAll fs) (Form.bindersAll fs) names → AlikeAll R fs gs
  | .nil, _, _ => .nil
  | .cons hone hall, hv, h => by
    rw [Form.freeAll, Form.bindersAll] at h
    obtain ⟨vf, vfs⟩ := List.forall_mem_cons.1 hv
    refine .cons (hone.alike vf (h.mono ?_ ?_ (List.sublist_append_left _ _)))
      (hall.alike vfs (h.mono ?_ ?_ (List.sublist_append_right _ _)))
    · exact fun x hx => List.mem_append_left _ hx
    · exact fun x hx => List.mem_append_left _ hx
    · exact fun x hx => List.mem_append_right _ hx
    · exact fun x hx => List.mem_append_right _ hx

end

/-- **A renamed program was renamed as it is analysed**, if all names that it binds are
plain and none of their new names is a primitive. -/
theorem alphatize_renamed {isPrimitive : Text → Bool} {e e' : Sexp} {t t' : NameTable}
    {f g : Form} (h : (alphatize e).outcome t = (.ok e', t'))
    (hf : Form.analyse isPrimitive e = .ok f) (hg : Form.analyse isPrimitive e' = .ok g)
    (hplain : ∀ x ∈ f.binders, Plain isPrimitive x)
    (hprimitive : ∀ x ∈ g.binders, isPrimitive x = false) :
    ∃ names, Renamed [] f g names ∧
      Draws (t.reserve programNames (Sexp.symbolsList [e])) names t' := by
  obtain ⟨f', names, hwritten, hrenamed, hdraws⟩ := alphatize_ok h hg
  obtain ⟨hvalid, hf⟩ := Form.analyse_eq_ok isPrimitive e f hf
  obtain ⟨hvalid', _⟩ := Form.analyse_eq_ok isPrimitive e' g hg
  rw [hrenamed.binders_eq] at hprimitive
  obtain rfl := hrenamed.soleReading hvalid' (fun s => Or.inl rfl) hprimitive f hvalid hplain
    (hf.trans hwritten.symm)
  exact ⟨names, hrenamed, hdraws⟩

/-- **A renamed program is like the program**, under the same conditions. -/
theorem alphatize_alike {isPrimitive : Text → Bool} {e e' : Sexp} {t t' : NameTable}
    {f g : Form} (h : (alphatize e).outcome t = (.ok e', t'))
    (hf : Form.analyse isPrimitive e = .ok f) (hg : Form.analyse isPrimitive e' = .ok g)
    (hplain : ∀ x ∈ f.binders, Plain isPrimitive x)
    (hprimitive : ∀ x ∈ g.binders, isPrimitive x = false) : Alike Eq f g := by
  obtain ⟨names, hrenamed, hdraws⟩ := alphatize_renamed h hf hg hplain hprimitive
  obtain ⟨hvalid, hf⟩ := Form.analyse_eq_ok isPrimitive e f hf
  rw [hrenamed.binders_eq] at hprimitive
  refine hrenamed.alike hvalid ⟨fun s => Or.inl rfl, hplain, hprimitive, hdraws.nodup,
    fun s _ => rfl, fun s hs hin => hdraws.fresh s hin ?_⟩
  -- the symbols of the program were reserved, so none of them was drawn
  have hsymbol := Form.mem_symbols_of_mem_free hs
  rw [Form.symbols, hf] at hsymbol
  exact NameTable.mem_taken_reserve.2 (Or.inr ⟨rfl, List.mem_append_left _ hsymbol⟩)

end PassingStyle
