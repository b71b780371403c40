import Mathlib.Data.List.Forall2
import Mathlib.Order.Lattice
import Mathlib.Tactic.Tauto
import PassingStyle.Proofs.Meaning.Source

/-!
# Programs that differ in names only

Two forms are *alike* if one becomes the other when its bound variables are renamed. Which
names correspond is said by a relation between names, and every scope adds a pair for each
name that it binds on either side. Nothing in this prefers one form to the other.

Alike forms come to the same. While they run side by side, the same things happen at
different locations: a name that one form binds at several places may be several names in
the other, so the bindings are numbered differently. Which locations correspond is again
said by a relation, which grows with every binding and is one to one.
-/

namespace PassingStyle

/-! ## Alike forms -/

/-- **Which names correspond**, those of one form to those of another. -/
abbrev Naming := Text → Text → Prop

namespace Naming

/-- One more name is bound on either side. -/
def push (R : Naming) (x y : Text) : Naming := fun s t =>
  (s = x ∧ t = y) ∨ (s ≠ x ∧ t ≠ y ∧ R s t)

/-- Names are bound on either side, one after the other. -/
def bind : List Text → List Text → Naming → Naming
  | x :: xs, y :: ys, R => bind xs ys (R.push x y)
  | _, _, R => R

/-- The sides change places. -/
theorem flip_push (R : Naming) (x y : Text) : flip (R.push x y) = push (flip R) y x := by
  funext t s
  simp only [flip, push, eq_iff_iff]
  tauto

theorem flip_bind (xs ys : List Text) (R : Naming) :
    flip (bind xs ys R) = bind ys xs (flip R) := by
  induction xs generalizing ys R with
  | nil => cases ys <;> rfl
  | cons x xs ih =>
    cases ys with
    | nil => rfl
    | cons y ys => rw [bind, ih, flip_push, bind]

/-- Names that are not bound correspond as before. -/
theorem bind_of_not_mem {xs ys : List Text} {R : Naming} {s t : Text} (hs : s ∉ xs) (ht : t ∉ ys)
    (h : R s t) : bind xs ys R s t := by
  induction xs generalizing ys R with
  | nil => cases ys <;> exact h
  | cons x xs ih =>
    cases ys with
    | nil => exact h
    | cons y ys =>
      rw [List.mem_cons, not_or] at hs ht
      exact ih hs.2 ht.2 (Or.inr ⟨hs.1, ht.1, h⟩)

/-- Names that are bound correspond one by one. -/
theorem bind_self {xs ys : List Text} (R : Naming) (hxs : xs.Nodup) (hys : ys.Nodup)
    (hlength : xs.length = ys.length) : List.Forall₂ (bind xs ys R) xs ys := by
  induction xs generalizing ys R with
  | nil =>
    cases ys with
    | nil => exact .nil
    | cons y ys => cases hlength
  | cons x xs ih =>
    cases ys with
    | nil => cases hlength
    | cons y ys =>
      rw [List.nodup_cons] at hxs hys
      have hxy : bind xs ys (R.push x y) x y :=
        bind_of_not_mem hxs.1 hys.1 (Or.inl ⟨rfl, rfl⟩)
      exact .cons hxy (ih _ hxs.2 hys.2 (Nat.succ.inj hlength))

end Naming

mutual

/-- **Alike forms**, given which names correspond. -/
inductive Alike : Naming → Form → Form → Prop
  /-- Variables correspond. -/
  | symbol {R : Naming} {s t : Text} : R s t →
      Alike R (.constant (.symbol s)) (.constant (.symbol t))
  /-- Other constants are the same. -/
  | constant {R : Naming} {e : Sexp} : (∀ s, e ≠ .symbol s) →
      Alike R (.constant e) (.constant e)
  /-- The parameters of functions correspond in their bodies. -/
  | lambda {R : Naming} {params params' : List Text} {first first' : Form}
      {rest rest' : List Form} : params.length = params'.length →
      AlikeAll (R.bind params params') (first :: rest) (first' :: rest') →
      Alike R (.lambda params first rest) (.lambda params' first' rest')
  /-- The parts of branches are alike. -/
  | branch {R : Naming} {test yes no test' yes' no' : Form} :
      Alike R test test' → Alike R yes yes' → Alike R no no' →
      Alike R (.branch test yes no) (.branch test' yes' no')
  /-- The parts of sequences are alike. -/
  | sequence {R : Naming} {first first' : Form} {rest rest' : List Form} :
      AlikeAll R (first :: rest) (first' :: rest') →
      Alike R (.sequence first rest) (.sequence first' rest')
  /-- Variables that are assigned correspond. -/
  | assign {R : Naming} {name name' : Text} {value value' : Form} : R name name' →
      Alike R value value' → Alike R (.assign name value) (.assign name' value')
  /-- The names of recursive bindings correspond in their values and bodies. -/
  | letrec {R : Naming} {bs bs' : List (Text × Form)} {first first' : Form}
      {rest rest' : List Form} : (bs.map Prod.fst).Nodup → (bs'.map Prod.fst).Nodup →
      (bs.map Prod.fst).length = (bs'.map Prod.fst).length →
      AlikeAll (R.bind (bs.map Prod.fst) (bs'.map Prod.fst)) (bs.map Prod.snd)
        (bs'.map Prod.snd) →
      AlikeAll (R.bind (bs.map Prod.fst) (bs'.map Prod.fst)) (first :: rest) (first' :: rest') →
      Alike R (.letrec bs first rest) (.letrec bs' first' rest')
  /-- The operators of primitives are the same. -/
  | primitive {R : Naming} {op : Text} {args args' : List Form} : AlikeAll R args args' →
      Alike R (.primitive op args) (.primitive op args')
  /-- The parts of calls are alike. -/
  | call {R : Naming} {fn fn' : Form} {args args' : List Form} :
      AlikeAll R (fn :: args) (fn' :: args') → Alike R (.call fn args) (.call fn' args')

/-- **Several forms that are alike.** -/
inductive AlikeAll : Naming → List Form → List Form → Prop
  /-- No form is left. -/
  | nil {R : Naming} : AlikeAll R [] []
  /-- One form after the other. -/
  | cons {R : Naming} {f g : Form} {fs gs : List Form} : Alike R f g → AlikeAll R fs gs →
      AlikeAll R (f :: fs) (g :: gs)

end

mutual

/-- Neither of two alike forms comes first. -/
theorem Alike.symm {R : Naming} {f g : Form} : Alike R f g → Alike (flip R) g f
  | .symbol h => .symbol h
  | .constant he => .constant he
  | .lambda hlength h => by
    have h := h.symm
    rw [Naming.flip_bind] at h
    exact .lambda hlength.symm h
  | .branch htest hyes hno => .branch htest.symm hyes.symm hno.symm
  | .sequence h => .sequence h.symm
  | .assign hname h => .assign hname h.symm
  | .letrec hnodup hnodup' hlength hbs hbody => by
    have hbs := hbs.symm
    have hbody := hbody.symm
    rw [Naming.flip_bind] at hbs hbody
    exact .letrec hnodup' hnodup hlength.symm hbs hbody
  | .primitive h => .primitive h.symm
  | .call h => .call h.symm

theorem AlikeAll.symm {R : Naming} {fs gs : List Form} :
    AlikeAll R fs gs → AlikeAll (flip R) gs fs
  | .nil => .nil
  | .cons h hs => .cons h.symm hs.symm

end

/-- The same for whole programs, where names correspond to themselves. -/
theorem Alike.symm_eq {f g : Form} (h : Alike Eq f g) : Alike Eq g f := by
  have hflip : flip (@Eq Text) = Eq := by
    funext s t
    exact propext eq_comm
  have hsymm := h.symm
  rwa [hflip] at hsymm

/-- Alike forms are atomic together. -/
theorem Alike.isAtomic_eq {R : Naming} {f g : Form} (h : Alike R f g) :
    g.isAtomic = f.isAtomic := by
  cases h <;> rfl

/-- What is like a function is a function. -/
theorem Alike.eq_lambda {R : Naming} {f : Form} {params : List Text} {first : Form}
    {rest : List Form} (h : Alike R f (.lambda params first rest)) :
    ∃ params' first' rest', f = .lambda params' first' rest' := by
  cases h with
  | lambda _ _ => exact ⟨_, _, _, rfl⟩

theorem Alike.ne_lambda {R : Naming} {f g : Form} (h : Alike R f g)
    (hg : ∀ params first rest, g ≠ .lambda params first rest) :
    ∀ params first rest, f ≠ .lambda params first rest := by
  rintro params first rest rfl
  cases h with
  | lambda _ _ => exact hg _ _ _ rfl

/-! ## Alike values and stores -/

/-- **Which locations correspond**, those of one store to those of another. -/
abbrev Matching := Text × Nat → Text × Nat → Prop

/-- One more location on either side. -/
def Matching.push (β : Matching) (a b : Text × Nat) : Matching := fun p q =>
  β p q ∨ (p = a ∧ q = b)

/-- Names that correspond have locations that correspond. -/
def EnvAlike (β : Matching) (R : Naming) (ρ ρ₁ : Env) : Prop :=
  ∀ s t, R s t → β (s, ρ s) (t, ρ₁ t)

/-- **Alike values.** -/
inductive ValueAlike (β : Matching) : Form.Value → Form.Value → Prop
  /-- Data are the same. -/
  | datum (d : Datum) : ValueAlike β (.datum d) (.datum d)
  /-- The functions are alike, in environments that are. -/
  | closure {R : Naming} {params params' : List Text} {first first' : Form}
      {rest rest' : List Form} {ρ ρ₁ : Env} : params.length = params'.length →
      AlikeAll (R.bind params params') (first :: rest) (first' :: rest') →
      EnvAlike β R ρ ρ₁ →
      ValueAlike β (.closure params first rest ρ) (.closure params' first' rest' ρ₁)

/-- **Alike stores.** -/
structure StoreAlike (β : Matching) (m m₁ : Store Form.Value) : Prop where
  /-- A location corresponds to one location at most. -/
  left : ∀ a b b', β a b → β a b' → b' = b
  /-- The same the other way round. -/
  right : ∀ a a' b, β a b → β a' b → a' = a
  /-- Locations that correspond are in use. -/
  bound : ∀ a b, β a b → a.2 ≤ m.bound a.1 ∧ b.2 ≤ m₁.bound b.1
  /-- Global variables correspond to themselves. -/
  globals : ∀ x, β (x, 0) (x, 0)
  /-- What they contain is alike. -/
  cell : ∀ a b, β a b → ValueAlike β (m.cell a.1 a.2) (m₁.cell b.1 b.2)
  /-- The same calls were made. -/
  trace : m₁.trace = m.trace

section

variable {β β' : Matching} {R : Naming} {ρ ρ₁ : Env} {m m₁ : Store Form.Value} {v v₁ : Form.Value}
  {vs vs₁ : List Form.Value}

theorem EnvAlike.mono (h : EnvAlike β R ρ ρ₁) (hβ : β ≤ β') : EnvAlike β' R ρ ρ₁ :=
  fun s t hst => hβ _ _ (h s t hst)

theorem ValueAlike.mono (h : ValueAlike β v v₁) (hβ : β ≤ β') : ValueAlike β' v v₁ := by
  cases h with
  | datum d => exact .datum d
  | closure hlength hbody henv => exact .closure hlength hbody (henv.mono hβ)

theorem ValueAlike.mono_all (h : List.Forall₂ (ValueAlike β) vs vs₁) (hβ : β ≤ β') :
    List.Forall₂ (ValueAlike β') vs vs₁ :=
  h.imp fun _ _ hv => hv.mono hβ

/-- Alike values count as true together. -/
theorem ValueAlike.isTrue_eq (h : ValueAlike β v v₁) : v₁.isTrue = v.isTrue := by
  cases h <;> rfl

/-- The side that alike tests decide for is alike. -/
theorem ValueAlike.alike_side {yes no yes' no' : Form} (h : ValueAlike β v v₁)
    (hyes : Alike R yes yes') (hno : Alike R no no') :
    Alike R (if v.isTrue then yes else no) (if v₁.isTrue then yes' else no') := by
  rw [h.isTrue_eq]
  cases v.isTrue with
  | true => exact hyes
  | false => exact hno

/-- Alike values look the same. -/
theorem ValueAlike.datum?_eq (h : ValueAlike β v v₁) : v₁.datum? = v.datum? := by
  cases h <;> rfl

/-- Only data are like data. -/
theorem ValueAlike.data_iff {ds : List Datum} :
    List.Forall₂ (ValueAlike β) (ds.map .datum) vs₁ ↔ vs₁ = ds.map .datum := by
  rw [List.forall₂_map_left_iff]
  refine Datum.forall₂_iff fun d v => ⟨fun h => ?_, fun h => ?_⟩
  · cases h
    rfl
  · rw [h]
    exact .datum d

theorem Matching.le_push (β : Matching) (a b : Text × Nat) : β ≤ β.push a b :=
  fun _ _ h => Or.inl h

namespace StoreAlike

/-- Locations that correspond are assigned. -/
theorem write (h : StoreAlike β m m₁) {x y : Text} {n k : Nat} (hβ : β (x, n) (y, k))
    (hv : ValueAlike β v v₁) : StoreAlike β (m.write x n v) (m₁.write y k v₁) where
  left := h.left
  right := h.right
  bound := h.bound
  globals := h.globals
  cell a b hab := by
    by_cases ha : a = (x, n)
    · subst ha
      obtain rfl := h.left _ _ _ hβ hab
      rw [Store.write_cell_self, Store.write_cell_self]
      exact hv
    · have hb : b ≠ (y, k) := fun hb => ha (h.right _ _ _ hβ (hb ▸ hab))
      rw [Store.write_cell_of_ne _ _ fun hx => ha (Prod.ext hx.1 hx.2),
        Store.write_cell_of_ne _ _ fun hy => hb (Prod.ext hy.1 hy.2)]
      exact h.cell a b hab
  trace := h.trace

/-- One more name is bound on either side, at locations that were not in use. -/
theorem push (h : StoreAlike β m m₁) (x y : Text) (hv : ValueAlike β v v₁) :
    StoreAlike (β.push (x, m.fresh x) (y, m₁.fresh y)) (m.push x v) (m₁.push y v₁) where
  left a b b' hab hab' := by
    rcases hab with hab | ⟨rfl, rfl⟩ <;> rcases hab' with hab' | ⟨ha, rfl⟩
    · exact h.left a b b' hab hab'
    · subst ha
      exact absurd (h.bound _ _ hab).1 (Nat.not_succ_le_self _)
    · exact absurd (h.bound _ _ hab').1 (Nat.not_succ_le_self _)
    · rfl
  right a a' b hab hab' := by
    rcases hab with hab | ⟨rfl, rfl⟩ <;> rcases hab' with hab' | ⟨rfl, hb⟩
    · exact h.right a a' b hab hab'
    · subst hb
      exact absurd (h.bound _ _ hab).2 (Nat.not_succ_le_self _)
    · exact absurd (h.bound _ _ hab').2 (Nat.not_succ_le_self _)
    · rfl
  bound a b hab := by
    have hle : ∀ (m : Store Form.Value) (x y : Text) (v : Form.Value),
        m.bound y ≤ (m.push x v).bound y := by
      intro m x y v
      by_cases hy : y = x
      · rw [hy, Store.push_bound_self]
        exact Nat.le_succ _
      · rw [Store.push_bound_of_ne _ _ hy]
    rcases hab with hab | ⟨rfl, rfl⟩
    · exact ⟨(h.bound a b hab).1.trans (hle _ _ _ _), (h.bound a b hab).2.trans (hle _ _ _ _)⟩
    · rw [Store.push_bound_self, Store.push_bound_self]
      exact ⟨Nat.le_refl _, Nat.le_refl _⟩
  globals z := Or.inl (h.globals z)
  cell a b hab := by
    rcases hab with hab | ⟨rfl, rfl⟩
    -- locations that correspond are in use, so they are not the new ones
    · have ha : ¬ (a.1 = x ∧ a.2 = m.fresh x) := by
        rintro ⟨hx, hn⟩
        have := (h.bound a b hab).1
        rw [hn, hx] at this
        exact absurd this (Nat.not_succ_le_self _)
      have hb : ¬ (b.1 = y ∧ b.2 = m₁.fresh y) := by
        rintro ⟨hy, hn⟩
        have := (h.bound a b hab).2
        rw [hn, hy] at this
        exact absurd this (Nat.not_succ_le_self _)
      rw [Store.push_cell_of_ne _ _ ha, Store.push_cell_of_ne _ _ hb]
      exact (h.cell a b hab).mono (β.le_push _ _)
    · rw [Store.push_cell_self, Store.push_cell_self]
      exact hv.mono (β.le_push _ _)
  trace := h.trace

/-- A call of an external procedure is recorded in both stores. -/
theorem record (h : StoreAlike β m m₁) (event : Event) :
    StoreAlike β (m.record event) (m₁.record event) where
  left := h.left
  right := h.right
  bound := h.bound
  globals := h.globals
  cell := h.cell
  trace := by
    show m₁.trace ++ [event] = m.trace ++ [event]
    rw [h.trace]

/-- Variables that correspond are assigned one after the other. -/
theorem assignAll {xs ys : List Text} (h : StoreAlike β m m₁)
    (hβ : List.Forall₂ (fun x y => β (x, ρ x) (y, ρ₁ y)) xs ys)
    (hvs : List.Forall₂ (ValueAlike β) vs vs₁) :
    StoreAlike β (Store.assignAll xs vs ρ m) (Store.assignAll ys vs₁ ρ₁ m₁) := by
  induction hβ generalizing vs vs₁ m m₁ with
  | nil => exact h
  | cons hxy _ ih =>
    cases hvs with
    | nil => exact h
    | cons hv hvs => exact ih (h.write hxy hv) hvs

/-- Alike stores look the same. -/
theorem observe_eq (h : StoreAlike β m m₁) (hv : ValueAlike β v v₁) (xs : List Text) :
    m₁.observe Form.Value.datum? xs v₁ = m.observe Form.Value.datum? xs v := by
  unfold Store.observe
  rw [hv.datum?_eq, h.trace]
  congr 1
  exact List.map_congr_left fun x _ => (h.cell _ _ (h.globals x)).datum?_eq

end StoreAlike

/-- One more name is bound on either side. -/
theorem EnvAlike.push (h : EnvAlike β R ρ ρ₁) (x y : Text) (n k : Nat) :
    EnvAlike (β.push (x, n) (y, k)) (R.push x y) (Function.update ρ x n)
      (Function.update ρ₁ y k) := by
  rintro s t (⟨rfl, rfl⟩ | ⟨hs, ht, hst⟩)
  · rw [Function.update_self, Function.update_self]
    exact Or.inr ⟨rfl, rfl⟩
  · rw [Function.update_of_ne hs, Function.update_of_ne ht]
    exact Or.inl (h s t hst)

/-- **Entering scopes** that are alike. -/
theorem StoreAlike.bindAll {xs ys : List Text} (h : StoreAlike β m m₁) (henv : EnvAlike β R ρ ρ₁)
    (hlength : xs.length = ys.length) (hvs : List.Forall₂ (ValueAlike β) vs vs₁)
    (hxs : xs.length = vs.length) :
    ∃ β', β ≤ β' ∧
      EnvAlike β' (R.bind xs ys) (Store.bindAll xs vs ρ m).1 (Store.bindAll ys vs₁ ρ₁ m₁).1 ∧
      StoreAlike β' (Store.bindAll xs vs ρ m).2 (Store.bindAll ys vs₁ ρ₁ m₁).2 := by
  induction xs generalizing ys vs vs₁ β R ρ ρ₁ m m₁ with
  | nil =>
    cases ys with
    | nil => exact ⟨β, le_rfl, henv, h⟩
    | cons y ys => cases hlength
  | cons x xs ih =>
    cases ys with
    | nil => cases hlength
    | cons y ys =>
      cases hvs with
      | nil => cases hxs
      | cons hv hvs =>
        obtain ⟨β', hβ', henv', hstore'⟩ := ih (h.push x y hv) (henv.push x y _ _)
          (Nat.succ.inj hlength) (ValueAlike.mono_all hvs (β.le_push _ _)) (Nat.succ.inj hxs)
        exact ⟨β', (β.le_push _ _).trans hβ', henv', hstore'⟩

/-- **Alike forms that are atomic have alike values.** -/
theorem Alike.atomValue {f g : Form} (h : Alike R f g) (henv : EnvAlike β R ρ ρ₁)
    (hstore : StoreAlike β m m₁) : ValueAlike β (f.atomValue ρ m) (g.atomValue ρ₁ m₁) := by
  cases h with
  | symbol hst => exact hstore.cell _ _ (henv _ _ hst)
  | @constant _ e he =>
    cases e with
    | symbol s => exact absurd rfl (he s)
    | _ => exact .datum _
  | lambda hlength hbody => exact .closure hlength hbody henv
  | _ => exact .datum _

theorem AlikeAll.atomValues {fs gs : List Form} (h : AlikeAll R fs gs)
    (henv : EnvAlike β R ρ ρ₁) (hstore : StoreAlike β m m₁) :
    List.Forall₂ (ValueAlike β) (fs.map (·.atomValue ρ m)) (gs.map (·.atomValue ρ₁ m₁)) := by
  induction fs generalizing gs with
  | nil =>
    cases h
    exact .nil
  | cons f fs ih =>
    cases h with
    | cons h hs => exact .cons (h.atomValue henv hstore) (ih hs)

/-- **Entering recursive bindings** that are alike. -/
theorem StoreAlike.enterRec {bs bs' : List (Text × Form)} (h : StoreAlike β m m₁)
    (henv : EnvAlike β R ρ ρ₁) (hnodup : (bs.map Prod.fst).Nodup)
    (hnodup' : (bs'.map Prod.fst).Nodup)
    (hlength : (bs.map Prod.fst).length = (bs'.map Prod.fst).length)
    (hbs : AlikeAll (R.bind (bs.map Prod.fst) (bs'.map Prod.fst)) (bs.map Prod.snd)
      (bs'.map Prod.snd)) :
    ∃ β', β ≤ β' ∧
      EnvAlike β' (R.bind (bs.map Prod.fst) (bs'.map Prod.fst)) (Form.enterRec bs ρ m).1
        (Form.enterRec bs' ρ₁ m₁).1 ∧
      StoreAlike β' (Form.enterRec bs ρ m).2 (Form.enterRec bs' ρ₁ m₁).2 := by
  have hunset : List.Forall₂ (ValueAlike β)
      ((bs.map Prod.fst).map fun _ => Form.Value.datum .undefined)
      ((bs'.map Prod.fst).map fun _ => Form.Value.datum .undefined) := by
    rw [List.map_const', List.map_const', hlength]
    exact List.forall₂_same.2 fun v hv => by
      rw [List.eq_of_mem_replicate hv]
      exact .datum _
  obtain ⟨β', hβ', henv', hstore'⟩ := h.bindAll henv hlength hunset (List.length_map _).symm
  -- the names are bound before the values are taken, so the values are alike inside
  refine ⟨β', hβ', henv', hstore'.assignAll ?_ ?_⟩
  · exact (Naming.bind_self R hnodup hnodup' hlength).imp fun x y hxy => henv' x y hxy
  · have hvalues := hbs.atomValues henv' hstore'
    simp only [List.forall₂_map_left_iff, List.forall₂_map_right_iff] at hvalues ⊢
    exact hvalues

end

/-! ## Alike programs come to the same -/

section

variable {W : World}

mutual

/-- **Alike forms are evaluated alike.** -/
theorem Eval.alike {f : Form} {ρ : Env} {m m' : Store Form.Value} {v : Form.Value} {R : Naming}
    {β : Matching} {g : Form} {ρ₁ : Env} {m₁ : Store Form.Value} : Eval W f ρ m v m' →
    Alike R f g → EnvAlike β R ρ ρ₁ → StoreAlike β m m₁ →
    ∃ β' v₁ m₁', β ≤ β' ∧ Eval W g ρ₁ m₁ v₁ m₁' ∧ ValueAlike β' v v₁ ∧ StoreAlike β' m' m₁'
  | .atom hf, h, henv, hstore =>
    ⟨β, _, m₁, le_rfl, .atom (h.isAtomic_eq.trans hf), h.atomValue henv hstore, hstore⟩
  | .branch htest hside, .branch h hyes hno, henv, hstore => by
    obtain ⟨β₁, u, m₁, hβ₁, htest, hu, hstore⟩ := htest.alike h henv hstore
    obtain ⟨β₂, v₁, m₂, hβ₂, hside, hv, hstore⟩ :=
      hside.alike (hu.alike_side hyes hno) (henv.mono hβ₁) hstore
    exact ⟨β₂, v₁, m₂, hβ₁.trans hβ₂, .branch htest hside, hv, hstore⟩
  | .last hlast, .sequence (.cons h .nil), henv, hstore => by
    obtain ⟨β', v₁, m₁', hβ', heval, hv, hstore⟩ := hlast.alike h henv hstore
    exact ⟨β', v₁, m₁', hβ', .last heval, hv, hstore⟩
  | .next hfirst hrest, .sequence (.cons h (.cons hnext hs)), henv, hstore => by
    obtain ⟨β₁, _, m₁, hβ₁, hfirst, _, hstore⟩ := hfirst.alike h henv hstore
    obtain ⟨β₂, v₁, m₂, hβ₂, hrest, hv, hstore⟩ :=
      hrest.alike (.sequence (.cons hnext hs)) (henv.mono hβ₁) hstore
    exact ⟨β₂, v₁, m₂, hβ₁.trans hβ₂, .next hfirst hrest, hv, hstore⟩
  | .assign hvalue, .assign hname h, henv, hstore => by
    obtain ⟨β', _, m₁', hβ', hvalue, hu, hstore⟩ := hvalue.alike h henv hstore
    have hstore' := hstore.write (hβ' _ _ (henv _ _ hname)) hu
    exact ⟨β', _, _, hβ', .assign hvalue, hstore'.cell _ _ (hstore'.globals undefinedName),
      hstore'⟩
  | .letrec hbody, .letrec hnodup hnodup' hlength hbs h, henv, hstore => by
    obtain ⟨β₁, hβ₁, henv, hstore⟩ := hstore.enterRec henv hnodup hnodup' hlength hbs
    obtain ⟨β₂, v₁, m₂, hβ₂, hbody, hv, hstore⟩ := hbody.alike (.sequence h) henv hstore
    exact ⟨β₂, v₁, m₂, hβ₁.trans hβ₂, .letrec hbody, hv, hstore⟩
  | .primitive hargs hds hd, .primitive h, henv, hstore => by
    obtain ⟨β', operands, m₁', hβ', hargs, hvalues, hstore⟩ := hargs.alike h henv hstore
    rw [hds] at hvalues
    exact ⟨β', _, m₁', hβ', .primitive hargs (ValueAlike.data_iff.1 hvalues) hd, .datum _, hstore⟩
  | .call hparts happly, .call h, henv, hstore => by
    obtain ⟨β₁, operands, m₁, hβ₁, hparts, hvalues, hstore⟩ := hparts.alike h henv hstore
    match operands, hvalues with
    | o :: operands, .cons hfn hargs =>
      obtain ⟨β₂, v₁, m₂, hβ₂, happly, hv, hstore⟩ := happly.alike hfn hargs hstore
      exact ⟨β₂, v₁, m₂, hβ₁.trans hβ₂, .call hparts happly, hv, hstore⟩

/-- Alike operands are evaluated alike; what is read later is alike then. -/
theorem Operands.alike {fs : List Form} {ρ : Env} {m m' : Store Form.Value}
    {operands : List Operand} {R : Naming} {β : Matching} {gs : List Form} {ρ₁ : Env}
    {m₁ : Store Form.Value} :
    Operands W fs ρ m operands m' → AlikeAll R fs gs → EnvAlike β R ρ ρ₁ → StoreAlike β m m₁ →
    ∃ β' operands₁ m₁', β ≤ β' ∧ Operands W gs ρ₁ m₁ operands₁ m₁' ∧
      List.Forall₂ (ValueAlike β') (operands.map (·.value ρ m'))
        (operands₁.map (·.value ρ₁ m₁')) ∧ StoreAlike β' m' m₁'
  | .nil, .nil, _, hstore => ⟨β, [], m₁, le_rfl, .nil, .nil, hstore⟩
  | .later hf hrest, .cons h hs, henv, hstore => by
    obtain ⟨β', operands, m₁', hβ', hrest, hvalues, hstore⟩ := hrest.alike hs henv hstore
    exact ⟨β', _, m₁', hβ', .later (h.isAtomic_eq.trans hf) hrest,
      .cons (h.atomValue (henv.mono hβ') hstore) hvalues, hstore⟩
  | .known hf heval hrest, .cons h hs, henv, hstore => by
    obtain ⟨β₁, v₁, m₁, hβ₁, heval, hv, hstore⟩ := heval.alike h henv hstore
    obtain ⟨β₂, operands, m₂, hβ₂, hrest, hvalues, hstore⟩ :=
      hrest.alike hs (henv.mono hβ₁) hstore
    exact ⟨β₂, _, m₂, hβ₁.trans hβ₂, .known (h.isAtomic_eq.trans hf) heval hrest,
      .cons (hv.mono hβ₂) hvalues, hstore⟩

/-- Alike functions are applied alike. -/
theorem Apply.alike {fn : Form.Value} {args : List Form.Value} {m m' : Store Form.Value}
    {v : Form.Value} {β : Matching} {fn₁ : Form.Value} {args₁ : List Form.Value}
    {m₁ : Store Form.Value} :
    Apply W fn args m v m' → ValueAlike β fn fn₁ → List.Forall₂ (ValueAlike β) args args₁ →
    StoreAlike β m m₁ →
    ∃ β' v₁ m₁', β ≤ β' ∧ Apply W fn₁ args₁ m₁ v₁ m₁' ∧ ValueAlike β' v v₁ ∧
      StoreAlike β' m' m₁'
  | .closure hargs hbody, .closure hlength h henv, hvs, hstore => by
    obtain ⟨β₁, hβ₁, henv, hstore⟩ := hstore.bindAll henv hlength hvs hargs
    obtain ⟨β₂, v₁, m₂, hβ₂, hbody, hv, hstore⟩ := hbody.alike (.sequence h) henv hstore
    exact ⟨β₂, v₁, m₂, hβ₁.trans hβ₂,
      .closure ((hlength.symm.trans hargs).trans hvs.length_eq) hbody, hv, hstore⟩
  | .external hd, .datum _, hvs, hstore => by
    obtain rfl := ValueAlike.data_iff.1 hvs
    rw [← hstore.trace] at hd
    exact ⟨β, _, _, le_rfl, .external hd, .datum _, hstore.record _⟩

end

/-- In the beginning the global variables correspond. -/
theorem StoreAlike.start (W : World) :
    StoreAlike (fun a b => b = a ∧ a.2 = 0) W.start W.start where
  left _ _ _ h h' := h'.1.trans h.1.symm
  right _ _ _ h h' := h'.1.symm.trans h.1
  bound a b h := by
    rw [h.1, h.2]
    exact ⟨Nat.zero_le _, Nat.zero_le _⟩
  globals x := ⟨rfl, rfl⟩
  cell a b h := by
    rw [h.1]
    exact .datum _
  trace := rfl

theorem EnvAlike.global :
    EnvAlike (fun a b => b = a ∧ a.2 = 0) Eq Env.global Env.global := by
  rintro s t rfl
  exact ⟨rfl, rfl⟩

variable {f g : Form} {xs : List Text} {ds : List Datum} {o : Observation}

/-- What one of two alike programs comes to, the other one comes to. -/
theorem Form.Gives.alike (h : f.Gives W xs o) (hfg : Alike Eq f g) : g.Gives W xs o := by
  obtain ⟨v, m, heval, rfl⟩ := h
  obtain ⟨β, v₁, m₁, _, heval, hv, hstore⟩ := heval.alike hfg .global (.start W)
  exact ⟨v₁, m₁, heval, hstore.observe_eq hv xs⟩

theorem Form.Answers.alike (h : f.Answers W xs ds o) (hfg : Alike Eq f g) :
    g.Answers W xs ds o := by
  obtain ⟨v, m, happly, rfl⟩ := h
  obtain ⟨β, v₁, m₁, _, happly, hv, hstore⟩ := happly.alike
    (hfg.atomValue .global (.start W)) (ValueAlike.data_iff.2 rfl) (.start W)
  exact ⟨v₁, m₁, happly, hstore.observe_eq hv xs⟩

/-- **Alike programs come to the same.** -/
theorem Alike.gives_iff (h : Alike Eq f g) : f.Gives W xs o ↔ g.Gives W xs o :=
  ⟨fun hf => hf.alike h, fun hg => hg.alike h.symm_eq⟩

/-- **Alike functions answer alike.** -/
theorem Alike.answers_iff (h : Alike Eq f g) : f.Answers W xs ds o ↔ g.Answers W xs ds o :=
  ⟨fun hf => hf.alike h, fun hg => hg.alike h.symm_eq⟩

end

end PassingStyle
