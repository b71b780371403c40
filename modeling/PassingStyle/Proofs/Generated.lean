import PassingStyle.Proofs.Image

/-!
# Names that conversions make up

A conversion makes up names for continuations and for values: `k` or `rv` with a number behind
it. That is a fact about the computation rather than about its output, since the table decides
on the number and what a builder draws is drawn when somebody calls it. So it is said of
computations first, where it is kept by each step, and from there it comes to the names that
stand in a converted program.
-/

namespace PassingStyle

/-- **A generated name**: that of a continuation or of a value, with its number. -/
def Text.IsGenerated (x : Text) : Prop :=
  ∃ base ∈ [Text.ofString "k", Text.ofString "rv"], ∃ n, x = NameTable.nameOf base n

/-- **A computation takes generated names only**, besides those that are taken. -/
def Fresh.TakesGenerated {α : Type} (action : Fresh α) : Prop :=
  ∀ t, ∀ p ∈ (action t).2.taken, p ∈ t.taken ∨ p.1.IsGenerated

namespace Fresh.TakesGenerated

variable {α β : Type}

theorem pure (a : α) : TakesGenerated (Pure.pure a : Fresh α) := fun _ _ hp => Or.inl hp

theorem bind {x : Fresh α} {k : α → Fresh β} (hx : x.TakesGenerated)
    (hk : ∀ a, (k a).TakesGenerated) : (x >>= k).TakesGenerated := fun t p hp =>
  (hk _ _ p hp).elim (hx t p) Or.inr

theorem freshName {base : Text} (h : base ∈ [Text.ofString "k", Text.ofString "rv"]) :
    (freshName base).TakesGenerated := fun t p hp => by
  rcases List.mem_cons.1 hp with rfl | hp
  · exact Or.inr ⟨base, h, _, rfl⟩
  · exact Or.inl hp

end Fresh.TakesGenerated

open Fresh

/-- A continuation takes generated names only, if it is a builder that does. -/
def Cont.TakesGenerated : Cont → Prop
  | .object _ => True
  | .builder k => ∀ e, (k e).TakesGenerated

namespace Cont.TakesGenerated

theorem plug {κ : Cont} (hκ : κ.TakesGenerated) (e : Sexp) :
    (κ.plug e).TakesGenerated := by
  cases κ with
  | object c => exact .pure _
  | builder k => exact hκ e

theorem reify {κ : Cont} (hκ : κ.TakesGenerated) : κ.reify.TakesGenerated := by
  cases κ with
  | object c => exact .pure _
  | builder k => exact .bind (.freshName (by simp)) fun rv => .bind (hκ _) fun _ => .pure _

end Cont.TakesGenerated

namespace Form

/-- A body takes generated names only, if its forms do. -/
theorem takesGenerated_sequel {rest : List Form}
    (hrest : ∀ f ∈ rest, ∀ κ : Cont, κ.TakesGenerated → (f.convert κ).TakesGenerated) (c : Sexp) :
    (sequel rest c).TakesGenerated := by
  induction rest with
  | nil => trivial
  | cons f rest ih =>
    obtain ⟨hf, hrest⟩ := List.forall_mem_cons.1 hrest
    exact fun _ => hf _ (ih hrest)

theorem takesGenerated_convertAll {fs : List Form}
    (hfs : ∀ f ∈ fs, ∀ κ : Cont, κ.TakesGenerated → (f.convert κ).TakesGenerated)
    {k : List Sexp → Fresh Sexp} (hk : ∀ es, (k es).TakesGenerated) :
    (convertAll fs k).TakesGenerated := by
  induction fs generalizing k with
  | nil => exact hk []
  | cons f fs ih =>
    obtain ⟨hf, hfs⟩ := List.forall_mem_cons.1 hfs
    exact hf _ fun e => ih hfs fun es => hk (e :: es)

/-- **The conversion takes generated names only.** -/
theorem takesGenerated_convert (f : Form) : ∀ κ : Cont, κ.TakesGenerated →
    (f.convert κ).TakesGenerated := by
  induction f using Form.induction with
  | constant e =>
    intro κ hκ
    rw [convert]
    exact hκ.plug e
  | lambda params first rest ihfirst ihrest =>
    intro κ hκ
    rw [convert]
    exact .bind (.freshName (by simp)) fun k =>
      .bind (ihfirst _ (takesGenerated_sequel ihrest _)) fun body => hκ.plug _
  | branch test yes no ihtest ihyes ihno =>
    intro κ hκ
    rw [convert]
    refine .bind hκ.reify fun c => .bind (.freshName (by simp)) fun k => .bind (ihtest _ fun a => ?_)
      fun body => .pure _
    exact .bind (ihyes _ trivial) fun y => .bind (ihno _ trivial) fun n => .pure _
  | sequence first rest ihfirst ihrest =>
    intro κ hκ
    rw [convert]
    exact .bind hκ.reify fun c => ihfirst _ (takesGenerated_sequel ihrest c)
  | assign name value ihvalue =>
    intro κ hκ
    rw [convert]
    exact .bind hκ.reify fun c => ihvalue _ fun v => .pure _
  | letrec bindings first rest ihbindings ihfirst ihrest =>
    intro κ hκ
    rw [convert]
    refine .bind hκ.reify fun c => .bind ?_ fun bs =>
      .bind (ihfirst _ (takesGenerated_sequel ihrest c)) fun body => .pure _
    clear hκ c
    induction bindings with
    | nil => exact .pure _
    | cons b bs ih =>
      obtain ⟨hb, hbs⟩ := List.forall_mem_cons.1 ihbindings
      exact .bind (hb _ fun e => .pure _) fun value => .bind (ih hbs) fun bs => .pure _
  | primitive op args ihargs =>
    intro κ hκ
    rw [convert]
    exact .bind hκ.reify fun c => takesGenerated_convertAll ihargs fun vs => .pure _
  | call fn args ihfn ihargs =>
    intro κ hκ
    rw [convert]
    exact .bind hκ.reify fun c => ihfn _ fun a => takesGenerated_convertAll ihargs fun vs => .pure _

/-- The names that a conversion draws are generated names. -/
theorem isGenerated_of_draws {f : Form} {halt : Text} {t : NameTable} {names : List Text}
    (h : Draws t names (f.convertProgram halt t).2) : ∀ x ∈ names, x.IsGenerated := by
  intro x hx
  have htakes : Fresh.TakesGenerated (f.convertProgram halt) := by
    cases f with
    | lambda params first rest => exact takesGenerated_convert _ _ fun e => .pure e
    | _ => exact takesGenerated_convert _ _ trivial
  exact (htakes t _ (h.mem_taken hx)).resolve_left (h.fresh x hx)

end Form

end PassingStyle
