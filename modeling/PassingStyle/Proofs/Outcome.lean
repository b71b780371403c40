import PassingStyle.Compiler
import PassingStyle.Proofs.Image

/-!
# What a successful conversion has done

A conversion reserves the symbols that it is given, analyses the expression and
converts the form; a compiler that renames variables does the same once before, for
the renaming. Each of these steps works on the table of names, and the first one
that refuses ends the work. Here a success is taken apart: it gives the form, the
tables between the steps, and by the rules for converted programs the shape of the
result.
-/

namespace PassingStyle

/-- **The outcome of a conversion** that starts with the table `t`: its result, and
the table afterwards. -/
def FreshExcept.outcome {α : Type} (action : FreshExcept α) (t : NameTable) :
    Except FormError α × NameTable :=
  StateT.run (ExceptT.run action) t

namespace FreshExcept

variable {α β : Type}

/-- A success of two steps is a success of the first and then of the second. -/
theorem outcome_bind_ok {x : FreshExcept α} {k : α → FreshExcept β} {t t' : NameTable} {b : β} :
    (x >>= k).outcome t = (.ok b, t') ↔
      ∃ a t₁, x.outcome t = (.ok a, t₁) ∧ (k a).outcome t₁ = (.ok b, t') := by
  unfold outcome
  rw [ExceptT.run_bind, StateT.run_bind]
  rcases StateT.run (ExceptT.run x) t with ⟨_ | a, t₁⟩
  · exact ⟨fun h => (by cases h), fun ⟨_, _, h, _⟩ => (by cases h)⟩
  · exact ⟨fun h => ⟨a, t₁, rfl, h⟩, fun ⟨_, _, h, hk⟩ => (by cases h; exact hk)⟩

end FreshExcept

/-! ## One conversion -/

namespace Convert

variable {isPrimitive : Text → Bool} {e out : Sexp} {t t' : NameTable}

/-- The form of an expression, as a step: the table stays as it is. -/
theorem outcome_analyse {f : Form} :
    (analyse isPrimitive e).outcome t = (.ok f, t') ↔
      Form.analyse isPrimitive e = .ok f ∧ t' = t := by
  unfold analyse
  rcases Form.analyse isPrimitive e with err | g
  · exact ⟨fun h => (by cases h), fun h => (by cases h.1)⟩
  · exact ⟨fun h => (by cases h; exact ⟨rfl, rfl⟩), fun h => (by cases h.1; rw [h.2]; rfl)⟩

/-- **A program was converted**: it has a form, which was converted with all its
symbols and `halt` reserved. -/
theorem program_ok {halt : Text} (h : (program isPrimitive e halt).outcome t = (.ok out, t')) :
    ∃ f, Form.analyse isPrimitive e = .ok f ∧
      f.convertProgram halt
        (t.reserve programNames (Sexp.symbolsList [e, .symbol halt])) = (out, t') := by
  unfold program at h
  obtain ⟨_, t₁, hreserve, h⟩ := FreshExcept.outcome_bind_ok.1 h
  obtain ⟨f, t₂, hanalyse, h⟩ := FreshExcept.outcome_bind_ok.1 h
  cases hreserve
  obtain ⟨hf, rfl⟩ := outcome_analyse.1 hanalyse
  cases h
  exact ⟨f, hf, rfl⟩

/-- **An atomic expression was converted by itself.** -/
theorem atom_ok (h : (atom isPrimitive e).outcome t = (.ok out, t')) :
    ∃ f, Form.analyse isPrimitive e = .ok f ∧ f.isAtomic = true ∧
      f.convertAtom (t.reserve programNames (Sexp.symbolsList [e])) = (out, t') := by
  unfold atom at h
  obtain ⟨_, t₁, hreserve, h⟩ := FreshExcept.outcome_bind_ok.1 h
  obtain ⟨f, t₂, hanalyse, h⟩ := FreshExcept.outcome_bind_ok.1 h
  cases hreserve
  obtain ⟨hf, rfl⟩ := outcome_analyse.1 hanalyse
  cases hatomic : f.isAtomic with
  | false =>
    rw [hatomic] at h
    cases h
  | true =>
    rw [hatomic] at h
    cases h
    exact ⟨f, hf, hatomic, rfl⟩

/-- **An expression was converted with the continuation `cont`.** -/
theorem withObject_ok {cont : Sexp}
    (h : (withObject isPrimitive e cont).outcome t = (.ok out, t')) :
    ∃ f, Form.analyse isPrimitive e = .ok f ∧
      f.convert (.object cont)
        (t.reserve programNames (Sexp.symbolsList [e, cont])) = (out, t') := by
  unfold withObject at h
  obtain ⟨_, t₁, hreserve, h⟩ := FreshExcept.outcome_bind_ok.1 h
  obtain ⟨f, t₂, hanalyse, h⟩ := FreshExcept.outcome_bind_ok.1 h
  cases hreserve
  obtain ⟨hf, rfl⟩ := outcome_analyse.1 hanalyse
  cases h
  exact ⟨f, hf, rfl⟩

end Convert

/-! ## The compiler -/

namespace Compiler

/-- **The outcome of the work of a compiler**: its result, and the compiler
afterwards. -/
def outcome {α : Type} (action : Compile α) (c : Compiler) : Except Failure α × Compiler :=
  StateT.run (ExceptT.run action) c

variable {α β : Type}

/-- A success whose result is known. -/
theorem outcome_of_toOption {action : Compile α} {c : Compiler} {a : α}
    (h : (outcome action c).1.toOption = some a) : ∃ c', outcome action c = (.ok a, c') := by
  rcases hrun : outcome action c with ⟨_ | b, c'⟩
  all_goals
    rw [hrun] at h
    cases h
  exact ⟨c', rfl⟩

/-- Two steps: the second one starts where the first one ended, unless that has failed. -/
theorem outcome_bind (x : Compile α) (k : α → Compile β) (c : Compiler) :
    outcome (x >>= k) c = match outcome x c with
      | (.ok a, c₁) => outcome (k a) c₁
      | (.error f, c₁) => (.error f, c₁) := by
  unfold outcome
  rw [ExceptT.run_bind, StateT.run_bind]
  rcases StateT.run (ExceptT.run x) c with ⟨_ | a, c₁⟩ <;> rfl

/-- Drawing names leaves everything but the table as it is. -/
theorem outcome_drawing (action : FreshExcept α) (c : Compiler) :
    outcome (drawing action) c = ((action.outcome c.names).1.mapError .refused,
      { c with names := (action.outcome c.names).2 }) := rfl

/-- A conversion is logged if there are expressions to show. -/
theorem outcome_logConversion (message : Text) (before after : Sexp) (c : Compiler) :
    (outcome (logConversion message before after) c).1 =
      if c.logsConversions = true ∧ (before = .absent ∨ after = .absent) then
        .error .nothingToShow
      else .ok () := by
  unfold logConversion
  rw [outcome_bind]
  show (outcome (if c.logsConversions = true then _ else _) c).1 = _
  split <;> split <;> simp_all <;> rfl

/-- A success of two steps is a success of the first and then of the second. -/
theorem outcome_bind_ok {x : Compile α} {k : α → Compile β} {c c' : Compiler} {b : β} :
    outcome (x >>= k) c = (.ok b, c') ↔
      ∃ a c₁, outcome x c = (.ok a, c₁) ∧ outcome (k a) c₁ = (.ok b, c') := by
  rw [outcome_bind]
  rcases outcome x c with ⟨_ | a, c₁⟩
  · exact ⟨fun h => (by cases h), fun ⟨_, _, h, _⟩ => (by cases h)⟩
  · exact ⟨fun h => ⟨a, c₁, rfl, h⟩, fun ⟨_, _, h, hk⟩ => (by cases h; exact hk)⟩

/-- Drawing names changes nothing of a compiler but its table. -/
theorem outcome_drawing_ok {action : FreshExcept α} {c c' : Compiler} {a : α} :
    outcome (drawing action) c = (.ok a, c') ↔
      ∃ t, action.outcome c.names = (.ok a, t) ∧ c' = { c with names := t } := by
  rw [outcome_drawing]
  rcases FreshExcept.outcome action c.names with ⟨_ | b, t⟩
  · exact ⟨fun h => (by cases h), fun ⟨_, h, _⟩ => (by cases h)⟩
  · exact ⟨fun h => (by cases h; exact ⟨t, rfl, rfl⟩), fun ⟨_, h, hc⟩ => (by cases h; rw [hc]; rfl)⟩

/-- Logging changes neither the settings nor the table. -/
theorem outcome_logConversion_ok {message : Text} {before after : Sexp} {c c' : Compiler}
    (h : outcome (logConversion message before after) c = (.ok (), c')) :
    c'.settings = c.settings ∧ c'.names = c.names := by
  unfold logConversion at h
  obtain ⟨_, c₁, hget, h⟩ := outcome_bind_ok.1 h
  cases hget
  split at h
  · split at h
    · cases h
    · cases h
      exact ⟨rfl, rfl⟩
  · cases h
    exact ⟨rfl, rfl⟩

/-- **The compiler after a reading** that has skipped some gaps, which it logs if it logs gaps at
all. -/
def noting (gaps : List Gap) (c : Compiler) : Compiler :=
  if c.logsGaps then { c with log := c.log ++ gaps.map gapRecord } else c

/-- Where gaps are not logged nothing changes. -/
theorem noting_of_logsGaps {c : Compiler} (h : c.logsGaps = false) (gaps : List Gap) :
    c.noting gaps = c := by
  rw [noting, h]
  rfl

/-- Logging gaps puts their records behind the log. -/
theorem outcome_forM_record (gaps : List Gap) (c : Compiler) :
    outcome (gaps.forM fun g => record (gapRecord g)) c =
      (.ok (), { c with log := c.log ++ gaps.map gapRecord }) := by
  induction gaps generalizing c with
  | nil =>
    rw [List.map_nil, List.append_nil]
    rfl
  | cons g gaps ih =>
    refine outcome_bind_ok.2 ⟨(), _, rfl, (ih { c with log := c.log ++ [gapRecord g] }).trans ?_⟩
    rw [List.append_assoc]
    rfl

/-- **The end of reading** hands the result on, and logs the gaps. -/
theorem outcome_endReading (gaps : List Gap) (result : Except Failure α) (c : Compiler) :
    outcome (endReading gaps result) c = (result, c.noting gaps) := by
  unfold endReading
  rw [outcome_bind]
  change outcome (if c.logsGaps = true then _ else _ : Compile α) c = _
  rw [noting]
  split
  · rw [outcome_bind, outcome_forM_record]
    rfl
  · rfl

/-- **An expression was prepared**: it was left as it is, or it was renamed. -/
theorem prepare_ok {e e' : Sexp} {c c' : Compiler}
    (h : outcome (prepare e) c = (.ok e', c')) : c'.settings = c.settings ∧
      (c.settings.alphatize = false ∧ e' = e ∨ c.settings.alphatize = true ∧
        (PassingStyle.alphatize e).outcome c.names = (.ok e', c'.names)) := by
  unfold prepare at h
  obtain ⟨_, c₁, hget, h⟩ := outcome_bind_ok.1 h
  cases hget
  cases halpha : c.settings.alphatize with
  | false =>
    rw [halpha] at h
    cases h
    exact ⟨rfl, Or.inl ⟨rfl, rfl⟩⟩
  | true =>
    rw [halpha] at h
    obtain ⟨renamed, c₂, hrename, h⟩ := outcome_bind_ok.1 h
    obtain ⟨_, c₃, hlog, h⟩ := outcome_bind_ok.1 h
    cases h
    obtain ⟨t, hrenamed, rfl⟩ := outcome_drawing_ok.1 hrename
    obtain ⟨hsettings, hnames⟩ := outcome_logConversion_ok hlog
    refine ⟨hsettings, Or.inr ⟨rfl, ?_⟩⟩
    rw [hnames]
    exact hrenamed

/-- **An expression was converted**: it was prepared, and what came of that was converted. -/
theorem convert_prepared {e out : Sexp} {c c' : Compiler}
    (h : outcome (convert e) c = (.ok out, c')) : ∃ e' c₁, outcome (prepare e) c = (.ok e', c₁) ∧
      (Convert.program c.settings.primitives.contains e' c.settings.finalCont).outcome c₁.names =
        (.ok out, c'.names) := by
  unfold convert at h
  obtain ⟨e', c₁, hprepare, h⟩ := outcome_bind_ok.1 h
  obtain ⟨_, c₂, hget, h⟩ := outcome_bind_ok.1 h
  cases hget
  obtain ⟨out', c₃, hdraw, h⟩ := outcome_bind_ok.1 h
  obtain ⟨_, c₄, hlog, h⟩ := outcome_bind_ok.1 h
  cases h
  obtain ⟨t, hdrawn, rfl⟩ := outcome_drawing_ok.1 hdraw
  obtain ⟨_, hnames⟩ := outcome_logConversion_ok hlog
  rw [(prepare_ok hprepare).1] at hdrawn
  refine ⟨e', c₁, hprepare, ?_⟩
  rw [hnames]
  exact hdrawn

/-- **An expression was converted by a compiler that renames variables**: it was
renamed first, and the renamed expression was converted from the table that the
renaming left. -/
theorem convert_ok {e out : Sexp} {c c' : Compiler} (halpha : c.settings.alphatize = true)
    (h : outcome (convert e) c = (.ok out, c')) : ∃ e' t,
    (PassingStyle.alphatize e).outcome c.names = (.ok e', t) ∧
      (Convert.program c.settings.primitives.contains e' c.settings.finalCont).outcome t =
        (.ok out, c'.names) := by
  obtain ⟨e', c₁, hprepare, hprogram⟩ := convert_prepared h
  rcases (prepare_ok hprepare).2 with ⟨hfalse, _⟩ | ⟨_, hrenamed⟩
  · rw [halpha] at hfalse
    cases hfalse
  · exact ⟨e', c₁.names, hrenamed, hprogram⟩

/-! ## What a compiler never changes -/

/-- **An action keeps the settings** if they are the same after it, however it ends, and so
is the choice of what is logged. -/
def KeepsSettings (action : Compile α) : Prop :=
  ∀ c, (outcome action c).2.settings = c.settings ∧
    (outcome action c).2.logsConversions = c.logsConversions

namespace KeepsSettings

theorem pure (a : α) : KeepsSettings (Pure.pure a) := fun _ => ⟨rfl, rfl⟩

theorem throw (f : Failure) : KeepsSettings (MonadExcept.throw f : Compile α) :=
  fun _ => ⟨rfl, rfl⟩

/-- An action that looks at the compiler keeps the settings if what it goes on with does. -/
theorem get {k : Compiler → Compile β} (h : ∀ c, KeepsSettings (k c)) :
    KeepsSettings (MonadState.get >>= k) := fun c => h c c

/-- Two actions in a row. -/
theorem bind {x : Compile α} {k : α → Compile β} (hx : KeepsSettings x)
    (hk : ∀ a, KeepsSettings (k a)) : KeepsSettings (x >>= k) := by
  intro c
  have hx := hx c
  rw [outcome_bind]
  rcases hrun : outcome x c with ⟨_ | a, c₁⟩
  all_goals rw [hrun] at hx
  · exact hx
  · obtain ⟨hsettings, hlogs⟩ := hk a c₁
    exact ⟨hsettings.trans hx.1, hlogs.trans hx.2⟩

theorem record (r : Record) : KeepsSettings (record r) := fun _ => ⟨rfl, rfl⟩

theorem drawing (action : FreshExcept α) : KeepsSettings (drawing action) := fun _ => ⟨rfl, rfl⟩

theorem logConversion (message : Text) (before after : Sexp) :
    KeepsSettings (logConversion message before after) := by
  refine get fun c => ?_
  split
  · split
    · exact throw _
    · exact record _
  · exact pure _

theorem prepare (e : Sexp) : KeepsSettings (prepare e) := by
  refine get fun c => ?_
  split
  · exact bind (drawing _) fun renamed => bind (logConversion _ _ _) fun _ => pure _
  · exact pure _

/-- Converting an expression. -/
theorem convert (e : Sexp) : KeepsSettings (convert e) :=
  bind (prepare e) fun _ => get fun _ => bind (drawing _) fun _ =>
    bind (logConversion _ _ _) fun _ => pure _

/-- Logging the gaps of a text. -/
theorem forM_record (gaps : List Gap) :
    KeepsSettings (gaps.forM fun g => Compiler.record (gapRecord g)) := by
  induction gaps with
  | nil => exact pure _
  | cons g gaps ih => exact bind (record _) fun _ => ih

/-- The end of reading. -/
theorem endReading (gaps : List Gap) (result : Except Failure α) :
    KeepsSettings (endReading gaps result) := by
  have hresult : KeepsSettings (ExceptT.mk (Pure.pure result) : Compile α) := fun _ => ⟨rfl, rfl⟩
  refine get fun c => ?_
  split
  · exact bind (forM_record _) fun _ => hresult
  · exact hresult

/-- Reading the first expression of a text. -/
theorem read (text : Text) : KeepsSettings (read text) :=
  get fun _ => endReading _ _

/-- Reading all expressions of a text. -/
theorem readAll (text : Text) : KeepsSettings (readAll text) :=
  get fun _ => endReading _ _

end KeepsSettings

end Compiler

end PassingStyle
