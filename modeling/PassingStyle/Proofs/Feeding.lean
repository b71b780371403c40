import PassingStyle.Proofs.RoundTrip
import PassingStyle.Session

/-!
# Feeding line by line

A session reads its buffer from the start with every new line, so nothing of what it tried before
should show: as long as lines are pending, feeding the next one is feeding all of them at once.
What could show are traces outside of the buffer. A pending line draws no name and does not call
the hook, but it does leave a trace in the log, because a gap in the buffer is reported each time
the buffer is read. That is why a hook must not look at the log, or gaps must not be logged.

Compared with compiling the joined text there is one more thing between two conversions, namely
the hook. It works with the compiler of the session, and a script that converts expressions of its
own draws names from the same table. The outputs of a session are those of the compiler where the
hook leaves the compiler alone, and not otherwise: `Session.feed_draws_names`.
-/

namespace PassingStyle

open Text

namespace Compiler

variable {α β : Type}

/-! ## What does not depend on the log -/

/-- **The same compiler but for its log.** -/
structure SameButLog (c c' : Compiler) : Prop where
  /-- The settings are the same. -/
  settings : c.settings = c'.settings
  /-- Both log conversions or neither does. -/
  logsConversions : c.logsConversions = c'.logsConversions
  /-- Both log gaps or neither does. -/
  logsGaps : c.logsGaps = c'.logsGaps
  /-- The tables are the same. -/
  names : c.names = c'.names

namespace SameButLog

theorem refl (c : Compiler) : SameButLog c c := ⟨rfl, rfl, rfl, rfl⟩

theorem symm {c c' : Compiler} (h : SameButLog c c') : SameButLog c' c :=
  ⟨h.settings.symm, h.logsConversions.symm, h.logsGaps.symm, h.names.symm⟩

theorem trans {c c₁ c' : Compiler} (h : SameButLog c c₁) (h' : SameButLog c₁ c') :
    SameButLog c c' :=
  ⟨h.settings.trans h'.settings, h.logsConversions.trans h'.logsConversions,
    h.logsGaps.trans h'.logsGaps, h.names.trans h'.names⟩

/-- Compilers that are the same but for their logs read alike. -/
theorem reader_eq {c c' : Compiler} (h : SameButLog c c') : c.reader = c'.reader := by
  rw [reader, reader, h.settings]

end SameButLog

/-- **An action ignores the log**: with another log it has the same result, and leaves the same
compiler but for the log. -/
def IgnoresLog (action : Compile α) : Prop :=
  ∀ ⦃c c'⦄, SameButLog c c' → (outcome action c).1 = (outcome action c').1 ∧
    SameButLog (outcome action c).2 (outcome action c').2

/-- **An action adds to the log** without looking at it: it ignores the log, and puts the same
records behind any log. -/
structure AddsToLog (action : Compile α) : Prop where
  /-- The log does not matter for the rest. -/
  ignores : IgnoresLog action
  /-- The log matters for itself only. -/
  adds : ∀ ⦃c c'⦄, SameButLog c c' → ∃ added, (outcome action c).2.log = c.log ++ added ∧
    (outcome action c').2.log = c'.log ++ added

namespace AddsToLog

/-- An action that leaves every log as it is. -/
theorem of_ignoresLog {action : Compile α} (h : IgnoresLog action)
    (hlog : ∀ c, (outcome action c).2.log = c.log) : AddsToLog action :=
  ⟨h, fun c c' _ => ⟨[], by rw [hlog, List.append_nil], by rw [hlog, List.append_nil]⟩⟩

theorem pure (a : α) : AddsToLog (Pure.pure a) :=
  of_ignoresLog (fun _ _ h => ⟨rfl, h⟩) fun _ => rfl

theorem throw (f : Failure) : AddsToLog (MonadExcept.throw f : Compile α) :=
  of_ignoresLog (fun _ _ h => ⟨rfl, h⟩) fun _ => rfl

/-- An action that looks at the compiler adds to the log if it does not look there. -/
theorem get {k : Compiler → Compile β} (hlook : ∀ ⦃c c'⦄, SameButLog c c' → k c = k c')
    (h : ∀ c, AddsToLog (k c)) : AddsToLog (MonadState.get >>= k) := by
  have hrun : ∀ c, outcome (MonadState.get >>= k) c = outcome (k c) c := fun _ => rfl
  refine ⟨fun c c' hc => ?_, fun c c' hc => ?_⟩
  · rw [hrun, hrun, ← hlook hc]
    exact (h c).ignores hc
  · rw [hrun, hrun, ← hlook hc]
    exact (h c).adds hc

/-- Two actions in a row. -/
theorem bind {x : Compile α} {k : α → Compile β} (hx : AddsToLog x)
    (hk : ∀ a, AddsToLog (k a)) : AddsToLog (x >>= k) := by
  -- both runs fail at the first action or neither does, and then they go on alike
  have hrun : ∀ c c', SameButLog c c' →
      (∃ f, outcome (x >>= k) c = (.error f, (outcome x c).2) ∧
        outcome (x >>= k) c' = (.error f, (outcome x c').2)) ∨
      ∃ a, outcome (x >>= k) c = outcome (k a) (outcome x c).2 ∧
        outcome (x >>= k) c' = outcome (k a) (outcome x c').2 := by
    intro c c' hc
    have hresult := (hx.ignores hc).1
    rw [outcome_bind, outcome_bind]
    rcases hrun : outcome x c with ⟨f | a, c₁⟩
    all_goals
      rcases hrun' : outcome x c' with ⟨f' | a', c₁'⟩
      all_goals
        rw [hrun, hrun'] at hresult
        cases hresult
    · exact .inl ⟨f, rfl, rfl⟩
    · exact .inr ⟨a, rfl, rfl⟩
  refine ⟨fun c c' hc => ?_, fun c c' hc => ?_⟩
  · rcases hrun c c' hc with ⟨f, h, h'⟩ | ⟨a, h, h'⟩
    all_goals rw [h, h']
    · exact ⟨rfl, (hx.ignores hc).2⟩
    · exact (hk a).ignores (hx.ignores hc).2
  · obtain ⟨added, hadded, hadded'⟩ := hx.adds hc
    rcases hrun c c' hc with ⟨f, h, h'⟩ | ⟨a, h, h'⟩
    all_goals rw [h, h']
    · exact ⟨added, hadded, hadded'⟩
    · obtain ⟨more, hmore, hmore'⟩ := (hk a).adds (hx.ignores hc).2
      refine ⟨added ++ more, ?_, ?_⟩
      · rw [hmore, hadded, List.append_assoc]
      · rw [hmore', hadded', List.append_assoc]

theorem record (r : Record) : AddsToLog (record r) :=
  ⟨fun _ _ h => ⟨rfl, h.settings, h.logsConversions, h.logsGaps, h.names⟩,
    fun _ _ _ => ⟨[r], rfl, rfl⟩⟩

theorem drawing (action : FreshExcept α) : AddsToLog (drawing action) := by
  refine of_ignoresLog (fun c c' h => ?_) fun _ => rfl
  rw [outcome_drawing, outcome_drawing, h.names]
  exact ⟨rfl, h.settings, h.logsConversions, h.logsGaps, rfl⟩

theorem logConversion (message : Text) (before after : Sexp) :
    AddsToLog (logConversion message before after) := by
  refine get (fun c c' h => by rw [h.logsConversions]) fun c => ?_
  split
  · split
    · exact throw _
    · exact record _
  · exact pure _

theorem prepare (e : Sexp) : AddsToLog (prepare e) := by
  refine get (fun c c' h => by rw [h.settings]) fun c => ?_
  split
  · exact bind (drawing _) fun renamed => bind (logConversion _ _ _) fun _ => pure _
  · exact pure _

/-- Converting an expression. -/
theorem convert (e : Sexp) : AddsToLog (convert e) :=
  bind (prepare e) fun _ => get (fun c c' h => by rw [h.settings]) fun _ =>
    bind (drawing _) fun _ => bind (logConversion _ _ _) fun _ => pure _

end AddsToLog

/-! ## Reading -/

/-- Logging gaps changes nothing but the log. -/
theorem sameButLog_noting (gaps : List Gap) (c : Compiler) : (c.noting gaps).SameButLog c := by
  rw [noting]
  split
  · exact ⟨rfl, rfl, rfl, rfl⟩
  · exact .refl c

/-- **Reading a text** gives what the reader gives, and logs the gaps. -/
theorem outcome_readAll (text : Text) (c : Compiler) :
    outcome (readAll text) c = ((c.reader.readAll text).2.mapError .unreadable,
      c.noting (c.reader.readAll text).1) :=
  outcome_endReading (c.reader.readAll text).1 _ c

/-! ## Compilers that work alike -/

/-- **Agreement**: compilers in the relation read and convert alike, and stay in the relation, also
when they log gaps. -/
structure Agreement (R : Compiler → Compiler → Prop) : Prop where
  /-- They read in the same way. -/
  reader_eq : ∀ ⦃c c'⦄, R c c' → c.reader = c'.reader
  /-- They may log the same gaps. -/
  noting : ∀ ⦃c c'⦄, R c c' → ∀ gaps, R (c.noting gaps) (c'.noting gaps)
  /-- They convert every expression alike. -/
  convert : ∀ ⦃c c'⦄, R c c' → ∀ e, (outcome (convert e) c).1 = (outcome (convert e) c').1 ∧
    R (outcome (convert e) c).2 (outcome (convert e) c').2

/-- Compilers that are the same but for their logs work alike. -/
theorem agreement_sameButLog : Agreement SameButLog where
  reader_eq _ _ h := h.reader_eq
  noting _ _ h gaps := ((sameButLog_noting gaps _).trans h).trans (sameButLog_noting gaps _).symm
  convert _ _ h e := (AddsToLog.convert e).ignores h

end Compiler

/-! ## Hooks -/

namespace Hook

variable {σ : Type}

/-- **A hook ignores the log** of the session's compiler. -/
def IgnoresLog (hook : Hook σ) : Prop :=
  ∀ e out ⦃c c' : Compiler⦄ (hookState : σ), c.SameButLog c' →
    ((hook e out).run.run (c, hookState)).1 = ((hook e out).run.run (c', hookState)).1 ∧
    ((hook e out).run.run (c, hookState)).2.1.SameButLog
      ((hook e out).run.run (c', hookState)).2.1 ∧
    ((hook e out).run.run (c, hookState)).2.2 = ((hook e out).run.run (c', hookState)).2.2

/-- **A hook respects a relation** of compilers: it has the same result with related compilers, and
leaves related compilers behind. To ignore the log is to respect `Compiler.SameButLog`. -/
def Respects (R : Compiler → Compiler → Prop) (hook : Hook σ) : Prop :=
  ∀ e out ⦃c c' : Compiler⦄ (hookState : σ), R c c' →
    ((hook e out).run.run (c, hookState)).1 = ((hook e out).run.run (c', hookState)).1 ∧
    R ((hook e out).run.run (c, hookState)).2.1 ((hook e out).run.run (c', hookState)).2.1 ∧
    ((hook e out).run.run (c, hookState)).2.2 = ((hook e out).run.run (c', hookState)).2.2

/-- **A hook leaves the compiler alone**, apart from the log. -/
def LeavesCompiler (hook : Hook σ) : Prop :=
  ∀ e out state, ((hook e out).run.run state).2.1.SameButLog state.1

theorem ignoresLog_none : Hook.none.IgnoresLog := fun _ _ _ _ _ h => ⟨rfl, h, rfl⟩

theorem leavesCompiler_none : Hook.none.LeavesCompiler := fun _ _ _ => .refl _

/-- **The hook that converts every source once more**, as a script does that calls for the
conversion of what it sees. -/
def converting : Hook Unit := fun source _ => do
  let (c, _) ← get
  let (result, c') := Compiler.outcome (Compiler.convert source) c
  set (c', ())
  ExceptT.mk (pure (result.map fun _ => ()))

/-- **The hook that objects to a long log.** -/
def watching (limit : Nat) : Hook Unit := fun _ _ => do
  if limit < (← get).1.log.length then throw (.other "too many warnings")

end Hook

namespace Session

open Compiler

variable {σ : Type} {hook : Hook σ}

/-- **The same session but for the log** of its compiler. -/
structure SameButLog (s s' : Session σ) : Prop where
  /-- The compilers are the same but for their logs. -/
  compiler : s.compiler.SameButLog s'.compiler
  /-- The buffers are the same. -/
  buffer : s.buffer = s'.buffer
  /-- The hooks are in the same state. -/
  hookState : s.hookState = s'.hookState

/-- **Sessions that work alike**: their compilers are related, and the rest is the same. -/
structure Alike (R : Compiler → Compiler → Prop) (s s' : Session σ) : Prop where
  /-- The compilers are related. -/
  compiler : R s.compiler s'.compiler
  /-- The buffers are the same. -/
  buffer : s.buffer = s'.buffer
  /-- The hooks are in the same state. -/
  hookState : s.hookState = s'.hookState

/-! ## One line -/

variable {R : Compiler → Compiler → Prop}

/-- **The conversion of several expressions** with compilers that work alike. -/
theorem convertEach_alike (hR : Agreement R) (hhook : hook.Respects R) (es : List Sexp)
    {c c' : Compiler} (hookState : σ) (hc : R c c') :
    (convertEach hook es (c, hookState)).1 = (convertEach hook es (c', hookState)).1 ∧
      R (convertEach hook es (c, hookState)).2.1 (convertEach hook es (c', hookState)).2.1 ∧
      (convertEach hook es (c, hookState)).2.2 = (convertEach hook es (c', hookState)).2.2 := by
  induction es generalizing c c' hookState with
  | nil => exact ⟨rfl, hc, rfl⟩
  | cons e es ih =>
    obtain ⟨hresult, hafter⟩ := hR.convert hc e
    unfold outcome at hresult hafter
    unfold convertEach
    rcases hrun : StateT.run (ExceptT.run (convert e)) c with ⟨f | out, c₁⟩
    all_goals
      rcases hrun' : StateT.run (ExceptT.run (convert e)) c' with ⟨f' | out', c₁'⟩
      all_goals
        rw [hrun, hrun'] at hresult hafter
        cases hresult
    · exact ⟨rfl, hafter, rfl⟩
    · dsimp only
      obtain ⟨hhooked, hleft, hstate⟩ := hhook e out hookState hafter
      rcases hrun : StateT.run (ExceptT.run (hook e out)) (c₁, hookState) with ⟨f | ⟨⟩, c₂, h₂⟩
      all_goals
        rcases hrun' : StateT.run (ExceptT.run (hook e out)) (c₁', hookState) with
          ⟨f' | ⟨⟩, c₂', h₂'⟩
        all_goals
          rw [hrun, hrun'] at hhooked hleft hstate
          cases hhooked
      · exact ⟨rfl, hleft, hstate⟩
      · obtain rfl : h₂ = h₂' := hstate
        obtain ⟨hrest, hcompilers, hstates⟩ := ih h₂ hleft
        exact ⟨congrArg (fun r => (out :: r.1, r.2)) hrest, hcompilers, hstates⟩

/-- **What a line does.** It is read with the buffer before it, and the gaps are logged. Where the
end of the input is the fault it is pending; another fault of the text, and conversions with or
without a failure, leave nothing in the buffer. -/
theorem feed_eq (hook : Hook σ) (line : Text) (s : Session σ) :
    s.feed hook line =
      let (gaps, result) := s.compiler.reader.readAll (s.extended line)
      match result with
      | .error err =>
        if err.incomplete then
          ({ pending := true }, ⟨s.compiler.noting gaps, s.extended line, s.hookState⟩)
        else ({ failure := some (.unreadable err) }, ⟨s.compiler.noting gaps, [], s.hookState⟩)
      | .ok es =>
        let ((out, failure), (c, hookState)) :=
          convertEach hook es (s.compiler.noting gaps, s.hookState)
        ({ out, failure }, ⟨c, [], hookState⟩) := by
  have hread := outcome_readAll (s.extended line) s.compiler
  unfold outcome at hread
  unfold feed
  dsimp only
  rw [hread]
  rcases s.compiler.reader.readAll (s.extended line) with ⟨gaps, err | es⟩ <;> rfl

/-- **Feeding sessions that work alike**, however the text is divided between the buffer and the
line. -/
theorem feed_alike (hR : Agreement R) (hhook : hook.Respects R) {s s' : Session σ}
    {line line' : Text} (hc : R s.compiler s'.compiler) (hstate : s.hookState = s'.hookState)
    (htext : s.extended line = s'.extended line') :
    (s.feed hook line).1 = (s'.feed hook line').1 ∧
      (s.feed hook line).2.Alike R (s'.feed hook line').2 := by
  rw [feed_eq, feed_eq, hR.reader_eq hc, htext]
  rcases s'.compiler.reader.readAll (s'.extended line') with ⟨gaps, err | es⟩
  · dsimp only
    split
    · exact ⟨rfl, hR.noting hc gaps, rfl, hstate⟩
    · exact ⟨rfl, hR.noting hc gaps, rfl, hstate⟩
  · obtain ⟨hout, hleft, hstates⟩ :=
      convertEach_alike hR hhook es s'.hookState (hR.noting hc gaps)
    dsimp only
    rw [hstate]
    exact ⟨congrArg (fun r => ({ out := r.1, failure := r.2 } : Fed)) hout, hleft, rfl, hstates⟩

/-- **Feeding does not depend on the log**, nor on how the text is divided between the buffer and
the line. -/
theorem feed_sameButLog (hhook : hook.IgnoresLog) {s s' : Session σ} {line line' : Text}
    (hc : s.compiler.SameButLog s'.compiler) (hstate : s.hookState = s'.hookState)
    (htext : s.extended line = s'.extended line') :
    (s.feed hook line).1 = (s'.feed hook line').1 ∧
      (s.feed hook line).2.SameButLog (s'.feed hook line').2 := by
  obtain ⟨hfed, halike⟩ := feed_alike agreement_sameButLog hhook hc hstate htext
  exact ⟨hfed, halike.compiler, halike.buffer, halike.hookState⟩

/-- Feeding depends on the compiler, the state of the hook and the text. -/
theorem feed_congr {s s' : Session σ} {line line' : Text} (hc : s.compiler = s'.compiler)
    (hstate : s.hookState = s'.hookState) (htext : s.extended line = s'.extended line') :
    s.feed hook line = s'.feed hook line' := by
  unfold feed
  rw [hc, hstate, htext]

/-- **What a pending line does**: it is kept in the buffer with what was there before, and all that
changes else is that the gaps are logged. -/
theorem feed_of_pending {s : Session σ} {line : Text} (h : (s.feed hook line).1.pending = true) :
    s.extended line ≠ [] ∧ ∃ gaps, s.feed hook line =
      ({ pending := true }, ⟨s.compiler.noting gaps, s.extended line, s.hookState⟩) := by
  have hne : s.extended line = [] → (s.compiler.reader.readAll (s.extended line)).2 = .ok [] := by
    intro hnil
    rw [hnil]
    rfl
  rw [feed_eq] at h ⊢
  rcases hread : s.compiler.reader.readAll (s.extended line) with ⟨gaps, err | es⟩
  all_goals rw [hread] at h hne
  · dsimp only at h ⊢
    split at h
    · rw [if_pos ‹_›]
      exact ⟨fun hnil => (nomatch hne hnil), gaps, rfl⟩
    · cases h
  · cases h

/-- **A pending line** is kept in the buffer with what was there before, and leaves everything
else as it is, apart from the log. -/
theorem feed_pending {s : Session σ} {line : Text} (h : (s.feed hook line).1.pending = true) :
    (s.feed hook line).2.buffer = s.extended line ∧ s.extended line ≠ [] ∧
      (s.feed hook line).2.compiler.SameButLog s.compiler ∧
      (s.compiler.logsGaps = false → (s.feed hook line).2.compiler = s.compiler) ∧
      (s.feed hook line).2.hookState = s.hookState := by
  obtain ⟨hne, gaps, hfeed⟩ := feed_of_pending h
  rw [hfeed]
  exact ⟨rfl, hne, sameButLog_noting gaps _, fun hlogs => noting_of_logsGaps hlogs gaps, rfl⟩

/-- **Every other line** leaves nothing in the buffer. -/
theorem buffer_feed {s : Session σ} {line : Text} (h : (s.feed hook line).1.pending = false) :
    (s.feed hook line).2.buffer = [] := by
  rw [feed_eq] at h ⊢
  rcases hread : s.compiler.reader.readAll (s.extended line) with ⟨gaps, err | es⟩
  · rw [hread] at h
    dsimp only at h ⊢
    split
    · rw [if_pos ‹_›] at h
      cases h
    · rfl
  · rfl

/-- A session is pending after a line if the line was. -/
theorem isPending_feed (s : Session σ) (line : Text) :
    (s.feed hook line).2.isPending = (s.feed hook line).1.pending := by
  cases h : (s.feed hook line).1.pending with
  | true =>
    obtain ⟨hbuffer, hne, _⟩ := feed_pending h
    rw [isPending, hbuffer, Bool.not_eq_true', List.isEmpty_eq_false_iff]
    exact hne
  | false =>
    rw [isPending, buffer_feed h]
    rfl

/-! ## Several lines -/

/-- **Feeding lines one after the other.** -/
def feedLines (hook : Hook σ) : List Text → Session σ → List Fed × Session σ
  | [], s => ([], s)
  | line :: lines, s =>
    let (fed, s) := s.feed hook line
    let (feds, s) := feedLines hook lines s
    (fed :: feds, s)

/-- **Lines as one text**, with newlines between them. -/
def joinLines (lines : List Text) : Text :=
  [byte '\n'].intercalate lines

/-- A line before others. -/
theorem joinLines_cons (line : Text) {lines : List Text} (h : lines ≠ []) :
    joinLines (line :: lines) = line ++ byte '\n' :: joinLines lines := by
  obtain ⟨next, lines, rfl⟩ := List.exists_cons_of_ne_nil h
  rw [joinLines, List.intercalate_cons_cons, List.append_assoc]
  rfl

/-- A newline comes behind what is in the buffer. -/
theorem extended_of_ne_nil {s : Session σ} (h : s.buffer ≠ []) (line : Text) :
    s.extended line = s.buffer ++ byte '\n' :: line := by
  rw [extended, if_neg (by simpa using h)]

/-- Two lines that are fed one after the other are joined behind what is in the buffer. -/
theorem extended_joinLines (s : Session σ) (line : Text) {lines : List Text} (h : lines ≠ []) :
    s.extended (joinLines (line :: lines)) = s.extended line ++ byte '\n' :: joinLines lines := by
  rw [joinLines_cons line h, extended, extended]
  split
  · rfl
  · rw [List.append_assoc, List.cons_append]

/-- **Pending lines** are in the buffer, joined with what was there before and what comes next;
everything else is as it was, apart from the log. -/
theorem feedLines_pending {lines : List Text} {s : Session σ}
    (h : ∀ fed ∈ (s.feedLines hook lines).1, fed.pending = true) :
    (s.feedLines hook lines).2.compiler.SameButLog s.compiler ∧
      (s.compiler.logsGaps = false → (s.feedLines hook lines).2.compiler = s.compiler) ∧
      (s.feedLines hook lines).2.hookState = s.hookState ∧
      ∀ last, (s.feedLines hook lines).2.extended last =
        s.extended (joinLines (lines ++ [last])) := by
  induction lines generalizing s with
  | nil => exact ⟨.refl _, fun _ => rfl, rfl, fun last => congrArg s.extended (by simp [joinLines])⟩
  | cons line lines ih =>
    obtain ⟨hline, hlines⟩ := List.forall_mem_cons.1 h
    obtain ⟨hbuffer, hne, hsame, hgaps, hstate⟩ := feed_pending hline
    obtain ⟨hsame', hgaps', hstate', htext⟩ := ih hlines
    refine ⟨hsame'.trans hsame, fun hlogs => ?_, hstate'.trans hstate, fun last => ?_⟩
    · exact (hgaps' (hsame.logsGaps.trans hlogs)).trans (hgaps hlogs)
    · have hne : (s.feed hook line).2.buffer ≠ [] := hbuffer ▸ hne
      calc (s.feedLines hook (line :: lines)).2.extended last
        _ = (s.feed hook line).2.extended (joinLines (lines ++ [last])) := htext last
        _ = s.extended line ++ byte '\n' :: joinLines (lines ++ [last]) := by
          rw [extended_of_ne_nil hne, hbuffer]
        _ = s.extended (joinLines (line :: lines ++ [last])) :=
          (extended_joinLines s line (by simp)).symm

/-! ## The same text for the compiler -/

/-- **Where the hook leaves the compiler alone** it does not show in the conversions. -/
theorem convertAll_of_convertEach (hhook : hook.LeavesCompiler) {es out : List Sexp}
    {c c' c₁ : Compiler} {hookState h₁ : σ} (hc : c.SameButLog c')
    (h : convertEach hook es (c, hookState) = ((out, none), (c₁, h₁))) :
    ∃ c₁', outcome (convertAll es) c' = (.ok out, c₁') ∧ c₁.SameButLog c₁' := by
  induction es generalizing c c' hookState out with
  | nil =>
    cases h
    exact ⟨c', rfl, hc⟩
  | cons e es ih =>
    obtain ⟨hresult, hafter⟩ := (AddsToLog.convert e).ignores hc
    rw [convertEach, show StateT.run (ExceptT.run (convert e)) c = outcome (convert e) c from rfl]
      at h
    rcases hrun : outcome (convert e) c with ⟨f | converted, c₂⟩
    all_goals rw [hrun] at h
    · cases h
    · rcases hrun' : outcome (convert e) c' with ⟨f' | converted', c₂'⟩
      all_goals
        rw [hrun, hrun'] at hresult hafter
        cases hresult
      dsimp only at h
      have hleft := hhook e converted (c₂, hookState)
      rcases hhooked : StateT.run (ExceptT.run (hook e converted)) (c₂, hookState) with
        ⟨f | ⟨⟩, c₃, h₃⟩
      all_goals rw [hhooked] at h hleft
      · cases h
      · dsimp only at h
        rcases hrest : convertEach hook es (c₃, h₃) with ⟨⟨outs, failure⟩, state⟩
        rw [hrest] at h
        cases h
        obtain ⟨c₁', hall, hsame⟩ := ih (hleft.trans hafter) hrest
        refine ⟨c₁', ?_, hsame⟩
        unfold convertAll at hall ⊢
        rw [List.mapM_cons]
        exact outcome_bind_ok.2 ⟨converted, c₂', hrun', outcome_bind_ok.2 ⟨outs, c₁', hall, rfl⟩⟩

/-- **A text that a session converts** without a failure is compiled to the same programs. -/
theorem compileAll_of_feed (hhook : hook.LeavesCompiler) {s : Session σ} {text : Text}
    (hpending : (s.feed hook text).1.pending = false)
    (hfailure : (s.feed hook text).1.failure = none) :
    ∃ c, outcome (compileAll (s.extended text)) s.compiler =
        (.ok (s.feed hook text).1.out, c) ∧
      (s.feed hook text).2.compiler.SameButLog c := by
  have hread := outcome_readAll (s.extended text) s.compiler
  rw [feed_eq] at hpending hfailure ⊢
  rcases hresult : s.compiler.reader.readAll (s.extended text) with ⟨gaps, err | es⟩
  all_goals rw [hresult] at hread hpending hfailure
  · dsimp only at hpending hfailure
    split at hpending
    · cases hpending
    · rw [if_neg ‹_›] at hfailure
      cases hfailure
  · dsimp only at hfailure ⊢
    rcases heach : convertEach hook es (s.compiler.noting gaps, s.hookState) with
      ⟨⟨out, failure⟩, c₁, h₁⟩
    rw [heach] at hfailure
    dsimp only at hfailure ⊢
    subst hfailure
    obtain ⟨c₁', hall, hleft⟩ := convertAll_of_convertEach hhook (.refl _) heach
    exact ⟨c₁', outcome_bind_ok.2 ⟨es, _, hread, hall⟩, hleft⟩

/-! ## Runs of a session -/

/-- **What can be done with a session.** -/
inductive Action where
  /-- A line is fed. -/
  | feed (line : Text)
  /-- The buffer is dropped. -/
  | reset

/-- The session after an action. -/
def perform (hook : Hook σ) (s : Session σ) : Action → Session σ
  | .feed line => (s.feed hook line).2
  | .reset => s.reset

/-- **The session after a run of actions.** -/
def performAll (hook : Hook σ) (s : Session σ) (actions : List Action) : Session σ :=
  actions.foldl (perform hook) s

/-- **A session is pending** if the last action was a line that was pending. -/
theorem isPending_performAll {s : Session σ} (hs : s.buffer = []) (actions : List Action) :
    (s.performAll hook actions).isPending = true ↔
      ∃ before line, actions = before ++ [.feed line] ∧
        ((s.performAll hook before).feed hook line).1.pending = true := by
  rcases List.eq_nil_or_concat actions with rfl | ⟨before, action, rfl⟩
  · refine iff_of_false ?_ ?_
    · rw [performAll, List.foldl_nil, isPending, hs]
      decide
    · rintro ⟨before, line, h, _⟩
      exact absurd h (by simp)
  · rw [List.concat_eq_append, performAll, List.foldl_append, List.foldl_cons, List.foldl_nil]
    cases action with
    | feed line =>
      rw [perform, isPending_feed]
      refine ⟨fun h => ⟨before, line, rfl, h⟩, ?_⟩
      rintro ⟨before', line', heq, h⟩
      obtain ⟨rfl, hlast⟩ := List.append_inj' heq rfl
      cases hlast
      exact h
    | reset =>
      refine iff_of_false nofun ?_
      rintro ⟨before', line', heq, _⟩
      exact nomatch (List.append_inj' heq rfl).2

/-- **Line by line or at once.** For a session with an empty buffer, all lines but the last one of
which are pending, feeding the last one has the outcome of feeding all of them at once, and leaves
the same session apart from the log of its compiler. This needs a hook that ignores the log, or a
compiler that does not log gaps. If the hook leaves the compiler alone as well, then a success has
the outputs and the table of compiling the joined text.

In every run of a session from there it is pending if and only if the last action was a line that
was pending. A line that is not pending leaves an empty buffer, and one that is leaves the table as
it was. -/
theorem feed_lines (hook : Hook σ) (s : Session σ) (hs : s.buffer = []) :
    (∀ (lines : List Text) (last : Text), hook.IgnoresLog ∨ s.compiler.logsGaps = false →
      (∀ fed ∈ (s.feedLines hook lines).1, fed.pending = true) →
      let text := joinLines (lines ++ [last])
      let one := (s.feedLines hook lines).2.feed hook last
      let all := s.feed hook text
      one.1 = all.1 ∧ one.2.SameButLog all.2 ∧
        (hook.LeavesCompiler → one.1.pending = false → one.1.failure = none →
          ∃ c, outcome (compileAll text) s.compiler = (.ok one.1.out, c) ∧
            one.2.compiler.names = c.names)) ∧
    (∀ actions, (s.performAll hook actions).isPending = true ↔
      ∃ before line, actions = before ++ [.feed line] ∧
        ((s.performAll hook before).feed hook line).1.pending = true) ∧
    (∀ actions line,
      let before := s.performAll hook actions
      let fed := before.feed hook line
      (fed.1.pending = false → fed.2.buffer = []) ∧
        (fed.1.pending = true → fed.2.compiler.names = before.compiler.names)) := by
  refine ⟨fun lines last hlog hpending => ?_, isPending_performAll hs, fun actions line => ?_⟩
  · intro text one all
    obtain ⟨hsame, hgaps, hstate, htext⟩ := feedLines_pending hpending
    have heq : one.1 = all.1 ∧ one.2.SameButLog all.2 := by
      rcases hlog with hhook | hlogs
      · exact feed_sameButLog hhook hsame hstate (htext last)
      · have : one = all := feed_congr (hgaps hlogs) hstate (htext last)
        rw [this]
        exact ⟨rfl, .refl _, rfl, rfl⟩
    refine ⟨heq.1, heq.2, fun hhook hdone hfailure => ?_⟩
    rw [heq.1] at hdone hfailure ⊢
    obtain ⟨c, hcompile, hleft⟩ := compileAll_of_feed hhook hdone hfailure
    rw [extended, hs] at hcompile
    exact ⟨c, hcompile, heq.2.compiler.names.trans hleft.names⟩
  · exact ⟨buffer_feed, fun h => (feed_pending h).2.2.1.names⟩

/-- Two lines of one program, without a hook. -/
theorem feed_lines_nested_call :
    let s : Session Unit := { compiler := {}, hookState := () }
    let out : Sexp := Target.call (.ofName "g") [.ofName "x"]
      (Target.lambda ["rv0"] (Target.call (.ofName "f") [.ofName "rv0"] (.ofName "halt")))
    ((s.feedLines Hook.none ["(f (g"]).2.feed Hook.none "x))").1 = { out := [out] } ∧
      ∃ c, outcome (compileAll "(f (g\nx))") {} = (.ok [out], c) := by
  intro s out
  have hpending : ∀ fed ∈ (s.feedLines Hook.none ["(f (g"]).1, fed.pending = true := by
    decide +kernel
  have hfed : ((s.feedLines Hook.none ["(f (g"]).2.feed Hook.none "x))").1 = { out := [out] } := by
    decide +kernel
  obtain ⟨_, _, hcompile⟩ :=
    (feed_lines Hook.none s rfl).1 ["(f (g"] "x))" (Or.inl Hook.ignoresLog_none) hpending
  rw [hfed] at hcompile
  obtain ⟨c, hout, _⟩ := hcompile Hook.leavesCompiler_none rfl rfl
  exact ⟨hfed, c, hout⟩

/-- **Hooks may show.** A hook that converts sources of its own draws names in between, so the
outputs are not those of compiling the text. And a hook that looks at the log sees the gap of a
pending line twice, once for the line itself and once for the next one. -/
theorem feed_draws_names :
    (let s : Session Unit := { compiler := {}, hookState := () }
     let text : Text := "(f (g)) (f (g))"
     let fed := (s.feed Hook.converting text).1
     fed.pending = false ∧ fed.failure = none ∧
       (outcome (compileAll text) s.compiler).1.toOption ≠ some fed.out) ∧
    (let s : Session Unit := { compiler := { logsGaps := true }, hookState := () }
     let hook := Hook.watching 1
     (∀ fed ∈ (s.feedLines hook ["(f \x01"]).1, fed.pending = true) ∧
       ((s.feedLines hook ["(f \x01"]).2.feed hook "x)").1 ≠
         (s.feed hook (joinLines ["(f \x01", "x)"])).1) := by
  decide +kernel

end Session

end PassingStyle
