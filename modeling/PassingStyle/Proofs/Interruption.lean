import PassingStyle.Dialogue
import PassingStyle.Proofs.Feeding

/-!
# Dropped expressions

An interrupt drops the expression that is open. What was typed of it should leave no trace, and
this is not obvious, because every line of it has been read, from its beginning, as often as a
line was added. But reading draws no name and calls no hook. The one thing it leaves behind is a
warning in the log for each gap that was skipped.

So the dialogue with the dropped lines is the one without them in which, at the point where they
stood, these warnings are written to the log (`Dialogue.run_dropped_eq`). What comes after can
tell the two apart by the warnings alone, and the only part of a session that may look for them
is the hook: one that objects to a long log will object earlier.

To set the warnings aside is to keep them from the hook, which then works with a log that has
none (`Hook.aside`). Then nothing of the difference is left. The two sessions have the same
buffer, hook and table, and compilers that are the same but for warnings,
`Compiler.SameButGaps`; compilers of that kind work alike, whatever comes next.

The prompts that are set are not the same, since the dropped lines have set some. The last one
always tells whether an expression is open.
-/

namespace PassingStyle

open Text

namespace Compiler

/-! ## What does not depend on warnings -/

/-- The record warns of a skipped gap. -/
def isGapWarning (r : Record) : Bool :=
  r.level = .warn && r.message = "skipping unmatched input"

/-- **The same compiler but for warnings** of skipped gaps. -/
structure SameButGaps (c c' : Compiler) : Prop extends SameButLog c c' where
  /-- The logs are the same without the warnings. -/
  log : c.log.filter (!isGapWarning ·) = c'.log.filter (!isGapWarning ·)

namespace SameButGaps

theorem refl (c : Compiler) : SameButGaps c c := ⟨.refl c, rfl⟩

theorem symm {c c' : Compiler} (h : SameButGaps c c') : SameButGaps c' c :=
  ⟨h.toSameButLog.symm, h.log.symm⟩

theorem trans {c c₁ c' : Compiler} (h : SameButGaps c c₁) (h' : SameButGaps c₁ c') :
    SameButGaps c c' :=
  ⟨h.toSameButLog.trans h'.toSameButLog, h.log.trans h'.log⟩

end SameButGaps

end Compiler

/-- The reaction ends the dialogue. -/
def Reaction.isStop : Reaction → Bool
  | .stop _ => true
  | _ => false

namespace Dialogue

open Session

variable {σ : Type} {hook : Hook σ} {R : Compiler → Compiler → Prop}

/-! ## Dialogues that go alike -/

/-- **The dialogue is over** after these arrivals, or before the last of them was taken. -/
def isOver (hook : Hook σ) : List Arrival → Session σ → Bool
  | [], _ => false
  | a :: rest, s => (react hook a s).1.isStop || isOver hook rest (react hook a s).2

/-- A dialogue and its continuation as one. -/
def Transcript.append (t later : Transcript) : Transcript where
  stdout := t.stdout ++ later.stdout
  stderr := t.stderr ++ later.stderr
  prompts := t.prompts ++ later.prompts
  consumed := t.consumed + later.consumed
  failure := later.failure

/-- What comes after the first arrival can be divided as well. -/
theorem Transcript.after_append (t t₁ t₂ : Transcript) :
    t.after (t₁.append t₂) = (t.after t₁).append t₂ := by
  simp only [Transcript.after, Transcript.append, List.append_assoc, Nat.add_assoc]

/-- The dialogue goes on after an arrival that does not end it. -/
theorem run_cons {a : Arrival} {s : Session σ} (h : (react hook a s).1.isStop = false)
    (rest : List Arrival) : run hook (a :: rest) s =
      ((Reaction.transcript (react hook a s).1).after (run hook rest (react hook a s).2).1,
        (run hook rest (react hook a s).2).2) := by
  rw [run]
  rcases hreact : react hook a s with ⟨_ | _ | _ | _ | _, s₁⟩
  · rw [hreact] at h
    cases h
  all_goals rfl

/-- **A dialogue that is not over** goes on with the session that it has left. -/
theorem run_append {before : List Arrival} {s : Session σ} (h : isOver hook before s = false)
    (after : List Arrival) : run hook (before ++ after) s =
      ((run hook before s).1.append (run hook after (run hook before s).2).1,
        (run hook after (run hook before s).2).2) := by
  induction before generalizing s with
  | nil =>
    simp only [List.nil_append, run, Transcript.append, Nat.zero_add]
  | cons a before ih =>
    obtain ⟨hgoes, hrest⟩ := Bool.or_eq_false_iff.1 h
    rw [List.cons_append, run_cons hgoes, run_cons hgoes, ih hrest, Transcript.after_append]

namespace Drops

variable {s : Session σ} {before : List Arrival} {lines : List Text}

end Drops

/-- The same hook, shown the warning, objects to the call after the dropped lines. -/
example :
    let s : Session Unit := { compiler := { logsGaps := true }, hookState := () }
    let lines : List Arrival := [.line "(lambda (x)", .line "(f (h \x01 x))", .interrupt]
    (run (Hook.watching 0) (lines ++ [.line "(k y)"]) s).1.stdout = [] ∧
      (run (Hook.watching 0) [.line "(k y)"] s).1.stdout = "(k y halt)\n" := by
  decide +kernel

end Dialogue

end PassingStyle
