import PassingStyle.Proofs.Generated
import PassingStyle.Proofs.Steady
import PassingStyle.Session

/-!
# Conversions do not depend on what came before

What is left of earlier conversions is the table of names. It decides which names the next
conversion makes up, and the question is whether it decides anything else. It does not: from
any two tables an expression is refused for the same reason, or it is converted to programs
between which a permutation of generated names goes back and forth. The symbols of the
expression and the final continuation are in both programs as they were, and the two programs
have the same nameless form, unless the final continuation is `quote` or `lambda`. What is handed
to one of these words is no longer a value: it is data, or the parameters of a function, and
names that were drawn for it are part of that.

So a compiler that does not rename variables converts each of several expressions as it would
convert it alone, and so does a session, whatever was fed to it before. With renaming this is
different, because there a name of the source may be drawn anew in one run and not in the
other.
-/

namespace PassingStyle

/-! ## Two runs of a conversion -/

/-- **The same program but for generated names**: two programs that an expression `e` is
converted to, with the final continuation `halt`. -/
structure Sexp.SameButNames (e : Sexp) (halt : Text) (out out' : Sexp) : Prop where
  /-- A permutation of generated names takes one program to the other. It moves neither `halt`
  nor a symbol of the expression. -/
  relabelled : ∃ σ : Equiv.Perm Text, out.relabel σ = out' ∧ σ halt = halt ∧
    (∀ s ∈ e.symbols, σ s = s) ∧ ∀ x, σ x ≠ x → x.IsGenerated
  /-- Read as programs they have the same nameless form. -/
  nameless : (Sexp.symbol halt).TakesValue → out.nameless [] = out'.nameless []

/-- **The same result**: the same refusal, or the same program but for generated names. -/
def SameResult {ε : Type} (e : Sexp) (halt : Text) : Except ε Sexp → Except ε Sexp → Prop
  | .error f, .error f' => f = f'
  | .ok out, .ok out' => e.SameButNames halt out out'
  | _, _ => False

namespace Form

variable {isPrimitive : Text → Bool} {f : Form}

/-- **Two conversions of a form** draw equally many names. A permutation that takes the names
of one to those of the other takes one program to the other. -/
theorem Valid.convertProgram_relabel (hv : f.Valid isPrimitive) (halt : Text) (t t' : NameTable) :
    ∃ names names', Draws t names (f.convertProgram halt t).2 ∧
      Draws t' names' (f.convertProgram halt t').2 ∧ names.length = names'.length ∧
      ∀ σ : Equiv.Perm Text, f.Over (Sexp.Stays σ) → σ halt = halt → names.map σ = names' →
        (f.convertProgram halt t).1.relabel σ = (f.convertProgram halt t').1 ∧
        ((Sexp.symbol halt).TakesValue → (f.convertProgram halt t).1.Steady σ []) := by
  obtain ⟨names, hdraws, himage⟩ := hv.convertProgram_image halt t
  obtain ⟨names', hdraws', himage'⟩ := hv.convertProgram_image halt t'
  refine ⟨names, names', hdraws, hdraws', ?_⟩
  rcases himage with ⟨⟨params, first, rest, rfl⟩, himage⟩ | ⟨hnot, himage⟩
  · rcases himage' with ⟨_, himage'⟩ | ⟨hnot, _⟩
    · obtain ⟨hlength, hrelabel⟩ := himage.relabel himage'
      exact ⟨hlength, fun σ hf _ hnames => ⟨hrelabel hf hnames, fun _ =>
        himage.steady σ.injective hv hf hdraws.numbered⟩⟩
    · exact absurd rfl (hnot params first rest)
  · rcases himage' with ⟨⟨params, first, rest, rfl⟩, _⟩ | ⟨_, himage'⟩
    · exact absurd rfl (hnot params first rest)
    · obtain ⟨hlength, hrelabel⟩ := himage.relabel himage'
      refine ⟨hlength, fun σ hf hhalt hnames => ⟨hrelabel hf ?_ hnames, fun htakes => ?_⟩⟩
      · rw [Sexp.relabel_symbol, hhalt]
      · exact himage.steady σ.injective hv hf hdraws.numbered htakes
          (.symbol σ.injective (Or.inr (Sexp.stays_symbol.2 hhalt)))

/-- **Two conversions of a form** are the same but for generated names, if `halt` and the
symbols of the form are taken in both tables. -/
theorem Valid.convertProgram_same (hv : f.Valid isPrimitive) (halt : Text) {t t' : NameTable}
    (ht : ∀ s, s = halt ∨ s ∈ f.symbols → (s, programNames) ∈ t.taken)
    (ht' : ∀ s, s = halt ∨ s ∈ f.symbols → (s, programNames) ∈ t'.taken) :
    f.toSexp.SameButNames halt (f.convertProgram halt t).1 (f.convertProgram halt t').1 := by
  obtain ⟨names, names', hdraws, hdraws', hlength, hrelabel⟩ := hv.convertProgram_relabel halt t t'
  obtain ⟨σ, hnames, hmoved⟩ := exists_perm_map hlength hdraws.nodup hdraws'.nodup
  -- what is moved was drawn in one of the runs, so it was free in one of the tables
  have hkeep : ∀ s, s = halt ∨ s ∈ f.symbols → σ s = s := fun s hs => by
    by_contra hne
    rcases hmoved s hne with hin | hin
    · exact hdraws.fresh s hin (ht s hs)
    · exact hdraws'.fresh s hin (ht' s hs)
  have hwords : Words (Sexp.Stays σ) := .stays fun x hx => by
    by_contra hne
    exact hx ((hmoved x hne).elim (hdraws.numbered x) (hdraws'.numbered x))
  obtain ⟨hout, hsteady⟩ := hrelabel σ ⟨hwords, Sexp.over_stays fun s hs => hkeep s (Or.inr hs)⟩
    (hkeep halt (Or.inl rfl)) hnames
  refine ⟨⟨σ, hout, hkeep halt (Or.inl rfl), fun s hs => hkeep s (Or.inr hs), fun x hx => ?_⟩,
    fun htakes => ?_⟩
  · exact (hmoved x hx).elim (isGenerated_of_draws hdraws x) (isGenerated_of_draws hdraws' x)
  · have := hsteady htakes [] fun x hx => absurd hx List.not_mem_nil
    rw [hout] at this
    exact this.symm

end Form

namespace Convert

/-- **From any two tables** a program has the same result. -/
theorem program_same (isPrimitive : Text → Bool) (e : Sexp) (halt : Text) (t t' : NameTable) :
    SameResult e halt ((program isPrimitive e halt).outcome t).1
      ((program isPrimitive e halt).outcome t').1 := by
  have hrun : ∀ t, ((program isPrimitive e halt).outcome t).1 =
      (Form.analyse isPrimitive e).map fun f =>
        (f.convertProgram halt (t.reserve programNames (Sexp.symbolsList [e, .symbol halt]))).1 := by
    intro t
    unfold program analyse
    cases Form.analyse isPrimitive e <;> rfl
  rw [hrun, hrun]
  cases hf : Form.analyse isPrimitive e with
  | error err => exact rfl
  | ok f =>
    obtain ⟨hv, hwritten⟩ := Form.analyse_eq_ok isPrimitive e f hf
    have htaken : ∀ t : NameTable, ∀ s, s = halt ∨ s ∈ f.symbols → (s, programNames) ∈
        (t.reserve programNames (Sexp.symbolsList [e, .symbol halt])).taken := by
      intro t s hs
      refine NameTable.mem_taken_reserve.2 (Or.inr ⟨rfl, ?_⟩)
      rw [Form.symbols, hwritten] at hs
      simpa [or_comm] using hs
    have := hv.convertProgram_same halt (htaken t) (htaken t')
    rwa [hwritten] at this

end Convert

/-! ## Expressions that are converted one after the other -/

namespace Compiler

/-- What a compiler makes of the result of a conversion: a refusal is a failure, and where
conversions are logged there must be something to show. -/
def finish (logs : Bool) (e : Sexp) : Except FormError Sexp → Except Failure Sexp
  | .error err => .error (.refused err)
  | .ok out =>
    if logs = true ∧ (e = .absent ∨ out = .absent) then .error .nothingToShow else .ok out

/-- **A compiler that does not rename variables** converts an expression and finishes the
result. -/
theorem outcome_convert {c : Compiler} (halpha : c.settings.alphatize = false) (e : Sexp) :
    (outcome (convert e) c).1 = finish c.logsConversions e
      ((Convert.program c.settings.primitives.contains e c.settings.finalCont).outcome c.names).1 := by
  have hprepare : outcome (prepare e) c = (.ok e, c) := by
    show outcome (if c.settings.alphatize then _ else _ : Compile Sexp) c = _
    rw [halpha]
    rfl
  unfold convert
  rw [outcome_bind, hprepare]
  show (outcome (drawing (Convert.program c.settings.primitives.contains e c.settings.finalCont) >>=
    fun out => logConversion "transformed" e out >>= fun _ => pure out) c).1 = _
  rw [outcome_bind, outcome_drawing]
  rcases (Convert.program c.settings.primitives.contains e c.settings.finalCont).outcome
    c.names with ⟨err | out, t⟩
  · rfl
  · show (outcome (logConversion "transformed" e out >>= fun _ => pure out) { c with names := t }).1 = _
    rw [outcome_bind]
    have hlog := outcome_logConversion "transformed" e out { c with names := t }
    rcases hrun : outcome (logConversion "transformed" e out) { c with names := t } with ⟨f | _, c₁⟩
    all_goals
      rw [hrun] at hlog
      rw [finish]
    · split_ifs at hlog ⊢ with h
      · exact congrArg Except.error (Except.error.inj hlog)
    · split_ifs at hlog ⊢ with h
      · rfl

/-- **Alone**: an expression is converted by a compiler that has not done anything before, but
whose table is `t`. -/
def alone (settings : Settings) (logs : Bool) (t : NameTable) (e : Sexp) : Except Failure Sexp :=
  (outcome (convert e) { settings, logsConversions := logs, names := t }).1

/-- Results that are the same are the same when they are finished. -/
theorem finish_same {e : Sexp} {halt : Text} (logs : Bool) :
    ∀ {r r' : Except FormError Sexp}, SameResult e halt r r' →
      SameResult e halt (finish logs e r) (finish logs e r')
  | .error _, .error _, h => congrArg Failure.refused h
  | .ok out, .ok out', h => by
    have habsent : out' = .absent ↔ out = .absent := by
      obtain ⟨⟨σ, rfl, _⟩, _⟩ := h
      cases out <;> simp [Sexp.relabel]
    simp only [finish, habsent]
    split
    · exact rfl
    · exact h

variable {c : Compiler}

/-- **A conversion has the same result as alone.** -/
theorem convert_same_alone (halpha : c.settings.alphatize = false) (t : NameTable) (e : Sexp) :
    SameResult e c.settings.finalCont (outcome (convert e) c).1
      (alone c.settings c.logsConversions t e) := by
  have halone := outcome_convert
    (c := { settings := c.settings, logsConversions := c.logsConversions, names := t }) halpha e
  rw [alone, outcome_convert halpha, halone]
  exact finish_same _ (Convert.program_same _ e _ _ _)

/-- **Each as alone**: the expressions `es` were converted one after the other to `outs`, until
one of them failed, or until one was objected to after its conversion. Every one of them has
the result that it has alone. -/
inductive EachAlone (settings : Settings) (logs : Bool) (objects : Sexp → Sexp → Failure → Prop) :
    (es outs : List Sexp) → Option Failure → Prop
  /-- No expression is left. -/
  | nil : EachAlone settings logs objects [] [] none
  /-- The conversion fails, as it does alone. -/
  | failed {e : Sexp} {es : List Sexp} {f : Failure} :
      (∀ t, SameResult e settings.finalCont (.error f) (alone settings logs t e)) →
      EachAlone settings logs objects (e :: es) [] (some f)
  /-- The conversion is as it is alone, but it meets an objection. -/
  | objected {e out : Sexp} {es : List Sexp} {f : Failure} :
      (∀ t, SameResult e settings.finalCont (.ok out) (alone settings logs t e)) →
      objects e out f → EachAlone settings logs objects (e :: es) [] (some f)
  /-- The conversion is as it is alone. -/
  | converted {e out : Sexp} {es outs : List Sexp} {failure : Option Failure} :
      (∀ t, SameResult e settings.finalCont (.ok out) (alone settings logs t e)) →
      EachAlone settings logs objects es outs failure →
      EachAlone settings logs objects (e :: es) (out :: outs) failure

/-- **All as alone**, where nobody objects: the outputs that are lost by a failure would have
been as alone too. -/
def AllAlone (settings : Settings) (logs : Bool) (es : List Sexp) :
    Except Failure (List Sexp) → Prop
  | .ok outs => EachAlone settings logs (fun _ _ _ => False) es outs none
  | .error f => ∃ outs, EachAlone settings logs (fun _ _ _ => False) es outs (some f)

/-- **Several expressions** are converted each as alone. -/
theorem convertAll_alone (halpha : c.settings.alphatize = false) (es : List Sexp) :
    AllAlone c.settings c.logsConversions es (outcome (convertAll es) c).1 := by
  induction es generalizing c with
  | nil => exact .nil
  | cons e es ih =>
    have halone := fun t => convert_same_alone halpha t e
    have hkeeps := KeepsSettings.convert e c
    unfold convertAll
    rw [List.mapM_cons, outcome_bind]
    rcases hrun : outcome (convert e) c with ⟨f | out, c₁⟩
    all_goals rw [hrun] at halone hkeeps
    · exact ⟨[], .failed halone⟩
    · obtain ⟨hsettings, hlogs⟩ := hkeeps
      have ih := ih (c := c₁) (by rw [hsettings, halpha])
      rw [hsettings, hlogs] at ih
      show AllAlone _ _ _ (outcome (convertAll es >>= fun outs => pure (out :: outs)) c₁).1
      rw [outcome_bind]
      rcases hrest : outcome (convertAll es) c₁ with ⟨f | outs, c₂⟩
      all_goals rw [hrest] at ih
      · obtain ⟨outs, hes⟩ := ih
        exact ⟨out :: outs, .converted halone hes⟩
      · exact .converted halone ih

/-- **A text** is compiled expression by expression, each as alone. -/
theorem compileAll_alone (halpha : c.settings.alphatize = false) {text : Text} {es : List Sexp}
    {c₁ : Compiler} (hread : outcome (readAll text) c = (.ok es, c₁)) :
    AllAlone c.settings c.logsConversions es (outcome (compileAll text) c).1 := by
  obtain ⟨hsettings, hlogs⟩ := KeepsSettings.readAll text c
  rw [hread] at hsettings hlogs
  unfold compileAll
  rw [outcome_bind, hread]
  have := convertAll_alone (c := c₁) (by rw [hsettings, halpha]) es
  rwa [hsettings, hlogs] at this

end Compiler

/-! ## Sessions -/

namespace Hook

variable {σ : Type}

/-- **A hook keeps the settings** of the session's compiler, whatever it does else. -/
def KeepsSettings (hook : Hook σ) : Prop :=
  ∀ e out state, ((hook e out).run.run state).2.1.settings = state.1.settings ∧
    ((hook e out).run.run state).2.1.logsConversions = state.1.logsConversions

/-- A hook objects to a conversion if it fails in some state. -/
def Objects (hook : Hook σ) (e out : Sexp) (f : Failure) : Prop :=
  ∃ state, ((hook e out).run.run state).1 = .error f

/-- The hook that does nothing keeps everything. -/
theorem keepsSettings_none : KeepsSettings Hook.none := fun _ _ _ => ⟨rfl, rfl⟩

end Hook

namespace Session

open Compiler

variable {σ : Type} {hook : Hook σ}

/-- **The expressions of one line** are converted each as alone. -/
theorem convertEach_alone (hhook : hook.KeepsSettings) (es : List Sexp) (state : Compiler × σ)
    (halpha : state.1.settings.alphatize = false) :
    EachAlone state.1.settings state.1.logsConversions hook.Objects es
      (convertEach hook es state).1.1 (convertEach hook es state).1.2 := by
  induction es generalizing state with
  | nil => exact .nil
  | cons e es ih =>
    obtain ⟨c, hookState⟩ := state
    have halone := fun t => convert_same_alone halpha t e
    have hkeeps := Compiler.KeepsSettings.convert e c
    unfold convertEach
    unfold outcome at halone hkeeps
    rcases hrun : StateT.run (ExceptT.run (convert e)) c with ⟨f | out, c₁⟩
    all_goals rw [hrun] at halone hkeeps
    · exact .failed halone
    · dsimp only
      have hkept := hhook e out (c₁, hookState)
      rcases hhooked : StateT.run (ExceptT.run (hook e out)) (c₁, hookState) with ⟨f | ⟨⟩, state⟩
      all_goals rw [hhooked] at hkept
      · exact .objected halone ⟨_, by rw [hhooked]⟩
      · have hsettings := hkept.1.trans hkeeps.1
        have hlogs := hkept.2.trans hkeeps.2
        have ih := ih state (by rw [hsettings, halpha])
        rw [hsettings, hlogs] at ih
        exact .converted halone ih

/-- **A line that completes expressions** has each of them converted as alone, whatever was fed
to the session before. -/
theorem feed_alone (hhook : hook.KeepsSettings) {s : Session σ} {line : Text} {es : List Sexp}
    {c₁ : Compiler} (halpha : s.compiler.settings.alphatize = false)
    (hread : outcome (readAll (s.extended line)) s.compiler = (.ok es, c₁)) :
    EachAlone s.compiler.settings s.compiler.logsConversions hook.Objects es
      (s.feed hook line).1.out (s.feed hook line).1.failure := by
  obtain ⟨hsettings, hlogs⟩ := Compiler.KeepsSettings.readAll (s.extended line) s.compiler
  rw [hread] at hsettings hlogs
  have heach := convertEach_alone hhook es (c₁, s.hookState) (by rw [hsettings, halpha])
  rw [hsettings, hlogs] at heach
  unfold outcome at hread
  unfold feed
  dsimp only
  rw [hread]
  exact heach

end Session

/-- **A conversion does not depend on what came before.**

From any two tables an expression is refused for the same reason, or it is converted to
programs that are the same but for generated names; unless the final continuation is `quote` or
`lambda` they have the same nameless form. So a compiler that does not rename variables compiles every
expression of a text as it would compile it alone, with any table, and a session does so with
every expression that a line completes, whatever was fed to it before. -/
theorem history_independence :
    (∀ (isPrimitive : Text → Bool) (e : Sexp) (halt : Text) (t t' : NameTable),
      SameResult e halt ((Convert.program isPrimitive e halt).outcome t).1
        ((Convert.program isPrimitive e halt).outcome t').1) ∧
    (∀ (c c₁ : Compiler) (text : Text) (es : List Sexp), c.settings.alphatize = false →
      Compiler.outcome (Compiler.readAll text) c = (.ok es, c₁) →
      Compiler.AllAlone c.settings c.logsConversions es
        (Compiler.outcome (Compiler.compileAll text) c).1) ∧
    ∀ {σ : Type} (hook : Hook σ) (s : Session σ) (line : Text) (es : List Sexp) (c₁ : Compiler),
      hook.KeepsSettings → s.compiler.settings.alphatize = false →
      Compiler.outcome (Compiler.readAll (s.extended line)) s.compiler = (.ok es, c₁) →
      Compiler.EachAlone s.compiler.settings s.compiler.logsConversions hook.Objects es
        (s.feed hook line).1.out (s.feed hook line).1.failure :=
  ⟨Convert.program_same, fun _ _ _ _ halpha hread => Compiler.compileAll_alone halpha hread,
    fun _ _ _ _ _ hhook halpha hread => Session.feed_alone hhook halpha hread⟩

/-- The program `(f (g x))`, whose conversion draws `rv0`, and `(h (g y))` after it, in one text
and in two lines of a session. -/
theorem history_independence_two_calls :
    let call (f x rv : String) : Sexp := Target.call (.ofName "g") [.ofName x]
      (Target.lambda [Text.ofString rv] (Target.call (.ofName f) [.ofName rv] (.ofName "halt")))
    let second : Sexp := .list [.ofName "h", .list [.ofName "g", .ofName "y"]]
    (∃ first, Compiler.AllAlone {} false [first, second]
      (.ok [call "f" "x" "rv0", call "h" "y" "rv1"])) ∧
    Compiler.EachAlone {} false Hook.none.Objects [second] [call "h" "y" "rv1"] none := by
  intro call second
  -- for any text and any line, so that only the last steps have to compute
  have htext : ∀ (text : Text) {es outs : List Sexp},
      (Compiler.outcome (Compiler.readAll text) {}).1.toOption = some es →
      (Compiler.outcome (Compiler.compileAll text) {}).1.toOption = some outs →
      Compiler.AllAlone {} false es (.ok outs) := by
    intro text es outs hes houts
    obtain ⟨c₁, hread⟩ := Compiler.outcome_of_toOption hes
    obtain ⟨c₂, hout⟩ := Compiler.outcome_of_toOption houts
    have halone := history_independence.2.1 {} c₁ text es rfl hread
    rwa [hout] at halone
  have hline : ∀ (s : Session Unit) (line : Text) {es outs : List Sexp},
      s.compiler.settings = {} ∧ s.compiler.logsConversions = false →
      (Compiler.outcome (Compiler.readAll (s.extended line)) s.compiler).1.toOption = some es →
      (s.feed Hook.none line).1.out = outs ∧ (s.feed Hook.none line).1.failure = none →
      Compiler.EachAlone {} false Hook.none.Objects es outs none := by
    intro s line es outs hs hes hfed
    obtain ⟨c₁, hread⟩ := Compiler.outcome_of_toOption hes
    have halone := history_independence.2.2 Hook.none s line es c₁ Hook.keepsSettings_none
      (by rw [hs.1]) hread
    rwa [hfed.1, hfed.2, hs.1, hs.2] at halone
  refine ⟨⟨.list [.ofName "f", .list [.ofName "g", .ofName "x"]], ?_⟩, ?_⟩
  · exact htext "(f (g x)) (h (g y))" (by decide +kernel) (by decide +kernel)
  · exact hline (({ compiler := {}, hookState := () } : Session Unit).feed Hook.none "(f (g x))").2
      "(h (g y))" (by decide +kernel) (by decide +kernel) (by decide +kernel)

/-- The program `(begin (f) (lambda (x) x))` is converted twice, with `quote` and with `lambda` in
the place of the final continuation. The function is handed to that word, so its continuation
`k0` is `k1` in what is not read as a function: the nameless forms differ. -/
theorem history_tells_behind_keywords :
    let e : Sexp := .list [Keyword.sequence.sexp, .list [.ofName "f"],
      Target.lambda ["x"] (.ofName "x")]
    let run (halt : Text) := (Convert.program defaultPrimitives.contains e halt).outcome
    let Differs (halt : Text) : Prop := ∃ out out',
      (run halt .empty).1 = .ok out ∧ (run halt (run halt .empty).2).1 = .ok out' ∧
        out.nameless [] ≠ out'.nameless []
    Differs "quote" ∧ Differs "lambda" := by
  intro e run Differs
  let function (k : String) : Sexp :=
    Target.lambda ["x", Text.ofString k] (Target.pass (.ofName k) (.ofName "x"))
  let program (halt rv k : String) : Sexp := Target.call (.ofName "f") []
    (Target.lambda [Text.ofString rv] (Target.pass (.ofName halt) (function k)))
  refine ⟨⟨program "quote" "rv0" "k0", program "quote" "rv1" "k1", ?_, ?_, nofun⟩,
    ⟨program "lambda" "rv0" "k0", program "lambda" "rv1" "k1", ?_, ?_, nofun⟩⟩
  all_goals decide +kernel +zetaReduce

end PassingStyle
