import PassingStyle.Proofs.Tables
import Mathlib.Data.List.Find

/-!
# Which commands a line sees

A line sees the commands of its table, and while it runs also the sub commands of
those that have run. What is visible is therefore a matter of what happened so far,
and it is described here without any table that grows: a name resolves to a command
of the own table, or to a sub command of one of the commands that are done.

The description is right because a growing table never has a name twice. A command
that would bring a name in for the second time ends the line, and since it has run by
then, its effect stays. In particular nothing that has sub commands can run twice.

The tables of the definition are values, so nothing can happen to the one that a
line starts from. Whether that is true of tables in a memory, which are changed entry
by entry and are known by reference, depends on a copy being made at the right
moment. The last part runs lines on such tables: they do the same, and every table
that was there before a line is there after it, also when the line fails half-way
through the sub commands of a command.
-/

namespace PassingStyle

namespace Commands

variable {σ ε : Type}

/-! ## Tables without gaps -/

/-- **A table that is whole**, down to the sub commands of its sub commands: no name
occurs twice, and none is announced without a command behind it. -/
inductive IsWhole : Commands σ ε → Prop
  | mk {table : Commands σ ε} (distinct : (names table).Nodup)
      (real : ∀ name, (name, none) ∉ table)
      (subs : ∀ name c, (name, some c) ∈ table → IsWhole c.subs) : IsWhole table

namespace IsWhole

variable {table more : Commands σ ε}

theorem distinct (whole : IsWhole table) : (names table).Nodup := by
  cases whole with | mk distinct _ _ => exact distinct

theorem real (whole : IsWhole table) (name : Text) : (name, none) ∉ table := by
  cases whole with | mk _ real _ => exact real name

theorem subs (whole : IsWhole table) {name : Text} {c : Command σ ε}
    (h : (name, some c) ∈ table) : IsWhole c.subs := by
  cases whole with | mk _ _ subs => exact subs name c h

theorem nil : IsWhole ([] : Commands σ ε) :=
  .mk List.nodup_nil (by simp) (by simp)

/-- Every entry of a whole table has a command. -/
theorem exists_command (whole : IsWhole table) {entry : Text × Option (Command σ ε)}
    (h : entry ∈ table) : ∃ c, entry = (entry.1, some c) := by
  obtain ⟨name, _ | c⟩ := entry
  · exact absurd h (whole.real name)
  · exact ⟨c, rfl⟩

/-- Whole tables without a common name make a whole table. -/
theorem append (whole : IsWhole table) (whole' : IsWhole more)
    (apart : (names table).Disjoint (names more)) : IsWhole (table ++ more) := by
  refine .mk ?_ (fun name h => ?_) fun name c h => ?_
  · rw [names_append]
    exact whole.distinct.append whole'.distinct apart
  · exact (List.mem_append.mp h).elim (whole.real name) (whole'.real name)
  · exact (List.mem_append.mp h).elim whole.subs whole'.subs

/-- The sub commands of a command in a whole table can be added to it, if their names
are free. -/
theorem append_subs (whole : IsWhole table) {name : Text} {c : Command σ ε}
    (h : (name, some c) ∈ table)
    (free : ∀ sub ∈ c.subs, (table.lookup sub.1).isSome = false) :
    IsWhole (table ++ c.subs) := by
  refine whole.append (whole.subs h) fun n hn hsub => ?_
  obtain ⟨sub, hmem, rfl⟩ := List.mem_map.mp hsub
  exact Bool.eq_false_iff.mp (free sub hmem) (isSome_lookup_iff.mpr hn)

/-- A part of a whole table is whole. -/
theorem sublist (whole : IsWhole more) (h : table.Sublist more) : IsWhole table :=
  .mk (whole.distinct.sublist (h.map Prod.fst)) (fun name hmem => whole.real name (h.subset hmem))
    fun _ _ hmem => whole.subs (h.subset hmem)

end IsWhole

/-- **Definitions make whole tables** out of commands with whole sub tables. -/
theorem isWhole_defineAll {help : ε} {defs : List (Text × Command σ ε)}
    {table : Commands σ ε} (h : defineAll (standard help) defs = (table, none))
    (hsubs : ∀ d ∈ defs, IsWhole d.2.subs) : IsWhole table := by
  obtain ⟨htable, hnodup⟩ := defineAll_eq h
  have hentry {entry : Text × Option (Command σ ε)} (hmem : entry ∈ table) :
      ∃ c, entry.2 = some c ∧ IsWhole c.subs := by
    rw [htable] at hmem
    rcases List.mem_append.mp hmem with hmem | hmem
    · obtain ⟨c, hc, hnone, -⟩ := action_of_mem_standard hmem
      exact ⟨c, hc, hnone ▸ .nil⟩
    · obtain ⟨d, hd, hunder⟩ := List.mem_flatMap.mp hmem
      obtain ⟨name, -, rfl⟩ := List.mem_map.mp hunder
      exact ⟨d.2, rfl, hsubs d hd⟩
  refine .mk (hnodup (nodup_standard help)) (fun name hmem => ?_) fun name c hmem => ?_
  · obtain ⟨c, hc, -⟩ := hentry hmem
    cases hc
  · obtain ⟨c', hc, hwhole⟩ := hentry hmem
    obtain rfl := Option.some.inj hc
    exact hwhole

/-! ## Visible names -/

/-- **A name resolves to a command**, after some commands are done: it is in the own
table, or among the sub commands of one that is done. -/
def Resolves (own : Commands σ ε) (done : List (Command σ ε)) (name : Text)
    (c : Command σ ε) : Prop :=
  own.lookup name = some (some c) ∨ ∃ p ∈ done, p.subs.lookup name = some (some c)

/-- A command has a sub command whose name resolves already. -/
def Clashes (own : Commands σ ε) (done : List (Command σ ε)) (c : Command σ ε) : Prop :=
  ∃ sub ∈ c.subs, ∃ d, Resolves own done sub.1 d

/-- The table in which everything visible is. -/
def shown (own : Commands σ ε) (done : List (Command σ ε)) : Commands σ ε :=
  own ++ done.flatMap (·.subs)

@[simp] theorem shown_nil (own : Commands σ ε) : shown own [] = own := by
  simp [shown]

theorem shown_concat (own : Commands σ ε) (done : List (Command σ ε)) (c : Command σ ε) :
    shown own (done ++ [c]) = shown own done ++ c.subs := by
  simp [shown]

section Shown

variable {own : Commands σ ε} {done : List (Command σ ε)} {name : Text} {c : Command σ ε}

/-- **What a name resolves to is its entry in the visible table**, if that is
whole. -/
theorem resolves_iff (whole : IsWhole (shown own done)) :
    Resolves own done name c ↔ (shown own done).lookup name = some (some c) := by
  have hown : IsWhole own := whole.sublist (List.sublist_append_left _ _)
  have hsubs {p : Command σ ε} (hp : p ∈ done) : IsWhole p.subs := by
    refine whole.sublist (.trans ?_ (List.sublist_append_right _ _))
    rw [List.flatMap_def]
    exact List.sublist_flatten_of_mem (List.mem_map_of_mem hp)
  rw [lookup_eq_some_iff_of_nodup whole.distinct, Resolves,
    lookup_eq_some_iff_of_nodup hown.distinct, shown, List.mem_append, List.mem_flatMap]
  refine or_congr_right (exists_congr fun p => and_congr_right fun hp => ?_)
  exact lookup_eq_some_iff_of_nodup (hsubs hp).distinct

/-- A name is in the visible table exactly if it resolves. -/
theorem isSome_lookup_shown_iff (whole : IsWhole (shown own done)) :
    ((shown own done).lookup name).isSome = true ↔ ∃ c, Resolves own done name c := by
  simp only [resolves_iff whole]
  cases hlookup : (shown own done).lookup name with
  | none => simp
  | some entry =>
    cases entry with
    | none => exact absurd (mem_of_lookup hlookup) (whole.real name)
    | some c => simp

/-- Of the visible names, a command clashes with those of its sub commands. -/
theorem clashes_iff (whole : IsWhole (shown own done)) :
    Clashes own done c ↔ ∃ sub ∈ c.subs, ((shown own done).lookup sub.1).isSome = true := by
  simp only [isSome_lookup_shown_iff whole, Clashes]

/-- Commands that resolve have whole sub tables. -/
theorem IsWhole.subs_of_resolves (whole : IsWhole (shown own done))
    (h : Resolves own done name c) : IsWhole c.subs :=
  whole.subs (mem_of_lookup ((resolves_iff whole).mp h))

/-- **A command that is done makes the visible table grow**, and leaves it whole. -/
theorem IsWhole.shown_concat (whole : IsWhole (shown own done))
    (h : Resolves own done name c) (free : ¬ Clashes own done c) :
    IsWhole (shown own (done ++ [c])) := by
  rw [Commands.shown_concat]
  refine whole.append_subs (mem_of_lookup ((resolves_iff whole).mp h)) fun sub hsub => ?_
  rw [clashes_iff whole] at free
  exact Bool.eq_false_iff.mpr fun hsome => free ⟨sub, hsub, hsome⟩

end Shown

end Commands

namespace Command

variable {σ ε : Type} {c : Command σ ε} {name : Text} {visible : Commands σ ε}

/-- Sub commands with free names are added. -/
theorem reveal_of_free (free : ∀ sub ∈ c.subs, (visible.lookup sub.1).isSome = false) :
    c.reveal name visible = .ok (visible ++ c.subs) := by
  have hfind : c.subs.find? (fun sub => (visible.lookup sub.1).isSome) = none :=
    List.find?_eq_none.mpr fun sub hsub => by simp [free sub hsub]
  rw [reveal, hfind]

/-- They were free if the sub commands were added. -/
theorem reveal_eq_ok {visible' : Commands σ ε} (h : c.reveal name visible = .ok visible') :
    (∀ sub ∈ c.subs, (visible.lookup sub.1).isSome = false) ∧ visible' = visible ++ c.subs := by
  unfold reveal at h
  split at h
  · cases h
  · rename_i hfind
    have hfree := List.find?_eq_none.mp hfind
    exact ⟨fun sub hsub => Bool.eq_false_iff.mpr (hfree sub hsub), (Except.ok.inj h).symm⟩

/-- Otherwise the first taken one was complained about. -/
theorem reveal_eq_error {e : CommandError ε} (h : c.reveal name visible = .error e) :
    ∃ sub, c.subs.find? (fun sub => (visible.lookup sub.1).isSome) = some sub ∧
      e = .clash name sub.1 := by
  unfold reveal at h
  split at h
  · rename_i sub hfind
    exact ⟨sub, hfind, (Except.error.inj h).symm⟩
  · cases h

/-- Otherwise one of the names that are visible already is complained about. -/
theorem reveal_of_taken (name : Text)
    (taken : ∃ sub ∈ c.subs, (visible.lookup sub.1).isSome = true) :
    ∃ sub ∈ c.subs, (visible.lookup sub.1).isSome = true ∧
      c.reveal name visible = .error (.clash name sub.1) := by
  obtain ⟨sub, hfind⟩ := Option.isSome_iff_exists.mp (List.find?_isSome.mpr taken)
  have htaken : (visible.lookup sub.1).isSome = true := by
    simpa only using List.find?_some hfind
  exact ⟨sub, List.mem_of_find?_eq_some hfind, htaken, by rw [reveal, hfind]⟩

end Command

namespace Commands

variable {σ ε : Type}

/-! ## The steps of a line -/

/-- **What a line comes to**: after it was started with some words and a state, the
commands that are done, the words that are left, and the state. The next word has to
resolve, the command to succeed, and its sub commands to be new. -/
inductive Reaches (own : Commands σ ε) (words : List Text) (state : σ) :
    List (Command σ ε) → List Text → σ → Prop
  | start : Reaches own words state [] words state
  | step {done : List (Command σ ε)} {word : Text} {rest : List Text} {between after : σ}
      {c : Command σ ε} :
      Reaches own words state done (word :: rest) between →
      Resolves own done word.trim c →
      c.call word.trim rest between = (.ok (), after) →
      ¬ Clashes own done c →
      Reaches own words state (done ++ [c]) (rest.drop c.arity) after

/-- **How a line ends**, after some commands are done: no word is left, or the next
one does not resolve, or its command fails, or one of its sub commands is visible
already, which is found out once the command has run. -/
inductive Ends (own : Commands σ ε) (done : List (Command σ ε)) :
    List Text → σ → Except (CommandError ε) Unit × σ → Prop
  | accepted {state : σ} : Ends own done [] state (.ok (), state)
  | unknown {word : Text} {rest : List Text} {state : σ} :
      (∀ c, ¬ Resolves own done word.trim c) →
      Ends own done (word :: rest) state (.error (.unknown word.trim), state)
  | failed {word : Text} {rest : List Text} {state after : σ} {c : Command σ ε}
      {e : CommandError ε} :
      Resolves own done word.trim c →
      c.call word.trim rest state = (.error e, after) →
      Ends own done (word :: rest) state (.error e, after)
  | clash {word : Text} {rest : List Text} {state after : σ} {c d : Command σ ε}
      {sub : Text × Option (Command σ ε)} :
      Resolves own done word.trim c →
      c.call word.trim rest state = (.ok (), after) →
      sub ∈ c.subs → Resolves own done sub.1 d →
      Ends own done (word :: rest) state (.error (.clash word.trim sub.1), after)

section Steps

variable {own : Commands σ ε} {done : List (Command σ ε)} {word : Text} {rest left : List Text}
  {words : List Text} {state between after : σ} {c : Command σ ε}

/-- A word that does not resolve ends the line. -/
theorem run_shown_of_unresolved (whole : IsWhole (shown own done))
    (h : ∀ c, ¬ Resolves own done word.trim c) :
    run (shown own done) (word :: rest) state = (.error (.unknown word.trim), state) := by
  refine run_of_unknown (Option.not_isSome_iff_eq_none.mp ?_)
  rw [isSome_lookup_shown_iff whole]
  exact fun ⟨c, hc⟩ => h c hc

/-- So does a command that brings in a visible name, after it has run. -/
theorem run_shown_of_clashes (whole : IsWhole (shown own done))
    (hc : Resolves own done word.trim c)
    (hcall : c.call word.trim rest state = (.ok (), after)) (h : Clashes own done c) :
    ∃ sub ∈ c.subs, (∃ d, Resolves own done sub.1 d) ∧
      run (shown own done) (word :: rest) state
        = (.error (.clash word.trim sub.1), after) := by
  obtain ⟨sub, hsub, hsome, hreveal⟩ :=
    Command.reveal_of_taken word.trim ((clashes_iff whole).mp h)
  exact ⟨sub, hsub, (isSome_lookup_shown_iff whole).mp hsome,
    run_of_reveal_error ((resolves_iff whole).mp hc) hcall hreveal⟩

/-- **Any other command leaves the line to the words behind it**, with its sub
commands visible. -/
theorem run_shown_of_free (whole : IsWhole (shown own done))
    (hc : Resolves own done word.trim c)
    (hcall : c.call word.trim rest state = (.ok (), after)) (h : ¬ Clashes own done c) :
    run (shown own done) (word :: rest) state
      = run (shown own (done ++ [c])) (rest.drop c.arity) after := by
  rw [shown_concat]
  refine run_of_reveal ((resolves_iff whole).mp hc) hcall (Command.reveal_of_free ?_)
  intro sub hsub
  rw [clashes_iff whole] at h
  exact Bool.eq_false_iff.mpr fun hsome => h ⟨sub, hsub, hsome⟩

/-- **At every step the line goes on with what is visible then**, and no name is
visible twice. -/
theorem Reaches.run_eq (reached : Reaches own words state done left after)
    (whole : IsWhole own) :
    IsWhole (shown own done) ∧ run own words state = run (shown own done) left after := by
  induction reached with
  | start => simpa using whole
  | step reached hc hcall free ih =>
    obtain ⟨hwhole, hrun⟩ := ih
    exact ⟨hwhole.shown_concat hc free, hrun.trans (run_shown_of_free hwhole hc hcall free)⟩

/-- **Every line ends** at one of the points that it comes to. -/
theorem Reaches.exists_ends {done : List (Command σ ε)} {left : List Text} {between : σ}
    (reached : Reaches own words state done left between) (whole : IsWhole own) :
    ∃ done left between, Reaches own words state done left between ∧
      Ends own done left between (run own words state) := by
  obtain ⟨hwhole, hrun⟩ := reached.run_eq whole
  match left with
  | [] => exact ⟨done, [], between, reached, by rw [hrun, run_nil]; exact .accepted⟩
  | word :: rest =>
    by_cases hresolves : ∃ c, Resolves own done word.trim c
    · obtain ⟨c, hc⟩ := hresolves
      match hcall : c.call word.trim rest between with
      | (.error e, after) =>
        refine ⟨done, word :: rest, between, reached, ?_⟩
        rw [hrun, run_of_call_error ((resolves_iff hwhole).mp hc) hcall]
        exact .failed hc hcall
      | (.ok (), after) =>
        by_cases hclashes : Clashes own done c
        · obtain ⟨sub, hsub, ⟨d, hd⟩, hend⟩ := run_shown_of_clashes hwhole hc hcall hclashes
          refine ⟨done, word :: rest, between, reached, ?_⟩
          rw [hrun, hend]
          exact .clash hc hcall hsub hd
        · exact (reached.step hc hcall hclashes).exists_ends whole
    · refine ⟨done, word :: rest, between, reached, ?_⟩
      have hnone := not_exists.mp hresolves
      rw [hrun, run_shown_of_unresolved hwhole hnone]
      exact .unknown hnone
termination_by left.length
decreasing_by simp only [List.length_drop, List.length_cons]; omega

/-- **A command with sub commands does not run twice**: its own sub commands are
visible when it is named again. -/
theorem clashes_of_mem (whole : IsWhole (shown own done)) {name : Text}
    (hc : Resolves own done name c) (hdone : c ∈ done) (hsubs : c.subs ≠ []) :
    Clashes own done c := by
  have hwhole := whole.subs_of_resolves hc
  obtain ⟨sub, hsub⟩ := List.exists_mem_of_ne_nil _ hsubs
  obtain ⟨d, hd⟩ := hwhole.exists_command hsub
  refine ⟨sub, hsub, d, .inr ⟨c, hdone, ?_⟩⟩
  exact (lookup_eq_some_iff_of_nodup hwhole.distinct).mpr (hd ▸ hsub)

end Steps

/-- Lines one after the other, each on the same table. -/
def runAll (own : Commands σ ε) :
    List (List Text) → σ → List (Except (CommandError ε) Unit × σ)
  | [], _ => []
  | words :: lines, state => own.run words state :: runAll own lines (own.run words state).2

end Commands

/-! ## Tables in a memory -/

/-- **A memory of tables.** A table is known by its place, and is changed there. -/
abbrev Memory (σ ε : Type) := List (Commands σ ε)

namespace Memory

variable {σ ε : Type}

/-- The table at a place. -/
def table (memory : Memory σ ε) (place : Nat) : Commands σ ε :=
  memory[place]?.getD []

/-- **Adding sub commands one by one** to the table at a place, each with a look at
the table as it is by then. Those that were added before a clash stay. -/
def insertAll (name : Text) (place : Nat) :
    Commands σ ε → Memory σ ε → Except (CommandError ε) Unit × Memory σ ε
  | [], memory => (.ok (), memory)
  | sub :: subs, memory =>
    if ((memory.table place).lookup sub.1).isSome then (.error (.clash name sub.1), memory)
    else insertAll name place subs (memory.set place (memory.table place ++ [sub]))

/-- **Running a line on the table at a place.** The place is used as it is until the
first command with sub commands; these are added to a copy, at a place of its own,
which the line then goes on with. -/
def run (place : Nat) (words : List Text) (state : σ) (memory : Memory σ ε) :
    (Except (CommandError ε) Unit × σ) × Memory σ ε :=
  match words with
  | [] => ((.ok (), state), memory)
  | word :: rest =>
    match (memory.table place).lookup word.trim with
    | none => ((.error (.unknown word.trim), state), memory)
    | some none => ((.error (.announced word.trim), state), memory)
    | some (some c) =>
      match c.call word.trim rest state with
      | (.error e, state) => ((.error e, state), memory)
      | (.ok (), state) =>
        if c.subs.isEmpty then run place (rest.drop c.arity) state memory
        else
          match insertAll word.trim memory.length c.subs (memory ++ [memory.table place]) with
          | (.error e, memory) => ((.error e, state), memory)
          | (.ok (), memory') => run memory.length (rest.drop c.arity) state memory'
termination_by words.length
decreasing_by all_goals simp only [List.length_drop, List.length_cons]; omega

/-- Running lines one after the other on the table at a place. -/
def runAll (place : Nat) :
    List (List Text) → σ → Memory σ ε → List (Except (CommandError ε) Unit × σ) × Memory σ ε
  | [], _, memory => ([], memory)
  | words :: lines, state, memory =>
    let (result, memory) := run place words state memory
    let (results, memory) := runAll place lines result.2 memory
    (result :: results, memory)

@[simp] theorem table_concat (old : Memory σ ε) (t : Commands σ ε) :
    table (old ++ [t]) old.length = t := by
  simp [table]

/-- A sub command does not make the name of another visible. -/
theorem isSome_lookup_concat {t : Commands σ ε} {sub other : Text × Option (Command σ ε)}
    (h : other.1 ≠ sub.1) :
    ((t ++ [sub]).lookup other.1).isSome = (t.lookup other.1).isSome := by
  obtain ⟨key, entry⟩ := sub
  have hne : (other.1 == key) = false := by simpa using h
  simp only [List.lookup_append, List.lookup_cons, hne, List.lookup_nil, Option.or_none]

section InsertAll

variable (name : Text) (old : Memory σ ε) {t subs : Commands σ ε}

/-- Sub commands with distinct and free names are all added. -/
theorem insertAll_of_free (distinct : (Commands.names subs).Nodup)
    (free : ∀ sub ∈ subs, (t.lookup sub.1).isSome = false) :
    insertAll name old.length subs (old ++ [t]) = (.ok (), old ++ [t ++ subs]) := by
  induction subs generalizing t with
  | nil => simp [insertAll]
  | cons sub subs ih =>
    obtain ⟨hsub, hdistinct⟩ := List.nodup_cons.mp distinct
    obtain ⟨hfree, hrest⟩ := List.forall_mem_cons.mp free
    have hne {other} (h : other ∈ subs) : other.1 ≠ sub.1 := fun heq =>
      hsub (heq ▸ List.mem_map_of_mem h)
    rw [insertAll, table_concat, hfree, if_neg Bool.false_ne_true]
    have hset : (old ++ [t]).set old.length (t ++ [sub]) = old ++ [t ++ [sub]] := by simp
    rw [hset, ih hdistinct fun other h => by rw [isSome_lookup_concat (hne h), hrest other h]]
    simp

/-- Otherwise the first one whose name is taken is complained about, and only the
table that was being changed has changed. -/
theorem insertAll_of_taken (distinct : (Commands.names subs).Nodup)
    {sub : Text × Option (Command σ ε)}
    (taken : subs.find? (fun sub => (t.lookup sub.1).isSome) = some sub) :
    ∃ t', insertAll name old.length subs (old ++ [t])
      = (.error (.clash name sub.1), old ++ [t']) := by
  induction subs generalizing t with
  | nil => cases taken
  | cons head subs ih =>
    obtain ⟨hhead, hdistinct⟩ := List.nodup_cons.mp distinct
    have hne {other} (h : other ∈ subs) : other.1 ≠ head.1 := fun heq =>
      hhead (heq ▸ List.mem_map_of_mem h)
    rw [insertAll, table_concat]
    cases hlookup : (t.lookup head.1).isSome with
    | true =>
      simp only [List.find?_cons, hlookup] at taken
      obtain rfl := Option.some.inj taken
      exact ⟨t, if_pos rfl⟩
    | false =>
      simp only [List.find?_cons, hlookup] at taken
      have hset : (old ++ [t]).set old.length (t ++ [head]) = old ++ [t ++ [head]] := by simp
      rw [if_neg Bool.false_ne_true, hset]
      refine ih hdistinct ?_
      rw [List.find?_congr fun other h => isSome_lookup_concat (hne h), taken]

end InsertAll

/-- **A line does the same in a memory**, and every table that was there before it is
there after it. -/
theorem run_eq {visible : Commands σ ε} (whole : visible.IsWhole) (words : List Text)
    (state : σ) {place : Nat} {memory : Memory σ ε}
    (h : memory[place]? = some visible) :
    ∃ memory', run place words state memory = (visible.run words state, memory') ∧
      memory <+: memory' := by
  induction visible, words, state using Commands.run.induct generalizing place memory with
  | case1 visible state => exact ⟨memory, by rw [run, Commands.run_nil], List.prefix_rfl⟩
  | case2 visible state word rest name hlookup =>
    refine ⟨memory, ?_, List.prefix_rfl⟩
    rw [Commands.run_of_unknown hlookup, run, table, h, Option.getD_some, hlookup]
  | case3 visible state word rest name hlookup =>
    refine ⟨memory, ?_, List.prefix_rfl⟩
    rw [Commands.run_of_announced hlookup, run, table, h, Option.getD_some, hlookup]
  | case4 visible state word rest name c hlookup e after hcall =>
    refine ⟨memory, ?_, List.prefix_rfl⟩
    rw [Commands.run_of_call_error hlookup hcall, run, table, h, Option.getD_some, hlookup]
    simp only [show c.call word.trim rest state = _ from hcall]
  | case5 visible state word rest name c hlookup after hcall e hreveal =>
    have hsubs := whole.subs (mem_of_lookup hlookup)
    obtain ⟨sub, hfind, rfl⟩ := Command.reveal_eq_error hreveal
    have hne : c.subs.isEmpty = false :=
      List.isEmpty_eq_false_iff.mpr (List.ne_nil_of_mem (List.mem_of_find?_eq_some hfind))
    -- The names that were added before the clash are in the copy only.
    obtain ⟨t', hinsert⟩ := insertAll_of_taken name memory hsubs.distinct hfind
    refine ⟨memory ++ [t'], ?_, List.prefix_append _ _⟩
    rw [Commands.run_of_reveal_error hlookup hcall hreveal, run, table, h, Option.getD_some,
      hlookup]
    simp only [show c.call word.trim rest state = _ from hcall, hne, Bool.false_eq_true,
      if_false, show insertAll word.trim _ _ _ = _ from hinsert]
  | case6 visible state word rest name c hlookup after hcall visible' hreveal ih =>
    have hmem := mem_of_lookup hlookup
    obtain ⟨hfree, rfl⟩ := Command.reveal_eq_ok hreveal
    rw [Commands.run_of_reveal hlookup hcall hreveal, run, table, h, Option.getD_some, hlookup]
    simp only [show c.call word.trim rest state = _ from hcall]
    cases hsubs : c.subs with
    | nil =>
      rw [hsubs, List.append_nil] at ih
      simpa using ih whole h
    | cons sub subs =>
      have hinsert := insertAll_of_free name memory
        (whole.subs hmem).distinct hfree
      rw [hsubs] at hinsert
      have hcopy : (memory ++ [visible ++ c.subs])[memory.length]? = some (visible ++ c.subs) := by
        simp
      obtain ⟨memory', hrun, hprefix⟩ := ih (whole.append_subs hmem hfree) hcopy
      refine ⟨memory', ?_, (List.prefix_append _ _).trans hprefix⟩
      rw [hsubs] at hrun
      simpa [show insertAll word.trim _ _ _ = _ from hinsert] using hrun

/-- What is at a place stays there if things are only put behind. -/
theorem getElem?_of_prefix {memory memory' : Memory σ ε} (h : memory <+: memory')
    {place : Nat} {t : Commands σ ε} (ht : memory[place]? = some t) :
    memory'[place]? = some t := by
  obtain ⟨more, rfl⟩ := h
  obtain ⟨hlt, -⟩ := List.getElem?_eq_some_iff.mp ht
  rw [List.getElem?_append_left hlt, ht]

/-- **Lines one after the other** do on the table at a place what each does on the
table as it was at first. -/
theorem runAll_eq {own : Commands σ ε} (whole : own.IsWhole) {place : Nat}
    (lines : List (List Text)) (state : σ) {memory : Memory σ ε}
    (h : memory[place]? = some own) :
    ∃ memory', runAll place lines state memory = (own.runAll lines state, memory') ∧
      memory <+: memory' := by
  induction lines generalizing state memory with
  | nil => exact ⟨memory, rfl, List.prefix_rfl⟩
  | cons words lines ih =>
    obtain ⟨between, hrun, hbetween⟩ := run_eq whole words state h
    have hplace : between[place]? = some own := getElem?_of_prefix hbetween h
    obtain ⟨memory', hrest, hprefix⟩ := ih (own.run words state).2 hplace
    refine ⟨memory', ?_, hbetween.trans hprefix⟩
    simp only [runAll, hrun, hrest, Commands.runAll]

end Memory

/-! ## Visibility -/

/-- **A line sees its own table and the sub commands of what has run in it.** Every
line ends at a point that it comes to, and at any such point it goes on with a table
in which a name stands for an entry of the own table, or for a sub command of a
command that is done, and for nothing else. The next word is refused if it means
nothing. If it means a command, that runs, and the line fails with its failure, or
else, if a name of a sub command has a meaning already, with a complaint about that;
so a command with sub commands that is named again makes the line fail. Whatever
happens, the table that the line was started with is left as it was, and the next line
starts from it again. -/
theorem Commands.run_sees_revealed {σ ε : Type} (own : Commands σ ε) (whole : IsWhole own) :
    (∀ words state, ∃ done left between, Reaches own words state done left between ∧
      Ends own done left between (run own words state)) ∧
    (∀ words state done left between, Reaches own words state done left between →
      ∃ visible, run own words state = run visible left between ∧
        ∀ name entry, visible.lookup name = some entry ↔
          ∃ c, entry = some c ∧ Resolves own done name c) ∧
    (∀ words state done word rest between,
      Reaches own words state done (word :: rest) between →
      ((∀ c, ¬ Resolves own done word.trim c) →
        run own words state = (.error (.unknown word.trim), between)) ∧
      ∀ c, Resolves own done word.trim c →
        (∀ e after, c.call word.trim rest between = (.error e, after) →
          run own words state = (.error e, after)) ∧
        (∀ after, c.call word.trim rest between = (.ok (), after) → Clashes own done c →
          ∃ sub ∈ c.subs, (∃ d, Resolves own done sub.1 d) ∧
            run own words state = (.error (.clash word.trim sub.1), after)) ∧
        (c ∈ done → c.subs ≠ [] → ∃ e after, run own words state = (.error e, after))) ∧
    (∀ place (memory : Memory σ ε), memory[place]? = some own → ∀ lines state,
      ∃ memory', memory.runAll place lines state = (runAll own lines state, memory') ∧
        memory <+: memory' ∧ memory'[place]? = some own) := by
  refine ⟨?ending, ?visible, ?step, ?memory⟩
  case ending => exact fun words state => Reaches.start.exists_ends whole
  case visible =>
    intro words state done left between reached
    obtain ⟨hwhole, hrun⟩ := reached.run_eq whole
    refine ⟨shown own done, hrun, fun name entry => ⟨fun h => ?_, ?_⟩⟩
    · obtain ⟨c, hc⟩ := hwhole.exists_command (mem_of_lookup h)
      obtain rfl : entry = some c := congrArg Prod.snd hc
      exact ⟨c, rfl, (resolves_iff hwhole).mpr h⟩
    · rintro ⟨c, rfl, hc⟩
      exact (resolves_iff hwhole).mp hc
  case step =>
    intro words state done word rest between reached
    obtain ⟨hwhole, hrun⟩ := reached.run_eq whole
    have hfails (c) (hc : Resolves own done word.trim c) (e after)
        (hcall : c.call word.trim rest between = (.error e, after)) :
        run own words state = (.error e, after) :=
      hrun.trans (run_of_call_error ((resolves_iff hwhole).mp hc) hcall)
    have hclash (c) (hc : Resolves own done word.trim c) (after)
        (hcall : c.call word.trim rest between = (.ok (), after)) (h : Clashes own done c) :
        ∃ sub ∈ c.subs, (∃ d, Resolves own done sub.1 d) ∧
          run own words state = (.error (.clash word.trim sub.1), after) :=
      hrun ▸ run_shown_of_clashes hwhole hc hcall h
    refine ⟨fun h => hrun.trans (run_shown_of_unresolved hwhole h),
      fun c hc => ⟨hfails c hc, hclash c hc, fun hdone hsubs => ?_⟩⟩
    match hcall : c.call word.trim rest between with
    | (.error e, after) => exact ⟨e, after, hfails c hc e after hcall⟩
    | (.ok (), after) =>
      obtain ⟨sub, -, -, hend⟩ :=
        hclash c hc after hcall (clashes_of_mem hwhole hc hdone hsubs)
      exact ⟨_, after, hend⟩
  case memory =>
    intro place memory h lines state
    obtain ⟨memory', hrun, hprefix⟩ := Memory.runAll_eq whole lines state h
    exact ⟨memory', hrun, hprefix, Memory.getElem?_of_prefix hprefix h⟩

/-- A command that counts, under a command that adds ten and is named twice. The
effect of the second time stays, and the next line does not see what the first one
has seen. -/
theorem Commands.run_sees_revealed_twice :
    let bar : Command Nat Unit := {
      label := "bar", action := some { run := fun _ n => (.ok (), n + 1) } }
    let foo : Command Nat Unit := {
      label := "foo", action := some { run := fun _ n => (.ok (), n + 10) }
      subs := [("bar", some bar)] }
    let own : Commands Nat Unit := ((standard ()).defineAll [("foo", foo)]).1
    let words : List Text := ["foo", "bar", "foo"]
    own.IsWhole ∧
    own.run words 0 = (.error (.clash "foo" "bar"), 21) ∧
    own.run ["bar"] 21 = (.error (.unknown "bar"), 21) ∧
    ∃ memory', (Memory.runAll 0 [words, ["bar"]] 0 [own])
        = ([(.error (.clash "foo" "bar"), 21), (.error (.unknown "bar"), 21)], memory') ∧
      memory'[0]? = some own := by
  intro bar foo own words
  have hbar : IsWhole bar.subs := .nil
  have hfoo : IsWhole foo.subs := by
    refine .mk (List.nodup_singleton _) (by simp [foo]) fun name c h => ?_
    obtain ⟨rfl, rfl⟩ : name = "bar" ∧ c = bar := by simpa [foo] using h
    exact hbar
  have whole : own.IsWhole :=
    isWhole_defineAll (Prod.ext rfl (by decide +kernel)) (by simpa using hfoo)
  obtain ⟨-, -, steps, stays⟩ := run_sees_revealed own whole
  have htrim : Text.trim "foo" = "foo" ∧ Text.trim "bar" = "bar" := by decide +kernel
  have hown : own.lookup ("foo" : Text) = some (some foo) := rfl
  have hfree : ¬ Clashes own [] foo := by
    rw [clashes_iff (by simpa using whole)]
    simp only [foo, List.mem_singleton, exists_eq_left, shown_nil]
    decide +kernel
  have reached : Reaches own words 0 [foo, bar] ["foo"] 11 := by
    have hstart : Reaches own words 0 [] words 0 := .start
    have hafterFoo : Reaches own words 0 [foo] ["bar", "foo"] 10 :=
      hstart.step (.inl (htrim.1 ▸ hown)) rfl hfree
    exact hafterFoo.step (.inr ⟨foo, by simp, htrim.2 ▸ rfl⟩) rfl (by simp [Clashes, bar])
  have hagain : Resolves own [foo, bar] (Text.trim "foo") foo := .inl (htrim.1 ▸ hown)
  have hline : own.run words 0 = (.error (.clash "foo" "bar"), 21) := by
    have hclashes : Clashes own [foo, bar] foo :=
      clashes_of_mem (reached.run_eq whole).1 hagain (by simp) (by simp [foo])
    obtain ⟨-, means⟩ := steps words 0 [foo, bar] "foo" [] 11 reached
    obtain ⟨sub, hsub, -, hrun⟩ := (means foo hagain).2.1 21 rfl hclashes
    obtain rfl : sub = (("bar" : Text), some bar) := by simpa [foo] using hsub
    rw [hrun, htrim.1]
  have hnext : own.run ["bar"] 21 = (.error (.unknown "bar"), 21) := by
    have hnone : ∀ c, ¬ Resolves own [] (Text.trim "bar") c := by
      rw [htrim.2]
      rintro c (h | ⟨p, hp, -⟩)
      · cases h
      · cases hp
    rw [(steps ["bar"] 21 [] "bar" [] 21 .start).1 hnone, htrim.2]
  obtain ⟨memory', hall, -, hplace⟩ := stays 0 [own] rfl [words, ["bar"]] 0
  refine ⟨whole, hline, hnext, memory', ?_, hplace⟩
  rw [hall, runAll, hline, runAll, hnext, runAll]

end PassingStyle
