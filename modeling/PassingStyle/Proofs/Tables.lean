import PassingStyle.Command
import Mathlib.Data.List.Nodup

/-!
# Tables of commands

A table is a list, and what a name stands for is the first entry with it. As long
as no two entries have the same name, the order of the entries does not matter: a
name stands for a command exactly if the table has that entry. Definitions keep it
that way, since they refuse a name that is taken, also half-way through the
aliases of a command.

The second half says once what the first word of a line can lead to. A run is
defined by five cases, and everything about runs is said case by case.
-/

namespace PassingStyle

/-! ## Looking up a name -/

/-- A name that is looked up with success is the name of an entry. -/
theorem mem_of_lookup {β : Type} {l : List (Text × β)} {name : Text} {b : β}
    (h : l.lookup name = some b) : (name, b) ∈ l := by
  obtain ⟨l₁, l₂, rfl, -⟩ := List.lookup_eq_some_iff.mp h
  simp

/-- **Where names are distinct**, every entry is what its name stands for. -/
theorem lookup_eq_some_iff_of_nodup {β : Type} {l : List (Text × β)}
    (distinct : (l.map Prod.fst).Nodup) {name : Text} {b : β} :
    l.lookup name = some b ↔ (name, b) ∈ l := by
  refine ⟨mem_of_lookup, fun h => ?_⟩
  obtain ⟨l₁, l₂, rfl⟩ := List.append_of_mem h
  rw [List.map_append, List.map_cons, List.nodup_middle] at distinct
  refine List.lookup_eq_some_iff.mpr ⟨l₁, l₂, rfl, fun entry hentry => ?_⟩
  have hne : name ≠ entry.1 := fun heq =>
    (List.nodup_cons.mp distinct).1
      (List.mem_append_left _ (List.mem_map.mpr ⟨entry, hentry, heq.symm⟩))
  simpa using hne

/-- A name is looked up with success exactly if an entry has it. -/
theorem isSome_lookup_iff {β : Type} {l : List (Text × β)} {name : Text} :
    (l.lookup name).isSome = true ↔ name ∈ l.map Prod.fst := by
  rw [List.lookup_isSome_iff, List.mem_map]
  exact exists_congr fun entry => and_congr_right fun _ => by rw [beq_iff_eq, eq_comm]

namespace Commands

variable {σ ε : Type}

/-- The names that a table has commands for. -/
def names (table : Commands σ ε) : List Text := table.map Prod.fst

@[simp] theorem names_append (table more : Commands σ ε) :
    names (table ++ more) = names table ++ names more :=
  List.map_append

/-! ## Tables that definitions make -/

/-- One command under several names, as entries of a table. -/
def under (command : Command σ ε) (names : List Text) : Commands σ ε :=
  names.map fun name => (name, some command)

@[simp] theorem names_under (command : Command σ ε) (ns : List Text) :
    names (under command ns) = ns := by
  simp [names, under, Function.comp_def]

/-- The entries of several definitions: each command under its name and its
aliases. -/
def entriesOf (defs : List (Text × Command σ ε)) : Commands σ ε :=
  defs.flatMap fun d => under d.2 (d.1 :: d.2.aliases)

/-- Among the names of the entries are those of the definitions, in order. -/
theorem sublist_names_entriesOf (defs : List (Text × Command σ ε)) :
    (defs.map Prod.fst).Sublist (names (entriesOf defs)) := by
  induction defs with
  | nil => exact .slnil
  | cons d defs ih =>
    have hnames : names (entriesOf (d :: defs))
        = d.1 :: (d.2.aliases ++ names (entriesOf defs)) := by
      simp [entriesOf]
    rw [hnames]
    exact .cons_cons _ (ih.trans (List.sublist_append_right _ _))

/-- Adding a command under several names, as far as it comes, keeps names
distinct. -/
theorem nodup_addAll {command : Command σ ε} {ns : List Text} {table : Commands σ ε}
    (distinct : (names table).Nodup) : (names (addAll command ns table).1).Nodup := by
  induction ns generalizing table with
  | nil => exact distinct
  | cons name ns ih =>
    rw [addAll]
    split
    · exact distinct
    · rename_i hfree
      refine ih ?_
      rw [isSome_lookup_iff] at hfree
      rw [names_append]
      refine distinct.append (List.nodup_singleton name) ?_
      exact List.disjoint_singleton.mpr hfree

/-- What is added is entries of the command. -/
theorem mem_addAll {command : Command σ ε} {ns : List Text} {table : Commands σ ε}
    {entry : Text × Option (Command σ ε)} (h : entry ∈ (addAll command ns table).1) :
    entry ∈ table ∨ entry.2 = some command := by
  induction ns generalizing table with
  | nil => exact .inl h
  | cons name ns ih =>
    rw [addAll] at h
    split at h
    · exact .inl h
    · rcases ih h with h | h
      · rcases List.mem_append.mp h with h | h
        · exact .inl h
        · exact .inr (by rw [List.mem_singleton.mp h])
      · exact .inr h

/-- If no name was taken, all entries of the command are there. -/
theorem addAll_eq {command : Command σ ε} {ns : List Text} {table table' : Commands σ ε}
    (h : addAll command ns table = (table', none)) : table' = table ++ under command ns := by
  induction ns generalizing table with
  | nil => simpa [addAll, under, eq_comm] using h
  | cons name ns ih =>
    rw [addAll] at h
    split at h
    · cases h
    · simpa [under] using ih h

/-- **What successful definitions make of a table**: it has their entries behind
its own, and all names are distinct if they were. -/
theorem defineAll_eq {defs : List (Text × Command σ ε)} {table table' : Commands σ ε}
    (h : defineAll table defs = (table', none)) :
    table' = table ++ entriesOf defs ∧ ((names table).Nodup → (names table').Nodup) := by
  induction defs generalizing table with
  | nil =>
    obtain rfl : table = table' := by simpa [defineAll] using h
    simp [entriesOf]
  | cons d defs ih =>
    obtain ⟨name, command⟩ := d
    rw [defineAll] at h
    split at h
    · cases h
    · rename_i added hadded
      rw [define] at hadded
      obtain ⟨htable', hnodup⟩ := ih h
      refine ⟨?_, fun distinct => hnodup ?_⟩
      · rw [htable', addAll_eq hadded]
        simp [entriesOf]
      · have hnames : (names (addAll command (name :: command.aliases) table).1).Nodup :=
          nodup_addAll distinct
        rwa [hadded] at hnames

/-- The names that every table starts with are distinct. -/
theorem nodup_standard (help : ε) : (names (standard (σ := σ) help)).Nodup :=
  nodup_addAll List.nodup_nil

/-- Every table starts with one command only, under several names. It fails, and
changes nothing. -/
theorem action_of_mem_standard {help : ε} {entry : Text × Option (Command σ ε)}
    (h : entry ∈ standard (σ := σ) help) :
    ∃ c : Command σ ε, entry.2 = some c ∧ c.subs = [] ∧
      c.action = some { run := fun _ state => (.error help, state) } := by
  rcases mem_addAll h with h | h
  · cases h
  · exact ⟨_, h, rfl, rfl⟩

/-! ## The first word of a line -/

section FirstWord

variable {visible : Commands σ ε} {word : Text} {rest : List Text} {state after : σ}
  {c : Command σ ε}

@[simp] theorem run_nil : run visible [] state = (.ok (), state) := by
  rw [run]

/-- A name without an entry ends the line. -/
theorem run_of_unknown (h : visible.lookup word.trim = none) :
    run visible (word :: rest) state = (.error (.unknown word.trim), state) := by
  rw [run, h]

/-- So does a name without a command behind it. -/
theorem run_of_announced (h : visible.lookup word.trim = some none) :
    run visible (word :: rest) state = (.error (.announced word.trim), state) := by
  rw [run, h]

/-- So does a command that fails. -/
theorem run_of_call_error {e : CommandError ε} (h : visible.lookup word.trim = some (some c))
    (hcall : c.call word.trim rest state = (.error e, after)) :
    run visible (word :: rest) state = (.error e, after) := by
  rw [run, h]
  simp only [hcall]

/-- So does a command whose sub commands cannot be added. -/
theorem run_of_reveal_error {e : CommandError ε} (h : visible.lookup word.trim = some (some c))
    (hcall : c.call word.trim rest state = (.ok (), after))
    (hreveal : c.reveal word.trim visible = .error e) :
    run visible (word :: rest) state = (.error e, after) := by
  rw [run, h]
  simp only [hcall, hreveal]

/-- Any other command leaves the line to what is behind its arguments. -/
theorem run_of_reveal {visible' : Commands σ ε} (h : visible.lookup word.trim = some (some c))
    (hcall : c.call word.trim rest state = (.ok (), after))
    (hreveal : c.reveal word.trim visible = .ok visible') :
    run visible (word :: rest) state = run visible' (rest.drop c.arity) after := by
  conv_lhs => rw [run, h]
  simp only [hcall, hreveal]

end FirstWord

end Commands

end PassingStyle
