import PassingStyle.CommandLine
import PassingStyle.Proofs.Tables
import Mathlib.Data.List.Pairwise

/-!
# Command lines compose

Where the arguments of a command end is known only once the command is: a word is
an argument or a name by its position alone, whatever it looks like. So a line can
be cut between two words without being cut between two commands, and then the
first half complains about a missing argument that the second half would have
supplied.

This is the only obstacle. A command that has run does not look at the words behind
its arguments, and without sub commands it leaves the table alone, so a line that
is accepted, or refused for any other reason, has said everything about its own
words. Optional parameters are left out of this: they are content with the end of
the line, and change their mind if it goes on.

What a line does to variables follows. The commands of a variable are the only ones
that touch it, so its content at the end is made from the calls of these commands
alone, in their order: the last value for a variable or a switch, all of them for a
collection.
-/

namespace PassingStyle

open Text

/-! ## Arguments at the beginning of longer lines -/

namespace Parameter

variable {type : Parameter} {types : List Parameter} {words more : List Text}
  {values : List Argument}

/-- A required parameter misses its word at the end of a line. -/
theorem take_nil (required : type.isOptional = false) :
    type.take [] = .error (.missing type) := by
  cases type with
  | optional t => cases required
  | _ => rfl

/-- **Further words make no difference** to required parameters, unless there were
too few words. -/
theorem takeAll_append (required : ∀ type ∈ types, type.isOptional = false)
    (h : ∀ type, takeAll types words ≠ .error (.missing type)) :
    takeAll types (words ++ more) = takeAll types words := by
  induction types generalizing words with
  | nil => rfl
  | cons type types ih =>
    obtain ⟨htype, htypes⟩ := List.forall_mem_cons.mp required
    cases words with
    | nil => exact absurd (by rw [takeAll, take_nil htype]) (h type)
    | cons word words =>
      rw [List.cons_append]
      simp only [takeAll, take, List.tail_cons] at h ⊢
      cases hread : type.read word with
      | error e => rfl
      | ok v =>
        simp only [hread] at h
        rw [ih htypes fun t ht => h t (by rw [ht]; rfl)]

/-- **A required parameter that has a value took a word**, and left the others to the
parameters behind it. -/
theorem takeAll_cons_ok (required : type.isOptional = false)
    (h : takeAll (type :: types) words = .ok values) :
    ∃ word rest x xs, words = word :: rest ∧ type.read word = .ok x ∧
      takeAll types rest = .ok xs ∧ values = x :: xs := by
  rw [takeAll] at h
  cases words with
  | nil => rw [take_nil required] at h; cases h
  | cons word rest =>
    simp only [take, List.tail_cons] at h
    cases hread : type.read word with
    | error e => rw [hread] at h; cases h
    | ok x =>
      rw [hread] at h
      cases hrest : takeAll types rest with
      | error e => rw [hrest] at h; cases h
      | ok xs =>
        rw [hrest] at h
        exact ⟨word, rest, x, xs, rfl, hread, hrest, (Except.ok.inj h).symm⟩

/-- Required parameters that all have values took a word each. -/
theorem length_le_of_takeAll (required : ∀ type ∈ types, type.isOptional = false)
    (h : takeAll types words = .ok values) : types.length ≤ words.length := by
  induction types generalizing words values with
  | nil => simp
  | cons type types ih =>
    obtain ⟨htype, htypes⟩ := List.forall_mem_cons.mp required
    obtain ⟨word, rest, x, xs, rfl, -, hrest, -⟩ := takeAll_cons_ok htype h
    simpa using ih htypes hrest

/-- The value of a single required parameter is that of the first word. -/
theorem takeAll_singleton (required : type.isOptional = false)
    (h : takeAll [type] words = .ok values) :
    ∃ word x rest, words = word :: rest ∧ type.read word = .ok x ∧ values = [x] := by
  obtain ⟨word, rest, x, xs, hwords, hread, hrest, rfl⟩ := takeAll_cons_ok required h
  obtain rfl : [] = xs := by simpa [takeAll] using hrest
  exact ⟨word, x, rest, hwords, hread, rfl⟩

end Parameter

namespace Command

variable {σ ε : Type}

/-- **A plain command** has no sub commands, and needs a word for each of its
parameters. -/
structure IsPlain (c : Command σ ε) : Prop where
  /-- It makes no name visible. -/
  subs_eq : c.subs = []
  /-- None of its parameters may be left out. -/
  required : ∀ a, c.action = some a → ∀ type ∈ a.parameters, type.isOptional = false

/-- Whether a command is plain can be read off it. -/
instance (c : Command σ ε) : Decidable c.IsPlain :=
  decidable_of_iff
    (c.subs.isEmpty ∧ ∀ a ∈ c.action, ∀ type ∈ a.parameters, type.isOptional = false)
    ⟨fun h => ⟨List.isEmpty_iff.mp h.1, h.2⟩, fun h => ⟨List.isEmpty_iff.mpr h.1, h.2⟩⟩

namespace IsPlain

variable {c : Command σ ε} {name : Text} {words more : List Text} {state after : σ}

/-- A plain command leaves every table as it is. -/
theorem reveal_eq (plain : c.IsPlain) (visible : Commands σ ε) :
    c.reveal name visible = .ok visible := by
  simp [reveal, plain.subs_eq]

/-- **A plain command does the same at the beginning of a longer line**, unless it
misses an argument. -/
theorem call_append (plain : c.IsPlain)
    (h : ∀ type, c.call name words state ≠ (.error (.argument name (.missing type)), state)) :
    c.call name (words ++ more) state = c.call name words state := by
  unfold call at h ⊢
  cases haction : c.action with
  | none => rfl
  | some a =>
    simp only [haction] at h ⊢
    rw [Parameter.takeAll_append (plain.required a haction)]
    exact fun type htake => h type (by rw [htake])

/-- A plain command that runs has a word for each parameter. -/
theorem arity_le (plain : c.IsPlain) (h : c.call name words state = (.ok (), after)) :
    c.arity ≤ words.length := by
  unfold call at h
  unfold arity
  cases haction : c.action with
  | none => simp
  | some a =>
    simp only [haction] at h ⊢
    cases htake : Parameter.takeAll a.parameters words with
    | error e => rw [htake] at h; cases h
    | ok values => exact Parameter.length_le_of_takeAll (plain.required a haction) htake

end IsPlain

end Command

/-! ## A line in two parts -/

namespace Commands

variable {σ ε : Type}

/-- **A plain table** has plain commands only. -/
def IsPlain (table : Commands σ ε) : Prop :=
  ∀ entry ∈ table, ∀ c ∈ entry.2, c.IsPlain

instance (table : Commands σ ε) : Decidable (IsPlain table) :=
  inferInstanceAs (Decidable (∀ entry ∈ table, ∀ c ∈ entry.2, c.IsPlain))

theorem IsPlain.of_lookup {table : Commands σ ε} (plain : IsPlain table) {name : Text}
    {c : Command σ ε} (h : table.lookup name = some (some c)) : c.IsPlain :=
  plain _ (mem_of_lookup h) c rfl

/-- **A line goes on where its beginning ended.** If the beginning does not miss an
argument, the whole line does what the beginning does, and then, unless that was
refused, what the rest does. -/
theorem run_append {table : Commands σ ε} (plain : IsPlain table) {xs ys : List Text}
    {state : σ}
    (h : ∀ name type after,
      run table xs state ≠ (.error (.argument name (.missing type)), after)) :
    run table (xs ++ ys) state =
      match run table xs state with
      | (.ok (), after) => run table ys after
      | (.error e, after) => (.error e, after) := by
  induction table, xs, state using run.induct with
  | case1 table state => simp
  | case2 table state word rest name hlookup =>
    rw [List.cons_append, run_of_unknown hlookup, run_of_unknown hlookup]
  | case3 table state word rest name hlookup =>
    rw [List.cons_append, run_of_announced hlookup, run_of_announced hlookup]
  | case4 table state word rest name c hlookup e after hcall =>
    have hrun := run_of_call_error hlookup hcall
    have hcall' : c.call name (rest ++ ys) state = (.error e, after) := by
      rw [(plain.of_lookup hlookup).call_append, hcall]
      exact fun type heq => h name type state (hrun.trans (hcall.symm.trans heq))
    rw [List.cons_append, hrun, run_of_call_error hlookup hcall']
  | case5 table state word rest name c hlookup after hcall e hreveal =>
    rw [(plain.of_lookup hlookup).reveal_eq] at hreveal
    cases hreveal
  | case6 table state word rest name c hlookup after hcall visible hreveal ih =>
    obtain rfl : table = visible := by
      simpa [(plain.of_lookup hlookup).reveal_eq] using hreveal
    have hrun := run_of_reveal hlookup hcall hreveal
    have hcall' : c.call name (rest ++ ys) state = (.ok (), after) := by
      rw [(plain.of_lookup hlookup).call_append, hcall]
      simp [hcall]
    -- The arguments were all in the beginning, so what is left of it comes first.
    have hdrop : (rest ++ ys).drop c.arity = rest.drop c.arity ++ ys :=
      List.drop_append_of_le_length ((plain.of_lookup hlookup).arity_le hcall)
    rw [hrun] at h
    rw [List.cons_append, hrun, run_of_reveal hlookup hcall' hreveal, hdrop, ih plain h]

/-- **The calls that a line is made of**: the names in it, each with the words that
its command takes. -/
def calls (table : Commands σ ε) (words : List Text) : List (Text × List Text) :=
  match words with
  | [] => []
  | word :: rest =>
    match table.lookup word.trim with
    | some (some c) => (word.trim, rest.take c.arity) :: calls table (rest.drop c.arity)
    | _ => []
termination_by words.length
decreasing_by simp only [List.length_drop, List.length_cons]; omega

@[simp] theorem calls_nil (table : Commands σ ε) : calls table [] = [] := by
  rw [calls]

theorem calls_cons {table : Commands σ ε} {word : Text} {rest : List Text} {c : Command σ ε}
    (h : table.lookup word.trim = some (some c)) :
    calls table (word :: rest) =
      (word.trim, rest.take c.arity) :: calls table (rest.drop c.arity) := by
  rw [calls, h]

end Commands

/-! ## What calls do to a variable -/

namespace Variables

/-- An update changes the content of its variable, and of no other. -/
theorem lookup_update (vs : Variables) (name other : Text) (f : Content → Content) :
    (vs.update name f).lookup other =
      if other = name then (vs.lookup other).map f else vs.lookup other := by
  induction vs with
  | nil => simp [update]
  | cons entry vs ih =>
    obtain ⟨key, content⟩ := entry
    rw [update] at ih
    by_cases hother : other = key
    · subst hother
      by_cases hname : other = name <;> simp [update, hname]
    · have hkey : (other == key) = false := by simpa using hother
      by_cases hname : key = name
      · subst hname; simp [update, List.lookup_cons, hkey, hother, ih]
      · simp [update, List.lookup_cons, hkey, hname, ih]

end Variables

/-- **The content of a variable that was given some values**, one after the other:
a collection has them all, anything else the last of them. -/
def VariableKind.holding (content : Content) (values : List Argument) :
    VariableKind → Content
  | single _ | switch => (values.getLast?.map .one).getD content
  | collection _ => content.add values

/-- No values make no difference. -/
@[simp] theorem VariableKind.holding_nil (kind : VariableKind) (content : Content) :
    kind.holding content [] = content := by
  cases kind <;> cases content <;> simp [holding, Content.add]

/-- Values can be given in two parts. -/
theorem VariableKind.holding_append (kind : VariableKind) (content : Content)
    (xs ys : List Argument) :
    kind.holding content (xs ++ ys) = kind.holding (kind.holding content xs) ys := by
  cases kind with
  | single type | switch =>
    rcases List.eq_nil_or_concat ys with rfl | ⟨ys, y, rfl⟩
    · simp [holding]
    · simp [holding, ← List.append_assoc]
  | collection type => cases content <;> simp [holding, Content.add]

namespace Variable

/-- **The value that a call gives to the variable**, if it is a call of one of its
commands: the argument, the zero value, or what the switch is put to. -/
def given (v : Variable) (call : Text × List Text) : Option Argument :=
  match v.kind with
  | .single type =>
    if call.1 = v.name then call.2.head?.bind fun word => (type.read word).toOption
    else if call.1 = v.name ++ "." then some type.zero
    else none
  | .switch =>
    if call.1 = v.name then some (.bool true)
    else if call.1 = "!" ++ v.name then some (.bool false)
    else none
  | .collection type =>
    if call.1 = v.name then call.2.head?.bind fun word => (type.read word).toOption
    else none

variable {σ ε : Type} {onVariables : (Variables → Variables) → σ → σ}

/-- What the commands of a variable have in common: they change its content, and
have neither sub commands nor aliases. -/
theorem mem_commands {v : Variable} {d : Text × Command σ ε} (h : d ∈ v.commands onVariables) :
    ∃ parameters change, d.2 = v.command onVariables d.1 parameters change := by
  unfold commands at h
  cases hkind : v.kind with
  | single type | switch =>
    simp only [hkind, List.mem_cons, List.not_mem_nil, or_false] at h
    rcases h with rfl | rfl <;> exact ⟨_, _, rfl⟩
  | collection type =>
    simp only [hkind, List.mem_singleton] at h
    exact h ▸ ⟨_, _, rfl⟩

/-- The first command of a variable has its name. -/
theorem name_mem_names (v : Variable) :
    v.name ∈ (v.commands (ε := ε) onVariables).map Prod.fst := by
  unfold commands
  cases v.kind <;> simp

/-- Calls of other commands give a variable nothing. -/
theorem given_eq_none {v : Variable} {name : Text}
    (h : name ∉ (v.commands (ε := ε) onVariables).map Prod.fst) (words : List Text) :
    v.given (name, words) = none := by
  unfold commands at h
  unfold given
  cases hkind : v.kind with
  | single type | switch | collection type => simp_all

/-- A command of a variable runs once its arguments are read. -/
theorem call_command {v : Variable} {label name : Text} {parameters : List Parameter}
    {change : List Argument → Content → Content} {words : List Text} {state after : σ}
    (h : (v.command (ε := ε) onVariables label parameters change).call name words state
      = (.ok (), after)) :
    ∃ values, Parameter.takeAll parameters words = .ok values ∧
      after = onVariables (·.update v.name (change values)) state := by
  simp only [Command.call, command] at h
  cases htake : Parameter.takeAll parameters words with
  | error e => rw [htake] at h; cases h
  | ok values =>
    rw [htake] at h
    exact ⟨values, rfl, (Prod.mk.inj h).2.symm⟩

/-- **A call of a command of the variable** leaves the variable with the value that
the call gives to it. -/
theorem call_commands {v : Variable} {d : Text × Command σ ε}
    (hd : d ∈ v.commands onVariables) (plain : d.2.IsPlain) {name : Text} {words : List Text}
    {state after : σ} (h : d.2.call name words state = (.ok (), after)) :
    after = onVariables (·.update v.name fun content =>
      v.kind.holding content (v.given (d.1, words.take d.2.arity)).toList) state := by
  unfold commands at hd
  cases hkind : v.kind with
  | single type =>
    simp only [hkind, List.mem_cons, List.not_mem_nil, or_false] at hd
    rcases hd with rfl | rfl
    · obtain ⟨values, htake, rfl⟩ := call_command h
      obtain ⟨word, x, rest, rfl, hread, rfl⟩ := Parameter.takeAll_singleton
        (plain.required _ rfl type (List.mem_singleton.mpr rfl)) htake
      simp [given, hkind, command, Command.arity, hread, VariableKind.holding, assigned,
        Except.toOption]
    · obtain ⟨values, htake, rfl⟩ := call_command h
      simp [given, hkind, VariableKind.holding, show ofString "." ≠ [] by decide]
  | switch =>
    simp only [hkind, List.mem_cons, List.not_mem_nil, or_false] at hd
    rcases hd with rfl | rfl
    · obtain ⟨values, htake, rfl⟩ := call_command h
      simp [given, hkind, VariableKind.holding]
    · obtain ⟨values, htake, rfl⟩ := call_command h
      simp [given, hkind, VariableKind.holding, show ofString "!" ≠ [] by decide]
  | collection type =>
    simp only [hkind, List.mem_singleton] at hd
    subst hd
    obtain ⟨values, htake, rfl⟩ := call_command h
    obtain ⟨word, x, rest, rfl, hread, rfl⟩ := Parameter.takeAll_singleton
      (plain.required _ rfl type (List.mem_singleton.mpr rfl)) htake
    simp [given, hkind, command, Command.arity, hread, VariableKind.holding, Except.toOption]

end Variable

/-! ## Tables with variables -/

namespace Command

variable {σ ε : Type}

/-- The command leaves a variable alone, whatever its arguments are. -/
def LeavesAlone (values : σ → Variables) (name : Text) (c : Command σ ε) : Prop :=
  ∀ a, c.action = some a → ∀ arguments state,
    (values (a.run arguments state).2).lookup name = (values state).lookup name

theorem LeavesAlone.call {values : σ → Variables} {name : Text} {c : Command σ ε}
    (alone : c.LeavesAlone values name) (called : Text) (words : List Text) (state : σ) :
    (values (c.call called words state).2).lookup name = (values state).lookup name := by
  rw [Command.call]
  cases haction : c.action with
  | none => rfl
  | some a =>
    cases htake : Parameter.takeAll a.parameters words with
    | error e => simp [htake]
    | ok arguments =>
      have hrun := alone a haction arguments state
      rcases hresult : a.run arguments state with ⟨_ | _, after⟩ <;>
        simpa [htake, hresult] using hrun

end Command

namespace Commands

variable {σ ε : Type} {values : σ → Variables} {onVariables : (Variables → Variables) → σ → σ}
  {vs : List Variable} {table : Commands σ ε}

/-- **A table that was defined with variables**: their commands and others that leave
the variables alone were defined, in any order, and no name was taken. -/
structure DefinedWith (values : σ → Variables) (onVariables : (Variables → Variables) → σ → σ)
    (vs : List Variable) (table : Commands σ ε) : Prop where
  /-- The commands of variables change the variables of the state. -/
  values_onVariables : ∀ f state, values (onVariables f state) = f (values state)
  /-- The table was made by definitions. -/
  defined : ∃ help others defs,
    defs.Perm (vs.flatMap (·.commands onVariables) ++ others) ∧
    defineAll (standard help) defs = (table, none) ∧
    ∀ d ∈ others, ∀ v ∈ vs, d.2.LeavesAlone values v.name

/-- **A table serves a variable** if it has the commands of the variable, and all
others leave the variable alone. -/
structure Serves (values : σ → Variables) (onVariables : (Variables → Variables) → σ → σ)
    (v : Variable) (table : Commands σ ε) : Prop where
  /-- The commands of the variable have their names. -/
  own : ∀ d ∈ v.commands onVariables, table.lookup d.1 = some (some d.2)
  /-- Other names stand for commands that leave it alone. -/
  other : ∀ name c, table.lookup name = some (some c) →
    name ∉ (v.commands (ε := ε) onVariables).map Prod.fst → c.LeavesAlone values v.name

/-- **Distinct names keep variables apart.** -/
theorem DefinedWith.name_ne (made : DefinedWith values onVariables vs table) {v w : Variable}
    (hv : v ∈ vs) (hw : w ∈ vs) (hne : v ≠ w) : v.name ≠ w.name := by
  obtain ⟨help, others, defs, hperm, hdefined, -⟩ := made.defined
  obtain ⟨htable, hnodup⟩ := defineAll_eq hdefined
  replace hnodup := hnodup (nodup_standard help)
  rw [htable, names_append] at hnodup
  have hdefs : (defs.map Prod.fst).Nodup :=
    hnodup.of_append_right.sublist (sublist_names_entriesOf defs)
  rw [(hperm.map Prod.fst).nodup_iff, List.map_append, List.map_flatMap] at hdefs
  have hpairwise := (List.nodup_flatMap.mp hdefs.of_append_left).2
  have : Std.Symm (Function.onFun List.Disjoint fun v : Variable =>
      (v.commands (ε := ε) onVariables).map Prod.fst) := ⟨fun _ _ h _ hx hy => h hy hx⟩
  have hdisjoint := hpairwise.forall hv hw hne
  intro heq
  exact hdisjoint (Variable.name_mem_names v) (heq ▸ Variable.name_mem_names w)

/-- **A table that was defined with variables serves each of them.** -/
theorem DefinedWith.serves (made : DefinedWith values onVariables vs table) {v : Variable}
    (hv : v ∈ vs) : Serves values onVariables v table := by
  obtain ⟨help, others, defs, hperm, hdefined, hothers⟩ := made.defined
  obtain ⟨htable, hnodup⟩ := defineAll_eq hdefined
  replace hnodup := hnodup (nodup_standard help)
  have hmem {d : Text × Command σ ε} :
      d ∈ defs ↔ (∃ w ∈ vs, d ∈ w.commands onVariables) ∨ d ∈ others := by
    rw [hperm.mem_iff, List.mem_append, List.mem_flatMap]
  constructor
  · intro d hd
    have hentry : (d.1, some d.2) ∈ entriesOf defs :=
      List.mem_flatMap.mpr ⟨d, hmem.mpr (.inl ⟨v, hv, hd⟩), by simp [under]⟩
    exact (lookup_eq_some_iff_of_nodup hnodup).mpr (htable ▸ List.mem_append_right _ hentry)
  · intro name c hlookup hname
    have hentry := mem_of_lookup hlookup
    rw [htable] at hentry
    rcases List.mem_append.mp hentry with hentry | hentry
    · obtain ⟨c', hc', -, haction⟩ := action_of_mem_standard hentry
      obtain rfl : c = c' := Option.some.inj hc'
      intro a ha arguments state
      obtain rfl := Option.some.inj (haction.symm.trans ha)
      rfl
    · obtain ⟨d, hd, hunder⟩ := List.mem_flatMap.mp hentry
      obtain ⟨n, hn, heq⟩ := List.mem_map.mp hunder
      obtain ⟨rfl, rfl⟩ : n = name ∧ d.2 = c := by simpa using heq
      rcases hmem.mp hd with ⟨w, hw, hdw⟩ | hd
      · obtain ⟨parameters, change, hcommand⟩ := Variable.mem_commands hdw
        have hne : w ≠ v := by
          rintro rfl
          rw [hcommand] at hn
          obtain rfl : n = d.1 := List.mem_singleton.mp hn
          exact hname (List.mem_map_of_mem hdw)
        intro a ha arguments state
        rw [hcommand] at ha
        obtain rfl := Option.some.inj ha
        simp [made.values_onVariables, Variables.lookup_update, made.name_ne hv hw hne.symm]
      · exact hothers d hd v hv

/-- What one command does to a variable. -/
theorem Serves.call {v : Variable} (served : Serves values onVariables v table)
    (lawful : ∀ f state, values (onVariables f state) = f (values state))
    (plain : IsPlain table) {name : Text} {c : Command σ ε}
    (hlookup : table.lookup name = some (some c)) {words : List Text} {state after : σ}
    (hcall : c.call name words state = (.ok (), after)) {content : Content}
    (hcontent : (values state).lookup v.name = some content) :
    (values after).lookup v.name = some
      (v.kind.holding content (v.given (name, words.take c.arity)).toList) := by
  by_cases hname : name ∈ (v.commands (ε := ε) onVariables).map Prod.fst
  · obtain ⟨d, hd, rfl⟩ := List.mem_map.mp hname
    obtain rfl : d.2 = c := by simpa [served.own d hd] using hlookup
    rw [Variable.call_commands hd (plain.of_lookup hlookup) hcall, lawful,
      Variables.lookup_update, if_pos rfl, hcontent]
    rfl
  · have halone := (served.other name c hlookup hname).call name words state
    rw [hcall] at halone
    rw [halone, hcontent, Variable.given_eq_none hname]
    simp

/-- **What an accepted line does to a variable**: its content is made from the calls
that give it a value, in order. -/
theorem Serves.run {v : Variable} (served : Serves values onVariables v table)
    (lawful : ∀ f state, values (onVariables f state) = f (values state))
    (plain : IsPlain table) {words : List Text} {state after : σ}
    (h : run table words state = (.ok (), after)) {content : Content}
    (hcontent : (values state).lookup v.name = some content) :
    (values after).lookup v.name = some
      (v.kind.holding content ((calls table words).filterMap v.given)) := by
  induction table, words, state using run.induct generalizing content with
  | case1 table state =>
    obtain rfl : state = after := by simpa using h
    simpa using hcontent
  | case2 table state word rest name hlookup => rw [run_of_unknown hlookup] at h; cases h
  | case3 table state word rest name hlookup => rw [run_of_announced hlookup] at h; cases h
  | case4 table state word rest name c hlookup e after hcall =>
    rw [run_of_call_error hlookup hcall] at h; cases h
  | case5 table state word rest name c hlookup between hcall e hreveal =>
    rw [run_of_reveal_error hlookup hcall hreveal] at h; cases h
  | case6 table state word rest name c hlookup between hcall visible hreveal ih =>
    obtain rfl : table = visible := by
      simpa [(plain.of_lookup hlookup).reveal_eq] using hreveal
    rw [run_of_reveal hlookup hcall hreveal] at h
    have hbetween := served.call lawful plain hlookup hcall hcontent
    have hsplit : (calls table (word :: rest)).filterMap v.given
        = (v.given (name, rest.take c.arity)).toList
          ++ (calls table (rest.drop c.arity)).filterMap v.given := by
      rw [calls_cons hlookup, List.filterMap_cons]
      cases v.given (name, rest.take c.arity) <;> rfl
    rw [hsplit, VariableKind.holding_append]
    exact ih served plain h hbetween

end Commands

/-! ## The command line of the program -/

namespace CommandLine

/-- The commands of the program are plain. -/
theorem isPlain_commands : commands.IsPlain := by
  decide +kernel

/-- The table of the program was defined with its flags; the flags for the log
leave them alone. -/
theorem definedWith_flags :
    commands.DefinedWith Options.values Options.onValues flags where
  values_onVariables _ _ := rfl
  defined := by
    refine ⟨(), Level.commands Options.setLevel, _, .refl _, Prod.ext rfl (by decide +kernel), ?_⟩
    intro d hd v _ a ha arguments state
    obtain ⟨⟨word, level⟩, -, rfl⟩ := List.mem_map.mp hd
    obtain rfl := Option.some.inj ha
    rfl

end CommandLine

/-! ## Two lines in one -/

/-- **Command lines compose.** Over a plain table, a line that is accepted can be
followed by any other, and the two in one do what they do one after the other; a
line that is refused, other than for a missing argument, is refused in the same way
and leaves the same state whatever follows. So after an accepted line, each variable
has the last value given to it, each switch is what it was put to last, and each
collection has all its values in order, whatever stands between them. -/
theorem Commands.run_composes {σ ε : Type} (table : Commands σ ε) (plain : IsPlain table) :
    (∀ xs ys state after, run table xs state = (.ok (), after) →
      run table (xs ++ ys) state = run table ys after) ∧
    (∀ xs ys state e after, run table xs state = (.error e, after) →
      (∀ name type, e ≠ .argument name (.missing type)) →
      run table (xs ++ ys) state = (.error e, after)) ∧
    (∀ (values : σ → Variables) (onVariables : (Variables → Variables) → σ → σ)
      (vs : List Variable), DefinedWith values onVariables vs table →
      ∀ words state after, run table words state = (.ok (), after) →
      ∀ v ∈ vs, ∀ content, (values state).lookup v.name = some content →
        (values after).lookup v.name = some
          (v.kind.holding content ((calls table words).filterMap v.given))) := by
  refine ⟨?accepted, ?refused, ?contents⟩
  case accepted =>
    intro xs ys state after hrun
    rw [run_append plain (by simp [hrun]), hrun]
  case refused =>
    intro xs ys state e after hrun hother
    rw [run_append plain, hrun]
    intro name type after' hmissing
    exact hother name type (Except.error.inj (Prod.mk.inj (hrun.symm.trans hmissing)).1)
  case contents =>
    intro values onVariables vs made words state after hrun v hv content hcontent
    exact (made.serves hv).run made.values_onVariables plain hrun hcontent

/-- A flag given twice, a switch turned on and off again, and a value that looks like
a flag, with a flag of the log between them. -/
theorem CommandLine.run_composes_flags :
    let config : Variable := ⟨"-config", .collection .text⟩
    let alpha : Variable := ⟨"-alpha", .switch⟩
    let halt : Variable := ⟨"-halt", .single .text⟩
    let first : List Text := ["-config", "a", "-alpha", "-log-debug", "-config", "b"]
    let second : List Text := ["!-alpha", "-halt", "-alpha"]
    let refused : List Text := ["-alpha", "-none"]
    let between := (commands.run first {}).2
    let after := (commands.run second between).2
    commands.run (first ++ second) {} = commands.run second between ∧
    commands.run (refused ++ second) {}
      = (.error (.unknown "-none"), (commands.run refused {}).2) ∧
    after.values.lookup config.name = some (.many [.text "a", .text "b"]) ∧
    after.values.lookup alpha.name = some (.one (.bool false)) ∧
    after.values.lookup halt.name = some (.one (.text "-alpha")) := by
  intro config alpha halt first second refused between after
  obtain ⟨accepted, stopped, contents⟩ := Commands.run_composes commands isPlain_commands
  have hfirst : commands.run first {} = (.ok (), between) := Prod.ext (by decide +kernel) rfl
  have hsecond : commands.run second between = (.ok (), after) :=
    Prod.ext (by decide +kernel) rfl
  have hrefused : commands.run refused {}
      = (.error (.unknown "-none"), (commands.run refused {}).2) :=
    Prod.ext (by decide +kernel) rfl
  have hwhole := accepted first second {} between hfirst
  have holds := contents Options.values Options.onValues flags definedWith_flags
    (first ++ second) {} after (hwhole.trans hsecond)
  refine ⟨hwhole, stopped refused second {} _ _ hrefused (by simp), ?_, ?_, ?_⟩
  · exact (holds config (by decide +kernel) (.many []) (by decide +kernel)).trans
      (by decide +kernel)
  · exact (holds alpha (by decide +kernel) (.one (.bool false)) (by decide +kernel)).trans
      (by decide +kernel)
  · exact (holds halt (by decide +kernel) (.one (.text [])) (by decide +kernel)).trans
      (by decide +kernel)

end PassingStyle
