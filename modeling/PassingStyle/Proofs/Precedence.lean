import Mathlib.Data.List.Nodup
import PassingStyle.Proofs.Schemas

/-!
# Earlier files take precedence

Settings come from several files. The first file that makes a choice decides it, and the primitives
of all files are collected. So the settings of a list of files are put together from those of its
parts: what the first part defines stays as it is, the second part decides the rest, and its
primitives come behind those of the first.

Two things stand in the way of reading this off the settings alone. A file may make a choice by a
value that looks like none, an empty name or a falsehood. The choice is settled all the same, even
if it is for the usual setting, so whether a field is defined is a question to the files
(`Settings.defines`). And a file that is wrong spoils everything, whether or not something is taken
from it.

Nothing else can go wrong if the language of the files does what it says: a value that follows the
schema of settings has values of the right types wherever settings are looked up. This is all that
is relied on, `ConfigLanguage.Typed`, besides what the type of a `ConfigLanguage` says already,
that a file is judged and read by itself. Then the look-ups never fail, and loading settings is
loading the files and gathering what they say (`Settings.load_eq`).
-/

namespace PassingStyle

open Text

namespace ConfigLanguage

/-! ## What is relied on -/

/-- **A decoder reads what is at a path** in every value that follows the schema of settings. -/
def Reads {α : Type} (L : ConfigLanguage) (decoder : L.Value → Option α) (path : Text) : Prop :=
  ∀ schema v found, L.schema? (closed Settings.schemaBody) = some schema →
    L.accepts schema v = true → L.look? path v = some found →
    ∃ w a, found = .ok w ∧ decoder w = some a

/-- **The values of a language are typed**: what follows the schema of settings can be read
wherever settings are looked up. -/
structure Typed (L : ConfigLanguage) : Prop where
  /-- The final continuation is a text. -/
  halt : L.Reads L.text? "cps.halt"
  /-- The primitives are a list of texts. -/
  primitives : L.Reads L.texts? "cps.primitives"
  /-- Whether variables are renamed is a truth value. -/
  alphatize : L.Reads L.truth? "cps.alphatize"
  /-- Whether gaps are errors is a truth value. -/
  strict : L.Reads L.truth? "cps.strict"

variable {L : ConfigLanguage}

/-! ## Loading several files -/

/-- The value that a file holds. -/
def valueOf? (L : ConfigLanguage) (files : Files) (name : Text) : Option L.Value :=
  (files.lookup name).bind L.value?

section Files

variable {files : Files} {schema : Option L.Schema} {name : Text} {names fs gs : List Text}
  {v : L.Value} {vs : List L.Value}

/-- A file is good if it holds a value that follows the schema. -/
theorem loadFile_eq_ok_iff :
    L.loadFile files schema name = .ok v ↔
      L.valueOf? files name = some v ∧ schema.all (L.accepts · v) = true := by
  rw [loadFile, valueOf?]
  cases files.lookup name with
  | none => simp
  | some text =>
    dsimp only [Option.bind_some]
    cases L.value? text with
    | none => simp
    | some w =>
      dsimp only
      split_ifs with hw
      · rw [Except.ok.injEq, Option.some.injEq]
        exact ⟨fun h => ⟨h, h ▸ hw⟩, And.left⟩
      · refine ⟨nofun, fun h => ?_⟩
        cases h.1
        exact absurd h.2 hw

/-- Files are loaded one by one. -/
theorem loadFiles_eq_mapM (files : Files) (schema : Option L.Schema) (names : List Text) :
    L.loadFiles files schema names = names.mapM (L.loadFile files schema) := by
  induction names with
  | nil => rfl
  | cons name names ih =>
    rw [loadFiles, List.mapM_cons, ih]
    cases L.loadFile files schema name with
    | error e => rfl
    | ok v => cases names.mapM (L.loadFile files schema) <;> rfl

/-- The files of two lists are loaded one list after the other. -/
theorem loadFiles_append (files : Files) (schema : Option L.Schema) (fs gs : List Text) :
    L.loadFiles files schema (fs ++ gs) = (do
      let vs ← L.loadFiles files schema fs
      let ws ← L.loadFiles files schema gs
      return vs ++ ws) := by
  rw [loadFiles_eq_mapM, loadFiles_eq_mapM, loadFiles_eq_mapM, List.mapM_append]

/-- **Files are loaded if all of them are good**, and make the list of their values. -/
theorem loadFiles_eq_ok_iff :
    L.loadFiles files schema names = .ok vs ↔
      vs = names.filterMap (L.valueOf? files) ∧
        ∀ name ∈ names, ∃ v, L.loadFile files schema name = .ok v := by
  induction names generalizing vs with
  | nil => simp [loadFiles, eq_comm]
  | cons name names ih =>
    rw [loadFiles, List.forall_mem_cons]
    cases hname : L.loadFile files schema name with
    | error e => simp
    | ok v =>
      rw [List.filterMap_cons_some (loadFile_eq_ok_iff.1 hname).1]
      cases hnames : L.loadFiles files schema names with
      | error e =>
        refine ⟨nofun, fun h => ?_⟩
        rw [ih.2 ⟨rfl, h.2.2⟩] at hnames
        cases hnames
      | ok vs' =>
        obtain ⟨rfl, hall⟩ := ih.1 hnames
        show Except.ok _ = _ ↔ _
        rw [Except.ok.injEq, eq_comm]
        exact ⟨fun h => ⟨h, ⟨v, rfl⟩, hall⟩, And.left⟩

end Files

/-! ## Looking up in several values -/

section Values

variable {α : Type} {decoder : L.Value → Option α} {path : Text} {vs ws : List L.Value}

theorem values_append : values (vs ++ ws) path = values vs path ++ values ws path :=
  List.filterMap_append

/-- **The decoder reads all there is** at a path. -/
def ReadsAll (decoder : L.Value → Option α) (path : Text) (vs : List L.Value) : Prop :=
  ∀ found ∈ values vs path, ∃ w a, found = .ok w ∧ decoder w = some a

/-- What a decoder reads of what was found. -/
def reading (decoder : L.Value → Option α) (found : Except ConfigError L.Value) : Option α :=
  found.toOption.bind decoder

theorem reading_ok {w : L.Value} {a : α} (h : decoder w = some a) :
    reading decoder (.ok w) = some a := h

/-- What a decoder reads where a path leads to, in the order of the files. -/
def contents (decoder : L.Value → Option α) (path : Text) (vs : List L.Value) : List α :=
  (values vs path).filterMap (reading decoder)

theorem contents_append :
    contents decoder path (vs ++ ws) = contents decoder path vs ++ contents decoder path ws := by
  rw [contents, values_append, List.filterMap_append, contents, contents]

/-- Nothing is read exactly where nothing is. -/
theorem contents_eq_nil_iff (h : ReadsAll decoder path vs) :
    contents decoder path vs = [] ↔ values vs path = [] := by
  rw [contents, List.filterMap_eq_nil_iff]
  refine ⟨fun hnone => List.eq_nil_iff_forall_not_mem.2 fun found hfound => ?_,
    fun hnil => by simp [hnil]⟩
  obtain ⟨w, a, rfl, ha⟩ := h found hfound
  exact nomatch (reading_ok ha).symm.trans (hnone _ hfound)

/-- **The first value counts.** -/
theorem first_eq (h : ReadsAll decoder path vs) (zero : α) :
    first vs decoder zero path = .ok ((contents decoder path vs).headD zero) := by
  rw [first, find, contents]
  cases hvalues : values vs path with
  | nil => rfl
  | cons found rest =>
    obtain ⟨w, a, rfl, ha⟩ := h found (by rw [hvalues]; exact List.mem_cons_self)
    rw [List.filterMap_cons_some (reading_ok ha)]
    dsimp only
    rw [decode, ha]
    rfl

/-- Values that can be read are all read. -/
theorem decodeAll_eq {found : List (Except ConfigError L.Value)}
    (h : ∀ x ∈ found, ∃ w a, x = .ok w ∧ decoder w = some a) :
    decodeAll decoder path found = (found.filterMap (reading decoder), none) := by
  induction found with
  | nil => rfl
  | cons x found ih =>
    obtain ⟨⟨w, a, rfl, ha⟩, hfound⟩ := List.forall_mem_cons.1 h
    rw [decodeAll, decode, ha, List.filterMap_cons_some (reading_ok ha)]
    dsimp only
    rw [ih hfound]

/-- **All values count** where values accumulate. -/
theorem all_eq (h : ReadsAll decoder path vs) :
    all vs decoder path = (contents decoder path vs, none) :=
  decodeAll_eq h

/-- The first content, when further values come behind: it is theirs only if there was none. -/
theorem headD_contents_append {defined : Bool} (h : ReadsAll decoder path vs)
    (hdefined : defined = false ↔ values vs path = []) (zero : α) :
    (contents decoder path (vs ++ ws)).headD zero =
      if defined then (contents decoder path vs).headD zero
      else (contents decoder path ws).headD zero := by
  rw [← contents_eq_nil_iff h] at hdefined
  rw [contents_append]
  cases hvs : contents decoder path vs with
  | nil => rw [hdefined.2 hvs]; rfl
  | cons a as =>
    have htrue : defined = true := by
      rw [← Bool.not_eq_false, hdefined, hvs]
      exact List.cons_ne_nil a as
    rw [htrue]
    rfl

/-- Values that were there already have no further contents. -/
theorem contents_subset (h : ws ⊆ vs) : contents decoder path ws ⊆ contents decoder path vs :=
  List.filterMap_subset _ (List.filterMap_subset _ h)

/-- The first content stays when no other contents come behind. -/
theorem headD_contents_append_of_subset (h : ws ⊆ vs) (zero : α) :
    (contents decoder path (vs ++ ws)).headD zero = (contents decoder path vs).headD zero := by
  have hcontents := @contents_subset _ _ decoder path _ _ h
  rw [contents_append]
  cases hvs : contents decoder path vs with
  | nil =>
    rw [hvs] at hcontents
    rw [List.subset_nil.1 hcontents]
    rfl
  | cons a as => rfl

/-- Values that follow the schema of settings are read. -/
theorem Reads.readsAll {schema : L.Schema} (h : L.Reads decoder path)
    (hschema : L.schema? (closed Settings.schemaBody) = some schema)
    (hvs : ∀ v ∈ vs, L.accepts schema v = true) : ReadsAll decoder path vs := by
  intro found hfound
  obtain ⟨v, hv, hlook⟩ := List.mem_filterMap.1 hfound
  exact h schema v found hschema (hvs v hv) hlook

end Values

end ConfigLanguage

namespace Settings

/-! ## Distinct texts -/

/-- Whether a text is left when others are removed. -/
theorem mem_removeAll {t : Text} {ts us : List Text} :
    t ∈ ts.removeAll us ↔ t ∈ ts ∧ t ∉ us := by
  simp [List.removeAll]

/-- Nothing is left of texts that are all removed. -/
theorem removeAll_of_subset {ts us : List Text} (h : ts ⊆ us) : ts.removeAll us = [] :=
  List.eq_nil_iff_forall_not_mem.2 fun _ ht => (mem_removeAll.1 ht).2 (h (mem_removeAll.1 ht).1)

/-- A text is removed as well only if it is not removed already. -/
theorem removeAll_removeAll_of_subset {ts us vs : List Text} (h : us ⊆ vs) :
    (ts.removeAll us).removeAll vs = ts.removeAll vs := by
  rw [List.removeAll, List.removeAll, List.removeAll, List.filter_filter]
  refine List.filter_congr fun t _ => ?_
  by_cases ht : t ∈ us
  · simp [ht, h ht]
  · simp [ht]

/-- **Texts that join others** do so unless they are there already. -/
theorem foldl_distinct (kept ts : List Text) :
    ts.foldl (fun kept t => if kept.contains t then kept else kept ++ [t]) kept =
      kept ++ (distinct ts).removeAll kept := by
  induction ts generalizing kept with
  | nil => simp [distinct]
  | cons t ts ih =>
    have hdistinct : distinct (t :: ts) = t :: (distinct ts).removeAll [t] := ih [t]
    rw [List.foldl_cons, ih, hdistinct, List.cons_removeAll]
    by_cases ht : t ∈ kept
    · have hcontains : kept.contains t = true := List.contains_iff_mem.2 ht
      rw [hcontains, if_pos rfl, if_neg Bool.noConfusion,
        removeAll_removeAll_of_subset (List.cons_subset.2 ⟨ht, List.nil_subset kept⟩)]
    · have hcontains : kept.contains t = false := by simpa using ht
      rw [hcontains, if_neg Bool.noConfusion, if_pos rfl, List.append_assoc, List.singleton_append]
      simp [List.removeAll]

/-- The first text stays, and the others that are equal to it go. -/
theorem distinct_cons (t : Text) (ts : List Text) :
    distinct (t :: ts) = t :: (distinct ts).removeAll [t] :=
  foldl_distinct [t] ts

/-- **Distinct texts of two lists**: those of the first, and those of the second that are new. -/
theorem distinct_append (ts us : List Text) :
    distinct (ts ++ us) = distinct ts ++ (distinct us).removeAll (distinct ts) := by
  rw [distinct, List.foldl_append]
  exact foldl_distinct (distinct ts) us

theorem mem_distinct {t : Text} {ts : List Text} : t ∈ distinct ts ↔ t ∈ ts := by
  induction ts with
  | nil => rfl
  | cons u ts ih =>
    rw [distinct_cons, List.mem_cons, mem_removeAll, ih]
    by_cases htu : t = u <;> simp [htu]

theorem nodup_distinct (ts : List Text) : (distinct ts).Nodup := by
  induction ts with
  | nil => exact List.nodup_nil
  | cons t ts ih =>
    rw [distinct_cons, List.nodup_cons]
    exact ⟨fun ht => (mem_removeAll.1 ht).2 (List.mem_singleton_self t), ih.filter _⟩

/-- Texts that were there already are not added. -/
theorem distinct_append_of_subset {ts us : List Text} (h : us ⊆ ts) :
    distinct (ts ++ us) = distinct ts := by
  have hnone : (distinct us).removeAll (distinct ts) = [] :=
    removeAll_of_subset fun t ht => mem_distinct.2 (h (mem_distinct.1 ht))
  rw [distinct_append, hnone, List.append_nil]

/-- **Texts added to the usual ones** in two steps, each of which has the usual ones already. -/
theorem distinct_append_append (usual ts us : List Text) :
    distinct (usual ++ (ts ++ us)) = distinct (usual ++ ts) ++
      (distinct (usual ++ us)).removeAll (distinct (usual ++ ts)) := by
  have husual : distinct usual ⊆ distinct (usual ++ ts) := fun t ht =>
    mem_distinct.2 (List.mem_append_left ts (mem_distinct.1 ht))
  have hsplit : (distinct (usual ++ us)).removeAll (distinct (usual ++ ts)) =
      (distinct us).removeAll (distinct (usual ++ ts)) := by
    rw [distinct_append usual us, List.removeAll, List.filter_append]
    show (distinct usual).removeAll _ ++ ((distinct us).removeAll _).removeAll _ = _
    rw [removeAll_of_subset husual, removeAll_removeAll_of_subset husual, List.nil_append]
  rw [← List.append_assoc, distinct_append, hsplit]

/-! ## The settings of values -/

open ConfigLanguage

variable {L : ConfigLanguage}

/-- The path to a field of the settings. -/
def place (field : Text) : Text := "cps." ++ field

theorem place_halt : place "halt" = "cps.halt" := by decide +kernel

theorem place_primitives : place "primitives" = "cps.primitives" := by decide +kernel

theorem place_alphatize : place "alphatize" = "cps.alphatize" := by decide +kernel

theorem place_strict : place "strict" = "cps.strict" := by decide +kernel

/-- The primitives that values add to the usual ones. -/
def added (vs : List L.Value) : List Text :=
  (contents L.texts? (place "primitives") vs).flatten

theorem added_append (vs ws : List L.Value) :
    added (L := L) (vs ++ ws) = added vs ++ added ws := by
  rw [added, contents_append, List.flatten_append, added, added]

/-- Values that were there already add nothing. -/
theorem added_subset {vs ws : List L.Value} (h : ws ⊆ vs) :
    added (L := L) ws ⊆ added vs := by
  intro t ht
  obtain ⟨ts, hts, ht⟩ := List.mem_flatten.1 ht
  exact List.mem_flatten.2 ⟨ts, contents_subset h hts, ht⟩

/-- **The settings that values make**, if the values follow the schema. -/
def gathered (vs : List L.Value) : Settings where
  halt :=
    let halt := (contents L.text? (place "halt") vs).headD []
    if halt.isEmpty then ({} : Settings).halt else halt
  primitives := distinct (({} : Settings).primitives ++ added vs)
  alphatize := (contents L.truth? (place "alphatize") vs).headD false
  strict := (contents L.truth? (place "strict") vs).headD false

theorem primitives_gathered (vs : List L.Value) :
    (gathered vs).primitives = distinct (({} : Settings).primitives ++ added vs) := by
  rw [gathered]

/-- **Values that follow the schema can be read**, for every field. -/
structure Readable (vs : List L.Value) : Prop where
  halt : ReadsAll L.text? (place "halt") vs
  primitives : ReadsAll L.texts? (place "primitives") vs
  alphatize : ReadsAll L.truth? (place "alphatize") vs
  strict : ReadsAll L.truth? (place "strict") vs

theorem ofValues_eq {vs : List L.Value} (h : Readable vs) : ofValues L vs = .ok (gathered vs) := by
  have hhalt := first_eq h.halt []
  have hprimitives := all_eq h.primitives
  have halphatize := first_eq h.alphatize false
  have hstrict := first_eq h.strict false
  rw [ofValues, ← place_halt, ← place_primitives, ← place_alphatize, ← place_strict, hhalt,
    hprimitives, halphatize, hstrict]
  rfl

/-- **The values of the files**, checked; without files nothing is checked. -/
def checked (L : ConfigLanguage) (files : Files) (names : List Text) :
    Except ConfigError (List L.Value) :=
  if names.isEmpty then .ok [] else L.load files schemaBody names

theorem schemaBody_isEmpty : schemaBody.isEmpty = false := by decide +kernel

/-- The schema makes no sense, and no file can be loaded. -/
theorem checked_of_none (h : L.schema? (closed schemaBody) = none) (files : Files)
    (names : List Text) :
    checked L files names = if names.isEmpty then .ok [] else .error .schema := by
  rw [checked, ConfigLanguage.load, schemaBody_isEmpty, h]
  rfl

/-- The schema makes sense, and all files are checked against it. -/
theorem checked_of_some {schema : L.Schema} (h : L.schema? (closed schemaBody) = some schema)
    (files : Files) (names : List Text) :
    checked L files names = L.loadFiles files (some schema) names := by
  rw [checked, ConfigLanguage.load, schemaBody_isEmpty, h]
  cases names with
  | nil => rfl
  | cons name names => rfl

/-- Files of two lists are checked one list after the other. -/
theorem checked_append (files : Files) (fs gs : List Text) :
    checked L files (fs ++ gs) = (do
      let vs ← checked L files fs
      let ws ← checked L files gs
      return vs ++ ws) := by
  cases hschema : L.schema? (closed schemaBody) with
  | none =>
    simp only [checked_of_none hschema]
    cases fs with
    | nil => cases gs <;> rfl
    | cons f fs => rfl
  | some schema =>
    simp only [checked_of_some hschema]
    exact loadFiles_append files _ fs gs

/-- What is known of checked files: they make the list of their values, and these follow the
schema. -/
theorem of_checked {files : Files} {names : List Text} {vs : List L.Value}
    (h : checked L files names = .ok vs) : vs = names.filterMap (L.valueOf? files) ∧
      ∀ v ∈ vs, ∃ schema, L.schema? (closed schemaBody) = some schema ∧
        L.accepts schema v = true := by
  cases hschema : L.schema? (closed schemaBody) with
  | none =>
    rw [checked_of_none hschema] at h
    cases names with
    | nil =>
      cases h
      exact ⟨rfl, nofun⟩
    | cons name names => exact nomatch h
  | some schema =>
    rw [checked_of_some hschema] at h
    obtain ⟨rfl, hgood⟩ := loadFiles_eq_ok_iff.1 h
    refine ⟨rfl, fun v hv => ⟨schema, rfl, ?_⟩⟩
    obtain ⟨name, hname, hv⟩ := List.mem_filterMap.1 hv
    obtain ⟨w, hw⟩ := hgood name hname
    obtain ⟨hw, haccepts⟩ := loadFile_eq_ok_iff.1 hw
    obtain rfl := Option.some.inj (hv.symm.trans hw)
    exact haccepts

/-- Checked values can be read. -/
theorem readable_of_checked (hL : L.Typed) {files : Files} {names : List Text}
    {vs : List L.Value} (h : checked L files names = .ok vs) : Readable vs := by
  have hreads : ∀ {α : Type} {decoder : L.Value → Option α} {path : Text},
      L.Reads decoder path → ReadsAll decoder path vs := by
    intro α decoder path hpath found hfound
    obtain ⟨v, hv, hlook⟩ := List.mem_filterMap.1 hfound
    obtain ⟨schema, hschema, haccepts⟩ := (of_checked h).2 v hv
    exact hpath schema v found hschema haccepts hlook
  constructor
  · rw [place_halt]
    exact hreads hL.halt
  · rw [place_primitives]
    exact hreads hL.primitives
  · rw [place_alphatize]
    exact hreads hL.alphatize
  · rw [place_strict]
    exact hreads hL.strict

/-- **Loading settings**: the files are loaded and checked, and then nothing can fail. -/
theorem load_eq (hL : L.Typed) (files : Files) (names : List Text) :
    loadFrom L files names = (checked L files names).map gathered := by
  cases names with
  | nil => rfl
  | cons name names =>
    have hload : checked L files (name :: names) = L.load files schemaBody (name :: names) := rfl
    rw [loadFrom, if_neg Bool.noConfusion, hload]
    cases hvs : L.load files schemaBody (name :: names) with
    | error e => rfl
    | ok vs => exact ofValues_eq (readable_of_checked hL (hload.trans hvs))

/-- No primitive is there twice. -/
theorem nodup_primitives (hL : L.Typed) {files : Files} {names : List Text} {r : Settings}
    (h : loadFrom L files names = .ok r) : r.primitives.Nodup := by
  rw [load_eq hL] at h
  cases hfiles : checked L files names with
  | error e =>
    rw [hfiles] at h
    cases h
  | ok vs =>
    rw [hfiles] at h
    cases h
    exact nodup_distinct _

/-! ## Further files -/

/-- **One of the files defines a field**, whatever the value is. -/
def defines (L : ConfigLanguage) (files : Files) (names : List Text) (field : Text) : Bool :=
  names.any fun name => ((L.valueOf? files name).bind (L.look? (place field))).isSome

/-- **The settings of some files when others come behind them**: a field that the former define
keeps its value, the other fields are those of the latter, and the primitives of the latter come
behind those of the former unless they are there already. -/
def followedBy (s : Settings) (defined : Text → Bool) (t : Settings) : Settings where
  halt := if defined "halt" then s.halt else t.halt
  primitives := s.primitives ++ t.primitives.removeAll s.primitives
  alphatize := if defined "alphatize" then s.alphatize else t.alphatize
  strict := if defined "strict" then s.strict else t.strict

/-- **Nothing is taken back**: fields that are defined have the same values, and all primitives are
still there, in the same order. -/
structure Keeps (defined : Text → Bool) (s r : Settings) : Prop where
  halt : defined "halt" = true → r.halt = s.halt
  alphatize : defined "alphatize" = true → r.alphatize = s.alphatize
  strict : defined "strict" = true → r.strict = s.strict
  primitives : s.primitives <+: r.primitives

theorem keeps_followedBy (s : Settings) (defined : Text → Bool) (t : Settings) :
    Keeps defined s (s.followedBy defined t) where
  halt h := if_pos h
  alphatize h := if_pos h
  strict h := if_pos h
  primitives := List.prefix_append _ _

/-- Files do not define a field if there is nothing at its place in their values. -/
theorem defines_eq_false_iff {files : Files} {names : List Text} {field : Text} :
    defines L files names field = false ↔
      values (names.filterMap (L.valueOf? files)) (place field) = [] := by
  rw [defines, List.any_eq_false, values, List.filterMap_filterMap, List.filterMap_eq_nil_iff]
  simp only [Bool.not_eq_true, Option.isSome_eq_false_iff, Option.isNone_iff_eq_none]

/-- **The settings of more values** are those of the first ones, followed by the others'. -/
theorem gathered_append {vs ws : List L.Value} (h : Readable vs) {defined : Text → Bool}
    (hdefined : ∀ field, defined field = false ↔ values vs (place field) = []) :
    gathered (L := L) (vs ++ ws) = (gathered vs).followedBy defined (gathered ws) := by
  have hhalt : (gathered (L := L) (vs ++ ws)).halt =
      if defined "halt" then (gathered vs).halt else (gathered ws).halt := by
    rw [gathered, headD_contents_append h.halt (hdefined "halt")]
    cases defined "halt" <;> rfl
  have hprimitives : (gathered (L := L) (vs ++ ws)).primitives = (gathered vs).primitives ++
      (gathered ws).primitives.removeAll (gathered vs).primitives := by
    rw [primitives_gathered, primitives_gathered, primitives_gathered, added_append,
      distinct_append_append]
  have halphatize : (gathered (L := L) (vs ++ ws)).alphatize =
      if defined "alphatize" then (gathered vs).alphatize else (gathered ws).alphatize :=
    headD_contents_append h.alphatize (hdefined "alphatize") false
  have hstrict : (gathered (L := L) (vs ++ ws)).strict =
      if defined "strict" then (gathered vs).strict else (gathered ws).strict :=
    headD_contents_append h.strict (hdefined "strict") false
  rw [followedBy, ← hhalt, ← hprimitives, ← halphatize, ← hstrict]

/-- Values that were there already say nothing new. -/
theorem gathered_append_of_subset {vs ws : List L.Value} (h : ws ⊆ vs) :
    gathered (L := L) (vs ++ ws) = gathered vs := by
  rw [gathered, gathered, headD_contents_append_of_subset h,
    headD_contents_append_of_subset h, headD_contents_append_of_subset h,
    added_append, ← List.append_assoc, distinct_append_of_subset]
  exact List.subset_append_of_subset_right _ (added_subset h)

/-- **The settings of files in two lists.** -/
theorem load_append (hL : L.Typed) (files : Files) (fs gs : List Text) :
    loadFrom L files (fs ++ gs) = (do
      let s ← loadFrom L files fs
      let t ← loadFrom L files gs
      return s.followedBy (defines L files fs) t) := by
  rw [load_eq hL, load_eq hL, load_eq hL, checked_append]
  cases hfs : checked L files fs with
  | error e => rfl
  | ok vs =>
    cases checked L files gs with
    | error e => rfl
    | ok ws =>
      refine congrArg Except.ok (gathered_append (readable_of_checked hL hfs) fun field => ?_)
      rw [defines_eq_false_iff, ← (of_checked hfs).1]

/-- The settings of two lists of files are those of the first, followed by those of the second. -/
theorem load_append_eq_ok_iff (hL : L.Typed) {files : Files} {fs gs : List Text} {r : Settings} :
    loadFrom L files (fs ++ gs) = .ok r ↔
      ∃ s t, loadFrom L files fs = .ok s ∧ loadFrom L files gs = .ok t ∧
        s.followedBy (defines L files fs) t = r := by
  rw [load_append hL]
  cases loadFrom L files fs with
  | error e => exact ⟨nofun, fun ⟨_, _, h, _⟩ => nomatch h⟩
  | ok s =>
    cases loadFrom L files gs with
    | error e => exact ⟨nofun, fun ⟨_, _, _, h, _⟩ => nomatch h⟩
    | ok t =>
      constructor
      · exact fun h => ⟨s, t, rfl, rfl, Except.ok.inj h⟩
      · rintro ⟨_, _, hs, ht, rfl⟩
        cases hs
        cases ht
        rfl

/-- Files that were checked already are checked again with the same outcome. -/
theorem checked_of_subset {files : Files} {fs gs : List Text} {vs : List L.Value} (h : gs ⊆ fs)
    (hfs : checked L files fs = .ok vs) :
    checked L files gs = .ok (gs.filterMap (L.valueOf? files)) := by
  cases hschema : L.schema? (closed schemaBody) with
  | none =>
    rw [checked_of_none hschema] at hfs ⊢
    cases fs with
    | nil =>
      obtain rfl := List.subset_nil.1 h
      rfl
    | cons f fs => exact nomatch hfs
  | some schema =>
    rw [checked_of_some hschema] at hfs ⊢
    obtain ⟨-, hgood⟩ := loadFiles_eq_ok_iff.1 hfs
    exact loadFiles_eq_ok_iff.2 ⟨rfl, fun name hname => hgood name (h hname)⟩

/-- Files that were there already make no difference. -/
theorem load_append_of_subset (hL : L.Typed) (files : Files) {fs gs : List Text} (h : gs ⊆ fs) :
    loadFrom L files (fs ++ gs) = loadFrom L files fs := by
  rw [load_eq hL, load_eq hL, checked_append]
  cases hfs : checked L files fs with
  | error e => rfl
  | ok vs =>
    rw [checked_of_subset h hfs]
    refine congrArg Except.ok (gathered_append_of_subset ?_)
    rw [(of_checked hfs).1]
    exact List.filterMap_subset _ h

/-- **Files merge part by part**, in every language of configuration files whose values are typed.
Settings are loaded from two lists of files exactly if they are from each of them. A field that a
file of the first list defines is as in its settings, any other one is as in the settings of the
second list, and the primitives are those of the first followed by the new ones of the second,
without a repetition. So further files never change a field that an earlier one defines and never
remove a primitive, and files that are given again change nothing. -/
theorem load_composes (hL : L.Typed) (files : Files) (fs gs : List Text) :
    loadFrom L files (fs ++ gs) = (do
      let s ← loadFrom L files fs
      let t ← loadFrom L files gs
      return s.followedBy (defines L files fs) t) ∧
    ((∃ e, loadFrom L files (fs ++ gs) = .error e) ↔
      (∃ e, loadFrom L files fs = .error e) ∨ ∃ e, loadFrom L files gs = .error e) ∧
    (∀ r, loadFrom L files (fs ++ gs) = .ok r → r.primitives.Nodup ∧
      ∃ s, loadFrom L files fs = .ok s ∧ Keeps (defines L files fs) s r) ∧
    (gs ⊆ fs → loadFrom L files (fs ++ gs) = loadFrom L files fs) := by
  have happend := load_append hL files fs gs
  refine ⟨happend, ?_, fun r hr => ⟨nodup_primitives hL hr, ?_⟩, load_append_of_subset hL files⟩
  · rw [happend]
    cases loadFrom L files fs with
    | error e => exact ⟨fun _ => .inl ⟨e, rfl⟩, fun _ => ⟨e, rfl⟩⟩
    | ok s =>
      cases loadFrom L files gs with
      | error e => exact ⟨fun _ => .inr ⟨e, rfl⟩, fun _ => ⟨e, rfl⟩⟩
      | ok t => exact ⟨nofun, fun h => h.elim nofun nofun⟩
  · obtain ⟨s, t, hs, -, rfl⟩ := (load_append_eq_ok_iff hL).1 hr
    exact ⟨s, hs, keeps_followedBy s _ t⟩

end Settings

/-! ## Documents are typed -/

namespace Config

/-- The schema of settings is known. -/
theorem schema?_schemaBody :
    schema? (ConfigLanguage.closed Settings.schemaBody) = some Settings.schema := by
  rw [schema?, if_pos rfl]

/-- What a decoder for the schema of a field reads in documents that follow the schema of
settings. -/
theorem reads_documents {α : Type} {decoder : Document → Option α} {path : Text} {s : Schema}
    (steps : List Text) (hpath : Path.parse? path = some (steps.map .field))
    (hfield : Settings.schema.at? steps = some s) (hdecoder : Suits decoder s) :
    documents.Reads decoder path := by
  intro schema v found hschema haccepts hlook
  obtain rfl : Settings.schema = schema :=
    Option.some.inj (schema?_schemaBody.symm.trans hschema)
  change look path v = some found at hlook
  unfold look at hlook
  rw [hpath] at hlook
  obtain ⟨w, hw, rfl⟩ := Option.map_eq_some_iff.1 hlook
  obtain ⟨a, ha⟩ := hdecoder w (Schema.accepts_select haccepts hfield hw)
  exact ⟨w, a, rfl, ha⟩

/-- **Documents are typed.** -/
theorem typed_documents : documents.Typed where
  halt := reads_documents ["cps", "halt"] (by decide +kernel) rfl suits_string
  primitives := by
    refine reads_documents ["cps", "primitives"] (by decide +kernel) rfl fun v hv => ?_
    obtain ⟨ts, hts⟩ := suits_string.list v hv
    refine ⟨ts.getD [], ?_⟩
    show (Decoder.list Decoder.string v).map (·.getD []) = _
    rw [hts]
    rfl
  alphatize := reads_documents ["cps", "alphatize"] (by decide +kernel) rfl suits_bool
  strict := reads_documents ["cps", "strict"] (by decide +kernel) rfl suits_bool

end Config

namespace Settings

/-- A file that chooses the usual end of programs by an empty name, one that chooses another end,
and one with a name that is none. -/
def threeFiles : Files :=
  [("a", "\x7b\"cps\":\x7b\"halt\":\"\",\"primitives\":[\"f\"]\x7d\x7d"),
   ("b", "\x7b\"cps\":\x7b\"halt\":\"k\",\"strict\":true,\"primitives\":[\"g\",\"f\"]\x7d\x7d"),
   ("c", "\x7b\"cps\":\x7b\"halt\":1\x7d\x7d")]

/-- The first file settles the end of programs, and the second one everything else; the third one
cannot come behind them. -/
theorem load_composes_three_files :
    load threeFiles (["a"] ++ ["b"]) =
      .ok ⟨"halt", ["+", "-", "*", "/", "f", "g"], false, true⟩ ∧
    (∃ s, load threeFiles ["a"] = .ok s ∧ Keeps (defines Config.documents threeFiles ["a"]) s
      ⟨"halt", ["+", "-", "*", "/", "f", "g"], false, true⟩) ∧
    defines Config.documents threeFiles ["a"] "halt" = true ∧
    load threeFiles (["a", "b"] ++ ["b", "a"]) = load threeFiles ["a", "b"] ∧
    ∃ e, load threeFiles (["a", "b"] ++ ["c"]) = .error e := by
  have hload : load threeFiles (["a"] ++ ["b"]) =
      .ok ⟨"halt", ["+", "-", "*", "/", "f", "g"], false, true⟩ := by
    rw [load, load_eq Config.typed_documents]
    decide +kernel
  have hwrong : load threeFiles ["c"] = .error (.rejected "c") := by
    decide +kernel
  have hdefined : defines Config.documents threeFiles ["a"] "halt" = true := by
    decide +kernel
  have hsubset : (["b", "a"] : List Text) ⊆ ["a", "b"] := by
    decide
  obtain ⟨-, -, hkeeps, -⟩ := load_composes Config.typed_documents threeFiles ["a"] ["b"]
  obtain ⟨-, -, -, hagain⟩ := load_composes Config.typed_documents threeFiles ["a", "b"] ["b", "a"]
  obtain ⟨-, hfails, -, -⟩ := load_composes Config.typed_documents threeFiles ["a", "b"] ["c"]
  exact ⟨hload, (hkeeps _ hload).2, hdefined, hagain hsubset, hfails.2 (.inr ⟨_, hwrong⟩)⟩

end Settings

end PassingStyle
