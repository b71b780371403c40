import PassingStyle.Failure
import PassingStyle.Settings

/-!
# Configuration files in any language

The language of configuration files is not part of this development. What is used of
it is what a `ConfigLanguage` holds: the value that a text denotes, whether a value
follows a schema, what a path leads to in a value, and what a value is when a text, a
truth value or a list of texts is asked for. Each of these is about one value, and
knows nothing of other files.

Several files are consulted in order. All of them are read and checked before anything
is looked up, so a bad file spoils every look-up, whether or not it would have been
consulted. A value comes from the first file that has it; where values accumulate, every
file that has one contributes.

Settings are loaded that way: the first file that mentions a choice decides it, and the
primitives of all files are added to those that are always there.
-/

namespace PassingStyle

open Text

/-- **Why a look-up fails.** -/
inductive ConfigError where
  /-- The schema makes no sense. -/
  | schema
  /-- There is no such file. -/
  | missing (name : Text)
  /-- The file holds no document. -/
  | malformed (name : Text)
  /-- The document does not follow the schema. -/
  | rejected (name : Text)
  /-- The path makes no sense. -/
  | badPath (path : Text)
  /-- The value at this path is of another type than the one asked for. -/
  | wrongType (path : Text)
  /-- No file has a value at this path. -/
  | notFound (path : Text)
  deriving DecidableEq, Repr

/-- The message of an error. -/
def ConfigError.message : ConfigError → Text
  | schema => "schema: invalid"
  | missing name => (Failure.missingFile name).message
  | malformed name => name ++ ": malformed"
  | rejected name => name ++ ": does not follow the schema"
  | badPath path => path ++ ": no path"
  | wrongType path => path ++ ": wrong type"
  | notFound _ => "value not found"

/-- **A configuration language**, as far as loading depends on it. -/
structure ConfigLanguage where
  /-- The values that texts denote. -/
  Value : Type
  /-- The schemas that texts denote. -/
  Schema : Type
  /-- The value that the text of a file denotes, unless something is wrong with it. -/
  value? : Text → Option Value
  /-- The schema that a text denotes, unless something is wrong with it. -/
  schema? : Text → Option Schema
  /-- The value follows the schema. -/
  accepts : Schema → Value → Bool
  /-- What a path leads to in a value, if it leads to anything. The path itself may make no
  sense. -/
  look? : Text → Value → Option (Except ConfigError Value)
  /-- The value as a text. -/
  text? : Value → Option Text
  /-- The value as a truth value. -/
  truth? : Value → Option Bool
  /-- The value as a list of texts. -/
  texts? : Value → Option (List Text)

namespace ConfigLanguage

variable (L : ConfigLanguage)

/-! ## Loading -/

/-- The value of one file, which follows the schema if there is one. -/
def loadFile (files : Files) (schema : Option L.Schema) (name : Text) :
    Except ConfigError L.Value :=
  match files.lookup name with
  | none => .error (.missing name)
  | some text =>
    match L.value? text with
    | none => .error (.malformed name)
    | some v => if schema.all (L.accepts · v) then .ok v else .error (.rejected name)

/-- The values of several files, in order; the first bad one decides what is wrong. -/
def loadFiles (files : Files) (schema : Option L.Schema) :
    List Text → Except ConfigError (List L.Value)
  | [] => .ok []
  | name :: names =>
    match L.loadFile files schema name with
    | .error e => .error e
    | .ok v => (loadFiles files schema names).map (v :: ·)

/-- The text of a schema that allows no other fields at its top than those of a body. -/
def closed (body : Text) : Text :=
  "close(\x7b" ++ body ++ "\x7d)"

/-- **Loading files**, once the schema makes sense. It is given by its body, and an empty body
stands for no schema. -/
def load (files : Files) (body : Text) (names : List Text) : Except ConfigError (List L.Value) :=
  if body.isEmpty then L.loadFiles files none names
  else
    match L.schema? (closed body) with
    | none => .error .schema
    | some schema => L.loadFiles files (some schema) names

/-! ## Looking up -/

variable {L}

/-- What a path leads to, in the order of the files. -/
def values (vs : List L.Value) (path : Text) : List (Except ConfigError L.Value) :=
  vs.filterMap (L.look? path)

/-- Reading a value that was found. -/
def decode (decoder : L.Value → Option α) (path : Text) :
    Except ConfigError L.Value → Except ConfigError α
  | .error e => .error e
  | .ok v =>
    match decoder v with
    | some a => .ok a
    | none => .error (.wrongType path)

/-- **The first value at a path.** -/
def find (vs : List L.Value) (decoder : L.Value → Option α) (path : Text) :
    Except ConfigError α :=
  match values vs path with
  | [] => .error (.notFound path)
  | found :: _ => decode decoder path found

/-- **The first value at a path**, or the given one if there is none. -/
def first (vs : List L.Value) (decoder : L.Value → Option α) (zero : α) (path : Text) :
    Except ConfigError α :=
  match find vs decoder path with
  | .error (.notFound _) => .ok zero
  | result => result

/-- Reading values in order, up to the first that is wrong. -/
def decodeAll (decoder : L.Value → Option α) (path : Text) :
    List (Except ConfigError L.Value) → List α × Option ConfigError
  | [] => ([], none)
  | v :: vs =>
    match decode decoder path v with
    | .error e => ([], some e)
    | .ok a =>
      let (as, e) := decodeAll decoder path vs
      (a :: as, e)

/-- **All values at a path**, up to the first that is wrong. -/
def all (vs : List L.Value) (decoder : L.Value → Option α) (path : Text) :
    List α × Option ConfigError :=
  decodeAll decoder path (values vs path)

end ConfigLanguage

/-! ## Settings -/

namespace Settings

/-- The body of the schema of settings. -/
def schemaBody : Text :=
  "\ncps?: \x7b\n\thalt?: string\n\tprimitives?: [...string]\n\talphatize?: bool\n" ++
    "\tstrict?: bool\n\x7d\n"

/-- The texts in order, each kept at its first place only. -/
def distinct (ts : List Text) : List Text :=
  ts.foldl (fun kept t => if kept.contains t then kept else kept ++ [t]) []

/-- The settings that values make, which follow the schema. -/
def ofValues (L : ConfigLanguage) (vs : List L.Value) : Except ConfigError Settings := do
  let usual : Settings := {}
  let halt ← ConfigLanguage.first vs L.text? [] "cps.halt"
  let (added, error) := ConfigLanguage.all vs L.texts? "cps.primitives"
  match error with
  | some e => throw e
  | none => pure ()
  let alphatize ← ConfigLanguage.first vs L.truth? false "cps.alphatize"
  let strict ← ConfigLanguage.first vs L.truth? false "cps.strict"
  return {
    halt := if halt.isEmpty then usual.halt else halt
    primitives := distinct (usual.primitives ++ added.flatten)
    alphatize := alphatize
    strict := strict }

/-- **Loading settings** from configuration files in some language. Without files the usual
ones remain. -/
def loadFrom (L : ConfigLanguage) (files : Files) (names : List Text) :
    Except ConfigError Settings :=
  if names.isEmpty then .ok {}
  else
    match L.load files schemaBody names with
    | .error e => .error e
    | .ok vs => ofValues L vs

end Settings

end PassingStyle
