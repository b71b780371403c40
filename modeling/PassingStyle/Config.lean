import PassingStyle.Config.Language
import PassingStyle.Config.Path
import PassingStyle.Config.Reading
import PassingStyle.Config.Schema

/-!
# Configuration

Configuration files are read as documents: scalars, lists, and objects whose fields are
unified where a name is given twice. This is one `ConfigLanguage`, `Config.documents`. It
knows a few schemas, but does not read any, apart from the one of settings.

A document may be checked against any schema when files are loaded, and read in other
ways than settings are.
-/

namespace PassingStyle

open Text

namespace Config

/-- **A way to read a value**, which fails on values of another type. -/
abbrev Decoder (α : Type) := Document → Option α

namespace Decoder

/-- A string. -/
def string : Decoder Text
  | .string s => some s
  | _ => none

/-- An integer that fits into 64 bits together with its opposite. -/
def int : Decoder Int
  | .int n => if n.natAbs < Nat.pow 2 63 then some n else none
  | _ => none

/-- A truth value. -/
def bool : Decoder Bool
  | .bool b => some b
  | _ => none

/-- A list, which may also be absent. -/
def list (item : Decoder α) : Decoder (Option (List α))
  | .null => some none
  | .list values => (values.mapM item).map some
  | _ => none

end Decoder

/-- What a path leads to in a document: a value, or nothing. A path that makes no
sense is found in every document, and is wrong in each. -/
def look (path : Text) (d : Document) : Option (Except ConfigError Document) :=
  match Path.parse? path with
  | none => some (.error (.badPath path))
  | some steps => (d.select steps).map .ok

end Config

/-- The schema of settings. -/
def Settings.schema : Schema :=
  .object true [("cps", .object false [
    ("halt", .string),
    ("primitives", .list .string),
    ("alphatize", .bool),
    ("strict", .bool)])]

namespace Config

/-- The schema that a text denotes. Only the one of settings is known. -/
def schema? (text : Text) : Option Schema :=
  if text = ConfigLanguage.closed Settings.schemaBody then some Settings.schema else none

/-- **The language of documents.** A list that is absent is an empty one. -/
def documents : ConfigLanguage where
  Value := Document
  Schema := Schema
  value? := Document.parse?
  schema? := schema?
  accepts := Schema.accepts
  look? := look
  text? := Decoder.string
  truth? := Decoder.bool
  texts? d := (Decoder.list Decoder.string d).map (·.getD [])

/-- **Loading files**, once the schema makes sense. -/
def load (files : Files) (schema : Schema) (names : List Text) :
    Except ConfigError (List Document) :=
  if schema.isValid then documents.loadFiles files (some schema) names else .error .schema

/-- **The first value at a path.** -/
def find (ds : List Document) (decoder : Decoder α) (path : Text) : Except ConfigError α :=
  ConfigLanguage.find (L := documents) ds decoder path

/-- **The first value at a path**, or the given one if there is none. -/
def first (ds : List Document) (decoder : Decoder α) (zero : α) (path : Text) :
    Except ConfigError α :=
  ConfigLanguage.first (L := documents) ds decoder zero path

/-- **All values at a path**, up to the first of another type. -/
def all (ds : List Document) (decoder : Decoder α) (path : Text) :
    List α × Option ConfigError :=
  ConfigLanguage.all (L := documents) ds decoder path

end Config

/-- **Loading settings** from configuration files. -/
def Settings.load (files : Files) (names : List Text) : Except ConfigError Settings :=
  loadFrom Config.documents files names

end PassingStyle
