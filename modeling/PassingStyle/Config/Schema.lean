import PassingStyle.Config.Document

/-!
# Schemas

A schema says which documents are acceptable: of which type a value is, and which
fields an object may have. Every field may be left out. An object is *closed* if
it may have no other fields than those that are mentioned, and open otherwise. The
value that stands for nothing is of no type.
-/

namespace PassingStyle

/-- **A schema.** -/
inductive Schema where
  /-- Anything goes. -/
  | any
  /-- A string. -/
  | string
  /-- An integer. -/
  | int
  /-- A truth value. -/
  | bool
  /-- A list whose elements follow a schema. -/
  | list (items : Schema)
  /-- An object, with schemas for some fields. -/
  | object (closed : Bool) (fields : List (Text × Schema))
  /-- A schema that makes no sense: with it nothing can be loaded. -/
  | invalid

namespace Schema

mutual

/-- **The document follows the schema.** -/
def accepts : Schema → Document → Bool
  | any, _ => true
  | string, .string _ => true
  | int, .int _ => true
  | bool, .bool _ => true
  | list items, .list values => values.all fun v => accepts items v
  | object closed fields, .object values =>
    values.all fun (name, v) => acceptsField closed fields name v
  | _, _ => false

/-- A field may have this value, given the schemas of fields. -/
def acceptsField (closed : Bool) : List (Text × Schema) → Text → Document → Bool
  | [], _, _ => !closed
  | (known, schema) :: rest, name, v =>
    if known = name then accepts schema v else acceptsField closed rest name v

end

/-- The schema makes sense. -/
def isValid : Schema → Bool
  | invalid => false
  | _ => true

end Schema

end PassingStyle
