import PassingStyle.Config.Mark

/-!
# Reading documents

A document is read from its tokens by a machine with a stack of open constructs: an
object or a list that awaits its end, or a name that awaits its value. The whole
text is an object without its brackets, and commas separate what an object or a list
holds; one more comma may stand before the end.

An object holds fields and values. A field is a name, a colon and a value, and the
value may be a field again, which makes an object of it. Everything that an object
holds is unified: fields with the same name, and values without a name with
everything else. So a text that holds nothing but one value is that value, and an
empty one is an empty object.
-/

namespace PassingStyle

open Text

namespace Document

/-- **An open construct.** -/
inductive Opened where
  /-- A list, with its elements so far, the last one first. -/
  | list (items : List Document)
  /-- An object, with what was unified so far. -/
  | object (content : Option Document)
  /-- A name whose value is awaited. -/
  | field (name : Text)

/-- What may come next. -/
inductive Awaiting where
  /-- A field or a value, or the end of the innermost object. -/
  | entry
  /-- A value, or the end of the innermost list. -/
  | item
  /-- A field or a value. -/
  | value
  /-- A number, after signs that change its sign or do not. -/
  | number (negative : Bool)
  /-- A colon, which makes a name of what was read, or what follows a value, if it is
  one. -/
  | colon (name : Option Text) (value : Option Document)
  /-- What follows a value. -/
  | rest (value : Document)

/-- **The state of reading**: the open constructs, the innermost first, and what
may come next. -/
structure Building where
  /-- The open constructs. -/
  opened : List Opened
  /-- What may come next. -/
  awaiting : Awaiting

namespace Building

/-- Nothing is read. -/
def start : Building := ⟨[.object none], .entry⟩

/-- The value that a word stands for. -/
def constant? (name : Text) : Option Document :=
  if name = "null" then some .null
  else if name = "true" then some (.bool true)
  else if name = "false" then some (.bool false)
  else none

/-- The name that a word is; private names are none. -/
def wordName? (name : Text) : Option Text :=
  if name.head? = some (byte '_') ∨ name.head? = some (byte '#') then none else some name

/-- A value may be a field here. -/
def allowsField : List Opened → Bool
  | .list _ :: _ => false
  | _ => true

/-- **A complete value** goes to the innermost construct; a name is thereby complete
as well. -/
def deliver : List Opened → Document → Option (List Opened)
  | [], _ => none
  | .list items :: outer, v => some (.list (v :: items) :: outer)
  | .object content :: outer, v =>
    (Document.join content v).map fun w => .object (some w) :: outer
  | .field name :: outer, v => deliver outer (.object [(name, v)])

/-- The value of an object. -/
def objectValue (content : Option Document) : Document :=
  content.getD (.object [])

/-- The end of the innermost list. -/
def endList : List Opened → Option Building
  | .list items :: outer => some ⟨outer, .rest (.list items.reverse)⟩
  | _ => none

/-- The end of the innermost object, which is not the whole text. -/
def endObject : List Opened → Option Building
  | .object content :: o :: outer => some ⟨o :: outer, .rest (objectValue content)⟩
  | _ => none

/-- What may come after a comma. -/
def afterComma : List Opened → Awaiting
  | .list _ :: _ => .item
  | _ => .entry

/-- A token where a value may stand. -/
def takeValue (opened : List Opened) (m : Mark) : Option Building :=
  match m with
  | .number v => some ⟨opened, .rest v⟩
  | .sign negative => some ⟨opened, .number negative⟩
  | .openList => some ⟨.list [] :: opened, .item⟩
  | .openObject => some ⟨.object none :: opened, .entry⟩
  | .string s =>
    if allowsField opened then some ⟨opened, .colon (some s) (some (.string s))⟩
    else some ⟨opened, .rest (.string s)⟩
  | .word w =>
    if allowsField opened then some ⟨opened, .colon (wordName? w) (constant? w)⟩
    else (constant? w).map fun v => ⟨opened, .rest v⟩
  | _ => none

/-- A token after a value. -/
def takeRest (opened : List Opened) (v : Document) (m : Mark) : Option Building :=
  match deliver opened v with
  | none => none
  | some opened =>
    match m with
    | .comma | .lineEnd => some ⟨opened, afterComma opened⟩
    | .closeList => endList opened
    | .closeObject => endObject opened
    | _ => none

/-- One token. -/
def step (b : Building) (m : Mark) : Option Building :=
  match b.awaiting, m with
  | .entry, .closeObject => endObject b.opened
  | .entry, m => takeValue b.opened m
  | .item, .closeList => endList b.opened
  | .item, m => takeValue b.opened m
  | .value, m => takeValue b.opened m
  | .number negative, .sign more => some ⟨b.opened, .number (negative != more)⟩
  | .number negative, .number v => some ⟨b.opened, .rest (if negative then v.negated else v)⟩
  | .number _, _ => none
  | .colon (some name) _, .colon => some ⟨.field name :: b.opened, .value⟩
  | .colon _ (some v), m => takeRest b.opened v m
  | .colon _ none, _ => none
  | .rest v, m => takeRest b.opened v m

/-- The document that is complete when nothing is open but the whole text. -/
def whole? : List Opened → Option Document
  | [.object content] => some (objectValue content)
  | _ => none

/-- The document that is complete when the tokens end. -/
def result? (b : Building) : Option Document :=
  match b.awaiting with
  | .entry => whole? b.opened
  | .colon _ (some v) | .rest v => (deliver b.opened v).bind whole?
  | _ => none

/-- The rest of the tokens. -/
def run (b : Building) : List Mark → Option Document
  | [] => b.result?
  | m :: rest => (b.step m).bind fun b => b.run rest

end Building

/-- **The document of a text.** -/
def parse? (t : Text) : Option Document :=
  (Mark.read? t).bind fun marks => Building.start.run marks

end Document

end PassingStyle
