import PassingStyle.Command

/-!
# Variables set by commands

Most commands only set a variable. A *single* variable has one command that takes
its value and one, with a dot at the end of its name, that takes it back. A
*switch* has one command that turns it on and one, with an exclamation mark in
front, that turns it off. A *collection* has one command, which adds a value every
time it is given.

The values are kept by the name of the variable. No two variables of a table have
the same name, since the commands named like them would clash.
-/

namespace PassingStyle

open Text

/-- What a variable keeps. -/
inductive VariableKind where
  /-- The last value given. -/
  | single (type : Parameter)
  /-- A truth value. -/
  | switch
  /-- All values given, in order. -/
  | collection (type : Parameter)
  deriving DecidableEq, Repr

/-- **The content of a variable.** -/
inductive Content where
  /-- One value. -/
  | one (value : Argument)
  /-- Any number of values. -/
  | many (values : List Argument)
  deriving DecidableEq, Repr

/-- What a variable keeps before any command was given. -/
def VariableKind.initial : VariableKind → Content
  | single type => .one type.zero
  | switch => .one (.bool false)
  | collection _ => .many []

/-- **The values of variables**, by name. -/
abbrev Variables := List (Text × Content)

namespace Variables

/-- The content of one variable changed; the variable must be there. -/
def update (vs : Variables) (name : Text) (f : Content → Content) : Variables :=
  vs.map fun entry => if entry.1 = name then (entry.1, f entry.2) else entry

/-- The text that a single variable holds, empty if there is none. -/
def text (vs : Variables) (name : Text) : Text :=
  match vs.lookup name with
  | some (.one (.text t)) => t
  | _ => []

/-- A switch is on. -/
def isOn (vs : Variables) (name : Text) : Bool :=
  vs.lookup name == some (.one (.bool true))

/-- The texts that a collection holds. -/
def texts (vs : Variables) (name : Text) : List Text :=
  match vs.lookup name with
  | some (.many values) => values.filterMap fun
    | .text t => some t
    | _ => none
  | _ => []

end Variables

/-- The content after one more value was added. -/
def Content.add (values : List Argument) : Content → Content
  | .one v => .one v
  | .many vs => .many (vs ++ values)

/-- **A variable.** -/
structure Variable where
  /-- Its name, which is also the name of its command. -/
  name : Text
  /-- What it keeps. -/
  kind : VariableKind
  deriving DecidableEq, Repr

namespace Variable

/-- A command that changes the content of the variable, given its
arguments. -/
def command (v : Variable) (onVariables : (Variables → Variables) → σ → σ)
    (label : Text) (parameters : List Parameter) (change : List Argument → Content → Content) :
    Command σ ε where
  label := label
  action := some {
    parameters := parameters
    run := fun values state => (.ok (), onVariables (·.update v.name (change values)) state) }

/-- The content that the last of some values makes. -/
def assigned (type : Parameter) (values : List Argument) : Content :=
  .one (values.getLast?.getD type.zero)

/-- **The commands of a variable.** `onVariables` says where a state keeps its
variables. -/
def commands (v : Variable) (onVariables : (Variables → Variables) → σ → σ) :
    List (Text × Command σ ε) :=
  let named (name : Text) (parameters : List Parameter)
      (change : List Argument → Content → Content) : Text × Command σ ε :=
    (name, v.command onVariables name parameters change)
  match v.kind with
  | .single type => [
      named v.name [type] fun values _ => assigned type values,
      named (v.name ++ ".") [] fun _ _ => .one type.zero]
  | .switch => [
      named v.name [] fun _ _ => .one (.bool true),
      named ("!" ++ v.name) [] fun _ _ => .one (.bool false)]
  | .collection type => [
      named v.name [type] fun values content => content.add values]

/-- The entry of a variable before any command was given. -/
def entry (v : Variable) : Text × Content :=
  (v.name, v.kind.initial)

end Variable

end PassingStyle
