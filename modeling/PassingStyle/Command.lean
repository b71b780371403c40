import PassingStyle.Command.Parameter

/-!
# Commands

A command line is a sequence of words. A word names a command, the words after it
are the command's arguments, and the next word names a command again. A command
can have sub commands, whose names become visible for the rest of the line once
the command has run; the table that the line started with stays as it was, so the
next line sees none of them.

A name that is already visible cannot become visible again. Whether a sub command
clashes is found out after its parent has run, since only then is it added.
-/

namespace PassingStyle

open Text

/-- **What a command does**: with values for its parameters it changes a state,
and may fail for a reason of its own. -/
structure Action (σ ε : Type) where
  /-- The types of its parameters. -/
  parameters : List Parameter := []
  /-- What happens, given one value for each parameter. -/
  run : List Argument → σ → Except ε Unit × σ

/-- **A command**: an action, sub commands, or both. -/
structure Command (σ ε : Type) where
  /-- What tells the command from others: entries of a table that have the same
  label are one command under several names. -/
  label : Text
  /-- What it does, if anything. -/
  action : Option (Action σ ε) := none
  /-- The commands that it makes visible, by name. A name may be announced without
  a command behind it. -/
  subs : List (Text × Option (Command σ ε)) := []
  /-- What the usage says about it. -/
  description : Text := []
  /-- Further names for it. -/
  aliases : List Text := []

/-- **A table of commands**, by name. -/
abbrev Commands (σ ε : Type) := List (Text × Option (Command σ ε))

/-- **Why a command line stops.** -/
inductive CommandError (ε : Type) where
  /-- No command has this name. -/
  | unknown (name : Text)
  /-- The name was announced without a command behind it. -/
  | announced (name : Text)
  /-- An argument of the command is missing or wrong. -/
  | argument (name : Text) (cause : ArgumentError)
  /-- The command failed. -/
  | failed (reason : ε)
  /-- A sub command of the command has a name that is visible already. -/
  | clash (name sub : Text)
  deriving DecidableEq, Repr

/-- The message of an error, given the messages of failures. It names the command
whose argument is missing or wrong, unless the argument was right and could not be
kept. -/
def CommandError.message (reasonText : ε → Text) : CommandError ε → Text
  | unknown name => "unknown command: " ++ name
  | announced name => "no command: " ++ name
  | argument _ .nested => ArgumentError.nested.message
  | argument name cause => name ++ ": " ++ cause.message
  | failed reason => reasonText reason
  | clash name sub => "duplicated sub command: " ++ name ++ " " ++ sub

/-! ## Running a line -/

namespace Command

/-- The number of words that the command takes after its name. -/
def arity (c : Command σ ε) : Nat :=
  match c.action with
  | none => 0
  | some a => a.parameters.length

/-- Running the command with the words after its name. -/
def call (c : Command σ ε) (name : Text) (words : List Text) (state : σ) :
    Except (CommandError ε) Unit × σ :=
  match c.action with
  | none => (.ok (), state)
  | some a =>
    match Parameter.takeAll a.parameters words with
    | .error e => (.error (.argument name e), state)
    | .ok values =>
      match a.run values state with
      | (.ok (), state) => (.ok (), state)
      | (.error reason, state) => (.error (.failed reason), state)

/-- The table with the sub commands, none of which may be visible already. -/
def reveal (c : Command σ ε) (name : Text) (visible : Commands σ ε) :
    Except (CommandError ε) (Commands σ ε) :=
  match c.subs.find? fun sub => (visible.lookup sub.1).isSome with
  | some sub => .error (.clash name sub.1)
  | none => .ok (visible ++ c.subs)

end Command

/-- **Running a command line**, given the commands that are visible at its
start. -/
def Commands.run (visible : Commands σ ε) (words : List Text) (state : σ) :
    Except (CommandError ε) Unit × σ :=
  match words with
  | [] => (.ok (), state)
  | word :: rest =>
    let name := word.trim
    match visible.lookup name with
    | none => (.error (.unknown name), state)
    | some none => (.error (.announced name), state)
    | some (some c) =>
      match c.call name rest state with
      | (.error e, state) => (.error e, state)
      | (.ok (), state) =>
        match c.reveal name visible with
        | .error e => (.error e, state)
        | .ok visible => Commands.run visible (rest.drop c.arity) state
termination_by words.length
decreasing_by simp only [List.length_drop, List.length_cons]; omega

/-! ## Defining commands -/

namespace Commands

/-- The table with one command under several names, up to the first name that is
taken already. That name is returned as well. -/
def addAll (command : Command σ ε) :
    List Text → Commands σ ε → Commands σ ε × Option Text
  | [], table => (table, none)
  | name :: names, table =>
    if (table.lookup name).isSome then (table, some name)
    else addAll command names (table ++ [(name, some command)])

/-- **Defining a command** under its name and its aliases; the result tells which
name is taken already. -/
def define (table : Commands σ ε) (name : Text) (command : Command σ ε) :
    Commands σ ε × Option Text :=
  addAll command (name :: command.aliases) table

/-- Defining several commands, up to the first name that is taken already. -/
def defineAll (table : Commands σ ε) :
    List (Text × Command σ ε) → Commands σ ε × Option Text
  | [] => (table, none)
  | (name, command) :: rest =>
    match table.define name command with
    | (table, some taken) => (table, some taken)
    | (table, none) => defineAll table rest

/-- **The table that every command line starts from**: it has a command that
asks for the usage, which stops the line for the given reason. -/
def standard (help : ε) : Commands σ ε :=
  (define [] "-h" {
    label := "-h"
    action := some { run := fun _ state => (.error help, state) }
    description := "print this usage"
    aliases := ["help", "-help", "--help"] }).1

end Commands

/-- **Why something cannot become a command.** -/
inductive DefinitionError where
  /-- One of its names is taken already. -/
  | taken (name : Text)
  /-- It is a value of this type, and no function. -/
  | notFunction (type : Text)
  /-- It is a function whose result, of this type, does not tell a failure. -/
  | wrongResult (type : Text)
  /-- It is a function with several results. -/
  | manyResults
  deriving DecidableEq, Repr

namespace DefinitionError

/-- The message of an error. -/
def message : DefinitionError → Text
  | taken name => "duplicated command " ++ name
  | notFunction type => "must be function, got " ++ type
  | wrongResult type => "must return error, got " ++ type
  | manyResults => "must return 0 or 1 value"

end DefinitionError

/-- **The shape of what is offered as an action**, by the names of the types
involved. -/
inductive Shape where
  /-- A value that is no function. -/
  | value (type : Text)
  /-- A function with these results. -/
  | function (results : List Text)
  deriving DecidableEq, Repr

/-- An action has to be a function that returns nothing, or else a failure. -/
def Shape.check : Shape → Except DefinitionError Unit
  | value type => .error (.notFunction type)
  | function [] => .ok ()
  | function [type] => if type = "error" then .ok () else .error (.wrongResult type)
  | function (_ :: _ :: _) => .error .manyResults

/-! ## The usage -/

/-- A paragraph of the usage: the name it is about, the label and the aliases of
the command, and the text. -/
structure UsageEntry where
  /-- The name under which the table has the command. -/
  name : Text
  /-- The label of the command. -/
  label : Text
  /-- The further names of the command. -/
  aliases : List Text
  /-- The text of the paragraph. -/
  text : Text
  deriving DecidableEq, Repr

namespace UsageEntry

/-- The text of the entries in order, each command once and not under an
alias. -/
def paragraphs (shown : List Text) : List UsageEntry → Text
  | [] => []
  | e :: rest =>
    if shown.contains e.label || e.aliases.contains e.name then paragraphs shown rest
    else e.text ++ paragraphs (e.label :: shown) rest

/-- The usage of a whole table, in the order of names. -/
def render (entries : List UsageEntry) : Text :=
  paragraphs [] (entries.mergeSort fun a b => a.name.le b.name)

end UsageEntry

mutual

/-- The paragraph of one command: its names and description, and its sub
commands further to the right. -/
def Command.usage (indent name : Text) : Command σ ε → Text
  | ⟨_, _, subs, description, aliases⟩ =>
    indent ++ join ", " (name :: aliases) ++ "\t" ++ description ++ "\n"
      ++ UsageEntry.render (Command.usageEntries (indent ++ "  ") subs)

/-- The paragraphs of a table, in its own order. -/
def Command.usageEntries (indent : Text) : List (Text × Option (Command σ ε)) → List UsageEntry
  | [] => []
  | (_, none) :: rest => usageEntries indent rest
  | (name, some c) :: rest =>
    { name, label := c.label, aliases := c.aliases, text := Command.usage indent name c }
      :: usageEntries indent rest

end

/-- **The usage of a table of commands.** -/
def Commands.usage (table : Commands σ ε) : Text :=
  UsageEntry.render (Command.usageEntries [] table)

end PassingStyle
